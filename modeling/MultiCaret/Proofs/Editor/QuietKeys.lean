import MultiCaret.Proofs.Editor.Steady
import MultiCaret.Proofs.Editor.UndoRedo
import MultiCaret.Proofs.SmartKey.Visible

/-!
# Keys that change no text

A key that may change the text puts the moment before it on the undo stack and takes it off again if the document has no
new version.  A new version always goes with other lines (`editing_shows`): what a plain keystroke puts in or takes out
adds up (`press_shows`), a smart key asks for no edits that cannot be seen (`react_shows`), and the newline behind a
comma is one more line.  So a key that leaves the lines leaves both stacks, as long as there is room on the undo stack.  On
a full stack the oldest moment has made room for one that is not kept (`handleKey_quiet`).
-/

namespace MultiCaret

namespace Editor

variable {e e' : Editor}

/-! ### Plain keystrokes -/

private theorem document_commit {cursors : List (Position × PlannedEdit)} {untouched : List Selection}
    (h : e.commit cursors untouched = .ok e') :
    BatchFits e.lines (editsBottomUp cursors) ∧ e'.document = e.document.afterBatch (editsBottomUp cursors) := by
  unfold commit at h
  split at h
  · next hempty =>
    rw [List.isEmpty_iff.1 hempty, ← Except.ok.inj h]
    exact ⟨batchFits_nil _, rfl⟩
  · cases ha : e.applyEdits (EditPlan.byCursor cursors).edits with
    | error f => simp only [ha, Except.map, reduceCtorEq] at h
    | ok e₁ =>
      obtain ⟨hfit, he₁⟩ := applyEdits_eq_ok_iff.1 ha
      obtain ⟨t, ht⟩ := e.updateDocument_eq (e.document.afterBatch (EditPlan.byCursor cursors).edits)
      obtain ⟨top, htop, -⟩ := reveal_eq (e₁.setSelections ((EditPlan.byCursor cursors).selections ++ untouched))
        (e₁.setSelections ((EditPlan.byCursor cursors).selections ++ untouched)).cursor
      simp only [ha, Except.map] at h
      refine ⟨hfit, ?_⟩
      rw [← Except.ok.inj h, revealCursor, htop, he₁, ht]
      rfl

/-- The edits of a keystroke show if they do not cancel out. -/
private theorem commit_shows (hwf : WellFormed e.lines) {cursors : List (Position × PlannedEdit)}
    {untouched : List Selection} (h : e.commit cursors untouched = .ok e')
    (hne : total ((cursors.map fun c => c.2.edit).map (Edit.shift e.lines)) ≠ 0) : e'.lines ≠ e.lines := by
  obtain ⟨hfit, hdoc⟩ := document_commit h
  have hshows : BatchShows e.document.lines (editsBottomUp cursors) := by
    refine batchShows_of_shift hwf hfit ?_
    rw [total_perm ((editsBottomUp_perm cursors).map _)]
    exact hne
  rw [lines, hdoc]
  exact hshows.lines_afterBatch_ne

private theorem typeText_shows (h : e.Ready) {t : Text} (ht : t ≠ []) (hp : e.typeText t = .ok e') :
    e'.lines ≠ e.lines := by
  have hne : e.selections ≠ [] := h.sound.settled.ne_nil
  refine commit_shows h.sound.wellFormed hp (Int.ne_of_gt (total_pos ?_ ?_))
  · simpa using hne
  · intro n hn
    rw [List.map_map, List.map_map] at hn
    obtain ⟨s, -, rfl⟩ := List.mem_map.1 hn
    have hpos := List.length_pos_iff.2 ht
    have hshift := Edit.shift_insert e.lines s.active t
    simp only [Function.comp, planInsert, hshift]
    omega

/-- A newline makes more lines. -/
private theorem length_newline (h : e.Ready) (hp : e.newline = .ok e') : e.lines.length < e'.lines.length := by
  rw [newline_eq_commit h.sound.wellFormed h.inBounds_active] at hp
  obtain ⟨hfit, hdoc⟩ := document_commit hp
  have hlen := length_afterBatch (d := e.document) h.sound.wellFormed hfit
  have hpos : 0 < total (((e.insertions (brokenLine e.lines)).map fun c => c.2.edit).map Edit.growth) := by
    refine total_pos ?_ ?_
    · have hne : e.selections ≠ [] := h.sound.settled.ne_nil
      simpa [insertions] using hne
    · intro n hn
      rw [insertions, List.map_map, List.map_map] at hn
      obtain ⟨s, -, rfl⟩ := List.mem_map.1 hn
      have hcount : 0 < (brokenLine e.lines s.active).count '\n' := List.count_pos_iff.2 List.mem_cons_self
      simp only [Function.comp, Edit.growth, Edit.insert]
      omega
  rw [total_perm ((editsBottomUp_perm _).map _), ← hdoc] at hlen
  simp only [lines]
  omega

private theorem mem_of_mapM_ok {α β ε : Type} {f : α → Except ε β} {l : List α} {ys : List β}
    (h : l.mapM f = .ok ys) : ∀ y ∈ ys, ∃ a ∈ l, f a = .ok y := by
  induction l generalizing ys with
  | nil =>
    intro y hy
    rw [← Except.ok.inj h] at hy
    cases hy
  | cons a l ih =>
    rw [List.mapM_cons] at h
    cases ha : f a with
    | error x =>
      rw [ha] at h
      cases h
    | ok y =>
      cases hl : l.mapM f with
      | error x =>
        rw [ha, hl] at h
        cases h
      | ok rest =>
        rw [ha, hl] at h
        intro z hz
        rw [← Except.ok.inj h] at hz
        rcases List.mem_cons.1 hz with rfl | hz
        · exact ⟨a, List.mem_cons_self, ha⟩
        · obtain ⟨b, hb, hfb⟩ := ih hl z hz
          exact ⟨b, List.mem_cons_of_mem a hb, hfb⟩

/-- A planned removal removes something. -/
private theorem planDelete_lt {lines : List Text} {p : Position} {x : PlannedEdit}
    (h : planDelete lines p = .ok (some x)) : x.edit.text = [] ∧ x.edit.start < x.edit.stop := by
  unfold planDelete placeBefore? at h
  split at h
  · next hcol =>
    rw [← Option.some.inj (Except.ok.inj h)]
    refine ⟨rfl, Or.inr ⟨rfl, ?_⟩⟩
    simp only [Edit.erase]
    omega
  · split at h
    · next hline =>
      cases hl : lineFor lines (p.line - 1) with
      | error f =>
        rw [hl] at h
        cases h
      | ok l =>
        rw [hl] at h
        rw [← Option.some.inj (Except.ok.inj h)]
        refine ⟨rfl, Or.inl ?_⟩
        simp only [Edit.erase]
        omega
    · cases h

private theorem delete_shows (h : e.Ready) (hp : e.delete = .ok e') :
    e'.document = e.document ∨ e'.lines ≠ e.lines := by
  unfold delete at hp
  split at hp
  · next planned hplanned =>
    obtain ⟨cursors, hcursors⟩ : ∃ cursors : List (Position × PlannedEdit), cursors =
      planned.filterMap fun x => x.2.map fun p => (x.1.active, p) := ⟨_, rfl⟩
    have hp' : e.commit cursors ((planned.filter fun x => x.2.isNone).map Prod.fst) = .ok e' := hcursors ▸ hp
    obtain ⟨hfit, hdoc⟩ := document_commit hp'
    by_cases hnil : cursors = []
    · rw [hnil] at hdoc
      exact Or.inl hdoc
    · refine Or.inr (commit_shows h.sound.wellFormed hp' (Int.ne_of_lt (total_neg (by simpa using hnil) ?_)))
      intro n hn
      obtain ⟨d, hd, rfl⟩ := List.mem_map.1 hn
      have hr := hfit.inRange d ((editsBottomUp_perm cursors).mem_iff.2 hd)
      obtain ⟨c, hc, rfl⟩ := List.mem_map.1 hd
      rw [hcursors] at hc
      obtain ⟨x, hx, hxc⟩ := List.mem_filterMap.1 hc
      obtain ⟨p, hxp, rfl⟩ := Option.map_eq_some_iff.1 hxc
      obtain ⟨s, -, hs⟩ := mem_of_mapM_ok hplanned x hx
      have hplan : planDelete e.lines s.active = .ok (some p) := by
        cases hd : planDelete e.lines s.active with
        | error f =>
          rw [hd] at hs
          cases hs
        | ok p? =>
          rw [hd] at hs
          rw [← hxp, ← Except.ok.inj hs]
      obtain ⟨htext, hlt⟩ := planDelete_lt hplan
      have hoffset : offset e.lines p.edit.start < offset e.lines p.edit.stop :=
        (offset_lt_iff hr.start hr.stop).2 hlt
      simp only [Edit.shift, htext, List.length_nil]
      omega
  · cases hp

/-- A plain keystroke that changes the document changes its lines. -/
theorem press_shows (h : e.Ready) {k : Keystroke} (hk : k ≠ .literal []) (hp : e.press k = .ok e') :
    e'.document = e.document ∨ e'.lines ≠ e.lines := by
  cases k with
  | literal t =>
    have ht : t ≠ [] := by
      rintro rfl
      exact hk rfl
    exact Or.inr (typeText_shows h ht hp)
  | newline =>
    have hlen := length_newline h hp
    refine Or.inr fun heq => ?_
    rw [heq] at hlen
    omega
  | delete => exact delete_shows h hp
  | lineEnd =>
    simp only [press, lineEnd] at hp
    exact Or.inl (document_moveCursors hp)

/-! ### Commands -/

private theorem orUnchanged_press_shows (h : e.Ready) {k : Keystroke} (hk : k ≠ .literal []) :
    (Attempt.orUnchanged e (e.press k)).fault = none ∧
      ((Attempt.orUnchanged e (e.press k)).editor.document = e.document ∨
        (Attempt.orUnchanged e (e.press k)).editor.lines ≠ e.lines) := by
  obtain ⟨e', hp, -⟩ := press_ready h k
  have hshows := press_shows h hk hp
  rw [hp]
  exact ⟨rfl, hshows⟩

private theorem pressSmart_shows (h : e.Ready) (key : SmartKeyName) :
    (e.pressSmart key).editor.document = e.document ∨ (e.pressSmart key).editor.lines ≠ e.lines := by
  have hplain : key.plain ≠ .literal [] := by
    cases key <;> decide
  have hfits : (key.react e.scene).Fits e.lines := react_fits key h.sound.settled
  have hshows : (key.react e.scene).Shows e.lines := react_shows key h.sound.wellFormed h.sound.settled
  unfold pressSmart
  cases hr : key.react e.scene with
  | decline k forgets =>
    obtain rfl := react_decline hr
    simp only [perform]
    split
    · exact (orUnchanged_press_shows (h.changeToggle .forget) hplain).2
    · exact (orUnchanged_press_shows h hplain).2
  | act a =>
    rw [hr] at hfits hshows
    obtain ⟨e₁, hready, hdoc, hdone, hpress⟩ := carryOut_eq h hfits
    have hafter : e₁.document = e.document ∨ e₁.lines ≠ e.lines := by
      rw [lines, hdoc]
      rcases hshows with hnil | hshows
      · rw [hnil]
        exact Or.inl rfl
      · exact Or.inr (BatchShows.lines_afterBatch_ne hshows)
    simp only [perform]
    cases hk : a.thenKey with
    | none =>
      rw [hdone hk]
      exact hafter
    | some k =>
      -- only the newline behind a comma follows, and it makes more lines
      have hkey : key = .enter := by
        by_contra hkey
        rw [react_thenKey hkey hr] at hk
        cases hk
      subst hkey
      obtain ⟨-, ⟨p, -, hcomma⟩ | hblocks⟩ := SmartKey.enterKey_act h.sound.wellFormed hr
      · obtain rfl := Option.some.inj (hcomma.thenKey.symm.trans hk)
        obtain ⟨e₂, hp, -⟩ := press_ready hready .newline
        have hlen := length_newline hready hp
        have hlen₁ := length_afterBatch (d := e.document) h.sound.wellFormed hfits.edits
        have hgrowth : total (a.edits.map Edit.growth) = 0 := by
          rw [hcomma.edits]
          simp [total, Edit.growth, Edit.insert]
        rw [← hdoc, hgrowth] at hlen₁
        rw [hpress _ hk, hp]
        refine Or.inr fun heq => ?_
        have hlen₂ : e₂.lines.length = e.lines.length := congrArg List.length heq
        simp only [lines] at hlen hlen₁ hlen₂
        omega
      · rw [hblocks.thenKey] at hk
        cases hk

/-- A key that types a text types some. -/
private theorem typed_ne_nil {name : String} {char t : Text} (h : Command.ofKey name char = .type t) : t ≠ [] := by
  have hchar : Command.ofChar char = .type t → t ≠ [] := by
    unfold Command.ofChar
    intro hc
    split at hc
    · cases hc
    · split at hc
      · cases hc
      · next hne =>
        split at hc
        · rw [← Command.type.inj hc]
          exact fun hnil => hne (List.isEmpty_iff.2 hnil)
        · cases hc
  unfold Command.ofKey at h
  split at h
  all_goals first
    | cases h
    | exact hchar h

private theorem unit_ne_nil (o : IndentOptions) : o.unit ≠ [] := by
  unfold IndentOptions.unit
  split
  · intro hnil
    have hlen := congrArg List.length hnil
    rw [List.length_replicate, List.length_nil] at hlen
    omega
  · exact List.cons_ne_nil _ _

/-- A key that may change the text succeeds, and changes the lines if it changes the document. -/
theorem editing_shows (h : e.Ready) {name : String} {char : Text} {f : Editor → Attempt}
    (hf : (Command.ofKey name char).editing? = some f) :
    (f e).fault = none ∧ ((f e).editor.document = e.document ∨ (f e).editor.lines ≠ e.lines) := by
  cases hc : Command.ofKey name char with
  | smart key =>
    rw [hc] at hf
    rw [← Option.some.inj hf]
    exact ⟨(smooth_pressSmart h key).fault, pressSmart_shows h key⟩
  | indent =>
    rw [hc] at hf
    rw [← Option.some.inj hf]
    exact orUnchanged_press_shows h (k := .literal e.indent.unit) fun hk =>
      unit_ne_nil _ (Keystroke.literal.inj hk)
  | type t =>
    rw [hc] at hf
    rw [← Option.some.inj hf]
    exact orUnchanged_press_shows h (k := .literal t) fun hk => typed_ne_nil hc (Keystroke.literal.inj hk)
  | home | left | right | up | down | cursorAbove | cursorBelow | singleCursor | undo | redo | save | quit | nothing =>
    rw [hc] at hf
    cases hf

/-! ### The history -/

/-- An edit that leaves the document leaves the history, except that the oldest moment is gone from a full stack. -/
private theorem edit_quiet {f : Editor → Attempt} (hf : ∀ e, Step e (f e).editor)
    (hfault : (f e.saveMoment).fault = none)
    (hversion : (f e.saveMoment).editor.document.version = e.document.version) :
    (e.edit f).editor.redoStack = e.redoStack ∧
      (e.edit f).editor.undoStack =
        if historyLimit ≤ e.undoStack.length then e.undoStack.dropLast else e.undoStack := by
  have hs := hf e.saveMoment
  have hredo : (f e.saveMoment).editor.redoStack = e.redoStack := hs.redoStack
  have hundo : (f e.saveMoment).editor.undoStack.tail =
      if e.undoStack.length < historyLimit then e.undoStack else e.undoStack.dropLast := by
    rw [hs.undoStack]
    rfl
  unfold edit
  simp only [hfault, if_pos hversion, Attempt.done]
  refine ⟨hredo, ?_⟩
  rw [hundo]
  by_cases hlt : e.undoStack.length < historyLimit
  · rw [if_pos hlt, if_neg (by omega)]
  · rw [if_neg hlt, if_pos (by omega)]

/-- In a session with carets and without direct edits, a key other than undo and redo that leaves the lines leaves what
can be redone, and what can be undone as well, unless it is a key that may change the text and the undo stack is full:
then the oldest moment is gone. -/
theorem handleKey_quiet (h : Reached (fun op => op.Mediated ∧ op.ByCarets) e) {name : String} {char : Text}
    (hu : name ≠ "ctrl+z") (hr : name ≠ "ctrl+y") (hlines : (e.handleKey name char).editor.lines = e.lines) :
    (e.handleKey name char).editor.redoStack = e.redoStack ∧
      (e.handleKey name char).editor.undoStack =
        if (Command.ofKey name char).editing?.isSome ∧ historyLimit ≤ e.undoStack.length then e.undoStack.dropLast
        else e.undoStack := by
  have hu' : Command.ofKey name char ≠ .undo := fun hc => hu (((ofKey_undo_redo name char).1).1 hc)
  have hr' : Command.ofKey name char ≠ .redo := fun hc => hr (((ofKey_undo_redo name char).2).1 hc)
  obtain ⟨quiet, hquiet⟩ : ∃ quiet : Editor, quiet = { e with status := .quiet } := ⟨_, rfl⟩
  have hready : quiet.Ready := by
    have hready := h.steady.ready
    rw [hquiet]
    exact ⟨hready.sound, hready.carets, hready.scrollTop⟩
  have hrun : e.handleKey name char = quiet.run (.ofKey name char) := by
    rw [hquiet]
    rfl
  have hsame : quiet.lines = e.lines ∧ quiet.undoStack = e.undoStack ∧ quiet.redoStack = e.redoStack := by
    rw [hquiet]
    exact ⟨rfl, rfl, rfl⟩
  rw [hrun] at hlines ⊢
  rw [← hsame.1] at hlines
  rw [← hsame.2.1, ← hsame.2.2]
  rcases run_cases (e := quiet) hu' hr' with ⟨hnone, hs, -⟩ | ⟨f, hsome, hf, hedit⟩
  · refine ⟨hs.redoStack, ?_⟩
    rw [hs.undoStack, hnone, if_neg fun hc => by cases hc.1]
  · have hsaved : quiet.saveMoment.Ready := ⟨hready.sound, hready.carets, hready.scrollTop⟩
    obtain ⟨hfault, hshows⟩ := editing_shows hsaved hsome
    have hsnapshot := (edit_cases (e := quiet) hf).1
    rw [hedit] at hlines ⊢
    have hversion : (f quiet.saveMoment).editor.document.version = quiet.document.version := by
      rcases hshows with hdoc | hne
      · rw [hdoc]
        rfl
      · have hlines' := (Snapshot.mk.inj hsnapshot).1
        exact absurd (hlines'.symm.trans hlines) hne
    obtain ⟨hredo, hundo⟩ := edit_quiet hf hfault hversion
    refine ⟨hredo, ?_⟩
    rw [hundo, hsome]
    simp only [Option.isSome_some, true_and]

/-- An editor whose history is full: a letter has been typed and taken back a hundred times. -/
def fullHistory : Editor :=
  (ofDocument (.ofText [] "doc" "plaintext".toList) {} {}).operateAll
    (List.replicate 100 [.key "a" ['a'], .key "backspace" []]).flatten

private theorem reached_fullHistory : Reached (fun op => op.Mediated ∧ op.ByCarets) fullHistory := by
  refine Reached.operateAll (.new _ _ _ _ _) fun op hop => ?_
  obtain ⟨ops, hops, hop⟩ := List.mem_flatten.1 hop
  rw [(List.mem_replicate.1 hops).2, List.mem_cons, List.mem_singleton] at hop
  rcases hop with rfl | rfl
  · exact ⟨trivial, trivial⟩
  · exact ⟨trivial, trivial⟩

/-- One more Backspace finds nothing to delete. -/
private theorem fullHistory_backspace :
    (fullHistory.handleKey "backspace" []).editor.lines = fullHistory.lines ∧
      fullHistory.undoStack.length = 200 ∧ (fullHistory.handleKey "backspace" []).editor.undoStack.length = 199 := by
  decide +kernel

theorem handleKey_quiet_fullHistory :
    Reached (fun op => op.Mediated ∧ op.ByCarets) fullHistory ∧
      (fullHistory.handleKey "backspace" []).editor.lines = fullHistory.lines ∧
      (fullHistory.handleKey "backspace" []).editor.redoStack = fullHistory.redoStack ∧
      (fullHistory.handleKey "backspace" []).editor.undoStack = fullHistory.undoStack.dropLast := by
  obtain ⟨hlines, hlen, -⟩ := fullHistory_backspace
  obtain ⟨hredo, hundo⟩ := handleKey_quiet reached_fullHistory (by decide) (by decide) hlines
  rw [if_pos ⟨rfl, Nat.le_of_eq hlen.symm⟩] at hundo
  exact ⟨reached_fullHistory, hlines, hredo, hundo⟩

/-- So not every key that leaves the lines leaves the history alone. -/
theorem not_history_unchanged :
    ¬ ∀ e : Editor, Reached (fun op => op.Mediated ∧ op.ByCarets) e → ∀ name char, name ≠ "ctrl+z" → name ≠ "ctrl+y" →
      (e.handleKey name char).editor.lines = e.lines →
        (e.handleKey name char).editor.undoStack = e.undoStack ∧
          (e.handleKey name char).editor.redoStack = e.redoStack := by
  intro hall
  obtain ⟨hlines, hlen, hlen'⟩ := fullHistory_backspace
  have hundo := (hall fullHistory reached_fullHistory "backspace" [] (by decide) (by decide) hlines).1
  rw [hundo, hlen] at hlen'
  cases hlen'

end Editor

end MultiCaret
