import MultiCaret.Proofs.Editor.Deleting
import MultiCaret.Proofs.Editor.Pieces
import MultiCaret.Proofs.Editor.Session
import MultiCaret.Proofs.SmartKey.Fits

/-!
# Sessions with carets

When all selections are carets, no operation fails: carets that differ from one another plan edits that do not overlap,
and every operation leaves such carets again (`Editor.Ready`).  For the plain keystrokes this is seen from the places of
the carets (`press_ready`), for the smart keys it is `react_fits`.  Undo and redo bring moments back that were so when
they were kept, so the history has to be looked at as well (`session_steady`).
-/

namespace MultiCaret

namespace Editor

/-- The editor can take the next operation: it is at a sound moment, its selections are carets, and its window does not
begin above the text. -/
structure Ready (e : Editor) : Prop where
  sound : e.snapshot.Sound
  carets : e.snapshot.OnlyCarets
  scrollTop : 0 ≤ e.scrollTop

variable {e : Editor}

/-! ### Primitive steps -/

/-- At a sound moment the selections are carets at different places of the document, if they are carets. -/
private theorem exists_cursorsAt (hsound : e.snapshot.Sound) (hcarets : e.snapshot.OnlyCarets) :
    ∃ cs, CursorsAt e cs := by
  have hsel : e.selections = (e.selections.map Selection.active).map Selection.caret := by
    rw [List.map_map]
    refine (List.map_id _).symm.trans (List.map_congr_left ?_)
    intro s hs
    exact Selection.isEmpty_iff.1 (hcarets s hs)
  refine ⟨e.selections.map Selection.active, hsel, ?_, ?_, ?_⟩
  · intro hnil
    exact hsound.settled.ne_nil (List.map_eq_nil_iff.1 hnil)
  · have hnodup : e.selections.Nodup := hsound.settled.nodup
    rw [hsel] at hnodup
    exact hnodup.of_map _
  · intro c hc
    obtain ⟨s, hs, rfl⟩ := List.mem_map.1 hc
    exact (hsound.settled.inBounds s hs).2

private theorem Ready.cursorsAt (h : e.Ready) : ∃ cs, CursorsAt e cs :=
  exists_cursorsAt h.sound h.carets

private theorem ready_setSelections (hwf : WellFormed e.lines) (htop : 0 ≤ e.scrollTop) {ss : List Selection}
    (hss : ∀ s ∈ ss, s.isEmpty = true) : (e.setSelections ss).Ready :=
  ⟨sound_setSelections hwf ss, onlyCarets_setSelections hss, htop⟩

private theorem Ready.reveal (h : e.Ready) {p : Position} (hp : 0 ≤ p.line) : (e.reveal p).Ready := by
  obtain ⟨k, hk, htop⟩ := e.reveal_eq p
  rw [hk]
  exact ⟨h.sound, h.carets, htop h.scrollTop hp⟩

theorem Ready.revealCursor (h : e.Ready) : e.revealCursor.Ready := by
  refine h.reveal ?_
  have hne : e.selections ≠ [] := h.sound.settled.ne_nil
  obtain ⟨s, rest, hs⟩ := List.exists_cons_of_ne_nil hne
  have hin := h.sound.settled.inBounds s (by rw [snapshot, hs]; exact List.mem_cons_self)
  rw [cursor, hs]
  exact hin.2.1.1

theorem Ready.changeToggle (h : e.Ready) (c : ToggleChange) : (e.changeToggle c).Ready :=
  ⟨h.sound, h.carets, h.scrollTop⟩

private theorem Ready.applyEdits (h : e.Ready) {es : List Edit} (hfit : BatchFits e.lines es) :
    ∃ e₁, e.applyEdits es = .ok e₁ ∧
      ∀ ss : List Selection, (∀ s ∈ ss, s.isEmpty = true) → (e₁.setSelections ss).Ready := by
  obtain ⟨t, ht⟩ := e.updateDocument_eq (e.document.afterBatch es)
  refine ⟨_, applyEdits_eq_ok_iff.2 ⟨hfit, rfl⟩, ?_⟩
  intro ss hss
  rw [ht]
  refine ready_setSelections ?_ ?_ hss
  · exact wellFormed_afterBatch h.sound.wellFormed hfit
  · exact h.scrollTop

/-! ### Plain keystrokes -/

private theorem Ready.commit (h : e.Ready) {cursors : List (Position × PlannedEdit)} {untouched : List Selection}
    (hfit : BatchFits e.lines (cursors.map fun c => c.2.edit)) (huntouched : ∀ s ∈ untouched, s.isEmpty = true) :
    ∃ e', e.commit cursors untouched = .ok e' ∧ e'.Ready := by
  unfold Editor.commit
  split
  · exact ⟨e, rfl, h⟩
  · obtain ⟨e₁, he₁, hready⟩ := h.applyEdits (hfit.perm (editsBottomUp_perm cursors).symm)
    have happly : e.applyEdits (EditPlan.byCursor cursors).edits = .ok e₁ := he₁
    simp only [happly, Except.map]
    refine ⟨_, rfl, (hready _ ?_).revealCursor⟩
    intro s hs
    rcases List.mem_append.1 hs with hs | hs
    · obtain ⟨p, -, rfl⟩ := List.mem_map.1 hs
      exact Selection.isEmpty_caret p
    · exact huntouched s hs

theorem Ready.inBounds_active (h : e.Ready) : ∀ s ∈ e.selections, InBounds e.lines s.active :=
  fun s hs => (h.sound.settled.inBounds s hs).2

private theorem commit_insertions_ready (h : e.Ready) (text : Position → Text) :
    ∃ e', e.commit (e.insertions text) [] = .ok e' ∧ e'.Ready :=
  h.commit (batchFits_insertions h.inBounds_active text) fun _ hs => absurd hs List.not_mem_nil

private theorem delete_ready (h : e.Ready) : ∃ e', e.delete = .ok e' ∧ e'.Ready := by
  obtain ⟨cs, hcs⟩ := h.cursorsAt
  have hmem : ∀ c ∈ cs.filter (fun c => decide (c ≠ origin)), InBounds e.lines c ∧ c ≠ origin := fun c hc =>
    ⟨hcs.inBounds c (List.mem_filter.1 hc).1, of_decide_eq_true (List.mem_filter.1 hc).2⟩
  rw [delete_eq_commit_carets hcs]
  refine h.commit ?_ ?_
  · rw [List.map_map]
    exact (plansApart_erasures h.sound.wellFormed (hcs.nodup.filter _) (fun c hc => (hmem c hc).1)
      fun c hc => (hmem c hc).2).fits
  · intro s hs
    obtain ⟨c, -, rfl⟩ := List.mem_map.1 hs
    exact Selection.isEmpty_caret c

private theorem moveCursors_ready (h : e.Ready) {move : Position → Except EditorFault Position}
    (hmove : ∀ c, InBounds e.lines c → ∃ q, move c = .ok q) : ∃ e', e.moveCursors move = .ok e' ∧ e'.Ready := by
  have hcarets : (e.selections.mapM fun s => (move s.active).map Selection.caret) =
      .ok (e.selections.map fun s => .caret ((move s.active).toOption.getD s.active)) := by
    refine mapM_eq_ok fun s hs => ?_
    obtain ⟨q, hq⟩ := hmove s.active (h.sound.settled.inBounds s hs).2
    rw [hq]
    rfl
  rw [moveCursors, hcarets]
  refine ⟨_, rfl, Ready.revealCursor (ready_setSelections h.sound.wellFormed h.scrollTop ?_)⟩
  intro s hs
  obtain ⟨s', -, rfl⟩ := List.mem_map.1 hs
  exact Selection.isEmpty_caret _

theorem press_ready (h : e.Ready) (k : Keystroke) : ∃ e', e.press k = .ok e' ∧ e'.Ready := by
  cases k with
  | literal t =>
    rw [press, typeText_eq_commit]
    exact commit_insertions_ready h fun _ => t
  | newline =>
    rw [press, newline_eq_commit h.sound.wellFormed h.inBounds_active]
    exact commit_insertions_ready h (brokenLine e.lines)
  | delete => exact delete_ready h
  | lineEnd =>
    rw [press, lineEnd]
    refine moveCursors_ready h fun c hc => ?_
    rw [lineFor_of_hasLine hc.1]
    exact ⟨_, rfl⟩

end Editor

/-- The step succeeds, and the editor can take the next one. -/
structure Attempt.Smooth (a : Attempt) : Prop where
  fault : a.fault = none
  ready : a.editor.Ready

private theorem Attempt.smooth_orUnchanged {e : Editor} {r : Except EditorFault Editor}
    (h : ∃ e', r = .ok e' ∧ e'.Ready) : (Attempt.orUnchanged e r).Smooth := by
  obtain ⟨e', rfl, hready⟩ := h
  exact ⟨rfl, hready⟩

namespace Editor

variable {e : Editor}

/-! ### Smart keys -/

/-- Carrying out an action comes to an editor that is ready, and goes on with the keystroke that is to follow. -/
theorem carryOut_eq (h : e.Ready) {a : Action} (ha : a.Fits e.lines) :
    ∃ e₁ : Editor, e₁.Ready ∧ e₁.document = e.document.afterBatch a.edits ∧
      (a.thenKey = none → e.carryOut a = .done e₁) ∧
      ∀ k, a.thenKey = some k → e.carryOut a = .orUnchanged e₁ (e₁.press k) := by
  obtain ⟨e₁, he₁, hready⟩ := h.applyEdits ha.edits
  obtain ⟨t, ht⟩ := e.updateDocument_eq (e.document.afterBatch a.edits)
  have hdoc : e₁.document = e.document.afterBatch a.edits := by
    rw [(applyEdits_eq_ok_iff.1 he₁).2, ht]
  have h₁ := hready a.selections ha.carets
  rcases carryOut_cases e a with ⟨f, hf, -⟩ | ⟨e₁', e₂, top, he₁', he₂, htop, hdone, hpress⟩
  · rw [he₁] at hf
    cases hf
  · obtain rfl := Except.ok.inj (he₁.symm.trans he₁')
    refine ⟨e₂, ?_, ?_, hdone, hpress⟩
    · rw [he₂]
      exact ⟨h₁.sound, h₁.carets, htop h₁.scrollTop ha.reveal⟩
    · rw [he₂]
      exact hdoc

private theorem smooth_carryOut (h : e.Ready) {a : Action} (ha : a.Fits e.lines) : (e.carryOut a).Smooth := by
  obtain ⟨e₁, hready, -, hdone, hpress⟩ := carryOut_eq h ha
  cases hk : a.thenKey with
  | none =>
    rw [hdone hk]
    exact ⟨rfl, hready⟩
  | some k =>
    rw [hpress k hk]
    exact Attempt.smooth_orUnchanged (press_ready hready k)

theorem smooth_pressSmart (h : e.Ready) (key : SmartKeyName) : (e.pressSmart key).Smooth := by
  have hfits : (key.react e.scene).Fits e.lines := react_fits key h.sound.settled
  unfold pressSmart
  cases hr : key.react e.scene with
  | act a =>
    rw [hr] at hfits
    exact smooth_carryOut h hfits
  | decline k forgets =>
    simp only [perform]
    split
    · exact Attempt.smooth_orUnchanged (press_ready (h.changeToggle .forget) k)
    · exact Attempt.smooth_orUnchanged (press_ready h k)

/-! ### Commands -/

private theorem smooth_edit (h : e.Ready) {f : Editor → Attempt} (hf : ∀ e : Editor, e.Ready → (f e).Smooth) :
    (e.edit f).Smooth := by
  obtain ⟨kept, -, hsave⟩ := e.saveMoment_eq
  have hs : (f e.saveMoment).Smooth := hf _ (by rw [hsave]; exact ⟨h.sound, h.carets, h.scrollTop⟩)
  unfold edit
  simp only [hs.fault]
  split
  · exact ⟨rfl, hs.ready.sound, hs.ready.carets, hs.ready.scrollTop⟩
  · exact ⟨rfl, hs.ready.sound, hs.ready.carets, hs.ready.scrollTop⟩

private theorem Ready.addCursorAt (h : e.Ready) (edge : Position) (line : Int) : (e.addCursorAt edge line).Ready := by
  unfold Editor.addCursorAt
  split
  · have hnew : ∀ s ∈ e.selections ++ [.caret ⟨line, edge.column⟩], s.isEmpty = true := by
      intro s hs
      rcases List.mem_append.1 hs with hs | hs
      · exact h.carets s hs
      · rw [List.mem_singleton.1 hs]
        exact Selection.isEmpty_caret _
    have hset := ready_setSelections h.sound.wellFormed h.scrollTop hnew
    exact ⟨hset.sound, hset.carets, hset.scrollTop⟩
  · exact h

private theorem scrollTop_restore (e : Editor) (s : Snapshot) : (e.restore s).scrollTop = e.scrollTop := by
  obtain ⟨t, ht⟩ := e.updateDocument_eq (e.document.setText (joinLines s.lines))
  rw [restore, scrollTop_setSelections, setText, ht]

private theorem scrollTop_undo_redo (e : Editor) : e.undo.scrollTop = e.scrollTop ∧ e.redo.scrollTop = e.scrollTop := by
  constructor
  · unfold undo
    split
    · rfl
    · exact scrollTop_restore _ _
  · unfold redo
    split
    · rfl
    · exact scrollTop_restore _ _

/-- The editor can take the next operation whatever it goes back or forward to. -/
structure Steady (e : Editor) : Prop where
  moments : ∀ s ∈ e.moments, s.Sound ∧ s.OnlyCarets
  scrollTop : 0 ≤ e.scrollTop

theorem Steady.ready (h : e.Steady) : e.Ready :=
  ⟨(h.moments _ List.mem_cons_self).1, (h.moments _ List.mem_cons_self).2, h.scrollTop⟩

theorem smooth_run (h : e.Steady) (c : Command) : (e.run c).Smooth := by
  have hr := h.ready
  have hsound : ∀ s ∈ e.moments, s.Sound := fun s hs => (h.moments s hs).1
  cases c with
  | smart key => exact smooth_edit hr fun e h => smooth_pressSmart h key
  | indent => exact smooth_edit hr fun e h => Attempt.smooth_orUnchanged (press_ready h (.literal e.indent.unit))
  | type t => exact smooth_edit hr fun e h => Attempt.smooth_orUnchanged (press_ready h (.literal t))
  | home =>
    refine Attempt.smooth_orUnchanged (moveCursors_ready hr fun c hc => ?_)
    rw [homeOf, lineFor_of_hasLine hc.1]
    exact ⟨_, rfl⟩
  | left =>
    refine Attempt.smooth_orUnchanged (moveCursors_ready hr fun c hc => ?_)
    rw [leftOf, placeBefore?_eq hc]
    exact ⟨_, rfl⟩
  | right =>
    refine Attempt.smooth_orUnchanged (moveCursors_ready hr fun c hc => ?_)
    rw [rightOf, lineFor_of_hasLine hc.1]
    exact ⟨_, rfl⟩
  | up => exact Attempt.smooth_orUnchanged (moveCursors_ready hr fun c _ => ⟨_, rfl⟩)
  | down => exact Attempt.smooth_orUnchanged (moveCursors_ready hr fun c _ => ⟨_, rfl⟩)
  | cursorAbove => exact ⟨rfl, hr.addCursorAt _ _⟩
  | cursorBelow => exact ⟨rfl, hr.addCursorAt _ _⟩
  | singleCursor =>
    refine ⟨rfl, ready_setSelections hr.sound.wellFormed hr.scrollTop ?_⟩
    exact fun s hs => hr.carets s (List.mem_of_mem_take hs)
  | undo =>
    -- what comes back was one of the moments already
    obtain ⟨h₁, h₂⟩ := h.moments _ (moments_undo hsound List.mem_cons_self)
    exact ⟨rfl, h₁, h₂, by rw [run, Attempt.done, (scrollTop_undo_redo e).1]; exact h.scrollTop⟩
  | redo =>
    obtain ⟨h₁, h₂⟩ := h.moments _ (moments_redo hsound List.mem_cons_self)
    exact ⟨rfl, h₁, h₂, by rw [run, Attempt.done, (scrollTop_undo_redo e).2]; exact h.scrollTop⟩
  | save => exact ⟨rfl, hr.sound, hr.carets, hr.scrollTop⟩
  | quit => exact ⟨rfl, hr.sound, hr.carets, hr.scrollTop⟩
  | nothing => exact ⟨rfl, hr⟩

/-! ### Operations -/

private theorem smooth_draw (h : e.Ready) (width height : Int) : (e.operate (.draw width height)).Smooth := by
  simp only [operate, draw]
  split
  · exact ⟨rfl, h⟩
  · have h₁ : ({ e with viewHeight := (height - 1).toNat } : Editor).revealCursor.Ready :=
      Ready.revealCursor ⟨h.sound, h.carets, h.scrollTop⟩
    refine ⟨?_, h₁⟩
    rw [screen_eq h₁.scrollTop]

private theorem smooth_operate (h : e.Steady) {op : Operation} (hop : op.Mediated) (hcarets : op.ByCarets) :
    (e.operate op).Smooth := by
  have hr := h.ready
  cases op with
  | key name char => exact smooth_run (e := { e with status := .quiet }) ⟨h.moments, h.scrollTop⟩ _
  | select ss => exact ⟨rfl, ready_setSelections hr.sound.wellFormed hr.scrollTop hcarets⟩
  | press k => exact Attempt.smooth_orUnchanged (press_ready hr k)
  | setContent t =>
    obtain ⟨tr, ht⟩ := e.updateDocument_eq (e.document.setText t)
    have hwf := wellFormed_splitLines t
    refine ⟨rfl, ?_⟩
    simp only [operate, Attempt.done, setContent, setText, ht]
    refine ⟨⟨hwf, settled_caret_origin hwf⟩, ?_, Int.le_refl 0⟩
    intro s hs
    rw [List.mem_singleton.1 hs]
    exact Selection.isEmpty_caret origin
  | configure s => exact ⟨rfl, hr.sound, hr.carets, hr.scrollTop⟩
  | setIndent o => exact ⟨rfl, hr.sound, hr.carets, hr.scrollTop⟩
  | draw width height => exact smooth_draw hr width height
  | documentText t => cases hop
  | documentEdits es => cases hop

private theorem Steady.operate (h : e.Steady) {op : Operation} (hop : op.Mediated) (hcarets : op.ByCarets) :
    (e.operate op).editor.Steady := by
  have hready := (smooth_operate h hop hcarets).ready
  refine ⟨?_, hready.scrollTop⟩
  intro s hs
  rcases List.mem_cons.1 ((moments_operate (fun s hs => (h.moments s hs).1) hop).1 hs) with rfl | hs
  · exact ⟨hready.sound, hready.carets⟩
  · exact h.moments s hs

theorem Reached.steady (h : Reached (fun op => op.Mediated ∧ op.ByCarets) e) : e.Steady := by
  induction h with
  | new t uri language indent settings =>
    refine ⟨?_, Int.le_refl 0⟩
    intro s hs
    refine ⟨sound_ofText t uri language indent settings s hs, ?_⟩
    obtain rfl := List.mem_singleton.1 hs
    intro sel hsel
    rw [List.mem_singleton.1 hsel]
    exact Selection.isEmpty_caret origin
  | next _ hop ih => exact ih.operate hop.1 hop.2

/-- Throughout a session whose selections are given as carets, the present moment and all moments of the history have
the lines of a text and different carets in them, the window does not begin above the text, and no operation fails. -/
theorem session_steady (h : Reached (fun op => op.Mediated ∧ op.ByCarets) e) :
    (∀ s ∈ e.moments, s.Sound ∧ s.OnlyCarets) ∧ 0 ≤ e.scrollTop ∧
      ∀ op : Operation, op.Mediated → op.ByCarets → (e.operate op).fault = none :=
  ⟨h.steady.moments, h.steady.scrollTop, fun _ hop hcarets => (smooth_operate h.steady hop hcarets).fault⟩

/-- Two cursors, set behind the ends of their lines, that have opened a block each. -/
def twoBlocks : Editor :=
  (((ofDocument (.ofText ['a', '\x7b', '\n', 'b', '\x7b'] "doc" "json".toList) {} {}).setSelections
    [.caret ⟨7, 99⟩, .caret ⟨-1, 99⟩]).handleKey "enter" []).editor

theorem session_steady_twoBlocks :
    Reached (fun op => op.Mediated ∧ op.ByCarets) twoBlocks ∧
      twoBlocks.selections = [.caret ⟨4, 4⟩, .caret ⟨1, 4⟩] ∧ twoBlocks.undoStack.length = 1 ∧
      (∀ s ∈ twoBlocks.moments, s.Sound ∧ s.OnlyCarets) ∧ 0 ≤ twoBlocks.scrollTop ∧
      (twoBlocks.operate (.key "backspace" [])).fault = none := by
  have hcarets : ∀ s ∈ [Selection.caret ⟨7, 99⟩, .caret ⟨-1, 99⟩], s.isEmpty = true := by decide
  have hselect : (Operation.select [.caret ⟨7, 99⟩, .caret ⟨-1, 99⟩]).Mediated ∧
      (Operation.select [.caret ⟨7, 99⟩, .caret ⟨-1, 99⟩]).ByCarets := ⟨trivial, hcarets⟩
  have hkey : (Operation.key "enter" []).Mediated ∧ (Operation.key "enter" []).ByCarets := ⟨trivial, trivial⟩
  have hnew : Reached (fun op => op.Mediated ∧ op.ByCarets)
      (ofDocument (.ofText ['a', '\x7b', '\n', 'b', '\x7b'] "doc" "json".toList) {} {}) := .new _ _ _ _ _
  have h : Reached (fun op => op.Mediated ∧ op.ByCarets) twoBlocks := (hnew.next hselect).next hkey
  obtain ⟨hmoments, htop, hfault⟩ := session_steady h
  exact ⟨h, by decide +kernel, by decide +kernel, hmoments, htop, hfault (.key "backspace" []) trivial trivial⟩

end Editor

end MultiCaret
