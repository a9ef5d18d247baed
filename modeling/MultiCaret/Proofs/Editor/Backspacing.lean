import MultiCaret.Proofs.Editor.Deleting
import MultiCaret.Proofs.Editor.Session
import MultiCaret.Proofs.SmartKey.Backspace

/-!
# Pressing Backspace again and again

With a single caret, a press of Backspace takes a line away, or leaves as many lines with fewer characters in them
(`handleKey_retreats`).  It may well put in more blanks than it removes and take the caret to the right, but only when
it makes one line of two.  At the beginning of the text it changes nothing.  So the caret gets there after finitely many
presses (`handleKey_backspace_progress`).
-/

namespace MultiCaret

/-- The number of lines, and the number of characters in them. -/
def extent (lines : List Text) : Nat × Nat :=
  (lines.length, lines.flatten.length)

/-- The flat text has the characters of the lines, and a newline between any two neighbours. -/
private theorem length_joinLines {ls : List Text} (h : ls ≠ []) :
    (joinLines ls).length + 1 = ls.flatten.length + ls.length := by
  induction ls with
  | nil => exact absurd rfl h
  | cons l ls ih =>
    by_cases hls : ls = []
    · simp [hls, joinWith]
    · have := ih hls
      rw [joinLines_cons hls, List.flatten_cons, List.length_append, List.length_append, List.length_cons,
        List.length_cons]
      omega

namespace Editor

variable {e : Editor} {p : Position}

/-- A press of Backspace with the only caret at `p` goes through and leaves one caret.  The lines get less, unless there
is nothing in front of the caret. -/
structure Retreats (e : Editor) (p : Position) (a : Attempt) : Prop where
  fault : a.fault = none
  wellFormed : WellFormed a.editor.lines
  caret : ∃ q, CursorsAt a.editor [q]
  less : p ≠ origin → Prod.Lex (· < ·) (· < ·) (extent a.editor.lines) (extent e.lines)
  same : p = origin → a.editor.lines = e.lines

private theorem cursorsAt_singleton {q : Position} (hsel : e.selections = [.caret q]) (hq : InBounds e.lines q) :
    CursorsAt e [q] := by
  refine ⟨hsel, List.cons_ne_nil _ _, List.nodup_singleton q, ?_⟩
  intro c hc
  rw [List.mem_singleton.1 hc]
  exact hq

/-- A single caret that is set in the lines is kept. -/
private theorem cursorsAt_setSelections {q : Position} (hq : InBounds e.lines q) :
    CursorsAt (e.setSelections [.caret q]) [q] := by
  have hcaret : ∀ sel ∈ [Selection.caret q], InBounds e.lines sel.anchor ∧ InBounds e.lines sel.active := by
    intro sel hs
    rw [List.mem_singleton.1 hs]
    exact ⟨hq, hq⟩
  refine cursorsAt_singleton ?_ hq
  rw [selections_setSelections_of_inBounds (List.cons_ne_nil _ _) hcaret, eraseDups_of_nodup (List.nodup_singleton _)]

/-! ### The plain keystroke -/

private theorem placeBefore_line (lines : List Text) (p : Position) :
    (placeBefore lines p).line = p.line ∨ (placeBefore lines p).line = p.line - 1 := by
  unfold placeBefore
  split
  · exact Or.inl rfl
  · exact Or.inr rfl

/-- Taking out one character makes one line less, or one character less in as many lines. -/
private theorem extent_erasure {lines : List Text} (h : WellFormed lines) (hp : InBounds lines p) (hne : p ≠ origin) :
    Prod.Lex (· < ·) (· < ·) (extent (splice (erasure lines p).edit lines)) (extent lines) := by
  have hr := inRange_erasure hp hne
  have hcount := length_splice h hr
  have hgrowth : (erasure lines p).edit.growth = 0 ∨ (erasure lines p).edit.growth = -1 := by
    have hline := placeBefore_line lines p
    simp only [erasure, Edit.erase, Edit.growth, List.count_nil]
    omega
  have hflat : ((joinLines (splice (erasure lines p).edit lines)).length : Int) = (joinLines lines).length + -1 := by
    have hall : ∀ e ∈ [(erasure lines p).edit], e.InRange lines := fun e he => List.mem_singleton.1 he ▸ hr
    have hshift := length_joinLines_spliceAll h hall (List.pairwise_singleton _ _)
    rw [List.map_singleton, shift_erasure hp hne] at hshift
    exact hshift
  have hold := length_joinLines h.ne_nil
  have hnew := length_joinLines (h.splice (erasure lines p).edit).ne_nil
  rw [Prod.lex_def]
  simp only [extent]
  rcases hgrowth with hgrowth | hgrowth <;> omega

/-- Deleting with a single caret plans no removal at the origin, and one elsewhere. -/
private theorem delete_caret (hwf : WellFormed e.lines) (hc : CursorsAt e [p]) :
    ∃ e' q, e.delete = .ok e' ∧ CursorsAt e' [q] ∧ (p = origin → e'.lines = e.lines) ∧
      (p ≠ origin → e'.lines = splice (erasure e.lines p).edit e.lines) := by
  obtain ⟨e', laid, hdelete, hlaid, hlines, images, himages, hsel⟩ := delete_images hwf hc
  have hlast : originLast [p] = [p] := by
    by_cases h : p = origin
    · simp [originLast, h]
    · simp [originLast, h]
  rw [hlast] at himages
  obtain ⟨q, rest, ⟨hq, -⟩, hnil, rfl⟩ := List.forall₂_cons_left_iff.1 himages
  obtain rfl := List.forall₂_nil_left_iff.1 hnil
  rw [eraseDups_of_nodup (List.nodup_singleton q)] at hsel
  refine ⟨e', q, hdelete, cursorsAt_singleton hsel hq, fun h => ?_, fun h => ?_⟩
  · have hnone : laid = [] := by
      refine List.perm_nil.1 ?_
      have := hlaid.perm
      simpa [h] using this
    rw [hlines, hnone]
    rfl
  · have hone : laid = [(erasure e.lines p).edit] := by
      refine List.perm_singleton.1 ?_
      have := hlaid.perm
      simpa [h] using this
    rw [hlines, hone]
    rfl

private theorem delete_retreats (hwf : WellFormed e.lines) (hc : CursorsAt e [p]) :
    Retreats e p (.orUnchanged e e.delete) := by
  obtain ⟨e', q, hdelete, hq, hsame, hless⟩ := delete_caret hwf hc
  have hp : InBounds e.lines p := hc.inBounds p (List.mem_singleton.2 rfl)
  rw [hdelete]
  refine ⟨rfl, ?_, ⟨q, hq⟩, fun h => ?_, hsame⟩
  · show WellFormed e'.lines
    by_cases h : p = origin
    · rw [hsame h]
      exact hwf
    · rw [hless h]
      exact hwf.splice _
  · show Prod.Lex _ _ (extent e'.lines) _
    rw [hless h]
    exact extent_erasure hwf hp h

/-! ### The smart key -/

/-- Of the two lines that Backspace looks at, one is left, or the lower one gets shorter. -/
private theorem extent_withdraws {s : Scene} {a : Action} {A B kept : List Text} {above l x y : Text}
    (h : SmartKey.Withdraws s a A above l B kept x y) :
    Prod.Lex (· < ·) (· < ·) (extent (spliceAll (sortBy Edit.precedes a.edits) s.lines)) (extent s.lines) := by
  rw [Prod.lex_def]
  rcases h.lines_or with hone | ⟨htwo, hless⟩
  · rw [hone, h.cut]
    refine Or.inl ?_
    simp only [extent, List.length_append, List.length_cons]
    omega
  · rw [htwo, h.cut]
    refine Or.inr ⟨?_, ?_⟩
    · simp only [extent, List.length_append, List.length_cons]
    · simp only [extent, List.length_append, List.flatten_append, List.flatten_cons] at hless ⊢
      omega

private theorem carryOut_retreats (hwf : WellFormed e.lines) (hc : CursorsAt e [p]) {a : Action}
    (h : SmartKeyName.backspace.react e.scene = .act a) : Retreats e p (e.carryOut a) := by
  obtain ⟨A, above, l, B, kept, x, y, column, hcaret, -, hw⟩ := SmartKey.backspaceKey_act hwf h
  have hp : p = ⟨(A.length + 1 : Nat), column⟩ :=
    Selection.singleton_caret_inj (hc.selections.symm.trans hcaret)
  have hfit : BatchFits e.lines a.edits := react_batchFits (by decide) h
  rcases carryOut_cases e a with ⟨f, hf, -⟩ | ⟨e₁, e₂, top, he₁, he₂, -, hdone, -⟩
  · rw [applyEdits_eq_ok_iff.2 ⟨hfit, rfl⟩] at hf
    cases hf
  rw [hdone (react_thenKey (by decide) h)]
  have hbatch : e₁.lines = (e.document.afterBatch a.edits).lines := by
    obtain ⟨t, ht⟩ := e.updateDocument_eq (e.document.afterBatch a.edits)
    rw [(applyEdits_eq_ok_iff.1 he₁).2, ht]
    rfl
  have hafter : e₁.lines = spliceAll (sortBy Edit.precedes a.edits) e.lines := hbatch.trans (e.document.lines_afterBatch _)
  have hset : CursorsAt (e₁.setSelections a.selections) [⟨(A.length + kept.length : Nat), x.length⟩] := by
    rw [hw.selections]
    exact cursorsAt_setSelections (hafter ▸ hw.inBounds)
  have hlines : e₂.lines = e₁.lines := by rw [he₂]; rfl
  have hselections : e₂.selections = (e₁.setSelections a.selections).selections := by rw [he₂]; rfl
  refine ⟨rfl, ?_, ⟨_, hset.congr hlines hselections⟩, fun _ => ?_, ?_⟩
  · show WellFormed e₂.lines
    rw [hlines, hbatch]
    exact wellFormed_afterBatch hwf hfit
  · show Prod.Lex _ _ (extent e₂.lines) _
    rw [hlines, hafter]
    exact extent_withdraws hw
  · intro horigin
    cases hp.symm.trans horigin

private theorem pressSmart_retreats (hwf : WellFormed e.lines) (hc : CursorsAt e [p]) :
    Retreats e p (e.pressSmart .backspace) := by
  unfold pressSmart
  have hkeeps := react_keepsToggle (show SmartKeyName.backspace ≠ .lineEnd by decide) e.scene
  cases hreact : SmartKeyName.backspace.react e.scene with
  | act a => exact carryOut_retreats hwf hc hreact
  | decline k forgets =>
    obtain rfl := react_decline hreact
    rw [hreact] at hkeeps
    obtain rfl : forgets = false := hkeeps
    exact delete_retreats hwf hc

theorem handleKey_retreats (hwf : WellFormed e.lines) (hc : CursorsAt e [p]) (char : Text) :
    Retreats e p (e.handleKey "backspace" char) := by
  obtain ⟨kept, -, hsave⟩ := ({ e with status := .quiet } : Editor).saveMoment_eq
  have hsaved : Retreats ({ e with status := .quiet } : Editor).saveMoment p
      (({ e with status := .quiet } : Editor).saveMoment.pressSmart .backspace) := by
    rw [hsave]
    exact pressSmart_retreats hwf (hc.congr rfl rfl)
  have hlines : ({ e with status := .quiet } : Editor).saveMoment.lines = e.lines := by rw [hsave]; rfl
  obtain ⟨hfault, hwf', ⟨q, hq⟩, hless, hsame⟩ := hsaved
  rw [hlines] at hless hsame
  have hrun : e.handleKey "backspace" char =
      ({ e with status := .quiet } : Editor).edit fun e => e.pressSmart .backspace := rfl
  rw [hrun, edit]
  simp only [hfault]
  -- the history alone depends on the version
  split
  · exact ⟨rfl, hwf', ⟨q, hq.congr rfl rfl⟩, hless, hsame⟩
  · exact ⟨rfl, hwf', ⟨q, hq.congr rfl rfl⟩, hless, hsame⟩

/-! ### Many presses -/

private theorem exists_presses_origin (hwf : WellFormed e.lines) (hc : CursorsAt e [p]) (char : Text) :
    ∃ n, CursorsAt (e.operateAll (List.replicate n (.key "backspace" char))) [origin] := by
  have hwell : WellFounded (Prod.Lex (· < ·) (· < ·) : Nat × Nat → Nat × Nat → Prop) :=
    (Prod.lex Nat.lt_wfRel Nat.lt_wfRel).wf
  -- the induction is on the extent of the lines, which every press in between makes less
  induction hsize : extent e.lines using hwell.induction generalizing e p with
  | _ size ih =>
    by_cases hp : p = origin
    · exact ⟨0, hp ▸ hc⟩
    · obtain ⟨-, hwf', ⟨q, hq⟩, hless, -⟩ := handleKey_retreats hwf hc char
      obtain ⟨n, hn⟩ := ih _ (hsize ▸ hless hp) hwf' hq rfl
      exact ⟨n + 1, hn⟩

/-- A press of Backspace with a single caret never fails, and leaves one caret.  Unless the caret is at the beginning of
the text, there are fewer lines then, or as many with fewer characters; and if it is there, the lines stay as they are.
So finitely many presses bring the caret to the beginning. -/
theorem handleKey_backspace_progress (hwf : WellFormed e.lines) (hc : CursorsAt e [p]) (char : Text) :
    (e.handleKey "backspace" char).fault = none ∧
      WellFormed (e.handleKey "backspace" char).editor.lines ∧
      (∃ q, CursorsAt (e.handleKey "backspace" char).editor [q]) ∧
      (p ≠ origin →
        Prod.Lex (· < ·) (· < ·) (extent (e.handleKey "backspace" char).editor.lines) (extent e.lines)) ∧
      (p = origin → (e.handleKey "backspace" char).editor.lines = e.lines) ∧
      ∃ n, CursorsAt (e.operateAll (List.replicate n (.key "backspace" char))) [origin] := by
  have h := handleKey_retreats hwf hc char
  exact ⟨h.fault, h.wellFormed, h.caret, h.less, h.same, exists_presses_origin hwf hc char⟩

/-- Two blank lines below an opening brace, with the caret on the second one. -/
def belowBlankLine : Editor :=
  (ofDocument (.ofText "if \x7b\n\n".toList "doc" "plaintext".toList) {} {}).setSelections [.caret ⟨2, 0⟩]

/-- The press takes a line away and puts more blanks in than it held. -/
theorem handleKey_backspace_progress_belowBlankLine :
    WellFormed belowBlankLine.lines ∧ CursorsAt belowBlankLine [⟨2, 0⟩] ∧
      (belowBlankLine.handleKey "backspace" []).editor.lines = ["if \x7b".toList, "    ".toList] ∧
      extent belowBlankLine.lines = (3, 4) ∧
      extent (belowBlankLine.handleKey "backspace" []).editor.lines = (2, 8) ∧
      Prod.Lex (· < ·) (· < ·) (extent (belowBlankLine.handleKey "backspace" []).editor.lines)
        (extent belowBlankLine.lines) ∧
      ∃ n, CursorsAt (belowBlankLine.operateAll (List.replicate n (.key "backspace" []))) [origin] := by
  have hwf : WellFormed belowBlankLine.lines := wellFormed_splitLines _
  have hc : CursorsAt belowBlankLine [⟨2, 0⟩] := cursorsAt_setSelections (by decide)
  have hlines : (belowBlankLine.handleKey "backspace" []).editor.lines = ["if \x7b".toList, "    ".toList] := by rfl
  obtain ⟨-, -, -, hless, -, hfinally⟩ := handleKey_backspace_progress hwf hc []
  exact ⟨hwf, hc, hlines, by rfl, by rw [hlines]; rfl, hless (by decide), hfinally⟩

end Editor

end MultiCaret
