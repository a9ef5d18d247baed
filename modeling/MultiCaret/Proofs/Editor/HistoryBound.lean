import MultiCaret.Proofs.Editor.Steady

/-!
# The size of the history

A full undo stack gives up its oldest moment when a new one comes, but redo puts moments on it without looking at its
size.  The two stacks together stay within the limit all the same: going back or forward takes a moment from one stack and
puts one on the other (`historySize_undo`, `historySize_redo`), and the only step that makes the history larger, an edit
that changes the text, empties the redo stack (`historySize_edit`).  An edit that fails would leave a moment too many; with
carets none does.
-/

namespace MultiCaret

namespace Editor

/-- The number of moments on both stacks. -/
def historySize (e : Editor) : Nat :=
  e.undoStack.length + e.redoStack.length

variable {e e' : Editor}

private theorem Step.historySize (h : Step e e') : e'.historySize = e.historySize := by
  rw [Editor.historySize, Editor.historySize, h.undoStack, h.redoStack]

/-! ### Going back and forward -/

theorem historySize_undo (e : Editor) : e.undo.historySize = e.historySize := by
  cases hu : e.undoStack with
  | nil => simp only [undo, hu, historySize]
  | cons s rest =>
    obtain ⟨hundo, hredo⟩ := stacks_restore { e with undoStack := rest, redoStack := e.snapshot :: e.redoStack } s
    simp only [undo, hu, historySize, hundo, hredo, List.length_cons]
    omega

theorem historySize_redo (e : Editor) : e.redo.historySize = e.historySize := by
  cases hr : e.redoStack with
  | nil => simp only [redo, hr, historySize]
  | cons s rest =>
    obtain ⟨hundo, hredo⟩ := stacks_restore { e with redoStack := rest, undoStack := e.snapshot :: e.undoStack } s
    simp only [redo, hr, historySize, hundo, hredo, List.length_cons]
    omega

/-! ### Edits -/

/-- A moment is saved on top of what the stack has room for. -/
private theorem undoStack_saveMoment (e : Editor) :
    ∃ kept : List Snapshot, e.saveMoment.undoStack = e.snapshot :: kept ∧ kept.length ≤ e.undoStack.length ∧
      (e.undoStack.length ≤ historyLimit → kept.length < historyLimit) := by
  unfold saveMoment
  split
  · next hroom => exact ⟨_, rfl, Nat.le_refl _, fun _ => hroom⟩
  · next hfull =>
    refine ⟨_, rfl, ?_, fun hle => ?_⟩
    · rw [List.length_dropLast]
      exact Nat.sub_le _ _
    · rw [List.length_dropLast]
      have hpos : 0 < historyLimit := by decide
      omega

/-- An edit that does not fail leaves a history within the limit. -/
theorem historySize_edit {f : Editor → Attempt} (hf : ∀ e, Step e (f e).editor) (hfault : (e.edit f).fault = none)
    (hsize : e.historySize ≤ historyLimit) : (e.edit f).editor.historySize ≤ historyLimit := by
  obtain ⟨kept, hkept, hle, hlt⟩ := e.undoStack_saveMoment
  have hs := hf e.saveMoment
  have hundo : (f e.saveMoment).editor.undoStack = e.snapshot :: kept := hs.undoStack.trans hkept
  have hredo : (f e.saveMoment).editor.redoStack = e.redoStack := hs.redoStack
  unfold historySize at hsize
  unfold edit at hfault ⊢
  simp only at hfault ⊢
  split at hfault
  · next g hg =>
    rw [hg] at hfault
    cases hfault
  · split
    · -- the text is the same, and the moment is taken off again
      simp only [Attempt.done, historySize, hundo, hredo, List.tail_cons]
      omega
    · simp only [Attempt.done, historySize, hundo, List.length_cons, List.length_nil]
      exact hlt (by omega)

/-! ### Sessions -/

private theorem historySize_run (h : e.Steady) (c : Command) (hsize : e.historySize ≤ historyLimit) :
    (e.run c).editor.historySize ≤ historyLimit := by
  by_cases hu : c = .undo
  · rw [hu]
    exact Nat.le_trans (Nat.le_of_eq e.historySize_undo) hsize
  · by_cases hr : c = .redo
    · rw [hr]
      exact Nat.le_trans (Nat.le_of_eq e.historySize_redo) hsize
    · rcases run_cases hu hr with ⟨-, hs, -⟩ | ⟨f, -, hf, hrun⟩
      · exact Nat.le_trans (Nat.le_of_eq hs.historySize) hsize
      · have hfault := (smooth_run h c).fault
        rw [hrun] at hfault ⊢
        exact historySize_edit hf hfault hsize

private theorem historySize_operate (h : e.Steady) {op : Operation} (hop : op.Mediated)
    (hsize : e.historySize ≤ historyLimit) : (e.operate op).editor.historySize ≤ historyLimit := by
  have hstep : ∀ {e'}, Step e e' → e'.historySize ≤ historyLimit := fun hs =>
    Nat.le_trans (Nat.le_of_eq hs.historySize) hsize
  cases op with
  | key name char => exact historySize_run (e := { e with status := .quiet }) ⟨h.moments, h.scrollTop⟩ _ hsize
  | select ss => exact hstep (step_setSelections ss)
  | press k => exact hstep (step_orUnchanged fun _ => step_press)
  | setContent t => exact Nat.zero_le _
  | configure s => exact hsize
  | setIndent o => exact hsize
  | draw width height => exact hstep (step_draw width height)
  | documentText t => cases hop
  | documentEdits es => cases hop

/-- In a session with carets and without direct edits the two stacks hold no more moments together than one of them
may.  So redo, which does not look at the size of the undo stack, cannot make it too large. -/
theorem Reached.historySize_le (h : Reached (fun op => op.Mediated ∧ op.ByCarets) e) :
    e.undoStack.length + e.redoStack.length ≤ 200 ∧
      ∀ char, (e.handleKey "ctrl+y" char).editor.undoStack.length ≤ 200 := by
  have hsize : ∀ {e : Editor}, Reached (fun op => op.Mediated ∧ op.ByCarets) e → e.historySize ≤ historyLimit := by
    intro e h
    induction h with
    | new t uri language indent settings => exact Nat.zero_le _
    | next hreached hop ih => exact historySize_operate hreached.steady hop.1 ih
  refine ⟨hsize h, fun char => ?_⟩
  have hop : (Operation.key "ctrl+y" char).Mediated ∧ (Operation.key "ctrl+y" char).ByCarets := ⟨trivial, trivial⟩
  exact Nat.le_trans (Nat.le_add_right _ _) (hsize (h.next hop))

/-- An editor in which two letters have been typed and one of them taken back. -/
def halfTakenBack : Editor :=
  (ofDocument (.ofText [] "doc" "plaintext".toList) {} {}).operateAll
    [.key "a" ['a'], .key "b" ['b'], .key "ctrl+z" []]

theorem historySize_le_halfTakenBack :
    Reached (fun op => op.Mediated ∧ op.ByCarets) halfTakenBack ∧
      (halfTakenBack.undoStack.length = 1 ∧ halfTakenBack.redoStack.length = 1) ∧
      halfTakenBack.undoStack.length + halfTakenBack.redoStack.length ≤ 200 ∧
      (halfTakenBack.handleKey "ctrl+y" []).editor.undoStack.length = 2 ∧
      (halfTakenBack.handleKey "ctrl+y" []).editor.undoStack.length ≤ 200 := by
  have h : Reached (fun op => op.Mediated ∧ op.ByCarets) halfTakenBack := by
    refine Reached.operateAll (.new _ _ _ _ _) fun op hop => ?_
    simp only [List.mem_cons, List.not_mem_nil, or_false] at hop
    rcases hop with rfl | rfl | rfl
    all_goals exact ⟨trivial, trivial⟩
  obtain ⟨hsize, hredo⟩ := h.historySize_le
  exact ⟨h, by decide +kernel, hsize, by decide +kernel, hredo []⟩

end Editor

end MultiCaret
