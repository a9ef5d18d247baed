import MultiCaret.Editor.Screen
import MultiCaret.Proofs.Editor.Steps

/-!
# Sessions

A session is a run of operations on a new editor (`Editor.Reached`).  The moments of an editor are the present one and
those of its history; apart from the present one, an operation brings no new moment (`moments_run`, `moments_operate`).
As long as nobody edits the document behind the back of the editor, all its moments are sound (`Reached.sound`).
-/

namespace MultiCaret

/-- What can be asked of an editor from outside. -/
inductive Operation where
  | key (name : String) (char : Text)
  | select (ss : List Selection)
  | press (k : Keystroke)
  | setContent (t : Text)
  | configure (s : Settings)
  | setIndent (o : IndentOptions)
  | draw (width height : Int)
  /-- Replaces the text of the document directly; the selections stay as they are. -/
  | documentText (t : Text)
  /-- Edits the document directly; the selections stay as they are. -/
  | documentEdits (es : List Edit)

/-- The operation does not change the document behind the back of the editor. -/
def Operation.Mediated : Operation → Prop
  | .documentText _ => False
  | .documentEdits _ => False
  | _ => True

/-- The selections that the operation brings are carets. -/
def Operation.ByCarets : Operation → Prop
  | .select ss => ∀ s ∈ ss, s.isEmpty = true
  | _ => True

/-- What a command that may change the text does in addition to keeping a moment of history. -/
def Command.editing? : Command → Option (Editor → Attempt)
  | .smart key => some fun e => e.pressSmart key
  | .indent => some fun e => .orUnchanged e (e.typeText e.indent.unit)
  | .type t => some fun e => .orUnchanged e (e.typeText t)
  | _ => none

namespace Editor

/-- Does what is asked. -/
def operate (e : Editor) : Operation → Attempt
  | .key name char => e.handleKey name char
  | .select ss => .done (e.setSelections ss)
  | .press k => .orUnchanged e (e.press k)
  | .setContent t => .done (e.setContent t)
  | .configure s => .done { e with settings := s }
  | .setIndent o => .done { e with indent := o }
  | .draw width height =>
    let (e', drawn) := e.draw width height
    ⟨e', match drawn with
      | .ok _ => none
      | .error f => some f⟩
  | .documentText t => .done (e.setText t)
  | .documentEdits es => .orUnchanged e (e.applyEdits es)

/-- Does one thing after the other, also after one that failed. -/
def operateAll (e : Editor) (ops : List Operation) : Editor :=
  ops.foldl (fun e op => (e.operate op).editor) e

/-- The editors that a session comes to by operations of a kind. -/
inductive Reached (kind : Operation → Prop) : Editor → Prop
  | new (t : Text) (uri : String) (language : Text) (indent : IndentOptions) (settings : Settings) :
      Reached kind (.ofDocument (.ofText t uri language) indent settings)
  | next {e : Editor} {op : Operation} : Reached kind e → kind op → Reached kind (e.operate op).editor

variable {e : Editor}

theorem Reached.operateAll {kind : Operation → Prop} (h : Reached kind e) {ops : List Operation}
    (hops : ∀ op ∈ ops, kind op) : Reached kind (e.operateAll ops) := by
  induction ops generalizing e with
  | nil => exact h
  | cons op ops ih =>
    exact ih (h.next (hops op List.mem_cons_self)) fun op' hop' => hops op' (List.mem_cons_of_mem op hop')

/-- The present moment and those that the history can bring back. -/
def moments (e : Editor) : List Snapshot :=
  e.snapshot :: (e.undoStack ++ e.redoStack)

/-! ### Commands -/

/-- A command other than undo and redo leaves the document alone, or is run with a moment of history. -/
theorem run_cases {c : Command} (hu : c ≠ .undo) (hr : c ≠ .redo) :
    (c.editing? = none ∧ Step e (e.run c).editor ∧ (e.run c).editor.document = e.document) ∨
      ∃ f : Editor → Attempt, c.editing? = some f ∧ (∀ e, Step e (f e).editor) ∧ e.run c = e.edit f := by
  have hmove : ∀ move, Step e (Attempt.orUnchanged e (e.moveCursors move)).editor ∧
      (Attempt.orUnchanged e (e.moveCursors move)).editor.document = e.document := by
    intro move
    refine ⟨step_orUnchanged fun _ => step_moveCursors, ?_⟩
    cases h : e.moveCursors move with
    | ok e' => exact document_moveCursors h
    | error f => rfl
  cases c with
  | undo => exact absurd rfl hu
  | redo => exact absurd rfl hr
  | smart key => exact Or.inr ⟨_, rfl, fun e => step_perform e _, rfl⟩
  | indent => exact Or.inr ⟨_, rfl, fun e => step_orUnchanged fun _ => step_typeText, rfl⟩
  | type t => exact Or.inr ⟨_, rfl, fun e => step_orUnchanged fun _ => step_typeText, rfl⟩
  | home => exact Or.inl ⟨rfl, hmove _⟩
  | left => exact Or.inl ⟨rfl, hmove _⟩
  | right => exact Or.inl ⟨rfl, hmove _⟩
  | up => exact Or.inl ⟨rfl, hmove _⟩
  | down => exact Or.inl ⟨rfl, hmove _⟩
  | cursorAbove => exact Or.inl ⟨rfl, step_addCursorAt _ _, document_addCursorAt _ _⟩
  | cursorBelow => exact Or.inl ⟨rfl, step_addCursorAt _ _, document_addCursorAt _ _⟩
  | singleCursor => exact Or.inl ⟨rfl, step_setSelections _, rfl⟩
  | save => exact Or.inl ⟨rfl, ⟨rfl, rfl, Nat.le_refl _, fun _ => rfl, id⟩, rfl⟩
  | quit => exact Or.inl ⟨rfl, ⟨rfl, rfl, Nat.le_refl _, fun _ => rfl, id⟩, rfl⟩
  | nothing => exact Or.inl ⟨rfl, Step.refl e, rfl⟩

theorem saveMoment_eq (e : Editor) : ∃ kept : List Snapshot, kept ⊆ e.undoStack ∧
    e.saveMoment = { e with undoStack := e.snapshot :: kept } := by
  unfold saveMoment
  split
  · exact ⟨_, List.Subset.refl _, rfl⟩
  · exact ⟨_, List.dropLast_subset _, rfl⟩

/-- What an edit with a moment of history does: the moment before is on the undo stack, unless the lines are still the
same. -/
theorem edit_cases {f : Editor → Attempt} (hf : ∀ e, Step e (f e).editor) :
    (e.edit f).editor.snapshot = (f e.saveMoment).editor.snapshot ∧
    (∃ kept, kept ⊆ e.undoStack ∧
      ((e.edit f).editor.undoStack = e.snapshot :: kept ∨
        (e.edit f).editor.undoStack = kept ∧ (e.edit f).editor.lines = e.lines)) ∧
    ((e.edit f).editor.redoStack = [] ∨ (e.edit f).editor.redoStack = e.redoStack) := by
  obtain ⟨kept, hsub, hsave⟩ := e.saveMoment_eq
  have hs := hf e.saveMoment
  have hundo : (f e.saveMoment).editor.undoStack = e.snapshot :: kept := by rw [hs.undoStack, hsave]
  have hredo : (f e.saveMoment).editor.redoStack = e.redoStack := by rw [hs.redoStack, hsave]
  unfold edit
  simp only
  -- a fault leaves the moment on the stack; otherwise the version tells whether it is taken off again
  split
  · exact ⟨rfl, ⟨kept, hsub, Or.inl hundo⟩, Or.inr hredo⟩
  · split
    · next hv =>
      have hlines : (f e.saveMoment).editor.lines = e.lines := by
        rw [hs.lines_eq (by rw [hv, hsave]), hsave]
        rfl
      refine ⟨rfl, ⟨kept, hsub, Or.inr ⟨?_, hlines⟩⟩, Or.inr hredo⟩
      simp only [Attempt.done, hundo, List.tail_cons]
    · exact ⟨rfl, ⟨kept, hsub, Or.inl hundo⟩, Or.inl rfl⟩

/-! ### Undo and redo -/

/-- Going back puts the present moment in the place of the last one. -/
theorem undo_cons {s : Snapshot} {rest : List Snapshot} (h : e.undoStack = s :: rest) (hs : s.Sound) :
    e.undo.snapshot = s ∧ e.undo.undoStack = rest ∧ e.undo.redoStack = e.snapshot :: e.redoStack := by
  simp only [undo, h]
  have hstacks := stacks_restore { e with undoStack := rest, redoStack := e.snapshot :: e.redoStack } s
  exact ⟨snapshot_restore _ hs, hstacks⟩

/-- Going forward puts the present moment in the place of the next one. -/
theorem redo_cons {s : Snapshot} {rest : List Snapshot} (h : e.redoStack = s :: rest) (hs : s.Sound) :
    e.redo.snapshot = s ∧ e.redo.redoStack = rest ∧ e.redo.undoStack = e.snapshot :: e.undoStack := by
  simp only [redo, h]
  have hstacks := stacks_restore { e with redoStack := rest, undoStack := e.snapshot :: e.undoStack } s
  exact ⟨snapshot_restore _ hs, hstacks.symm⟩

theorem moments_undo (h : ∀ s ∈ e.moments, s.Sound) : e.undo.moments ⊆ e.moments := by
  cases hu : e.undoStack with
  | nil =>
    have : e.undo = { e with status := .nothingToUndo } := by rw [undo, hu]
    rw [this]
    exact List.Subset.refl _
  | cons s rest =>
    obtain ⟨hnow, hundo, hredo⟩ := undo_cons hu (h s (by simp [moments, hu]))
    intro m
    simp only [moments, hnow, hundo, hredo, hu, List.mem_cons, List.mem_append]
    rintro (hm | hm | hm | hm) <;> simp [hm]

theorem moments_redo (h : ∀ s ∈ e.moments, s.Sound) : e.redo.moments ⊆ e.moments := by
  cases hr : e.redoStack with
  | nil =>
    have : e.redo = { e with status := .nothingToRedo } := by rw [redo, hr]
    rw [this]
    exact List.Subset.refl _
  | cons s rest =>
    obtain ⟨hnow, hredo, hundo⟩ := redo_cons hr (h s (by simp [moments, hr]))
    intro m
    simp only [moments, hnow, hundo, hredo, hr, List.mem_cons, List.mem_append]
    rintro (hm | (hm | hm) | hm) <;> simp [hm]

/-! ### All moments are sound -/

/-- A step brings no moment but the present one. -/
private theorem Step.moments_subset {e' : Editor} (h : Step e e') : e'.moments ⊆ e'.snapshot :: e.moments := by
  intro m
  simp only [moments, h.undoStack, h.redoStack, List.mem_cons, List.mem_append]
  rintro (hm | hm | hm) <;> simp [hm]

/-- An edit with a moment of history brings no moment but the present one either. -/
private theorem moments_edit {f : Editor → Attempt} (hf : ∀ e, Step e (f e).editor) (h : e.snapshot.Sound) :
    (e.edit f).editor.moments ⊆ (e.edit f).editor.snapshot :: e.moments ∧ (e.edit f).editor.snapshot.Sound := by
  obtain ⟨hsnap, ⟨kept, hkept, hundo⟩, hredo⟩ := edit_cases (e := e) hf
  constructor
  · have hpast : e.undoStack ⊆ e.undoStack ++ e.redoStack := List.subset_append_left _ _
    have hundo' : (e.edit f).editor.undoStack ⊆ e.moments := by
      rcases hundo with hundo | ⟨hundo, -⟩ <;> rw [hundo]
      · exact List.cons_subset_cons _ (List.Subset.trans hkept hpast)
      · exact List.Subset.trans (List.Subset.trans hkept hpast) (List.subset_cons_self _ _)
    have hredo' : (e.edit f).editor.redoStack ⊆ e.moments := by
      rcases hredo with hredo | hredo <;> rw [hredo]
      · exact List.nil_subset _
      · exact List.Subset.trans (List.subset_append_right _ _) (List.subset_cons_self _ _)
    exact List.cons_subset_cons _ (List.append_subset.2 ⟨hundo', hredo'⟩)
  · obtain ⟨kept, -, hsave⟩ := e.saveMoment_eq
    rw [hsnap]
    refine (hf _).sound ?_
    rw [hsave]
    exact h

theorem moments_run (h : ∀ s ∈ e.moments, s.Sound) (c : Command) :
    (e.run c).editor.moments ⊆ (e.run c).editor.snapshot :: e.moments ∧ (e.run c).editor.snapshot.Sound := by
  have hnow := h e.snapshot List.mem_cons_self
  by_cases hu : c = .undo
  · rw [hu]
    have hsub := moments_undo h
    exact ⟨fun m hm => List.mem_cons_of_mem _ (hsub hm), h _ (hsub List.mem_cons_self)⟩
  · by_cases hr : c = .redo
    · rw [hr]
      have hsub := moments_redo h
      exact ⟨fun m hm => List.mem_cons_of_mem _ (hsub hm), h _ (hsub List.mem_cons_self)⟩
    · rcases run_cases hu hr with ⟨-, hs, -⟩ | ⟨f, -, hf, hrun⟩
      · exact ⟨hs.moments_subset, hs.sound hnow⟩
      · rw [hrun]
        exact moments_edit hf hnow

/-- Drawing scrolls the window, if it draws anything. -/
theorem step_draw (width height : Int) : Step e (e.operate (.draw width height)).editor := by
  simp only [operate, draw]
  split
  · exact Step.refl e
  · exact (show Step e { e with viewHeight := (height - 1).toNat } from
      ⟨rfl, rfl, Nat.le_refl _, fun _ => rfl, id⟩).trans (step_reveal _)

theorem moments_operate (h : ∀ s ∈ e.moments, s.Sound) {op : Operation} (hop : op.Mediated) :
    (e.operate op).editor.moments ⊆ (e.operate op).editor.snapshot :: e.moments ∧
      (e.operate op).editor.snapshot.Sound := by
  have hstep : ∀ {e'}, Step e e' → e'.moments ⊆ e'.snapshot :: e.moments ∧ e'.snapshot.Sound :=
    fun hs => ⟨hs.moments_subset, hs.sound (h _ List.mem_cons_self)⟩
  cases op with
  | key name char => exact moments_run (e := { e with status := .quiet }) h _
  | select ss => exact hstep (step_setSelections ss)
  | press k => exact hstep (step_orUnchanged fun _ => step_press)
  | setContent t =>
    obtain ⟨tr, ht⟩ := e.updateDocument_eq (e.document.setText t)
    simp only [operate, Attempt.done, setContent, setText, ht]
    refine ⟨List.cons_subset_cons _ (List.nil_subset _), ?_⟩
    have hwf := wellFormed_splitLines t
    exact ⟨hwf, settled_caret_origin hwf⟩
  | configure s => exact hstep ⟨rfl, rfl, Nat.le_refl _, fun _ => rfl, id⟩
  | setIndent o => exact hstep ⟨rfl, rfl, Nat.le_refl _, fun _ => rfl, id⟩
  | draw width height => exact hstep (step_draw width height)
  | documentText t => cases hop
  | documentEdits es => cases hop

theorem sound_ofText (t : Text) (uri : String) (language : Text) (indent : IndentOptions) (settings : Settings) :
    ∀ s ∈ (ofDocument (.ofText t uri language) indent settings).moments, s.Sound := by
  intro s hs
  obtain rfl := List.mem_singleton.1 hs
  have hwf := wellFormed_splitLines t
  exact ⟨hwf, settled_caret_origin hwf⟩

/-- All moments of a session without direct edits are sound. -/
theorem Reached.sound (h : Reached Operation.Mediated e) : ∀ s ∈ e.moments, s.Sound := by
  induction h with
  | new t uri language indent settings => exact sound_ofText t uri language indent settings
  | next _ hop ih =>
    obtain ⟨hsub, hnow⟩ := moments_operate ih hop
    intro s hs
    rcases List.mem_cons.1 (hsub hs) with rfl | hs
    · exact hnow
    · exact ih s hs

end Editor

end MultiCaret
