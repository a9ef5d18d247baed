import MultiCaret.Proofs.Editor.Invariants
import MultiCaret.Proofs.Editor.Steady
import MultiCaret.Proofs.Editor.UndoRedo
import MultiCaret.Proofs.SmartKey.Outcome

/-!
# Keys that fail

A key can fail when the document was edited behind the back of the editor, so that a cursor stands on no place of it any
more, or when selections end at one place.  A plain keystroke that fails has changed nothing, and a smart key fails
before it has changed anything: the one keystroke that follows an edit of its own is the newline behind a comma, and
this goes through, because the cursor was just set (`newline_ok`).  What a key that may change the text leaves behind
when it fails is the moment that it saved (`handleKey_fault`).
-/

namespace MultiCaret

namespace SmartKey

variable {s : Scene} {a : Action} {k : Keystroke}

private theorem enterOnLine_thenKey {n column : Int} {l : Text} (h : enterOnLine s n column l = .act a)
    (hk : a.thenKey = some k) : k = .newline := by
  unfold enterOnLine at h
  split at h
  · split at h
    · rw [← Reaction.act.inj h] at hk
      cases hk
    · cases h
  · simp only at h
    split at h
    · rw [← Reaction.act.inj h] at hk
      cases hk
    · rw [← Reaction.act.inj h] at hk
      exact (Option.some.inj hk).symm

private theorem enterMany_thenKey (h : enterMany s = .act a) : a.thenKey = none := by
  unfold enterMany at h
  simp only at h
  split at h
  · split at h
    · cases h
    · rw [← Reaction.act.inj h]
  · cases h

end SmartKey

/-- Where a smart key lets a plain keystroke follow, this is a newline. -/
private theorem react_newline {key : SmartKeyName} {s : Scene} {a : Action} {k : Keystroke} (h : key.react s = .act a)
    (hk : a.thenKey = some k) : k = .newline := by
  by_cases hkey : key = .enter
  · rw [hkey] at h
    simp only [SmartKeyName.react, SmartKey.enterKey] at h
    split at h
    · split at h
      · split at h
        · exact SmartKey.enterOnLine_thenKey h hk
        · cases h
      · rw [SmartKey.enterMany_thenKey h] at hk
        cases hk
    · cases h
  · rw [react_thenKey hkey h] at hk
    cases hk

/-- If the step fails, the document, the selections and the history are as they were. -/
def Attempt.Atomic (e : Editor) (a : Attempt) : Prop :=
  a.fault ≠ none → a.editor.document = e.document ∧ Editor.SameMoments e a.editor

private theorem Attempt.atomic_orUnchanged (e : Editor) (r : Except EditorFault Editor) :
    (Attempt.orUnchanged e r).Atomic e := by
  intro hfault
  cases r with
  | ok e' => exact absurd rfl hfault
  | error f => exact ⟨rfl, Editor.SameMoments.refl e⟩

namespace Editor

variable {e : Editor}

theorem newline_ok (hsound : e.snapshot.Sound) : ∃ e', e.newline = .ok e' := by
  have hin : ∀ s ∈ e.selections, InBounds e.lines s.active := fun s hs => (hsound.settled.inBounds s hs).2
  rw [newline_eq_commit hsound.wellFormed hin]
  exact commit_ok_iff.2 (batchFits_insertions hin (brokenLine e.lines))

/-- The edits of a smart key may be refused; behind them nothing fails. -/
private theorem carryOut_fault (hwf : WellFormed e.lines) {key : SmartKeyName} {a : Action}
    (hr : key.react e.scene = .act a) : (∃ f, e.carryOut a = ⟨e, some f⟩) ∨ (e.carryOut a).fault = none := by
  rcases carryOut_cases e a with ⟨f, -, hf⟩ | ⟨e₁, e₂, top, he₁, he₂, -, hdone, hpress⟩
  · exact Or.inl ⟨f, hf⟩
  · right
    cases hk : a.thenKey with
    | none => rw [hdone hk, Attempt.done]
    | some k =>
      obtain rfl := react_newline hr hk
      have hwf₁ := kept_wellFormed.applyEdits hwf he₁
      -- the caret has just been set, so it is in the document
      have hsnap : e₂.snapshot = (e₁.setSelections a.selections).snapshot := by
        rw [he₂]
        rfl
      obtain ⟨e₃, he₃⟩ := newline_ok (hsnap ▸ sound_setSelections hwf₁ a.selections)
      rw [hpress _ hk, press, he₃, Attempt.orUnchanged]

private theorem atomic_pressSmart (hwf : WellFormed e.lines) (key : SmartKeyName) : (e.pressSmart key).Atomic e := by
  intro hfault
  unfold pressSmart at hfault ⊢
  cases hr : key.react e.scene with
  | decline k forgets =>
    rw [hr] at hfault
    simp only [perform] at hfault ⊢
    split at hfault
    · next hforgets =>
      obtain ⟨hdoc, hsame⟩ := Attempt.atomic_orUnchanged _ _ hfault
      rw [if_pos hforgets]
      exact ⟨hdoc, hsame.snapshot, hsame.undoStack, hsame.redoStack⟩
    · next hforgets =>
      rw [if_neg hforgets]
      exact Attempt.atomic_orUnchanged _ _ hfault
  | act a =>
    rw [hr] at hfault
    rcases carryOut_fault hwf hr with ⟨f, hf⟩ | hnone
    · rw [perform, hf]
      exact ⟨rfl, SameMoments.refl e⟩
    · exact absurd hnone hfault

/-! ### Commands -/

/-- A failing edit leaves the moment before it on the undo stack. -/
private theorem edit_fault {f : Editor → Attempt} (hf : (f e.saveMoment).Atomic e.saveMoment)
    (hfault : (e.edit f).fault ≠ none) :
    (e.edit f).editor.document = e.document ∧ SameMoments e.saveMoment (e.edit f).editor := by
  unfold edit at hfault ⊢
  cases hcase : (f e.saveMoment).fault with
  | some x =>
    simp only [hcase]
    exact hf (by rw [hcase]; exact Option.some_ne_none x)
  | none =>
    exfalso
    apply hfault
    simp only [hcase]
    split <;> rfl

private theorem run_fault (hwf : WellFormed e.lines) (c : Command) (hfault : (e.run c).fault ≠ none) :
    (e.run c).editor.document = e.document ∧
      SameMoments (if c.editing?.isSome then e.saveMoment else e) (e.run c).editor := by
  have hmove : ∀ move, (Attempt.orUnchanged e (e.moveCursors move)).Atomic e := fun move =>
    Attempt.atomic_orUnchanged e _
  cases c with
  | smart key => exact edit_fault (atomic_pressSmart (e := e.saveMoment) hwf key) hfault
  | indent => exact edit_fault (Attempt.atomic_orUnchanged _ _) hfault
  | type t => exact edit_fault (Attempt.atomic_orUnchanged _ _) hfault
  | home => exact hmove _ hfault
  | left => exact hmove _ hfault
  | right => exact hmove _ hfault
  | up => exact hmove _ hfault
  | down => exact hmove _ hfault
  | cursorAbove | cursorBelow | singleCursor | undo | redo | save | quit | nothing => exact absurd rfl hfault

/-- Whatever was asked of the editor before, a key that fails leaves the document, the selections and what can be redone
as they were, and the undo stack too unless it is a key that may change the text: then the moment before the key is on
the stack, and the oldest one is gone if the stack was full. -/
theorem handleKey_fault {kind : Operation → Prop} (h : Reached kind e) {name : String} {char : Text}
    (hfault : (e.handleKey name char).fault ≠ none) :
    (e.handleKey name char).editor.document = e.document ∧
      SameMoments (if (Command.ofKey name char).editing?.isSome then e.saveMoment else e)
        (e.handleKey name char).editor := by
  obtain ⟨hdoc, hsame⟩ := run_fault (e := { e with status := .quiet }) h.wellFormed (.ofKey name char) hfault
  refine ⟨hdoc, ?_⟩
  split
  · next hediting =>
    rw [if_pos hediting] at hsame
    exact ⟨hsame.snapshot, hsame.undoStack, hsame.redoStack⟩
  · next hediting =>
    rw [if_neg hediting] at hsame
    exact ⟨hsame.snapshot, hsame.undoStack, hsame.redoStack⟩

/-- An editor whose only cursor is on a line that the document does not have any more. -/
def cursorBelowText : Editor :=
  ((ofDocument (.ofText ['a', '\n', 'b'] "doc" "plaintext".toList) {} {}).setSelections [.caret ⟨1, 1⟩]).setText ['a']

private theorem reached_cursorBelowText : Reached (fun _ => True) cursorBelowText := by
  have h : Reached (fun _ => True)
      ((ofDocument (.ofText ['a', '\n', 'b'] "doc" "plaintext".toList) {} {}).operateAll
        [.select [.caret ⟨1, 1⟩], .documentText ['a']]) :=
    (Reached.new _ _ _ _ _).operateAll fun _ _ => trivial
  exact h

theorem handleKey_fault_cursorBelowText :
    Reached (fun _ => True) cursorBelowText ∧ (cursorBelowText.handleKey "x" ['x']).fault ≠ none ∧
      (cursorBelowText.handleKey "x" ['x']).editor.document = cursorBelowText.document ∧
      SameMoments cursorBelowText.saveMoment (cursorBelowText.handleKey "x" ['x']).editor := by
  have hfault : (cursorBelowText.handleKey "x" ['x']).fault ≠ none := by decide +kernel
  obtain ⟨hdoc, hsame⟩ := handleKey_fault reached_cursorBelowText hfault
  have hediting : (Command.ofKey "x" ['x']).editing?.isSome = true := by decide +kernel
  rw [if_pos hediting] at hsame
  exact ⟨reached_cursorBelowText, hfault, hdoc, hsame⟩

/-- So not every key that fails leaves the history as it was. -/
theorem not_sameMoments_of_fault :
    ¬ ∀ e : Editor, Reached (fun _ => True) e → ∀ name char, (e.handleKey name char).fault ≠ none →
      SameMoments e (e.handleKey name char).editor := by
  intro hall
  have hfault : (cursorBelowText.handleKey "x" ['x']).fault ≠ none := by decide +kernel
  have hundo := (hall cursorBelowText reached_cursorBelowText "x" ['x'] hfault).undoStack
  have hlen : (cursorBelowText.handleKey "x" ['x']).editor.undoStack.length = 1 ∧
      cursorBelowText.undoStack.length = 0 := by decide +kernel
  rw [hundo, hlen.2] at hlen
  cases hlen.1

end Editor

end MultiCaret
