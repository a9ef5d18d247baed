import MultiCaret.Editor.Keys
import MultiCaret.Proofs.Editor.Settled

/-!
# What a keystroke may do

Every keystroke, plain or smart, does no more than apply accepted batches of edits, set selections, scroll and change
the record of the End toggle.  `Editor.Step` says what follows from this, without looking at the single keystroke: the
history is left alone, the document changes its lines only with its version, and a sound moment is followed by a sound
one.  Keystrokes that fail half-way are steps as well (`step_perform`).
-/

namespace MultiCaret

namespace Editor

/-- What one or several keystrokes may change. -/
structure Step (e e' : Editor) : Prop where
  undoStack : e'.undoStack = e.undoStack
  redoStack : e'.redoStack = e.redoStack
  version_le : e.document.version ≤ e'.document.version
  lines_eq : e'.document.version = e.document.version → e'.lines = e.lines
  sound : e.snapshot.Sound → e'.snapshot.Sound

theorem Step.refl (e : Editor) : Step e e :=
  ⟨rfl, rfl, Nat.le_refl _, fun _ => rfl, id⟩

theorem Step.trans {e₁ e₂ e₃ : Editor} (h₁ : Step e₁ e₂) (h₂ : Step e₂ e₃) : Step e₁ e₃ where
  undoStack := h₂.undoStack.trans h₁.undoStack
  redoStack := h₂.redoStack.trans h₁.redoStack
  version_le := Nat.le_trans h₁.version_le h₂.version_le
  lines_eq h := by
    have := h₁.version_le
    have := h₂.version_le
    rw [h₂.lines_eq (by omega), h₁.lines_eq (by omega)]
  sound h := h₂.sound (h₁.sound h)

variable {e e' : Editor}

theorem applyEdits_eq_ok_iff {es : List Edit} :
    e.applyEdits es = .ok e' ↔ BatchFits e.lines es ∧ e' = e.updateDocument (e.document.afterBatch es) := by
  unfold applyEdits
  cases h : e.document.applyEdits es with
  | ok d =>
    obtain ⟨hfit, rfl⟩ := MultiCaret.applyEdits_eq_ok_iff.1 h
    simp [lines, hfit, eq_comm]
  | error f =>
    simp only [reduceCtorEq, false_iff]
    rintro ⟨hfit, -⟩
    rw [MultiCaret.applyEdits_eq_ok_iff.2 ⟨hfit, rfl⟩] at h
    cases h

/-! ### Primitive steps -/

/-- Applying edits and then setting selections is a step, though the selections may be stale in between. -/
private theorem step_applyEdits {es : List Edit} (h : e.applyEdits es = .ok e') (ss : List Selection) :
    Step e (e'.setSelections ss) := by
  obtain ⟨hfit, rfl⟩ := applyEdits_eq_ok_iff.1 h
  obtain ⟨t, ht⟩ := e.updateDocument_eq (e.document.afterBatch es)
  rw [ht]
  refine ⟨rfl, rfl, e.document.version_le_afterBatch es, ?_, ?_⟩
  · intro hv
    exact congrArg Document.lines (Document.afterBatch_eq_self hv)
  · intro hs
    have hwf : WellFormed ({ e with document := e.document.afterBatch es, tracker := t } : Editor).lines :=
      wellFormed_afterBatch hs.wellFormed hfit
    exact sound_setSelections hwf ss

theorem step_setSelections (ss : List Selection) : Step e (e.setSelections ss) :=
  ⟨rfl, rfl, Nat.le_refl _, fun _ => rfl, fun hs => sound_setSelections hs.wellFormed ss⟩

theorem step_reveal (p : Position) : Step e (e.reveal p) := by
  obtain ⟨k, hk, -⟩ := e.reveal_eq p
  rw [hk]
  exact ⟨rfl, rfl, Nat.le_refl _, fun _ => rfl, id⟩

private theorem step_changeToggle (c : ToggleChange) : Step e (e.changeToggle c) :=
  ⟨rfl, rfl, Nat.le_refl _, fun _ => rfl, id⟩

/-! ### Plain keystrokes -/

private theorem step_commit {cursors : List (Position × PlannedEdit)} {untouched : List Selection}
    (h : e.commit cursors untouched = .ok e') : Step e e' := by
  unfold commit at h
  split at h
  · obtain rfl := Except.ok.inj h
    exact Step.refl e
  · cases ha : e.applyEdits (EditPlan.byCursor cursors).edits with
    | error f => simp only [ha, Except.map, reduceCtorEq] at h
    | ok e₁ =>
      simp only [ha, Except.map] at h
      obtain rfl := Except.ok.inj h
      exact (step_applyEdits ha _).trans (step_reveal _)

theorem step_typeText {t : Text} (h : e.typeText t = .ok e') : Step e e' :=
  step_commit h

theorem step_moveCursors {move : Position → Except EditorFault Position} (h : e.moveCursors move = .ok e') :
    Step e e' := by
  unfold moveCursors at h
  split at h
  · obtain rfl := Except.ok.inj h
    exact (step_setSelections _).trans (step_reveal _)
  · cases h

theorem document_moveCursors {move : Position → Except EditorFault Position} (h : e.moveCursors move = .ok e') :
    e'.document = e.document := by
  unfold moveCursors at h
  split at h
  · next carets _ =>
    obtain rfl := Except.ok.inj h
    obtain ⟨k, hk, -⟩ := (e.setSelections carets).reveal_eq (e.setSelections carets).cursor
    rw [revealCursor, hk]
    rfl
  · cases h

theorem step_addCursorAt (edge : Position) (line : Int) : Step e (e.addCursorAt edge line) := by
  unfold addCursorAt
  split
  · exact (step_setSelections _).trans ⟨rfl, rfl, Nat.le_refl _, fun _ => rfl, id⟩
  · exact Step.refl e

theorem document_addCursorAt (edge : Position) (line : Int) : (e.addCursorAt edge line).document = e.document := by
  unfold addCursorAt
  split <;> rfl

theorem step_press {k : Keystroke} (h : e.press k = .ok e') : Step e e' := by
  cases k with
  | literal t => exact step_commit h
  | newline =>
    simp only [press, newline] at h
    split at h
    · exact step_commit h
    · cases h
  | delete =>
    simp only [press, delete] at h
    split at h
    · exact step_commit h
    · cases h
  | lineEnd =>
    simp only [press, lineEnd] at h
    exact step_moveCursors h

theorem step_orUnchanged {r : Except EditorFault Editor} (h : ∀ e', r = .ok e' → Step e e') :
    Step e (Attempt.orUnchanged e r).editor := by
  cases r with
  | ok e' => exact h e' rfl
  | error f => exact Step.refl e

/-! ### Smart keys -/

/-- An action is refused for its edits and nothing happens, or its edits are applied, the selections set, the window
scrolled, the record of the End toggle changed, and a keystroke follows if one is to follow. -/
theorem carryOut_cases (e : Editor) (a : Action) :
    (∃ f, e.applyEdits a.edits = .error f ∧ e.carryOut a = ⟨e, some f⟩) ∨
      ∃ e₁ e₂ : Editor, ∃ top : Int, e.applyEdits a.edits = .ok e₁ ∧
        e₂ = ({ e₁.setSelections a.selections with scrollTop := top } : Editor).changeToggle a.toggle ∧
        (0 ≤ e₁.scrollTop → (∀ p ∈ a.reveal, 0 ≤ p.line) → 0 ≤ top) ∧
        (a.thenKey = none → e.carryOut a = .done e₂) ∧
        ∀ k, a.thenKey = some k → e.carryOut a = .orUnchanged e₂ (e₂.press k) := by
  cases he : e.applyEdits a.edits with
  | error f => exact Or.inl ⟨f, rfl, by simp only [carryOut, he]⟩
  | ok e₁ =>
    refine Or.inr ⟨e₁, ?_⟩
    cases hp : a.reveal with
    | none =>
      refine ⟨(e₁.setSelections a.selections).changeToggle a.toggle, e₁.scrollTop, rfl, rfl, fun h _ => h, ?_, ?_⟩
      · intro hk
        simp only [carryOut, he, hp, hk]
      · intro k hk
        simp only [carryOut, he, hp, hk]
    | some p =>
      obtain ⟨top, htop, hpos⟩ := (e₁.setSelections a.selections).reveal_eq p
      refine ⟨((e₁.setSelections a.selections).reveal p).changeToggle a.toggle, top, rfl, by rw [htop], ?_, ?_, ?_⟩
      · intro h hline
        exact hpos h (hline p rfl)
      · intro hk
        simp only [carryOut, he, hp, hk]
      · intro k hk
        simp only [carryOut, he, hp, hk]

private theorem step_carryOut (e : Editor) (a : Action) : Step e (e.carryOut a).editor := by
  rcases carryOut_cases e a with ⟨f, -, hf⟩ | ⟨e₁, e₂, top, he₁, he₂, -, hdone, hpress⟩
  · rw [hf]
    exact Step.refl e
  · -- scrolling, the End toggle and the keystroke that may follow keep to what setting the selections left
    have hstep : Step e e₂ := (step_applyEdits he₁ a.selections).trans
      (he₂ ▸ ⟨rfl, rfl, Nat.le_refl _, fun _ => rfl, id⟩)
    cases hk : a.thenKey with
    | none =>
      rw [hdone hk]
      exact hstep
    | some k =>
      rw [hpress k hk]
      exact hstep.trans (step_orUnchanged fun _ => step_press)

theorem step_perform (e : Editor) (r : Reaction) : Step e (e.perform r).editor := by
  cases r with
  | act a => exact step_carryOut e a
  | decline key forgets =>
    simp only [perform]
    split
    · exact (step_changeToggle .forget).trans (step_orUnchanged fun _ => step_press)
    · exact step_orUnchanged fun _ => step_press

end Editor

end MultiCaret
