import MultiCaret.Proofs.Editor.Session

/-!
# Undo and redo

Going back and then forward again leads to the same moment with the same history (`sameMoments_redo_undo`), because the
moments on the stacks are sound and so come back exactly.  A key that changes the lines leaves the moment before it on
top of the undo stack, however many batches it applied, so one press of the undo key takes it back
(`undo_redo_restore`).
-/

namespace MultiCaret

/-- The keys that go back and forward in the history ask for nothing else, and no other key does. -/
theorem ofKey_undo_redo (name : String) (char : Text) :
    (Command.ofKey name char = .undo ↔ name = "ctrl+z") ∧ (Command.ofKey name char = .redo ↔ name = "ctrl+y") := by
  have hchar : Command.ofChar char ≠ .undo ∧ Command.ofChar char ≠ .redo := by
    unfold Command.ofChar
    split
    · simp
    · split
      · simp
      · split <;> simp
  unfold Command.ofKey
  split
  all_goals simp_all

namespace Editor

/-- The two editors are at the same moment of the same history. -/
structure SameMoments (e e' : Editor) : Prop where
  snapshot : e'.snapshot = e.snapshot
  undoStack : e'.undoStack = e.undoStack
  redoStack : e'.redoStack = e.redoStack

theorem SameMoments.refl (e : Editor) : SameMoments e e :=
  ⟨rfl, rfl, rfl⟩

theorem SameMoments.trans {e₁ e₂ e₃ : Editor} (h₁ : SameMoments e₁ e₂) (h₂ : SameMoments e₂ e₃) : SameMoments e₁ e₃ :=
  ⟨h₂.snapshot.trans h₁.snapshot, h₂.undoStack.trans h₁.undoStack, h₂.redoStack.trans h₁.redoStack⟩

variable {e e' : Editor}

/-- What going forward leads to depends on the moments only. -/
private theorem SameMoments.redo (h : SameMoments e e') (hs : ∀ s ∈ e.moments, s.Sound) :
    SameMoments e.redo e'.redo := by
  cases hr : e.redoStack with
  | nil =>
    have hr' : e'.redoStack = [] := h.redoStack.trans hr
    simp only [Editor.redo, hr, hr']
    exact ⟨h.snapshot, h.undoStack, rfl⟩
  | cons s rest =>
    have hr' : e'.redoStack = s :: rest := h.redoStack.trans hr
    have hsound : s.Sound := hs s (by simp [moments, hr])
    obtain ⟨hnow, hredo, hundo⟩ := redo_cons hr hsound
    obtain ⟨hnow', hredo', hundo'⟩ := redo_cons hr' hsound
    refine ⟨?_, ?_, ?_⟩
    · rw [hnow, hnow']
    · rw [hundo, hundo', h.snapshot, h.undoStack]
    · rw [hredo, hredo']

/-- Going forward takes going back back. -/
theorem sameMoments_redo_undo (hs : ∀ s ∈ e.moments, s.Sound) (hne : e.undoStack ≠ []) :
    SameMoments e e.undo.redo := by
  obtain ⟨s, rest, hu⟩ := List.exists_cons_of_ne_nil hne
  have hnow := hs e.snapshot List.mem_cons_self
  obtain ⟨hnow₁, hundo₁, hredo₁⟩ := undo_cons hu (hs s (by simp [moments, hu]))
  obtain ⟨hnow₂, hredo₂, hundo₂⟩ := redo_cons hredo₁ hnow
  refine ⟨hnow₂, ?_, hredo₂⟩
  rw [hundo₂, hnow₁, hundo₁, hu]

private theorem SameMoments.redo_after_undo (hs : ∀ s ∈ e.moments, s.Sound) (hne : e.undoStack ≠ [])
    (h : SameMoments e.undo e') : SameMoments e e'.redo := by
  have hs' : ∀ s ∈ e.undo.moments, s.Sound := fun s hmem => hs s (moments_undo hs hmem)
  exact (sameMoments_redo_undo hs hne).trans (h.redo hs')

/-! ### Keys -/

private theorem handleKey_undo (e : Editor) (char : Text) :
    e.handleKey "ctrl+z" char = .done ({ e with status := .quiet } : Editor).undo := by
  rw [handleKey, ((ofKey_undo_redo _ char).1).2 rfl]
  rfl

private theorem handleKey_redo (e : Editor) (char : Text) :
    e.handleKey "ctrl+y" char = .done ({ e with status := .quiet } : Editor).redo := by
  rw [handleKey, ((ofKey_undo_redo _ char).2).2 rfl]
  rfl

/-- As many presses of the redo key take back some presses of the undo key. -/
private theorem sameMoments_undos_redos (hs : ∀ s ∈ e.moments, s.Sound) {undos redos : List Text}
    (hlen : undos.length ≤ e.undoStack.length) (heq : redos.length = undos.length) :
    SameMoments e (e.operateAll (undos.map (.key "ctrl+z") ++ redos.map (.key "ctrl+y"))) := by
  induction undos generalizing e redos with
  | nil =>
    rw [List.length_eq_zero_iff.1 heq]
    exact SameMoments.refl e
  | cons u us ih =>
    -- the last press of redo belongs to the first press of undo
    obtain rfl | ⟨rs, r, rfl⟩ := List.eq_nil_or_concat redos
    · cases heq
    rw [List.concat_eq_append] at heq ⊢
    rw [List.length_append, List.length_cons, List.length_cons, List.length_nil] at heq
    have hne : e.undoStack ≠ [] := by
      intro hnil
      rw [hnil] at hlen
      cases hlen
    obtain ⟨s, rest, hu⟩ := List.exists_cons_of_ne_nil hne
    obtain ⟨quiet, hquiet⟩ : ∃ quiet : Editor, quiet = { e with status := .quiet } := ⟨_, rfl⟩
    have hsame : SameMoments e quiet := hquiet ▸ ⟨rfl, rfl, rfl⟩
    have hs' : ∀ s ∈ quiet.moments, s.Sound := hquiet ▸ hs
    have hu' : quiet.undoStack = s :: rest := hsame.undoStack.trans hu
    have hstack : quiet.undo.undoStack = rest := (undo_cons hu' (hs s (by simp [moments, hu]))).2.1
    have hback : ∀ s ∈ quiet.undo.moments, s.Sound := fun s hmem => hs' s (moments_undo hs' hmem)
    obtain ⟨e₂, he₂⟩ : ∃ e₂, e₂ = quiet.undo.operateAll (us.map (.key "ctrl+z") ++ rs.map (.key "ctrl+y")) := ⟨_, rfl⟩
    have hmid : SameMoments quiet.undo e₂ := by
      rw [hu, List.length_cons, List.length_cons] at hlen
      rw [he₂]
      exact ih hback (by rw [hstack]; omega) (by omega)
    have hmid' : SameMoments quiet.undo { e₂ with status := .quiet } := hmid.trans ⟨rfl, rfl, rfl⟩
    have hrun : e.operateAll ((u :: us).map (.key "ctrl+z") ++ (rs ++ [r]).map (.key "ctrl+y")) =
        ({ e₂ with status := .quiet } : Editor).redo := by
      simp only [operateAll, List.map_cons, List.map_append, List.map_nil, List.cons_append, List.foldl_cons,
        List.foldl_nil, List.foldl_append, operate, handleKey_undo, handleKey_redo, Attempt.done, he₂, hquiet]
    rw [hrun]
    exact hsame.trans (hmid'.redo_after_undo hs' (by rw [hu']; exact List.cons_ne_nil _ _))

/-- The moment before a key that changes the lines is on top of the undo stack. -/
private theorem undoStack_handleKey {name : String} {char : Text} (hu : name ≠ "ctrl+z") (hr : name ≠ "ctrl+y")
    (hlines : (e.handleKey name char).editor.lines ≠ e.lines) :
    ∃ kept, (e.handleKey name char).editor.undoStack = e.snapshot :: kept := by
  have hu' : Command.ofKey name char ≠ .undo := fun h => hu (((ofKey_undo_redo name char).1).1 h)
  have hr' : Command.ofKey name char ≠ .redo := fun h => hr (((ofKey_undo_redo name char).2).1 h)
  unfold handleKey at hlines ⊢
  rcases run_cases (e := { e with status := .quiet }) hu' hr' with ⟨-, -, hdoc⟩ | ⟨f, -, hf, hrun⟩
  · exact absurd (congrArg Document.lines hdoc) hlines
  · rw [hrun] at hlines ⊢
    obtain ⟨-, ⟨kept, -, hstack⟩, -⟩ := edit_cases (e := { e with status := .quiet }) hf
    rcases hstack with hstack | ⟨-, hsame⟩
    · exact ⟨kept, hstack⟩
    · exact absurd hsame hlines

/-- In a session without direct edits the undo key takes back a key that changed the lines, and the redo key does it
again; and as many presses of redo take back any number of presses of undo that the history allows. -/
theorem undo_redo_restore (h : Reached Operation.Mediated e) :
    (∀ name char c₁ c₂, name ≠ "ctrl+z" → name ≠ "ctrl+y" → (e.handleKey name char).editor.lines ≠ e.lines →
      ∃ back again, (e.handleKey name char).editor.handleKey "ctrl+z" c₁ = .done back ∧ back.snapshot = e.snapshot ∧
        back.handleKey "ctrl+y" c₂ = .done again ∧ again.snapshot = (e.handleKey name char).editor.snapshot) ∧
    (∀ undos redos : List Text, undos.length ≤ e.undoStack.length → redos.length = undos.length →
      SameMoments e (e.operateAll (undos.map (.key "ctrl+z") ++ redos.map (.key "ctrl+y")))) := by
  have hs := h.sound
  refine ⟨?_, fun undos redos => sameMoments_undos_redos hs⟩
  intro name char c₁ c₂ hu hr hlines
  have hop : (Operation.key name char).Mediated := trivial
  have hafter := (moments_operate hs hop).2
  obtain ⟨kept, hstack⟩ := undoStack_handleKey hu hr hlines
  simp only [operate] at hafter
  obtain ⟨e₁, he₁⟩ : ∃ e₁, e₁ = (e.handleKey name char).editor := ⟨_, rfl⟩
  rw [← he₁] at hafter hstack ⊢
  -- going back leaves the moment after the key on top of the redo stack
  obtain ⟨hback, -, hredo⟩ := undo_cons (e := { e₁ with status := .quiet }) hstack (hs _ List.mem_cons_self)
  refine ⟨_, _, handleKey_undo e₁ c₁, hback, handleKey_redo _ c₂, ?_⟩
  exact (redo_cons (e := { ({ e₁ with status := .quiet } : Editor).undo with status := .quiet }) hredo hafter).1

/-- An editor in which the next Enter puts in a comma and then a newline. -/
def beforeComma : Editor :=
  (ofDocument (.ofText "\"a\":1".toList "doc" "json".toList) {} {}).setSelections [.caret ⟨0, 5⟩]

/-- The editor after that key. -/
def afterComma : Editor :=
  (beforeComma.handleKey "enter" []).editor

theorem undo_redo_restore_comma :
    Reached Operation.Mediated beforeComma ∧ Reached Operation.Mediated afterComma ∧
      afterComma.lines = ["\"a\":1,".toList, []] ∧
      (∃ back again, afterComma.handleKey "ctrl+z" [] = .done back ∧
        back.snapshot = ⟨["\"a\":1".toList], [.caret ⟨0, 5⟩]⟩ ∧
        back.handleKey "ctrl+y" [] = .done again ∧ again.snapshot = afterComma.snapshot) ∧
      SameMoments afterComma (afterComma.operateAll ([.key "ctrl+z" []] ++ [.key "ctrl+y" []])) := by
  have hnew : Reached Operation.Mediated (ofDocument (.ofText "\"a\":1".toList "doc" "json".toList) {} {}) :=
    .new _ _ _ _ _
  have hselect : (Operation.select [.caret ⟨0, 5⟩]).Mediated := trivial
  have hkey : (Operation.key "enter" []).Mediated := trivial
  have h₁ : Reached Operation.Mediated beforeComma := hnew.next hselect
  have h₂ : Reached Operation.Mediated afterComma := h₁.next hkey
  refine ⟨h₁, h₂, by decide +kernel, ?_, ?_⟩
  · exact (undo_redo_restore h₁).1 "enter" [] [] [] (by decide) (by decide) (by decide +kernel)
  · exact (undo_redo_restore h₂).2 [[]] [[]] (by decide +kernel) rfl

end Editor

end MultiCaret
