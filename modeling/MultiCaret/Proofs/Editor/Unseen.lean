import MultiCaret.Proofs.Editor.Session

/-!
# The record of the End toggle cannot be seen

The End key looks at its last place, but it would go to the same place without it: a cursor that stands at the end
without trailing blanks goes to the full end, and every other one to the end without trailing blanks
(`SmartKey.fst_endTarget`).  No other key looks at the record, and nothing else does.  So two editors that differ in
nothing but their records (`Editor.Alike`) answer every operation alike (`Alike.operate`), and what is seen of them in a
session is the same (`sights_tracker`).
-/

namespace MultiCaret

/-! ### The smart keys -/

namespace SmartKey

/-- The last place does not matter for where the cursor goes, only for what is remembered of it. -/
theorem fst_endTarget (toggle : Option EndToggle) (column : Int) {trimmed full : Nat} (h : trimmed ≤ full) :
    (endTarget toggle column trimmed full).1 = if column = trimmed then full else trimmed := by
  simp only [endTarget, Bool.and_eq_true, beq_iff_eq, decide_eq_true_eq]
  by_cases hc : column = trimmed
  · rw [if_pos hc]
    split
    · rfl
    · split
      · next hfull =>
        show trimmed = full
        have hcolumn := hfull.2
        omega
      · split
        · rfl
        · next hlt =>
          show trimmed = full
          have hle : ¬ trimmed < full := fun hlt' => hlt ⟨hc, hlt'⟩
          omega
  · rw [if_neg hc, if_neg fun hand => hc hand.2]
    split
    · rfl
    · rw [if_neg fun hand => hc hand.1]

end SmartKey

/-- The same answer of a smart key, apart from what becomes of the record of the End toggle. -/
def Reaction.Alike (r r' : Reaction) : Prop :=
  r' = r ∨ ∃ a c, r = .act a ∧ r' = .act { a with toggle := c }

private theorem endOnLine_alike (s : Scene) (toggle : Option EndToggle) (p : Position) (l : Text) :
    (SmartKey.endOnLine s p l).Alike (SmartKey.endOnLine { s with toggle := toggle } p l) := by
  unfold SmartKey.endOnLine
  split
  · exact Or.inl rfl
  · split
    · right
      -- the two places are one, and only the records may differ
      have hfst := SmartKey.fst_endTarget (s.toggle.filter fun t => !t.isStale p) p.column (length_trimEnd_le l)
      have hfst' := SmartKey.fst_endTarget (toggle.filter fun t => !t.isStale p) p.column (length_trimEnd_le l)
      rcases h : SmartKey.endTarget (s.toggle.filter fun t => !t.isStale p) p.column (trimEnd l).length l.length
        with ⟨n, atTrimmedEnd⟩
      rcases h' : SmartKey.endTarget (toggle.filter fun t => !t.isStale p) p.column (trimEnd l).length l.length
        with ⟨n', atTrimmedEnd'⟩
      rw [h] at hfst
      rw [h'] at hfst'
      obtain rfl : n' = n := hfst'.trans hfst.symm
      simp only [h, h']
      exact ⟨_, _, rfl, rfl⟩
    · exact Or.inl rfl

private theorem react_alike (key : SmartKeyName) (s : Scene) (toggle : Option EndToggle) :
    (key.react s).Alike (key.react { s with toggle := toggle }) := by
  cases key with
  | lineEnd =>
    simp only [SmartKeyName.react, SmartKey.endKey]
    split
    · split
      · split
        · exact endOnLine_alike s toggle _ _
        · exact Or.inl rfl
      · exact Or.inl rfl
    · exact Or.inl rfl
  | backspace => exact Or.inl rfl
  | enter => exact Or.inl rfl
  | separator => exact Or.inl rfl

namespace Editor

/-- The editors differ in nothing but the records of the End toggle. -/
def Alike (e e' : Editor) : Prop :=
  ∃ t, e' = { e with tracker := t }

/-- Both steps fail, for one reason, or they come to editors that differ in nothing but the records. -/
def AlikeOutcomes (r r' : Except EditorFault Editor) : Prop :=
  (∃ f, r = .error f ∧ r' = .error f) ∨ ∃ e e', r = .ok e ∧ r' = .ok e' ∧ Alike e e'

end Editor

/-- The same for steps that may be cut short. -/
structure Attempt.Alike (a a' : Attempt) : Prop where
  editor : Editor.Alike a.editor a'.editor
  fault : a'.fault = a.fault

namespace Editor

variable {e e' : Editor}

private theorem Alike.orUnchanged (h : Alike e e') {r r' : Except EditorFault Editor} (hr : AlikeOutcomes r r') :
    (Attempt.orUnchanged e r).Alike (Attempt.orUnchanged e' r') := by
  rcases hr with ⟨f, rfl, rfl⟩ | ⟨e₁, e₁', rfl, rfl, h₁⟩
  · exact ⟨h, rfl⟩
  · exact ⟨h₁, rfl⟩

namespace Alike

/-! ### Primitive steps -/

private theorem document (h : Alike e e') : e'.document = e.document := by
  obtain ⟨t, rfl⟩ := h
  rfl

private theorem lines (h : Alike e e') : e'.lines = e.lines :=
  congrArg Document.lines h.document

private theorem selections (h : Alike e e') : e'.selections = e.selections := by
  obtain ⟨t, rfl⟩ := h
  rfl

private theorem setSelections (h : Alike e e') (ss : List Selection) :
    Alike (e.setSelections ss) (e'.setSelections ss) := by
  obtain ⟨t, rfl⟩ := h
  exact ⟨_, rfl⟩

private theorem changeToggle (h : Alike e e') (c c' : ToggleChange) :
    Alike (e.changeToggle c) (e'.changeToggle c') := by
  obtain ⟨t, rfl⟩ := h
  exact ⟨_, rfl⟩

private theorem reveal (h : Alike e e') (p : Position) : Alike (e.reveal p) (e'.reveal p) := by
  obtain ⟨t, rfl⟩ := h
  unfold Editor.reveal
  simp only
  split
  · exact ⟨t, rfl⟩
  · split
    · exact ⟨t, rfl⟩
    · exact ⟨t, rfl⟩

private theorem revealCursor (h : Alike e e') : Alike e.revealCursor e'.revealCursor := by
  have hcursor : e'.cursor = e.cursor := by
    obtain ⟨t, rfl⟩ := h
    rfl
  rw [Editor.revealCursor, Editor.revealCursor, hcursor]
  exact h.reveal _

private theorem updateDocument (h : Alike e e') (d : Document) : Alike (e.updateDocument d) (e'.updateDocument d) := by
  obtain ⟨t, rfl⟩ := h
  unfold Editor.updateDocument
  simp only
  split
  · exact ⟨t, rfl⟩
  · exact ⟨_, rfl⟩

private theorem setText (h : Alike e e') (t : Text) : Alike (e.setText t) (e'.setText t) := by
  rw [Editor.setText, Editor.setText, h.document]
  exact h.updateDocument _

private theorem applyEdits (h : Alike e e') (es : List Edit) : AlikeOutcomes (e.applyEdits es) (e'.applyEdits es) := by
  unfold Editor.applyEdits
  rw [h.document]
  cases e.document.applyEdits es with
  | ok d => exact Or.inr ⟨_, _, rfl, rfl, h.updateDocument d⟩
  | error f => exact Or.inl ⟨_, rfl, rfl⟩

/-! ### Keystrokes -/

private theorem commit (h : Alike e e') (cursors : List (Position × PlannedEdit)) (untouched : List Selection) :
    AlikeOutcomes (e.commit cursors untouched) (e'.commit cursors untouched) := by
  unfold Editor.commit
  split
  · exact Or.inr ⟨e, e', rfl, rfl, h⟩
  · rcases h.applyEdits (EditPlan.byCursor cursors).edits with ⟨f, hf, hf'⟩ | ⟨e₁, e₁', he₁, he₁', h₁⟩
    · simp only [hf, hf']
      exact Or.inl ⟨f, rfl, rfl⟩
    · simp only [he₁, he₁']
      exact Or.inr ⟨_, _, rfl, rfl, (h₁.setSelections _).revealCursor⟩

private theorem moveCursors (h : Alike e e') (move : Position → Except EditorFault Position) :
    AlikeOutcomes (e.moveCursors move) (e'.moveCursors move) := by
  unfold Editor.moveCursors
  rw [h.selections]
  cases e.selections.mapM fun s => (move s.active).map Selection.caret with
  | ok carets => exact Or.inr ⟨_, _, rfl, rfl, (h.setSelections carets).revealCursor⟩
  | error f => exact Or.inl ⟨f, rfl, rfl⟩

private theorem press (h : Alike e e') (k : Keystroke) : AlikeOutcomes (e.press k) (e'.press k) := by
  obtain ⟨t, rfl⟩ := h
  have h : Alike e { e with tracker := t } := ⟨t, rfl⟩
  cases k with
  | literal t' => exact h.commit _ []
  | newline =>
    simp only [Editor.press, Editor.newline, Editor.lines]
    split
    · exact h.commit _ []
    · exact Or.inl ⟨_, rfl, rfl⟩
  | delete =>
    simp only [Editor.press, Editor.delete, Editor.lines]
    split
    · exact h.commit _ _
    · exact Or.inl ⟨_, rfl, rfl⟩
  | lineEnd =>
    simp only [Editor.press, Editor.lineEnd, Editor.lines]
    exact h.moveCursors _

private theorem orPress (h : Alike e e') (k : Keystroke) :
    (Attempt.orUnchanged e (e.press k)).Alike (Attempt.orUnchanged e' (e'.press k)) :=
  h.orUnchanged (h.press k)

private theorem carryOut (h : Alike e e') (a : Action) (c : ToggleChange) :
    (e.carryOut a).Alike (e'.carryOut { a with toggle := c }) := by
  unfold Editor.carryOut
  rcases h.applyEdits a.edits with ⟨f, hf, hf'⟩ | ⟨e₁, e₁', he₁, he₁', h₁⟩
  · simp only [hf, hf']
    exact ⟨h, rfl⟩
  · simp only [he₁, he₁']
    have h₂ := h₁.setSelections a.selections
    cases a.reveal with
    | none =>
      have h₃ := h₂.changeToggle a.toggle c
      cases a.thenKey with
      | none => exact ⟨h₃, rfl⟩
      | some k => exact h₃.orPress k
    | some p =>
      have h₃ := (h₂.reveal p).changeToggle a.toggle c
      cases a.thenKey with
      | none => exact ⟨h₃, rfl⟩
      | some k => exact h₃.orPress k

private theorem pressSmart (h : Alike e e') (key : SmartKeyName) : (e.pressSmart key).Alike (e'.pressSmart key) := by
  have hreact : (key.react e.scene).Alike (key.react e'.scene) := by
    obtain ⟨t, rfl⟩ := h
    exact react_alike key e.scene _
  unfold Editor.pressSmart
  rcases hreact with hsame | ⟨a, c, ha, ha'⟩
  · rw [hsame]
    cases key.react e.scene with
    | decline k forgets =>
      cases forgets with
      | true => exact (h.changeToggle .forget .forget).orPress k
      | false => exact h.orPress k
    | act a => exact h.carryOut a a.toggle
  · rw [ha, ha']
    exact h.carryOut a c

/-! ### Commands -/

private theorem edit (h : Alike e e') {f : Editor → Attempt} (hf : ∀ {e e'}, Alike e e' → (f e).Alike (f e')) :
    (e.edit f).Alike (e'.edit f) := by
  have hsave : Alike e.saveMoment e'.saveMoment := by
    obtain ⟨t, rfl⟩ := h
    exact ⟨t, rfl⟩
  obtain ⟨⟨t, ht⟩, hfault⟩ := hf hsave
  -- the faults and the versions are the same, so the moment is kept on both stacks or on none
  unfold Editor.edit
  simp only [hfault, ht, h.document]
  cases (f e.saveMoment).fault with
  | some x => exact ⟨⟨t, ht⟩, hfault⟩
  | none =>
    simp only
    split
    · exact ⟨⟨t, rfl⟩, rfl⟩
    · exact ⟨⟨t, rfl⟩, rfl⟩

private theorem restore (h : Alike e e') (s : Snapshot) : Alike (e.restore s) (e'.restore s) :=
  (h.setText _).setSelections _

private theorem withStatus (h : Alike e e') (s : Status) : Alike { e with status := s } { e' with status := s } := by
  obtain ⟨t, rfl⟩ := h
  exact ⟨t, rfl⟩

private theorem undo (h : Alike e e') : Alike e.undo e'.undo := by
  obtain ⟨t, rfl⟩ := h
  unfold Editor.undo
  simp only
  split
  · exact ⟨t, rfl⟩
  · next s rest _ =>
    have hmoved : Alike { e with undoStack := rest, redoStack := e.snapshot :: e.redoStack }
        { e with tracker := t, undoStack := rest, redoStack := e.snapshot :: e.redoStack } := ⟨t, rfl⟩
    exact (hmoved.restore s).withStatus .undone

private theorem redo (h : Alike e e') : Alike e.redo e'.redo := by
  obtain ⟨t, rfl⟩ := h
  unfold Editor.redo
  simp only
  split
  · exact ⟨t, rfl⟩
  · next s rest _ =>
    have hmoved : Alike { e with redoStack := rest, undoStack := e.snapshot :: e.undoStack }
        { e with tracker := t, redoStack := rest, undoStack := e.snapshot :: e.undoStack } := ⟨t, rfl⟩
    exact (hmoved.restore s).withStatus .redone

private theorem addCursorAt (h : Alike e e') (edge : Position) (line : Int) :
    Alike (e.addCursorAt edge line) (e'.addCursorAt edge line) := by
  unfold Editor.addCursorAt
  rw [h.lines, h.selections]
  split
  · obtain ⟨t, ht⟩ := h.setSelections (e.selections ++ [.caret ⟨line, edge.column⟩])
    simp only [ht]
    exact ⟨t, rfl⟩
  · exact h

private theorem run (h : Alike e e') (c : Command) : (e.run c).Alike (e'.run c) := by
  have hindent : ∀ {e e' : Editor}, Alike e e' → (Attempt.orUnchanged e (e.typeText e.indent.unit)).Alike
      (Attempt.orUnchanged e' (e'.typeText e'.indent.unit)) := by
    rintro e _ ⟨t, rfl⟩
    exact Alike.orPress ⟨t, rfl⟩ (.literal e.indent.unit)
  obtain ⟨t, rfl⟩ := h
  have h : Alike e { e with tracker := t } := ⟨t, rfl⟩
  have hmove : ∀ move, (Attempt.orUnchanged e (e.moveCursors move)).Alike
      (Attempt.orUnchanged { e with tracker := t } (({ e with tracker := t } : Editor).moveCursors move)) :=
    fun move => h.orUnchanged (h.moveCursors move)
  cases c with
  | smart key => exact h.edit fun h => h.pressSmart key
  | indent => exact h.edit hindent
  | type t => exact h.edit fun h => h.orPress (.literal t)
  | home => exact hmove _
  | left => exact hmove _
  | right => exact hmove _
  | up => exact hmove _
  | down => exact hmove _
  | cursorAbove => exact ⟨h.addCursorAt _ _, rfl⟩
  | cursorBelow => exact ⟨h.addCursorAt _ _, rfl⟩
  | singleCursor => exact ⟨h.setSelections _, rfl⟩
  | undo => exact ⟨h.undo, rfl⟩
  | redo => exact ⟨h.redo, rfl⟩
  | save => exact ⟨⟨t, rfl⟩, rfl⟩
  | quit => exact ⟨⟨t, rfl⟩, rfl⟩
  | nothing => exact ⟨h, rfl⟩

/-! ### Operations -/

private theorem lineRows_alike (h : Alike e e') (n : Nat) (i : Int) : e'.lineRows n i = e.lineRows n i := by
  obtain ⟨t, rfl⟩ := h
  induction n generalizing i with
  | zero => rfl
  | succ n ih =>
    rw [lineRows, lineRows, ih]
    rfl

private theorem screen (h : Alike e e') (width : Int) (rows : Nat) : e'.screen width rows = e.screen width rows := by
  obtain ⟨t, rfl⟩ := h
  rw [Editor.screen, Editor.screen, lineRows_alike ⟨t, rfl⟩]
  rfl

private theorem draw (h : Alike e e') (width height : Int) :
    Alike (e.draw width height).1 (e'.draw width height).1 ∧ (e'.draw width height).2 = (e.draw width height).2 := by
  unfold Editor.draw
  split
  · exact ⟨h, rfl⟩
  · have hview : Alike { e with viewHeight := (height - 1).toNat } { e' with viewHeight := (height - 1).toNat } := by
      obtain ⟨t, rfl⟩ := h
      exact ⟨t, rfl⟩
    exact ⟨hview.revealCursor, hview.revealCursor.screen width _⟩

theorem operate (h : Alike e e') (op : Operation) : (e.operate op).Alike (e'.operate op) := by
  cases op with
  | key name char =>
    obtain ⟨t, rfl⟩ := h
    exact Alike.run (e := { e with status := .quiet }) ⟨t, rfl⟩ (.ofKey name char)
  | select ss => exact ⟨h.setSelections ss, rfl⟩
  | press k => exact h.orPress k
  | setContent t =>
    obtain ⟨tr, htr⟩ := h.setText t
    refine ⟨⟨tr, ?_⟩, rfl⟩
    simp only [Editor.operate, Attempt.done, setContent, htr]
  | configure s =>
    obtain ⟨t, rfl⟩ := h
    exact ⟨⟨t, rfl⟩, rfl⟩
  | setIndent o =>
    obtain ⟨t, rfl⟩ := h
    exact ⟨⟨t, rfl⟩, rfl⟩
  | draw width height =>
    obtain ⟨heditor, hdrawn⟩ := h.draw width height
    refine ⟨heditor, ?_⟩
    simp only [Editor.operate, hdrawn]
  | documentText t => exact ⟨h.setText t, rfl⟩
  | documentEdits es => exact h.orUnchanged (h.applyEdits es)

end Alike

end Editor

/-! ### Sessions -/

/-- What is seen of an editor when an operation has been done. -/
structure Sight where
  lines : List Text
  version : Nat
  selections : List Selection
  undoStack : List Snapshot
  redoStack : List Snapshot
  scrollTop : Int
  status : Status
  messages : List Message
  /-- What was drawn, if the operation was to draw. -/
  drawn : Option (Except EditorFault Screen)
  fault : Option EditorFault

namespace Editor

/-- What the operation draws, if it is to draw. -/
def drawn? (e : Editor) : Operation → Option (Except EditorFault Screen)
  | .draw width height => some (e.draw width height).2
  | _ => none

/-- What is seen when the operation has been done. -/
def sight (e : Editor) (op : Operation) : Sight :=
  let a := e.operate op
  { lines := a.editor.lines
    version := a.editor.document.version
    selections := a.editor.selections
    undoStack := a.editor.undoStack
    redoStack := a.editor.redoStack
    scrollTop := a.editor.scrollTop
    status := a.editor.status
    messages := a.editor.messages
    drawn := e.drawn? op
    fault := a.fault }

/-- What is seen after each operation of a session. -/
def sights (e : Editor) : List Operation → List Sight
  | [] => []
  | op :: ops => e.sight op :: (e.operate op).editor.sights ops

variable {e e' : Editor}

private theorem Alike.drawn? (h : Alike e e') (op : Operation) : e'.drawn? op = e.drawn? op := by
  cases op with
  | draw width height => exact congrArg some (h.draw width height).2
  | _ => rfl

private theorem Alike.sight (h : Alike e e') (op : Operation) : e'.sight op = e.sight op := by
  obtain ⟨⟨t, ht⟩, hfault⟩ := h.operate op
  have hdrawn := h.drawn? op
  simp only [Editor.sight, Editor.lines, ht, hfault, hdrawn]

/-- Whatever the records of the End toggle hold, the same is seen of the editor after every operation. -/
theorem sights_tracker (e : Editor) (t : EndTracker) (ops : List Operation) :
    ({ e with tracker := t } : Editor).sights ops = e.sights ops := by
  induction ops generalizing e t with
  | nil => rfl
  | cons op ops ih =>
    have h : Alike e { e with tracker := t } := ⟨t, rfl⟩
    obtain ⟨t', ht'⟩ := (h.operate op).editor
    rw [sights, sights, h.sight op, ht', ih]

end Editor

end MultiCaret
