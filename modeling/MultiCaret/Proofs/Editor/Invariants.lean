import MultiCaret.Proofs.Editor.Session

/-!
# Invariants of sessions

Whatever is asked of an editor, its document takes over a batch that fits or another text, selections are set, and the
record of the End toggle is dropped or, by a smart key, written; all else that is written is looked at by nobody but the
history and the window.  So a property of editors that these few writes keep (`Editor.Kept`) is kept by every operation,
also by one that is cut short (`Kept.operate`), and holds throughout every session, even if the document is edited
behind the back of the editor (`Kept.reached`).
-/

namespace MultiCaret

namespace Editor

/-- The property depends on the document, the selections and the records of the End toggle only, and all writes to these
keep it. -/
structure Kept (P : Editor → Prop) : Prop where
  frame : ∀ {e e' : Editor}, P e → e'.document = e.document → e'.selections = e.selections → e'.tracker = e.tracker →
    P e'
  select : ∀ {e : Editor} (ss : List Selection), P e → P (e.setSelections ss)
  batch : ∀ {e : Editor} {es : List Edit}, BatchFits e.lines es → P e →
    P (e.updateDocument (e.document.afterBatch es))
  text : ∀ {e : Editor} (t : Text), P e → P (e.setText t)
  content : ∀ {e : Editor} (t : Text), P e → P (e.setContent t)
  forget : ∀ {e : Editor}, P e → P (e.changeToggle .forget)
  /-- The one place where a record is written. -/
  act : ∀ {e : Editor} {key : SmartKeyName} {a : Action}, key.react e.scene = .act a → BatchFits e.lines a.edits →
    P e → P (((e.updateDocument (e.document.afterBatch a.edits)).setSelections a.selections).changeToggle a.toggle)

variable {P : Editor → Prop} {e e' : Editor}

namespace Kept

/-! ### Primitive steps -/

theorem applyEdits (h : Kept P) (hp : P e) {es : List Edit} (he : e.applyEdits es = .ok e') : P e' := by
  obtain ⟨hfit, rfl⟩ := applyEdits_eq_ok_iff.1 he
  exact h.batch hfit hp

private theorem reveal (h : Kept P) (hp : P e) (p : Position) : P (e.reveal p) := by
  obtain ⟨k, hk, -⟩ := e.reveal_eq p
  rw [hk]
  exact h.frame hp rfl rfl rfl

private theorem orUnchanged (h : P e) {r : Except EditorFault Editor} (hr : ∀ e', r = .ok e' → P e') :
    P (Attempt.orUnchanged e r).editor := by
  cases r with
  | ok e' => exact hr e' rfl
  | error f => exact h

/-! ### Keystrokes -/

private theorem commit (h : Kept P) (hp : P e) {cursors : List (Position × PlannedEdit)} {untouched : List Selection}
    (hc : e.commit cursors untouched = .ok e') : P e' := by
  unfold Editor.commit at hc
  split at hc
  · obtain rfl := Except.ok.inj hc
    exact hp
  · cases ha : e.applyEdits (EditPlan.byCursor cursors).edits with
    | error f => simp only [ha, Except.map, reduceCtorEq] at hc
    | ok e₁ =>
      simp only [ha, Except.map] at hc
      obtain rfl := Except.ok.inj hc
      exact h.reveal (h.select _ (h.applyEdits hp ha)) _

private theorem moveCursors (h : Kept P) (hp : P e) {move : Position → Except EditorFault Position}
    (hm : e.moveCursors move = .ok e') : P e' := by
  unfold Editor.moveCursors at hm
  split at hm
  · obtain rfl := Except.ok.inj hm
    exact h.reveal (h.select _ hp) _
  · cases hm

theorem press (h : Kept P) (hp : P e) {k : Keystroke} (hk : e.press k = .ok e') : P e' := by
  cases k with
  | literal t => exact h.commit hp hk
  | newline =>
    simp only [Editor.press, Editor.newline] at hk
    split at hk
    · exact h.commit hp hk
    · cases hk
  | delete =>
    simp only [Editor.press, Editor.delete] at hk
    split at hk
    · exact h.commit hp hk
    · cases hk
  | lineEnd =>
    simp only [Editor.press, lineEnd] at hk
    exact h.moveCursors hp hk

private theorem orPress (h : Kept P) (hp : P e) (k : Keystroke) : P (Attempt.orUnchanged e (e.press k)).editor :=
  orUnchanged hp fun _ => h.press hp

private theorem pressSmart (h : Kept P) (hp : P e) (key : SmartKeyName) : P (e.pressSmart key).editor := by
  unfold Editor.pressSmart
  cases hr : key.react e.scene with
  | decline k forgets =>
    simp only [perform]
    split
    · exact h.orPress (h.forget hp) k
    · exact h.orPress hp k
  | act a =>
    rw [perform]
    rcases carryOut_cases e a with ⟨f, -, hf⟩ | ⟨e₁, e₂, top, he₁, he₂, -, hdone, hpress⟩
    · rw [hf]
      exact hp
    · obtain ⟨hfit, rfl⟩ := applyEdits_eq_ok_iff.1 he₁
      have hp₂ : P e₂ := by
        rw [he₂]
        exact h.frame (h.act hr hfit hp) rfl rfl rfl
      cases hk : a.thenKey with
      | none =>
        rw [hdone hk]
        exact hp₂
      | some k =>
        rw [hpress k hk]
        exact h.orPress hp₂ k

/-! ### Commands -/

private theorem edit (h : Kept P) {f : Editor → Attempt} (hf : ∀ e, P e → P (f e).editor) (hp : P e) :
    P (e.edit f).editor := by
  have hrun := hf e.saveMoment (h.frame hp rfl rfl rfl)
  unfold Editor.edit
  simp only
  split
  · exact hrun
  · split
    · exact h.frame hrun rfl rfl rfl
    · exact h.frame hrun rfl rfl rfl

private theorem restore (h : Kept P) (hp : P e) (s : Snapshot) : P (e.restore s) :=
  h.select _ (h.text _ hp)

private theorem undo (h : Kept P) (hp : P e) : P e.undo := by
  unfold Editor.undo
  split
  · exact h.frame hp rfl rfl rfl
  · next s rest _ =>
    have hmoved : P { e with undoStack := rest, redoStack := e.snapshot :: e.redoStack } := h.frame hp rfl rfl rfl
    exact h.frame (h.restore hmoved s) rfl rfl rfl

private theorem redo (h : Kept P) (hp : P e) : P e.redo := by
  unfold Editor.redo
  split
  · exact h.frame hp rfl rfl rfl
  · next s rest _ =>
    have hmoved : P { e with redoStack := rest, undoStack := e.snapshot :: e.undoStack } := h.frame hp rfl rfl rfl
    exact h.frame (h.restore hmoved s) rfl rfl rfl

private theorem addCursorAt (h : Kept P) (hp : P e) (edge : Position) (line : Int) : P (e.addCursorAt edge line) := by
  unfold Editor.addCursorAt
  split
  · exact h.frame (h.select _ hp) rfl rfl rfl
  · exact hp

private theorem run (h : Kept P) (hp : P e) (c : Command) : P (e.run c).editor := by
  have hmove : ∀ move, P (Attempt.orUnchanged e (e.moveCursors move)).editor := fun move =>
    orUnchanged hp fun _ => h.moveCursors hp
  cases c with
  | smart key => exact h.edit (fun e hp => h.pressSmart hp key) hp
  | indent => exact h.edit (fun e hp => h.orPress hp (.literal e.indent.unit)) hp
  | type t => exact h.edit (fun e hp => h.orPress hp (.literal t)) hp
  | home => exact hmove _
  | left => exact hmove _
  | right => exact hmove _
  | up => exact hmove _
  | down => exact hmove _
  | cursorAbove => exact h.addCursorAt hp _ _
  | cursorBelow => exact h.addCursorAt hp _ _
  | singleCursor => exact h.select _ hp
  | undo => exact h.undo hp
  | redo => exact h.redo hp
  | save => exact h.frame hp rfl rfl rfl
  | quit => exact h.frame hp rfl rfl rfl
  | nothing => exact hp

/-! ### Operations and sessions -/

theorem operate (h : Kept P) (hp : P e) (op : Operation) : P (e.operate op).editor := by
  cases op with
  | key name char =>
    have hquiet : P { e with status := .quiet } := h.frame hp rfl rfl rfl
    exact h.run hquiet _
  | select ss => exact h.select ss hp
  | press k => exact h.orPress hp k
  | setContent t => exact h.content t hp
  | configure s => exact h.frame hp rfl rfl rfl
  | setIndent o => exact h.frame hp rfl rfl rfl
  | draw width height =>
    simp only [Editor.operate, draw]
    split
    · exact hp
    · have hview : P { e with viewHeight := (height - 1).toNat } := h.frame hp rfl rfl rfl
      exact h.reveal hview _
  | documentText t => exact h.text t hp
  | documentEdits es => exact orUnchanged hp fun _ => h.applyEdits hp

/-- What holds of new editors and is kept holds throughout every session. -/
theorem reached (h : Kept P)
    (hnew : ∀ t uri language indent settings, P (ofDocument (.ofText t uri language) indent settings))
    {kind : Operation → Prop} (he : Reached kind e) : P e := by
  induction he with
  | new t uri language indent settings => exact hnew t uri language indent settings
  | next _ _ ih => exact h.operate ih _

end Kept

/-! ### The lines -/

/-- The document has the lines of a text. -/
theorem kept_wellFormed : Kept fun e => WellFormed e.lines where
  frame hwf hd _ _ := by
    rw [lines, hd]
    exact hwf
  select _ hwf := hwf
  batch {e es} hfit hwf := by
    obtain ⟨t, ht⟩ := e.updateDocument_eq (e.document.afterBatch es)
    rw [ht]
    exact wellFormed_afterBatch hwf hfit
  text {e} t _ := by
    obtain ⟨tr, ht⟩ := e.updateDocument_eq (e.document.setText t)
    rw [setText, ht]
    exact wellFormed_splitLines t
  content {e} t _ := by
    obtain ⟨tr, ht⟩ := e.updateDocument_eq (e.document.setText t)
    rw [setContent, setText, ht]
    exact wellFormed_splitLines t
  forget hwf := hwf
  act {e key a} _ hfit hwf := by
    obtain ⟨t, ht⟩ := e.updateDocument_eq (e.document.afterBatch a.edits)
    rw [ht]
    exact wellFormed_afterBatch hwf hfit

/-- So it has in every session, whatever is asked of the editor. -/
theorem Reached.wellFormed {kind : Operation → Prop} (h : Reached kind e) : WellFormed e.lines :=
  kept_wellFormed.reached (fun t _ _ _ _ => wellFormed_splitLines t) h

end Editor

end MultiCaret
