import MultiCaret.Proofs.SmartKey.Outcome
import MultiCaret.Recorder

/-!
# Smart keys on the recording host

What can be told from outside about a press of a smart key.  A key that declines changes neither the document nor the
selections and forwards its plain keystroke once; a key that acts forwards nothing, unless it is Enter and all it did was
to put in a comma (`press_forwarded`).  A press fails in one case only: the separator key with its cursor in front of the
beginning of the line asks for a range that ends before it starts (`press_refused_iff`).  Enter and Backspace, with the
cursor there, ask for edits that fit.
-/

namespace MultiCaret

/-- A batch of one inverted edit is refused. -/
private theorem applyEdits_inverted (d : Document) {e : Edit} (h : e.stop < e.start) :
    d.applyEdits [e] = .error (.inverted e.start e.stop) := by
  have hcheck : checkRanges d.lines none [e] = .error (.inverted e.start e.stop) := if_pos h
  have hsort : sortBy Edit.precedes [e] = [e] := rfl
  rw [Document.applyEdits, hsort]
  simp only [hcheck]

/-- Wherever the cursors are, what a key other than the separator key asks for fits. -/
theorem react_batchFits {key : SmartKeyName} (hkey : key ≠ .separator) {s : Scene} {a : Action}
    (h : key.react s = .act a) : BatchFits s.lines a.edits := by
  cases key with
  | separator => exact absurd rfl hkey
  | lineEnd => exact SmartKey.endKey_batchFits s h
  | backspace =>
    have hfits := SmartKey.backspaceKey_fits s
    rw [show SmartKey.backspaceKey s = .act a from h] at hfits
    exact hfits.edits
  | enter =>
    have hfits := SmartKey.enterKey_fits s
    rw [show SmartKey.enterKey s = .act a from h] at hfits
    exact hfits.edits

namespace Recorder

variable {r r' : Recorder} {key : SmartKeyName} {handled : Bool}

/-! ### What the host does -/

private theorem updateDocument_eq (r : Recorder) (d : Document) :
    ∃ t, r.updateDocument d = { r with document := d, tracker := t } := by
  unfold updateDocument
  split <;> exact ⟨_, rfl⟩

private theorem setSelections_eq (r : Recorder) (ss : List Selection) :
    ∃ t, r.setSelections ss = { r with selections := ss, tracker := t } := by
  unfold setSelections
  split <;> exact ⟨_, rfl⟩

/-- An action is carried out if its edits fit, and nothing else is done. -/
private theorem carryOut_eq {a : Action} (h : r.carryOut a = .ok r') :
    BatchFits r.document.lines a.edits ∧ ∃ t, r' = { r with
      document := r.document.afterBatch a.edits
      selections := a.selections
      tracker := t
      revealed := r.revealed ++ a.reveal.toList
      forwarded := r.forwarded ++ a.thenKey.toList } := by
  unfold carryOut applyEdits at h
  cases hd : r.document.applyEdits a.edits with
  | error f =>
    rw [hd] at h
    cases h
  | ok d =>
    obtain ⟨hfit, rfl⟩ := applyEdits_eq_ok_iff.1 hd
    obtain ⟨t, ht⟩ := r.updateDocument_eq (r.document.afterBatch a.edits)
    obtain ⟨t', ht'⟩ := (r.updateDocument (r.document.afterBatch a.edits)).setSelections_eq a.selections
    rw [ht] at ht'
    rw [hd] at h
    refine ⟨hfit, r'.tracker, ?_⟩
    rw [← Except.ok.inj h]
    simp only [ht, ht']

theorem carryOut_spec {a : Action} (h : r.carryOut a = .ok r') :
    BatchFits r.document.lines a.edits ∧ r'.document = r.document.afterBatch a.edits ∧
      r'.selections = a.selections ∧ r'.forwarded = r.forwarded ++ a.thenKey.toList := by
  obtain ⟨hfit, t, rfl⟩ := carryOut_eq h
  exact ⟨hfit, rfl, rfl, rfl⟩

theorem revealed_carryOut {a : Action} (h : r.carryOut a = .ok r') : r'.revealed = r.revealed ++ a.reveal.toList := by
  obtain ⟨-, t, rfl⟩ := carryOut_eq h
  rfl

theorem carryOut_eq_error_iff {a : Action} {f : EditError} :
    r.carryOut a = .error f ↔ r.document.applyEdits a.edits = .error f := by
  unfold carryOut applyEdits
  cases r.document.applyEdits a.edits with
  | ok d => exact ⟨fun h => (by cases h), fun h => by cases h⟩
  | error g => simp only [Except.map, Except.error.injEq]

/-- What a press does is what its reaction says. -/
theorem press_cases (h : r.press key = .ok (r', handled)) :
    (handled = false ∧ r'.document = r.document ∧ r'.selections = r.selections ∧
        r'.forwarded = r.forwarded ++ [key.plain]) ∨
      ∃ a, key.react r.scene = .act a ∧ handled = true ∧ r.carryOut a = .ok r' := by
  unfold press at h
  cases hreact : key.react r.scene with
  | decline k forgets =>
    obtain rfl := react_decline hreact
    rw [hreact] at h
    obtain ⟨rfl, rfl⟩ := Prod.mk.inj (Except.ok.inj h)
    exact Or.inl ⟨rfl, rfl, rfl, rfl⟩
  | act a =>
    simp only [hreact, perform] at h
    cases hr : r.carryOut a with
    | error f =>
      rw [hr] at h
      cases h
    | ok r₁ =>
      rw [hr] at h
      obtain ⟨rfl, rfl⟩ := Prod.mk.inj (Except.ok.inj h)
      exact Or.inr ⟨a, rfl, rfl, hr⟩

/-- A press leaves the settings and the indentation options as they are. -/
theorem press_options (h : r.press key = .ok (r', handled)) : r'.settings = r.settings ∧ r'.indent = r.indent := by
  unfold press at h
  cases hreact : key.react r.scene with
  | decline k forgets =>
    rw [hreact] at h
    obtain ⟨rfl, -⟩ := Prod.mk.inj (Except.ok.inj h)
    exact ⟨rfl, rfl⟩
  | act a =>
    simp only [hreact, perform] at h
    cases hr : r.carryOut a with
    | error f =>
      rw [hr] at h
      cases h
    | ok r₁ =>
      rw [hr] at h
      obtain ⟨rfl, -⟩ := Prod.mk.inj (Except.ok.inj h)
      obtain ⟨-, t, rfl⟩ := carryOut_eq hr
      exact ⟨rfl, rfl⟩

theorem press_of_decline {k : Keystroke} {forgets : Bool} (h : key.react r.scene = .decline k forgets) :
    ∃ r', r.press key = .ok (r', false) ∧ r'.document = r.document ∧ r'.selections = r.selections ∧
      r'.forwarded = r.forwarded ++ [k] := by
  simp only [press, h]
  exact ⟨_, rfl, rfl, rfl, rfl⟩

/-- Wherever the cursors are, a key other than the separator key carries its action out. -/
theorem press_of_act (hkey : key ≠ .separator) {a : Action} (h : key.react r.scene = .act a) :
    ∃ r', r.press key = .ok (r', true) ∧
      r'.document.lines = spliceAll (sortBy Edit.precedes a.edits) r.document.lines ∧ r'.selections = a.selections ∧
      r'.forwarded = r.forwarded ++ a.thenKey.toList := by
  cases hcarry : r.carryOut a with
  | error f =>
    have hfit : BatchFits r.document.lines a.edits := react_batchFits hkey h
    rw [carryOut_eq_error_iff, applyEdits_eq_ok_iff.2 ⟨hfit, rfl⟩] at hcarry
    cases hcarry
  | ok r' =>
    obtain ⟨-, hdoc, hsel, hforwarded⟩ := carryOut_spec hcarry
    refine ⟨r', ?_, by rw [hdoc, Document.lines_afterBatch], hsel, hforwarded⟩
    simp only [press, h, perform, hcarry]
    rfl

/-! ### What is forwarded -/

/-- The second state has a comma more than the first one, behind the value on the line of the only cursor, and the same
lines otherwise. -/
def AddedComma (r r' : Recorder) : Prop :=
  ∃ p, r.selections = [.caret p] ∧ HasLine r.document.lines p.line ∧
    r'.document.lines = r.document.lines.set p.line.toNat
      ((lineOf r.document.lines p.line).take (terminatorColumn (lineOf r.document.lines p.line)) ++
        ',' :: (lineOf r.document.lines p.line).drop (terminatorColumn (lineOf r.document.lines p.line)))

private theorem addedComma_of_putsComma (hwf : WellFormed r.document.lines) {a : Action} {p : Position}
    (hsel : r.selections = [.caret p]) (ha : SmartKey.PutsComma r.document.lines p a)
    (hdoc : r'.document = r.document.afterBatch a.edits) : r.AddedComma r' := by
  refine ⟨p, hsel, ha.hasLine, ?_⟩
  rw [hdoc, ha.edits, lines_afterBatch_oneLine hwf ha.oneLine]
  simp only [Edit.insert, Edit.within, Int.toNat_natCast, List.append_assoc, List.singleton_append]

private theorem length_of_opensBlocks (hwf : WellFormed r.document.lines) {a : Action} {count : Nat}
    (ha : SmartKey.OpensBlocks count a) (hfit : BatchFits r.document.lines a.edits)
    (hdoc : r'.document = r.document.afterBatch a.edits) :
    r'.document.lines.length = r.document.lines.length + 2 * count := by
  have hlen := length_afterBatch hwf hfit
  have hgrowth : ∀ n ∈ a.edits.map Edit.growth, n = 2 := by
    intro n hn
    obtain ⟨e, he, rfl⟩ := List.mem_map.1 hn
    exact ha.growth e he
  rw [total_eq_of_forall hgrowth, List.length_map, ha.one_each, ← hdoc] at hlen
  omega

private theorem AddedComma.length_eq (h : r.AddedComma r') : r'.document.lines.length = r.document.lines.length := by
  obtain ⟨p, -, -, hlines⟩ := h
  rw [hlines, List.length_set]

/-- A key that does not act leaves the document, its version included, and the selections as they were, and forwards its
plain keystroke once.  A key that acts forwards nothing; only Enter forwards a newline if all that it changed is a comma
more, and no block was opened. -/
theorem press_forwarded (hwf : WellFormed r.document.lines) (h : r.press key = .ok (r', handled)) :
    (handled = false →
      r'.document = r.document ∧ r'.selections = r.selections ∧ r'.forwarded = r.forwarded ++ [key.plain]) ∧
    (handled = true →
      (key = .enter ∧ r.AddedComma r' ∧ r'.forwarded = r.forwarded ++ [.newline]) ∨
      ((key = .enter → ¬ r.AddedComma r' ∧
        r'.document.lines.length = r.document.lines.length + 2 * r.selections.length) ∧
        r'.forwarded = r.forwarded)) := by
  rcases press_cases h with ⟨rfl, hsame⟩ | ⟨a, hreact, rfl, hcarry⟩
  · exact ⟨fun _ => hsame, fun hh => by cases hh⟩
  · obtain ⟨hfit, hdoc, -, hforwarded⟩ := carryOut_spec hcarry
    refine ⟨fun hh => (by cases hh), fun _ => ?_⟩
    by_cases hkey : key = .enter
    · subst hkey
      obtain ⟨hne, ⟨p, hsel, hcomma⟩ | hblocks⟩ := SmartKey.enterKey_act hwf hreact
      · refine Or.inl ⟨rfl, addedComma_of_putsComma hwf hsel hcomma hdoc, ?_⟩
        rw [hforwarded, hcomma.thenKey]
        rfl
      · have hpos : 0 < r.selections.length := List.length_pos_iff.2 hne
        have hlen : r'.document.lines.length = r.document.lines.length + 2 * r.selections.length :=
          length_of_opensBlocks hwf hblocks hfit hdoc
        refine Or.inr ⟨fun _ => ⟨?_, hlen⟩, ?_⟩
        · intro hadded
          have := hadded.length_eq
          omega
        · rw [hforwarded, hblocks.thenKey]
          exact List.append_nil _
    · refine Or.inr ⟨fun h => absurd h hkey, ?_⟩
      rw [hforwarded, react_thenKey hkey hreact]
      exact List.append_nil _

/-- A host that has recorded nothing yet. -/
def ofText (t language : Text) (ss : List Selection) : Recorder where
  document := .ofText t "doc" language
  selections := ss
  indent := {}
  settings := {}
  tracker := []
  forwarded := []
  revealed := []

/-- A line with a value and no comma behind it, and the cursor at its end. -/
def withoutComma : Recorder :=
  ofText "\"a\":1".toList "json".toList [.caret ⟨0, 5⟩]

theorem press_forwarded_comma :
    ∃ r', withoutComma.press .enter = .ok (r', true) ∧ WellFormed withoutComma.document.lines ∧
      withoutComma.AddedComma r' ∧ r'.forwarded = [.newline] := by
  have hwf : WellFormed withoutComma.document.lines := wellFormed_splitLines _
  have h : withoutComma.press .enter = .ok ({ withoutComma with
      document := ⟨["\"a\":1,".toList], "doc", "json".toList, 1⟩
      selections := [.caret ⟨0, 6⟩]
      forwarded := [.newline] }, true) := by rfl
  rcases (press_forwarded hwf h).2 rfl with ⟨-, hadded, hnewline⟩ | ⟨-, hnothing⟩
  · exact ⟨_, h, hwf, hadded, hnewline⟩
  · cases hnothing

/-! ### Presses that fail -/

theorem press_eq_error_iff {f : EditError} :
    r.press key = .error f ↔ ∃ a, key.react r.scene = .act a ∧ r.document.applyEdits a.edits = .error f := by
  unfold press
  cases key.react r.scene with
  | decline k forgets => exact ⟨fun h => (by cases h), fun ⟨a, ha, _⟩ => by cases ha⟩
  | act a =>
    have hcarry := r.carryOut_eq_error_iff (a := a) (f := f)
    simp only [perform, Reaction.act.injEq, exists_eq_left', ← hcarry]
    cases r.carryOut a with
    | ok r₁ => exact ⟨fun h => (by cases h), fun h => by cases h⟩
    | error g => simp only [Except.map, Except.error.injEq]

private theorem completingEdit_stop {s : Scene} {p : Position} {name : PropertyName} (h : p.column < 0) :
    (SmartKey.completingEdit s p name).stop = p := by
  rw [Position.eq_iff]
  refine ⟨rfl, ?_⟩
  simp only [SmartKey.completingEdit]
  omega

private theorem completingEdit_inverted {s : Scene} {p : Position} {name : PropertyName} (h : p.column < 0) :
    (SmartKey.completingEdit s p name).stop < (SmartKey.completingEdit s p name).start := by
  rw [completingEdit_stop h, Position.lt_def]
  refine Or.inr ⟨rfl, ?_⟩
  simp only [SmartKey.completingEdit]
  omega

/-- The edit that completes a name fits unless the cursor is in front of its line. -/
theorem inRange_completingEdit {s : Scene} {p : Position} {name : PropertyName}
    (h : SmartKey.Completes s p name) (hcol : 0 ≤ p.column) : (SmartKey.completingEdit s p name).InRange s.lines := by
  obtain ⟨k, hk, hle⟩ := exists_min_eq (n := (lineOf s.lines p.line).length) hcol
  have hname := h.name_eq
  rw [hk] at hname
  rw [SmartKey.completingEdit, hk]
  exact inRange_onLine h.hasLine (SmartKey.propertyBefore_start_le hname) hle _

/-- A press fails exactly if the separator key is to complete a name and the only cursor is at a negative column: the
range from the beginning of the name to the cursor is inverted then. -/
theorem press_refused_iff {f : EditError} :
    r.press key = .error f ↔
      key = .separator ∧ ∃ p name, SmartKey.Completes r.scene p name ∧ p.column < 0 ∧
        f = .inverted ⟨p.line, name.start⟩ p := by
  rw [press_eq_error_iff]
  constructor
  · rintro ⟨a, hreact, herror⟩
    have hnot : ¬ BatchFits r.document.lines a.edits := by
      intro hfit
      rw [applyEdits_eq_ok_iff.2 ⟨hfit, rfl⟩] at herror
      cases herror
    by_cases hkey : key = .separator
    · subst hkey
      obtain ⟨p, name, hcompletes, hedits⟩ := SmartKey.separatorKey_act hreact
      have hcol : p.column < 0 := by
        by_contra hcol
        rw [hedits] at hnot
        exact hnot (batchFits_singleton (inRange_completingEdit hcompletes (by omega)))
      refine ⟨rfl, p, name, hcompletes, hcol, ?_⟩
      rw [hedits, applyEdits_inverted _ (completingEdit_inverted hcol)] at herror
      rw [← Except.error.inj herror, completingEdit_stop hcol]
      rfl
    · exact absurd (react_batchFits hkey hreact) hnot
  · rintro ⟨rfl, p, name, hcompletes, hcol, rfl⟩
    obtain ⟨a, hreact, hedits⟩ := SmartKey.separatorKey_of_completes hcompletes
    refine ⟨a, hreact, ?_⟩
    rw [hedits, applyEdits_inverted _ (completingEdit_inverted hcol), completingEdit_stop hcol]
    rfl

/-- A word with the cursor in front of the beginning of its line. -/
def beforeLine : Recorder :=
  ofText "abc".toList "json".toList [.caret ⟨0, -1⟩]

theorem press_refused_beforeLine : beforeLine.press .separator = .error (.inverted ⟨0, 0⟩ ⟨0, -1⟩) := by
  rfl

end Recorder

end MultiCaret
