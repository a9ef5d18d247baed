import MultiCaret.Proofs.KeyedLine.Search
import MultiCaret.Proofs.SmartKey.Backspace
import MultiCaret.Proofs.SmartKey.Visible

/-!
# Completing a property name

A property name in front of a cursor cuts its line into four: what stands in front of the name, the name, the blanks
behind it, and the text from the cursor on (`PropertyName.Cuts`).  The separator key puts the name, perhaps in quotes now,
and the separator in place of the two pieces in the middle (`Recorder.press_separator`), so that all that gets lost are
the blanks (`Recorder.press_separator_completed`).
-/

namespace MultiCaret

/-- A property name cuts a line in front of a column. -/
structure PropertyName.Cuts (name : PropertyName) (l : Text) (column : Int) (head blanks tail : Text) : Prop where
  line_eq : l = head ++ name.token ++ blanks ++ tail
  start_eq : name.start = head.length
  slice_eq : (l.take name.stop).drop name.start = name.token
  blank : isBlankText blanks = true
  tail_eq : tail = onward l column
  kind : name.quoted = true ∧ IsQuoted name.token ∨ name.quoted = false ∧ IsDotted name.token
  longest : name.quoted = false → LongestEnd IsDotted (head ++ name.token) name.token

private theorem IsDotted.not_isQuoted {t : Text} (h : IsDotted t) : ¬ IsQuoted t := by
  intro hquoted
  obtain ⟨name, -, -, rfl⟩ := isQuoted_iff.1 hquoted
  cases isDottedName_iff.2 h

private theorem PropertyName.StandsBefore.kind {name : PropertyName} {l : Text} {k : Nat} (h : name.StandsBefore l k) :
    name.quoted = true ∧ IsQuoted name.token ∨ name.quoted = false ∧ IsDotted name.token := by
  cases hq : name.quoted with
  | true =>
    obtain ⟨pre, hends, -⟩ := h.quoted hq
    refine Or.inl ⟨rfl, ?_⟩
    rw [token, if_pos hq]
    exact isQuoted_iff.2 ⟨name.name, hends.ne_nil, hends.no_quote, rfl⟩
  | false =>
    refine Or.inr ⟨rfl, ?_⟩
    rw [token, if_neg (by rw [hq]; exact Bool.false_ne_true)]
    exact (h.dotted hq).holds

/-- What is found in front of a column cuts the line there; a column behind the end of the line is its end. -/
theorem exists_cuts {l : Text} {column : Int} {name : PropertyName} (hcol : 0 ≤ column)
    (h : propertyBefore? l (min column l.length) = some name) :
    ∃ head blanks, name.Cuts l column head blanks (onward l column) := by
  obtain ⟨k, hk, hle⟩ := exists_min_eq (n := l.length) hcol
  rw [hk] at h
  obtain ⟨blanks, hsplit, hblank, -⟩ := SmartKey.propertyBefore_spec hle h
  have hstands : name.StandsBefore l k := by
    have hfound := found_propertyBefore? l k
    rw [h, upTo_natCast] at hfound
    exact hfound.standsBefore
  rw [hstands.token_eq] at hsplit
  have hstart : name.start ≤ l.length := Nat.le_trans (SmartKey.propertyBefore_start_le h) hle
  refine ⟨l.take name.start, blanks, ?_, ?_, hstands.token_eq, hblank, rfl, hstands.kind, ?_⟩
  · rw [← hsplit, ← onward_min, hk, onward_natCast, List.take_append_drop]
  · rw [List.length_take, Nat.min_eq_left hstart]
  · intro hbare
    have htoken : name.name = name.token := by rw [PropertyName.token, if_neg (by simp [hbare])]
    have hdotted := hstands.dotted hbare
    rw [htoken] at hdotted
    have hne := hdotted.holds.ne_nil
    have hcore : trimEnd (l.take k) = l.take name.start ++ name.token := by
      rw [hsplit]
      refine (trimEnd_append_blanks (List.append_ne_nil_of_right_ne_nil _ hne) ?_ hblank).1
      rw [List.getLast?_append_of_ne_nil _ hne]
      exact fun c hc => hdotted.holds.not_isBlank c (List.mem_of_mem_getLast? hc)
    rwa [hcore] at hdotted

namespace SmartKey

variable {s : Scene} {p : Position} {name : PropertyName}

/-- A name without quotes gets some if names are to have them; any other name stays as it is. -/
theorem keyText_eq {c : Settings} {l head blanks tail : Text} {column : Int} (h : name.Cuts l column head blanks tail) :
    keyText c l name =
      if name.quoted = false ∧ c.separatorQuotesKey = true then '"' :: name.token ++ ['"'] else name.token := by
  rw [keyText, h.slice_eq]
  by_cases hcond : name.quoted = false ∧ c.separatorQuotesKey = true
  · have htoken : name.token = name.name := by rw [PropertyName.token, if_neg (by simp [hcond.1])]
    rw [if_pos hcond, if_neg (by simp [hcond.1, hcond.2]), htoken]
  · rw [if_neg hcond, if_pos]
    rw [not_and_or, Bool.not_eq_false, Bool.not_eq_true] at hcond
    exact hcond.imp_right fun hoff => by rw [hoff, Bool.not_false]

/-- What the completed name makes of its line. -/
private theorem within_completingEdit {head blanks tail : Text} (hcol : 0 ≤ p.column)
    (h : name.Cuts (lineOf s.lines p.line) p.column head blanks tail) :
    (completingEdit s p name).within (lineOf s.lines p.line) =
      head ++ completion s.settings (lineOf s.lines p.line) name ++ tail := by
  have hhead : (lineOf s.lines p.line).take head.length = head := by
    conv_lhs => rw [h.line_eq, List.append_assoc, List.append_assoc]
    exact List.take_left
  have htail : (lineOf s.lines p.line).drop (min p.column (lineOf s.lines p.line).length).toNat = tail := by
    obtain ⟨k, hk, -⟩ := exists_min_eq (n := (lineOf s.lines p.line).length) hcol
    rw [h.tail_eq, ← onward_min, hk, onward_natCast, Int.toNat_natCast]
  simp only [Edit.within, completingEdit, Int.toNat_natCast, h.start_eq, hhead, htail]

end SmartKey

namespace Recorder

variable {r : Recorder} {p : Position}

/-- With a single caret on a line, at no negative column, the separator key completes the property name in front of the
caret, if there is one to be completed, and declines otherwise. -/
theorem press_separator (hwf : WellFormed r.document.lines) (hsel : r.selections = [.caret p]) (hcol : 0 ≤ p.column) :
    (∃ r', r.press .separator = .ok (r', false) ∧ r'.document = r.document ∧ ¬ ∃ name, SmartKey.Completes r.scene p name) ∨
      ∃ r' name head blanks tail, r.press .separator = .ok (r', true) ∧ SmartKey.Completes r.scene p name ∧
        name.Cuts (lineOf r.document.lines p.line) p.column head blanks tail ∧
        r'.document.lines = r.document.lines.set p.line.toNat
          (head ++ SmartKey.completion r.settings (lineOf r.document.lines p.line) name ++ tail) ∧
        r'.selections = [.caret ⟨p.line,
          (head ++ SmartKey.completion r.settings (lineOf r.document.lines p.line) name).length⟩] := by
  cases hreact : SmartKeyName.separator.react r.scene with
  | decline k forgets =>
    obtain ⟨r', hpress, hdoc, -⟩ := press_of_decline hreact
    refine Or.inl ⟨r', hpress, hdoc, ?_⟩
    rintro ⟨name, hcompletes⟩
    obtain ⟨a, hact, -⟩ := SmartKey.separatorKey_of_completes hcompletes
    cases hreact.symm.trans hact
  | act a =>
    obtain ⟨q, name, hcompletes, rfl⟩ := SmartKey.separatorKey_eq hreact
    obtain rfl : p = q := Selection.singleton_caret_inj (hsel.symm.trans hcompletes.selections)
    have hone : (SmartKey.completingEdit r.scene p name).OneLine r.document.lines :=
      SmartKey.oneLine_completingEdit hwf hcompletes hcol
    obtain ⟨head, blanks, hcuts⟩ : ∃ head blanks, name.Cuts (lineOf r.document.lines p.line) p.column head blanks _ :=
      exists_cuts hcol hcompletes.name_eq
    cases hcarry : r.carryOut (SmartKey.complete r.scene p name) with
    | error f =>
      have hfit : BatchFits r.document.lines (SmartKey.complete r.scene p name).edits := batchFits_singleton hone.inRange
      rw [carryOut_eq_error_iff, applyEdits_eq_ok_iff.2 ⟨hfit, rfl⟩] at hcarry
      cases hcarry
    | ok r' =>
      obtain ⟨-, hdoc, hselections, -⟩ := carryOut_spec hcarry
      refine Or.inr ⟨r', name, head, blanks, _, ?_, hcompletes, hcuts, ?_, ?_⟩
      · simp only [press, hreact, perform, hcarry]
        rfl
      · have hwithin := SmartKey.within_completingEdit (s := r.scene) hcol hcuts
        have hedits : (SmartKey.complete r.scene p name).edits = [SmartKey.completingEdit r.scene p name] := rfl
        rw [hdoc, hedits, lines_afterBatch_oneLine hwf hone]
        exact congrArg _ hwithin
      · rw [hselections, List.length_append, ← hcuts.start_eq, Int.natCast_add]
        rfl

end Recorder

/-! ### What the separator key does to a line -/

/-- The separator as it is put behind a completed name. -/
def separatorText (c : Settings) : Text :=
  ':' :: (if c.separatorAddsBlank then [' '] else [])

/-- A property name in front of a column, perhaps with blanks behind it, and what it becomes: `token` is put in quotes if
it has none and names are to have them. -/
structure NameCompleted (c : Settings) (l : Text) (column : Int) (head token blanks tail key : Text) : Prop where
  line_eq : l = head ++ token ++ blanks ++ tail
  tail_eq : tail = onward l column
  blank : isBlankText blanks = true
  kind : IsQuoted token ∨ IsDotted token
  of_dotted : IsDotted token → c.separatorQuotesKey = true → key = '"' :: token ++ ['"']
  of_quoted : IsQuoted token → key = token
  of_off : c.separatorQuotesKey = false → key = token

private theorem PropertyName.Cuts.nameCompleted {name : PropertyName} {c : Settings} {l head blanks tail : Text}
    {column : Int} (h : name.Cuts l column head blanks tail) :
    NameCompleted c l column head name.token blanks tail (SmartKey.keyText c l name) := by
  have hkey := SmartKey.keyText_eq (c := c) h
  refine ⟨h.line_eq, h.tail_eq, h.blank, ?_, ?_, ?_, ?_⟩
  · exact h.kind.imp And.right And.right
  · intro hdotted hon
    rcases h.kind with ⟨-, hquoted⟩ | ⟨hbare, -⟩
    · exact absurd hquoted hdotted.not_isQuoted
    · rw [hkey, if_pos ⟨hbare, hon⟩]
  · intro hquoted
    rcases h.kind with ⟨hq, -⟩ | ⟨-, hdotted⟩
    · rw [hkey, if_neg fun hcond => by simp [hq] at hcond]
    · exact absurd hquoted hdotted.not_isQuoted
  · intro hoff
    rw [hkey, if_neg fun hcond => by simp [hoff] at hcond]

namespace Recorder

variable {r : Recorder} {p : Position}

/-- The separator key with a single caret, at no negative column, succeeds, and acts exactly if there is a property name
to be completed.  Then the line is the same in front of the name and from the caret on; in between, the name is followed
by the separator, and all that is gone are blanks.  No other line changes, and the caret is behind what was put in. -/
theorem press_separator_completed (hwf : WellFormed r.document.lines) (hsel : r.selections = [.caret p])
    (hcol : 0 ≤ p.column) :
    ∃ r' handled, r.press .separator = .ok (r', handled) ∧
      (handled = true ↔ ∃ name, SmartKey.Completes r.scene p name) ∧
      (handled = true → ∃ head token blanks tail key,
        NameCompleted r.settings (lineOf r.document.lines p.line) p.column head token blanks tail key ∧
        r'.document.lines =
          r.document.lines.set p.line.toNat (head ++ key ++ separatorText r.settings ++ tail) ∧
        r'.selections = [.caret ⟨p.line, (head ++ key ++ separatorText r.settings).length⟩]) := by
  rcases press_separator hwf hsel hcol with
    ⟨r', hpress, -, hnone⟩ | ⟨r', name, head, blanks, tail, hpress, hcompletes, hcuts, hlines, hselections⟩
  · exact ⟨r', false, hpress, iff_of_false Bool.false_ne_true hnone, fun h => absurd h Bool.false_ne_true⟩
  · have hcompletion : head ++ SmartKey.completion r.settings (lineOf r.document.lines p.line) name =
        head ++ SmartKey.keyText r.settings (lineOf r.document.lines p.line) name ++ separatorText r.settings :=
      (List.append_assoc _ _ _).symm
    rw [hcompletion] at hlines hselections
    exact ⟨r', true, hpress, iff_of_true rfl ⟨name, hcompletes⟩,
      fun _ => ⟨head, name.token, blanks, tail, _, hcuts.nameCompleted, hlines, hselections⟩⟩

/-- A dotted name with blanks behind it, and the cursor in front of a value. -/
def dottedKey : Recorder :=
  ofText "[\n  a.b \t 1".toList "json".toList [.caret ⟨1, 7⟩]

theorem press_separator_completed_dotted :
    ∃ r', dottedKey.press .separator = .ok (r', true) ∧ WellFormed dottedKey.document.lines ∧
      r'.document.lines = ["[".toList, "  \"a.b\":  1".toList] ∧ r'.selections = [.caret ⟨1, 9⟩] ∧
      ∃ head token blanks tail key, NameCompleted {} "  a.b \t 1".toList 7 head token blanks tail key ∧
        "  \"a.b\":  1".toList = head ++ key ++ ": ".toList ++ tail := by
  have hwf : WellFormed dottedKey.document.lines := wellFormed_splitLines _
  obtain ⟨r', handled, hpress, hacts, hdone⟩ := press_separator_completed hwf (show dottedKey.selections = _ from rfl)
    (show (0 : Int) ≤ 7 by decide)
  have h : dottedKey.press .separator = .ok ({ dottedKey with
      document := ⟨["[".toList, "  \"a.b\":  1".toList], "doc", "json".toList, 1⟩
      selections := [.caret ⟨1, 9⟩]
      revealed := [⟨1, 9⟩] }, true) := by rfl
  obtain ⟨rfl, rfl⟩ := Prod.mk.inj (Except.ok.inj (hpress.symm.trans h))
  obtain ⟨head, token, blanks, tail, key, hcompleted, hlines, -⟩ := hdone rfl
  refine ⟨_, h, hwf, rfl, rfl, head, token, blanks, tail, key, hcompleted, ?_⟩
  exact (List.cons.inj (List.cons.inj hlines).2).1

end Recorder

end MultiCaret
