import MultiCaret.Proofs.SmartKey.Landing

/-!
# Indenting several blank lines

With several cursors, End reads the indentation of every blank line off the lines as they are before the press.  It could
as well indent one line after the other, in any order, each time in view of the lines as they are by then
(`press_end_many`), because a blank line stays blank and the indentation of a line does not depend on the blank lines
above it (`indentFor_reindented`).  For the same reason a second press has nothing to do.
-/

namespace MultiCaret

/-- The lines with the indentation of one of them put right, if this line is blank. -/
def reindented (o : IndentOptions) (lines : List Text) (n : Int) : List Text :=
  if isBlankText (lineOf lines n) then lines.set n.toNat (indentFor lines n o) else lines

variable {o : IndentOptions} {lines : List Text}

/-! ### One line -/

/-- Where what is there and what takes its place are both left out, it does not matter which of them is there. -/
private theorem filter_set {α : Type} {P : α → Bool} {b : α} (hb : P b = false) {l : List α} {i : Nat}
    (hold : ∀ a, l[i]? = some a → P a = false) : (l.set i b).filter P = l.filter P := by
  induction l generalizing i with
  | nil => rfl
  | cons a l ih =>
    cases i with
    | zero =>
      have ha := hold a rfl
      simp [hb, ha]
    | succ i =>
      rw [List.set_cons_succ, List.filter_cons, List.filter_cons, ih fun a' ha' => hold a' ha']

/-- The line that sets the indentation is the same when a blank line becomes another blank line. -/
private theorem lastNonBlank_take_set {n : Int} (h : HasLine lines n) (hold : isBlankText (lineOf lines n) = true)
    {l : Text} (hl : isBlankText l = true) (k : Nat) :
    lastNonBlank ((lines.set n.toNat l).take k) = lastNonBlank (lines.take k) := by
  rw [lastNonBlank, lastNonBlank, List.take_set, filter_set]
  · rw [hl]
    rfl
  · intro a ha
    have hn : lines[n.toNat]? = some a := by
      rw [List.getElem?_take] at ha
      split at ha
      · exact ha
      · cases ha
    have hline : lineOf lines n = a := by
      have := h.1
      rw [lineOf, if_neg (by omega), hn]
      rfl
    rw [← hline, hold]
    rfl

private theorem length_reindented (n : Int) : (reindented o lines n).length = lines.length := by
  unfold reindented
  split
  · exact List.length_set
  · rfl

private theorem hasLine_reindented {n m : Int} : HasLine (reindented o lines n) m ↔ HasLine lines m := by
  rw [HasLine, HasLine, length_reindented]

/-- No line is to be indented otherwise when another line has been indented. -/
theorem indentFor_reindented {n : Int} (h : HasLine lines n) (m : Int) (o' : IndentOptions) :
    indentFor (reindented o lines n) m o' = indentFor lines m o' := by
  unfold reindented
  split
  · next hblank =>
    exact indentFor_congr (lastNonBlank_take_set h hblank (isBlankText_indentFor lines n o) m.toNat) o'
  · rfl

private theorem lineOf_reindented {n : Int} (h : HasLine lines n) (m : Int) :
    lineOf (reindented o lines n) m =
      if m = n ∧ isBlankText (lineOf lines m) then indentFor lines m o else lineOf lines m := by
  unfold reindented
  by_cases hm : m = n
  · subst hm
    split
    · next hblank => rw [lineOf_set_self h, if_pos ⟨rfl, hblank⟩]
    · next hblank => rw [if_neg fun hcond => hblank hcond.2]
  · rw [if_neg (show ¬ (m = n ∧ _) from fun hcond => hm hcond.1)]
    split
    · exact lineOf_set_of_ne h.1 hm _
    · rfl

/-! ### One line after the other -/

/-- Whatever the order, and however often a line is among them, the blank ones of some lines get the indentation that
they should have among the lines as they were at first. -/
private theorem lineOf_foldl_reindented {ns : List Int} (h : ∀ n ∈ ns, HasLine lines n) :
    (ns.foldl (reindented o) lines).length = lines.length ∧
      ∀ m, lineOf (ns.foldl (reindented o) lines) m =
        if m ∈ ns ∧ isBlankText (lineOf lines m) then indentFor lines m o else lineOf lines m := by
  induction ns generalizing lines with
  | nil => exact ⟨rfl, fun m => by simp⟩
  | cons n ns ih =>
    have hn := h n List.mem_cons_self
    have hrest : ∀ m ∈ ns, HasLine (reindented o lines n) m := fun m hm =>
      hasLine_reindented.2 (h m (List.mem_cons_of_mem n hm))
    obtain ⟨hlen, hline⟩ := ih hrest
    refine ⟨hlen.trans (length_reindented n), fun m => ?_⟩
    have hone := lineOf_reindented (o := o) hn m
    rw [List.foldl_cons, hline, indentFor_reindented hn, hone]
    by_cases hblank : isBlankText (lineOf lines m) = true
    · -- the line is blank before and after, and both times it is to have the same indentation
      by_cases hm : m = n
      · simp [hm, hm ▸ hblank, isBlankText_indentFor]
      · simp [hm, hblank]
    · simp [hblank]

private theorem indentFor_foldl_reindented {ns : List Int} (h : ∀ n ∈ ns, HasLine lines n) (m : Int)
    (o' : IndentOptions) : indentFor (ns.foldl (reindented o) lines) m o' = indentFor lines m o' := by
  induction ns generalizing lines with
  | nil => rfl
  | cons n ns ih =>
    have hn := h n List.mem_cons_self
    have hrest : ∀ k ∈ ns, HasLine (reindented o lines n) k := fun k hk =>
      hasLine_reindented.2 (h k (List.mem_cons_of_mem n hk))
    rw [List.foldl_cons, ih hrest, indentFor_reindented hn]

private theorem eq_of_lineOf {lines' : List Text} (hlen : lines.length = lines'.length)
    (h : ∀ n, lineOf lines n = lineOf lines' n) : lines = lines' := by
  refine List.ext_getElem hlen fun i hi hi' => ?_
  have hline := h i
  rw [lineOf, lineOf, if_neg (by omega), Int.toNat_natCast, List.getElem?_eq_getElem hi,
    List.getElem?_eq_getElem hi'] at hline
  exact hline

/-! ### The reaction -/

namespace SmartKey

variable {s : Scene}

/-- With several carets and one of its two settings on, End acts. -/
private theorem endKey_of_many (hcarets : allCarets s.selections = true) (hmany : 2 ≤ s.selections.length)
    (hon : s.settings.endIndentsEmptyLine = true) : endKey s = .act (endEach s) := by
  unfold endKey
  rw [if_pos hcarets]
  split
  · next sel hsel =>
    rw [hsel] at hmany
    simp at hmany
  · unfold endMany
    rw [hon]
    rfl

/-- What the edits of several cursors make of the lines is what indenting the lines of these cursors one after the other
makes of them. -/
private theorem spliceAll_endEach (hwf : WellFormed s.lines) (hon : s.settings.endIndentsEmptyLine = true)
    {ns : List Int} (hns : ∀ n, n ∈ ns ↔ ∃ sel ∈ s.selections, sel.active.line = n)
    (hlines : ∀ sel ∈ s.selections, HasLine s.lines sel.active.line) :
    spliceAll (sortBy Edit.precedes (endEach s).edits) s.lines = ns.foldl (reindented s.indent) s.lines := by
  have hmem : ∀ n, n ∈ (s.selections.map fun sel => sel.active.line).eraseDups ↔ n ∈ ns := by
    intro n
    rw [List.mem_eraseDups, List.mem_map, hns]
  have hhas : ∀ n ∈ ns, HasLine s.lines n := by
    intro n hn
    obtain ⟨sel, hsel, rfl⟩ := (hns n).1 hn
    exact hlines sel hsel
  obtain ⟨hlen, hin, hout⟩ := lineOf_endEdits hwf (nodup_eraseDups (s.selections.map fun sel => sel.active.line))
  obtain ⟨hlen', hline⟩ := lineOf_foldl_reindented (o := s.indent) hhas
  refine eq_of_lineOf (hlen.trans hlen'.symm) fun n => ?_
  rw [hline]
  by_cases hn : n ∈ ns
  · have hnew := hin n ((hmem n).2 hn) (hhas n hn)
    simpa only [endEach, hn, hon, true_and, and_true] using hnew
  · have hsame := hout n fun h => hn ((hmem n).1 h)
    rw [if_neg fun hcond => hn hcond.1]
    exact hsame

/-- A line that is not blank, or that has its indentation, gets no edit. -/
private theorem endEdit_eq_none {n : Int}
    (h : isBlankText (lineOf s.lines n) = true → lineOf s.lines n = indentFor s.lines n s.indent) :
    endEdit? s n = none := by
  unfold endEdit?
  simp only
  split
  · next hcond => rw [reindent?, if_pos (h hcond.2.1)]
  · rfl

/-- The column where one of several cursors goes on a line that is to have an indentation. -/
def endColumn (c : Settings) (l indent : Text) : Nat :=
  if isBlankText l ∧ c.endIndentsEmptyLine then indent.length
  else if !isBlankText l ∧ c.endTogglesTrimmedEnd then (trimEnd l).length
  else l.length

private theorem endCaret_eq {sel : Selection} (h : HasLine s.lines sel.active.line) :
    endCaret s sel = .caret ⟨sel.active.line,
      endColumn s.settings (lineOf s.lines sel.active.line) (indentFor s.lines sel.active.line s.indent)⟩ := by
  simp only [endCaret, endColumn, if_pos h]
  split
  · rfl
  · split <;> rfl

/-- The second scene is the first one with the lines of its cursors indented and the cursors set. -/
structure Indented (s s₁ : Scene) : Prop where
  settings : s₁.settings = s.settings
  indentation : ∀ n, indentFor s₁.lines n s₁.indent = indentFor s.lines n s.indent
  length : s₁.lines.length = s.lines.length
  selections : s₁.selections = (endEach s).selections
  /-- The line of a cursor is its indentation, or what it was before and not blank. -/
  line : ∀ sel ∈ s.selections,
    (isBlankText (lineOf s.lines sel.active.line) = true ∧
        lineOf s₁.lines sel.active.line = indentFor s.lines sel.active.line s.indent) ∨
      isBlankText (lineOf s.lines sel.active.line) = false ∧
        lineOf s₁.lines sel.active.line = lineOf s.lines sel.active.line

variable {s₁ : Scene}

private theorem indented_endEach (hwf : WellFormed s.lines) (hon : s.settings.endIndentsEmptyLine = true)
    (hlines : ∀ sel ∈ s.selections, HasLine s.lines sel.active.line) (hsettings : s₁.settings = s.settings)
    (hindent : s₁.indent = s.indent)
    (hafter : s₁.lines = spliceAll (sortBy Edit.precedes (endEach s).edits) s.lines)
    (hselections : s₁.selections = (endEach s).selections) : Indented s s₁ := by
  have hmem : ∀ n, n ∈ (s.selections.map fun sel => sel.active.line) ↔ ∃ sel ∈ s.selections, sel.active.line = n :=
    fun n => List.mem_map
  have hhas : ∀ n ∈ s.selections.map fun sel => sel.active.line, HasLine s.lines n := by
    intro n hn
    obtain ⟨sel, hsel, rfl⟩ := (hmem n).1 hn
    exact hlines sel hsel
  rw [spliceAll_endEach hwf hon hmem hlines] at hafter
  obtain ⟨hlen, hline⟩ := lineOf_foldl_reindented (o := s.indent) hhas
  rw [← hafter] at hlen hline
  refine ⟨hsettings, fun n => ?_, hlen, hselections, fun sel hsel => ?_⟩
  · rw [hafter, hindent]
    exact indentFor_foldl_reindented hhas n s.indent
  · have hn := (hmem sel.active.line).2 ⟨sel, hsel, rfl⟩
    rw [hline]
    cases hblank : isBlankText (lineOf s.lines sel.active.line) with
    | true => exact Or.inl ⟨rfl, if_pos ⟨hn, rfl⟩⟩
    | false => exact Or.inr ⟨rfl, if_neg fun hcond => by cases hcond.2⟩

/-- There is nothing left to indent. -/
private theorem Indented.edits_eq_nil (h : Indented s s₁) (hcarets : ∀ sel ∈ s.selections, sel.isEmpty = true) :
    (endEach s₁).edits = [] := by
  rw [endEach, List.filterMap_eq_nil_iff]
  intro n hn
  rw [List.mem_eraseDups, List.mem_map, h.selections] at hn
  obtain ⟨sel₁, hsel₁, rfl⟩ := hn
  obtain ⟨sel, hsel, rfl⟩ := List.mem_map.1 hsel₁
  rw [(endCaret_spec (hcarets sel hsel)).2]
  refine endEdit_eq_none fun hblank => ?_
  rw [h.indentation]
  rcases h.line sel hsel with ⟨-, hnew⟩ | ⟨hold, hnew⟩
  · exact hnew
  · rw [hnew, hold] at hblank
    cases hblank

/-- The cursors stay where they are. -/
private theorem Indented.selections_eq (h : Indented s s₁) (hon : s.settings.endIndentsEmptyLine = true)
    (hcarets : ∀ sel ∈ s.selections, sel.isEmpty = true)
    (hlines : ∀ sel ∈ s.selections, HasLine s.lines sel.active.line) : (endEach s₁).selections = s₁.selections := by
  rw [endEach, h.selections]
  refine (List.map_congr_left fun sel₁ hsel₁ => ?_).trans (List.map_id _)
  obtain ⟨sel, hsel, rfl⟩ := List.mem_map.1 hsel₁
  have hline₁ : HasLine s₁.lines sel.active.line := by
    rw [HasLine, h.length]
    exact hlines sel hsel
  have hsame := (endCaret_spec (s := s) (hcarets sel hsel)).2
  rw [endCaret_eq (by rw [hsame]; exact hline₁), hsame, endCaret_eq (hlines sel hsel), h.indentation, h.settings]
  rcases h.line sel hsel with ⟨hold, hnew⟩ | ⟨-, hnew⟩
  · simp only [hnew, endColumn, isBlankText_indentFor, hold, hon, and_self, if_true, id_eq]
  · rw [hnew]
    rfl

end SmartKey

/-! ### The recording host -/

namespace Recorder

variable {r : Recorder}

/-- With several carets on lines of the document, several on a line or not, End goes through, and the lines are then what
they become when the lines of the cursors are indented one after the other, in any order and each of them in view of the
lines as they are by then.  A second press leaves the document, its version included, and the selections as they are. -/
theorem press_end_many (hwf : WellFormed r.document.lines) (hcarets : allCarets r.selections = true)
    (hmany : 2 ≤ r.selections.length) (hlines : ∀ sel ∈ r.selections, HasLine r.document.lines sel.active.line)
    (hon : r.settings.endIndentsEmptyLine = true) :
    ∃ r', r.press .lineEnd = .ok (r', true) ∧
      (∀ ns : List Int, (∀ n, n ∈ ns ↔ ∃ sel ∈ r.selections, sel.active.line = n) →
        r'.document.lines = ns.foldl (reindented r.indent) r.document.lines) ∧
      ∃ r'', r'.press .lineEnd = .ok (r'', true) ∧ r''.document = r'.document ∧ r''.selections = r'.selections := by
  have hact : SmartKeyName.lineEnd.react r.scene = .act (SmartKey.endEach r.scene) :=
    SmartKey.endKey_of_many hcarets hmany hon
  obtain ⟨r', hpress, hafter, hselections, -⟩ := press_of_act (by decide) hact
  obtain ⟨hsettings, hindent⟩ := press_options hpress
  have hempty := SmartKey.carets_of_allCarets hcarets
  have hindented : SmartKey.Indented r.scene r'.scene :=
    SmartKey.indented_endEach hwf hon hlines hsettings hindent hafter hselections
  have hagain : (SmartKey.endEach r'.scene).selections = r'.selections := hindented.selections_eq hon hempty hlines
  -- the cursors are as many as before, and carets
  have hmany' : 2 ≤ r'.selections.length := by
    rw [hselections, SmartKey.endEach, List.length_map]
    exact hmany
  have hcarets' : allCarets r'.selections = true := by
    rw [allCarets, Bool.and_eq_true, Bool.not_eq_true', List.isEmpty_eq_false_iff, List.all_eq_true, hselections]
    refine ⟨fun hnil => ?_, fun sel hsel => ?_⟩
    · rw [hselections, hnil] at hmany'
      cases hmany'
    · obtain ⟨old, hold, rfl⟩ := List.mem_map.1 hsel
      exact (SmartKey.endCaret_spec (hempty old hold)).1
  have hon' : r'.settings.endIndentsEmptyLine = true := by rw [hsettings]; exact hon
  have hact' : SmartKeyName.lineEnd.react r'.scene = .act (SmartKey.endEach r'.scene) :=
    SmartKey.endKey_of_many hcarets' hmany' hon'
  obtain ⟨r'', hpress', -, hselections', -⟩ := press_of_act (by decide) hact'
  refine ⟨r', hpress, fun ns hns => ?_, r'', hpress', ?_, hselections'.trans hagain⟩
  · exact hafter.trans (SmartKey.spliceAll_endEach (s := r.scene) hwf hon hns hlines)
  · rcases press_cases hpress' with ⟨hdeclined, -⟩ | ⟨a, ha, -, hcarry⟩
    · cases hdeclined
    · obtain rfl := Reaction.act.inj (hact'.symm.trans ha)
      rw [(carryOut_spec hcarry).2.1, hindented.edits_eq_nil hempty]
      rfl

/-- Two blank lines below an opening brace and a line below them, with two cursors on the second blank line and one on
each of the other two. -/
def blankLines : Recorder :=
  ofText "if \x7b\n\n \n  x  ".toList "plaintext".toList [.caret ⟨2, 1⟩, .caret ⟨3, 0⟩, .caret ⟨1, 0⟩, .caret ⟨2, 0⟩]

theorem press_end_many_blankLines :
    WellFormed blankLines.document.lines ∧ allCarets blankLines.selections = true ∧ 2 ≤ blankLines.selections.length ∧
      (∀ sel ∈ blankLines.selections, HasLine blankLines.document.lines sel.active.line) ∧
      blankLines.settings.endIndentsEmptyLine = true ∧
      ∃ r', blankLines.press .lineEnd = .ok (r', true) ∧
        r'.document.lines = ["if \x7b".toList, "    ".toList, "    ".toList, "  x  ".toList] ∧
        r'.document.lines = [3, 1, 2].foldl (reindented {}) blankLines.document.lines ∧
        ∃ r'', r'.press .lineEnd = .ok (r'', true) ∧ r''.document = r'.document ∧ r''.selections = r'.selections := by
  have hwf : WellFormed blankLines.document.lines := wellFormed_splitLines _
  have hcarets : allCarets blankLines.selections = true := by decide
  have hlines : ∀ sel ∈ blankLines.selections, HasLine blankLines.document.lines sel.active.line := by decide +kernel
  obtain ⟨r', hpress, hafter, hagain⟩ := press_end_many hwf hcarets (by decide) hlines rfl
  have horder := hafter [3, 1, 2] (by simp [blankLines, ofText, Selection.caret]; omega)
  have hfold : [3, 1, 2].foldl (reindented {}) blankLines.document.lines =
      ["if \x7b".toList, "    ".toList, "    ".toList, "  x  ".toList] := by decide +kernel
  exact ⟨hwf, hcarets, by decide, hlines, rfl, r', hpress, horder.trans hfold, horder, hagain⟩

end Recorder

end MultiCaret
