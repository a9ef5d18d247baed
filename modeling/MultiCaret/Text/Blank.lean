import MultiCaret.Text.Split

/-!
# Blank characters and trimming

A blank is a character that separates words: the ASCII controls from tab to carriage return and from U+001C to
U+001F, the space, and the spaces and line separators outside ASCII.  Trimming removes blanks from an end of a text.
The key facts are `leadingBlanks_append_trimStart` and `trimEnd_append_trailingBlanks`: what trimming removes are the
blanks at that end and nothing else.
-/

namespace MultiCaret

/-- The separators of words, in any script. -/
def isBlank (c : Char) : Bool :=
  let n := c.toNat
  (0x09 ≤ n && n ≤ 0x0D) || (0x1C ≤ n && n ≤ 0x20) || n == 0x85 || n == 0xA0 || n == 0x1680 ||
    (0x2000 ≤ n && n ≤ 0x200A) || n == 0x2028 || n == 0x2029 || n == 0x202F || n == 0x205F || n == 0x3000

/-- A text of blanks only, the empty text included. -/
def isBlankText (t : Text) : Bool :=
  t.all isBlank

/-- The blanks that a text starts with. -/
def leadingBlanks (t : Text) : Text :=
  t.takeWhile isBlank

/-- The text without the blanks that it starts with. -/
def trimStart (t : Text) : Text :=
  t.dropWhile isBlank

/-- The text without the blanks that it ends with. -/
def trimEnd : Text → Text
  | [] => []
  | c :: cs =>
    match trimEnd cs with
    | [] => if isBlank c then [] else [c]
    | d :: ds => c :: d :: ds

/-- The text without blanks at either end. -/
def trim (t : Text) : Text :=
  trimEnd (trimStart t)

/-- The blanks that a text ends with. -/
def trailingBlanks (t : Text) : Text :=
  t.drop (trimEnd t).length

theorem leadingBlanks_append_trimStart (t : Text) : leadingBlanks t ++ trimStart t = t :=
  List.takeWhile_append_dropWhile

theorem mem_of_mem_leadingBlanks {c : Char} {t : Text} (h : c ∈ leadingBlanks t) : c ∈ t :=
  List.takeWhile_subset _ h

theorem isBlankText_leadingBlanks (t : Text) : isBlankText (leadingBlanks t) = true := by
  simp [isBlankText, leadingBlanks]

theorem trimEnd_cons_of_ne_nil {c : Char} {cs : Text} (h : trimEnd cs ≠ []) :
    trimEnd (c :: cs) = c :: trimEnd cs := by
  rw [trimEnd]
  cases hc : trimEnd cs with
  | nil => exact absurd hc h
  | cons d ds => rfl

theorem trimEnd_eq_nil_iff {t : Text} : trimEnd t = [] ↔ isBlankText t = true := by
  induction t with
  | nil => simp [trimEnd, isBlankText]
  | cons c cs ih =>
    rw [trimEnd]
    cases hc : trimEnd cs with
    | nil =>
      simp only [hc, true_iff] at ih
      simp only [isBlankText, List.all_cons, Bool.and_eq_true] at ih ⊢
      cases isBlank c <;> simp [ih]
    | cons d ds =>
      have : isBlankText cs ≠ true := fun h => by simp [ih.2 h] at hc
      simp only [isBlankText, List.all_cons, Bool.and_eq_true] at this ⊢
      simp [this]

/-- Trimming at the end removes blanks only. -/
theorem trimEnd_append_trailingBlanks (t : Text) :
    trimEnd t ++ trailingBlanks t = t ∧ isBlankText (trailingBlanks t) = true := by
  induction t with
  | nil => simp [trimEnd, trailingBlanks, isBlankText]
  | cons c cs ih =>
    by_cases h : trimEnd cs = []
    · have hb := trimEnd_eq_nil_iff.1 h
      unfold trailingBlanks
      rw [trimEnd, h]
      cases hc : isBlank c <;> simp_all [isBlankText]
    · unfold trailingBlanks at ih ⊢
      rw [trimEnd_cons_of_ne_nil h]
      simpa using ih

theorem mem_of_mem_trim {c : Char} {t : Text} (h : c ∈ trim t) : c ∈ t := by
  have hstart : c ∈ trimStart t := by
    rw [← (trimEnd_append_trailingBlanks (trimStart t)).1]
    exact List.mem_append_left _ h
  exact (List.dropWhile_suffix _).subset hstart

theorem length_trimEnd_le (t : Text) : (trimEnd t).length ≤ t.length := by
  have h := congrArg List.length (trimEnd_append_trailingBlanks t).1
  rw [List.length_append] at h
  omega

theorem take_trimEnd (t : Text) : t.take (trimEnd t).length = trimEnd t := by
  have h : (trimEnd t ++ trailingBlanks t).take (trimEnd t).length = trimEnd t := List.take_left
  rwa [(trimEnd_append_trailingBlanks t).1] at h

theorem length_trailingBlanks (t : Text) : (trailingBlanks t).length = t.length - (trimEnd t).length := by
  rw [trailingBlanks, List.length_drop]

end MultiCaret
