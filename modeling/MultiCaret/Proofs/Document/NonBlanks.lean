import MultiCaret.Proofs.Document.Places
import MultiCaret.Text.Blank

/-!
# The characters that are no blanks

What is left of a text when its blanks are dropped does not change when the text is trimmed (`nonBlanks_trim`) or cut
into lines, because a newline is a blank too (`nonBlanks_joinLines`).  So what stands in front of a cursor, and what
stands behind it, can be read off the lines (`nonBlanks_textUpTo_cut`, `nonBlanks_textFrom_cut`).
-/

namespace MultiCaret

/-- The characters of a text that are no blanks, in their order. -/
def nonBlanks (t : Text) : Text :=
  t.filter fun c => !isBlank c

/-- The text in front of a position.  A position behind the end of its line stands for the end. -/
def textUpTo (lines : List Text) (p : Position) : Text :=
  (joinLines lines).take (offset lines ⟨p.line, min p.column (lineOf lines p.line).length⟩)

/-- The text from a position on.  A position behind the end of its line stands for the end. -/
def textFrom (lines : List Text) (p : Position) : Text :=
  (joinLines lines).drop (offset lines ⟨p.line, min p.column (lineOf lines p.line).length⟩)

/-! ### Characters that are picked out -/

section

variable {p : Char → Bool}

theorem filter_joinLines (hp : p '\n' = false) (ls : List Text) : (joinLines ls).filter p = ls.flatten.filter p := by
  induction ls with
  | nil => rfl
  | cons l ls ih =>
    by_cases hls : ls = []
    · simp [hls, joinWith]
    · rw [joinLines_cons hls, List.flatten_cons, List.filter_append, List.filter_append, ← ih,
        List.filter_cons_of_neg (by rw [hp]; exact Bool.false_ne_true)]

theorem filter_of_blank (hp : ∀ c, isBlank c = true → p c = false) {t : Text} (h : isBlankText t = true) :
    t.filter p = [] := by
  rw [List.filter_eq_nil_iff]
  intro c hc
  rw [hp c (List.all_eq_true.1 h c hc)]
  exact Bool.false_ne_true

private theorem filter_trimEnd (hp : ∀ c, isBlank c = true → p c = false) (t : Text) :
    (trimEnd t).filter p = t.filter p := by
  obtain ⟨happend, hblank⟩ := trimEnd_append_trailingBlanks t
  have h := congrArg (List.filter p) happend
  rwa [List.filter_append, filter_of_blank hp hblank, List.append_nil] at h

private theorem filter_trimStart (hp : ∀ c, isBlank c = true → p c = false) (t : Text) :
    (trimStart t).filter p = t.filter p := by
  have h := congrArg (List.filter p) (leadingBlanks_append_trimStart t)
  rwa [List.filter_append, filter_of_blank hp (isBlankText_leadingBlanks t), List.nil_append] at h

theorem filter_trim (hp : ∀ c, isBlank c = true → p c = false) (t : Text) : (trim t).filter p = t.filter p := by
  rw [trim, filter_trimEnd hp, filter_trimStart hp]

end

private theorem not_isBlank (c : Char) (h : isBlank c = true) : (!isBlank c) = false := by
  rw [h]
  rfl

theorem nonBlanks_append (s t : Text) : nonBlanks (s ++ t) = nonBlanks s ++ nonBlanks t :=
  List.filter_append _ _

theorem nonBlanks_of_blank {t : Text} (h : isBlankText t = true) : nonBlanks t = [] :=
  filter_of_blank not_isBlank h

/-- Blanks at the beginning may be left out. -/
theorem nonBlanks_drop {t : Text} {k : Nat} (h : isBlankText (t.take k) = true) : nonBlanks (t.drop k) = nonBlanks t := by
  have happend := congrArg nonBlanks (List.take_append_drop k t)
  rwa [nonBlanks_append, nonBlanks_of_blank h, List.nil_append] at happend

theorem nonBlanks_trimEnd (t : Text) : nonBlanks (trimEnd t) = nonBlanks t :=
  filter_trimEnd not_isBlank t

theorem nonBlanks_trim (t : Text) : nonBlanks (trim t) = nonBlanks t :=
  filter_trim not_isBlank t

theorem nonBlanks_joinLines (ls : List Text) : nonBlanks (joinLines ls) = nonBlanks ls.flatten :=
  filter_joinLines (by decide) ls

/-! ### In front of a cursor and behind it -/

private theorem cut_at_cursor (A B : List Text) (l : Text) (column : Int) :
    textUpTo (A ++ l :: B) ⟨A.length, column⟩ = joinLines (A ++ [l.take column.toNat]) ∧
      textFrom (A ++ l :: B) ⟨A.length, column⟩ = joinLines (l.drop column.toNat :: B) := by
  have hline : (A ++ l :: B)[A.length]? = some l := by simp
  have hcolumn : (min column (l.length : Int)).toNat = min column.toNat l.length := by omega
  obtain ⟨htake, hdrop⟩ := joinLines_split_at hline (Nat.min_le_right column.toNat l.length)
  rw [textUpTo, textFrom, lineOf_cut, offset, Int.toNat_natCast, hcolumn, htake, hdrop, List.take_left, drop_cut,
    ← List.take_eq_take_min, ← List.drop_eq_drop_min]
  exact ⟨rfl, rfl⟩

theorem nonBlanks_textUpTo_cut (A B : List Text) (l : Text) (column : Int) :
    nonBlanks (textUpTo (A ++ l :: B) ⟨A.length, column⟩) = nonBlanks A.flatten ++ nonBlanks (l.take column.toNat) := by
  rw [(cut_at_cursor A B l column).1, nonBlanks_joinLines, List.flatten_append, nonBlanks_append, List.flatten_singleton]

theorem nonBlanks_textFrom_cut (A B : List Text) (l : Text) (column : Int) :
    nonBlanks (textFrom (A ++ l :: B) ⟨A.length, column⟩) = nonBlanks (l.drop column.toNat) ++ nonBlanks B.flatten := by
  rw [(cut_at_cursor A B l column).2, nonBlanks_joinLines, List.flatten_cons, nonBlanks_append]

end MultiCaret
