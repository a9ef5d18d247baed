import MultiCaret.Proofs.SmartKey.Completing
import MultiCaret.Text.Word

/-!
# Names that begin inside a word

A dotted name reaches as far back as it can, so the character in front of it is none that may begin a name: no letter of
ASCII, no `_` and no `$` (`LongestEnd.not_isNameStart`).  But a digit or a letter outside ASCII may stand there, and then
the name begins in the middle of a word (`LongestEnd.quotesPart`).  Directly behind a number this happens exactly if the
number has an exponent without a sign, which is taken for a name (`exists_propertyBefore_numeral_iff`).
-/

namespace MultiCaret

/-- A character of a word: a letter or digit of any script, `_` or `$`. -/
def isWordPart (c : Char) : Bool :=
  isWordChar c || c == '$'

/-- A character of a word that no name begins with: a digit of ASCII, or a letter or digit outside ASCII. -/
def isLaterWordPart (c : Char) : Bool :=
  c.isDigit || (decide (0x80 ≤ c.toNat) && isLetterOrDigit c)

/-- Digits, at least one. -/
def IsDigits (t : Text) : Prop :=
  t ≠ [] ∧ ∀ c ∈ t, c.isDigit = true

instance (t : Text) : Decidable (IsDigits t) :=
  decidable_of_iff (t ≠ [] ∧ t.all Char.isDigit = true) (by simp [IsDigits])

/-- An exponent without a sign. -/
def IsPlainExponent (t : Text) : Prop :=
  ∃ e ds, (e = 'e' ∨ e = 'E') ∧ IsDigits ds ∧ t = e :: ds

/-- An exponent with a sign. -/
def IsSignedExponent (t : Text) : Prop :=
  ∃ e sign ds, (e = 'e' ∨ e = 'E') ∧ (sign = '+' ∨ sign = '-') ∧ IsDigits ds ∧ t = e :: sign :: ds

/-- A number in three pieces: digits, a fraction or nothing, and an exponent or nothing. -/
structure IsNumeral (whole fraction exponent : Text) : Prop where
  whole : IsDigits whole
  fraction : fraction = [] ∨ ∃ ds, IsDigits ds ∧ fraction = '.' :: ds
  exponent : exponent = [] ∨ IsPlainExponent exponent ∨ IsSignedExponent exponent

/-! ### Characters in front of a name -/

private theorem isWordPart_iff {c : Char} : isWordPart c = true ↔ isNameStart c = true ∨ isLaterWordPart c = true := by
  have hascii : c.isAlphanum = true ↔ c.isAlpha = true ∨ c.isDigit = true := by rw [Char.isAlphanum, Bool.or_eq_true]
  simp only [isWordPart, isWordChar, isNameStart, isLaterWordPart, Bool.or_eq_true, Bool.and_eq_true, decide_eq_true_eq,
    beq_iff_eq]
  constructor
  · rintro ((hletter | hscore) | hdollar)
    · obtain hlow | hhigh := Nat.lt_or_ge c.toNat 0x80
      · rcases hascii.1 (isAlphanum_of_isLetterOrDigit hletter hlow) with halpha | hdigit
        · exact Or.inl (Or.inl (Or.inl halpha))
        · exact Or.inr (Or.inl hdigit)
      · exact Or.inr (Or.inr ⟨hhigh, hletter⟩)
    · exact Or.inl (Or.inl (Or.inr hscore))
    · exact Or.inl (Or.inr hdollar)
  · rintro (((halpha | hscore) | hdollar) | hdigit | ⟨-, hletter⟩)
    · exact Or.inl (Or.inl (isLetterOrDigit_of_isAlphanum (hascii.2 (Or.inl halpha))))
    · exact Or.inl (Or.inr hscore)
    · exact Or.inr hdollar
    · exact Or.inl (Or.inl (isLetterOrDigit_of_isAlphanum (hascii.2 (Or.inr hdigit))))
    · exact Or.inl (Or.inl hletter)

private theorem isWordPart_of_isNameChar {c : Char} (h : isNameChar c = true) : isWordPart c = true := by
  simp only [isNameChar, Bool.or_eq_true] at h
  simp only [isWordPart, isWordChar, Bool.or_eq_true]
  exact h.imp_left (Or.imp_left isLetterOrDigit_of_isAlphanum)

private theorem isNameChar_of_isDigit {c : Char} (h : c.isDigit = true) : isNameChar c = true := by
  rw [isNameChar, Char.isAlphanum, h, Bool.or_true, Bool.true_or, Bool.true_or]

private theorem isNameStart_of_isDigit {c : Char} (h : c.isDigit = true) : isNameStart c = false := by
  delta Char.isDigit at h
  delta isNameStart Char.isAlpha Char.isUpper Char.isLower
  simp only [Bool.and_eq_true, decide_eq_true_eq, ge_iff_le, UInt32.le_iff_toNat_le, Char.toNat_val,
    Char.reduceToNat, Bool.or_eq_false_iff, Bool.and_eq_false_imp, decide_eq_false_iff_not, beq_eq_false_iff_ne] at h ⊢
  refine ⟨⟨⟨?_, ?_⟩, ?_⟩, ?_⟩
  · omega
  · omega
  · rintro rfl
    simp at h
  · rintro rfl
    simp at h

/-- A blank belongs to no word. -/
private theorem isWordPart_of_isBlank {c : Char} (h : isBlank c = true) : isWordPart c = false := by
  have low : ∀ n < 0x21, inRanges wordRanges n = false := by decide +kernel
  have spaces : ∀ n < 11, inRanges wordRanges (0x2000 + n) = false := by decide +kernel
  have others : ∀ n ∈ [0x85, 0xA0, 0x1680, 0x2028, 0x2029, 0x202F, 0x205F, 0x3000], inRanges wordRanges n = false := by
    decide +kernel
  have hrange : inRanges wordRanges c.toNat = false := by
    by_cases hlow : c.toNat < 0x21
    · exact low _ hlow
    · by_cases hspace : c.toNat - 0x2000 < 11 ∧ 0x2000 ≤ c.toNat
      · rw [← Nat.add_sub_cancel' hspace.2]
        exact spaces _ hspace.1
      · refine others _ ?_
        simp only [isBlank, Bool.or_eq_true, Bool.and_eq_true, decide_eq_true_eq, beq_iff_eq] at h
        simp only [List.mem_cons, List.not_mem_nil, or_false]
        omega
  simp only [isWordPart, isWordChar, isLetterOrDigit, hrange, Bool.false_or, Bool.or_eq_false_iff, beq_eq_false_iff_ne]
  constructor
  · rintro rfl
    cases h
  · rintro rfl
    cases h

/-! ### Ends of a dotted name -/

private theorem IsDotted.exists_cons {t : Text} (h : IsDotted t) :
    ∃ c cs, t = c :: cs ∧ isNameStart c = true ∧ continuesName cs = true := by
  have hname := isDottedName_iff.2 h
  cases t with
  | nil => cases hname
  | cons c cs => exact ⟨c, cs, rfl, Bool.and_eq_true_iff.1 hname⟩

/-- A dotted name ends with a name. -/
private theorem IsDotted.exists_name {t : Text} (h : IsDotted t) : ∃ n, IsName n ∧ n <:+ t := by
  obtain ⟨names, hne, hnames, rfl⟩ := h
  induction names with
  | nil => exact absurd rfl hne
  | cons n names ih =>
    obtain ⟨hn, hnames'⟩ := List.forall_mem_cons.1 hnames
    cases names with
    | nil => exact ⟨n, hn, List.suffix_refl n⟩
    | cons m ms =>
      obtain ⟨k, hk, hsuffix⟩ := ih (List.cons_ne_nil m ms) hnames'
      exact ⟨k, hk, hsuffix.trans ⟨n ++ ['.'], by simp [joinWith]⟩⟩

private theorem IsDotted.getLast {t : Text} (h : IsDotted t) : ∃ c ∈ t.getLast?, isNameChar c = true := by
  obtain ⟨n, hn, front, rfl⟩ := h.exists_name
  cases n with
  | nil => exact hn.elim
  | cons c cs =>
    have hlast : (front ++ c :: cs).getLast? = some ((c :: cs).getLast (List.cons_ne_nil c cs)) := by
      rw [List.getLast?_append_of_ne_nil _ (List.cons_ne_nil c cs), List.getLast?_eq_some_getLast]
    exact ⟨_, hlast, hn.isNameChar _ (List.getLast_mem _)⟩

/-- In front of the longest dotted name at the end of a text stands nothing that begins a name. -/
theorem LongestEnd.not_isNameStart {head name : Text} (h : LongestEnd IsDotted (head ++ name) name) :
    ∀ c ∈ head.getLast?, isNameStart c = false := by
  intro c hc
  obtain ⟨front, rfl⟩ := List.getLast?_eq_some_iff.1 hc
  obtain ⟨d, ds, rfl, hd, hds⟩ := h.holds.exists_cons
  refine Bool.eq_false_iff.2 fun hstart => ?_
  have hlonger : IsDotted (c :: d :: ds) := by
    have hcontinues : continuesName ([d] ++ ds) = true := by
      rw [continuesName_append fun x hx => List.mem_singleton.1 hx ▸ isNameChar_of_isNameStart hd, hds]
    exact isDottedName_iff.1 (Bool.and_eq_true_iff.2 ⟨hstart, hcontinues⟩)
  have hlen := h.longest (c :: d :: ds) ⟨front, by simp⟩ hlonger
  exact absurd hlen (Nat.not_succ_le_self _)

/-! ### Numbers -/

private theorem not_isName_of_isDigit {c : Char} {cs : Text} (h : c.isDigit = true) : ¬ IsName (c :: cs) := by
  rintro ⟨hstart, -⟩
  rw [isNameStart_of_isDigit h] at hstart
  cases hstart

/-- No dotted name ends with digits that do not follow a character of a name. -/
private theorem not_isDotted_digits {front ds w : Text} (hfront : ∀ c ∈ front.getLast?, isNameChar c = false)
    (hds : IsDigits ds) (hw : w <:+ front ++ ds) : ¬ IsDotted w := by
  intro hdotted
  obtain ⟨n, hn, hsuffix⟩ := hdotted.exists_name
  rcases List.suffix_or_suffix_of_suffix (hsuffix.trans hw) (List.suffix_append front ds) with hinside | hreaches
  · cases n with
    | nil => exact hn.elim
    | cons c cs => exact not_isName_of_isDigit (hds.2 c (hinside.subset List.mem_cons_self)) hn
  · obtain ⟨m, rfl⟩ := hreaches
    obtain ⟨z, hz⟩ := hsuffix.trans hw
    rw [← List.append_assoc, List.append_cancel_right_eq] at hz
    obtain rfl | ⟨u, c, rfl⟩ := List.eq_nil_or_concat' m
    · cases ds with
      | nil => exact hds.1 rfl
      | cons c cs => exact not_isName_of_isDigit (hds.2 c List.mem_cons_self) hn
    · have hchar := hn.isNameChar c (by simp)
      rw [hfront c (by simp [← hz])] at hchar
      cases hchar

/-- A text that ends with a number in three pieces, the exponent last, and no character of a name in front of it. -/
def EndsWithNumeral (t exponent : Text) : Prop :=
  ∃ front whole fraction, t = front ++ whole ++ fraction ++ exponent ∧ IsNumeral whole fraction exponent ∧
    ∀ c ∈ front.getLast?, isNameChar c = false

/-- The last digits of a number: only an exponent without a sign has a character of a name in front of them. -/
private theorem EndsWithNumeral.exists_digits {t exponent : Text} (h : EndsWithNumeral t exponent) :
    ∃ front ds, t = front ++ ds ∧ IsDigits ds ∧
      (IsPlainExponent exponent ∨ ∀ c ∈ front.getLast?, isNameChar c = false) := by
  obtain ⟨front, whole, fraction, rfl, hnumeral, hfront⟩ := h
  rcases hnumeral.exponent with rfl | ⟨e, ds, he, hds, rfl⟩ | ⟨e, sign, ds, he, hsign, hds, rfl⟩
  · rcases hnumeral.fraction with rfl | ⟨ds, hds, rfl⟩
    · exact ⟨front, whole, by simp, hnumeral.whole, Or.inr hfront⟩
    · refine ⟨front ++ whole ++ ['.'], ds, by simp, hds, Or.inr fun c hc => ?_⟩
      rw [List.getLast?_concat, Option.mem_some_iff] at hc
      exact hc ▸ rfl
  · exact ⟨front ++ whole ++ fraction ++ [e], ds, by simp, hds, Or.inl ⟨e, ds, he, hds, rfl⟩⟩
  · refine ⟨front ++ whole ++ fraction ++ [e, sign], ds, by simp, hds, Or.inr fun c hc => ?_⟩
    obtain rfl : sign = c := by simpa using hc
    rcases hsign with rfl | rfl <;> rfl

private theorem trimEnd_append_digits {front ds : Text} (h : IsDigits ds) : trimEnd (front ++ ds) = front ++ ds := by
  have hlast : ∀ c ∈ (front ++ ds).getLast?, isBlank c = false := by
    rw [List.getLast?_append_of_ne_nil _ h.1]
    exact fun c hc => isBlank_of_isNameChar (isNameChar_of_isDigit (h.2 c (List.mem_of_mem_getLast? hc)))
  have hne : front ++ ds ≠ [] := List.append_ne_nil_of_right_ne_nil front h.1
  have htrim := trimEnd_append_blanks hne hlast (show isBlankText [] = true from rfl)
  rw [List.append_nil] at htrim
  exact htrim.1

/-- Directly behind a number a property name is found exactly if the number has an exponent without a sign. -/
theorem exists_propertyBefore_numeral_iff {l exponent : Text} {column : Int}
    (h : EndsWithNumeral (upTo l column) exponent) :
    (∃ name, propertyBefore? l column = some name) ↔ IsPlainExponent exponent := by
  have hfound := found_propertyBefore? l column
  obtain ⟨front, ds, heq, hds, hcases⟩ := h.exists_digits
  have hcore : trimEnd (upTo l column) = upTo l column := by rw [heq, trimEnd_append_digits hds]
  constructor
  · rintro ⟨name, hname⟩
    refine hcases.resolve_right fun hfront => ?_
    have hnone : propertyBefore? l column = none := by
      refine hfound.none_iff.2 ⟨?_, ?_⟩
      · rintro ⟨pre, quoted, hends⟩
        have hlast : '"' ∈ (front ++ ds).getLast? := by
          rw [← heq, ← hcore, hends.text_eq, List.getLast?_concat]
          rfl
        rw [List.getLast?_append_of_ne_nil _ hds.1] at hlast
        cases hds.2 _ (List.mem_of_mem_getLast? hlast)
      · rintro ⟨w, hsuffix, hw⟩
        rw [hcore, heq] at hsuffix
        exact not_isDotted_digits hfront hds hsuffix hw
    rw [hnone] at hname
    cases hname
  · intro hplain
    rw [← Option.isSome_iff_exists, ← Option.ne_none_iff_isSome, ne_eq, hfound.none_iff]
    rintro ⟨-, hno⟩
    obtain ⟨front, whole, fraction, htext, -, -⟩ := h
    obtain ⟨e, es, he, hes, rfl⟩ := hplain
    refine hno ⟨e :: es, ?_, [e :: es], List.cons_ne_nil _ _, ?_, rfl⟩
    · rw [hcore, htext]
      exact List.suffix_append _ _
    · refine fun n hn => List.mem_singleton.1 hn ▸ ⟨?_, fun d hd => isNameChar_of_isDigit (hes.2 d hd)⟩
      rcases he with rfl | rfl <;> rfl

/-! ### Quotes and words -/

/-- The cut between two texts goes through a word. -/
def PartsWord (left right : Text) : Prop :=
  ∃ c ∈ left.getLast?, ∃ d ∈ right.head?, isWordPart c = true ∧ isWordPart d = true

/-- Where quotes around a bare name part a word.  The opening quote does exactly if the name begins inside the word, which
takes a digit or a letter outside ASCII in front of it; the closing quote does exactly if the cursor itself is inside
the word. -/
structure QuotesPart (head token blanks tail : Text) : Prop where
  opening : PartsWord head (token ++ blanks ++ tail) ↔ ∃ c ∈ head.getLast?, isLaterWordPart c = true
  closing : PartsWord (head ++ token) (blanks ++ tail) ↔ blanks = [] ∧ ∃ c ∈ tail.head?, isWordPart c = true

theorem LongestEnd.quotesPart {head token blanks tail : Text} (h : LongestEnd IsDotted (head ++ token) token)
    (hblanks : isBlankText blanks = true) : QuotesPart head token blanks tail := by
  have hstart := h.not_isNameStart
  constructor
  · obtain ⟨d, ds, rfl, hd, -⟩ := h.holds.exists_cons
    constructor
    · rintro ⟨c, hc, -, -, hword, -⟩
      refine ⟨c, hc, (isWordPart_iff.1 hword).resolve_left ?_⟩
      rw [hstart c hc]
      exact Bool.false_ne_true
    · rintro ⟨c, hc, hlater⟩
      exact ⟨c, hc, d, rfl, isWordPart_iff.2 (Or.inr hlater), isWordPart_iff.2 (Or.inl hd)⟩
  · have hlast := List.getLast?_append_of_ne_nil head h.holds.ne_nil
    constructor
    · rintro ⟨-, -, d, hd, -, hword⟩
      cases blanks with
      | nil => exact ⟨rfl, d, hd, hword⟩
      | cons b bs =>
        obtain rfl : b = d := Option.some.inj hd
        rw [isWordPart_of_isBlank (List.all_eq_true.1 hblanks b List.mem_cons_self)] at hword
        cases hword
    · rintro ⟨rfl, d, hd, hword⟩
      obtain ⟨c, hc, hchar⟩ := h.holds.getLast
      exact ⟨c, hlast ▸ hc, d, hd, isWordPart_of_isNameChar hchar, hword⟩

/-- What is found in front of a column is what is found in front of the place that the column names. -/
private theorem propertyBefore?_cutAt (l : Text) (column : Int) :
    propertyBefore? l (min (cutAt l.length column : Int) l.length) = propertyBefore? l column := by
  have hupTo : upTo l (min (cutAt l.length column : Int) l.length) = upTo l column := by
    rw [upTo_min, upTo_natCast, upTo]
  rw [propertyBefore?, hupTo, propertyBefore?]

private theorem propertyBefore?_not_isNameStart {l : Text} {column : Int} {name : PropertyName}
    (h : propertyBefore? l column = some name) (hbare : name.quoted = false) :
    ∀ c ∈ (l.take name.start).getLast?, isNameStart c = false := by
  rw [← propertyBefore?_cutAt] at h
  obtain ⟨head, blanks, hcuts⟩ := exists_cuts (Int.natCast_nonneg _) h
  have hhead : l.take name.start = head := by
    rw [hcuts.line_eq, hcuts.start_eq, List.append_assoc, List.append_assoc, List.take_left]
  rw [hhead]
  exact (hcuts.longest hbare).not_isNameStart

namespace Recorder

/-- Directly behind a number there is a name to be completed exactly if the number has an exponent without a sign, unless
the key is off or has nothing to do there. -/
private theorem exists_completes_numeral_iff {r : Recorder} {p : Position} {exponent : Text}
    (hsel : r.selections = [.caret p]) (hon : r.settings.separatorQuotesKey = true)
    (h : EndsWithNumeral (upTo (lineOf r.document.lines p.line) p.column) exponent) :
    (∃ name, SmartKey.Completes r.scene p name) ↔ IsPlainExponent exponent ∧
      isStructured r.document.language = true ∧ HasLine r.document.lines p.line ∧
      separatorFollows (lineOf r.document.lines p.line) p.column = false := by
  have hfollows : separatorFollows (lineOf r.document.lines p.line) p.column =
      separatorFollows (lineOf r.document.lines p.line) (min p.column (lineOf r.document.lines p.line).length) := by
    rw [separatorFollows, separatorFollows, onward_min]
  rw [← upTo_min] at h
  rw [← exists_propertyBefore_numeral_iff h, hfollows]
  constructor
  · rintro ⟨name, hc⟩
    exact ⟨⟨name, hc.name_eq⟩, hc.structured, hc.hasLine, hc.alone⟩
  · rintro ⟨⟨name, hname⟩, hstruct, hline, halone⟩
    exact ⟨name, hsel, hstruct, by simp [scene, hon], hline, halone, hname⟩

/-- For every line and column: the character in front of a bare name that is found is no letter of ASCII, no `_` and no
`$`, so it belongs to a word only if it is a digit or a character outside ASCII.  Where the separator key puts a bare name
in quotes there, it parts a word only if the name begins behind such a character, or the cursor itself is inside the word;
and directly behind a number it acts only if the number has an exponent without a sign. -/
theorem press_separator_words (l : Text) (column : Int) :
    (∀ name, propertyBefore? l column = some name → name.quoted = false → ∀ c ∈ (l.take name.start).getLast?,
      isNameStart c = false ∧ (isWordPart c = true ↔ isLaterWordPart c = true)) ∧
    ∀ (r : Recorder) (n : Int), WellFormed r.document.lines → lineOf r.document.lines n = l →
      r.selections = [.caret ⟨n, column⟩] → 0 ≤ column → r.settings.separatorQuotesKey = true →
      ∃ r' handled, r.press .separator = .ok (r', handled) ∧
        (handled = false → r'.document = r.document) ∧
        (handled = true → ∃ (name : PropertyName) (head blanks tail : Text),
          SmartKey.Completes r.scene ⟨n, column⟩ name ∧ name.Cuts l column head blanks tail ∧
          r'.document.lines = r.document.lines.set n.toNat
            (head ++ (if name.quoted then name.token else '"' :: name.token ++ ['"']) ++ separatorText r.settings ++ tail) ∧
          (name.quoted = false → QuotesPart head name.token blanks tail)) ∧
        ∀ exponent, EndsWithNumeral (upTo l column) exponent →
          (handled = true ↔ IsPlainExponent exponent ∧ isStructured r.document.language = true ∧
            HasLine r.document.lines n ∧ separatorFollows l column = false) := by
  constructor
  · intro name hname hbare c hc
    have hstart := propertyBefore?_not_isNameStart hname hbare c hc
    rw [isWordPart_iff, hstart]
    simp
  · rintro r n hwf rfl hsel hcol hon
    rcases press_separator hwf hsel hcol with
      ⟨r', hpress, hdoc, hnone⟩ | ⟨r', name, head, blanks, tail, hpress, hcompletes, hcuts, hlines, -⟩
    · refine ⟨r', false, hpress, fun _ => hdoc, fun h => absurd h Bool.false_ne_true, fun exponent h => ?_⟩
      rw [← exists_completes_numeral_iff hsel hon h]
      exact iff_of_false Bool.false_ne_true hnone
    · refine ⟨r', true, hpress, fun h => absurd h.symm Bool.false_ne_true, fun _ => ?_, fun exponent h => ?_⟩
      · refine ⟨name, head, blanks, tail, hcompletes, hcuts, ?_, fun hbare =>
          (hcuts.longest hbare).quotesPart hcuts.blank⟩
        rw [hlines, SmartKey.completion, SmartKey.keyText_eq hcuts, ← List.append_assoc]
        cases name.quoted <;> simp [hon, separatorText]
      · rw [← exists_completes_numeral_iff hsel hon h]
        exact iff_of_true rfl ⟨name, hcompletes⟩

/-- A number with an exponent, and the cursor behind it. -/
def exponentKey : Recorder :=
  ofText "-2.5e3".toList "json".toList [.caret ⟨0, 6⟩]

theorem press_separator_words_exponent :
    ∃ r', exponentKey.press .separator = .ok (r', true) ∧ r'.document.lines = ["-2.5\"e3\": ".toList] ∧
      propertyBefore? "-2.5e3".toList 6 = some ⟨"e3".toList, false, 4, 6, 0⟩ ∧
      (∀ c ∈ ("-2.5e3".toList.take 4).getLast?, isNameStart c = false) ∧
      (∃ head blanks tail, r'.document.lines = [head ++ "\"e3\"".toList ++ ": ".toList ++ tail] ∧
        QuotesPart head "e3".toList blanks tail) ∧
      EndsWithNumeral "-2.5e3".toList "e3".toList ∧ IsPlainExponent "e3".toList := by
  have hwf : WellFormed exponentKey.document.lines := wellFormed_splitLines _
  have hname : propertyBefore? "-2.5e3".toList 6 = some ⟨"e3".toList, false, 4, 6, 0⟩ := by decide +kernel
  have hends : EndsWithNumeral "-2.5e3".toList "e3".toList := by
    refine ⟨"-".toList, "2".toList, ".5".toList, rfl, ⟨?_, Or.inr ⟨"5".toList, ?_, rfl⟩, Or.inr (Or.inl ?_)⟩, ?_⟩
    · decide
    · decide
    · exact ⟨'e', "3".toList, Or.inl rfl, by decide, rfl⟩
    · exact fun c hc => Option.some.inj hc ▸ rfl
  obtain ⟨hbefore, hkey⟩ := press_separator_words "-2.5e3".toList 6
  obtain ⟨r', handled, hpress, -, hdone, hnumber⟩ := hkey exponentKey 0 hwf rfl rfl (by decide) rfl
  have h : exponentKey.press .separator = .ok ({ exponentKey with
      document := ⟨["-2.5\"e3\": ".toList], "doc", "json".toList, 1⟩
      selections := [.caret ⟨0, 10⟩]
      revealed := [⟨0, 10⟩] }, true) := by rfl
  obtain ⟨rfl, rfl⟩ := Prod.mk.inj (Except.ok.inj (hpress.symm.trans h))
  obtain ⟨name, head, blanks, tail, hcompletes, -, hlines, hparts⟩ := hdone rfl
  obtain rfl := Option.some.inj (hname.symm.trans hcompletes.name_eq)
  exact ⟨_, h, rfl, hname, fun c hc => (hbefore _ hname rfl c hc).1, ⟨head, blanks, tail, hlines, hparts rfl⟩, hends,
    ((hnumber _ hends).1 rfl).1⟩

/-- A character of a word may stand in front of a bare name that is found: in `1e5` the name is `e5`. -/
theorem not_isWordPart_before :
    ¬ ∀ (l : Text) (column : Int) (name : PropertyName), propertyBefore? l column = some name → name.quoted = false →
      ∀ c ∈ (l.take name.start).getLast?, isWordPart c = false := by
  intro h
  have hname : propertyBefore? "1e5".toList 3 = some ⟨"e5".toList, false, 1, 3, 0⟩ := by decide +kernel
  have hdigit := h _ _ _ hname rfl '1' rfl
  rw [isWordPart_of_isNameChar (by decide)] at hdigit
  cases hdigit

end Recorder

end MultiCaret
