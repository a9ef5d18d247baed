import Mathlib.Data.List.TakeWhile
import MultiCaret.KeyedLine.Search
import MultiCaret.Proofs.Text.Pattern

/-!
# Names in front of the cursor

A dotted name is a sequence of names with dots between them (`isDottedName_iff`), and this is what its pattern describes
(`mem_language_dottedName`).  It holds no blanks.  A quoted name at the end of a text is determined by the text
(`quotedAtEnd?_eq_some_iff`), since there is no quote in it.
-/

namespace MultiCaret

/-- A letter, `_` or `$`, and then any number of these and of digits. -/
def IsName : Text → Prop
  | [] => False
  | c :: cs => isNameStart c = true ∧ ∀ d ∈ cs, isNameChar d = true

/-- Names with dots between them. -/
def IsDotted (t : Text) : Prop :=
  ∃ names : List Text, names ≠ [] ∧ (∀ n ∈ names, IsName n) ∧ t = joinWith '.' names

/-- The text ends with a name in quotes. -/
structure EndsQuoted (t pre name : Text) : Prop where
  text_eq : t = pre ++ '"' :: name ++ ['"']
  ne_nil : name ≠ []
  no_quote : '"' ∉ name

/-! ### Characters of a name -/

theorem isNameChar_of_isNameStart {c : Char} (h : isNameStart c = true) : isNameChar c = true := by
  simp only [isNameStart, isNameChar, Char.isAlphanum, Bool.or_eq_true] at h ⊢
  tauto

theorem isBlank_of_isNameChar {c : Char} (h : isNameChar c = true) : isBlank c = false := by
  have halnum : c.isAlphanum = true → ¬ isBlank c = true := by
    intro h
    delta Char.isAlphanum Char.isAlpha Char.isUpper Char.isLower Char.isDigit at h
    simp only [Bool.or_eq_true, Bool.and_eq_true, decide_eq_true_eq, ge_iff_le, UInt32.le_iff_toNat_le, Char.toNat_val,
      Char.reduceToNat] at h
    simp only [isBlank, Bool.or_eq_true, Bool.and_eq_true, decide_eq_true_eq, beq_iff_eq]
    omega
  simp only [isNameChar, Bool.or_eq_true, beq_iff_eq] at h
  rcases h with (h | rfl) | rfl
  · exact Bool.eq_false_iff.2 (halnum h)
  · rfl
  · rfl

private theorem ne_dot_of_isNameChar {c : Char} (h : isNameChar c = true) : c ≠ '.' := by
  rintro rfl
  cases h

/-! ### Dotted names -/

private theorem joinWith_cons_eq_flatten (sep : Char) (l : Text) (ls : List Text) :
    joinWith sep (l :: ls) = l ++ (ls.map (sep :: ·)).flatten := by
  induction ls generalizing l with
  | nil => simp [joinWith]
  | cons m ms ih => rw [joinWith, ih, List.map_cons, List.flatten_cons, List.cons_append]

theorem continuesName_append {cs : Text} (h : ∀ c ∈ cs, isNameChar c = true) (t : Text) :
    continuesName (cs ++ t) = continuesName t := by
  induction cs with
  | nil => rfl
  | cons c cs ih =>
    obtain ⟨hc, hcs⟩ := List.forall_mem_cons.1 h
    rw [List.cons_append, continuesName.eq_3 _ _ fun d ds hdot => absurd hdot (ne_dot_of_isNameChar hc), hc,
      Bool.true_and, ih hcs]

/-- What may follow a name: characters of it, and then names with a dot in front of each. -/
private theorem continuesName_iff {t : Text} :
    continuesName t = true ↔ ∃ (cs : Text) (names : List Text), (∀ c ∈ cs, isNameChar c = true) ∧
      (∀ n ∈ names, IsName n) ∧ t = cs ++ (names.map ('.' :: ·)).flatten := by
  constructor
  · intro h
    fun_induction continuesName t with
    | case1 => exact ⟨[], [], by simp, by simp, rfl⟩
    | case2 c t ih =>
      obtain ⟨hc, ht⟩ := Bool.and_eq_true_iff.1 h
      obtain ⟨cs, names, hcs, hnames, rfl⟩ := ih ht
      exact ⟨[], (c :: cs) :: names, by simp, List.forall_mem_cons.2 ⟨⟨hc, hcs⟩, hnames⟩, rfl⟩
    | case3 c t _ ih =>
      obtain ⟨hc, ht⟩ := Bool.and_eq_true_iff.1 h
      obtain ⟨cs, names, hcs, hnames, rfl⟩ := ih ht
      exact ⟨c :: cs, names, List.forall_mem_cons.2 ⟨hc, hcs⟩, hnames, rfl⟩
  · rintro ⟨cs, names, hcs, hnames, rfl⟩
    rw [continuesName_append hcs]
    induction names with
    | nil => rfl
    | cons n names ih =>
      obtain ⟨hn, hnames'⟩ := List.forall_mem_cons.1 hnames
      cases n with
      | nil => exact hn.elim
      | cons d ds =>
        obtain ⟨hd, hds⟩ := hn
        simp only [List.map_cons, List.flatten_cons, List.cons_append, continuesName, hd, Bool.true_and,
          continuesName_append hds]
        exact ih hnames'

theorem isDottedName_iff {t : Text} : isDottedName t = true ↔ IsDotted t := by
  constructor
  · intro h
    cases t with
    | nil => cases h
    | cons c t =>
      obtain ⟨hc, ht⟩ := Bool.and_eq_true_iff.1 h
      obtain ⟨cs, names, hcs, hnames, rfl⟩ := continuesName_iff.1 ht
      refine ⟨(c :: cs) :: names, List.cons_ne_nil _ _, List.forall_mem_cons.2 ⟨⟨hc, hcs⟩, hnames⟩, ?_⟩
      rw [joinWith_cons_eq_flatten, List.cons_append]
  · rintro ⟨names, hne, hnames, rfl⟩
    match names, hne with
    | [] :: names, _ => exact (hnames [] List.mem_cons_self).elim
    | (c :: cs) :: names, _ =>
      obtain ⟨⟨hc, hcs⟩, hnames'⟩ := List.forall_mem_cons.1 hnames
      rw [joinWith_cons_eq_flatten, List.cons_append, isDottedName, hc, Bool.true_and]
      exact continuesName_iff.2 ⟨cs, names, hcs, hnames', rfl⟩

theorem IsDotted.ne_nil {t : Text} (h : IsDotted t) : t ≠ [] := by
  rintro rfl
  cases isDottedName_iff.2 h

theorem IsName.isNameChar {n : Text} (h : IsName n) : ∀ c ∈ n, isNameChar c = true := by
  cases n with
  | nil => exact h.elim
  | cons c cs => exact List.forall_mem_cons.2 ⟨isNameChar_of_isNameStart h.1, h.2⟩

/-- A dotted name holds no blanks. -/
theorem IsDotted.not_isBlank {t : Text} (h : IsDotted t) : ∀ c ∈ t, isBlank c = false := by
  obtain ⟨names, hne, hnames, rfl⟩ := h
  intro c hc
  cases names with
  | nil => exact absurd rfl hne
  | cons n names =>
    obtain ⟨hn, hnames'⟩ := List.forall_mem_cons.1 hnames
    rw [joinWith_cons_eq_flatten, List.mem_append, List.mem_flatten] at hc
    rcases hc with hc | ⟨m, hm, hc⟩
    · exact isBlank_of_isNameChar (hn.isNameChar c hc)
    · obtain ⟨n', hn', rfl⟩ := List.mem_map.1 hm
      rcases List.mem_cons.1 hc with rfl | hc
      · rfl
      · exact isBlank_of_isNameChar ((hnames' n' hn').isNameChar c hc)

private theorem mem_language_name {t : Text} : t ∈ Pattern.name.language ↔ IsName t := by
  rw [Pattern.name, Pattern.mem_language_andThen]
  constructor
  · rintro ⟨x, ⟨c, rfl, hc⟩, cs, hcs, rfl⟩
    exact ⟨hc, Pattern.mem_language_many_one.1 hcs⟩
  · intro h
    cases t with
    | nil => exact h.elim
    | cons c cs => exact ⟨[c], ⟨c, rfl, h.1⟩, cs, Pattern.mem_language_many_one.2 h.2, rfl⟩

theorem mem_language_dottedName {t : Text} : t ∈ Pattern.dottedName.language ↔ IsDotted t := by
  have hdot : ∀ x : Text, x ∈ ((Pattern.one (· == '.')).andThen Pattern.name).language ↔ ∃ n, IsName n ∧ '.' :: n = x := by
    intro x
    rw [Pattern.mem_language_andThen]
    constructor
    · rintro ⟨y, ⟨c, rfl, hc⟩, n, hn, rfl⟩
      obtain rfl := beq_iff_eq.1 hc
      exact ⟨n, mem_language_name.1 hn, rfl⟩
    · rintro ⟨n, hn, rfl⟩
      exact ⟨['.'], ⟨'.', rfl, rfl⟩, n, mem_language_name.2 hn, rfl⟩
  rw [Pattern.dottedName, Pattern.mem_language_andThen]
  constructor
  · rintro ⟨n, hn, y, hy, rfl⟩
    obtain ⟨xs, hflat, hxs⟩ := Pattern.mem_language_many.1 hy
    clear hy
    subst hflat
    have hnames : ∃ names : List Text, xs = names.map ('.' :: ·) ∧ ∀ m ∈ names, IsName m := by
      induction xs with
      | nil => exact ⟨[], rfl, by simp⟩
      | cons x xs ih =>
        obtain ⟨hx, hxs'⟩ := List.forall_mem_cons.1 hxs
        obtain ⟨m, hm, rfl⟩ := (hdot x).1 hx
        obtain ⟨names, rfl, hnames⟩ := ih hxs'
        exact ⟨m :: names, rfl, List.forall_mem_cons.2 ⟨hm, hnames⟩⟩
    obtain ⟨names, rfl, hnames⟩ := hnames
    refine ⟨n :: names, List.cons_ne_nil _ _, List.forall_mem_cons.2 ⟨mem_language_name.1 hn, hnames⟩, ?_⟩
    rw [joinWith_cons_eq_flatten]
  · rintro ⟨names, hne, hnames, rfl⟩
    cases names with
    | nil => exact absurd rfl hne
    | cons n names =>
      obtain ⟨hn, hnames'⟩ := List.forall_mem_cons.1 hnames
      refine ⟨n, mem_language_name.2 hn, (names.map ('.' :: ·)).flatten, ?_, (joinWith_cons_eq_flatten _ _ _).symm⟩
      refine Pattern.mem_language_many.2 ⟨_, rfl, fun x hx => ?_⟩
      obtain ⟨m, hm, rfl⟩ := List.mem_map.1 hx
      exact (hdot _).2 ⟨m, hnames' m hm, rfl⟩

/-! ### Quoted names -/

/-- A text cut at its first quote. -/
private theorem span_quote_eq_iff {t x : Text} {c : Char} {u : Text} :
    t.span (· != '"') = (x, c :: u) ↔ c = '"' ∧ t = x ++ '"' :: u ∧ '"' ∉ x := by
  rw [List.span_eq_takeWhile_dropWhile, Prod.mk.injEq]
  constructor
  · rintro ⟨rfl, hdrop⟩
    have hc : c = '"' := by
      have := List.head_dropWhile_not (· != '"') (show t.dropWhile (· != '"') ≠ [] by simp [hdrop])
      simpa [hdrop] using this
    refine ⟨hc, ?_, fun hmem => ?_⟩
    · rw [hc] at hdrop
      rw [← hdrop, List.takeWhile_append_dropWhile]
    · simpa using List.mem_takeWhile_imp hmem
  · rintro ⟨rfl, rfl, hx⟩
    have hall : ∀ d ∈ x, (d != '"') = true := by
      intro d hd
      simp only [bne_iff_ne]
      rintro rfl
      exact hx hd
    rw [List.takeWhile_append_of_pos hall, List.dropWhile_append_of_pos hall]
    simp

theorem quotedAtEnd?_eq_some_iff {t name : Text} : quotedAtEnd? t = some name ↔ ∃ pre, EndsQuoted t pre name := by
  constructor
  · intro h
    unfold quotedAtEnd? at h
    split at h
    · next rest hrev =>
      split at h
      · cases h
      · cases h
      · next x c u hne hspan =>
        obtain ⟨rfl, rfl, hx⟩ := span_quote_eq_iff.1 hspan
        obtain rfl := Option.some.inj h
        refine ⟨u.reverse, ?_, ?_, ?_⟩
        · rw [← t.reverse_reverse, hrev]
          simp
        · intro hnil
          exact hne (List.reverse_eq_nil_iff.1 hnil)
        · simpa using hx
    · cases h
  · rintro ⟨pre, rfl, hne, hno⟩
    have hrev : (pre ++ '"' :: name ++ ['"']).reverse = '"' :: (name.reverse ++ '"' :: pre.reverse) := by simp
    have hspan : (name.reverse ++ '"' :: pre.reverse).span (· != '"') = (name.reverse, '"' :: pre.reverse) :=
      span_quote_eq_iff.2 ⟨rfl, rfl, by simpa using hno⟩
    unfold quotedAtEnd?
    rw [hrev]
    simp only [hspan]
    cases hname : name.reverse with
    | nil => exact absurd (List.reverse_eq_nil_iff.1 hname) hne
    | cons c cs => simp [← hname]

/-- A quoted name at the end is determined by the text. -/
theorem EndsQuoted.unique {t pre pre' name name' : Text} (h : EndsQuoted t pre name) (h' : EndsQuoted t pre' name') :
    name = name' ∧ pre = pre' := by
  have hname : name = name' := by
    have hsome := quotedAtEnd?_eq_some_iff.2 ⟨pre, h⟩
    rw [quotedAtEnd?_eq_some_iff.2 ⟨pre', h'⟩] at hsome
    exact (Option.some.inj hsome).symm
  have htext := h.text_eq.symm.trans h'.text_eq
  rw [hname, List.append_cancel_right_eq, List.append_cancel_right_eq] at htext
  exact ⟨hname, htext⟩

theorem EndsQuoted.length_eq {t pre name : Text} (h : EndsQuoted t pre name) : t.length = pre.length + name.length + 2 := by
  rw [h.text_eq]
  simp
  omega

end MultiCaret
