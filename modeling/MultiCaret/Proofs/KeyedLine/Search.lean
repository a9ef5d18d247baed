import MultiCaret.Proofs.KeyedLine.Names

/-!
# The property name in front of the cursor

Each of the two searches for a property name cuts the text in front of the cursor into a token and the blanks behind it
(`CutsToken`), so it finds the longest token that the text without these blanks ends with (`search?_token`).  A dotted
name is such a token, and a quoted one is the only one that may end there.  So the searches find what the ends of the text
say directly.
-/

namespace MultiCaret

/-! ### Blanks behind a text -/

private theorem trimEnd_drop (t : Text) (k : Nat) : trimEnd (t.drop k) = (trimEnd t).drop k := by
  induction t generalizing k with
  | nil => simp [trimEnd]
  | cons c cs ih =>
    cases k with
    | zero => rfl
    | succ k =>
      rw [List.drop_succ_cons, ih]
      by_cases h : trimEnd cs = []
      · cases hc : isBlank c <;> simp [trimEnd, h, hc]
      · rw [trimEnd_cons_of_ne_nil h, List.drop_succ_cons]

private theorem trailingBlanks_drop {t : Text} {k : Nat} (hk : k ≤ (trimEnd t).length) :
    trailingBlanks (t.drop k) = trailingBlanks t := by
  rw [trailingBlanks, trimEnd_drop, List.length_drop, List.drop_drop, Nat.add_sub_cancel' hk]
  rfl

private theorem trimEnd_append_cons {c : Char} (hc : isBlank c = false) (t : Text) {blanks : Text}
    (hblanks : isBlankText blanks = true) : trimEnd (t ++ c :: blanks) = t ++ [c] := by
  induction t with
  | nil =>
    rw [List.nil_append, trimEnd, trimEnd_eq_nil_iff.2 hblanks]
    simp [hc]
  | cons d t ih =>
    rw [List.cons_append, trimEnd_cons_of_ne_nil (by simp [ih]), ih, List.cons_append]

/-- A text that ends with no blank, and blanks behind it. -/
theorem trimEnd_append_blanks {t blanks : Text} (hne : t ≠ []) (hlast : ∀ c ∈ t.getLast?, isBlank c = false)
    (hblanks : isBlankText blanks = true) : trimEnd (t ++ blanks) = t ∧ trailingBlanks (t ++ blanks) = blanks := by
  have htrim : trimEnd (t ++ blanks) = t := by
    obtain ⟨u, c, rfl⟩ := (List.eq_nil_or_concat' t).resolve_left hne
    rw [List.append_assoc, List.singleton_append, trimEnd_append_cons (hlast c (by simp)) u hblanks]
  rw [trailingBlanks, htrim, List.drop_left]
  exact ⟨rfl, rfl⟩

private theorem mem_language_blanks {t : Text} : t ∈ Pattern.blanks.language ↔ isBlankText t = true := by
  rw [Pattern.blanks, Pattern.mem_language_many_one, isBlankText, List.all_eq_true]

/-! ### Tokens at the end -/

/-- The patterns cut a text into a token, given by its pieces, and the blanks behind it. -/
structure CutsToken (ps : List Pattern) (token : Text → Prop) (pieces : Text → List Text) : Prop where
  ne_nil : ¬ token []
  cuts : ∀ t, '\n' ∉ t → ∀ xs, xs ∈ cutsToEnd ps t ↔ token (trimEnd t) ∧ xs = pieces (trimEnd t) ++ [trailingBlanks t]

/-- The search finds the longest token that a text ends with, whatever blanks stand behind it. -/
theorem search?_token {ps : List Pattern} {token : Text → Prop} {pieces : Text → List Text}
    (h : CutsToken ps token pieces) {t : Text} (ht : '\n' ∉ t) {k : Nat} {xs : List Text} :
    search? ps t = some (k, xs) ↔ ∃ w, LongestEnd token (trimEnd t) w ∧ k = (trimEnd t).length - w.length ∧
      xs = pieces w ++ [trailingBlanks t] := by
  have hdrop : ∀ j, '\n' ∉ t.drop j := fun j hmem => ht (List.mem_of_mem_drop hmem)
  have hcuts : ∀ j xs, xs ∈ cutsToEnd ps (t.drop j) ↔ token ((trimEnd t).drop j) ∧
      xs = pieces ((trimEnd t).drop j) ++ [trailingBlanks (t.drop j)] := by
    intro j xs
    rw [h.cuts _ (hdrop j), trimEnd_drop]
  have hlt : ∀ j, token ((trimEnd t).drop j) → j < (trimEnd t).length := by
    intro j hj
    by_contra hge
    rw [List.drop_eq_nil_of_le (Nat.not_lt.1 hge)] at hj
    exact h.ne_nil hj
  have hle := length_trimEnd_le t
  rw [search?_eq_some_iff]
  constructor
  · rintro ⟨-, hhead, hfirst⟩
    obtain ⟨htoken, rfl⟩ := (hcuts k xs).1 (List.mem_of_mem_head? hhead)
    have hk := hlt k htoken
    refine ⟨(trimEnd t).drop k, ⟨List.drop_suffix k _, htoken, ?_⟩, ?_, ?_⟩
    · intro r hr hrtoken
      -- a longer token would have been found at an earlier column
      by_contra hlonger
      rw [List.length_drop] at hlonger
      have hlen := hr.length_le
      rw [List.suffix_iff_eq_drop.1 hr] at hrtoken
      have hnone := hfirst ((trimEnd t).length - r.length) (by omega)
      exact List.not_mem_nil (hnone ▸ (hcuts _ _).2 ⟨hrtoken, rfl⟩)
    · rw [List.length_drop]
      omega
    · rw [trailingBlanks_drop (Nat.le_of_lt hk)]
  · rintro ⟨w, hw, rfl, rfl⟩
    have hlen := hw.suffix.length_le
    have hwdrop := List.suffix_iff_eq_drop.1 hw.suffix
    refine ⟨by omega, ?_, ?_⟩
    · have hmem := hcuts ((trimEnd t).length - w.length)
      rw [← hwdrop, trailingBlanks_drop (Nat.sub_le _ _)] at hmem
      cases hall : cutsToEnd ps (t.drop ((trimEnd t).length - w.length)) with
      | nil => exact absurd ((hmem _).2 ⟨hw.holds, rfl⟩) (by simp [hall])
      | cons ys yss =>
        rw [List.head?_cons, ((hmem ys).1 (by simp [hall])).2]
    · intro j hj
      refine List.eq_nil_iff_forall_not_mem.2 fun xs hxs => ?_
      have htoken := ((hcuts j xs).1 hxs).1
      have hlonger := hw.longest _ (List.drop_suffix j _) htoken
      have := hlt j htoken
      rw [List.length_drop] at hlonger
      omega

private theorem cutsToken_dotted : CutsToken dottedPieces IsDotted fun w => [w] := by
  refine ⟨fun h => h.ne_nil rfl, fun t ht xs => ?_⟩
  obtain ⟨happend, hblank⟩ := trimEnd_append_trailingBlanks t
  simp only [mem_cutsToEnd ht, dottedPieces, List.forall₂_cons_left_iff, List.forall₂_nil_left_iff,
    mem_language_dottedName, mem_language_blanks]
  constructor
  · rintro ⟨rfl, w, _, hw, ⟨u, _, hu, rfl, rfl⟩, rfl⟩
    obtain ⟨htrim, htrailing⟩ := trimEnd_append_blanks hw.ne_nil
      (fun c hc => hw.not_isBlank c (List.mem_of_mem_getLast? hc)) hu
    have hflat : [w, u].flatten = w ++ u := by simp
    rw [hflat, htrim, htrailing]
    exact ⟨hw, rfl⟩
  · rintro ⟨hw, rfl⟩
    exact ⟨by simp [happend], _, _, hw, ⟨_, _, hblank, rfl, rfl⟩, rfl⟩

/-- A name in quotes and nothing else. -/
def IsQuoted (t : Text) : Prop :=
  ∃ name, EndsQuoted t [] name

theorem isQuoted_iff {t : Text} : IsQuoted t ↔ ∃ name, name ≠ [] ∧ '"' ∉ name ∧ t = '"' :: name ++ ['"'] := by
  constructor
  · rintro ⟨name, rfl, hne, hno⟩
    exact ⟨name, hne, hno, rfl⟩
  · rintro ⟨name, hne, hno, rfl⟩
    exact ⟨name, rfl, hne, hno⟩

private theorem mem_language_quote {t : Text} : t ∈ Pattern.quote.language ↔ t = ['"'] := by
  rw [Pattern.quote, Pattern.mem_language_one]
  simp

private theorem cutsToken_quoted : CutsToken quotedPieces IsQuoted fun w => [['"'], w.tail.dropLast, ['"']] := by
  have hnone : ¬ IsQuoted [] := by
    rintro ⟨name, h⟩
    have := h.length_eq
    simp at this
  refine ⟨hnone, fun t ht xs => ?_⟩
  obtain ⟨happend, hblank⟩ := trimEnd_append_trailingBlanks t
  simp only [mem_cutsToEnd ht, quotedPieces, List.forall₂_cons_left_iff, List.forall₂_nil_left_iff,
    mem_language_quote, Pattern.mem_language_oneOrMore_one, mem_language_blanks]
  constructor
  · rintro ⟨rfl, _, _, rfl, ⟨name, _, ⟨hne, hall⟩, ⟨_, _, rfl, ⟨u, _, hu, rfl, rfl⟩, rfl⟩, rfl⟩, rfl⟩
    have hno : '"' ∉ name := fun hmem => by simpa using hall _ hmem
    have hflat : [['"'], name, ['"'], u].flatten = '"' :: name ++ ['"'] ++ u := by simp
    have hlast : ∀ c ∈ ('"' :: name ++ ['"']).getLast?, isBlank c = false := by
      intro c hc
      rw [List.getLast?_concat, Option.mem_some_iff] at hc
      subst hc
      rfl
    obtain ⟨htrim, htrailing⟩ := trimEnd_append_blanks (by simp) hlast hu
    rw [hflat, htrim, htrailing]
    exact ⟨isQuoted_iff.2 ⟨name, hne, hno, rfl⟩, by simp⟩
  · rintro ⟨hquoted, rfl⟩
    obtain ⟨name, hne, hno, hname⟩ := isQuoted_iff.1 hquoted
    have hinner : (trimEnd t).tail.dropLast = name := by simp [hname]
    have hall : ∀ c ∈ name, (c != '"') = true := by
      intro c hc
      simp only [bne_iff_ne]
      rintro rfl
      exact hno hc
    rw [hinner]
    refine ⟨?_, _, _, rfl, ⟨_, _, ⟨hne, hall⟩, ⟨_, _, rfl, ⟨_, _, hblank, rfl, rfl⟩, rfl⟩, rfl⟩, rfl⟩
    conv_lhs => rw [← happend, hname]
    simp

/-- There is at most one quoted name that a text ends with. -/
private theorem longestEnd_isQuoted {t w : Text} :
    LongestEnd IsQuoted t w ↔ ∃ pre name, EndsQuoted t pre name ∧ w = '"' :: name ++ ['"'] := by
  have hends : ∀ r, r <:+ t → IsQuoted r → ∃ pre name, EndsQuoted t pre name ∧ r = '"' :: name ++ ['"'] := by
    rintro r ⟨pre, rfl⟩ hr
    obtain ⟨name, hne, hno, rfl⟩ := isQuoted_iff.1 hr
    exact ⟨pre, name, ⟨(List.append_assoc _ _ _).symm, hne, hno⟩, rfl⟩
  constructor
  · exact fun h => hends w h.suffix h.holds
  · rintro ⟨pre, name, h, rfl⟩
    refine ⟨⟨pre, ?_⟩, isQuoted_iff.2 ⟨name, h.ne_nil, h.no_quote, rfl⟩, ?_⟩
    · rw [h.text_eq, List.append_assoc]
    · intro r hr hquoted
      obtain ⟨pre', name', h', rfl⟩ := hends r hr hquoted
      rw [(h.unique h').1]

/-! ### The property name -/

private theorem dottedAtEnd?_eq_some_iff {t name : Text} : dottedAtEnd? t = some name ↔ LongestEnd IsDotted t name := by
  rw [dottedAtEnd?, find?_suffixes]
  simp only [isDottedName_iff]

private theorem dottedAtEnd?_eq_none_iff {t : Text} : dottedAtEnd? t = none ↔ ∀ name, name <:+ t → ¬ IsDotted name := by
  simp only [dottedAtEnd?, List.find?_eq_none, mem_suffixes, isDottedName_iff]

/-- The property name that the text in front of the cursor ends with, before its blanks: a quoted name, else the longest
dotted one. -/
inductive Found (before : Text) : Option PropertyName → Prop
  | quoted {pre name : Text} (h : EndsQuoted (trimEnd before) pre name) :
    Found before (some ⟨name, true, pre.length, pre.length + name.length + 2, (trailingBlanks before).length⟩)
  | dotted {name : Text} (hquoted : ∀ pre name, ¬ EndsQuoted (trimEnd before) pre name)
    (h : LongestEnd IsDotted (trimEnd before) name) :
    Found before (some ⟨name, false, (trimEnd before).length - name.length,
      (trimEnd before).length - name.length + name.length, (trailingBlanks before).length⟩)
  | neither (hquoted : ∀ pre name, ¬ EndsQuoted (trimEnd before) pre name)
    (hdotted : ∀ name, name <:+ trimEnd before → ¬ IsDotted name) : Found before none

private theorem Found.unique {before : Text} {r r' : Option PropertyName} (h : Found before r) (h' : Found before r') :
    r = r' := by
  cases h with
  | quoted h =>
    cases h' with
    | quoted h' =>
      obtain ⟨rfl, rfl⟩ := h.unique h'
      rfl
    | dotted hquoted _ => exact absurd h (hquoted _ _)
    | neither hquoted _ => exact absurd h (hquoted _ _)
  | dotted hquoted h =>
    cases h' with
    | quoted h' => exact absurd h' (hquoted _ _)
    | dotted _ h' => rw [h.unique h']
    | neither _ hdotted => exact absurd h.holds (hdotted _ h.suffix)
  | neither hquoted hdotted =>
    cases h' with
    | quoted h' => exact absurd h' (hquoted _ _)
    | dotted _ h' => exact absurd h'.holds (hdotted _ h'.suffix)
    | neither _ _ => rfl

theorem found_propertyBefore? (line : Text) (column : Int) :
    Found (upTo line column) (propertyBefore? line column) := by
  unfold propertyBefore?
  simp only [← length_trailingBlanks]
  cases hq : quotedAtEnd? (trimEnd (upTo line column)) with
  | some name =>
    obtain ⟨pre, h⟩ := quotedAtEnd?_eq_some_iff.1 hq
    have hlen := h.length_eq
    have hstart : (trimEnd (upTo line column)).length - name.length - 2 = pre.length := by omega
    simp only [hstart]
    rw [hlen]
    exact Found.quoted h
  | none =>
    have hquoted : ∀ pre name, ¬ EndsQuoted (trimEnd (upTo line column)) pre name := by
      intro pre name h
      rw [quotedAtEnd?_eq_some_iff.2 ⟨pre, h⟩] at hq
      cases hq
    cases hd : dottedAtEnd? (trimEnd (upTo line column)) with
    | some name =>
      have h := dottedAtEnd?_eq_some_iff.1 hd
      have hfound := Found.dotted hquoted h
      rw [Nat.sub_add_cancel h.suffix.length_le] at hfound
      exact hfound
    | none => exact Found.neither hquoted (dottedAtEnd?_eq_none_iff.1 hd)

private theorem found_searchProperty? {line : Text} (hline : '\n' ∉ line) (column : Int) :
    Found (upTo line column) (searchProperty? line column) := by
  have hbefore : '\n' ∉ upTo line column := fun h => hline (List.mem_of_mem_take h)
  unfold searchProperty?
  cases hq : search? quotedPieces (upTo line column) with
  | some found =>
    obtain ⟨k, xs⟩ := found
    obtain ⟨w, hw, rfl, rfl⟩ := (search?_token cutsToken_quoted hbefore).1 hq
    obtain ⟨pre, name, h, rfl⟩ := longestEnd_isQuoted.1 hw
    have hstart : (trimEnd (upTo line column)).length - ('"' :: name ++ ['"']).length = pre.length := by
      rw [h.length_eq]
      simp
    have hname : ('"' :: name ++ ['"']).tail.dropLast = name := by simp
    rw [hstart, hname] at hq
    simp only [hq, List.cons_append, List.nil_append]
    exact Found.quoted h
  | none =>
    have hquoted : ∀ pre name, ¬ EndsQuoted (trimEnd (upTo line column)) pre name := by
      intro pre name h
      have hsome := (search?_token cutsToken_quoted hbefore).2 ⟨_, longestEnd_isQuoted.2 ⟨pre, name, h, rfl⟩, rfl, rfl⟩
      rw [hq] at hsome
      cases hsome
    cases hd : search? dottedPieces (upTo line column) with
    | some found =>
      obtain ⟨k, xs⟩ := found
      obtain ⟨name, h, rfl, rfl⟩ := (search?_token cutsToken_dotted hbefore).1 hd
      simp only [hq, hd, List.cons_append, List.nil_append]
      exact Found.dotted hquoted h
    | none =>
      simp only [hq, hd]
      refine Found.neither hquoted fun name hsuffix hname => ?_
      cases hlongest : dottedAtEnd? (trimEnd (upTo line column)) with
      | none => exact dottedAtEnd?_eq_none_iff.1 hlongest name hsuffix hname
      | some longest =>
        have hsome := (search?_token cutsToken_dotted hbefore).2 ⟨_, dottedAtEnd?_eq_some_iff.1 hlongest, rfl, rfl⟩
        rw [hd] at hsome
        cases hsome

/-- The property name as it stands on its line, with its quotes. -/
def PropertyName.token (p : PropertyName) : Text :=
  if p.quoted then '"' :: p.name ++ ['"'] else p.name

/-- Where a property name stands in front of a column. -/
structure PropertyName.StandsBefore (p : PropertyName) (line : Text) (column : Nat) : Prop where
  quoted : p.quoted = true → ∃ pre, EndsQuoted (trimEnd (line.take column)) pre p.name ∧ p.start = pre.length
  dotted : p.quoted = false → LongestEnd IsDotted (trimEnd (line.take column)) p.name
  token_eq : (line.take p.stop).drop p.start = p.token
  stop_add : p.stop + p.trailing = (line.take column).length

theorem Found.standsBefore {line : Text} {column : Nat} {p : PropertyName} (h : Found (line.take column) (some p)) :
    p.StandsBefore line column := by
  obtain ⟨core, hcore⟩ : ∃ core, core = trimEnd (line.take column) := ⟨_, rfl⟩
  have hlen : core.length + (trailingBlanks (line.take column)).length = (line.take column).length := by
    rw [length_trailingBlanks, hcore, Nat.add_sub_cancel' (length_trimEnd_le _)]
  have htake : line.take core.length = core := by
    have hle : core.length ≤ column := by
      have := List.length_take_le column line
      omega
    have := take_trimEnd (line.take column)
    rwa [← hcore, List.take_take, Nat.min_eq_left hle] at this
  cases h with
  | @quoted pre name h =>
    rw [← hcore] at h
    rw [h.length_eq] at htake hlen
    refine ⟨fun _ => ⟨pre, hcore ▸ h, rfl⟩, nofun, ?_, hlen⟩
    simp only [htake, PropertyName.token, if_true]
    rw [h.text_eq, List.append_assoc, List.drop_left]
  | @dotted name hquoted h =>
    rw [← hcore] at h
    have hcancel := Nat.sub_add_cancel h.suffix.length_le
    refine ⟨nofun, fun _ => hcore ▸ h, ?_, ?_⟩
    · simp only [← hcore, hcancel, htake, PropertyName.token, Bool.false_eq_true, if_false]
      exact (List.suffix_iff_eq_drop.1 h.suffix).symm
    · simp only [← hcore, hcancel, hlen]

section Kinds

variable {before : Text} {r : Option PropertyName}

private theorem Found.quoted_iff (h : Found before r) :
    (∃ p, r = some p ∧ p.quoted = true) ↔ ∃ pre name, EndsQuoted (trimEnd before) pre name := by
  cases h with
  | @quoted pre name h => exact iff_of_true ⟨_, rfl, rfl⟩ ⟨pre, name, h⟩
  | dotted hquoted _ =>
    refine iff_of_false ?_ (by simpa using hquoted)
    rintro ⟨p, hp, hkind⟩
    obtain rfl := Option.some.inj hp
    cases hkind
  | neither hquoted _ => exact iff_of_false (by simp) (by simpa using hquoted)

private theorem Found.dotted_iff (h : Found before r) :
    (∃ p, r = some p ∧ p.quoted = false) ↔ (¬ ∃ pre name, EndsQuoted (trimEnd before) pre name) ∧
      ∃ name, name <:+ trimEnd before ∧ IsDotted name := by
  cases h with
  | @quoted pre name h =>
    refine iff_of_false ?_ fun hno => hno.1 ⟨pre, name, h⟩
    rintro ⟨p, hp, hkind⟩
    obtain rfl := Option.some.inj hp
    cases hkind
  | @dotted name hquoted h =>
    exact iff_of_true ⟨_, rfl, rfl⟩ ⟨by simpa using hquoted, name, h.suffix, h.holds⟩
  | neither _ hdotted =>
    refine iff_of_false (by simp) ?_
    rintro ⟨-, name, hsuffix, hname⟩
    exact hdotted name hsuffix hname

theorem Found.none_iff (h : Found before r) :
    r = none ↔ (¬ ∃ pre name, EndsQuoted (trimEnd before) pre name) ∧
      ¬ ∃ name, name <:+ trimEnd before ∧ IsDotted name := by
  cases h with
  | @quoted pre name h => exact iff_of_false nofun fun hno => hno.1 ⟨pre, name, h⟩
  | @dotted name hquoted h => exact iff_of_false nofun fun hno => hno.2 ⟨name, h.suffix, h.holds⟩
  | neither hquoted hdotted =>
    refine iff_of_true rfl ⟨by simpa using hquoted, ?_⟩
    rintro ⟨name, hsuffix, hname⟩
    exact hdotted name hsuffix hname

end Kinds

/-- The search for a property name accepts exactly the quoted names and, where there is none, the dotted names that stand
in front of the column. -/
theorem propertyBefore?_grammar {line : Text} (hline : '\n' ∉ line) (column : Nat) :
    propertyBefore? line column = searchProperty? line column ∧
      ((∃ p, propertyBefore? line column = some p ∧ p.quoted = true) ↔
        ∃ pre name, EndsQuoted (trimEnd (line.take column)) pre name) ∧
      ((∃ p, propertyBefore? line column = some p ∧ p.quoted = false) ↔
        (¬ ∃ pre name, EndsQuoted (trimEnd (line.take column)) pre name) ∧
          ∃ name, name <:+ trimEnd (line.take column) ∧ IsDotted name) ∧
      (propertyBefore? line column = none ↔
        (¬ ∃ pre name, EndsQuoted (trimEnd (line.take column)) pre name) ∧
          ¬ ∃ name, name <:+ trimEnd (line.take column) ∧ IsDotted name) ∧
      ∀ p, propertyBefore? line column = some p → p.StandsBefore line column := by
  have hfound := found_propertyBefore? line column
  have hsearch := hfound.unique (found_searchProperty? hline column)
  rw [upTo_natCast] at hfound
  exact ⟨hsearch, hfound.quoted_iff, hfound.dotted_iff, hfound.none_iff, fun p hp => (hp ▸ hfound).standsBefore⟩

/-- A number in front of a dotted name is no part of it. -/
theorem propertyBefore?_grammar_dotted :
    '\n' ∉ "1.a.b_2  : 3".toList ∧
      propertyBefore? "1.a.b_2  : 3".toList (9 : Nat) = some ⟨"a.b_2".toList, false, 2, 7, 2⟩ ∧
      searchProperty? "1.a.b_2  : 3".toList (9 : Nat) = some ⟨"a.b_2".toList, false, 2, 7, 2⟩ ∧
      PropertyName.StandsBefore ⟨"a.b_2".toList, false, 2, 7, 2⟩ "1.a.b_2  : 3".toList 9 := by
  have hline : '\n' ∉ "1.a.b_2  : 3".toList := by decide
  have hname : propertyBefore? "1.a.b_2  : 3".toList (9 : Nat) = some ⟨"a.b_2".toList, false, 2, 7, 2⟩ := by
    decide +kernel
  obtain ⟨hsearch, -, -, -, hstands⟩ := propertyBefore?_grammar hline 9
  exact ⟨hline, hname, hsearch ▸ hname, hstands _ hname⟩

end MultiCaret
