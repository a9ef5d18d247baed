import MultiCaret.Json.Reader
import MultiCaret.Proofs.Text.Utf8

/-!
# What the limits of the JSON reader are about

An answer of the reader is accounted for by the text (`Json.Accounted`): after a value comes a proper suffix, a number
with too many digits is a stretch of digits of the text, whatever is nested too deeply has all its opening brackets
there, and the fuel is used up only if it was no more than twice the length.  One step of the reader is said once
(`Json.ValueStep`, `Json.GoesOn`), and the account of the whole text follows by induction on the fuel
(`Json.reader_accounted`).  So the fuel that a text is read with is enough (`Json.read_ne_outOfFuel`), and a text that is
refused for its size really is as large as that (`Json.Oversized.limit`).
-/

namespace MultiCaret

namespace Json

/-- The text has a stretch of this many digits. -/
def HasDigits (n : Nat) (t : Text) : Prop :=
  ∃ ds, ds <:+: t ∧ ds.all Char.isDigit ∧ ds.length = n

/-- The characters that start lists and objects. -/
def opens (c : Char) : Bool :=
  c == '[' || c == '\x7b'

/-- An answer of the reader is accounted for by the text that it reads, with the fuel and the depth that are left. -/
structure Accounted {α : Type} (fuel depth : Nat) (t : Text) (r : Except JsonError (α × Text)) : Prop where
  rest : ∀ a rest, r = .ok (a, rest) → rest <:+ t ∧ rest.length < t.length
  digits : ∀ n, r = .error (.tooManyDigits n) → maxDigits < n ∧ HasDigits n t
  deep : ∀ o, r = .error (.tooDeep o) → depth < t.countP opens
  spent : r = .error .outOfFuel → fuel ≤ 2 * t.length

namespace Accounted

variable {α β : Type} {fuel depth : Nat} {t : Text}

private theorem ok {a : α} {rest : Text} (h : rest <:+ t) (hlt : rest.length < t.length) :
    Accounted fuel depth t (.ok (a, rest) : Except JsonError (α × Text)) where
  rest := by
    rintro _ _ ⟨⟩
    exact ⟨h, hlt⟩
  digits := by rintro n ⟨⟩
  deep := by rintro o ⟨⟩
  spent := by rintro ⟨⟩

private theorem malformed (flaw : JsonFlaw) (rest : Text) :
    Accounted fuel depth t (.error (.malformed flaw rest) : Except JsonError (α × Text)) where
  rest := by rintro a rest ⟨⟩
  digits := by rintro n ⟨⟩
  deep := by rintro o ⟨⟩
  spent := by rintro ⟨⟩

private theorem tooManyDigits {n : Nat} (hn : maxDigits < n) (h : HasDigits n t) :
    Accounted fuel depth t (.error (.tooManyDigits n) : Except JsonError (α × Text)) where
  rest := by rintro a rest ⟨⟩
  digits := by
    rintro _ ⟨⟩
    exact ⟨hn, h⟩
  deep := by rintro o ⟨⟩
  spent := by rintro ⟨⟩

private theorem tooDeep (isObject : Bool) (h : depth < t.countP opens) :
    Accounted fuel depth t (.error (.tooDeep isObject) : Except JsonError (α × Text)) where
  rest := by rintro a rest ⟨⟩
  digits := by rintro n ⟨⟩
  deep _ _ := h
  spent := by rintro ⟨⟩

private theorem outOfFuel (h : fuel ≤ 2 * t.length) :
    Accounted fuel depth t (.error .outOfFuel : Except JsonError (α × Text)) where
  rest := by rintro a rest ⟨⟩
  digits := by rintro n ⟨⟩
  deep := by rintro o ⟨⟩
  spent _ := h

/-- The account for some fuel is one for less of it. -/
private theorem of_le {fuel' : Nat} {r : Except JsonError (α × Text)} (h : Accounted fuel depth t r)
    (hle : fuel' ≤ fuel) : Accounted fuel' depth t r :=
  { h with spent := fun hr => Nat.le_trans hle (h.spent hr) }

/-- The account of a suffix is one of the whole text. -/
private theorem of_suffix {t' : Text} {r : Except JsonError (α × Text)} (h : Accounted fuel depth t' r)
    (ht : t' <:+ t) : Accounted fuel depth t r where
  rest a rest hr := by
    obtain ⟨hrest, hlt⟩ := h.rest a rest hr
    exact ⟨hrest.trans ht, Nat.lt_of_lt_of_le hlt ht.length_le⟩
  digits n hr := by
    obtain ⟨hn, ds, hds, hall⟩ := h.digits n hr
    exact ⟨hn, ds, hds.trans ht.isInfix, hall⟩
  deep o hr := Nat.lt_of_lt_of_le (h.deep o hr) ht.sublist.countP_le
  spent hr := Nat.le_trans (h.spent hr) (Nat.mul_le_mul_left 2 ht.length_le)

/-- A character in front is worth two units of fuel. -/
private theorem cons {r : Except JsonError (α × Text)} (h : Accounted fuel depth t r) (c : Char) :
    Accounted (fuel + 2) depth (c :: t) r :=
  { h.of_suffix (List.suffix_cons c t) with
    spent := fun hr => by
      have hspent := h.spent hr
      rw [List.length_cons]
      omega }

/-- An opening bracket in front leaves one level more. -/
private theorem of_opens {c : Char} (hc : opens c) {r : Except JsonError (α × Text)} (h : Accounted fuel depth t r) :
    Accounted (fuel + 2) (depth + 1) (c :: t) r :=
  { h.cons c with
    deep := fun o hr => by
      rw [List.countP_cons_of_pos hc]
      exact Nat.succ_lt_succ (h.deep o hr) }

private theorem map {r : Except JsonError (α × Text)} (h : Accounted fuel depth t r) (f : α → β) :
    Accounted fuel depth t (r.map fun x => (f x.1, x.2)) := by
  cases r with
  | ok x =>
    obtain ⟨hrest, hlt⟩ := h.rest x.1 x.2 rfl
    exact ok hrest hlt
  | error e =>
    refine ⟨?_, ?_, ?_, ?_⟩
    · rintro a rest ⟨⟩
    · rintro n ⟨⟩
      exact h.digits n rfl
    · rintro o ⟨⟩
      exact h.deep o rfl
    · rintro ⟨⟩
      exact h.spent rfl

end Accounted

private theorem skipSpace_suffix (t : Text) : skipSpace t <:+ t :=
  List.dropWhile_suffix isSpace

private theorem readUnits_accounted (fuel depth : Nat) (start : Text) (units : List Nat) (t : Text) :
    Accounted fuel depth t (readUnits start units t) := by
  fun_induction readUnits start units t with
  | case1 => exact .malformed _ _
  | case2 units rest => exact .ok (List.suffix_cons _ rest) (Nat.lt_succ_self _)
  | case3 => exact .malformed _ _
  | case4 => exact .malformed _ _
  | case5 units a b c d rest u hu hrest ih => exact ih.of_suffix (List.suffix_append ['\\', 'u', a, b, c, d] rest)
  | case6 => exact .malformed _ _
  | case7 units c rest hc e he ih => exact ih.of_suffix (List.suffix_append ['\\', c] rest)
  | case8 => exact .malformed _ _
  | case9 => exact .malformed _ _
  | case10 => exact .malformed _ _
  | case11 units c rest _ _ _ _ hc ih => exact ih.of_suffix (List.suffix_cons c rest)

private theorem readString_accounted (fuel depth : Nat) (t : Text) : Accounted fuel depth t (readString t) :=
  (readUnits_accounted fuel depth ('"' :: t) [] t).map joinSurrogates

private theorem wholeDigits_prefix (t : Text) : wholeDigits t <+: t := by
  unfold wholeDigits
  split
  · exact ⟨_, rfl⟩
  · exact List.takeWhile_prefix _

private theorem isDigit_wholeDigits (t : Text) : (wholeDigits t).all Char.isDigit := by
  unfold wholeDigits
  split
  · rfl
  · exact List.all_takeWhile

private theorem exponentPart?_suffix {t digits rest : Text} {down : Bool}
    (h : exponentPart? t = some (down, digits, rest)) : rest <:+ t := by
  unfold exponentPart? at h
  split at h
  case h_1 e tail =>
    split at h
    · -- the sign, if there is one, is in front of the digits
      split at h
      rename_i ds hsign
      have hds : ds <:+ tail := by
        split at hsign
        · cases hsign
          exact List.suffix_cons _ _
        · cases hsign
          exact List.suffix_cons _ _
        · cases hsign
          exact List.suffix_rfl
      simp only at h
      split at h
      · cases h
      · cases h
        exact ((List.dropWhile_suffix _).trans hds).trans (List.suffix_cons e tail)
    · cases h
  case h_2 => cases h

private theorem readNumber_accounted (fuel depth : Nat) (t : Text) : Accounted fuel depth t (readNumber t) := by
  unfold readNumber
  split
  rename_i negative unsigned hsign
  have hunsigned : unsigned <:+ t := by
    split at hsign
    · cases hsign
      exact List.suffix_cons _ _
    · cases hsign
      exact List.suffix_rfl
  refine Accounted.of_suffix ?_ hunsigned
  have hwhole := wholeDigits_prefix unsigned
  have hdigits := isDigit_wholeDigits unsigned
  generalize wholeDigits unsigned = whole at hwhole hdigits ⊢
  simp only
  split
  case isTrue => exact .malformed _ _
  case isFalse hne =>
    have hlt : (unsigned.drop whole.length).length < unsigned.length := by
      have hle := hwhole.length_le
      have hpos : 0 < whole.length := List.length_pos_iff.mpr fun h => hne (List.isEmpty_iff.mpr h)
      rw [List.length_drop]
      omega
    have hfraction (ds : Text) : (if ds.isEmpty then unsigned.drop whole.length
        else (unsigned.drop whole.length).drop (ds.length + 1)) <:+ unsigned.drop whole.length := by
      split
      · exact List.suffix_rfl
      · exact List.drop_suffix _ _
    have hok {rest : Text} (h : rest <:+ unsigned.drop whole.length) (v : Json) :
        Accounted fuel depth unsigned (.ok (v, rest)) :=
      .ok (h.trans (List.drop_suffix _ _)) (Nat.lt_of_le_of_lt h.length_le hlt)
    split
    · split
      · split
        · rename_i hmax
          exact .tooManyDigits hmax ⟨whole, hwhole.isInfix, hdigits, rfl⟩
        · exact hok List.suffix_rfl _
      · exact hok (List.drop_suffix _ _) _
    · rename_i hexponent
      exact hok ((exponentPart?_suffix hexponent).trans (hfraction _)) _

private theorem length_literal_pos : ∀ w ∈ literals, 0 < w.1.length := by
  decide

private theorem readScalar_accounted (fuel depth : Nat) (t : Text) : Accounted fuel depth t (readScalar t) := by
  unfold readScalar
  split
  case h_1 w v hfind =>
    have hw : w.isPrefixOf t := List.find?_some (p := fun w : Text × Json => w.1.isPrefixOf t) hfind
    have hpos : 0 < w.length := length_literal_pos _ (List.mem_of_find?_eq_some hfind)
    refine .ok (List.drop_suffix _ _) ?_
    have hle := (List.isPrefixOf_iff_prefix.mp hw).length_le
    rw [List.length_drop]
    omega
  case h_2 => exact readNumber_accounted fuel depth t

/-- What one step of reading a value comes to, as a function of the fuel that is left. -/
inductive ValueStep : Nat → Text → (Nat → Except JsonError (Json × Text)) → Prop where
  | string {depth : Nat} (rest : Text) : ValueStep depth ('"' :: rest) fun _ =>
      (readString rest).map fun x => (.str x.1, x.2)
  | tooDeep {c : Char} (hc : opens c) (isObject : Bool) (rest : Text) :
      ValueStep 0 (c :: rest) fun _ => .error (.tooDeep isObject)
  | empty {c d : Char} (hc : opens c) {depth : Nat} {rest behind : Text} (h : skipSpace rest = d :: behind) (v : Json) :
      ValueStep (depth + 1) (c :: rest) fun _ => .ok (v, behind)
  | items {depth : Nat} (rest : Text) :
      ValueStep (depth + 1) ('[' :: rest) fun fuel => readItems fuel depth [] (skipSpace rest)
  | fields {depth : Nat} (rest : Text) :
      ValueStep (depth + 1) ('\x7b' :: rest) fun fuel => readFields fuel depth [] (skipSpace rest)
  | scalar (depth : Nat) (t : Text) : ValueStep depth t fun _ => readScalar t

private theorem readValue_step (depth : Nat) (t : Text) :
    ∃ f, ValueStep depth t f ∧ ∀ fuel, readValue (fuel + 1) depth t = f fuel := by
  by_cases hstring : ∃ rest, t = '"' :: rest
  · obtain ⟨rest, rfl⟩ := hstring
    exact ⟨_, .string rest, fun _ => rfl⟩
  by_cases hlist : ∃ rest, t = '[' :: rest
  · obtain ⟨rest, rfl⟩ := hlist
    cases depth with
    | zero => exact ⟨_, .tooDeep rfl false rest, fun _ => rfl⟩
    | succ depth =>
      by_cases hempty : ∃ behind, skipSpace rest = ']' :: behind
      · obtain ⟨behind, h⟩ := hempty
        exact ⟨_, .empty rfl h (.list []), fun _ => by simp only [readValue, h]⟩
      · refine ⟨_, .items rest, fun _ => ?_⟩
        simp only [readValue]
        split
        case h_1 behind h => exact absurd ⟨behind, h⟩ hempty
        case h_2 => rfl
  by_cases hobject : ∃ rest, t = '\x7b' :: rest
  · obtain ⟨rest, rfl⟩ := hobject
    cases depth with
    | zero => exact ⟨_, .tooDeep rfl true rest, fun _ => rfl⟩
    | succ depth =>
      by_cases hempty : ∃ behind, skipSpace rest = '\x7d' :: behind
      · obtain ⟨behind, h⟩ := hempty
        exact ⟨_, .empty rfl h (.object []), fun _ => by simp only [readValue, h]⟩
      · refine ⟨_, .fields rest, fun _ => ?_⟩
        simp only [readValue]
        split
        case h_1 behind h => exact absurd ⟨behind, h⟩ hempty
        case h_2 => rfl
  refine ⟨_, .scalar depth t, fun _ => ?_⟩
  unfold readValue
  split
  · exact absurd ⟨_, rfl⟩ hstring
  · exact absurd ⟨_, rfl⟩ hlist
  · exact absurd ⟨_, rfl⟩ hlist
  · exact absurd ⟨_, rfl⟩ hobject
  · exact absurd ⟨_, rfl⟩ hobject
  · rfl

/-- What the reader does behind an item of a list, or a field of an object, as a function of the fuel that is left:
it ends with the value `whole`, it goes on with `more`, or there is neither a closing bracket nor a comma. -/
inductive GoesOn (close : Char) (whole : Json) (more : Nat → Text → Except JsonError (Json × Text)) :
    Text → (Nat → Except JsonError (Json × Text)) → Prop where
  | last (rest : Text) : GoesOn close whole more (close :: rest) fun _ => .ok (whole, rest)
  | next (rest : Text) : GoesOn close whole more (',' :: rest) fun fuel => more fuel (skipSpace rest)
  | flawed (rest : Text) : GoesOn close whole more rest fun _ => .error (.malformed .expectedComma rest)

private theorem readItems_error {fuel depth : Nat} {items : List Json} {t : Text} {e : JsonError}
    (h : readValue fuel depth t = .error e) : readItems (fuel + 1) depth items t = .error e := by
  simp only [readItems, h]

private theorem readItems_step (depth : Nat) (items : List Json) (v : Json) (rest : Text) :
    ∃ f, GoesOn ']' (.list (v :: items).reverse) (fun fuel => readItems fuel depth (v :: items)) (skipSpace rest) f ∧
      ∀ fuel t, readValue fuel depth t = .ok (v, rest) → readItems (fuel + 1) depth items t = f fuel := by
  by_cases hlast : ∃ behind, skipSpace rest = ']' :: behind
  · obtain ⟨behind, h⟩ := hlast
    rw [h]
    exact ⟨_, .last behind, fun _ _ hv => by simp only [readItems, hv, h]⟩
  by_cases hnext : ∃ behind, skipSpace rest = ',' :: behind
  · obtain ⟨behind, h⟩ := hnext
    rw [h]
    exact ⟨_, .next behind, fun _ _ hv => by simp only [readItems, hv, h]⟩
  refine ⟨_, .flawed _, fun _ _ hv => ?_⟩
  simp only [readItems, hv]
  split
  case h_1 behind h => exact absurd ⟨behind, h⟩ hlast
  case h_2 behind h => exact absurd ⟨behind, h⟩ hnext
  case h_3 => rfl

/-- The text starts with the name of a field and a colon, and `value` is what comes behind them. -/
def FieldName (t : Text) (name : CodeText) (value : Text) : Prop :=
  ∃ rest behind tail, t = '"' :: rest ∧ readString rest = .ok (name, behind) ∧ skipSpace behind = ':' :: tail ∧
    skipSpace tail = value

private theorem FieldName.suffix {t value : Text} {name : CodeText} (h : FieldName t name value) :
    value <:+ t ∧ value.length < t.length := by
  obtain ⟨rest, behind, tail, rfl, hname, hcolon, rfl⟩ := h
  obtain ⟨hbehind, hlt⟩ := (readString_accounted 0 0 rest).rest name behind hname
  have htail : skipSpace tail <:+ behind :=
    ((skipSpace_suffix tail).trans (List.suffix_cons ':' tail)).trans (hcolon ▸ skipSpace_suffix behind)
  refine ⟨(htail.trans hbehind).trans (List.suffix_cons _ rest), ?_⟩
  have hle := htail.length_le
  rw [List.length_cons]
  omega

/-- Without a name and a colon fields are not read, however much fuel there is. -/
private theorem readFields_flawed {t : Text} (h : ∀ name value, ¬ FieldName t name value) :
    ∃ e, (∀ fuel depth, Accounted fuel depth t (.error e : Except JsonError (Json × Text))) ∧
      ∀ fuel depth fields, readFields (fuel + 1) depth fields t = .error e := by
  by_cases hstring : ∃ rest, t = '"' :: rest
  · obtain ⟨rest, rfl⟩ := hstring
    cases hname : readString rest with
    | error e =>
      refine ⟨e, fun fuel depth => ?_, fun _ _ _ => by simp only [readFields, hname]⟩
      have haccount := (readString_accounted fuel depth rest).map fun _ => Json.null
      rw [hname] at haccount
      exact haccount.of_suffix (List.suffix_cons _ rest)
    | ok x =>
      obtain ⟨name, behind⟩ := x
      refine ⟨.malformed .expectedColon (skipSpace behind), fun _ _ => .malformed _ _, fun _ _ _ => ?_⟩
      simp only [readFields, hname]
      split
      case h_1 tail hcolon => exact absurd ⟨rest, behind, tail, rfl, hname, hcolon, rfl⟩ (h name _)
      case h_2 => rfl
  · refine ⟨.malformed .expectedName t, fun _ _ => .malformed _ _, fun _ _ _ => ?_⟩
    unfold readFields
    split
    case h_1 rest => exact absurd ⟨rest, rfl⟩ hstring
    case h_2 => rfl

private theorem readFields_error {fuel depth : Nat} {fields : List (CodeText × Json)} {t value : Text} {name : CodeText}
    {e : JsonError} (hname : FieldName t name value) (h : readValue fuel depth value = .error e) :
    readFields (fuel + 1) depth fields t = .error e := by
  obtain ⟨rest, behind, tail, rfl, hstring, hcolon, rfl⟩ := hname
  simp only [readFields, hstring, hcolon, h]

private theorem readFields_step {t value : Text} {name : CodeText} (hname : FieldName t name value) (depth : Nat)
    (fields : List (CodeText × Json)) (v : Json) (rest : Text) :
    ∃ f, GoesOn '\x7d' (.object (setField fields name v))
        (fun fuel => readFields fuel depth (setField fields name v)) (skipSpace rest) f ∧
      ∀ fuel, readValue fuel depth value = .ok (v, rest) → readFields (fuel + 1) depth fields t = f fuel := by
  obtain ⟨_, _, _, rfl, hstring, hcolon, rfl⟩ := hname
  by_cases hlast : ∃ behind, skipSpace rest = '\x7d' :: behind
  · obtain ⟨behind, h⟩ := hlast
    rw [h]
    exact ⟨_, .last behind, fun _ hv => by simp only [readFields, hstring, hcolon, hv, h]⟩
  by_cases hnext : ∃ behind, skipSpace rest = ',' :: behind
  · obtain ⟨behind, h⟩ := hnext
    rw [h]
    exact ⟨_, .next behind, fun _ hv => by simp only [readFields, hstring, hcolon, hv, h]⟩
  refine ⟨_, .flawed _, fun _ hv => ?_⟩
  simp only [readFields, hstring, hcolon, hv]
  split
  case h_1 behind h => exact absurd ⟨behind, h⟩ hlast
  case h_2 behind h => exact absurd ⟨behind, h⟩ hnext
  case h_3 => rfl

/-- Behind an item or a field nothing comes in but the closing bracket, or what reading the others gives. -/
private theorem GoesOn.accounted {close : Char} {whole : Json} {more : Nat → Text → Except JsonError (Json × Text)}
    {t : Text} {f : Nat → Except JsonError (Json × Text)} (h : GoesOn close whole more t f) {depth fuel : Nat}
    (hmore : ∀ t, Accounted (fuel - 1) depth t (more fuel t)) : Accounted fuel depth t (f fuel) := by
  cases h with
  | last rest => exact .ok (List.suffix_cons close rest) (Nat.lt_succ_self _)
  | next rest => exact (((hmore _).of_suffix (skipSpace_suffix rest)).cons ',').of_le (by omega)
  | flawed => exact .malformed _ _

private theorem ValueStep.accounted {depth : Nat} {t : Text} {f : Nat → Except JsonError (Json × Text)}
    (h : ValueStep depth t f) {fuel : Nat}
    (hitems : ∀ depth items t, Accounted (fuel - 1) depth t (readItems fuel depth items t))
    (hfields : ∀ depth fields t, Accounted (fuel - 1) depth t (readFields fuel depth fields t)) :
    Accounted (fuel + 1) depth t (f fuel) := by
  cases h with
  | string rest => exact ((readString_accounted _ depth rest).map Json.str).of_suffix (List.suffix_cons _ rest)
  | tooDeep hc isObject rest =>
    refine .tooDeep isObject ?_
    rw [List.countP_cons_of_pos hc]
    exact Nat.succ_pos _
  | empty hc h v =>
    rename_i c d depth rest behind
    have hbehind : behind <:+ rest := (List.suffix_cons d behind).trans (h ▸ skipSpace_suffix rest)
    exact .ok (hbehind.trans (List.suffix_cons c rest)) (Nat.lt_succ_of_le hbehind.length_le)
  | items rest => exact (((hitems _ _ _).of_suffix (skipSpace_suffix rest)).of_opens rfl).of_le (by omega)
  | fields rest => exact (((hfields _ _ _).of_suffix (skipSpace_suffix rest)).of_opens rfl).of_le (by omega)
  | scalar => exact readScalar_accounted _ depth t

/-- Every answer of the reader is accounted for by the text.  An item or a field costs one unit of fuel more than the
value in it. -/
theorem reader_accounted (fuel : Nat) :
    (∀ depth t, Accounted fuel depth t (readValue fuel depth t)) ∧
    (∀ depth items t, Accounted (fuel - 1) depth t (readItems fuel depth items t)) ∧
    ∀ depth fields t, Accounted (fuel - 1) depth t (readFields fuel depth fields t) := by
  induction fuel with
  | zero =>
    refine ⟨fun depth t => ?_, fun depth items t => ?_, fun depth fields t => ?_⟩
    · rw [readValue]
      exact .outOfFuel (Nat.zero_le _)
    · rw [readItems]
      exact .outOfFuel (Nat.zero_le _)
    · rw [readFields]
      exact .outOfFuel (Nat.zero_le _)
  | succ fuel ih =>
    obtain ⟨hvalue, hitems, hfields⟩ := ih
    rw [Nat.add_sub_cancel]
    refine ⟨fun depth t => ?_, fun depth items t => ?_, fun depth fields t => ?_⟩
    · obtain ⟨f, hstep, heq⟩ := readValue_step depth t
      rw [heq]
      exact hstep.accounted hitems hfields
    · have haccount := hvalue depth t
      cases hv : readValue fuel depth t with
      | error e =>
        rw [readItems_error hv, ← hv]
        exact haccount
      | ok x =>
        obtain ⟨v, rest⟩ := x
        obtain ⟨f, hstep, heq⟩ := readItems_step depth items v rest
        rw [heq fuel t hv]
        have hrest := (haccount.rest v rest hv).1
        exact ((hstep.accounted (hitems depth _)).of_suffix (skipSpace_suffix rest)).of_suffix hrest
    · by_cases hname : ∃ name value, FieldName t name value
      · obtain ⟨name, value, hname⟩ := hname
        have haccount := hvalue depth value
        cases hv : readValue fuel depth value with
        | error e =>
          rw [readFields_error hname hv, ← hv]
          exact haccount.of_suffix hname.suffix.1
        | ok x =>
          obtain ⟨v, rest⟩ := x
          obtain ⟨f, hstep, heq⟩ := readFields_step hname depth fields v rest
          rw [heq fuel hv]
          have hrest := (haccount.rest v rest hv).1
          exact (((hstep.accounted (hfields depth _)).of_suffix (skipSpace_suffix rest)).of_suffix hrest).of_suffix
            hname.suffix.1
      · obtain ⟨e, haccount, heq⟩ := readFields_flawed fun name value h => hname ⟨name, value, h⟩
        rw [heq]
        exact haccount fuel depth

/-- The text is refused for its size: a number has too many digits, or something is nested too deeply. -/
def Oversized (t : Text) : Prop :=
  (∃ n, read t = .error (.tooManyDigits n)) ∨ ∃ isObject, read t = .error (.tooDeep isObject)

private theorem read_accounted (t : Text) {e : JsonError} (h : read t = .error e) :
    Accounted (2 * t.length + 2) maxDepth t (.error e : Except JsonError (Json × Text)) := by
  unfold read at h
  split at h
  · cases h
    exact .malformed _ _
  · have haccount := (reader_accounted (2 * t.length + 2)).1 maxDepth (skipSpace t)
    split at h
    case h_1 e' hv =>
      cases h
      rw [hv] at haccount
      exact haccount.of_suffix (skipSpace_suffix t)
    case h_2 v rest hv =>
      split at h
      · cases h
      · cases h
        exact .malformed _ _

/-- The fuel that a text is read with is enough. -/
theorem read_ne_outOfFuel (t : Text) : read t ≠ .error .outOfFuel := by
  intro h
  have hspent := (read_accounted t h).spent rfl
  omega

/-- A text is refused for its size only if it has a very long stretch of digits or very many opening brackets. -/
theorem Oversized.limit {t : Text} (h : Oversized t) :
    (∃ n, maxDigits < n ∧ HasDigits n t) ∨ maxDepth < t.countP opens := by
  rcases h with ⟨n, h⟩ | ⟨isObject, h⟩
  · exact .inl ⟨n, (read_accounted t h).digits n rfl⟩
  · exact .inr ((read_accounted t h).deep isObject rfl)

end Json

end MultiCaret
