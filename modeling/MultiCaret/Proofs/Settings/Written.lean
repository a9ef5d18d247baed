import MultiCaret.Proofs.Settings.Loading
import MultiCaret.Proofs.Text.LineEnds

/-!
# Settings that were written

The text of settings holds no line end but newlines, and the JSON reader reads it as an object with one field for each
setting, in their order (`Settings.read_toText`).  As their names differ, flattening leaves these fields as they are, and
taking them over sets every switch: the settings are found again and nothing is passed over
(`Settings.ofFileText_toText`).
-/

namespace MultiCaret

/-! ### Words without escapes -/

/-- A character that stands for itself in a JSON string. -/
def isUnescaped (c : Char) : Bool :=
  c != '"' && c != '\\' && decide (0x20 ≤ c.toNat)

private theorem CodePoint.ofNat_toNat (c : Char) : CodePoint.ofNat c.toNat = .char c := by
  have hvalid := Utf8.isValidChar_toNat c
  unfold Nat.isValidChar at hvalid
  rw [CodePoint.ofNat, dif_neg (by omega), Char.ofNat_toNat]

/-- The numbers of characters are no surrogates, so each of them stays a character. -/
private theorem joinSurrogates_map_toNat (t : Text) : joinSurrogates (t.map Char.toNat) = codeText t := by
  induction t with
  | nil => rfl
  | cons c cs ih =>
    cases cs with
    | nil => exact congrArg (· :: []) (CodePoint.ofNat_toNat c)
    | cons d ds =>
      have hvalid := Utf8.isValidChar_toNat c
      unfold Nat.isValidChar at hvalid
      have hcons : (c :: d :: ds).map Char.toNat = c.toNat :: d.toNat :: ds.map Char.toNat := rfl
      rw [List.map_cons] at ih
      rw [hcons, joinSurrogates, if_neg (by omega), ih, CodePoint.ofNat_toNat]
      rfl

namespace Json

private theorem readUnits_unescaped (start : Text) (units : List Nat) {t : Text} (h : t.all isUnescaped = true)
    (rest : Text) : readUnits start units (t ++ '"' :: rest) = .ok (units.reverse ++ t.map Char.toNat, rest) := by
  induction t generalizing units with
  | nil =>
    rw [List.nil_append, readUnits, List.map_nil, List.append_nil]
  | cons c cs ih =>
    rw [List.all_cons, Bool.and_eq_true] at h
    obtain ⟨hc, hcs⟩ := h
    simp only [isUnescaped, Bool.and_eq_true, bne_iff_ne, decide_eq_true_eq] at hc
    obtain ⟨⟨hquote, hbackslash⟩, hcontrol⟩ := hc
    rw [List.cons_append, readUnits.eq_def]
    split
    · next heq => cases heq
    · next heq => exact absurd (List.cons.inj heq).1 hquote
    · next heq => exact absurd (List.cons.inj heq).1 hbackslash
    · next heq => exact absurd (List.cons.inj heq).1 hbackslash
    · next heq => exact absurd (List.cons.inj heq).1 hbackslash
    · next heq =>
      obtain ⟨rfl, rfl⟩ := List.cons.inj heq
      rw [if_neg (Nat.not_lt.2 hcontrol), ih _ hcs, List.reverse_cons, List.append_assoc]
      rfl

/-- A string without escapes is read as it is written. -/
private theorem readString_unescaped {t : Text} (h : t.all isUnescaped = true) (rest : Text) :
    readString (t ++ '"' :: rest) = .ok (codeText t, rest) := by
  rw [readString, readUnits_unescaped _ _ h]
  simp only [Except.map, List.reverse_nil, List.nil_append, joinSurrogates_map_toNat]

/-- The word for a truth value. -/
def boolText (b : Bool) : Text :=
  (if b then "true" else "false").toList

private theorem readValue_boolText (fuel depth : Nat) (b : Bool) (rest : Text) :
    readValue (fuel + 1) depth (boolText b ++ rest) = .ok (.bool b, rest) := by
  cases b <;> rfl

/-- The last field of an object. -/
private theorem readFields_last {fuel depth : Nat} {fields : List (CodeText × Json)} {t value rest behind : Text}
    {name : CodeText} {v : Json} (hname : FieldName t name value) (hv : readValue fuel depth value = .ok (v, rest))
    (hrest : skipSpace rest = '\x7d' :: behind) :
    readFields (fuel + 1) depth fields t = .ok (.object (setField fields name v), behind) := by
  obtain ⟨_, _, _, rfl, hstring, hcolon, rfl⟩ := hname
  simp only [readFields, hstring, hcolon, hv, hrest]

/-- A field of an object with others behind it. -/
private theorem readFields_next (depth : Nat) (fields : List (CodeText × Json)) {fuel : Nat}
    {t value rest behind : Text}
    {name : CodeText} {v : Json} (hname : FieldName t name value) (hv : readValue fuel depth value = .ok (v, rest))
    (hrest : skipSpace rest = ',' :: behind) :
    readFields (fuel + 1) depth fields t = readFields fuel depth (setField fields name v) (skipSpace behind) := by
  obtain ⟨_, _, _, rfl, hstring, hcolon, rfl⟩ := hname
  simp only [readFields, hstring, hcolon, hv, hrest]

private theorem skipSpace_boolText (b : Bool) (rest : Text) :
    skipSpace (' ' :: (boolText b ++ rest)) = boolText b ++ rest := by
  cases b <;> rfl

end Json

namespace Settings

open Json (boolText readFields)

variable (c : Settings)

/-! ### The text of settings -/

/-- The field of a setting. -/
def field (s : Setting) : CodeText × Json :=
  (codeText s.name.toList, .bool (c.get s))

/-- The field of a setting as it is written. -/
def fieldText (s : Setting) : Text :=
  '"' :: (s.name.toList ++ '"' :: ':' :: ' ' :: boolText (c.get s))

/-- What is written behind a field: further fields on lines of their own, and the closing brace. -/
def behindField : List Setting → Text
  | [] => ['\n', '\x7d']
  | s :: ss => ',' :: '\n' :: ' ' :: ' ' :: (fieldText c s ++ behindField ss)

private theorem name_unescaped (s : Setting) : s.name.toList.all isUnescaped = true := by
  cases s <;> decide +kernel

private theorem intercalate_lines (s : Setting) (ss : List Setting) :
    [',', '\n'].intercalate ((s :: ss).map fun s => ' ' :: ' ' :: fieldText c s) ++ ['\n', '\x7d'] =
      ' ' :: ' ' :: (fieldText c s ++ behindField c ss) := by
  induction ss generalizing s with
  | nil => simp [behindField]
  | cons t ts ih =>
    have hrest := ih t
    rw [List.map_cons] at hrest
    rw [List.map_cons, List.map_cons, List.intercalate_cons_cons, List.append_assoc, List.append_assoc, hrest, behindField]
    rfl

/-- The first setting, and those written behind it. -/
private theorem all_eq : Setting.all = .endIndentsEmptyLine :: Setting.all.tail := rfl

private theorem toText_eq :
    c.toText = '\x7b' :: '\n' :: ' ' :: ' ' :: (fieldText c .endIndentsEmptyLine ++ behindField c Setting.all.tail) := by
  have hlines := intercalate_lines c .endIndentsEmptyLine Setting.all.tail
  rw [← all_eq] at hlines
  rw [toText, List.cons_append, List.cons_append]
  exact congrArg (fun t => '\x7b' :: '\n' :: t) hlines

private theorem return_not_mem_toText : '\r' ∉ c.toText := by
  have hname (s : Setting) : '\r' ∉ s.name.toList := by
    intro hmem
    have := List.all_eq_true.1 (name_unescaped s) _ hmem
    revert this
    decide
  have hfield (s : Setting) : '\r' ∉ fieldText c s := by
    have hbool : '\r' ∉ boolText (c.get s) := by cases c.get s <;> decide
    simp [fieldText, hname s, hbool]
  have hbehind (ss : List Setting) : '\r' ∉ behindField c ss := by
    induction ss with
    | nil => simp [behindField]
    | cons s ss ih => simp [behindField, hfield s, ih]
  rw [toText_eq]
  simp [hfield, hbehind]

/-! ### Reading it -/

private theorem fieldName_fieldText (s : Setting) (rest : Text) :
    Json.FieldName (fieldText c s ++ rest) (codeText s.name.toList) (boolText (c.get s) ++ rest) := by
  refine ⟨s.name.toList ++ '"' :: ':' :: ' ' :: (boolText (c.get s) ++ rest),
    ':' :: ' ' :: (boolText (c.get s) ++ rest), ' ' :: (boolText (c.get s) ++ rest), ?_, ?_, rfl, ?_⟩
  · simp [fieldText]
  · exact Json.readString_unescaped (name_unescaped s) _
  · exact Json.skipSpace_boolText _ _

/-- Fields that are set one after the other. -/
def setFields (fields : List (CodeText × Json)) (ss : List Setting) : List (CodeText × Json) :=
  ss.foldl (fun fields s => Json.setField fields (c.field s).1 (c.field s).2) fields

private theorem readFields_fieldText (fuel depth : Nat) (fields : List (CodeText × Json)) (s : Setting)
    (ss : List Setting) : readFields (fuel + ss.length + 2) depth fields (fieldText c s ++ behindField c ss) =
      .ok (.object (setFields c fields (s :: ss)), []) := by
  induction ss generalizing s fields with
  | nil =>
    exact Json.readFields_last (fieldName_fieldText c s _) (Json.readValue_boolText fuel depth _ _) rfl
  | cons t ts ih =>
    have hnext := Json.readFields_next depth fields
      (fieldName_fieldText c s (behindField c (t :: ts)))
      (Json.readValue_boolText (fuel + ts.length + 1) depth (c.get s) (behindField c (t :: ts))) rfl
    exact hnext.trans (ih _ t)

/-- The text of settings is read as an object with their fields. -/
theorem read_toText : Json.read c.toText = .ok (.object (setFields c [] Setting.all)) := by
  obtain ⟨fuel, hfuel⟩ : ∃ fuel, 2 * c.toText.length + 2 = fuel + Setting.all.tail.length + 2 + 1 := by
    have hlength : 4 ≤ c.toText.length := by
      rw [toText_eq]
      simp only [List.length_cons]
      omega
    exact ⟨2 * c.toText.length - 8, by simp only [Setting.all, List.tail_cons, List.length_cons, List.length_nil]; omega⟩
  have hobject : Json.readValue (2 * c.toText.length + 2) Json.maxDepth (Json.skipSpace c.toText) =
      .ok (.object (setFields c [] Setting.all), []) := by
    rw [hfuel, toText_eq]
    exact readFields_fieldText c fuel (Json.maxDepth - 1) [] .endIndentsEmptyLine Setting.all.tail
  have hmark : ∀ rest, c.toText = '\ufeff' :: rest → False := by
    intro rest heq
    rw [toText_eq] at heq
    exact absurd (List.cons.inj heq).1 (by decide)
  rw [Json.read.eq_2 _ hmark, hobject]
  rfl

/-! ### Taking its fields over -/

private theorem setField_of_not_mem {fields : List (CodeText × Json)} {name : CodeText} (h : name ∉ fields.map Prod.fst)
    (v : Json) : Json.setField fields name v = fields ++ [(name, v)] := by
  induction fields with
  | nil => rfl
  | cons x rest ih =>
    obtain ⟨n, w⟩ := x
    rw [List.map_cons, List.mem_cons, not_or] at h
    rw [Json.setField, if_neg (Ne.symm h.1), ih h.2, List.cons_append]

/-- Fields of different settings are set one behind the other. -/
private theorem setFields_eq {fields : List (CodeText × Json)} {ss : List Setting} (hss : ss.Nodup)
    (hfresh : ∀ s ∈ ss, (c.field s).1 ∉ fields.map Prod.fst) : setFields c fields ss = fields ++ ss.map c.field := by
  induction ss generalizing fields with
  | nil => exact (List.append_nil _).symm
  | cons s ss ih =>
    obtain ⟨hs, hss⟩ := List.nodup_cons.1 hss
    have hset := setField_of_not_mem (hfresh s List.mem_cons_self) (c.field s).2
    have hcons : setFields c fields (s :: ss) =
        setFields c (Json.setField fields (c.field s).1 (c.field s).2) ss := rfl
    rw [hcons, hset, ih hss, List.append_assoc]
    · rfl
    · intro t ht hmem
      rw [List.map_append, List.mem_append] at hmem
      rcases hmem with hmem | hmem
      · exact hfresh t (List.mem_cons_of_mem s ht) hmem
      · have hname := codeText_inj (List.mem_singleton.1 hmem)
        rw [Setting.name_inj (String.toList_inj.1 hname)] at ht
        exact hs ht

private theorem setFields_all : setFields c [] Setting.all = Setting.all.map c.field :=
  setFields_eq c (by decide) fun _ _ => List.not_mem_nil

/-- Fields of settings are flat already. -/
private theorem flattenFields_map_field (flat : List (CodeText × Json)) (ss : List Setting) :
    flattenFields [] flat (ss.map c.field) = setFields c flat ss := by
  induction ss generalizing flat with
  | nil => rfl
  | cons s ss ih => exact ih (Json.setField flat (c.field s).1 (c.field s).2)

/-- Fields of settings are taken over one after the other, and none is passed over. -/
private theorem takeAll_map_field (d : Settings) (ss : List Setting) :
    d.takeAll (ss.map c.field) = (ss.foldl (fun d s => d.set s (c.get s)) d, []) := by
  induction ss generalizing d with
  | nil => rfl
  | cons s ss ih =>
    have hone : d.takeOver (c.field s).1 (c.field s).2 = (d.set s (c.get s), []) := by
      simp only [takeOver, field, Setting.ofName?_name]
    have hcons : d.takeAll ((s :: ss).map c.field) =
        (((d.takeOver (c.field s).1 (c.field s).2).1.takeAll (ss.map c.field)).1,
          (d.takeOver (c.field s).1 (c.field s).2).2 ++
            ((d.takeOver (c.field s).1 (c.field s).2).1.takeAll (ss.map c.field)).2) := rfl
    rw [hcons, hone, ih]
    rfl

/-- Setting every switch as it is set in some settings gives these settings. -/
private theorem foldl_set_all (d : Settings) : Setting.all.foldl (fun d s => d.set s (c.get s)) d = c := by
  cases c
  rfl

theorem ofFields_field : ofFields (setFields c [] Setting.all) = (c, []) := by
  rw [ofFields, flatten, setFields_all, flattenFields_map_field, setFields_all, takeAll_map_field, foldl_set_all]

/-- An object is taken over. -/
private theorem ofFileText_of_read {path : Path} {t : Text} {fields : List (CodeText × Json)}
    (h : Json.read t = .ok (.object fields)) :
    ofFileText path t = .ok ((ofFields fields).1, (ofFields fields).2.map .passedOver) := by
  rw [ofFileText, h]

/-- The settings are found again in their text, and there is nothing to tell about it. -/
theorem ofFileText_toText (path : Path) : ofFileText path (universalNewlines c.toText) = .ok (c, []) := by
  rw [universalNewlines_of_not_mem (return_not_mem_toText c), ofFileText_of_read (read_toText c), ofFields_field,
    List.map_nil]

end Settings

end MultiCaret
