import MultiCaret.Settings.Source

/-!
# The leaves of user data

The leaves of an object are its values that are no objects, at whatever depth, each with the keys on the way to it
(`leavesBelow`).  Flattening an object sets its leaves one after the other under their dotted names
(`flattenFields_eq`), so that the last leaf of a name counts, however the name is made up of keys.  Hence a setting is
what the last leaf of its name says, and on if this says nothing of use (`Settings.ofFields_get`).
-/

namespace MultiCaret

/-- A value in user data, with the keys on the way to it. -/
abbrev Leaf := List CodeText × Json

/-- The keys on the way to a value, with dots between them. -/
def dottedName (path : List CodeText) : CodeText :=
  [.char '.'].intercalate path

/-- Keys with a dot behind each of them. -/
def dottedPrefix (path : List CodeText) : CodeText :=
  path.flatMap fun key => key ++ [.char '.']

mutual

/-- The leaves of a value to which the keys of a path lead, depth first. -/
def leavesAt (path : List CodeText) : Json → List Leaf
  | .object fields => leavesBelow path fields
  | v => [(path, v)]

/-- The leaves of the fields of an object to which the keys of a path lead, depth first. -/
def leavesBelow (path : List CodeText) : List (CodeText × Json) → List Leaf
  | [] => []
  | (key, v) :: rest => leavesAt (path ++ [key]) v ++ leavesBelow path rest

end

/-- The values of the leaves with a dotted name, in the order of the leaves. -/
def valuesNamed (name : CodeText) (leaves : List Leaf) : List Json :=
  (leaves.filter fun l => decide (dottedName l.1 = name)).map Prod.snd

/-- The truth value that a value is, if it is one. -/
def Json.bool? : Json → Option Bool
  | .bool b => some b
  | _ => none

/-! ### Dotted names -/

private theorem dottedPrefix_concat (path : List CodeText) (key : CodeText) :
    dottedPrefix (path ++ [key]) = dottedPrefix path ++ key ++ [.char '.'] := by
  simp [dottedPrefix]

private theorem dottedName_concat (path : List CodeText) (key : CodeText) :
    dottedName (path ++ [key]) = dottedPrefix path ++ key := by
  induction path with
  | nil => simp [dottedName, dottedPrefix]
  | cons k ks ih =>
    obtain ⟨m, ms, hks⟩ : ∃ m ms, ks ++ [key] = m :: ms := List.exists_cons_of_ne_nil (by simp)
    rw [dottedName, hks] at ih
    rw [dottedName, List.cons_append, hks, List.intercalate_cons_cons, ih]
    simp [dottedPrefix]

private theorem valuesNamed_cons (name : CodeText) (l : Leaf) (ls : List Leaf) :
    valuesNamed name (l :: ls) =
      if dottedName l.1 = name then l.2 :: valuesNamed name ls else valuesNamed name ls := by
  unfold valuesNamed
  by_cases h : dottedName l.1 = name
  · rw [if_pos h, List.filter_cons_of_pos (by simpa using h), List.map_cons]
  · rw [if_neg h, List.filter_cons_of_neg (by simpa using h)]

/-! ### Setting leaves one after the other -/

/-- Sets the values of leaves under their dotted names, one after the other. -/
def setLeaves (flat : List (CodeText × Json)) (leaves : List Leaf) : List (CodeText × Json) :=
  leaves.foldl (fun flat l => Json.setField flat (dottedName l.1) l.2) flat

private theorem setLeaves_append (flat : List (CodeText × Json)) (ls ls' : List Leaf) :
    setLeaves flat (ls ++ ls') = setLeaves (setLeaves flat ls) ls' :=
  List.foldl_append

namespace Settings

mutual

/-- A value is added leaf by leaf. -/
theorem flattenValue_eq (path : List CodeText) (key : CodeText) (flat : List (CodeText × Json)) :
    ∀ v, flattenValue (dottedName (path ++ [key])) flat v = setLeaves flat (leavesAt (path ++ [key]) v)
  | .object fields => by
    rw [flattenValue, leavesAt, ← flattenFields_eq, dottedPrefix_concat, dottedName_concat]
  | .null => rfl
  | .bool b => rfl
  | .int n => rfl
  | .float x => rfl
  | .str t => rfl
  | .list items => rfl

/-- The fields of an object are added leaf by leaf. -/
theorem flattenFields_eq (path : List CodeText) (flat : List (CodeText × Json)) :
    ∀ fields, flattenFields (dottedPrefix path) flat fields = setLeaves flat (leavesBelow path fields)
  | [] => rfl
  | (key, v) :: rest => by
    rw [flattenFields, leavesBelow, setLeaves_append, ← flattenValue_eq, ← flattenFields_eq, dottedName_concat]

end

theorem flatten_eq (fields : List (CodeText × Json)) : flatten fields = setLeaves [] (leavesBelow [] fields) :=
  flattenFields_eq [] [] fields

end Settings

/-! ### What is found under a name -/

private theorem lookup_cons_ne {α : Type} {n m : CodeText} (h : m ≠ n) (v : α) (rest : List (CodeText × α)) :
    ((n, v) :: rest).lookup m = rest.lookup m := by
  rw [List.lookup_cons, beq_eq_false_iff_ne.2 h]

private theorem lookup_setField (flat : List (CodeText × Json)) (name m : CodeText) (v : Json) :
    (Json.setField flat name v).lookup m = if m = name then some v else flat.lookup m := by
  induction flat with
  | nil =>
    rw [Json.setField]
    by_cases h : m = name
    · rw [if_pos h, h, List.lookup_cons_self]
    · rw [if_neg h, lookup_cons_ne h]
  | cons x rest ih =>
    obtain ⟨n, w⟩ := x
    rw [Json.setField]
    -- the name is set in its place, or further behind
    by_cases hn : n = name
    · rw [if_pos hn, hn]
      by_cases h : m = name
      · rw [if_pos h, h, List.lookup_cons_self]
      · rw [if_neg h, lookup_cons_ne h, lookup_cons_ne h]
    · rw [if_neg hn]
      by_cases hm : m = n
      · rw [hm, if_neg hn, List.lookup_cons_self, List.lookup_cons_self]
      · rw [lookup_cons_ne hm, lookup_cons_ne hm, ih]

private theorem keys_setField (flat : List (CodeText × Json)) (name : CodeText) (v : Json) :
    (Json.setField flat name v).map Prod.fst =
      if name ∈ flat.map Prod.fst then flat.map Prod.fst else flat.map Prod.fst ++ [name] := by
  induction flat with
  | nil => rfl
  | cons x rest ih =>
    obtain ⟨n, w⟩ := x
    rw [Json.setField]
    by_cases hn : n = name
    · simp [hn]
    · rw [if_neg hn, List.map_cons, ih]
      by_cases hmem : name ∈ rest.map Prod.fst
      · simp [hmem]
      · simp only [List.map_cons, List.mem_cons, hmem, or_false, if_false, Ne.symm hn, List.cons_append]

private theorem nodup_keys_setField {flat : List (CodeText × Json)} (h : (flat.map Prod.fst).Nodup) (name : CodeText)
    (v : Json) : ((Json.setField flat name v).map Prod.fst).Nodup := by
  rw [keys_setField]
  split
  · exact h
  · next hmem =>
    rw [List.nodup_append]
    refine ⟨h, by simp, ?_⟩
    intro a ha b hb hab
    rw [List.mem_singleton.1 hb] at hab
    exact hmem (hab ▸ ha)

/-- Leaves are set under names that occur once each. -/
private theorem nodup_keys_setLeaves (flat : List (CodeText × Json)) (h : (flat.map Prod.fst).Nodup) (ls : List Leaf) :
    ((setLeaves flat ls).map Prod.fst).Nodup := by
  induction ls generalizing flat with
  | nil => exact h
  | cons l ls ih => exact ih _ (nodup_keys_setField h _ _)

/-- Under a name stands what the last leaf of this name has set, or what was there if no leaf has it. -/
private theorem lookup_setLeaves (flat : List (CodeText × Json)) (ls : List Leaf) (name : CodeText) :
    (setLeaves flat ls).lookup name = (valuesNamed name ls).getLast?.or (flat.lookup name) := by
  induction ls generalizing flat with
  | nil => rfl
  | cons l ls ih =>
    have hcons : setLeaves flat (l :: ls) = setLeaves (Json.setField flat (dottedName l.1) l.2) ls := rfl
    rw [hcons, ih, lookup_setField, valuesNamed_cons]
    by_cases h : dottedName l.1 = name
    · rw [if_pos h.symm, if_pos h, List.getLast?_cons]
      cases (valuesNamed name ls).getLast? with
      | none => rfl
      | some v => rfl
    · rw [if_neg (Ne.symm h), if_neg h]

/-! ### The settings -/

theorem Setting.ofName?_eq_some_iff {t : CodeText} {s : Setting} :
    Setting.ofName? t = some s ↔ t = codeText s.name.toList := by
  constructor
  · intro h
    have hfound := List.find?_some h
    exact (beq_iff_eq.1 hfound).symm
  · rintro rfl
    exact Setting.ofName?_name s

namespace Settings

/-- One named value concerns the setting of this name only. -/
private theorem get_takeOver (c : Settings) (name : CodeText) (v : Json) (s : Setting) :
    (c.takeOver name v).1.get s = if name = codeText s.name.toList then v.bool?.getD (c.get s) else c.get s := by
  unfold takeOver
  split
  · next hnone =>
    have hne : name ≠ codeText s.name.toList := by
      intro h
      rw [Setting.ofName?_eq_some_iff.2 h] at hnone
      cases hnone
    rw [if_neg hne]
  · next t on hname =>
    have ht := Setting.ofName?_eq_some_iff.1 hname
    rw [get_set, ht]
    by_cases hst : s = t
    · rw [if_pos hst, hst, if_pos rfl]
      rfl
    · have hne : codeText t.name.toList ≠ codeText s.name.toList := by
        intro h
        have hsame := Setting.ofName?_name t
        rw [h, Setting.ofName?_name] at hsame
        exact hst (Option.some.inj hsame)
      rw [if_neg hst, if_neg hne]
  · next v _ _ _ _ hbool =>
    have hnone : v.bool? = none := by
      unfold Json.bool?
      split
      · next on => exact absurd rfl (hbool on)
      · rfl
    rw [hnone]
    split
    · rfl
    · rfl

/-- Of named values with different names, a setting takes over the one of its name. -/
private theorem get_takeAll (c : Settings) {flat : List (CodeText × Json)} (h : (flat.map Prod.fst).Nodup)
    (s : Setting) :
    (c.takeAll flat).1.get s = ((flat.lookup (codeText s.name.toList)).bind Json.bool?).getD (c.get s) := by
  induction flat generalizing c with
  | nil => rfl
  | cons x rest ih =>
    obtain ⟨name, v⟩ := x
    obtain ⟨hfresh, hrest⟩ := List.nodup_cons.1 h
    have hcons : (c.takeAll ((name, v) :: rest)).1 = ((c.takeOver name v).1.takeAll rest).1 := rfl
    rw [hcons, ih _ hrest, get_takeOver]
    by_cases hname : name = codeText s.name.toList
    · -- the name does not come again
      have hnone : rest.lookup name = none := by
        rw [List.lookup_eq_none_iff]
        intro y hy
        rw [bne_iff_ne]
        intro hy'
        exact hfresh (List.mem_map.2 ⟨y, hy, hy'.symm⟩)
      rw [if_pos hname, ← hname, hnone, List.lookup_cons_self]
      rfl
    · rw [if_neg hname, lookup_cons_ne (Ne.symm hname)]

/-- The settings that come of leaves, set one after the other. -/
theorem get_setLeaves (ls : List Leaf) (s : Setting) :
    (({} : Settings).takeAll (setLeaves [] ls)).1.get s =
      ((valuesNamed (codeText s.name.toList) ls).getLast?.bind Json.bool?).getD true := by
  rw [get_takeAll _ (nodup_keys_setLeaves [] List.nodup_nil ls), get_default, lookup_setLeaves]
  simp

/-- A setting is what the last leaf of its name says if this leaf is a truth value; if it is not, or if there is no such
leaf, the setting is on. -/
theorem ofFields_get (fields : List (CodeText × Json)) (s : Setting) :
    (ofFields fields).1.get s =
      ((valuesNamed (codeText s.name.toList) (leavesBelow [] fields)).getLast?.bind Json.bool?).getD true := by
  rw [ofFields, flatten_eq]
  exact get_setLeaves (leavesBelow [] fields) s

end Settings

end MultiCaret
