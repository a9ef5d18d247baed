import Mathlib.Data.List.Induction
import MultiCaret.Proofs.Settings.Leaves

/-!
# Leaves that are passed over

Two kinds of leaves are passed over with a warning: those whose name is no setting, and those that are no truth values.
Leaving leaves out of the data leaves them out of its leaves (`leavesBelow_pruneBelow`).  For names that are no settings
this changes nothing, but leaves are passed over only after those of one name have become one: a leaf that is no truth
value takes the place of the earlier ones of its name before it is passed over itself.  So it does matter when a switch
has been turned off in front of it (`Settings.ofFields_prune`).
-/

namespace MultiCaret

mutual

/-- A value to which the keys of a path lead without the leaves that are not kept.  Nothing remains of such a leaf. -/
def pruneAt (keep : Leaf → Bool) (path : List CodeText) : Json → Option Json
  | .object fields => some (.object (pruneBelow keep path fields))
  | v => if keep (path, v) then some v else none

/-- The fields of an object to which the keys of a path lead without the leaves that are not kept.  Objects stay, also
empty ones. -/
def pruneBelow (keep : Leaf → Bool) (path : List CodeText) : List (CodeText × Json) → List (CodeText × Json)
  | [] => []
  | (key, v) :: rest =>
    match pruneAt keep (path ++ [key]) v with
    | some kept => (key, kept) :: pruneBelow keep path rest
    | none => pruneBelow keep path rest

end

/-- The dotted name of the leaf is that of a setting. -/
def isKnown (l : Leaf) : Bool :=
  (Setting.ofName? (dottedName l.1)).isSome

/-- The leaf is a truth value. -/
def isSwitch (l : Leaf) : Bool :=
  l.2.bool?.isSome

/-- Of the values of a setting, the last truth value is false, and others come behind it. -/
def OffUndone (vs : List Json) : Prop :=
  ∃ front back, vs = front ++ .bool false :: back ∧ back ≠ [] ∧ ∀ v ∈ back, v.bool? = none

/-! ### The leaves that are left -/

variable {keep : Leaf → Bool}

/-- A value that is no object is kept or left out as a whole. -/
private theorem leavesAt_pruneAt_leaf (path : List CodeText) {v : Json}
    (hprune : pruneAt keep path v = if keep (path, v) then some v else none) (hleaves : leavesAt path v = [(path, v)]) :
    ((pruneAt keep path v).elim [] fun kept => leavesAt path kept) = (leavesAt path v).filter keep := by
  rw [hprune, hleaves]
  by_cases h : keep (path, v) = true
  · rw [if_pos h, Option.elim_some, hleaves, List.filter_cons_of_pos h, List.filter_nil]
  · rw [if_neg h, Option.elim_none, List.filter_cons_of_neg h, List.filter_nil]

mutual

theorem leavesAt_pruneAt (path : List CodeText) :
    ∀ v, ((pruneAt keep path v).elim [] fun kept => leavesAt path kept) = (leavesAt path v).filter keep
  | .object fields => by
    rw [pruneAt, Option.elim_some, leavesAt, leavesAt, leavesBelow_pruneBelow]
  | .null => leavesAt_pruneAt_leaf path rfl rfl
  | .bool b => leavesAt_pruneAt_leaf path rfl rfl
  | .int n => leavesAt_pruneAt_leaf path rfl rfl
  | .float x => leavesAt_pruneAt_leaf path rfl rfl
  | .str t => leavesAt_pruneAt_leaf path rfl rfl
  | .list items => leavesAt_pruneAt_leaf path rfl rfl

/-- What is left out of the data is left out of its leaves. -/
theorem leavesBelow_pruneBelow (path : List CodeText) :
    ∀ fields, leavesBelow path (pruneBelow keep path fields) = (leavesBelow path fields).filter keep
  | [] => rfl
  | (key, v) :: rest => by
    rw [leavesBelow, List.filter_append, ← leavesAt_pruneAt (path ++ [key]) v, ← leavesBelow_pruneBelow path rest,
      pruneBelow]
    split
    · next kept h => rw [h, leavesBelow, Option.elim_some]
    · next h => rw [h, Option.elim_none, List.nil_append]

end

/-- Values of one name are left out as their leaves are. -/
private theorem valuesNamed_filter {name : CodeText} {ls : List Leaf} {good : Json → Bool}
    (h : ∀ l ∈ ls, dottedName l.1 = name → keep l = good l.2) :
    valuesNamed name (ls.filter keep) = (valuesNamed name ls).filter good := by
  unfold valuesNamed
  rw [List.filter_map, List.filter_filter, List.filter_filter]
  refine congrArg _ (List.filter_congr ?_)
  intro l hl
  by_cases hname : dottedName l.1 = name
  · simp [hname, h l hl hname]
  · simp [hname]

/-! ### The last truth value -/

private theorem eq_of_bool?_eq_some {v : Json} {b : Bool} (h : v.bool? = some b) : v = .bool b := by
  unfold Json.bool? at h
  split at h
  · rw [Option.some.inj h]
  · cases h

/-- A list cut at one of its elements: its last element is that one, or it is the last one behind the cut. -/
private theorem concat_eq_cut {α : Type} {vs front back : List α} {v w : α} (h : vs ++ [v] = front ++ w :: back) :
    (back = [] ∧ v = w) ∨ ∃ rest, back = rest ++ [v] ∧ vs = front ++ w :: rest := by
  rcases List.eq_nil_or_concat back with rfl | ⟨rest, u, rfl⟩
  · left
    exact ⟨rfl, List.singleton_inj.1 (List.append_inj' h rfl).2⟩
  · right
    rw [List.concat_eq_append, ← List.cons_append, ← List.append_assoc] at h
    obtain ⟨hvs, hlast⟩ := List.append_inj' h rfl
    obtain rfl := List.singleton_inj.1 hlast
    exact ⟨rest, List.concat_eq_append, hvs⟩

/-- The last truth value is false if nothing but other values comes behind it. -/
private theorem lastSwitch_eq_false_iff (vs : List Json) :
    ((vs.filter fun v => v.bool?.isSome).getLast?.bind Json.bool?).getD true = false ↔
      ∃ front back, vs = front ++ .bool false :: back ∧ ∀ v ∈ back, v.bool? = none := by
  induction vs using List.reverseRecOn with
  | nil => simp
  | append_singleton vs v ih =>
    cases hv : v.bool? with
    | none =>
      have hdrop : (vs ++ [v]).filter (fun v => v.bool?.isSome) = vs.filter fun v => v.bool?.isSome := by
        simp [hv]
      rw [hdrop, ih]
      constructor
      · rintro ⟨front, back, rfl, hback⟩
        refine ⟨front, back ++ [v], by simp, ?_⟩
        intro w hw
        rcases List.mem_append.1 hw with hw | hw
        · exact hback w hw
        · rw [List.mem_singleton.1 hw, hv]
      · rintro ⟨front, back, hcut, hback⟩
        -- the value at the end is no truth value, so it stands behind the false one
        rcases concat_eq_cut hcut with ⟨-, rfl⟩ | ⟨rest, rfl, hvs⟩
        · cases hv
        · refine ⟨front, rest, hvs, ?_⟩
          intro w hw
          exact hback w (List.mem_append_left _ hw)
    | some b =>
      have hlast : (((vs ++ [v]).filter fun v => v.bool?.isSome).getLast?.bind Json.bool?).getD true = b := by
        simp [hv]
      rw [hlast]
      obtain rfl := eq_of_bool?_eq_some hv
      constructor
      · rintro rfl
        exact ⟨vs, [], rfl, fun v hv => absurd hv List.not_mem_nil⟩
      · rintro ⟨front, back, hcut, hback⟩
        rcases concat_eq_cut hcut with ⟨-, hsame⟩ | ⟨rest, rfl, -⟩
        · exact Json.bool.inj hsame
        · have hnone := hback (.bool b) (by simp)
          cases hnone

/-- Passing over the other values before the last one is taken makes a difference exactly if a switch has been turned
off and others come behind that. -/
private theorem lastSwitch_filter_eq_iff (vs : List Json) :
    ((vs.filter fun v => v.bool?.isSome).getLast?.bind Json.bool?).getD true =
        (vs.getLast?.bind Json.bool?).getD true ↔ ¬ OffUndone vs := by
  have hoff := lastSwitch_eq_false_iff vs
  cases hlast : (vs.getLast?.bind Json.bool?).getD true with
  | false =>
    obtain ⟨front, rfl⟩ : ∃ front, vs = front ++ [.bool false] := by
      cases hv : vs.getLast? with
      | none => simp [hv] at hlast
      | some v =>
        cases hb : v.bool? with
        | none => simp [hv, hb] at hlast
        | some b =>
          obtain rfl : b = false := by simpa [hv, hb] using hlast
          obtain rfl := eq_of_bool?_eq_some hb
          exact List.getLast?_eq_some_iff.1 hv
    constructor
    · rintro - ⟨front', back, hcut, hne, hback⟩
      rcases concat_eq_cut hcut with ⟨hnil, -⟩ | ⟨rest, rfl, -⟩
      · exact hne hnil
      · have hnone := hback (.bool false) (by simp)
        cases hnone
    · intro _
      exact hoff.2 ⟨front, [], rfl, fun v hv => absurd hv List.not_mem_nil⟩
  | true =>
    rw [← Bool.not_eq_false, not_iff_not, hoff]
    constructor
    · rintro ⟨front, back, hcut, hback⟩
      refine ⟨front, back, hcut, ?_, hback⟩
      rintro rfl
      rw [hcut, List.getLast?_concat] at hlast
      cases hlast
    · rintro ⟨front, back, hcut, -, hback⟩
      exact ⟨front, back, hcut, hback⟩

/-! ### The settings -/

namespace Settings

variable {fields : List (CodeText × Json)}

/-- What a setting is when leaves are left out, those of its own name as `good` says. -/
private theorem get_pruneBelow {s : Setting} (keep : Leaf → Bool) (good : Json → Bool)
    (h : ∀ l : Leaf, dottedName l.1 = codeText s.name.toList → keep l = good l.2) :
    (ofFields (pruneBelow keep [] fields)).1.get s =
      (((valuesNamed (codeText s.name.toList) (leavesBelow [] fields)).filter good).getLast?.bind
        Json.bool?).getD true := by
  rw [ofFields, flatten_eq, get_setLeaves, leavesBelow_pruneBelow, valuesNamed_filter fun l _ => h l]

private theorem isKnown_of_name {l : Leaf} {s : Setting} (h : dottedName l.1 = codeText s.name.toList) :
    isKnown l = true := by
  rw [isKnown, Setting.ofName?_eq_some_iff.2 h]
  rfl

/-- Leaves whose names are no settings make no difference.  That leaves which are no truth values are left out makes a
difference exactly if a switch has been turned off and such leaves of its name come behind that. -/
theorem ofFields_prune (fields : List (CodeText × Json)) :
    (ofFields (pruneBelow isKnown [] fields)).1 = (ofFields fields).1 ∧
    ((ofFields (pruneBelow (fun l => isKnown l && isSwitch l) [] fields)).1 = (ofFields fields).1 ↔
      ∀ s : Setting, ¬ OffUndone (valuesNamed (codeText s.name.toList) (leavesBelow [] fields))) := by
  have hget : ∀ s : Setting, (ofFields fields).1.get s =
      ((valuesNamed (codeText s.name.toList) (leavesBelow [] fields)).getLast?.bind Json.bool?).getD true := by
    intro s
    rw [ofFields, flatten_eq, get_setLeaves]
  constructor
  · refine ext_get ?_
    intro s
    rw [get_pruneBelow isKnown (fun _ => true) fun l hl => isKnown_of_name hl, hget,
      List.filter_eq_self.2 fun _ _ => rfl]
  · have hswitch : ∀ s : Setting,
        (ofFields (pruneBelow (fun l => isKnown l && isSwitch l) [] fields)).1.get s = (ofFields fields).1.get s ↔
          ¬ OffUndone (valuesNamed (codeText s.name.toList) (leavesBelow [] fields)) := by
      intro s
      have hgood : ∀ l : Leaf, dottedName l.1 = codeText s.name.toList →
          (isKnown l && isSwitch l) = l.2.bool?.isSome := by
        intro l hl
        rw [isKnown_of_name hl, Bool.true_and, isSwitch]
      rw [get_pruneBelow (fun l => isKnown l && isSwitch l) (fun v => v.bool?.isSome) hgood, hget]
      exact lastSwitch_filter_eq_iff _
    constructor
    · intro h s
      exact (hswitch s).1 (h ▸ rfl)
    · intro h
      exact ext_get fun s => (hswitch s).2 (h s)

/-- A switch that is turned off by its keys and then given a text by its dotted name is on; without the text it would be
off. -/
theorem ofFields_prune_textBehindOff :
    ¬ ∀ fields : List (CodeText × Json),
      (ofFields (pruneBelow (fun l => isKnown l && isSwitch l) [] fields)).1 = (ofFields fields).1 := by
  intro h
  have hsame := congrArg (fun c => c.get .endIndentsEmptyLine) (h
    [(codeText "smartEnd".toList, .object [(codeText "indentEmptyLine".toList, .bool false)]),
      (codeText "smartEnd.indentEmptyLine".toList, .str (codeText "no".toList))])
  revert hsame
  decide +kernel

end Settings

end MultiCaret
