import MultiCaret.Files.System

/-!
# Following paths

A path is followed through directories to the place that its names make up when a double dot goes back by one name; the
place depends on the path alone, and what is there on the files (`FileSystem.find_eq_ok_iff`).  So two states with the
same directories differ only in what a path leads to, and not in whether it leads anywhere
(`FileSystem.SameDirectories.find`).  A path with a further name leads somewhere only if the path without it leads to a
directory (`FileSystem.at?_parent`).
-/

namespace MultiCaret

/-- The place to which a name leads from a place. -/
def Place.next (place : Place) (n : Text) : Place :=
  if n = Path.dotdot then place.dropLast else place ++ [n]

/-- The place to which names lead from a place. -/
def Place.follow (place : Place) (names : List Text) : Place :=
  names.foldl Place.next place

/-- The system takes the path. -/
def Path.Taken (p : Path) : Prop :=
  '\x00' ∉ p.text ∧ (Utf8.encode p.text).length ≤ maxPathBytes

theorem Utf8.encode_append (s t : Text) : encode (s ++ t) = encode s ++ encode t :=
  List.flatMap_append

private theorem joinWith_concat {sep : Char} {ls : List Text} (h : ls ≠ []) (l : Text) :
    joinWith sep (ls ++ [l]) = joinWith sep ls ++ sep :: l := by
  induction ls with
  | nil => exact absurd rfl h
  | cons m ms ih =>
    by_cases hms : ms = []
    · rw [hms]
      rfl
    · rw [List.cons_append, joinWith_cons (by simp), ih hms, joinWith_cons hms, List.append_assoc, List.cons_append]

/-- Without its last name a path is shorter. -/
private theorem Path.Taken.of_concat {start : PathStart} {ns : List Text} {n : Text}
    (h : Path.Taken ⟨start, ns ++ [n]⟩) : Path.Taken ⟨start, ns⟩ := by
  by_cases hns : ns = []
  · subst hns
    cases start <;> exact ⟨by decide, by decide⟩
  · have htext : Path.text ⟨start, ns ++ [n]⟩ = Path.text ⟨start, ns⟩ ++ '/' :: n := by
      simp only [Path.text, hns, List.append_eq_nil_iff, List.cons_ne_nil, and_false, if_false, joinWith_concat hns,
        List.append_assoc]
    obtain ⟨hnull, hlen⟩ := h
    rw [htext] at hnull hlen
    rw [Utf8.encode_append, List.length_append] at hlen
    exact ⟨fun hm => hnull (List.mem_append_left _ hm), by omega⟩

theorem Path.parent_concat (start : PathStart) (ns : List Text) (n : Text) :
    Path.parent ⟨start, ns ++ [n]⟩ = ⟨start, ns⟩ := by
  rw [parent, List.dropLast_concat]

namespace FileSystem

variable {fs fs' : FileSystem} {p : Path} {q : Place}

/-! ### Places and what they hold -/

private theorem lookup_filter (es : List (Place × Entry)) (place q : Place) :
    (es.filter fun x => x.1 != place).lookup q = if q = place then none else es.lookup q := by
  induction es with
  | nil => simp
  | cons x es ih =>
    obtain ⟨k, e⟩ := x
    by_cases hk : k = place
    · rw [List.filter_cons_of_neg (by simp [hk]), ih, List.lookup_cons]
      by_cases hq : q = place
      · rw [if_pos hq, if_pos hq]
      · rw [if_neg hq, if_neg hq, beq_false_of_ne (by rw [hk]; exact hq)]
    · rw [List.filter_cons_of_pos (by simp [hk]), List.lookup_cons, List.lookup_cons, ih]
      by_cases hq : q = k
      · simp only [hq, hk, if_false]
      · rw [beq_false_of_ne hq]

private theorem ne_nil_of_entry? (h : fs.entry? q ≠ some .directory) : q ≠ [] := by
  rintro rfl
  exact h rfl

theorem entry?_put (h : fs.entry? q ≠ some .directory) (e : Entry) (r : Place) :
    FileSystem.entry? (fs.put q e) r = if r = q then some e else fs.entry? r := by
  have hq := ne_nil_of_entry? h
  unfold entry?
  by_cases hr : r = []
  · rw [if_pos hr, if_pos hr, if_neg (fun hrq => hq (hrq.symm.trans hr))]
  · rw [if_neg hr, if_neg hr, put, List.lookup_append, lookup_filter]
    by_cases hrq : r = q
    · rw [if_pos hrq, if_pos hrq, hrq, Option.none_or, List.lookup_cons_self]
    · rw [if_neg hrq, if_neg hrq, List.lookup_cons, beq_false_of_ne hrq, List.lookup_nil, Option.or_none]

theorem entry?_remove (h : fs.entry? q ≠ some .directory) (r : Place) :
    FileSystem.entry? (fs.remove q) r = if r = q then none else fs.entry? r := by
  have hq := ne_nil_of_entry? h
  unfold entry?
  by_cases hr : r = []
  · rw [if_pos hr, if_pos hr, if_neg (fun hrq => hq (hrq.symm.trans hr))]
  · rw [if_neg hr, if_neg hr, remove, lookup_filter]

/-! ### The way of a path -/

/-- The place where a path begins. -/
def base (fs : FileSystem) (p : Path) : Place :=
  if p.start = .here then fs.here else []

/-- The place to which a path leads if it can be followed. -/
def placeOf (fs : FileSystem) (p : Path) : Place :=
  Place.follow (fs.base p) p.names

theorem placeOf_concat (fs : FileSystem) (start : PathStart) (ns : List Text) (n : Text) :
    fs.placeOf ⟨start, ns ++ [n]⟩ = (fs.placeOf ⟨start, ns⟩).next n := by
  rw [placeOf, Place.follow, List.foldl_append]
  rfl

/-- Names can be followed from a place: in front of each of them stands a directory, and none is too long. -/
def Passable (fs : FileSystem) : Place → List Text → Prop
  | _, [] => True
  | place, n :: ns => fs.entry? place = some .directory ∧ (n = Path.dotdot ∨ (Utf8.encode n).length ≤ maxNameBytes) ∧
      fs.Passable (place.next n) ns

theorem passable_concat {place : Place} {ns : List Text} {n : Text} :
    fs.Passable place (ns ++ [n]) ↔ fs.Passable place ns ∧ fs.entry? (place.follow ns) = some .directory ∧
      (n = Path.dotdot ∨ (Utf8.encode n).length ≤ maxNameBytes) := by
  induction ns generalizing place with
  | nil => simp [Passable, Place.follow]
  | cons m ms ih =>
    rw [List.cons_append, Passable, Passable, ih, Place.follow, Place.follow, List.foldl_cons]
    simp only [and_assoc]

private theorem walk_eq_ok_iff {place : Place} {ns : List Text} {e? : Option Entry} :
    fs.walk place ns = .ok (q, e?) ↔ fs.Passable place ns ∧ q = place.follow ns ∧ e? = fs.entry? q := by
  induction ns generalizing place with
  | nil =>
    simp only [walk, Except.ok.injEq, Prod.mk.injEq, Passable, Place.follow, List.foldl_nil, true_and]
    constructor
    · rintro ⟨rfl, rfl⟩
      exact ⟨rfl, rfl⟩
    · rintro ⟨rfl, rfl⟩
      exact ⟨rfl, rfl⟩
  | cons n ns ih =>
    unfold walk Passable
    cases he : fs.entry? place with
    | none => simp
    | some e =>
      cases e with
      | file b => simp
      | directory =>
        simp only [true_and]
        by_cases hdot : n = Path.dotdot
        · simp only [hdot, if_true, true_or, true_and, Place.follow, List.foldl_cons, Place.next] at ih ⊢
          exact ih
        · by_cases hlong : maxNameBytes < (Utf8.encode n).length
          · simp [hdot, hlong, Nat.not_le.2 hlong]
          · simp only [hdot, hlong, if_false, false_or, Nat.not_lt.1 hlong, true_and, Place.follow, List.foldl_cons,
              Place.next] at ih ⊢
            exact ih

theorem refuse_ne_ok {α : Type} {f : FileFault} {a : α} : refuse p f ≠ Except.ok a := by
  intro h
  cases h

/-- A path is found exactly if the system takes it and it can be followed. -/
theorem find_eq_ok_iff {e? : Option Entry} :
    fs.find p = .ok (q, e?) ↔
      (p.Taken ∧ fs.Passable (fs.base p) p.names) ∧ q = fs.placeOf p ∧ e? = fs.entry? q := by
  unfold find Path.Taken
  by_cases hnull : '\x00' ∈ p.text
  · rw [if_pos (List.contains_iff_mem.2 hnull)]
    simp [hnull]
  · rw [if_neg (fun h => hnull (List.contains_iff_mem.1 h))]
    by_cases hlong : maxPathBytes < (Utf8.encode p.text).length
    · rw [if_pos hlong]
      simp only [refuse_ne_ok, Nat.not_le.2 hlong, and_false, false_and]
    · rw [if_neg hlong]
      simp only [hnull, not_false_eq_true, Nat.not_lt.1 hlong, true_and]
      rw [placeOf, ← walk_eq_ok_iff, base]
      cases fs.walk (if p.start = .here then fs.here else []) p.names with
      | ok found => simp only [Except.ok.injEq]
      | error f => simp [refuse_ne_ok]

/-- What a path leads to.  A path that cannot be followed leads to nothing. -/
def at? (fs : FileSystem) (p : Path) : Option Entry :=
  match fs.find p with
  | .ok found => found.2
  | .error _ => none

theorem at?_eq_some_iff {e : Entry} :
    fs.at? p = some e ↔
      (p.Taken ∧ fs.Passable (fs.base p) p.names) ∧ fs.entry? (fs.placeOf p) = some e := by
  unfold at?
  cases h : fs.find p with
  | ok found =>
    obtain ⟨q, e?⟩ := found
    obtain ⟨hway, rfl, rfl⟩ := find_eq_ok_iff.1 h
    simp only [hway, and_self, true_and]
  | error f =>
    simp only [reduceCtorEq, false_iff, not_and]
    intro hway
    rw [find_eq_ok_iff.2 ⟨hway, rfl, rfl⟩] at h
    cases h

/-- A path leads to nothing if its place holds nothing. -/
theorem at?_eq_none (h : fs.entry? (fs.placeOf p) = none) : fs.at? p = none := by
  refine Option.eq_none_iff_forall_ne_some.2 fun e he => ?_
  rw [(at?_eq_some_iff.1 he).2] at h
  cases h

/-- A path that can be followed goes on from a directory. -/
theorem at?_parent {start : PathStart} {ns : List Text} {n : Text} {found : Place × Option Entry}
    (h : fs.find ⟨start, ns ++ [n]⟩ = .ok found) : fs.at? ⟨start, ns⟩ = some .directory := by
  obtain ⟨⟨htaken, hpass⟩, -, -⟩ := find_eq_ok_iff.1 h
  obtain ⟨hpass, hdir, -⟩ := passable_concat.1 hpass
  exact at?_eq_some_iff.2 ⟨⟨htaken.of_concat, hpass⟩, hdir⟩

theorem at?_parent_of_names (hp : p.names ≠ []) {found : Place × Option Entry} (h : fs.find p = .ok found) :
    fs.at? p.parent = some .directory := by
  have hconcat : p = ⟨p.start, p.names.dropLast ++ [p.names.getLast hp]⟩ := by rw [List.dropLast_concat_getLast]
  rw [hconcat] at h
  exact at?_parent h

/-- Where the current directory is one, a path to a file has a last name. -/
theorem names_of_find {b : Bytes} (hhere : fs.entry? fs.here = some .directory)
    (h : fs.find p = .ok (q, some (.file b))) : p.names ≠ [] := by
  intro hnames
  obtain ⟨-, hplace, hentry⟩ := find_eq_ok_iff.1 h
  have hbase : fs.entry? (fs.base p) = some .directory := by
    unfold base
    split
    · exact hhere
    · rfl
  rw [placeOf, hnames] at hplace
  rw [hplace, Place.follow, List.foldl_nil, hbase] at hentry
  cases hentry

/-! ### States with the same directories -/

/-- The same places are directories. -/
structure SameDirectories (fs fs' : FileSystem) : Prop where
  here : fs'.here = fs.here
  directories : ∀ q, fs'.entry? q = some .directory ↔ fs.entry? q = some .directory

theorem SameDirectories.symm (h : SameDirectories fs fs') : SameDirectories fs' fs :=
  ⟨h.here.symm, fun q => (h.directories q).symm⟩

theorem SameDirectories.trans {fs'' : FileSystem} (h : SameDirectories fs fs') (h' : SameDirectories fs' fs'') :
    SameDirectories fs fs'' :=
  ⟨h'.here.trans h.here, fun q => (h'.directories q).trans (h.directories q)⟩

theorem placeOf_congr (h : fs'.here = fs.here) (p : Path) : fs'.placeOf p = fs.placeOf p := by
  rw [placeOf, placeOf, base, base, h]

private theorem SameDirectories.passable (h : SameDirectories fs fs') {place : Place} {ns : List Text} :
    fs'.Passable place ns ↔ fs.Passable place ns := by
  induction ns generalizing place with
  | nil => exact Iff.rfl
  | cons n ns ih => rw [Passable, Passable, h.directories, ih]

/-- A path leads to the same place. -/
theorem SameDirectories.find (h : SameDirectories fs fs') {e? : Option Entry} (hfind : fs.find p = .ok (q, e?)) :
    fs'.find p = .ok (q, fs'.entry? q) := by
  obtain ⟨⟨htaken, hpass⟩, rfl, -⟩ := find_eq_ok_iff.1 hfind
  refine find_eq_ok_iff.2 ⟨⟨htaken, ?_⟩, (placeOf_congr h.here p).symm, rfl⟩
  rw [base, h.here]
  exact h.passable.2 hpass

/-- A path leads to the same thing if its place holds the same. -/
theorem SameDirectories.at? (h : SameDirectories fs fs')
    (heq : fs'.entry? (fs.placeOf p) = fs.entry? (fs.placeOf p)) : fs'.at? p = fs.at? p := by
  refine Option.ext fun e => ?_
  rw [at?_eq_some_iff, at?_eq_some_iff, placeOf_congr h.here, heq, base, h.here, h.passable]
  rfl

theorem sameDirectories_put (h : fs.entry? q ≠ some .directory) (b : Bytes) :
    SameDirectories fs (fs.put q (.file b)) := by
  refine ⟨rfl, fun r => ?_⟩
  rw [entry?_put h]
  split
  · next hr => simp [hr, h]
  · exact Iff.rfl

theorem sameDirectories_remove (h : fs.entry? q ≠ some .directory) : SameDirectories fs (fs.remove q) := by
  refine ⟨rfl, fun r => ?_⟩
  rw [entry?_remove h]
  split
  · next hr => simp [hr, h]
  · exact Iff.rfl

end FileSystem

end MultiCaret
