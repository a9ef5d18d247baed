import Mathlib.Data.List.Induction
import MultiCaret.Proofs.Files.Following

/-!
# Making directories

Making the directories of a path takes nothing away and adds directories on the way of the path only (`Grown`).  It
succeeds exactly if the path leads to a directory afterwards (`FileSystem.makeDirectories_spec`), and does nothing
if it does so before (`FileSystem.makeDirectories_of_directory`).  Where every entry lies in a directory, a path without
double dots leads to nothing new through the directories that are made on its way (`FileSystem.Grown.at?`).
-/

namespace MultiCaret

namespace FileSystem

variable {fs fs' : FileSystem} {p : Path} {q : Place}

/-- Nothing is taken away, and what is added are directories on the way of a path. -/
structure Grown (p : Path) (fs fs' : FileSystem) : Prop where
  here : fs'.here = fs.here
  kept : ∀ q e, fs.entry? q = some e → fs'.entry? q = some e
  made : ∀ q, fs.entry? q = none → fs'.entry? q = none ∨
    fs'.entry? q = some .directory ∧ ∃ ns, ns <+: p.names ∧ q = fs.placeOf ⟨p.start, ns⟩

theorem Grown.refl (p : Path) (fs : FileSystem) : Grown p fs fs :=
  ⟨rfl, fun _ _ h => h, fun _ h => Or.inl h⟩

theorem Grown.trans {fs'' : FileSystem} (h : Grown p fs fs') (h' : Grown p fs' fs'') : Grown p fs fs'' where
  here := h'.here.trans h.here
  kept q e he := h'.kept q e (h.kept q e he)
  made q hq := by
    rcases h.made q hq with hq' | ⟨hdir, hway⟩
    · rcases h'.made q hq' with hq'' | ⟨hdir, ns, hns, hplace⟩
      · exact Or.inl hq''
      · exact Or.inr ⟨hdir, ns, hns, hplace.trans (placeOf_congr h.here _)⟩
    · exact Or.inr ⟨h'.kept q _ hdir, hway⟩

/-- The way of a path is part of the way of a longer one. -/
private theorem Grown.of_prefix {start : PathStart} {ns ms : List Text} (h : Grown ⟨start, ns⟩ fs fs')
    (hns : ns <+: ms) : Grown ⟨start, ms⟩ fs fs' where
  here := h.here
  kept := h.kept
  made q hq := (h.made q hq).imp_right fun ⟨hdir, ls, hls, hplace⟩ => ⟨hdir, ls, hls.trans hns, hplace⟩

private theorem Grown.passable (h : Grown p fs fs') {place : Place} {ns : List Text} (hpass : fs.Passable place ns) :
    fs'.Passable place ns := by
  induction ns generalizing place with
  | nil => trivial
  | cons n ns ih => exact ⟨h.kept _ _ hpass.1, hpass.2.1, ih hpass.2.2⟩

/-! ### One directory -/

private theorem makeDirectory_eq_ok_iff :
    fs.makeDirectory p = .ok fs' ↔ ∃ q, fs.find p = .ok (q, none) ∧ fs' = fs.put q .directory := by
  unfold makeDirectory
  cases h : fs.find p with
  | error e => simp [bind, Except.bind]
  | ok found =>
    obtain ⟨q, e?⟩ := found
    cases e? with
    | none => simp [bind, Except.bind, eq_comm]
    | some e => simp [bind, Except.bind, refuse_ne_ok]

/-- A directory is not made because its path cannot be followed, or because something is there. -/
private theorem makeDirectory_eq_error {e : FileError} (h : fs.makeDirectory p = .error e) :
    fs.find p = .error e ∨ (∃ q f, fs.find p = .ok (q, some f)) ∧ e = .refused .alreadyThere p.text none := by
  unfold makeDirectory at h
  cases hfind : fs.find p with
  | error f =>
    rw [hfind] at h
    exact Or.inl (congrArg _ (Except.error.inj h))
  | ok found =>
    obtain ⟨q, e?⟩ := found
    rw [hfind] at h
    cases e? with
    | none => cases h
    | some f => exact Or.inr ⟨⟨q, f, rfl⟩, (Except.error.inj h).symm⟩

private theorem makeDirectory_grown (h : fs.makeDirectory p = .ok fs') :
    Grown p fs fs' ∧ fs'.at? p = some .directory := by
  obtain ⟨q, hfind, rfl⟩ := makeDirectory_eq_ok_iff.1 h
  obtain ⟨⟨htaken, hpass⟩, hplace, hnone⟩ := find_eq_ok_iff.1 hfind
  have hfree : fs.entry? q ≠ some .directory := by
    rw [← hnone]
    exact nofun
  have hput := entry?_put hfree .directory
  have hgrown : Grown p fs (fs.put q .directory) := by
    refine ⟨rfl, ?_, ?_⟩
    · intro r e he
      rw [hput, if_neg, he]
      rintro rfl
      rw [← hnone] at he
      cases he
    · intro r hr
      rw [hput]
      by_cases hrq : r = q
      · rw [if_pos hrq]
        exact Or.inr ⟨rfl, p.names, List.prefix_refl _, hrq.trans hplace⟩
      · rw [if_neg hrq]
        exact Or.inl hr
  refine ⟨hgrown, at?_eq_some_iff.2 ⟨⟨htaken, ?_⟩, ?_⟩⟩
  · rw [base, hgrown.here]
    exact hgrown.passable hpass
  · rw [placeOf_congr hgrown.here, ← hplace, hput, if_pos rfl]

private theorem isDirectoryAt_eq_ok_true_iff : fs.isDirectoryAt p = .ok true ↔ fs.at? p = some .directory := by
  unfold isDirectoryAt look at?
  cases fs.find p with
  | ok found => simp [Except.map]
  | error e =>
    cases e with
    | nullInPath => simp [Except.map]
    | refused fault path other => cases fault <;> simp [Except.map]

/-- That a directory cannot be made is accepted exactly if there is one. -/
private theorem unlessDirectory_eq_none_iff {e : FileError} (h : fs.makeDirectory p = .error e) :
    fs.unlessDirectory p e = none ↔ fs.at? p = some .directory := by
  cases e with
  | nullInPath =>
    have hfind : fs.find p = .error .nullInPath := by
      rcases makeDirectory_eq_error h with hfind | ⟨-, he⟩
      · exact hfind
      · cases he
    simp [unlessDirectory, at?, hfind]
  | refused fault path other =>
    rw [← isDirectoryAt_eq_ok_true_iff, unlessDirectory]
    cases fs.isDirectoryAt p with
    | error e => simp
    | ok there => cases there <;> simp

/-- A directory whose surroundings are missing is not there. -/
private theorem at?_of_noEntry {path : Text} {other : Option Text}
    (h : fs.makeDirectory p = .error (.refused .noEntry path other)) : fs.at? p = none := by
  rcases makeDirectory_eq_error h with hfind | ⟨-, he⟩
  · rw [at?, hfind]
  · cases he

/-! ### All directories of a path -/

/-- An attempt to make the directories of a path: what it may add, and that it succeeds exactly if they are there
afterwards. -/
structure MakesDirectories (p : Path) (fs : FileSystem) (made : FileSystem × Option FileError) : Prop where
  grown : Grown p fs made.1
  none_iff : made.2 = none ↔ made.1.at? p = some .directory

private theorem makesDirectories_ok (h : fs.makeDirectory p = .ok fs') : MakesDirectories p fs (fs', none) := by
  obtain ⟨hgrown, hdir⟩ := makeDirectory_grown h
  exact ⟨hgrown, by simp [hdir]⟩

private theorem makesDirectories_unless {e : FileError} (h : fs.makeDirectory p = .error e) :
    MakesDirectories p fs (fs, fs.unlessDirectory p e) :=
  ⟨Grown.refl p fs, unlessDirectory_eq_none_iff h⟩

private theorem makesDirectories_noEntry {path : Text} {other : Option Text}
    (h : fs.makeDirectory p = .error (.refused .noEntry path other)) :
    MakesDirectories p fs (fs, some (.refused .noEntry path other)) :=
  ⟨Grown.refl p fs, by simp [at?_of_noEntry h]⟩

/-- Without the directories around it a directory is not there. -/
private theorem makesDirectories_around {start : PathStart} {around : List Text} {n : Text} {e : FileError}
    (h : MakesDirectories ⟨start, around⟩ fs (fs', some e)) :
    MakesDirectories ⟨start, around ++ [n]⟩ fs (fs', some e) := by
  refine ⟨h.grown.of_prefix (List.prefix_append _ _), ?_⟩
  have hparent : fs'.at? ⟨start, around⟩ ≠ some .directory := fun hdir => Option.some_ne_none _ (h.none_iff.2 hdir)
  simp only [reduceCtorEq, false_iff]
  intro hdir
  obtain ⟨hway, -⟩ := at?_eq_some_iff.1 hdir
  exact hparent (at?_parent (find_eq_ok_iff.2 ⟨hway, rfl, rfl⟩))

private theorem MakesDirectories.of_grown {fs₁ : FileSystem} {made : FileSystem × Option FileError}
    (hgrown : Grown p fs fs₁) (h : MakesDirectories p fs₁ made) : MakesDirectories p fs made :=
  ⟨hgrown.trans h.grown, h.none_iff⟩

/-- What making the directories does when the names of the path are given backwards. -/
private theorem makeDirectoriesAt_spec (fs : FileSystem) (start : PathStart) (names : List Text) :
    MakesDirectories ⟨start, names.reverse⟩ fs (fs.makeDirectoriesAt start names) := by
  induction names generalizing fs with
  | nil =>
    rw [makeDirectoriesAt.eq_def]
    cases hmake : fs.makeDirectory ⟨start, [].reverse⟩ with
    | ok fs' =>
      simp only [hmake]
      exact makesDirectories_ok hmake
    | error e =>
      simp only [hmake]
      split
      · next heq => cases heq
      · exact makesDirectories_noEntry hmake
      · exact makesDirectories_unless hmake
  | cons n around ih =>
    rw [makeDirectoriesAt.eq_def]
    cases hmake : fs.makeDirectory ⟨start, (n :: around).reverse⟩ with
    | ok fs' =>
      simp only [hmake]
      exact makesDirectories_ok hmake
    | error e =>
      simp only [hmake]
      split
      · -- the directories around it are missing: they are made first, and then it is tried once more
        next heq =>
        obtain ⟨rfl, rfl⟩ := List.cons.inj heq
        have haround := ih fs
        split
        · next fs₁ e₁ hmade =>
          rw [hmade] at haround
          rw [List.reverse_cons]
          exact makesDirectories_around haround
        · next fs₁ hmade =>
          rw [hmade] at haround
          have hgrown : Grown ⟨start, (n :: around).reverse⟩ fs fs₁ :=
            haround.grown.of_prefix (by rw [List.reverse_cons]; exact List.prefix_append _ _)
          refine MakesDirectories.of_grown hgrown ?_
          split
          · next hagain => exact makesDirectories_ok hagain
          · next hagain => exact makesDirectories_noEntry hagain
          · next hagain => exact makesDirectories_unless hagain
      · next heq => cases heq
      · exact makesDirectories_unless hmake

theorem makeDirectories_spec (fs : FileSystem) (p : Path) : MakesDirectories p fs (fs.makeDirectories p) := by
  have h := makeDirectoriesAt_spec fs p.start p.names.reverse
  rwa [List.reverse_reverse] at h

/-- If the path leads to a directory already, nothing is done. -/
theorem makeDirectories_of_directory (h : fs.at? p = some .directory) : fs.makeDirectories p = (fs, none) := by
  obtain ⟨hway, hdir⟩ := at?_eq_some_iff.1 h
  have hfind : fs.find p = .ok (fs.placeOf p, some .directory) := find_eq_ok_iff.2 ⟨hway, rfl, hdir.symm⟩
  have hmake : fs.makeDirectory p = .error (.refused .alreadyThere p.text none) := by
    rw [makeDirectory, hfind]
    rfl
  have hunless := (unlessDirectory_eq_none_iff hmake).2 h
  rw [makeDirectories, makeDirectoriesAt.eq_def, List.reverse_reverse]
  simp only [hmake, hunless]

/-! ### Paths without double dots -/

/-- Every entry lies in a directory. -/
def Closed (fs : FileSystem) : Prop :=
  ∀ (place : Place) (n : Text), fs.entry? (place ++ [n]) ≠ none → fs.entry? place = some .directory

/-- It is enough to look at the entries. -/
theorem closed_of_all (h : fs.entries.all fun x => decide (fs.entry? x.1.dropLast = some .directory)) : fs.Closed := by
  intro place n hthere
  unfold entry? at hthere
  rw [if_neg (by simp)] at hthere
  obtain ⟨e, he⟩ := Option.ne_none_iff_exists'.1 hthere
  obtain ⟨front, back, hentries, -⟩ := List.lookup_eq_some_iff.1 he
  have hmem : (place ++ [n], e) ∈ fs.entries := by
    rw [hentries]
    exact List.mem_append_right _ List.mem_cons_self
  have hdir := of_decide_eq_true (List.all_eq_true.1 h _ hmem)
  rwa [List.dropLast_concat] at hdir

private theorem follow_of_not_mem {place : Place} {ns : List Text} (h : Path.dotdot ∉ ns) :
    place.follow ns = place ++ ns := by
  induction ns generalizing place with
  | nil => exact (List.append_nil _).symm
  | cons n ns ih =>
    rw [List.mem_cons, not_or] at h
    rw [Place.follow, List.foldl_cons, Place.next, if_neg (Ne.symm h.1)]
    exact (ih h.2).trans (List.append_assoc _ _ _)

/-- Where an entry lies, all directories on the way to it are there. -/
private theorem Closed.passable (h : fs.Closed) {place : Place} {ns : List Text} (hns : Path.dotdot ∉ ns)
    (hthere : fs.entry? (place ++ ns) ≠ none) (hlong : ∀ n ∈ ns, (Utf8.encode n).length ≤ maxNameBytes) :
    fs.Passable place ns := by
  induction ns using List.reverseRecOn with
  | nil => trivial
  | append_singleton ns n ih =>
    rw [List.mem_append, not_or] at hns
    rw [← List.append_assoc] at hthere
    have hdir := h _ _ hthere
    rw [passable_concat, follow_of_not_mem hns.1]
    refine ⟨ih hns.1 (by rw [hdir]; exact nofun) fun m hm => hlong m (List.mem_append_left _ hm), hdir, Or.inr ?_⟩
    exact hlong n (List.mem_append_right _ (List.mem_singleton.2 rfl))

/-- The names on a way are not too long, double dots apart. -/
private theorem Passable.length_le {place : Place} {ns : List Text} (h : fs.Passable place ns)
    (hns : Path.dotdot ∉ ns) : ∀ n ∈ ns, (Utf8.encode n).length ≤ maxNameBytes := by
  induction ns generalizing place with
  | nil => exact fun n hn => absurd hn List.not_mem_nil
  | cons m ms ih =>
    rw [List.mem_cons, not_or] at hns
    intro n hn
    rcases List.mem_cons.1 hn with rfl | hn
    · exact h.2.1.resolve_left (Ne.symm hns.1)
    · exact ih h.2.2 hns.2 n hn

/-- Directories on the way of a path without double dots to its last name do not lead it to anything new. -/
theorem Grown.at? {start : PathStart} {ns : List Text} {n : Text} (h : Grown ⟨start, ns⟩ fs fs') (hclosed : fs.Closed)
    (hns : Path.dotdot ∉ ns ++ [n]) : fs'.at? ⟨start, ns ++ [n]⟩ = fs.at? ⟨start, ns ++ [n]⟩ := by
  have hbase : fs'.base ⟨start, ns ++ [n]⟩ = fs.base ⟨start, ns ++ [n]⟩ := by rw [base, base, h.here]
  have hplace : fs.placeOf ⟨start, ns ++ [n]⟩ = fs.base ⟨start, ns ++ [n]⟩ ++ (ns ++ [n]) := follow_of_not_mem hns
  -- the directories that are made lie nearer to the root than the place of the path
  have hentry : fs'.entry? (fs.placeOf ⟨start, ns ++ [n]⟩) = fs.entry? (fs.placeOf ⟨start, ns ++ [n]⟩) := by
    cases hold : fs.entry? (fs.placeOf ⟨start, ns ++ [n]⟩) with
    | some e => exact h.kept _ _ hold
    | none =>
      rcases h.made _ hold with hnew | ⟨-, ms, hms, hplace'⟩
      · exact hnew
      · have hmem : Path.dotdot ∉ ms := fun hm => hns (List.mem_append_left _ (hms.subset hm))
        have hplace'' : fs.placeOf ⟨start, ms⟩ = fs.base ⟨start, ns ++ [n]⟩ ++ ms := follow_of_not_mem hmem
        rw [hplace, hplace'', List.append_cancel_left_eq] at hplace'
        have hlen : ms.length ≤ ns.length := hms.length_le
        rw [← hplace', List.length_append, List.length_singleton] at hlen
        omega
  refine Option.ext fun e => ?_
  rw [at?_eq_some_iff, at?_eq_some_iff, placeOf_congr h.here, hentry, hbase]
  constructor
  · rintro ⟨⟨htaken, hpass⟩, he⟩
    refine ⟨⟨htaken, hclosed.passable hns ?_ (hpass.length_le hns)⟩, he⟩
    rw [← hplace, he]
    exact Option.some_ne_none e
  · rintro ⟨⟨htaken, hpass⟩, he⟩
    exact ⟨⟨htaken, h.passable hpass⟩, he⟩

end FileSystem

end MultiCaret
