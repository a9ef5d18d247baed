import MultiCaret.Proofs.Files.Directories

/-!
# Writing and moving files

A file is written at the place of a path that leads to no directory, and found there afterwards
(`FileSystem.write_eq_ok_iff`, `FileSystem.find_put`).  A file is moved over another path if that leads to no directory
and does not end in double dots (`FileSystem.rename_eq_ok_iff`).
-/

namespace MultiCaret

namespace FileSystem

variable {fs fs' : FileSystem} {p : Path} {q : Place}

/-- The content of the file at a place, if there is one. -/
def content? (fs : FileSystem) (place : Place) : Option Bytes :=
  match fs.entry? place with
  | some (.file content) => some content
  | _ => none

theorem content?_congr (h : fs'.entry? q = fs.entry? q) : fs'.content? q = fs.content? q := by
  rw [content?, content?, h]

theorem Grown.content? (h : Grown p fs fs') (q : Place) : fs'.content? q = fs.content? q := by
  cases hold : fs.entry? q with
  | some e =>
    refine content?_congr ?_
    rw [hold, h.kept q e hold]
  | none =>
    rcases h.made q hold with hnew | ⟨hnew, -⟩
    · exact content?_congr (hnew.trans hold.symm)
    · rw [FileSystem.content?, FileSystem.content?, hnew, hold]

private theorem findFile_eq_ok {old : Bytes} (h : fs.findFile p = .ok (q, old)) :
    ∃ e?, fs.find p = .ok (q, e?) ∧ e? ≠ some .directory ∧ ∀ content, e? = some (.file content) → old = content := by
  unfold findFile at h
  cases hfind : fs.find p with
  | error f =>
    rw [hfind] at h
    cases h
  | ok found =>
    obtain ⟨place, e?⟩ := found
    rw [hfind] at h
    cases e? with
    | none =>
      cases h
      exact ⟨none, rfl, nofun, nofun⟩
    | some e =>
      cases e with
      | directory => cases h
      | file content =>
        cases h
        exact ⟨_, rfl, nofun, fun _ heq => Entry.file.inj (Option.some.inj heq)⟩

private theorem findFile_of_find {e? : Option Entry} (hfind : fs.find p = .ok (q, e?)) (he : e? ≠ some .directory) :
    ∃ old, fs.findFile p = .ok (q, old) := by
  rw [findFile, hfind]
  cases e? with
  | none => exact ⟨_, rfl⟩
  | some e =>
    cases e with
    | directory => exact absurd rfl he
    | file content => exact ⟨_, rfl⟩

/-- A file is written at the place of its path, if no directory is there. -/
theorem write_eq_ok_iff {b : Bytes} :
    fs.write p b = .ok fs' ↔ ∃ q e?, fs.find p = .ok (q, e?) ∧ e? ≠ some .directory ∧ fs' = fs.put q (.file b) := by
  unfold write
  constructor
  · intro h
    cases hfile : fs.findFile p with
    | error f =>
      rw [hfile] at h
      cases h
    | ok found =>
      obtain ⟨q, old⟩ := found
      rw [hfile] at h
      obtain ⟨e?, hfind, he, -⟩ := findFile_eq_ok hfile
      exact ⟨q, e?, hfind, he, (Except.ok.inj h).symm⟩
  · rintro ⟨q, e?, hfind, he, rfl⟩
    obtain ⟨old, hfile⟩ := findFile_of_find hfind he
    rw [hfile]
    rfl

/-- Where no directory stands in the way, a path that led somewhere leads to what is put there. -/
theorem find_put {e? : Option Entry} (hfind : fs.find p = .ok (q, e?)) (he : e? ≠ some .directory) (b : Bytes) :
    (fs.put q (.file b)).find p = .ok (q, some (.file b)) := by
  obtain ⟨-, -, rfl⟩ := find_eq_ok_iff.1 hfind
  have hnew := (sameDirectories_put he b).find hfind
  rwa [entry?_put he, if_pos rfl] at hnew

/-- Bytes are written behind those that are there. -/
private theorem append_eq_ok {b : Bytes} (h : fs.append p b = .ok fs') : ∃ q old, fs.entry? q ≠ some .directory ∧
    (∀ content, fs.entry? q = some (.file content) → old = content) ∧ fs' = fs.put q (.file (old ++ b)) := by
  unfold append at h
  cases hfile : fs.findFile p with
  | error f =>
    rw [hfile] at h
    cases h
  | ok found =>
    obtain ⟨q, old⟩ := found
    rw [hfile] at h
    obtain ⟨e?, hfind, he, hold⟩ := findFile_eq_ok hfile
    obtain ⟨-, -, rfl⟩ := find_eq_ok_iff.1 hfind
    exact ⟨q, old, he, hold, (Except.ok.inj h).symm⟩

/-- Writing behind the end of a file leaves every file where it is, and at most that one grows. -/
theorem find_append {p' : Path} {b b' : Bytes} (hfind : fs.find p = .ok (q, some (.file b)))
    (h : fs.append p' b' = .ok fs') :
    fs'.find p = .ok (q, some (.file b)) ∨ fs'.find p = .ok (q, some (.file (b ++ b'))) := by
  obtain ⟨r, old, hr, hold, rfl⟩ := append_eq_ok h
  have hentry := (find_eq_ok_iff.1 hfind).2.2
  rw [(sameDirectories_put hr _).find hfind, entry?_put hr]
  by_cases hqr : q = r
  · subst hqr
    rw [if_pos rfl, hold b hentry.symm]
    exact Or.inr rfl
  · rw [if_neg hqr, ← hentry]
    exact Or.inl rfl

private theorem entry?_put_file (h : fs.entry? q ≠ some .directory) (b : Bytes) :
    FileSystem.entry? (fs.put q (.file b)) q ≠ some .directory := by
  rw [entry?_put h, if_pos rfl]
  exact nofun

/-- What a file that is written and taken away again leaves behind. -/
theorem entry?_put_remove (h : fs.entry? q ≠ some .directory) (b : Bytes) (r : Place) :
    FileSystem.entry? ((fs.put q (.file b)).remove q) r = if r = q then none else fs.entry? r := by
  rw [entry?_remove (entry?_put_file h b), entry?_put h]
  split <;> rfl

theorem sameDirectories_put_remove (h : fs.entry? q ≠ some .directory) (b : Bytes) :
    SameDirectories fs ((fs.put q (.file b)).remove q) :=
  (sameDirectories_put h b).trans (sameDirectories_remove (entry?_put_file h b))

/-- A file that cannot be written is not there. -/
theorem removeFile_of_write_error {b : Bytes} {e : FileError} (h : fs.write p b = .error e) : fs.removeFile p = fs := by
  unfold removeFile
  split
  · next q content hfind =>
    obtain ⟨old, hfile⟩ := findFile_of_find hfind nofun
    rw [write, hfile] at h
    cases h
  · rfl

theorem removeFile_of_find {b : Bytes} (h : fs.find p = .ok (q, some (.file b))) : fs.removeFile p = fs.remove q := by
  rw [removeFile, h]

/-- Without the directory around it there is no file to take away. -/
theorem removeFile_of_parent {start : PathStart} {ns : List Text} {n : Text}
    (h : fs.at? ⟨start, ns⟩ ≠ some .directory) : fs.removeFile ⟨start, ns ++ [n]⟩ = fs := by
  unfold removeFile
  split
  · next hfind => exact absurd (at?_parent hfind) h
  · rfl

/-- A file moved over a path that leads to no directory is found at the place of that path alone. -/
theorem rename_of_find {source target : Place} {old? : Option Entry} {b : Bytes} {q : Path}
    (hp : fs.find p = .ok (source, some (.file b))) (hq : fs.find q = .ok (target, old?))
    (hname : q.name? ≠ some Path.dotdot) (hold : old? ≠ some .directory) :
    fs.rename p q = .ok (if source = target then fs else (fs.remove source).put target (.file b)) := by
  rw [rename, hp, hq]
  simp only [if_neg hname]
  cases old? with
  | none => exact (apply_ite Except.ok ..).symm
  | some e =>
    cases e with
    | directory => exact absurd rfl hold
    | file content => exact (apply_ite Except.ok ..).symm

/-- A file is moved over a path that can be followed, does not end in double dots and leads to no directory. -/
theorem rename_eq_ok_iff {source : Place} {b : Bytes} {q : Path} (h : fs.find p = .ok (source, some (.file b))) :
    fs.rename p q = .ok fs' ↔ ∃ target old?, fs.find q = .ok (target, old?) ∧ q.name? ≠ some Path.dotdot ∧
      old? ≠ some .directory ∧ fs' = if source = target then fs else (fs.remove source).put target (.file b) := by
  constructor
  · intro hmove
    cases hq : fs.find q with
    | error e =>
      rw [rename, h, hq] at hmove
      cases e <;> cases hmove
    | ok found =>
      obtain ⟨target, old?⟩ := found
      by_cases hname : q.name? = some Path.dotdot
      · rw [rename, h, hq] at hmove
        simp only [if_pos hname, reduceCtorEq] at hmove
      · by_cases hold : old? = some .directory
        · rw [rename, h, hq, hold] at hmove
          simp only [if_neg hname, reduceCtorEq] at hmove
        · rw [rename_of_find h hq hname hold] at hmove
          exact ⟨target, old?, rfl, hname, hold, (Except.ok.inj hmove).symm⟩
  · rintro ⟨target, old?, hq, hname, hold, rfl⟩
    exact rename_of_find h hq hname hold

end FileSystem

end MultiCaret
