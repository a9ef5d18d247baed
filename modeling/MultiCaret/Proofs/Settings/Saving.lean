import MultiCaret.Proofs.Files.Writing
import MultiCaret.Proofs.Settings.Written

/-!
# Saving settings

Settings are written under another name beside their file and then moved over it.  Behind the directories that are made
first there are four ways out (`Settings.SaveOutcome`): the system does not take the path, nothing is written, what was
written is taken away again, or it is moved.  After a move the settings are found at the path again; otherwise every file
but the one under the other name is what it was (`Settings.save_allOrNothing`).  The directories stay, so that a path
that goes through one of them and back by double dots may lead somewhere only afterwards (`Settings.not_save_keepsPath`).
-/

namespace MultiCaret

/-! ### The other name -/

private theorem suffix_withNameSuffix (name suffix : Text) : suffix <:+ withNameSuffix name suffix := by
  unfold withNameSuffix
  split
  · exact List.suffix_append _ _
  · exact List.suffix_append _ _

private theorem withNameSuffix_tmp_ne_dotdot (name : Text) : withNameSuffix name ".tmp".toList ≠ Path.dotdot := by
  intro h
  have hlength := (suffix_withNameSuffix name ".tmp".toList).length_le
  rw [h] at hlength
  exact absurd hlength (by decide)

namespace Path

/-- A path with another suffix lies beside it. -/
private theorem withSuffix?_eq_some {p q : Path} {suffix : Text} (h : p.withSuffix? suffix = some q) :
    ∃ ns n, p = ⟨p.start, ns ++ [n]⟩ ∧ q = ⟨p.start, ns ++ [withNameSuffix n suffix]⟩ := by
  obtain ⟨n, hn, rfl⟩ := Option.map_eq_some_iff.1 h
  obtain ⟨ns, hns⟩ := List.getLast?_eq_some_iff.1 hn
  refine ⟨ns, n, ?_, ?_⟩
  · rw [← hns]
  · rw [hns, List.dropLast_concat]

end Path

namespace FileSystem

/-- Paths that end in different names behind the same directory lead to different places, if one of the names is no double
dot. -/
private theorem placeOf_ne {fs : FileSystem} {start : PathStart} {ns : List Text} {m n : Text} (hm : m ≠ Path.dotdot)
    (hne : m ≠ n) : fs.placeOf ⟨start, ns ++ [m]⟩ ≠ fs.placeOf ⟨start, ns ++ [n]⟩ := by
  rw [placeOf_concat, placeOf_concat, Place.next, if_neg hm, Place.next]
  split
  · intro heq
    have hlength := congrArg List.length heq
    rw [List.length_append, List.length_singleton, List.length_dropLast] at hlength
    omega
  · intro heq
    exact hne (List.singleton_inj.1 (List.append_cancel_left heq))

end FileSystem

namespace Settings

open FileSystem

variable {fs : FileSystem} {path temporary : Path} {b : Bytes}

/-! ### The ways out -/

/-- What saving bytes under a path comes to when the directories of the path are made already. -/
inductive SaveOutcome (fs : FileSystem) (path temporary : Path) (b : Bytes) : SettingsSaved → Prop where
  /-- The path is not one that the system takes. -/
  | refused {r : SettingsSaved} {e : SettingsWriteError} (h : r.saved = .error e) : SaveOutcome fs path temporary b r
  /-- Nothing is written. -/
  | blocked (notices : List SettingsNotice) : SaveOutcome fs path temporary b ⟨fs, .ok false, notices⟩
  /-- What is written under the other name cannot be moved, and is taken away again. -/
  | takenBack {t : Place} {old? : Option Entry} (hne : temporary ≠ path) (hfind : fs.find temporary = .ok (t, old?))
      (hold : old? ≠ some .directory) (notices : List SettingsNotice) :
      SaveOutcome fs path temporary b ⟨(fs.put t (.file b)).remove t, .ok false, notices⟩
  /-- What is written is moved over the path. -/
  | moved {s t : Place} {old? target? : Option Entry} (hfind : fs.find temporary = .ok (s, old?))
      (hold : old? ≠ some .directory) (hpath : fs.find path = .ok (t, target?)) (htarget : target? ≠ some .directory) :
      SaveOutcome fs path temporary b
        ⟨if s = t then fs.put s (.file b) else ((fs.put s (.file b)).remove s).put t (.file b), .ok true, []⟩

/-- Giving up changes nothing if there is nothing under the other name. -/
private theorem giveUp_outcome (h : fs.removeFile temporary = fs) (e : FileError) :
    SaveOutcome fs path temporary b (giveUp fs path temporary e) := by
  cases e with
  | nullInPath => exact .refused rfl
  | refused fault p other =>
    simp only [giveUp, h]
    exact .blocked _

/-- Giving up after the bytes were written under the other name. -/
private theorem giveUp_written {t : Place} {old? : Option Entry} (hne : temporary ≠ path)
    (hfind : fs.find temporary = .ok (t, old?)) (hold : old? ≠ some .directory) (e : FileError) :
    SaveOutcome fs path temporary b (giveUp (fs.put t (.file b)) path temporary e) := by
  cases e with
  | nullInPath => exact .refused rfl
  | refused fault p other =>
    simp only [giveUp, removeFile_of_find (find_put hfind hold b)]
    exact .takenBack hne hfind hold _

private theorem save_outcome (fs : FileSystem) (c : Settings) (h : path.withSuffix? ".tmp".toList = some temporary) :
    SaveOutcome (fs.makeDirectories path.parent).1 path temporary (Utf8.encode c.toText) (save c fs path) := by
  obtain ⟨ns, n, hpath, htemp⟩ := Path.withSuffix?_eq_some h
  have hparent : path.parent = ⟨path.start, ns⟩ := by rw [hpath, Path.parent_concat]
  have hmade := (makeDirectories_spec fs path.parent).none_iff
  unfold save
  simp only [h]
  cases hmake : fs.makeDirectories path.parent with
  | mk fs₁ failure =>
    rw [hmake, hparent] at hmade
    cases failure with
    | some e =>
      -- without the directory there is nothing under the other name
      refine giveUp_outcome ?_ e
      rw [htemp]
      exact removeFile_of_parent fun hdir => Option.some_ne_none _ (hmade.2 hdir)
    | none =>
      cases hwrite : fs₁.write temporary (Utf8.encode c.toText) with
      | error e =>
        simp only [hwrite]
        exact giveUp_outcome (removeFile_of_write_error hwrite) e
      | ok written =>
        obtain ⟨s, old?, hfind, hold, rfl⟩ := write_eq_ok_iff.1 hwrite
        have hthere := find_put hfind hold (Utf8.encode c.toText)
        have hsame := sameDirectories_put (by rwa [← (find_eq_ok_iff.1 hfind).2.2]) (Utf8.encode c.toText)
        cases hmove : (fs₁.put s (.file (Utf8.encode c.toText))).rename temporary path with
        | error e =>
          simp only [hwrite, hmove]
          refine giveUp_written ?_ hfind hold e
          -- over itself the file could have been moved
          rintro rfl
          have hname : temporary.name? ≠ some Path.dotdot := by
            rw [htemp, Path.name?, List.getLast?_concat]
            exact fun heq => withNameSuffix_tmp_ne_dotdot n (Option.some.inj heq)
          rw [rename_of_find hthere hthere hname nofun] at hmove
          cases hmove
        | ok moved =>
          obtain ⟨t, target?, hfound, -, htarget, rfl⟩ := (rename_eq_ok_iff hthere).1 hmove
          have hbefore := hsame.symm.find hfound
          have htarget' : FileSystem.entry? fs₁ t ≠ some .directory := fun hdir =>
            htarget ((find_eq_ok_iff.1 hfound).2.2.trans ((hsame.directories t).2 hdir))
          simp only [hwrite, hmove]
          exact .moved hfind hold hbefore htarget'

/-! ### What is left afterwards -/

/-- A file is found at the path and nothing under the other name, and no other place has changed. -/
private theorem SaveOutcome.moved_files {r : SettingsSaved} (h : SaveOutcome fs path temporary b r)
    (hr : r.saved = .ok true) (hother : fs.placeOf temporary = fs.placeOf path → temporary = path) :
    r.files.find path = .ok (fs.placeOf path, some (.file b)) ∧ (temporary ≠ path → r.files.at? temporary = none) ∧
      ∀ q, q ≠ fs.placeOf path → q ≠ fs.placeOf temporary → r.files.content? q = fs.content? q := by
  cases h with
  | refused he =>
    rw [he] at hr
    cases hr
  | blocked => cases hr
  | takenBack => cases hr
  | @moved s t old? target? hfind hold hpath htarget =>
    obtain ⟨-, hs, hseq⟩ := find_eq_ok_iff.1 hfind
    obtain ⟨-, ht, hteq⟩ := find_eq_ok_iff.1 hpath
    rw [hseq] at hold
    rw [hteq] at htarget
    rw [← hs, ← ht] at hother ⊢
    have hput := entry?_put hold (.file b)
    by_cases hst : s = t
    · subst hst
      simp only [if_true]
      refine ⟨find_put hpath (by rwa [hteq]) b, fun hne => absurd (hother rfl) hne, fun q hq _ => ?_⟩
      refine content?_congr ?_
      rw [hput, if_neg hq]
    · simp only [if_neg hst]
      have hback := entry?_put_remove hold b
      have hsame := sameDirectories_put_remove hold b
      have hfree : FileSystem.entry? ((fs.put s (.file b)).remove s) t ≠ some .directory := by
        rwa [hback, if_neg (Ne.symm hst)]
      have hmoved := entry?_put hfree (.file b)
      refine ⟨find_put (hsame.find hpath) hfree b, fun _ => ?_, fun q hqt hqs => content?_congr ?_⟩
      · have hplace : (((fs.put s (.file b)).remove s).put t (.file b)).placeOf temporary = s :=
          (placeOf_congr rfl temporary).trans hs.symm
        refine at?_eq_none ?_
        rw [hplace, hmoved, if_neg hst, hback, if_pos rfl]
      · rw [hmoved, if_neg hqt, hback, if_neg hqs]

/-- No place has changed but the one under the other name. -/
private theorem SaveOutcome.kept_files {r : SettingsSaved} (h : SaveOutcome fs path temporary b r)
    (hr : r.saved = .ok false) (hother : fs.placeOf temporary = fs.placeOf path → temporary = path) :
    r.files.at? path = fs.at? path ∧
      ∀ q, q = fs.placeOf path ∨ q ≠ fs.placeOf temporary → r.files.content? q = fs.content? q := by
  cases h with
  | refused he =>
    rw [he] at hr
    cases hr
  | blocked => exact ⟨rfl, fun _ _ => rfl⟩
  | moved => cases hr
  | @takenBack t old? hne hfind hold =>
    obtain ⟨-, ht, hteq⟩ := find_eq_ok_iff.1 hfind
    rw [hteq] at hold
    rw [← ht] at hother ⊢
    have hback := entry?_put_remove hold b
    have hpath : fs.placeOf path ≠ t := fun heq => hne (hother heq.symm)
    refine ⟨(sameDirectories_put_remove hold b).at? (by rw [hback, if_neg hpath]), fun q hq => content?_congr ?_⟩
    have hqt : q ≠ t := by
      rcases hq with rfl | hq
      · exact hpath
      · exact hq
    rw [hback, if_neg hqt]

/-- Saving settings is all or nothing.  Afterwards either they are found at the path, nothing is left under the other
name, and all other files are what they were; or all files but the one under the other name are what they were, and the
path leads to what it led to before, unless it goes back by double dots through a directory that was missing. -/
theorem save_allOrNothing {c : Settings} (hfs : fs.Closed) (h : path.withSuffix? ".tmp".toList = some temporary) :
    ((save c fs path).saved = .ok true →
      load (save c fs path).files path = .ok (c, []) ∧
      (temporary ≠ path → (save c fs path).files.at? temporary = none) ∧
      ∀ q, q ≠ fs.placeOf path → q ≠ fs.placeOf temporary →
        (save c fs path).files.content? q = fs.content? q) ∧
    ((save c fs path).saved = .ok false →
      (∀ q, q = fs.placeOf path ∨ q ≠ fs.placeOf temporary → (save c fs path).files.content? q = fs.content? q) ∧
      (fs.at? path.parent = some .directory ∨ Path.dotdot ∉ path.names →
        (save c fs path).files.at? path = fs.at? path)) := by
  obtain ⟨ns, n, hpath, htemp⟩ := Path.withSuffix?_eq_some h
  have hparent : path.parent = ⟨path.start, ns⟩ := by rw [hpath, Path.parent_concat]
  have hgrown := (makeDirectories_spec fs path.parent).grown
  have hplace (p : Path) : (fs.makeDirectories path.parent).1.placeOf p = fs.placeOf p := placeOf_congr hgrown.here p
  have hother : fs.placeOf temporary = fs.placeOf path → temporary = path := by
    intro heq
    by_contra hne
    rw [htemp, hpath] at heq hne
    exact placeOf_ne (withNameSuffix_tmp_ne_dotdot n) (fun hname => hne (by rw [hname])) heq
  have hout := save_outcome fs c h
  rw [← hplace, ← hplace] at hother
  refine ⟨fun hsaved => ?_, fun hsaved => ?_⟩
  · obtain ⟨hfile, hgone, hrest⟩ := hout.moved_files hsaved hother
    refine ⟨?_, hgone, fun q hq hq' => ?_⟩
    · rw [load_of_text hfile rfl, ofFileText_toText]
    · rw [hrest q (by rwa [hplace]) (by rwa [hplace]), hgrown.content?]
  · obtain ⟨hat, hrest⟩ := hout.kept_files hsaved hother
    refine ⟨fun q hq => ?_, fun hway => hat.trans ?_⟩
    · rw [hrest q (by rwa [hplace, hplace]), hgrown.content?]
    · rcases hway with hdir | hdots
      · rw [makeDirectories_of_directory hdir]
      · rw [hparent] at hgrown ⊢
        rw [hpath] at hdots ⊢
        exact hgrown.at? hfs hdots

/-- Settings with a switch off are saved over a file that holds no JSON. -/
theorem save_allOrNothing_oneFile :
    (oneFile [0xFF]).Closed ∧
      Path.withSuffix? ⟨.here, ["settings.json".toList]⟩ ".tmp".toList = some ⟨.here, ["settings.tmp".toList]⟩ ∧
      load (save { endIndentsEmptyLine := false } (oneFile [0xFF]) ⟨.here, ["settings.json".toList]⟩).files
        ⟨.here, ["settings.json".toList]⟩ = .ok ({ endIndentsEmptyLine := false }, []) := by
  have hclosed : (oneFile [0xFF]).Closed := closed_of_all (by decide)
  have htemp : Path.withSuffix? ⟨.here, ["settings.json".toList]⟩ ".tmp".toList =
      some ⟨.here, ["settings.tmp".toList]⟩ := by decide
  exact ⟨hclosed, htemp, ((save_allOrNothing hclosed htemp).1 (by decide +kernel)).1⟩

/-- A file, and a directory of the other name beside it. -/
def besideDirectory : FileSystem where
  entries := [([['x']], .file [0x7B, 0x7D]), (["x.tmp".toList], .directory)]
  here := []

/-- A path may lead to a file only after settings could not be saved, because a directory was made on its way. -/
theorem not_save_keepsPath :
    ¬ ∀ (c : Settings) (fs : FileSystem) (path : Path), fs.Closed → path.name? ≠ none →
      (save c fs path).saved = .ok false → (save c fs path).files.at? path = fs.at? path := by
  intro hall
  have hkept := hall {} besideDirectory ⟨.here, [['d'], Path.dotdot, ['x']]⟩ (closed_of_all (by decide)) (by decide)
    (by decide +kernel)
  exact absurd hkept (by decide +kernel)

end Settings

end MultiCaret
