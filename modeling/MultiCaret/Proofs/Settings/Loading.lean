import MultiCaret.Proofs.Json.Limits
import MultiCaret.Settings.File

/-!
# Settings files that are malformed

A settings file that is there gives settings unless its bytes are no text, or the text is refused by the JSON reader for
its size; in these two cases the error is not caught (`Settings.load_file`).  Every other trouble with the text ends in
the default settings.
-/

namespace MultiCaret

namespace Settings

variable {fs : FileSystem} {path : Path} {place : Place} {bytes : Bytes}

/-- A file that is there is found and read. -/
theorem read_of_find (hfile : fs.find path = .ok (place, some (.file bytes))) :
    fs.isThere path = .ok true ∧ fs.read path = .ok bytes := by
  constructor
  · rw [FileSystem.isThere, FileSystem.look, hfile]
    rfl
  · rw [FileSystem.read, hfile]
    rfl

private theorem load_of_notText (hfile : fs.find path = .ok (place, some (.file bytes))) {e : Utf8Error}
    (h : Utf8.decode bytes = .error e) : load fs path = .error (.notText e) := by
  obtain ⟨hthere, hread⟩ := read_of_find hfile
  simp only [load, hthere, hread, h]

theorem load_of_text (hfile : fs.find path = .ok (place, some (.file bytes))) {t : Text} (h : bytes = Utf8.encode t) :
    load fs path = ofFileText path (universalNewlines t) := by
  obtain ⟨hthere, hread⟩ := read_of_find hfile
  have hdecode : Utf8.decode bytes = .ok t := (Utf8.decode_eq_ok_iff bytes t).mpr h
  simp only [load, hthere, hread, hdecode]

/-- A text gives an error if it is refused for its size. -/
private theorem ofFileText_oversized {t : Text} (h : Json.Oversized t) : ∃ e, ofFileText path t = .error e := by
  rcases h with ⟨n, h⟩ | ⟨isObject, h⟩
  · exact ⟨.tooManyDigits n, by rw [ofFileText, h]⟩
  · exact ⟨.tooDeep isObject, by rw [ofFileText, h]⟩

/-- Every other text gives settings: those of the object that it holds, or the default ones. -/
private theorem ofFileText_ok {t : Text} (h : ¬ Json.Oversized t) :
    ∃ c notices, ofFileText path t = .ok (c, notices) ∧
      (∀ fields, Json.read t = .ok (.object fields) → c = (ofFields fields).1) ∧
      ((∀ fields, Json.read t ≠ .ok (.object fields)) → c = {}) := by
  by_cases hobject : ∃ fields, Json.read t = .ok (.object fields)
  · obtain ⟨fields, hread⟩ := hobject
    refine ⟨(ofFields fields).1, (ofFields fields).2.map .passedOver, by rw [ofFileText, hread], ?_,
      fun hno => absurd hread (hno fields)⟩
    intro fields' h
    rw [hread] at h
    cases h
    rfl
  · have hdefault : ∃ notices, ofFileText path t = .ok ({}, notices) := by
      unfold ofFileText
      split
      case h_1 n hread => exact absurd (.inl ⟨n, hread⟩) h
      case h_2 isObject hread => exact absurd (.inr ⟨isObject, hread⟩) h
      case h_3 e _ _ hread => exact ⟨_, rfl⟩
      case h_4 fields hread => exact absurd ⟨fields, hread⟩ hobject
      case h_5 v _ hread => exact ⟨_, rfl⟩
    obtain ⟨notices, heq⟩ := hdefault
    exact ⟨{}, notices, heq, fun fields hread => absurd ⟨fields, hread⟩ hobject, fun _ => rfl⟩

/-- Reading a settings file that is there fails exactly if its bytes are no text or the text is refused for its size,
which takes a stretch of thousands of digits or about a thousand opening brackets; how many brackets exactly depends on
where the settings are loaded (`Json.maxDepth`).  In all other cases there are settings, the default ones unless the
text holds an object. -/
theorem load_file (hfile : fs.find path = .ok (place, some (.file bytes))) :
    ((∃ e, load fs path = .error e) ↔
      (∀ t, bytes ≠ Utf8.encode t) ∨ ∃ t, bytes = Utf8.encode t ∧ Json.Oversized (universalNewlines t)) ∧
    ∀ t, bytes = Utf8.encode t →
      (Json.Oversized (universalNewlines t) →
        (∃ n, Json.maxDigits < n ∧ Json.HasDigits n (universalNewlines t)) ∨
          Json.maxDepth < (universalNewlines t).countP Json.opens) ∧
      (¬ Json.Oversized (universalNewlines t) → ∃ c notices, load fs path = .ok (c, notices) ∧
        (∀ fields, Json.read (universalNewlines t) = .ok (.object fields) → c = (ofFields fields).1) ∧
        ((∀ fields, Json.read (universalNewlines t) ≠ .ok (.object fields)) → c = {})) := by
  refine ⟨⟨?_, ?_⟩, fun t ht => ⟨Json.Oversized.limit, fun hsize => ?_⟩⟩
  · rintro ⟨e, he⟩
    by_cases hbytes : ∃ t, bytes = Utf8.encode t
    · obtain ⟨t, ht⟩ := hbytes
      right
      refine ⟨t, ht, ?_⟩
      by_cases hsize : Json.Oversized (universalNewlines t)
      · exact hsize
      · obtain ⟨c, notices, hok, -⟩ := ofFileText_ok hsize
        rw [load_of_text hfile ht, hok] at he
        cases he
    · left
      intro t ht
      exact hbytes ⟨t, ht⟩
  · rintro (hbytes | ⟨t, ht, hsize⟩)
    · obtain ⟨e, he⟩ := (Utf8.decode_eq_error_iff bytes).mpr hbytes
      exact ⟨.notText e, load_of_notText hfile he⟩
    · rw [load_of_text hfile ht]
      exact ofFileText_oversized hsize
  · rw [load_of_text hfile ht]
    exact ofFileText_ok hsize

/-- A settings file in the current directory, and nothing else. -/
def oneFile (content : Bytes) : FileSystem where
  entries := [(["settings.json".toList], .file content)]
  here := []

private theorem find_oneFile (content : Bytes) :
    (oneFile content).find ⟨.here, ["settings.json".toList]⟩ = .ok (["settings.json".toList], some (.file content)) := by
  rfl

/-- An object that is not closed gives the default settings. -/
theorem load_file_unclosed :
    (oneFile (Utf8.encode ['\x7b'])).find ⟨.here, ["settings.json".toList]⟩ =
        .ok (["settings.json".toList], some (.file (Utf8.encode ['\x7b']))) ∧
      ∃ notices, load (oneFile (Utf8.encode ['\x7b'])) ⟨.here, ["settings.json".toList]⟩ = .ok ({}, notices) := by
  have hfile := find_oneFile (Utf8.encode ['\x7b'])
  have hread : Json.read (universalNewlines ['\x7b']) = .error (.malformed .expectedName []) := by rfl
  have hsize : ¬ Json.Oversized (universalNewlines ['\x7b']) := by
    rintro (⟨n, h⟩ | ⟨isObject, h⟩)
    · rw [hread] at h
      cases h
    · rw [hread] at h
      cases h
  obtain ⟨c, notices, hok, -, hdefault⟩ := ((load_file hfile).2 ['\x7b'] rfl).2 hsize
  obtain rfl := hdefault fun fields h => by
    rw [hread] at h
    cases h
  exact ⟨hfile, notices, hok⟩

/-- Not every settings file that is there gives settings: one byte that starts no character is enough. -/
theorem not_load_invalidByte :
    ¬ ∀ (fs : FileSystem) (path : Path) (place : Place) (bytes : Bytes),
      fs.find path = .ok (place, some (.file bytes)) → ∃ c notices, load fs path = .ok (c, notices) := by
  intro hall
  obtain ⟨c, notices, hok⟩ := hall _ _ _ _ (find_oneFile [0xFF])
  have herror : load (oneFile [0xFF]) ⟨.here, ["settings.json".toList]⟩ = .error (.notText ⟨.invalidStart, 0xFF, 0, 1⟩) := by
    rfl
  rw [herror] at hok
  cases hok

end Settings

end MultiCaret
