/-!
# Pieces of a text

A text is the list of its characters.  `splitOn` cuts a text at every occurrence of a character and `joinWith` puts this
character between the pieces again; the key facts are `joinWith_splitOn` and `splitOn_joinWith`, which say that the two
are inverse to each other on non-empty lists of pieces that do not hold the character.
-/

namespace MultiCaret

/-- A text, character by character. -/
abbrev Text := List Char

/-- Puts a character in front of the first piece. -/
def consFirst (c : Char) : List Text → List Text
  | [] => [[c]]
  | l :: ls => (c :: l) :: ls

/-- The pieces of a text between the occurrences of a character.  There is always at least one. -/
def splitOn (sep : Char) : Text → List Text
  | [] => [[]]
  | c :: cs => if c = sep then [] :: splitOn sep cs else consFirst c (splitOn sep cs)

/-- The pieces with a character between any two neighbours. -/
def joinWith (sep : Char) : List Text → Text
  | [] => []
  | [l] => l
  | l :: m :: ls => l ++ sep :: joinWith sep (m :: ls)

variable {sep : Char}

theorem splitOn_ne_nil (t : Text) : splitOn sep t ≠ [] := by
  cases t with
  | nil => simp [splitOn]
  | cons c cs =>
    unfold splitOn
    split
    · simp
    · cases splitOn sep cs <;> simp [consFirst]

theorem joinWith_cons {l : Text} {ls : List Text} (h : ls ≠ []) :
    joinWith sep (l :: ls) = l ++ sep :: joinWith sep ls := by
  cases ls with
  | nil => exact absurd rfl h
  | cons m ms => rfl

private theorem joinWith_consFirst (c : Char) {ls : List Text} (h : ls ≠ []) :
    joinWith sep (consFirst c ls) = c :: joinWith sep ls := by
  match ls, h with
  | [l], _ => rfl
  | l :: m :: ms, _ => rfl

/-- Cutting a text into pieces loses nothing. -/
theorem joinWith_splitOn (t : Text) : joinWith sep (splitOn sep t) = t := by
  induction t with
  | nil => rfl
  | cons c cs ih =>
    unfold splitOn
    split
    · next h => rw [joinWith_cons (splitOn_ne_nil cs), ih, h]; rfl
    · rw [joinWith_consFirst c (splitOn_ne_nil cs), ih]

theorem splitOn_append_cons {l : Text} (h : sep ∉ l) (t : Text) :
    splitOn sep (l ++ sep :: t) = l :: splitOn sep t := by
  induction l with
  | nil => simp [splitOn]
  | cons c cs ih =>
    simp only [List.mem_cons, not_or] at h
    simp only [List.cons_append, splitOn, Ne.symm h.1, if_false, ih h.2, consFirst]

theorem splitOn_of_not_mem {l : Text} (h : sep ∉ l) : splitOn sep l = [l] := by
  induction l with
  | nil => rfl
  | cons c cs ih =>
    simp only [List.mem_cons, not_or] at h
    simp only [splitOn, Ne.symm h.1, if_false, ih h.2, consFirst]

/-- Pieces that do not hold the character are found again in their joined text. -/
theorem splitOn_joinWith {ls : List Text} (hne : ls ≠ []) (h : ∀ l ∈ ls, sep ∉ l) :
    splitOn sep (joinWith sep ls) = ls := by
  induction ls with
  | nil => exact absurd rfl hne
  | cons l ls ih =>
    cases ls with
    | nil => exact splitOn_of_not_mem (h l (by simp))
    | cons m ms =>
      rw [joinWith_cons (by simp), splitOn_append_cons (h l (by simp)),
        ih (by simp) (fun x hx => h x (List.mem_cons_of_mem _ hx))]

/-- A piece does not hold the character. -/
theorem not_mem_of_mem_splitOn {t l : Text} (h : l ∈ splitOn sep t) : sep ∉ l := by
  induction t generalizing l with
  | nil => simp [splitOn] at h; simp [h]
  | cons c cs ih =>
    unfold splitOn at h
    split at h
    · rcases List.mem_cons.1 h with rfl | h
      · simp
      · exact ih h
    · next hc =>
      cases hs : splitOn sep cs with
      | nil => exact absurd hs (splitOn_ne_nil cs)
      | cons m ms =>
        rw [hs] at h ih
        rcases List.mem_cons.1 h with rfl | h
        · simp only [List.mem_cons, not_or]
          exact ⟨Ne.symm hc, ih (by simp)⟩
        · exact ih (List.mem_cons_of_mem _ h)

/-- A text has one piece more than it holds the character. -/
theorem length_splitOn (t : Text) : (splitOn sep t).length = t.count sep + 1 := by
  induction t with
  | nil => rfl
  | cons c cs ih =>
    unfold splitOn
    split
    · next h => simp [h, ih]
    · next h =>
      cases hs : splitOn sep cs with
      | nil => exact absurd hs (splitOn_ne_nil cs)
      | cons m ms =>
        rw [hs] at ih
        simpa [consFirst, List.count_cons, h] using ih

end MultiCaret
