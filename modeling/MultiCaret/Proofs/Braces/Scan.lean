import MultiCaret.BraceBalance
import MultiCaret.Proofs.Document.NonBlanks

/-!
# What the scan leaves open

A stretch of text does two things to the braces that are open in front of it: those of its closing braces that find
nothing open in the stretch itself (`strays`) close some of them, and its own opening braces that it leaves open are
added (`openAfter_eq`).  For one opening brace this says all: the scan keeps it if nothing strays from the text behind
it, and otherwise the strays first take it and then the braces that were open in front of it (`unmatchedBraces_at`).
-/

namespace MultiCaret

/-- The number of braces that are open behind a text when `depth` of them are open in front of it. -/
def depthAfter (depth : Nat) : Text → Nat
  | [] => depth
  | c :: t =>
    if c = '\x7b' then depthAfter (depth + 1) t
    else if c = '\x7d' then depthAfter (depth - 1) t
    else depthAfter depth t

/-- The number of closing braces of a text that close nothing in it. -/
def strays : Text → Nat
  | [] => 0
  -- an opening brace takes in the first stray behind it
  | c :: t => if c = '\x7b' then strays t - 1 else if c = '\x7d' then strays t + 1 else strays t

/-- The braces of a text, without all else. -/
def braces (t : Text) : Text :=
  t.filter fun c => c == '\x7b' || c == '\x7d'

/-! ### Depths -/

theorem depthAfter_append (depth : Nat) (s t : Text) :
    depthAfter depth (s ++ t) = depthAfter (depthAfter depth s) t := by
  induction s generalizing depth with
  | nil => rfl
  | cons c s ih =>
    simp only [List.cons_append, depthAfter]
    split
    · exact ih _
    · split
      · exact ih _
      · exact ih _

theorem depthAfter_eq (depth : Nat) (t : Text) : depthAfter depth t = depthAfter 0 t + (depth - strays t) := by
  induction t generalizing depth with
  | nil => simp [depthAfter, strays]
  | cons c t ih =>
    simp only [depthAfter, strays]
    split
    · rw [ih (depth + 1), ih (0 + 1)]
      omega
    · split
      · rw [ih (depth - 1), Nat.zero_sub]
        omega
      · exact ih depth

/-- The strays of a text close the braces in front of it that are still open. -/
theorem strays_append (s t : Text) : strays (s ++ t) = strays s + (strays t - depthAfter 0 s) := by
  induction s with
  | nil => simp [strays, depthAfter]
  | cons c s ih =>
    simp only [List.cons_append, strays, depthAfter]
    have hopen := depthAfter_eq (0 + 1) s
    have hclose := depthAfter_eq (0 - 1) s
    split
    · omega
    · split <;> omega

theorem depthAfter_mono {d d' : Nat} (h : d ≤ d') (t : Text) : depthAfter d t ≤ depthAfter d' t := by
  have h₁ := depthAfter_eq d t
  have h₂ := depthAfter_eq d' t
  omega

theorem depthAfter_replicate_closer (depth k : Nat) : depthAfter depth (List.replicate k '\x7d') = depth - k := by
  induction k generalizing depth with
  | zero => rfl
  | succ k ih =>
    rw [List.replicate_succ, depthAfter, if_neg (by decide), if_pos rfl, ih]
    omega

theorem depthAfter_of_no_closer {t : Text} (h : '\x7d' ∉ t) (depth : Nat) :
    depthAfter depth t = depth + t.count '\x7b' := by
  induction t generalizing depth with
  | nil => rfl
  | cons c t ih =>
    simp only [List.mem_cons, not_or] at h
    rw [depthAfter, if_neg (Ne.symm h.1)]
    by_cases hc : c = '\x7b'
    · rw [if_pos hc, ih h.2, hc, List.count_cons_self]
      omega
    · rw [if_neg hc, ih h.2, List.count_cons_of_ne hc]

/-- Up to its first closing brace a text only opens. -/
theorem depthAfter_to_closer {u : Text} (h : '\x7d' ∉ u) (v : Text) (depth : Nat) :
    depthAfter depth (u ++ '\x7d' :: v) = depthAfter (depth + u.count '\x7b' - 1) v := by
  rw [depthAfter_append, depthAfter_of_no_closer h, depthAfter, if_neg (by decide), if_pos rfl]

private theorem forall_prefix_cons {P : Text → Prop} {c : Char} {t : Text} :
    (∀ s, s <+: c :: t → P s) ↔ P [] ∧ ∀ s, s <+: t → P (c :: s) := by
  constructor
  · intro h
    exact ⟨h [] List.nil_prefix, fun s hs => h _ (List.cons_prefix_cons.2 ⟨rfl, hs⟩)⟩
  · rintro ⟨hnil, hcons⟩ s hs
    rcases List.prefix_cons_iff.1 hs with rfl | ⟨s, rfl, -⟩
    · exact hnil
    · exact hcons s (List.cons_prefix_cons.1 hs).2

/-- A text has at most `k` strays if and only if no stretch at its beginning holds more than `k` closing braces over its
opening ones. -/
theorem strays_le_iff {t : Text} {k : Nat} :
    strays t ≤ k ↔ ∀ s, s <+: t → s.count '\x7d' ≤ s.count '\x7b' + k := by
  induction t generalizing k with
  | nil => simp [strays]
  | cons c t ih =>
    rw [forall_prefix_cons, strays]
    by_cases ho : c = '\x7b'
    · subst ho
      have h : ∀ s : Text, (s.count '\x7d' ≤ s.count '\x7b' + 1 + k ↔ s.count '\x7d' ≤ s.count '\x7b' + (k + 1)) := by
        omega
      simp [h, ← ih]
    · by_cases hc : c = '\x7d'
      · subst hc
        cases k with
        | zero =>
          rw [if_neg ho, if_pos rfl]
          constructor
          · intro h
            omega
          · rintro ⟨-, h⟩
            -- the closing brace itself is a stretch with one too many
            have := h [] List.nil_prefix
            simp at this
        | succ k => simp [← Nat.add_assoc, ← ih]
      · simp [ho, hc, ih]

/-! ### Texts with the same braces -/

theorem braces_append (s t : Text) : braces (s ++ t) = braces s ++ braces t :=
  List.filter_append ..

private theorem depthAfter_braces (depth : Nat) (t : Text) : depthAfter depth (braces t) = depthAfter depth t := by
  induction t generalizing depth with
  | nil => rfl
  | cons c t ih =>
    unfold braces at ih ⊢
    by_cases ho : c = '\x7b'
    · simp [ho, depthAfter, ih]
    · by_cases hc : c = '\x7d'
      · simp [hc, depthAfter, ih]
      · simp [ho, hc, depthAfter, ih]

private theorem strays_braces (t : Text) : strays (braces t) = strays t := by
  induction t with
  | nil => rfl
  | cons c t ih =>
    unfold braces at ih ⊢
    by_cases ho : c = '\x7b'
    · simp [ho, strays, ih]
    · by_cases hc : c = '\x7d'
      · simp [hc, strays, ih]
      · simp [ho, hc, strays, ih]

theorem depthAfter_congr {s t : Text} (h : braces s = braces t) (depth : Nat) :
    depthAfter depth s = depthAfter depth t := by
  rw [← depthAfter_braces, h, depthAfter_braces]

theorem strays_congr {s t : Text} (h : braces s = braces t) : strays s = strays t := by
  rw [← strays_braces, h, strays_braces]

theorem braces_joinLines (ls : List Text) : braces (joinLines ls) = braces ls.flatten :=
  filter_joinLines (by decide) ls

/-! ### Stacks -/

theorem openAfter_append (stack : List Position) (ps qs : List (Position × Char)) :
    openAfter stack (ps ++ qs) = openAfter (openAfter stack ps) qs := by
  induction ps generalizing stack with
  | nil => rfl
  | cons q ps ih =>
    obtain ⟨p, c⟩ := q
    simp only [List.cons_append, openAfter]
    split
    · exact ih _
    · split
      · exact ih _
      · exact ih _

/-- What a stretch of text leaves open: its own braces first, and then those in front of it that its strays do not
reach. -/
theorem openAfter_eq (stack : List Position) (ps : List (Position × Char)) :
    openAfter stack ps = openAfter [] ps ++ stack.drop (strays (ps.map Prod.snd)) := by
  induction ps generalizing stack with
  | nil => rfl
  | cons q ps ih =>
    obtain ⟨p, c⟩ := q
    simp only [openAfter, List.map_cons, strays]
    split
    · rw [ih (p :: stack), ih [p], List.append_assoc]
      congr 1
      -- the strays take the brace `p` first
      cases strays (ps.map Prod.snd) with
      | zero => rfl
      | succ k => simp
    · split
      · rw [ih stack.tail, List.drop_tail, List.tail_nil]
      · exact ih stack

theorem length_openAfter (stack : List Position) (ps : List (Position × Char)) :
    (openAfter stack ps).length = depthAfter stack.length (ps.map Prod.snd) := by
  induction ps generalizing stack with
  | nil => rfl
  | cons q ps ih =>
    obtain ⟨p, c⟩ := q
    simp only [openAfter, List.map_cons, depthAfter]
    split
    · exact ih _
    · split
      · rw [ih, List.length_tail]
      · exact ih _

theorem mem_openAfter {stack : List Position} {ps : List (Position × Char)} {p : Position}
    (h : p ∈ openAfter stack ps) : p ∈ stack ∨ (p, '\x7b') ∈ ps := by
  induction ps generalizing stack with
  | nil => exact Or.inl h
  | cons q ps ih =>
    obtain ⟨p', c⟩ := q
    simp only [openAfter] at h
    split at h
    · next hc =>
      rcases ih h with hs | hs
      · rcases List.mem_cons.1 hs with rfl | hs
        · exact Or.inr (hc ▸ List.mem_cons_self)
        · exact Or.inl hs
      · exact Or.inr (List.mem_cons_of_mem _ hs)
    · split at h
      · rcases ih h with hs | hs
        · exact Or.inl (List.mem_of_mem_tail hs)
        · exact Or.inr (List.mem_cons_of_mem _ hs)
      · rcases ih h with hs | hs
        · exact Or.inl hs
        · exact Or.inr (List.mem_cons_of_mem _ hs)

end MultiCaret
