import MultiCaret.Proofs.Braces.Unmatched
import MultiCaret.Proofs.EditPlan

/-!
# Balanced text and text at the end

A text whose braces match one another leaves every stack of open braces as it is (`openAfter_of_balanced`).  Put in
anywhere, it therefore changes nothing but the places of the open braces behind it
(`unmatchedBraces_splice_balanced`).  For this the lines are scanned as one long line, the flat text, in which newlines
are characters like any other (`unmatchedBraces_flat`): there the braces behind the new text move by its length,
however many lines it breaks.
-/

namespace MultiCaret

/-- The braces of the text match one another: no stretch at its beginning holds more closing braces than opening ones,
and the whole text holds as many of the one as of the other. -/
structure Balanced (t : Text) : Prop where
  covered : ∀ s, s <+: t → s.count '\x7d' ≤ s.count '\x7b'
  even : t.count '\x7b' = t.count '\x7d'

/-! ### Balanced text -/

/-- What a text opens and does not close, and what it closes and did not open. -/
private theorem depthAfter_zero_add_count (t : Text) :
    depthAfter 0 t + t.count '\x7d' = t.count '\x7b' + strays t := by
  induction t with
  | nil => rfl
  | cons c t ih =>
    rw [depthAfter, strays]
    by_cases ho : c = '\x7b'
    · have := depthAfter_eq 1 t
      subst ho
      simp
      omega
    · by_cases hc : c = '\x7d'
      · subst hc
        simp
        omega
      · simp [ho, hc, ih]

private theorem balanced_iff {t : Text} : Balanced t ↔ strays t = 0 ∧ depthAfter 0 t = 0 := by
  have hcount := depthAfter_zero_add_count t
  constructor
  · intro h
    have hstrays : strays t ≤ 0 := strays_le_iff.2 h.covered
    have := h.even
    omega
  · rintro ⟨hstrays, hdepth⟩
    exact ⟨strays_le_iff.1 (Nat.le_of_eq hstrays), by omega⟩

instance (t : Text) : Decidable (Balanced t) :=
  decidable_of_iff _ balanced_iff.symm

theorem openAfter_of_balanced {ps : List (Position × Char)} (h : Balanced (ps.map Prod.snd)) (stack : List Position) :
    openAfter stack ps = stack := by
  obtain ⟨hstrays, hdepth⟩ := balanced_iff.1 h
  have hown : openAfter [] ps = [] := by
    rw [← List.length_eq_zero_iff, length_openAfter]
    exact hdepth
  rw [openAfter_eq, hown, hstrays, List.nil_append, List.drop_zero]

/-! ### Moving the places -/

/-- Braces are matched by their order, not by their places. -/
private theorem openAfter_map (f : Position → Position) (stack : List Position) (ps : List (Position × Char)) :
    openAfter (stack.map f) (ps.map (Prod.map f id)) = (openAfter stack ps).map f := by
  induction ps generalizing stack with
  | nil => rfl
  | cons q ps ih =>
    obtain ⟨p, c⟩ := q
    simp only [List.map_cons, Prod.map_apply, id_eq, openAfter]
    split
    · exact ih (p :: stack)
    · split
      · rw [← List.map_tail]
        exact ih _
      · exact ih _

private theorem map_locatedFrom {f : Position → Position} {line line' column column' : Int}
    (hf : ∀ j : Nat, f ⟨line, column + j⟩ = ⟨line', column' + j⟩) (t : Text) :
    (locatedFrom line column t).map (Prod.map f id) = locatedFrom line' column' t := by
  induction t generalizing column column' with
  | nil => rfl
  | cons c t ih =>
    have h₀ : f ⟨line, column⟩ = ⟨line', column'⟩ := by simpa using hf 0
    have hsucc : ∀ j : Nat, f ⟨line, column + 1 + j⟩ = ⟨line', column' + 1 + j⟩ := by
      intro j
      rw [Int.add_assoc, Int.add_assoc, Int.add_comm 1]
      exact hf (j + 1)
    rw [locatedFrom, List.map_cons, ih hsucc, Prod.map_apply, h₀]
    rfl

/-- The lines may be scanned as they follow one another in the flat text, since a newline is no brace. -/
private theorem openAfter_joinLines (f : Position → Position) (ls : List Text) {n k : Int}
    (hf : ∀ i j : Nat, f ⟨n + i, j⟩ = ⟨0, k + (lineOffset ls i + j : Nat)⟩) (stack : List Position) :
    openAfter (stack.map f) (locatedFrom 0 k (joinLines ls)) = (openAfter stack (locatedLines n ls)).map f := by
  induction ls generalizing n k stack with
  | nil => rfl
  | cons l ls ih =>
    have hl : locatedFrom 0 k l = (locatedFrom n 0 l).map (Prod.map f id) := by
      refine (map_locatedFrom (fun j => ?_) l).symm
      have := hf 0 j
      simpa [lineOffset_zero] using this
    rw [locatedLines, openAfter_append]
    by_cases hls : ls = []
    · subst hls
      rw [locatedLines, openAfter, ← openAfter_map, ← hl]
      rfl
    · have hsucc : ∀ i j : Nat, f ⟨n + 1 + i, j⟩ = ⟨0, k + l.length + 1 + (lineOffset ls i + j : Nat)⟩ := by
        intro i j
        have := hf (i + 1) j
        rw [lineOffset_succ] at this
        rw [show n + 1 + (i : Int) = n + ((i + 1 : Nat) : Int) by omega, this, Position.mk.injEq]
        omega
      rw [joinLines_cons hls, locatedFrom_append, openAfter_append, hl, openAfter_map, ← ih hsucc]
      rfl

/-- The braces that the scan of the flat text leaves open stand at the offsets of those in the lines. -/
theorem unmatchedBraces_flat (lines : List Text) :
    unmatchedBraces [joinLines lines] = (unmatchedBraces lines).map fun q => ⟨0, offset lines q⟩ := by
  have h := openAfter_joinLines (fun q => ⟨0, offset lines q⟩) lines (n := 0) (k := 0) (fun i j => by
    simp only [offset, Int.zero_add, Int.toNat_natCast]) []
  rw [unmatchedBraces, located, locatedLines, locatedLines, List.append_nil]
  exact h

/-- Where a place goes when `n` characters are put into its line at the column `k`. -/
def Position.pushed (k n : Nat) (q : Position) : Position :=
  ⟨q.line, if q.column < k then q.column else q.column + n⟩

/-- In a line, the open braces behind a balanced text that is put in move by its length. -/
private theorem unmatchedBraces_insert_flat {t : Text} (ht : Balanced t) (u v : Text) :
    unmatchedBraces [u ++ t ++ v] = (unmatchedBraces [u ++ v]).map (Position.pushed u.length t.length) := by
  obtain ⟨f, hf⟩ : ∃ f, f = Position.pushed u.length t.length := ⟨_, rfl⟩
  have hu : (locatedFrom 0 0 u).map (Prod.map f id) = locatedFrom 0 0 u := by
    refine (List.map_congr_left fun q hq => ?_).trans (List.map_id _)
    obtain ⟨x, y, hxy, hplace⟩ := mem_locatedFrom hq
    have hlt : q.1.column < u.length := by
      rw [hplace, hxy, List.length_append, List.length_cons]
      simp only
      omega
    rw [Prod.map, hf, Position.pushed, if_pos hlt]
    rfl
  have hv : (locatedFrom 0 (0 + u.length) v).map (Prod.map f id) = locatedFrom 0 (0 + (u ++ t).length) v := by
    refine map_locatedFrom (fun j => ?_) v
    rw [hf, Position.pushed, if_neg (by simp only; omega), List.length_append, Position.mk.injEq]
    refine ⟨rfl, ?_⟩
    simp only
    omega
  have hone : ∀ l : Text, unmatchedBraces [l] = openAfter [] (locatedFrom 0 0 l) := fun l => by
    rw [unmatchedBraces, located, locatedLines, locatedLines, List.append_nil]
  have hempty : openAfter [] (locatedFrom 0 0 u ++ locatedFrom 0 (0 + u.length) t) = openAfter [] (locatedFrom 0 0 u) := by
    rw [openAfter_append]
    exact openAfter_of_balanced (by rwa [map_snd_locatedFrom]) _
  calc unmatchedBraces [u ++ t ++ v]
      = openAfter (openAfter [] (locatedFrom 0 0 u)) (locatedFrom 0 (0 + (u ++ t).length) v) := by
        rw [hone, locatedFrom_append, openAfter_append, locatedFrom_append, hempty]
    _ = openAfter ([].map f) ((locatedFrom 0 0 (u ++ v)).map (Prod.map f id)) := by
        rw [locatedFrom_append 0 0 u v, List.map_append, hu, hv, openAfter_append]
        rfl
    _ = (unmatchedBraces [u ++ v]).map (Position.pushed u.length t.length) := by
        rw [openAfter_map, hone, hf]

/-! ### Balanced text in a document -/

variable {lines : List Text} {p : Position} {t : Text}

/-- The open braces behind a balanced text that is put in move by its length along the flat text. -/
private theorem map_offset_unmatchedBraces_splice (hp : InBounds lines p) (ht : Balanced t) :
    (unmatchedBraces (splice (.insert p t) lines)).map (offset (splice (.insert p t) lines)) =
      (unmatchedBraces lines).map fun q => if q < p then offset lines q else offset lines q + t.length := by
  have hflat : joinLines (splice (.insert p t) lines) =
      (joinLines lines).take (offset lines p) ++ t ++ (joinLines lines).drop (offset lines p) :=
    joinLines_splice ⟨Position.le_refl p, hp, hp⟩
  have hlen : ((joinLines lines).take (offset lines p)).length = offset lines p := by
    rw [List.length_take, Nat.min_eq_left hp.offset_le]
  have hmoved := unmatchedBraces_insert_flat ht ((joinLines lines).take (offset lines p))
    ((joinLines lines).drop (offset lines p))
  rw [← hflat, hlen, List.take_append_drop, unmatchedBraces_flat, unmatchedBraces_flat, List.map_map] at hmoved
  have hcols := congrArg (List.map fun q : Position => q.column.toNat) hmoved
  rw [List.map_map, List.map_map] at hcols
  refine hcols.trans (List.map_congr_left fun q hq => ?_)
  -- places are ordered as their offsets
  have hlt := offset_lt_iff (opensAt_of_mem_unmatchedBraces hq).inBounds hp
  simp only [Function.comp_apply, Position.pushed, Int.ofNat_lt, hlt]
  split
  · exact Int.toNat_natCast _
  · omega

/-- A list is determined by its images under a function that tells its elements apart. -/
private theorem eq_of_map_eq {α β : Type} {f : α → β} {l l' : List α} (hf : ∀ a ∈ l, ∀ b ∈ l', f a = f b → a = b)
    (h : l.map f = l'.map f) : l = l' := by
  induction l generalizing l' with
  | nil => exact (List.map_eq_nil_iff.1 h.symm).symm
  | cons a l ih =>
    cases l' with
    | nil => cases h
    | cons b l' =>
      rw [List.map_cons, List.map_cons, List.cons.injEq] at h
      rw [hf a List.mem_cons_self b List.mem_cons_self h.1,
        ih (fun c hc d hd => hf c (List.mem_cons_of_mem a hc) d (List.mem_cons_of_mem b hd)) h.2]

private theorem map_after_unmatchedBraces (h : WellFormed lines) (hp : InBounds lines p) (ht : Balanced t) :
    unmatchedBraces (splice (.insert p t) lines) = (unmatchedBraces lines).map fun q => q.after (.insert p t) := by
  have hrange : (Edit.insert p t).InRange lines := ⟨Position.le_refl p, hp, hp⟩
  have hafter : ∀ q ∈ unmatchedBraces lines, InBounds (splice (.insert p t) lines) (q.after (.insert p t)) ∧
      offset (splice (.insert p t) lines) (q.after (.insert p t)) =
        if q < p then offset lines q else offset lines q + t.length := by
    intro q hq
    have hin := (opensAt_of_mem_unmatchedBraces hq).inBounds
    by_cases hlt : q < p
    · have hstay : q.after (.insert p t) = q := if_pos hlt
      rw [hstay, if_pos hlt]
      exact inBounds_splice_of_le h hrange hin (Position.le_of_lt hlt)
    · obtain ⟨hb, ho⟩ := Position.after_splice h hrange hin (Position.not_lt.1 hlt)
      refine ⟨hb, ?_⟩
      rw [if_neg hlt]
      simp only [Edit.shift, Edit.insert] at ho ⊢
      omega
  refine eq_of_map_eq (f := offset (splice (.insert p t) lines)) ?_ ?_
  · intro a ha b hb hab
    obtain ⟨q, hq, rfl⟩ := List.mem_map.1 hb
    exact (offset_inj (opensAt_of_mem_unmatchedBraces ha).inBounds (hafter q hq).1).1 hab
  · rw [map_offset_unmatchedBraces_splice hp ht, List.map_map]
    exact List.map_congr_left fun q hq => (hafter q hq).2.symm

/-! ### Closing braces at the end -/

private theorem countUnmatched_closers (lines : List Text) (k : Nat) :
    countUnmatched (lines ++ [List.replicate k '\x7d']) = countUnmatched lines - k := by
  rw [countUnmatched_eq, countUnmatched_eq, List.flatten_append, depthAfter_append, List.flatten_singleton,
    depthAfter_replicate_closer]

/-- A text whose braces match one another may be put in anywhere: as many braces stay open as before, and they are the
same ones, in the flat text moved by the length of the new text if they stand behind it, and in the lines wherever the
edit carries them.  And `k` closing braces at the end, behind the last line or on a line of their own, close `k` of
the open braces, or all if there are not as many. -/
theorem unmatchedBraces_splice_balanced (lines : List Text) :
    (∀ (p : Position) (t : Text), InBounds lines p → Balanced t →
      countUnmatched (splice (.insert p t) lines) = countUnmatched lines ∧
      (unmatchedBraces (splice (.insert p t) lines)).map (offset (splice (.insert p t) lines)) =
        (unmatchedBraces lines).map (fun q => if q < p then offset lines q else offset lines q + t.length) ∧
      (WellFormed lines →
        unmatchedBraces (splice (.insert p t) lines) = (unmatchedBraces lines).map fun q => q.after (.insert p t))) ∧
    ∀ k, countUnmatched (lines ++ [List.replicate k '\x7d']) = countUnmatched lines - k ∧
      ∀ ls l, lines = ls ++ [l] → countUnmatched (ls ++ [l ++ List.replicate k '\x7d']) = countUnmatched lines - k := by
  refine ⟨fun p t hp ht => ⟨?_, map_offset_unmatchedBraces_splice hp ht, fun h => map_after_unmatchedBraces h hp ht⟩,
    fun k => ⟨countUnmatched_closers lines k, ?_⟩⟩
  · have := congrArg List.length (map_offset_unmatchedBraces_splice hp ht)
    rwa [List.length_map, List.length_map] at this
  · rintro ls l rfl
    rw [← countUnmatched_closers, countUnmatched_eq, countUnmatched_eq]
    simp

/-- Two lines, the second of which closes the inner brace of the first one and opens another one. -/
def stolenCloser : List Text :=
  ["a \x7b\x7b".toList, "\x7d \x7b".toList]

theorem unmatchedBraces_splice_balanced_stolenCloser :
    InBounds stolenCloser ⟨0, 3⟩ ∧ Balanced "\x7bx\n\x7d ".toList ∧ WellFormed stolenCloser ∧
      unmatchedBraces stolenCloser = [⟨1, 2⟩, ⟨0, 2⟩] ∧
      unmatchedBraces (splice (.insert ⟨0, 3⟩ "\x7bx\n\x7d ".toList) stolenCloser) = [⟨2, 2⟩, ⟨0, 2⟩] ∧
      countUnmatched (stolenCloser ++ [List.replicate 5 '\x7d']) = 0 ∧
      countUnmatched ["a \x7b\x7b".toList, "\x7d \x7b\x7d".toList] = 1 := by
  have hp : InBounds stolenCloser ⟨0, 3⟩ := by decide +kernel
  have ht : Balanced "\x7bx\n\x7d ".toList := by decide +kernel
  have hwf : WellFormed stolenCloser := ⟨by decide +kernel, by decide +kernel⟩
  have hopen : unmatchedBraces stolenCloser = [⟨1, 2⟩, ⟨0, 2⟩] := by decide +kernel
  have hcount : countUnmatched stolenCloser = 2 := congrArg List.length hopen
  have hkept := ((unmatchedBraces_splice_balanced stolenCloser).1 _ _ hp ht).2.2 hwf
  have hbelow := ((unmatchedBraces_splice_balanced stolenCloser).2 5).1
  have hbehind := ((unmatchedBraces_splice_balanced stolenCloser).2 1).2 ["a \x7b\x7b".toList] _ rfl
  rw [hopen] at hkept
  rw [hcount] at hbelow hbehind
  exact ⟨hp, ht, hwf, hopen, hkept.trans (by decide +kernel), hbelow, hbehind⟩

end MultiCaret
