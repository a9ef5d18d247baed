import MultiCaret.Indentation
import MultiCaret.Proofs.Document.Places

/-!
# What the indentation depends on

The search for the line that sets the indentation goes upward and passes over blank lines.  So the indentation is read
off one line, the last of the lines above that is not blank (`indentFor_eq`); what stands below, and how many blank lines
there are in between and what they are made of, does not matter (`indentFor_blankLines`).  The indentation itself and the
indent zone of a line are made of blanks (`isBlankText_indentFor`, `isBlankText_take`).
-/

namespace MultiCaret

/-- The last line that is not blank. -/
def lastNonBlank (above : List Text) : Option Text :=
  (above.filter fun l => !isBlankText l).getLast?

/-- The indentation that the line `l` sets for the lines below it. -/
def indentBelow (o : IndentOptions) (l : Text) : Text :=
  if opensBlock l then leadingBlanks l ++ o.unit else leadingBlanks l

/-! ### The line that sets the indentation -/

private theorem nonBlankAbove_snd (lines : List Text) (n : Int) :
    (nonBlankAbove? lines n).map Prod.snd = lastNonBlank (lines.take n.toNat) := by
  have hfst : ((lines.take n.toNat).zipIdx.filter fun x => !isBlankText x.1).map Prod.fst =
      (lines.take n.toNat).filter fun l => !isBlankText l := by
    have hmap := List.filter_map (f := Prod.fst) (p := fun l => !isBlankText l) (l := (lines.take n.toNat).zipIdx)
    rw [List.zipIdx_map_fst] at hmap
    exact hmap.symm
  rw [lastNonBlank, ← hfst, List.getLast?_map, nonBlankAbove?, Option.map_map, ← List.head?_filter, List.filter_reverse,
    List.head?_reverse]
  rfl

/-- The indentation is that which the last line above sets that is not blank. -/
theorem indentFor_eq (lines : List Text) (n : Int) (o : IndentOptions) :
    indentFor lines n o = (lastNonBlank (lines.take n.toNat)).elim [] (indentBelow o) := by
  rw [← nonBlankAbove_snd, indentFor]
  cases nonBlankAbove? lines n with
  | none => rfl
  | some x => rfl

theorem indentFor_congr {lines lines' : List Text} {n n' : Int}
    (h : lastNonBlank (lines.take n.toNat) = lastNonBlank (lines'.take n'.toNat)) (o : IndentOptions) :
    indentFor lines n o = indentFor lines' n' o := by
  rw [indentFor_eq, indentFor_eq, h]

private theorem indentFor_append (above below : List Text) (o : IndentOptions) :
    indentFor (above ++ below) above.length o = (lastNonBlank above).elim [] (indentBelow o) := by
  rw [indentFor_eq, Int.toNat_natCast, List.take_left]

/-! ### What the indentation is made of -/

private theorem isBlankText_append {s t : Text} (hs : isBlankText s = true) (ht : isBlankText t = true) :
    isBlankText (s ++ t) = true := by
  rw [isBlankText, List.all_append, Bool.and_eq_true]
  exact ⟨hs, ht⟩

theorem isBlankText_unit (o : IndentOptions) : isBlankText o.unit = true := by
  unfold IndentOptions.unit
  split
  · rw [isBlankText, List.all_eq_true]
    intro c hc
    rw [(List.mem_replicate.1 hc).2]
    rfl
  · rfl

private theorem isBlankText_indentBelow (o : IndentOptions) (l : Text) : isBlankText (indentBelow o l) = true := by
  unfold indentBelow
  split
  · exact isBlankText_append (isBlankText_leadingBlanks l) (isBlankText_unit o)
  · exact isBlankText_leadingBlanks l

theorem isBlankText_indentFor (lines : List Text) (n : Int) (o : IndentOptions) :
    isBlankText (indentFor lines n o) = true := by
  rw [indentFor_eq]
  cases lastNonBlank (lines.take n.toNat) with
  | none => rfl
  | some l => exact isBlankText_indentBelow o l

theorem newline_not_mem_unit (o : IndentOptions) : '\n' ∉ o.unit := by
  unfold IndentOptions.unit
  split
  · intro h
    cases (List.mem_replicate.1 h).2
  · decide

private theorem newline_not_mem_indentBelow (o : IndentOptions) {l : Text} (h : '\n' ∉ l) : '\n' ∉ indentBelow o l := by
  have hbase : '\n' ∉ leadingBlanks l := fun hm => h (mem_of_mem_leadingBlanks hm)
  unfold indentBelow
  split
  · rw [List.mem_append]
    exact fun hm => hm.elim hbase (newline_not_mem_unit o)
  · exact hbase

theorem newline_not_mem_indentFor {lines : List Text} (h : WellFormed lines) (n : Int) (o : IndentOptions) :
    '\n' ∉ indentFor lines n o := by
  rw [indentFor_eq]
  cases hlast : lastNonBlank (lines.take n.toNat) with
  | none => exact List.not_mem_nil
  | some l =>
    have hmem : l ∈ lines.take n.toNat := (List.mem_filter.1 (List.mem_of_getLast? hlast)).1
    exact newline_not_mem_indentBelow o (h.no_newline l (List.mem_of_mem_take hmem))

/-! ### The indent zone -/

theorem le_firstNonBlank {l : Text} {column : Int} (h : inIndentZone l column = true) : column ≤ firstNonBlank l := by
  unfold inIndentZone at h
  unfold firstNonBlank
  cases hfirst : l.findIdx? fun c => !isBlank c with
  | none =>
    rw [hfirst] at h
    cases h
  | some first =>
    rw [hfirst] at h
    exact of_decide_eq_true h

theorem isBlankText_take {l : Text} {k : Nat} (h : k ≤ firstNonBlank l) : isBlankText (l.take k) = true := by
  rw [isBlankText, List.all_eq_true]
  intro c hc
  obtain ⟨i, hi, rfl⟩ := List.mem_take_iff_getElem.1 hc
  unfold firstNonBlank at h
  cases hfirst : l.findIdx? fun c => !isBlank c with
  | none =>
    rw [hfirst, Option.getD_none] at h
    omega
  | some first =>
    rw [hfirst, Option.getD_some] at h
    have hblank := (List.findIdx?_eq_some_iff_getElem.1 hfirst).2.2 i (by omega)
    simpa using hblank

/-! ### Blank lines -/

private theorem filter_blankLines {blanks : List Text} (h : ∀ l ∈ blanks, isBlankText l = true) :
    (blanks.filter fun l => !isBlankText l) = [] := by
  rw [List.filter_eq_nil_iff]
  intro l hl hne
  rw [h l hl] at hne
  cases hne

/-- Blank lines may stand anywhere among the lines. -/
private theorem lastNonBlank_blankLines (A B : List Text) {blanks : List Text}
    (h : ∀ l ∈ blanks, isBlankText l = true) : lastNonBlank (A ++ blanks ++ B) = lastNonBlank (A ++ B) := by
  rw [lastNonBlank, List.filter_append, List.filter_append, filter_blankLines h, List.append_nil, ← List.filter_append]
  rfl

theorem lastNonBlank_concat_blank (A : List Text) {l : Text} (h : isBlankText l = true) :
    lastNonBlank (A ++ [l]) = lastNonBlank A := by
  have hblank := lastNonBlank_blankLines A [] (List.forall_mem_singleton.2 h)
  rwa [List.append_nil, List.append_nil] at hblank

/-- The indentation of the line `n` is read off the last line above it that is not blank.  It stays the same whatever
stands on the line `n` and below, and when some blank lines above it give way to others, as many or more or fewer, and
the line moves with them. -/
theorem indentFor_blankLines {lines : List Text} {n : Nat} (hn : n ≤ lines.length) (o : IndentOptions) :
    indentFor lines n o = (lastNonBlank (lines.take n)).elim [] (indentBelow o) ∧
    (∀ below, indentFor (lines.take n ++ below) n o = indentFor lines n o) ∧
    ∀ A blanks B, lines.take n = A ++ blanks ++ B → (∀ l ∈ blanks, isBlankText l = true) →
      ∀ blanks', (∀ l ∈ blanks', isBlankText l = true) →
        indentFor (A ++ blanks' ++ B ++ lines.drop n) (n - blanks.length + blanks'.length) o = indentFor lines n o := by
  have hlen : (lines.take n).length = n := by rw [List.length_take, Nat.min_eq_left hn]
  have hself := indentFor_eq lines n o
  rw [Int.toNat_natCast] at hself
  refine ⟨hself, fun below => ?_, fun A blanks B hcut hblanks blanks' hblanks' => ?_⟩
  · have happend := indentFor_append (lines.take n) below o
    rw [hlen] at happend
    rw [happend, hself]
  · have hmoved : (n : Int) - blanks.length + blanks'.length = (A ++ blanks' ++ B).length := by
      have hcount := congrArg List.length hcut
      rw [hlen] at hcount
      simp only [List.length_append] at hcount ⊢
      omega
    rw [hmoved, indentFor_append, hself, hcut, lastNonBlank_blankLines A B hblanks, lastNonBlank_blankLines A B hblanks']

/-- A line that opens a block, and another line two blank lines below it. -/
def openBrace : List Text :=
  ["if \x7b".toList, [], [' ', '\t'], ['x']]

/-- The two blank lines give way to three others. -/
theorem indentFor_blankLines_openBrace :
    3 ≤ openBrace.length ∧ openBrace.take 3 = ["if \x7b".toList] ++ [[], [' ', '\t']] ++ [] ∧
      indentFor openBrace 3 {} = [' ', ' ', ' ', ' '] ∧
      indentFor ["if \x7b".toList, ['\t'], [], [], ['x']] 4 {} = [' ', ' ', ' ', ' '] := by
  have hindent : indentFor openBrace 3 {} = [' ', ' ', ' ', ' '] := by decide +kernel
  obtain ⟨-, -, hmoved⟩ := indentFor_blankLines (show 3 ≤ openBrace.length by decide) {}
  have hblanks := hmoved ["if \x7b".toList] [[], [' ', '\t']] [] rfl (by decide) [['\t'], [], []] (by decide)
  exact ⟨by decide, rfl, hindent, hblanks.trans hindent⟩

end MultiCaret
