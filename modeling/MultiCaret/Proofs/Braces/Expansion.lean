import MultiCaret.Proofs.Braces.Unmatched
import MultiCaret.Proofs.Indentation
import MultiCaret.Proofs.SmartKey.Outcome

/-!
# Blocks and the balance of braces

Whether a block is opened is decided on the lines without what stands behind the brace: there the strays of the lines
below do not use up the brace and all that is open in front of it (`planBlock_cut`).  The edit acts on all of the line.
If it puts a closing brace in, this brace takes one that no stray below would have taken, so one brace less stays open
(`depthAfter_block_carried`); if it uses the first closing brace of the line, the opening braces in front of that one
are given up with their text (`depthAfter_blockText_le`).
-/

namespace MultiCaret

/-! ### The braces of a block -/

private theorem not_brace_of_isBlank (c : Char) (h : isBlank c = true) : (c == '\x7b' || c == '\x7d') = false := by
  rw [Bool.eq_false_iff]
  intro hbrace
  simp only [Bool.or_eq_true, beq_iff_eq] at hbrace
  rcases hbrace with rfl | rfl
  · exact absurd h (by decide)
  · exact absurd h (by decide)

theorem braces_of_blank {t : Text} (h : isBlankText t = true) : braces t = [] :=
  filter_of_blank not_brace_of_isBlank h

theorem braces_trim (t : Text) : braces (trim t) = braces t :=
  filter_trim not_brace_of_isBlank t

private theorem braces_flatten_splitLines (t : Text) : braces (splitLines t).flatten = braces t := by
  rw [← braces_joinLines]
  exact congrArg braces (joinWith_splitOn t)

private theorem braces_block {base unit : Text} (hbase : braces base = []) (hunit : braces unit = [])
    (carried tail : Text) :
    braces ('\n' :: base ++ unit ++ carried ++ '\n' :: base ++ '\x7d' :: tail) =
      braces carried ++ '\x7d' :: braces tail := by
  have hnewline : ∀ s : Text, braces ('\n' :: s) = braces s := fun s => rfl
  have hcloser : ∀ s : Text, braces ('\x7d' :: s) = '\x7d' :: braces s := fun s => rfl
  simp only [List.cons_append, List.append_assoc, hnewline, hcloser, braces_append, hbase, hunit, List.nil_append]

variable {x rest unit : Text}

/-- With no closing brace on the rest of the line, the block carries this rest and puts a closing brace in. -/
private theorem depthAfter_blockText_carried (hunit : isBlankText unit = true) (h : '\x7d' ∉ rest) (depth : Nat) :
    depthAfter depth (blockText (x ++ '\x7b' :: rest) x.length unit) = depthAfter depth rest - 1 := by
  have hafter : afterCloser? rest = none := by
    rw [afterCloser?, if_neg]
    rwa [List.contains_iff_mem]
  have hbraces : braces (blockText (x ++ '\x7b' :: rest) x.length unit) = braces (rest ++ ['\x7d']) := by
    rw [blockText, drop_cut, hafter]
    simp only
    rw [braces_block (braces_of_blank (isBlankText_leadingBlanks _)) (braces_of_blank hunit), braces_trim,
      braces_append]
    rfl
  rw [depthAfter_congr hbraces, depthAfter_append]
  rfl

/-- With one, the block begins with it, and what follows it is kept. -/
private theorem depthAfter_blockText_reused {u v : Text} (hunit : isBlankText unit = true)
    (hrest : rest = u ++ '\x7d' :: v) (hu : '\x7d' ∉ u) (depth : Nat) :
    depthAfter depth (blockText (x ++ '\x7b' :: rest) x.length unit) = depthAfter (depth - 1) v := by
  have hafter : afterCloser? rest = some v := by
    have hdrop : (u ++ '\x7d' :: v).dropWhile (· != '\x7d') = '\x7d' :: v := by
      rw [List.dropWhile_append_of_pos]
      · rfl
      · intro c hc
        exact bne_iff_ne.2 fun h => hu (h ▸ hc)
    rw [afterCloser?, if_pos]
    · rw [hrest, hdrop]
      rfl
    · rw [List.contains_iff_mem, hrest]
      exact List.mem_append_right _ List.mem_cons_self
  have hbraces : braces (blockText (x ++ '\x7b' :: rest) x.length unit) = braces ('\x7d' :: v) := by
    rw [blockText, drop_cut, hafter]
    simp only
    rw [braces_block (braces_of_blank (isBlankText_leadingBlanks _)) (braces_of_blank hunit)]
    rfl
  rw [depthAfter_congr hbraces, depthAfter, if_neg (by decide), if_pos rfl]

/-- A closing brace that is put in takes a brace that the strays below would have left open. -/
theorem depthAfter_block_carried {below : Text} {depth : Nat} (hunit : isBlankText unit = true) (h : '\x7d' ∉ rest)
    (hstrays : strays below ≤ depth) :
    depthAfter (depthAfter (depth + 1) (blockText (x ++ '\x7b' :: rest) x.length unit)) below + 1 =
      depthAfter (depthAfter (depth + 1) rest) below := by
  rw [depthAfter_blockText_carried hunit h, depthAfter_of_no_closer h, depthAfter_eq _ below,
    depthAfter_eq (depth + 1 + rest.count '\x7b') below]
  omega

/-- A block never leaves more braces open than the rest of the line did. -/
theorem depthAfter_blockText_le (hunit : isBlankText unit = true) (depth : Nat) :
    depthAfter depth (blockText (x ++ '\x7b' :: rest) x.length unit) ≤ depthAfter depth rest := by
  by_cases hrest : '\x7d' ∈ rest
  · obtain ⟨u, v, hsplit, hu⟩ := List.eq_append_cons_of_mem hrest
    rw [depthAfter_blockText_reused hunit hsplit hu, hsplit, depthAfter_to_closer hu]
    apply depthAfter_mono
    omega
  · rw [depthAfter_blockText_carried hunit hrest]
    omega

/-! ### The plan -/

theorem expandBrace_cut {lines : List Text} {n column : Int} {l : Text} {plan : PlannedEdit}
    (h : expandBrace? lines n l column unit = some plan) :
    ∃ x rest, l = x ++ '\x7b' :: rest ∧ trimEnd (upTo l column) = x ++ ['\x7b'] ∧
      plan.edit = ⟨⟨n, (x.length + 1 : Nat)⟩, ⟨n, l.length⟩, blockText l x.length unit⟩ ∧
      needsCloser (lines.set n.toNat (x ++ ['\x7b'])) ⟨n, x.length⟩ = true := by
  rw [expandBrace?, braceBefore?] at h
  by_cases hlast : (trimEnd (upTo l column)).getLast? = some '\x7b'
  · obtain ⟨x, hx⟩ := List.getLast?_eq_some_iff.1 hlast
    have hl : l = x ++ '\x7b' :: (trailingBlanks (upTo l column) ++ onward l column) := by
      rw [List.append_cons, ← hx, ← List.append_assoc, (trimEnd_append_trailingBlanks _).1, upTo_append_onward]
    have htake : l.take (x.length + 1) = x ++ ['\x7b'] := by rw [hl, take_cut]
    rw [if_pos hlast, hx, List.length_append, List.length_singleton, Nat.add_sub_cancel] at h
    simp only [htake] at h
    split at h
    · next hcloser =>
      rw [← Option.some.inj h]
      exact ⟨x, _, hl, hx, rfl, hcloser⟩
    · cases h
  · rw [if_neg hlast] at h
    cases h

/-- A planned block cuts the lines at its brace, and the strays of the lines below do not use up this brace and all that
is open in front of it. -/
theorem planBlock_cut {lines : List Text} {line column : Int} {plan : PlannedEdit}
    (h : planBlock lines line column unit none = .ok (some plan)) :
    ∃ A x rest B, lines = A ++ (x ++ '\x7b' :: rest) :: B ∧ line = A.length ∧
      trimEnd (upTo (x ++ '\x7b' :: rest) column) = x ++ ['\x7b'] ∧
      plan.edit = ⟨⟨A.length, (x.length + 1 : Nat)⟩, ⟨A.length, (x ++ '\x7b' :: rest).length⟩,
        blockText (x ++ '\x7b' :: rest) x.length unit⟩ ∧
      strays B.flatten ≤ depthAfter 0 (A.flatten ++ x) := by
  unfold planBlock at h
  cases hentry : entryAt? lines line with
  | none =>
    rw [hentry] at h
    cases h
  | some l =>
    rw [hentry] at h
    have hblock : expandBrace? lines line l column unit = some plan := Except.ok.inj h
    obtain ⟨x, rest, rfl, hbefore, hedit, hcloser⟩ := expandBrace_cut hblock
    -- no brace needs a closer on a line counted from the end
    obtain ⟨⟨h₀, h₁⟩, -⟩ := opensAt_of_needsCloser hcloser
    rw [List.length_set] at h₁
    obtain ⟨n, rfl⟩ : ∃ n : Nat, line = n := ⟨line.toNat, by simp only at h₀; omega⟩
    have hlt : n < lines.length := by simpa using h₁
    rw [entryAt?, if_pos (Int.natCast_nonneg n), Int.toNat_natCast, List.getElem?_eq_getElem hlt] at hentry
    have hlines : lines = lines.take n ++ (x ++ '\x7b' :: rest) :: lines.drop (n + 1) := by
      rw [← Option.some.inj hentry, ← List.drop_eq_getElem_cons hlt, List.take_append_drop]
    have hlen : (lines.take n).length = n := by
      rw [List.length_take, Nat.min_eq_left (Nat.le_of_lt hlt)]
    refine ⟨lines.take n, x, rest, lines.drop (n + 1), hlines, by rw [hlen], hbefore, by rw [hlen, hedit], ?_⟩
    rw [Int.toNat_natCast, List.set_eq_take_append_cons_drop, if_pos hlt] at hcloser
    have hcut := needsCloser_cut_iff (lines.take n) (lines.drop (n + 1)) x []
    rw [hlen] at hcut
    exact hcut.1 hcloser

/-- The braces that stay open after the rest of a line has been replaced. -/
private theorem countUnmatched_splice_rest (A B : List Text) (x rest t : Text) :
    countUnmatched (splice ⟨⟨A.length, (x.length + 1 : Nat)⟩, ⟨A.length, (x ++ '\x7b' :: rest).length⟩, t⟩
        (A ++ (x ++ '\x7b' :: rest) :: B)) =
      depthAfter (depthAfter (depthAfter 0 (A.flatten ++ x) + 1) t) B.flatten := by
  have hline := lineOf_cut A B (x ++ '\x7b' :: rest)
  have hsplice : braces (splice ⟨⟨A.length, (x.length + 1 : Nat)⟩, ⟨A.length, (x ++ '\x7b' :: rest).length⟩, t⟩
      (A ++ (x ++ '\x7b' :: rest) :: B)).flatten = braces (A.flatten ++ x ++ ['\x7b'] ++ t ++ B.flatten) := by
    simp only [splice, hline, Int.toNat_natCast, take_cut, drop_cut, List.drop_length, List.append_nil, List.take_left,
      List.flatten_append, braces_append, braces_flatten_splitLines, List.append_assoc]
  rw [countUnmatched_eq, depthAfter_congr hsplice, depthAfter_append, depthAfter_append, depthAfter_append]
  rfl

/-- Opening a block adds two lines.  With no closing brace behind the opening one on its line, one brace less stays
open; with one, and no opening brace in front of it, as many stay open as before; and never more. -/
theorem planBlock_balance {d : Document} (hwf : WellFormed d.lines) (o : IndentOptions) {line column : Int}
    {plan : PlannedEdit} (h : planBlock d.lines line column o.unit none = .ok (some plan)) :
    ∃ d', d.applyEdits [plan.edit] = .ok d' ∧ d'.lines.length = d.lines.length + 2 ∧
      ∃ before rest, lineOf d.lines line = before ++ '\x7b' :: rest ∧
        trimEnd (upTo (lineOf d.lines line) column) = before ++ ['\x7b'] ∧
        ('\x7d' ∉ rest → countUnmatched d'.lines + 1 = countUnmatched d.lines) ∧
        (∀ u v, rest = u ++ '\x7d' :: v → '\x7d' ∉ u → '\x7b' ∉ u →
          countUnmatched d'.lines = countUnmatched d.lines) ∧
        countUnmatched d'.lines ≤ countUnmatched d.lines := by
  obtain ⟨A, x, rest, B, hlines, rfl, hbefore, hedit, hstrays⟩ := planBlock_cut h
  have hunit := isBlankText_unit o
  have hline : lineOf d.lines A.length = x ++ '\x7b' :: rest := hlines ▸ lineOf_cut A B _
  have hhas : HasLine d.lines A.length := hlines ▸ hasLine_cut A B _
  have hrange : plan.edit.InRange d.lines := by
    rw [hedit, ← hline]
    exact inRange_onLine hhas (by rw [hline]; simp) (Nat.le_refl _) _
  have hd := applyEdits_eq_ok_iff.2 ⟨batchFits_singleton hrange, rfl⟩
  have hnew : countUnmatched (d.afterBatch [plan.edit]).lines =
      depthAfter (depthAfter (depthAfter 0 (A.flatten ++ x) + 1) (blockText (x ++ '\x7b' :: rest) x.length o.unit))
        B.flatten := by
    rw [Document.lines_afterBatch, hedit, hlines]
    exact countUnmatched_splice_rest A B x rest _
  have hold : countUnmatched d.lines =
      depthAfter (depthAfter (depthAfter 0 (A.flatten ++ x) + 1) rest) B.flatten := by
    rw [hlines, countUnmatched_eq, flatten_cut, depthAfter_append, List.cons_append, depthAfter, if_pos rfl,
      depthAfter_append]
  refine ⟨_, hd, ?_, x, rest, hline, by rw [hline]; exact hbefore, ?_, ?_, ?_⟩
  · have hlen := length_afterBatch hwf (batchFits_singleton hrange)
    have hno : '\n' ∉ x ++ '\x7b' :: rest := hline ▸ hwf.lineOf A.length
    have hgrowth : plan.edit.growth = 2 := by
      rw [hedit]
      exact SmartKey.growth_block hno x.length o
    simp only [List.map_cons, List.map_nil, total_cons, hgrowth] at hlen
    have htotal : total [] = 0 := rfl
    omega
  · intro hrest
    rw [hnew, hold]
    exact depthAfter_block_carried hunit hrest hstrays
  · intro u v hrest hu hopen
    rw [hnew, hold, depthAfter_blockText_reused hunit hrest hu, hrest, depthAfter_to_closer hu,
      List.count_eq_zero.2 hopen]
  · rw [hnew, hold]
    apply depthAfter_mono
    exact depthAfter_blockText_le hunit _

/-- An opening brace below another one and in front of a third one, with a single closing brace below them all. -/
def nestedBraces : Document :=
  .ofText "a \x7b\n  b \x7b x \x7b\n\x7d".toList "" []

theorem planBlock_balance_nestedBraces :
    WellFormed nestedBraces.lines ∧ ∃ plan d',
      planBlock nestedBraces.lines 1 5 (IndentOptions.unit {}) none = .ok (some plan) ∧
      nestedBraces.applyEdits [plan.edit] = .ok d' ∧ d'.lines.length = 5 ∧
      countUnmatched nestedBraces.lines = 2 ∧ countUnmatched d'.lines = 1 := by
  have hwf : WellFormed nestedBraces.lines := wellFormed_splitLines _
  have hplan : planBlock nestedBraces.lines 1 5 (IndentOptions.unit {}) none =
      .ok (some ⟨⟨⟨1, 5⟩, ⟨1, 9⟩, "\n      x \x7b\n  \x7d".toList⟩, ⟨2, 6⟩⟩) := by rfl
  have hcount : countUnmatched nestedBraces.lines = 2 := by decide +kernel
  obtain ⟨d', hd, hlen, before, rest, hline, hbefore, hcarried, -, -⟩ := planBlock_balance hwf {} hplan
  have hcut : trimEnd (upTo (lineOf nestedBraces.lines 1) 5) = "  b ".toList ++ ['\x7b'] := by decide +kernel
  have hrest : lineOf nestedBraces.lines 1 = "  b ".toList ++ '\x7b' :: " x \x7b".toList := by decide +kernel
  obtain rfl := List.append_cancel_right (hbefore.symm.trans hcut)
  obtain rfl := (List.cons.inj (List.append_cancel_left (hline.symm.trans hrest))).2
  have hone := hcarried (by decide +kernel)
  exact ⟨hwf, _, d', hplan, hd, hlen, hcount, by omega⟩

end MultiCaret
