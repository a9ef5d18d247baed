import MultiCaret.Proofs.Document.NonBlanks
import MultiCaret.Proofs.SmartKey.Recording

/-!
# What Backspace takes away

When Backspace acts, it looks at the line of the cursor and the one above: it makes one line of the two, or takes away
some indentation of the lower one (`Withdrawal`).  The lines around them stay, and of the two nothing is lost but blanks,
so that the cursor keeps its place among the characters that are no blanks (`press_backspace_nonBlanks`).  Of two blank
lines one is left, with the indentation that it has to have where it stands then (`press_backspace_blankPair`).
-/

namespace MultiCaret

theorem Selection.singleton_caret_inj {p q : Position} (h : [Selection.caret p] = [.caret q]) : p = q :=
  congrArg Selection.active (List.cons.inj h).1

/-! ### Two neighbouring lines -/

private theorem lineOf_cut_below (A B : List Text) (above l : Text) :
    lineOf (A ++ above :: l :: B) (A.length + 1 : Nat) = l := by
  have h := lineOf_cut (A ++ [above]) B l
  rwa [List.length_append, List.length_singleton, ← List.append_cons] at h

private theorem drop_cut_below {α : Type} (A B : List α) (a b : α) :
    (A ++ a :: b :: B).drop (A.length + 1 + 1) = B := by
  rw [← List.drop_drop, drop_cut]
  rfl

/-- A line with another one above cuts the lines at both. -/
private theorem HasLine.cut_above {lines : List Text} {n : Int} (h : HasLine lines n) (hn : 0 < n) :
    ∃ A above l B, lines = A ++ above :: l :: B ∧ n = (A.length + 1 : Nat) := by
  obtain ⟨front, l, B, rfl, rfl, -⟩ := h.cut
  have hne : front ≠ [] := by
    rintro rfl
    exact absurd hn (Int.lt_irrefl 0)
  obtain ⟨A, above, rfl⟩ := (List.eq_nil_or_concat front).resolve_left hne
  refine ⟨A, above, l, B, ?_, ?_⟩
  · rw [List.concat_eq_append, ← List.append_cons]
  · rw [List.length_concat]

/-- What an edit leaves of the lines `m` and `l`, from a place in the one to a place in the other, is one line. -/
private theorem splitLines_rejoined {m l t : Text} (hm : '\n' ∉ m) (hl : '\n' ∉ l) (ht : '\n' ∉ t) (j k : Nat) :
    splitLines (m.take j ++ t ++ l.drop k) = [m.take j ++ t ++ l.drop k] := by
  apply splitOn_of_not_mem
  simp only [List.mem_append, not_or]
  exact ⟨⟨fun h => hm (List.mem_of_mem_take h), ht⟩, fun h => hl (List.mem_of_mem_drop h)⟩

/-- An edit from a place in a line to one in the next line makes one line of the two. -/
private theorem splice_fromAbove {A B : List Text} {above l t : Text} (h : WellFormed (A ++ above :: l :: B))
    (ht : '\n' ∉ t) (j k : Nat) : splice ⟨⟨A.length, j⟩, ⟨(A.length + 1 : Nat), k⟩, t⟩ (A ++ above :: l :: B) =
      A ++ (above.take j ++ t ++ l.drop k) :: B := by
  have hsplit := splitLines_rejoined (h.no_newline above (by simp)) (h.no_newline l (by simp)) ht j k
  simp only [splice, lineOf_cut, lineOf_cut_below, Int.toNat_natCast, List.take_left, drop_cut_below]
  rw [hsplit, List.append_assoc, List.singleton_append]

/-- An edit in a line without newlines. -/
private theorem splice_cut {A B : List Text} {l t : Text} (h : WellFormed (A ++ l :: B)) (ht : '\n' ∉ t) (j k : Nat) :
    splice ⟨⟨A.length, j⟩, ⟨A.length, k⟩, t⟩ (A ++ l :: B) = A ++ (l.take j ++ t ++ l.drop k) :: B := by
  have hl : '\n' ∉ l := h.no_newline l (by simp)
  have hsplit := splitLines_rejoined hl hl ht j k
  simp only [splice, lineOf_cut, Int.toNat_natCast, List.take_left, drop_cut]
  rw [hsplit, List.append_assoc, List.singleton_append]

namespace SmartKey

/-! ### The action -/

/-- What Backspace makes of the line `l` and the one above it, where `indent` is the indentation that `l` should have:
the lines that stay above the cursor, and the line of the cursor in front of the cursor and behind it. -/
inductive Withdrawal (indent above l : Text) : List Text → Text → Text → Prop
  /-- Of two blank lines one stays. -/
  | blankPair (hl : isBlankText l = true) (habove : isBlankText above = true) :
      Withdrawal indent above l [] indent []
  /-- A blank line goes, and the blanks at the end of the line above. -/
  | blankBelow (hl : isBlankText l = true) (habove : ¬ isBlankText above = true) :
      Withdrawal indent above l [] (trimEnd above) []
  /-- Too deep an indentation gives way to the right one. -/
  | unindent (hl : ¬ isBlankText l = true) (hless : indent.length < firstNonBlank l) :
      Withdrawal indent above l [above] indent (l.drop (firstNonBlank l))
  /-- A blank line above goes. -/
  | blankAbove (hl : ¬ isBlankText l = true) (habove : isBlankText above = true) :
      Withdrawal indent above l [] (l.take (firstNonBlank l)) (l.drop (firstNonBlank l))
  /-- The two lines are joined without the blanks between them. -/
  | join (hl : ¬ isBlankText l = true) (habove : ¬ isBlankText above = true) :
      Withdrawal indent above l [] (trimEnd above) (trim l)

/-- The lines are cut at the line `l` and the one above, and what the action asks for makes `kept` and `x ++ y` of the
two, with the cursor behind `x`. -/
structure Withdraws (s : Scene) (a : Action) (A : List Text) (above l : Text) (B kept : List Text) (x y : Text) :
    Prop where
  cut : s.lines = A ++ above :: l :: B
  how : Withdrawal (indentFor s.lines (A.length + 1 : Nat) s.indent) above l kept x y
  lines : spliceAll (sortBy Edit.precedes a.edits) s.lines = A ++ kept ++ (x ++ y) :: B
  selections : a.selections = [.caret ⟨(A.length + kept.length : Nat), x.length⟩]
  reveal : a.reveal = some ⟨(A.length + kept.length : Nat), x.length⟩

variable {s : Scene} {a : Action} {A B : List Text} {above l : Text}

private theorem withdraws_single {e : Edit} {p : Position} {kept : List Text} {x y : Text}
    (hcut : s.lines = A ++ above :: l :: B) (h : backspaceAct e p = .act a)
    (how : Withdrawal (indentFor s.lines (A.length + 1 : Nat) s.indent) above l kept x y)
    (hlines : splice e (A ++ above :: l :: B) = A ++ kept ++ (x ++ y) :: B)
    (hp : p = ⟨(A.length + kept.length : Nat), x.length⟩) : Withdraws s a A above l B kept x y := by
  obtain rfl := Reaction.act.inj h
  subst hp
  refine ⟨hcut, how, ?_, rfl, rfl⟩
  rw [hcut]
  exact hlines

private theorem backspaceBlank_act (hwf : WellFormed s.lines) (hcut : s.lines = A ++ above :: l :: B)
    (hl : isBlankText l = true) (h : backspaceBlank s (A.length + 1 : Nat) l = .act a) :
    ∃ kept x y, Withdraws s a A above l B kept x y := by
  have hindent := newline_not_mem_indentFor hwf (A.length + 1 : Nat) s.indent
  have hline : ((A.length + 1 : Nat) : Int) - 1 = A.length := by omega
  have habove : lineOf s.lines A.length = above := hcut ▸ lineOf_cut A (l :: B) above
  rw [hcut] at hwf
  simp only [backspaceBlank, hline, habove] at h
  split at h
  · next hblank =>
    refine ⟨[], _, [], withdraws_single hcut h (.blankPair hl hblank) ?_ rfl⟩
    have hsplice := splice_fromAbove hwf hindent 0 l.length
    rw [List.take_zero, List.nil_append, List.drop_length] at hsplice
    rw [List.append_nil]
    exact hsplice
  · next hblank =>
    refine ⟨[], _, [], withdraws_single hcut h (.blankBelow hl hblank) ?_ rfl⟩
    have hsplice := splice_fromAbove hwf List.not_mem_nil (trimEnd above).length l.length
    rw [take_trimEnd, List.append_nil, List.drop_length] at hsplice
    rw [List.append_nil]
    exact hsplice

private theorem backspaceIndent_act (hwf : WellFormed s.lines) (hcut : s.lines = A ++ above :: l :: B)
    (hl : ¬ isBlankText l = true) (h : backspaceIndent s (A.length + 1 : Nat) l = .act a) :
    ∃ kept x y, Withdraws s a A above l B kept x y := by
  have hindent := newline_not_mem_indentFor hwf (A.length + 1 : Nat) s.indent
  have hline : ((A.length + 1 : Nat) : Int) - 1 = A.length := by omega
  have habove : lineOf s.lines A.length = above := hcut ▸ lineOf_cut A (l :: B) above
  rw [hcut] at hwf
  have hnl : '\n' ∉ l := hwf.no_newline l (by simp)
  simp only [backspaceIndent, hline, habove] at h
  split at h
  · next hless =>
    refine ⟨[above], _, _, withdraws_single hcut h (.unindent hl hless) ?_ ?_⟩
    · rw [List.append_cons] at hwf
      have hsplice := splice_cut hwf hindent 0 (firstNonBlank l)
      rw [List.take_zero, List.nil_append, List.length_append, List.length_singleton, ← List.append_cons] at hsplice
      exact hsplice
    · rfl
  · split at h
    · next hblank =>
      refine ⟨[], _, _, withdraws_single hcut h (.blankAbove hl hblank) ?_ ?_⟩
      · have hsplice := splice_fromAbove hwf List.not_mem_nil 0 0
        rw [List.take_zero, List.append_nil, List.nil_append, List.drop_zero] at hsplice
        rw [List.append_nil, List.take_append_drop]
        exact hsplice
      · rw [List.length_take, Nat.min_eq_left (firstNonBlank_le l)]
        rfl
    · next hblank =>
      refine ⟨[], _, _, withdraws_single hcut h (.join hl hblank) ?_ rfl⟩
      have hsplice := splice_fromAbove hwf (fun hm => hnl (mem_of_mem_trim hm)) (trimEnd above).length l.length
      rw [take_trimEnd, List.drop_length, List.append_nil] at hsplice
      rw [List.append_nil]
      exact hsplice

private theorem backspaceOnLine_act (hwf : WellFormed s.lines) {n column : Int} (hline : HasLine s.lines n)
    (h : backspaceOnLine s ⟨n, column⟩ (lineOf s.lines n) = .act a) :
    ∃ A above l B kept x y, n = (A.length + 1 : Nat) ∧ isBlankText (l.take column.toNat) = true ∧
      Withdraws s a A above l B kept x y := by
  by_cases hpos : 0 < n
  · obtain ⟨A, above, l, B, hcut, rfl⟩ := hline.cut_above hpos
    have hl : lineOf s.lines (A.length + 1 : Nat) = l := by rw [hcut, lineOf_cut_below]
    rw [hl, backspaceOnLine] at h
    split at h
    · next hblank =>
      split at h
      · obtain ⟨kept, x, y, hw⟩ := backspaceBlank_act hwf hcut hblank h
        refine ⟨A, above, l, B, kept, x, y, rfl, ?_, hw⟩
        exact List.all_eq_true.2 fun c hc => List.all_eq_true.1 hblank c (List.mem_of_mem_take hc)
      · cases h
    · next hblank =>
      split at h
      · next hcond =>
        obtain ⟨kept, x, y, hw⟩ := backspaceIndent_act hwf hcut hblank h
        have hzone : column ≤ firstNonBlank l := le_firstNonBlank hcond.1
        exact ⟨A, above, l, B, kept, x, y, rfl, isBlankText_take (by omega), hw⟩
      · cases h
  · -- on the first line the key declines
    rw [backspaceOnLine] at h
    split at h
    · rw [if_neg fun hcond => hpos hcond.2] at h
      cases h
    · rw [if_neg fun hcond => hpos hcond.2.2] at h
      cases h

/-- What Backspace asks for.  It acts only on a single caret, with nothing but blanks in front of it on its line. -/
theorem backspaceKey_act (hwf : WellFormed s.lines) (h : backspaceKey s = .act a) :
    ∃ A above l B kept x y column, s.selections = [.caret ⟨(A.length + 1 : Nat), column⟩] ∧
      isBlankText (l.take column.toNat) = true ∧ Withdraws s a A above l B kept x y := by
  unfold backspaceKey at h
  split at h
  · next sel hsel =>
    split at h
    · next hcond =>
      obtain ⟨A, above, l, B, kept, x, y, hn, hblank, hw⟩ := backspaceOnLine_act hwf hcond.2 h
      refine ⟨A, above, l, B, kept, x, y, sel.active.column, ?_, hblank, hw⟩
      rw [hsel, ← hn]
      exact congrArg (fun sel => [sel]) (Selection.isEmpty_iff.1 hcond.1)
    · cases h
  · cases h

/-- Backspace acts on a blank line below another one. -/
private theorem backspaceKey_of_blankPair {p : Position} (hsel : s.selections = [.caret p])
    (hline : HasLine s.lines p.line) (hpos : 0 < p.line) (hblank : isBlankText (lineOf s.lines p.line) = true)
    (habove : isBlankText (lineOf s.lines (p.line - 1)) = true) (hon : s.settings.backspaceHandlesEmptyLine = true) :
    ∃ a, backspaceKey s = .act a := by
  have hcaret : (Selection.caret p).isEmpty = true ∧ HasLine s.lines (Selection.caret p).active.line :=
    ⟨Selection.isEmpty_caret p, hline⟩
  simp only [backspaceKey, hsel, if_pos hcaret]
  have hactive : (Selection.caret p).active = p := rfl
  rw [hactive, backspaceOnLine, if_pos hblank, if_pos ⟨hon, hpos⟩, backspaceBlank, if_pos habove]
  exact ⟨_, rfl⟩

/-! ### What becomes of the two lines -/

variable {indent x y : Text} {kept : List Text}

/-- Only blanks are withdrawn. -/
private theorem Withdrawal.nonBlanks_eq (hindent : isBlankText indent = true) (h : Withdrawal indent above l kept x y) :
    nonBlanks kept.flatten ++ nonBlanks x = nonBlanks above ∧ nonBlanks y = nonBlanks l := by
  have hfirst := isBlankText_take (Nat.le_refl (firstNonBlank l))
  have hrest := nonBlanks_drop hfirst
  cases h with
  | blankPair hl habove =>
    rw [nonBlanks_of_blank hindent, nonBlanks_of_blank hl, nonBlanks_of_blank habove]
    exact ⟨rfl, rfl⟩
  | blankBelow hl habove =>
    rw [nonBlanks_trimEnd, nonBlanks_of_blank hl]
    exact ⟨rfl, rfl⟩
  | unindent hl hless =>
    rw [nonBlanks_of_blank hindent, List.append_nil, List.flatten_singleton]
    exact ⟨rfl, hrest⟩
  | blankAbove hl habove =>
    rw [nonBlanks_of_blank hfirst, nonBlanks_of_blank habove]
    exact ⟨rfl, hrest⟩
  | join hl habove =>
    rw [nonBlanks_trimEnd, nonBlanks_trim]
    exact ⟨rfl, rfl⟩

private theorem Withdrawal.of_blankPair (h : Withdrawal indent above l kept x y) (hl : isBlankText l = true)
    (habove : isBlankText above = true) : kept = [] ∧ x = indent ∧ y = [] := by
  cases h with
  | blankPair => exact ⟨rfl, rfl, rfl⟩
  | blankBelow _ hnot => exact absurd habove hnot
  | unindent hnot => exact absurd hl hnot
  | blankAbove hnot => exact absurd hl hnot
  | join hnot => exact absurd hl hnot

/-- Either one line is left, or the line above stays and the lower line gets shorter. -/
private theorem Withdrawal.kept_or (h : Withdrawal indent above l kept x y) :
    kept = [] ∨ kept = [above] ∧ (x ++ y).length < l.length := by
  cases h with
  | blankPair => exact Or.inl rfl
  | blankBelow => exact Or.inl rfl
  | unindent hl hless =>
    refine Or.inr ⟨rfl, ?_⟩
    have := firstNonBlank_le l
    rw [List.length_append, List.length_drop]
    omega
  | blankAbove => exact Or.inl rfl
  | join => exact Or.inl rfl

theorem Withdraws.inBounds (h : Withdraws s a A above l B kept x y) :
    InBounds (spliceAll (sortBy Edit.precedes a.edits) s.lines) ⟨(A.length + kept.length : Nat), x.length⟩ := by
  rw [h.lines, ← List.length_append]
  refine inBounds_onLine (hasLine_cut (A ++ kept) B (x ++ y)) ?_
  rw [lineOf_cut, List.length_append]
  exact Nat.le_add_right _ _

private theorem Withdraws.nonBlanks_textUpTo {column : Int} (h : Withdraws s a A above l B kept x y)
    (hblank : isBlankText (l.take column.toNat) = true) :
    nonBlanks (textUpTo (spliceAll (sortBy Edit.precedes a.edits) s.lines) ⟨(A.length + kept.length : Nat), x.length⟩) =
      nonBlanks (textUpTo s.lines ⟨(A.length + 1 : Nat), column⟩) := by
  have hbefore := nonBlanks_textUpTo_cut (A ++ [above]) B l column
  rw [List.length_append, List.length_singleton, ← List.append_cons] at hbefore
  rw [h.lines, h.cut, hbefore, ← List.length_append, nonBlanks_textUpTo_cut, nonBlanks_of_blank hblank,
    Int.toNat_natCast, List.take_left, List.append_nil, List.flatten_append, List.flatten_append, List.flatten_singleton,
    nonBlanks_append, nonBlanks_append, List.append_assoc, (h.how.nonBlanks_eq (isBlankText_indentFor _ _ _)).1]

private theorem Withdraws.nonBlanks_textFrom {column : Int} (h : Withdraws s a A above l B kept x y)
    (hblank : isBlankText (l.take column.toNat) = true) :
    nonBlanks (textFrom (spliceAll (sortBy Edit.precedes a.edits) s.lines) ⟨(A.length + kept.length : Nat), x.length⟩) =
      nonBlanks (textFrom s.lines ⟨(A.length + 1 : Nat), column⟩) := by
  have hbefore := nonBlanks_textFrom_cut (A ++ [above]) B l column
  rw [List.length_append, List.length_singleton, ← List.append_cons, nonBlanks_drop hblank] at hbefore
  rw [h.lines, h.cut, hbefore, ← List.length_append, nonBlanks_textFrom_cut, Int.toNat_natCast, List.drop_left,
    (h.how.nonBlanks_eq (isBlankText_indentFor _ _ _)).2]

theorem Withdraws.lines_or (h : Withdraws s a A above l B kept x y) :
    spliceAll (sortBy Edit.precedes a.edits) s.lines = A ++ (x ++ y) :: B ∨
      spliceAll (sortBy Edit.precedes a.edits) s.lines = A ++ above :: (x ++ y) :: B ∧ (x ++ y).length < l.length := by
  rw [h.lines]
  rcases h.how.kept_or with rfl | ⟨rfl, hless⟩
  · exact Or.inl (by rw [List.append_nil])
  · exact Or.inr ⟨by rw [← List.append_cons], hless⟩

/-- The lines are others afterwards: there is one line less, or one of them is shorter. -/
theorem Withdraws.shows (h : Withdraws s a A above l B kept x y) : BatchShows s.lines a.edits := by
  intro hsame
  have hbefore := hsame.trans h.cut
  rcases h.lines_or with hone | ⟨htwo, hless⟩
  · have hlen := congrArg List.length (hone.symm.trans hbefore)
    simp only [List.length_append, List.length_cons] at hlen
    omega
  · have hrest := List.append_cancel_left (htwo.symm.trans hbefore)
    rw [(List.cons.inj (List.cons.inj hrest).2).1] at hless
    exact Nat.lt_irrefl _ hless

end SmartKey

namespace Recorder

variable {r : Recorder} {p : Position}

/-- Backspace never fails.  If it acts, the characters in front of the caret and those behind it are the same as before,
blanks apart, a caret behind the end of its line counting as at the end.  One line less is left or as many as before,
and all lines but that of the caret and the one above are as they were. -/
theorem press_backspace_nonBlanks (hwf : WellFormed r.document.lines) (hsel : r.selections = [.caret p]) :
    ∃ r' handled, r.press .backspace = .ok (r', handled) ∧ (handled = true →
      ∃ q, r'.selections = [.caret q] ∧ InBounds r'.document.lines q ∧
        nonBlanks (textUpTo r'.document.lines q) = nonBlanks (textUpTo r.document.lines p) ∧
        nonBlanks (textFrom r'.document.lines q) = nonBlanks (textFrom r.document.lines p) ∧
        ∃ A above l B m, r.document.lines = A ++ above :: l :: B ∧ p.line = A.length + 1 ∧
          (r'.document.lines = A ++ m :: B ∧ r'.document.lines.length + 1 = r.document.lines.length ∨
            r'.document.lines = A ++ above :: m :: B ∧ r'.document.lines.length = r.document.lines.length)) := by
  cases hreact : SmartKeyName.backspace.react r.scene with
  | decline key forgets =>
    obtain ⟨r', hpress, -⟩ := press_of_decline hreact
    exact ⟨r', false, hpress, fun h => by cases h⟩
  | act a =>
    obtain ⟨r', hpress, hlines, hsel', -⟩ := press_of_act (by decide) hreact
    obtain ⟨A, above, l, B, kept, x, y, column, hcaret, hblank, hw⟩ := SmartKey.backspaceKey_act hwf hreact
    have hcut : r.document.lines = A ++ above :: l :: B := hw.cut
    have hp : p = ⟨(A.length + 1 : Nat), column⟩ := Selection.singleton_caret_inj (hsel.symm.trans hcaret)
    refine ⟨r', true, hpress, fun _ => ⟨_, hsel'.trans hw.selections, ?_, ?_, ?_, A, above, l, B, x ++ y, hcut, ?_, ?_⟩⟩
    · rw [hlines]
      exact hw.inBounds
    · rw [hlines, hp]
      exact hw.nonBlanks_textUpTo hblank
    · rw [hlines, hp]
      exact hw.nonBlanks_textFrom hblank
    · rw [hp]
      rfl
    · rcases hw.lines_or with hone | ⟨htwo, -⟩
      · have hafter := hlines.trans hone
        refine Or.inl ⟨hafter, ?_⟩
        rw [hafter, hcut]
        simp only [List.length_append, List.length_cons]
        omega
      · have hafter := hlines.trans htwo
        refine Or.inr ⟨hafter, ?_⟩
        rw [hafter, hcut]
        simp only [List.length_append, List.length_cons]

/-- The caret stands in the indentation of a line below another one with blanks at its end. -/
def belowTrailingBlanks : Recorder :=
  ofText "a \x7b\n    b \t \n \tc \n\n\x7d".toList "plaintext".toList [.caret ⟨2, 1⟩]

theorem press_backspace_belowTrailingBlanks :
    WellFormed belowTrailingBlanks.document.lines ∧ ∃ r', belowTrailingBlanks.press .backspace = .ok (r', true) ∧
      r'.document.lines = ["a \x7b".toList, "    bc".toList, [], ['\x7d']] ∧ r'.selections = [.caret ⟨1, 5⟩] ∧
      nonBlanks (textUpTo r'.document.lines ⟨1, 5⟩) = ['a', '\x7b', 'b'] ∧
      nonBlanks (textFrom r'.document.lines ⟨1, 5⟩) = ['c', '\x7d'] := by
  have hwf : WellFormed belowTrailingBlanks.document.lines := wellFormed_splitLines _
  have hjoined : belowTrailingBlanks.press .backspace = .ok ({ belowTrailingBlanks with
      document := ⟨["a \x7b".toList, "    bc".toList, [], ['\x7d']], "doc", "plaintext".toList, 1⟩
      selections := [.caret ⟨1, 5⟩]
      revealed := [⟨1, 5⟩] }, true) := by rfl
  have hbefore : nonBlanks (textUpTo belowTrailingBlanks.document.lines ⟨2, 1⟩) = ['a', '\x7b', 'b'] := by decide +kernel
  have hbehind : nonBlanks (textFrom belowTrailingBlanks.document.lines ⟨2, 1⟩) = ['c', '\x7d'] := by decide +kernel
  obtain ⟨r', handled, hpress, hkept⟩ := press_backspace_nonBlanks (r := belowTrailingBlanks) hwf rfl
  obtain ⟨rfl, rfl⟩ := Prod.mk.inj (Except.ok.inj (hjoined.symm.trans hpress))
  obtain ⟨q, hq, -, hupTo, hfrom, -⟩ := hkept rfl
  obtain rfl : (⟨1, 5⟩ : Position) = q := Selection.singleton_caret_inj hq
  exact ⟨hwf, _, hpress, rfl, rfl, hupTo.trans hbefore, hfrom.trans hbehind⟩

/-! ### Two blank lines -/

/-- Of two blank lines one is left.  It has the indentation that it should have where it stands then, and the caret is at
its end. -/
theorem press_backspace_blankPair (hwf : WellFormed r.document.lines) (hsel : r.selections = [.caret p])
    (hline : HasLine r.document.lines p.line) (hpos : 0 < p.line)
    (hblank : isBlankText (lineOf r.document.lines p.line) = true)
    (habove : isBlankText (lineOf r.document.lines (p.line - 1)) = true)
    (hon : r.settings.backspaceHandlesEmptyLine = true) :
    ∃ r' indent, r.press .backspace = .ok (r', true) ∧
      r'.document.lines =
        r.document.lines.take (p.line - 1).toNat ++ indent :: r.document.lines.drop (p.line + 1).toNat ∧
      r'.document.lines.length + 1 = r.document.lines.length ∧
      lineOf r'.document.lines (p.line - 1) = indent ∧
      indent = indentFor r'.document.lines (p.line - 1) r.indent ∧
      r'.selections = [.caret ⟨p.line - 1, indent.length⟩] := by
  obtain ⟨a, hact⟩ := SmartKey.backspaceKey_of_blankPair (s := r.scene) hsel hline hpos hblank habove hon
  have hreact : SmartKeyName.backspace.react r.scene = .act a := hact
  obtain ⟨r', hpress, hlines, hsel', -⟩ := press_of_act (by decide) hreact
  obtain ⟨A, above, l, B, kept, x, y, column, hcaret, -, hw⟩ := SmartKey.backspaceKey_act hwf hact
  have hcut : r.document.lines = A ++ above :: l :: B := hw.cut
  obtain rfl : p = ⟨(A.length + 1 : Nat), column⟩ :=
    Selection.singleton_caret_inj (hsel.symm.trans hcaret)
  have hn : ((A.length + 1 : Nat) : Int) - 1 = A.length := by omega
  rw [hcut, lineOf_cut_below] at hblank
  rw [hcut, hn, lineOf_cut] at habove
  obtain ⟨rfl, hx, rfl⟩ := hw.how.of_blankPair hblank habove
  have hafter : r'.document.lines = A ++ [] ++ (x ++ []) :: B := hlines.trans hw.lines
  rw [List.append_nil, List.append_nil] at hafter
  -- the search for the line that sets the indentation passes over the blank line above
  have hindent : x = indentFor r'.document.lines A.length r.indent := by
    rw [hx]
    refine indentFor_congr ?_ r.indent
    rw [hw.cut, hafter, Int.toNat_natCast, Int.toNat_natCast, take_cut, List.take_left, lastNonBlank_concat_blank A habove]
  refine ⟨r', x, hpress, ?_, ?_, ?_, ?_, ?_⟩
  · rw [hcut, hn, Int.toNat_natCast, List.take_left, hafter]
    exact congrArg (fun rest => A ++ x :: rest) (drop_cut_below A B above l).symm
  · rw [hcut, hafter]
    simp only [List.length_append, List.length_cons]
    omega
  · rw [hn, hafter, lineOf_cut]
  · rw [hn]
    exact hindent
  · rw [hsel', hw.selections, hn]
    rfl

/-- Four blank lines below an opening brace, with the caret on the third one, behind its end. -/
def blankRun : Recorder :=
  ofText "if \x7b\n\n\t\n \n  \nx".toList "plaintext".toList [.caret ⟨3, 7⟩]

theorem press_backspace_blankRun :
    WellFormed blankRun.document.lines ∧ HasLine blankRun.document.lines 3 ∧
      isBlankText (lineOf blankRun.document.lines 3) = true ∧
      isBlankText (lineOf blankRun.document.lines (3 - 1)) = true ∧
      blankRun.settings.backspaceHandlesEmptyLine = true ∧
      ∃ r', blankRun.press .backspace = .ok (r', true) ∧
        r'.document.lines = ["if \x7b".toList, [], "    ".toList, "  ".toList, ['x']] ∧
        indentFor r'.document.lines 2 blankRun.indent = "    ".toList ∧ r'.selections = [.caret ⟨2, 4⟩] := by
  have hwf : WellFormed blankRun.document.lines := wellFormed_splitLines _
  have hline : HasLine blankRun.document.lines 3 := by decide
  have hblank : isBlankText (lineOf blankRun.document.lines 3) = true := by decide +kernel
  have habove : isBlankText (lineOf blankRun.document.lines (3 - 1)) = true := by decide +kernel
  have hmerged : blankRun.press .backspace = .ok ({ blankRun with
      document := ⟨["if \x7b".toList, [], "    ".toList, "  ".toList, ['x']], "doc", "plaintext".toList, 1⟩
      selections := [.caret ⟨2, 4⟩]
      revealed := [⟨2, 4⟩] }, true) := by rfl
  obtain ⟨r', indent, hpress, -, -, hleft, hindent, hsel⟩ :=
    press_backspace_blankPair (r := blankRun) hwf rfl hline (by decide) hblank habove rfl
  obtain ⟨rfl, -⟩ := Prod.mk.inj (Except.ok.inj (hmerged.symm.trans hpress))
  obtain rfl : "    ".toList = indent := hleft
  exact ⟨hwf, hline, hblank, habove, rfl, _, hpress, rfl, hindent.symm, hsel⟩

end Recorder

end MultiCaret
