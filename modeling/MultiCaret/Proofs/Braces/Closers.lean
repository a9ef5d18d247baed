import MultiCaret.Proofs.SmartKey.Blocks

/-!
# Closing braces for several cursors

Each of several cursors asks by itself, on the unchanged lines, whether its brace needs a closer.  Two of them may ask
for the sake of the same open brace, and then one of the closing braces that are put in finds nothing open.  So the
number of open braces falls by one at least (`ClosesMarked.depthAfter_lt`) and by the number of the cursors at most
(`ClosesMarked.le_depthAfter`).  It falls by the number of the cursors if and only if there are up to the line of every
cursor as many braces that stay open as there are cursors (`Recorder.press_enter_closers`): a closing brace takes an
open one above it, so the cursors above a line have to make do with the braces above it (`ClosesMarked.depthAfter_eq_iff`).
-/

namespace MultiCaret

/-- Among the lines that each line becomes there are the braces of this line and no others, but for one closing brace more
behind them if the line is marked.  The first line has the number `n`. -/
def ClosesMarked (p : Nat → Bool) (f : Nat → Text → List Text) (n : Nat) (ls : List Text) : Prop :=
  ∀ i l, ls[i]? = some l → braces (f (n + i) l).flatten = braces l ++ if p (n + i) then ['\x7d'] else []

variable {p : Nat → Bool} {f : Nat → Text → List Text} {n : Nat} {l : Text} {ls : List Text}

/-! ### Line by line -/

private theorem ClosesMarked.tail (h : ClosesMarked p f n (l :: ls)) : ClosesMarked p f (n + 1) ls := by
  intro i m hm
  have := h (i + 1) m (by rw [List.getElem?_cons_succ, hm])
  rwa [show n + (i + 1) = n + 1 + i by omega] at this

/-- A marked line closes one brace more. -/
private theorem ClosesMarked.depthAfter_cons (h : ClosesMarked p f n (l :: ls)) (d : Nat) :
    depthAfter d (expandFrom f n (l :: ls)).flatten =
      depthAfter (depthAfter d l - if p n then 1 else 0) (expandFrom f (n + 1) ls).flatten := by
  have hbraces : braces (f n l).flatten = braces (l ++ if p n then ['\x7d'] else []) := by
    rw [braces_append]
    refine (h 0 l rfl).trans ?_
    rw [Nat.add_zero]
    split <;> rfl
  rw [expandFrom_cons, List.flatten_append, depthAfter_append, depthAfter_congr hbraces, depthAfter_append]
  split <;> rfl

/-- The marks only close braces. -/
private theorem ClosesMarked.depthAfter_le (h : ClosesMarked p f n ls) {d d' : Nat} (hd : d ≤ d') :
    depthAfter d (expandFrom f n ls).flatten ≤ depthAfter d' ls.flatten := by
  induction ls generalizing n d d' with
  | nil => exact hd
  | cons l ls ih =>
    rw [h.depthAfter_cons, List.flatten_cons, depthAfter_append]
    have := depthAfter_mono hd l
    exact ih h.tail (by omega)

/-- A marked line makes a difference if what is open behind it is not used up by the strays below. -/
theorem ClosesMarked.depthAfter_lt {A B : List Text} (h : ClosesMarked p f n (A ++ l :: B)) (hp : p (n + A.length) = true)
    {d d' : Nat} (hd : d ≤ d') (hstrays : strays B.flatten < depthAfter d' (A.flatten ++ l)) :
    depthAfter d (expandFrom f n (A ++ l :: B)).flatten < depthAfter d' (A ++ l :: B).flatten := by
  induction A generalizing n d d' with
  | nil =>
    rw [List.nil_append] at h
    rw [List.flatten_nil, List.nil_append] at hstrays
    rw [List.nil_append, h.depthAfter_cons, List.flatten_cons, depthAfter_append, if_pos (by simpa using hp)]
    have hle := h.tail.depthAfter_le (Nat.sub_le_sub_right (depthAfter_mono hd l) 1)
    have hone := depthAfter_eq (depthAfter d' l - 1) B.flatten
    have hall := depthAfter_eq (depthAfter d' l) B.flatten
    omega
  | cons m A ih =>
    rw [List.cons_append] at h
    rw [List.flatten_cons, List.append_assoc, depthAfter_append] at hstrays
    rw [List.cons_append, h.depthAfter_cons, List.flatten_cons, depthAfter_append]
    have := depthAfter_mono hd m
    exact ih h.tail (by rw [← hp, List.length_cons]; congr 1; omega) (by omega) hstrays

/-- Every mark closes one brace at most, besides those that are fewer open in front of the lines. -/
theorem ClosesMarked.le_depthAfter (h : ClosesMarked p f n ls) {d d' : Nat} (hd : d' ≤ d) :
    depthAfter d ls.flatten ≤ depthAfter d' (expandFrom f n ls).flatten + (d - d') + markedFrom p n ls := by
  induction ls generalizing n d d' with
  | nil =>
    show d ≤ d' + (d - d') + 0
    omega
  | cons l ls ih =>
    have hall := depthAfter_eq d l
    have hfewer := depthAfter_eq d' l
    have hless : depthAfter d' l - (if p n then 1 else 0) ≤ depthAfter d l := by omega
    have hrest := ih h.tail hless
    rw [h.depthAfter_cons, List.flatten_cons, depthAfter_append, markedFrom_cons]
    omega

/-- Every mark down to any marked line has an open brace of its own that the strays below do not reach, when `k` of the
braces that are open in front of the lines are taken already. -/
def EachTakesOne (p : Nat → Bool) (d k n : Nat) (ls : List Text) : Prop :=
  ∀ A l B, ls = A ++ l :: B → p (n + A.length) = true →
    k + markedFrom p n (A ++ [l]) + strays B.flatten ≤ depthAfter d (A.flatten ++ l)

private theorem eachTakesOne_cons {d k : Nat} : EachTakesOne p d k n (l :: ls) ↔
    (p n = true → k + 1 + strays ls.flatten ≤ depthAfter d l) ∧
      EachTakesOne p (depthAfter d l) (k + if p n then 1 else 0) (n + 1) ls := by
  have hstep : ∀ A m, k + markedFrom p n (l :: A ++ [m]) = k + (if p n then 1 else 0) + markedFrom p (n + 1) (A ++ [m]) := by
    intro A m
    rw [List.cons_append, markedFrom_cons, Nat.add_assoc]
  have hdepth : ∀ (A : List Text) (m : Text), depthAfter d ((l :: A).flatten ++ m) =
      depthAfter (depthAfter d l) (A.flatten ++ m) := by
    intro A m
    rw [List.flatten_cons, List.append_assoc, depthAfter_append]
  constructor
  · intro h
    refine ⟨fun hp => ?_, fun A m B hls hp => ?_⟩
    · have := h [] l ls rfl hp
      simpa [markedFrom, hp] using this
    · have := h (l :: A) m B (by rw [hls]; rfl) (by rw [← hp, List.length_cons]; congr 1; omega)
      rwa [hstep, hdepth] at this
  · rintro ⟨hhead, htail⟩ A m B hls hp
    rcases List.cons_eq_append_iff.1 hls with ⟨rfl, hcons⟩ | ⟨A, rfl, rfl⟩
    · obtain ⟨rfl, rfl⟩ := List.cons.inj hcons
      have := hhead hp
      simpa [markedFrom, show p n = true from hp] using this
    · rw [hstep, hdepth]
      exact htail A m B rfl (by rw [← hp, List.length_cons]; congr 1; omega)

/-- Every mark closes one brace if and only if each has one of its own, and the `k` that are taken in front of the lines
are not taken in them. -/
theorem ClosesMarked.depthAfter_eq_iff (h : ClosesMarked p f n ls) (d k : Nat) :
    depthAfter (d - k) (expandFrom f n ls).flatten + k + markedFrom p n ls = depthAfter d ls.flatten ↔
      (k = 0 ∨ k + strays ls.flatten ≤ d) ∧ EachTakesOne p d k n ls := by
  induction ls generalizing n d k with
  | nil =>
    have heach : EachTakesOne p d k n [] := fun A l B hls => absurd hls (by simp)
    simp only [heach, and_true, expandFrom, List.zipIdx_nil, List.flatMap_nil, List.flatten_nil, depthAfter, strays,
      markedFrom, List.length_nil, List.range'_zero, List.countP_nil]
    omega
  | cons l ls ih =>
    have hall := depthAfter_eq d l
    have hfewer := depthAfter_eq (d - k) l
    have hstrays := strays_append l ls.flatten
    rw [eachTakesOne_cons, h.depthAfter_cons, markedFrom_cons, List.flatten_cons, depthAfter_append]
    by_cases hkept : k = 0 ∨ k + strays l ≤ d
    · -- the line takes none of the `k`
      have hsub : depthAfter (d - k) l - (if p n then 1 else 0) = depthAfter d l - (k + if p n then 1 else 0) := by omega
      have hfront : (k = 0 ∨ k + strays (l ++ ls.flatten) ≤ d) ↔ k = 0 ∨ k + strays ls.flatten ≤ depthAfter d l := by
        omega
      have hrest := ih h.tail (depthAfter d l) (k + if p n then 1 else 0)
      rw [hsub, ← Nat.add_assoc, Nat.add_assoc _ k, hrest, hfront, ← and_assoc]
      refine and_congr_left fun _ => ?_
      by_cases hp : p n = true
      · simp only [hp, if_true, forall_const]
        omega
      · simp only [hp, Bool.false_eq_true, if_false, Nat.add_zero, false_implies, and_true]
    · -- the line takes some of them, for which no mark can make up
      have hless : depthAfter (d - k) l - (if p n then 1 else 0) ≤ depthAfter d l := by omega
      have hle := h.tail.le_depthAfter hless
      constructor
      · intro heq
        omega
      · rintro ⟨hfront, -⟩
        omega

/-! ### Blocks that put in a closing brace -/

namespace SmartKey

variable {s : Scene} {o : Position} {plan : PlannedEdit} {x rest : Text}

/-- With no closing brace behind the opening one, the block has the braces of its line and a closing one more. -/
private theorem BlockAt.braces_blockLines (h : BlockAt s o plan x rest) (hrest : '\x7d' ∉ rest) :
    braces (blockLines (lineOf s.lines o.line) o.column s.indent.unit).flatten =
      braces (lineOf s.lines o.line) ++ ['\x7d'] := by
  have hcontains : ¬ rest.contains '\x7d' = true := by rwa [List.contains_iff_mem]
  have hcarried : carriedText rest = trim rest := by rw [carriedText, if_neg hcontains]
  have hkept : keptText rest = [] := by rw [keptText, afterCloser?, if_neg hcontains]; rfl
  have hline : braces (lineOf s.lines o.line) = braces (x ++ ['\x7b']) ++ braces rest := by
    rw [h.line, ← braces_append, List.append_assoc]
    rfl
  rw [h.blockLines_eq, hcarried, hkept, hline]
  simp only [List.flatten_cons, List.flatten_nil, List.append_nil, braces_append, braces_trim,
    braces_of_blank (isBlankText_leadingBlanks _), braces_of_blank (isBlankText_unit _), List.nil_append,
    List.append_assoc]
  rfl

/-- With no closing brace behind the opening one, what is open behind its line is not used up by the strays below. -/
private theorem BlockAt.strays_lt {A B : List Text} {l : Text} (h : BlockAt s o plan x rest) (hrest : '\x7d' ∉ rest)
    (hlines : s.lines = A ++ l :: B) (ho : o.line = A.length) :
    strays B.flatten < depthAfter 0 (A.flatten ++ l) := by
  have hl : l = x ++ '\x7b' :: rest := by rw [← h.line, hlines, ho, lineOf_cut]
  have hcloser := h.closer
  rw [hlines, ho, Int.toNat_natCast, set_cut, needsCloser_cut_iff, List.nil_append] at hcloser
  rw [hl, ← List.append_assoc, depthAfter_append, depthAfter, if_pos rfl, depthAfter_of_no_closer hrest]
  omega

end SmartKey

namespace Recorder

variable {r r' : Recorder}

private theorem OpensMany.markedFrom_eq {cursors : List (Position × PlannedEdit)} (h : OpensMany r r' cursors)
    (ls : List Text) : markedFrom (hasCursor r.selections) 0 ls =
      r.selections.countP fun sel => decide (sel.active.line < (ls.length : Int)) :=
  markedFrom_hasCursor h.distinct (fun _ hsel => (h.hasLine hsel).1) ls

/-- With no closing braces behind the opening ones, every line with a cursor gets a closing brace more. -/
private theorem OpensMany.closesMarked {cursors : List (Position × PlannedEdit)} (h : OpensMany r r' cursors)
    (hrest : ∀ sel ∈ r.selections,
      '\x7d' ∉ textBehind (lineOf r.document.lines sel.active.line) sel.active.column) :
    ClosesMarked (hasCursor r.selections) (openedLines r.selections r.indent.unit) 0 r.document.lines := by
  intro i l hl
  have hi : lineOf r.document.lines i = l := by
    rw [lineOf, if_neg (by omega), Int.toNat_natCast, hl, Option.getD_some]
  rw [Nat.zero_add]
  by_cases hcursor : hasCursor r.selections i = true
  · obtain ⟨sel, hsel, hline⟩ := hasCursor_iff.1 hcursor
    obtain ⟨plan, x, rest, hblock⟩ := h.blockAt hsel
    have hcloser : '\x7d' ∉ rest := by
      rw [← hblock.textBehind_eq]
      exact hrest sel hsel
    rw [if_pos hcursor, openedLines_of_mem h.distinct hsel hline, ← hi, ← hline]
    exact hblock.braces_blockLines hcloser
  · rw [if_neg hcursor, openedLines_of_not hcursor, List.append_nil]
    exact congrArg braces (List.append_nil l)

/-- Every cursor has an open brace of its own if and only if up to the line of every cursor there are as many braces that
stay open as there are cursors. -/
private theorem OpensMany.eachTakesOne_iff {cursors : List (Position × PlannedEdit)} (h : OpensMany r r' cursors) :
    EachTakesOne (hasCursor r.selections) 0 0 0 r.document.lines ↔ ∀ sel ∈ r.selections,
      (r.selections.countP fun t => decide (t.active.line ≤ sel.active.line)) ≤
        (unmatchedBraces r.document.lines).countP fun q => decide (q.line ≤ sel.active.line) := by
  have hup : ∀ (A B : List Text) (l : Text), r.document.lines = A ++ l :: B → ∀ sel ∈ r.selections,
      sel.active.line = A.length →
      (markedFrom (hasCursor r.selections) 0 (A ++ [l]) + strays B.flatten ≤ depthAfter 0 (A.flatten ++ l) ↔
        (r.selections.countP fun t => decide (t.active.line ≤ sel.active.line)) ≤
          (unmatchedBraces r.document.lines).countP fun q => decide (q.line ≤ sel.active.line)) := by
    intro A B l hlines sel hsel hline
    -- the marks and the cursors are counted up to the same line, and no cursor shares one with another
    have hnext : ∀ n : Int, n ≤ sel.active.line ↔ n < ((A ++ [l]).length : Int) := by
      intro n
      rw [hline, List.length_append, List.length_singleton]
      omega
    have hopen := countP_unmatchedBraces_append (A ++ [l]) B
    rw [List.append_assoc, List.singleton_append, ← hlines, List.flatten_append, List.flatten_singleton] at hopen
    have hpos : 0 < r.selections.countP fun t => decide (t.active.line < ((A ++ [l]).length : Int)) :=
      List.countP_pos_iff.2 ⟨sel, hsel, decide_eq_true ((hnext _).1 (Int.le_refl _))⟩
    simp only [hnext, hopen, h.markedFrom_eq]
    omega
  constructor
  · intro heach sel hsel
    obtain ⟨A, l, B, hlines, hline, -⟩ := (h.hasLine hsel).cut
    have hmarked : hasCursor r.selections (0 + A.length) = true := by
      rw [Nat.zero_add]
      exact hasCursor_iff.2 ⟨sel, hsel, hline⟩
    have := heach A l B hlines hmarked
    rw [Nat.zero_add] at this
    exact (hup A B l hlines sel hsel hline).1 this
  · intro hcounts A l B hlines hmarked
    rw [Nat.zero_add] at hmarked ⊢
    obtain ⟨sel, hsel, hline⟩ := hasCursor_iff.1 hmarked
    exact (hup A B l hlines sel hsel hline).2 (hcounts sel hsel)

/-- When several cursors open their blocks, with no closing braces behind the opening ones on their lines, the number of
braces that stay open falls by one at least, and by the number of the cursors at most.  It falls by the number of the
cursors if and only if, up to the line of every cursor, as many braces stayed open as there are cursors. -/
theorem press_enter_closers (hwf : WellFormed r.document.lines) (hmany : 2 ≤ r.selections.length)
    (h : (SmartKeyName.enter.react r.scene).handled = true)
    (hrest : ∀ sel ∈ r.selections,
      '\x7d' ∉ textBehind (lineOf r.document.lines sel.active.line) sel.active.column) :
    ∃ r', r.press .enter = .ok (r', true) ∧
      countUnmatched r'.document.lines < countUnmatched r.document.lines ∧
      countUnmatched r.document.lines ≤ countUnmatched r'.document.lines + r.selections.length ∧
      (countUnmatched r'.document.lines + r.selections.length = countUnmatched r.document.lines ↔
        ∀ sel ∈ r.selections, (r.selections.countP fun t => decide (t.active.line ≤ sel.active.line)) ≤
          (unmatchedBraces r.document.lines).countP fun q => decide (q.line ≤ sel.active.line)) := by
  obtain ⟨r', cursors, hpress, hopens⟩ := exists_opensMany hwf hmany h
  refine ⟨r', hpress, ?_⟩
  have hcloses := hopens.closesMarked hrest
  have hmarked : markedFrom (hasCursor r.selections) 0 r.document.lines = r.selections.length := by
    rw [hopens.markedFrom_eq, List.countP_eq_length]
    exact fun sel hsel => decide_eq_true (hopens.hasLine hsel).2
  rw [countUnmatched_eq, countUnmatched_eq, hopens.lines, ← hopens.eachTakesOne_iff]
  refine ⟨?_, ?_, ?_⟩
  · obtain ⟨sel, hsel⟩ := List.exists_mem_of_length_pos (by omega : 0 < r.selections.length)
    obtain ⟨plan, x, rest, hblock⟩ := hopens.blockAt hsel
    obtain ⟨A, l, B, hlines, hline, -⟩ := (hopens.hasLine hsel).cut
    have hcloser : '\x7d' ∉ rest := by
      rw [← hblock.textBehind_eq]
      exact hrest sel hsel
    rw [hlines] at hcloses ⊢
    have hcursor : hasCursor r.selections (0 + A.length) = true := by
      rw [Nat.zero_add]
      exact hasCursor_iff.2 ⟨sel, hsel, hline⟩
    exact hcloses.depthAfter_lt hcursor (Nat.le_refl 0) (hblock.strays_lt hcloser hlines hline)
  · have hle := hcloses.le_depthAfter (Nat.le_refl 0)
    rw [hmarked] at hle
    exact hle
  · have hiff := hcloses.depthAfter_eq_iff 0 0
    rw [hmarked] at hiff
    simpa using hiff

/-- Two braces with a cursor below an open one; the lower of them takes the only closing brace. -/
def twoToClose : Recorder :=
  ofText "\x7b\na \x7b\nb \x7b\n\x7d".toList "plaintext".toList [.caret ⟨2, 3⟩, .caret ⟨1, 3⟩]

theorem press_enter_closers_twoToClose :
    WellFormed twoToClose.document.lines ∧ 2 ≤ twoToClose.selections.length ∧
      (SmartKeyName.enter.react twoToClose.scene).handled = true ∧
      (∀ sel ∈ twoToClose.selections,
        '\x7d' ∉ textBehind (lineOf twoToClose.document.lines sel.active.line) sel.active.column) ∧
      ∃ r', twoToClose.press .enter = .ok (r', true) ∧
        countUnmatched r'.document.lines + 2 = countUnmatched twoToClose.document.lines := by
  have hwf : WellFormed twoToClose.document.lines := wellFormed_splitLines _
  have hmany : 2 ≤ twoToClose.selections.length := by decide
  have hacts : (SmartKeyName.enter.react twoToClose.scene).handled = true := by rfl
  have hrest : ∀ sel ∈ twoToClose.selections,
      '\x7d' ∉ textBehind (lineOf twoToClose.document.lines sel.active.line) sel.active.column := by decide +kernel
  obtain ⟨r', hpress, -, -, hiff⟩ := press_enter_closers hwf hmany hacts hrest
  exact ⟨hwf, hmany, hacts, hrest, r', hpress, hiff.2 (by decide +kernel)⟩

/-- Of the two braces with a cursor only the first one stays open, for the sake of which both cursors ask. -/
def sharedCloser : Recorder :=
  ofText "a \x7b\nb \x7b\n\x7d\nx \x7b\ny \x7b".toList "plaintext".toList [.caret ⟨0, 3⟩, .caret ⟨1, 3⟩]

/-- Not each of several cursors takes a brace: of three open braces two are left when two cursors have opened their
blocks. -/
theorem press_enter_closers_sharedCloser :
    ¬ ∀ r : Recorder, WellFormed r.document.lines → 2 ≤ r.selections.length →
      (SmartKeyName.enter.react r.scene).handled = true →
      (∀ sel ∈ r.selections,
        '\x7d' ∉ textBehind (lineOf r.document.lines sel.active.line) sel.active.column) →
      ∃ r', r.press .enter = .ok (r', true) ∧
        countUnmatched r'.document.lines + r.selections.length = countUnmatched r.document.lines := by
  intro hall
  have hwf : WellFormed sharedCloser.document.lines := wellFormed_splitLines _
  have hrest : ∀ sel ∈ sharedCloser.selections,
      '\x7d' ∉ textBehind (lineOf sharedCloser.document.lines sel.active.line) sel.active.column := by decide +kernel
  obtain ⟨r', hpress, hcount⟩ := hall sharedCloser hwf (by decide) rfl hrest
  have hlines : (sharedCloser.press .enter).map (fun r => r.1.document.lines) =
      .ok ["a \x7b".toList, "    ".toList, ['\x7d'], "b \x7b".toList, "    ".toList, ['\x7d'], ['\x7d'],
        "x \x7b".toList, "y \x7b".toList] := by rfl
  rw [hpress] at hlines
  rw [show r'.document.lines = _ from Except.ok.inj hlines] at hcount
  revert hcount
  decide +kernel

end Recorder

end MultiCaret
