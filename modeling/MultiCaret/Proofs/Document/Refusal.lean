import MultiCaret.Document.InPlace
import MultiCaret.Proofs.Document.Batch

/-!
# Refused batches

A batch is refused exactly if one of its ranges is inverted, if an end of one of them is no place in the lines, or if two
of its edits overlap (`not_batchFits_iff`).  A refused batch leaves everything as it is: worked off step by step in
place, it is refused while its ranges are being checked, and checking changes nothing (`run_checkAllInPlace`); when all
ranges have passed, no later step can fail, and the steps lead to the document after the batch (`workOff_eq`).
-/

namespace MultiCaret

/-- Each of the two edits begins before the other one ends. -/
def Edit.Overlaps (a b : Edit) : Prop :=
  a.start < b.stop ∧ b.start < a.stop

private theorem Edit.apart_iff {a b : Edit} : a.Apart b ↔ ¬ a.Overlaps b := by
  rw [Edit.Apart, Edit.Overlaps, ← Position.not_lt, ← Position.not_lt, ← Decidable.not_and_iff_not_or_not, and_comm]

theorem Edit.Overlaps.symm {a b : Edit} (h : a.Overlaps b) : b.Overlaps a :=
  And.symm h

/-- No two entries of the list overlap. -/
private theorem pairwise_apart_iff {es : List Edit} :
    es.Pairwise Edit.Apart ↔ ∀ (i j : Nat) (a b : Edit), i ≠ j → es[i]? = some a → es[j]? = some b → ¬ a.Overlaps b := by
  rw [List.pairwise_iff_getElem]
  constructor
  · intro h i j a b hij ha hb hover
    obtain ⟨hi, rfl⟩ := List.getElem?_eq_some_iff.1 ha
    obtain ⟨hj, rfl⟩ := List.getElem?_eq_some_iff.1 hb
    rcases Nat.lt_or_gt_of_ne hij with hlt | hgt
    · exact Edit.apart_iff.1 (h i j hi hj hlt) hover
    · exact Edit.apart_iff.1 (h j i hj hi hgt) hover.symm
  · intro h i j hi hj hlt
    exact Edit.apart_iff.2
      (h i j _ _ (Nat.ne_of_lt hlt) (List.getElem?_eq_getElem hi) (List.getElem?_eq_getElem hj))

/-- What is wrong with a batch that does not fit. -/
theorem not_batchFits_iff {lines : List Text} {es : List Edit} :
    ¬ BatchFits lines es ↔
      (∃ e ∈ es, e.stop < e.start) ∨ (∃ e ∈ es, ¬ InBounds lines e.start ∨ ¬ InBounds lines e.stop) ∨
        ∃ (i j : Nat) (a b : Edit), i ≠ j ∧ es[i]? = some a ∧ es[j]? = some b ∧ a.Overlaps b := by
  constructor
  · intro hnot
    by_cases hinv : ∃ e ∈ es, e.stop < e.start
    · exact Or.inl hinv
    by_cases hout : ∃ e ∈ es, ¬ InBounds lines e.start ∨ ¬ InBounds lines e.stop
    · exact Or.inr (Or.inl hout)
    by_cases hover : ∃ (i j : Nat) (a b : Edit), i ≠ j ∧ es[i]? = some a ∧ es[j]? = some b ∧ a.Overlaps b
    · exact Or.inr (Or.inr hover)
    · refine absurd ⟨?_, ?_⟩ hnot
      · intro e he
        have hin := not_or.1 fun h => hout ⟨e, he, h⟩
        exact ⟨Position.not_lt.1 fun h => hinv ⟨e, he, h⟩, Decidable.not_not.1 hin.1, Decidable.not_not.1 hin.2⟩
      · exact pairwise_apart_iff.2 fun i j a b hij ha hb h => hover ⟨i, j, a, b, hij, ha, hb, h⟩
  · rintro (⟨e, he, hinv⟩ | ⟨e, he, hout⟩ | ⟨i, j, a, b, hij, ha, hb, hover⟩) hfit
    · exact Position.not_le.2 hinv (hfit.inRange e he).ordered
    · rcases hout with hout | hout
      · exact hout (hfit.inRange e he).start
      · exact hout (hfit.inRange e he).stop
    · exact pairwise_apart_iff.1 hfit.apart i j a b hij ha hb hover

/-- The first edit of ranges in the lines that begins before what is in front of it ends. -/
private theorem checkRanges_eq_error {lines : List Text} {reached : Option Position} {laid : List Edit} {f : EditError}
    (hr : ∀ e ∈ laid, e.InRange lines) (h : checkRanges lines reached laid = .error f) :
    ∃ A b B, laid = A ++ b :: B ∧ A.Pairwise (fun a a' => a.stop ≤ a'.start) ∧
      (∀ r ∈ reached, ∀ a ∈ A, r ≤ a.start) ∧ f = .overlapping b.start ∧
      ((∃ r ∈ reached, b.start < r) ∨ ∃ a ∈ A, b.start < a.stop) := by
  induction laid generalizing reached with
  | nil => cases h
  | cons e es ih =>
    have he := hr e List.mem_cons_self
    rw [checkRanges, if_neg (Position.not_lt.2 he.ordered), if_neg (fun hout => hout ⟨he.start, he.stop⟩)] at h
    split at h
    · next hover =>
      have hbefore : ∃ r ∈ reached, e.start < r := by
        cases reached with
        | none => cases hover
        | some r => exact ⟨r, rfl, of_decide_eq_true hover⟩
      exact ⟨[], e, es, rfl, List.Pairwise.nil, by simp, (Except.error.inj h).symm, Or.inl hbefore⟩
    · next hpass =>
      have hle : ∀ r ∈ reached, r ≤ e.start := by
        rintro r rfl
        exact Position.not_lt.1 fun hlt => hpass (decide_eq_true hlt)
      obtain ⟨A, b, B, rfl, hA, hfront, hf, hover⟩ := ih (fun x hx => hr x (List.mem_cons_of_mem e hx)) h
      have hnext := hfront e.stop rfl
      refine ⟨e :: A, b, B, rfl, List.pairwise_cons.2 ⟨hnext, hA⟩, ?_, hf, Or.inr ?_⟩
      · intro r hmem a ha
        rcases List.mem_cons.1 ha with rfl | ha
        · exact hle r hmem
        · exact Position.le_trans (hle r hmem) (Position.le_trans he.ordered (hnext a ha))
      · rcases hover with ⟨r, hmem, hlt⟩ | ⟨a, ha, hlt⟩
        · obtain rfl := Option.some.inj hmem
          exact ⟨e, List.mem_cons_self, hlt⟩
        · exact ⟨a, List.mem_cons_of_mem e ha, hlt⟩

/-- A batch of ranges in the lines is refused for the first edit along the text that begins before one in front of it
ends. -/
theorem applyEdits_eq_error {d : Document} {es : List Edit} {f : EditError} (hr : ∀ e ∈ es, e.InRange d.lines)
    (h : d.applyEdits es = .error f) :
    ∃ A b B, (A ++ b :: B).Perm es ∧ (A ++ b :: B).Pairwise (fun x y => x.precedes y) ∧
      A.Pairwise (fun a a' => a.stop ≤ a'.start) ∧ (∃ a ∈ A, b.start < a.stop) ∧ f = .overlapping b.start := by
  have hcheck : checkRanges d.lines none (sortBy Edit.precedes es) = .error f := by
    cases hc : checkRanges d.lines none (sortBy Edit.precedes es) with
    | ok _ =>
      rw [applyEdits_eq_ok_iff.2 ⟨checkRanges_sortBy.1 hc, rfl⟩] at h
      cases h
    | error g =>
      rw [Document.applyEdits] at h
      split at h
      · cases h
      · rw [hc] at h
        exact congrArg _ (Except.error.inj h)
  obtain ⟨A, b, B, hlaid, hA, -, hf, hover⟩ :=
    checkRanges_eq_error (fun e he => hr e (mem_sortBy.1 he)) hcheck
  refine ⟨A, b, B, hlaid ▸ sortBy_perm _ es, hlaid ▸ pairwise_precedes_sortBy es, hA, ?_, hf⟩
  rcases hover with ⟨r, hmem, -⟩ | hover
  · cases hmem
  · exact hover

namespace WatchedDocument

variable {w w' : WatchedDocument} {es : List Edit}

private theorem applyEdits_refused_iff : (∃ f, w.applyEdits es = .error f) ↔ ¬ BatchFits w.document.lines es := by
  unfold applyEdits
  cases h : w.document.applyEdits es with
  | ok d =>
    have hfit := (applyEdits_eq_ok_iff.1 h).1
    constructor
    · rintro ⟨f, hf⟩
      cases hf
    · exact fun hnot => absurd hfit hnot
  | error f =>
    refine ⟨fun _ hfit => ?_, fun _ => ⟨f, rfl⟩⟩
    rw [applyEdits_eq_ok_iff.2 ⟨hfit, rfl⟩] at h
    cases h

/-! ### Step by step -/

/-- A step that goes through is followed by the next one. -/
private theorem run_bind_ok {α β : Type} {x : InPlace α} {f : α → InPlace β} {a : α}
    (h : x.run.run w = (.ok a, w')) : (x >>= f).run.run w = (f a).run.run w' := by
  simp only [ExceptT.run_bind, StateT.run_bind, h]
  rfl

/-- A step that is refused ends the procedure. -/
private theorem run_bind_error {α β : Type} {x : InPlace α} {f : α → InPlace β} {e : EditError}
    (h : x.run.run w = (.error e, w')) : (x >>= f).run.run w = (.error e, w') := by
  simp only [ExceptT.run_bind, StateT.run_bind, h]
  rfl

private theorem checkRanges_cons (lines : List Text) (reached : Option Position) (e : Edit) (es : List Edit) :
    checkRanges lines reached (e :: es) =
      (checkRanges lines reached [e]).bind fun _ => checkRanges lines (some e.stop) es := by
  simp only [checkRanges]
  split
  · rfl
  · split
    · rfl
    · split <;> rfl

private theorem run_checkInPlace (w : WatchedDocument) (reached : Option Position) (e : Edit) :
    (checkInPlace reached e).run.run w =
      ((checkRanges w.document.lines reached [e]).map fun _ => some e.stop, w) := by
  have hget : (checkInPlace reached e).run.run w =
      (do ofExcept (checkRanges w.document.lines reached [e]); return some e.stop : InPlace _).run.run w := rfl
  rw [hget]
  cases checkRanges w.document.lines reached [e] <;> rfl

/-- Checking the ranges changes nothing, whether they pass or not. -/
theorem run_checkAllInPlace (w : WatchedDocument) (reached : Option Position) (laid : List Edit) :
    (checkAllInPlace reached laid).run.run w = (checkRanges w.document.lines reached laid, w) := by
  induction laid generalizing reached with
  | nil => rfl
  | cons e es ih =>
    have hone := run_checkInPlace w reached e
    rw [checkRanges_cons, checkAllInPlace]
    cases h : checkRanges w.document.lines reached [e] with
    | ok _ =>
      rw [h] at hone
      rw [run_bind_ok hone, ih]
      rfl
    | error f =>
      rw [h] at hone
      exact run_bind_error hone

private theorem run_spliceInPlace (w : WatchedDocument) (es : List Edit) :
    (es.forM spliceInPlace).run.run w = (.ok (), { w with
      document := { w.document with lines := es.foldl (fun ls e => splice e ls) w.document.lines } }) := by
  induction es generalizing w with
  | nil => rfl
  | cons e es ih => exact ih _

private theorem run_reportInPlace (w : WatchedDocument) (names : List String) :
    (names.forM reportInPlace).run.run w =
      (.ok (), { w with reports := w.reports ++ names.map fun name => (name, w.document.version) }) := by
  induction names generalizing w with
  | nil =>
    rw [List.map_nil, List.append_nil]
    rfl
  | cons name names ih =>
    refine (ih _).trans ?_
    rw [List.map_cons, List.append_assoc]
    rfl

/-- Working a batch off in place comes to the document after the batch, or to the refusal and the document as it was. -/
theorem workOff_eq (w : WatchedDocument) (es : List Edit) :
    (∀ w', w.applyEdits es = .ok w' → w.workOff es = (.ok (), w')) ∧
      ∀ f, w.applyEdits es = .error f → w.workOff es = (.error f, w) := by
  unfold workOff applyInPlace applyEdits Document.applyEdits
  cases sortBy Edit.precedes es with
  | nil =>
    refine ⟨fun w' h => ?_, fun f h => by cases h⟩
    rw [← Except.ok.inj h, update, if_pos rfl]
    rfl
  | cons e laid =>
    have hcheck := run_checkAllInPlace w none (e :: laid)
    simp only
    cases hc : checkRanges w.document.lines none (e :: laid) with
    | error f =>
      rw [hc] at hcheck
      refine ⟨fun w' h => (by cases h), fun f' h => ?_⟩
      rw [← Except.error.inj h]
      exact run_bind_error hcheck
    | ok _ =>
      rw [hc] at hcheck
      refine ⟨fun w' h => ?_, fun f' h => by cases h⟩
      have hnew : w.document.version + 1 ≠ w.document.version := Nat.succ_ne_self _
      rw [← Except.ok.inj h, run_bind_ok hcheck, run_bind_ok (run_spliceInPlace w _), update, if_neg hnew,
        List.foldl_reverse]
      exact run_reportInPlace _ w.watchers

/-- A batch is refused exactly if a range is inverted, an end of a range is no place in the lines, or two edits overlap;
and a batch that is refused, though it is worked off in place, leaves the document and what has been reported as they
were. -/
theorem workOff_refused (w : WatchedDocument) (es : List Edit) :
    ((∃ f, (w.workOff es).1 = .error f) ↔
      (∃ e ∈ es, e.stop < e.start) ∨
      (∃ e ∈ es, ¬ InBounds w.document.lines e.start ∨ ¬ InBounds w.document.lines e.stop) ∨
      ∃ (i j : Nat) (a b : Edit), i ≠ j ∧ es[i]? = some a ∧ es[j]? = some b ∧ a.Overlaps b) ∧
    ∀ f, (w.workOff es).1 = .error f → (w.workOff es).2 = w ∧ w.applyEdits es = .error f := by
  obtain ⟨hok, herror⟩ := workOff_eq w es
  rw [← not_batchFits_iff, ← applyEdits_refused_iff]
  cases h : w.applyEdits es with
  | ok w' =>
    rw [hok w' h]
    exact ⟨⟨fun ⟨f, hf⟩ => (by cases hf), fun ⟨f, hf⟩ => by cases hf⟩, fun f hf => by cases hf⟩
  | error f =>
    rw [herror f h]
    exact ⟨⟨fun _ => ⟨f, rfl⟩, fun _ => ⟨f, rfl⟩⟩, fun f' hf => ⟨rfl, congrArg _ (Except.error.inj hf)⟩⟩

/-- A watched document of two lines. -/
def twoLines : WatchedDocument :=
  (ofDocument (.ofText "abcd\nef".toList "doc" "plaintext".toList)).watch "log"

/-- An erasure that reaches from one line to the next, and an insertion inside of it. -/
def insertionInside : List Edit :=
  [.insert ⟨1, 0⟩ ['x'], .erase ⟨0, 2⟩ ⟨1, 1⟩]

theorem workOff_refused_insertionInside :
    (twoLines.workOff insertionInside).1 = .error (.overlapping ⟨1, 0⟩) ∧
      (twoLines.workOff insertionInside).2 = twoLines ∧
      twoLines.applyEdits insertionInside = .error (.overlapping ⟨1, 0⟩) ∧
      ∃ (i j : Nat) (a b : Edit), i ≠ j ∧ insertionInside[i]? = some a ∧ insertionInside[j]? = some b ∧ a.Overlaps b := by
  have h : (twoLines.workOff insertionInside).1 = .error (.overlapping ⟨1, 0⟩) := by rfl
  obtain ⟨hsame, hrefused⟩ := (workOff_refused twoLines insertionInside).2 _ h
  exact ⟨h, hsame, hrefused, 0, 1, _, _, by decide, rfl, rfl, by decide, by decide⟩

end WatchedDocument

end MultiCaret
