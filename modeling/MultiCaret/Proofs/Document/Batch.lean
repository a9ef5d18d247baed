import MultiCaret.Proofs.Document.Splice

/-!
# Batches of edits

A document accepts a batch of edits if all their ranges are ranges of its lines and no two of them overlap
(`applyEdits_eq_ok_iff`); comparing neighbours along the text is enough to find that out.  The edits of such a batch
can be laid out along the text in one way only (`LaidOut.unique`), and working them off from the end replaces their
stretches in the flat text as it was before the batch (`joinLines_spliceAll`): a stretch that is still to come lies in
front of all that has been changed.
-/

namespace MultiCaret

theorem Position.eq_iff {p q : Position} : p = q ↔ p.line = q.line ∧ p.column = q.column := by
  obtain ⟨a, b⟩ := p
  obtain ⟨c, d⟩ := q
  simp

/-- One of the two edits ends before the other begins, or where it begins. -/
def Edit.Apart (a b : Edit) : Prop :=
  a.stop ≤ b.start ∨ b.stop ≤ a.start

instance (a b : Edit) : Decidable (a.Apart b) :=
  inferInstanceAs (Decidable (a.stop ≤ b.start ∨ b.stop ≤ a.start))

/-- All ranges are ranges of the lines, and no two of them overlap. -/
structure BatchFits (lines : List Text) (es : List Edit) : Prop where
  inRange : ∀ e ∈ es, e.InRange lines
  apart : es.Pairwise Edit.Apart

/-- Does the edit put in a text at the position and replace nothing? -/
def Edit.insertsAt (p : Position) (e : Edit) : Bool :=
  e.start == p && e.stop == p

/-- A batch laid out along the text: no edit begins before the ones in front of it end, and insertions at one position
keep their order. -/
structure LaidOut (es laid : List Edit) : Prop where
  perm : laid.Perm es
  inOrder : laid.Pairwise fun a b => a.stop ≤ b.start
  inserts : ∀ p, laid.filter (Edit.insertsAt p) = es.filter (Edit.insertsAt p)

theorem Edit.Apart.symm {a b : Edit} (h : a.Apart b) : b.Apart a :=
  Or.symm h

theorem BatchFits.perm {lines : List Text} {es es' : List Edit} (h : BatchFits lines es) (hp : es.Perm es') :
    BatchFits lines es' :=
  ⟨fun e he => h.inRange e (hp.mem_iff.2 he), (hp.pairwise_iff Edit.Apart.symm).1 h.apart⟩

theorem batchFits_nil (lines : List Text) : BatchFits lines [] :=
  ⟨fun _ he => absurd he List.not_mem_nil, List.Pairwise.nil⟩

theorem batchFits_singleton {lines : List Text} {e : Edit} (he : e.InRange lines) : BatchFits lines [e] := by
  refine ⟨?_, List.pairwise_singleton _ _⟩
  intro e' he'
  rw [List.mem_singleton.1 he']
  exact he

/-! ### Checking a batch -/

theorem Edit.precedes_iff {a b : Edit} :
    a.precedes b = true ↔ a.start < b.start ∨ a.start = b.start ∧ a.stop ≤ b.stop := by
  simp [Edit.precedes]

private theorem precedes_trans (a b c : Edit) (h₁ : a.precedes b) (h₂ : b.precedes c) : a.precedes c := by
  rw [Edit.precedes_iff] at *
  simp only [Position.lt_def, Position.le_def, Position.eq_iff] at *
  omega

private theorem precedes_total (a b : Edit) : a.precedes b ∨ b.precedes a := by
  rw [Edit.precedes_iff, Edit.precedes_iff]
  simp only [Position.lt_def, Position.le_def, Position.eq_iff]
  omega

/-- Edits that do not overlap follow one another in the order of their starts and ends. -/
private theorem stop_le_start_of_precedes {a b : Edit} (hb : b.start ≤ b.stop) (h : a.precedes b) (hab : a.Apart b) :
    a.stop ≤ b.start := by
  rw [Edit.precedes_iff] at h
  simp only [Edit.Apart, Position.lt_def, Position.le_def, Position.eq_iff] at *
  omega

/-- Comparing each edit with the one in front of it finds every overlap of a batch that is laid out along the text. -/
private theorem checkRanges_eq_ok_iff {lines : List Text} {reached : Option Position} {laid : List Edit} :
    checkRanges lines reached laid = .ok () ↔
      (∀ e ∈ laid, e.InRange lines) ∧ laid.Pairwise (fun a b => a.stop ≤ b.start) ∧
        ∀ r ∈ reached, ∀ e ∈ laid, r ≤ e.start := by
  induction laid generalizing reached with
  | nil => simp [checkRanges]
  | cons e es ih =>
    have hany : reached.any (fun r => decide (e.start < r)) = true ↔ ∃ r ∈ reached, e.start < r := by
      cases reached <;> simp
    unfold checkRanges
    split
    · next hinv =>
      simp only [reduceCtorEq, false_iff]
      rintro ⟨h, -⟩
      exact Position.not_le.2 hinv (h e List.mem_cons_self).ordered
    · next hord =>
      split
      · next hout =>
        simp only [reduceCtorEq, false_iff]
        rintro ⟨h, -⟩
        exact hout ⟨(h e List.mem_cons_self).start, (h e List.mem_cons_self).stop⟩
      · next hin =>
        have hr : e.InRange lines := ⟨Position.not_lt.1 hord, (Decidable.not_not.1 hin).1, (Decidable.not_not.1 hin).2⟩
        split
        · next hover =>
          obtain ⟨r, hmem, hlt⟩ := hany.1 hover
          simp only [reduceCtorEq, false_iff]
          rintro ⟨-, -, h⟩
          exact Position.not_le.2 hlt (h r hmem e List.mem_cons_self)
        · next hover =>
          have hle : ∀ r ∈ reached, r ≤ e.start := fun r hmem =>
            Position.not_lt.1 fun hlt => hover (hany.2 ⟨r, hmem, hlt⟩)
          rw [ih, List.pairwise_cons]
          simp only [List.mem_cons, forall_eq_or_imp, Option.mem_def, Option.some.injEq, forall_eq']
          -- what has been reached only grows, since no range is inverted
          constructor
          · rintro ⟨hes, hpw, hnext⟩
            refine ⟨⟨hr, hes⟩, ⟨hnext, hpw⟩, fun r hmem => ⟨hle r hmem, fun e' he' => ?_⟩⟩
            exact Position.le_trans (hle r hmem) (Position.le_trans hr.ordered (hnext e' he'))
          · rintro ⟨⟨-, hes⟩, ⟨hnext, hpw⟩, -⟩
            exact ⟨hes, hpw, hnext⟩

theorem pairwise_precedes_sortBy (es : List Edit) : (sortBy Edit.precedes es).Pairwise fun a b => a.precedes b :=
  sortBy_pairwise precedes_trans precedes_total es

/-- A batch that fits is in order along the text once it is sorted. -/
theorem BatchFits.sorted {lines : List Text} {es : List Edit} (h : BatchFits lines es) :
    (sortBy Edit.precedes es).Pairwise fun a b => a.stop ≤ b.start := by
  have h' := h.perm (sortBy_perm Edit.precedes es).symm
  refine ((pairwise_precedes_sortBy es).and h'.apart).imp_of_mem fun {a b} _ hb hab => ?_
  exact stop_le_start_of_precedes (h'.inRange b hb).ordered hab.1 hab.2

/-- A batch is checked through exactly if it fits. -/
theorem checkRanges_sortBy {lines : List Text} {es : List Edit} :
    checkRanges lines none (sortBy Edit.precedes es) = .ok () ↔ BatchFits lines es := by
  rw [checkRanges_eq_ok_iff]
  constructor
  · rintro ⟨hr, hpw, -⟩
    exact (BatchFits.mk hr (hpw.imp Or.inl)).perm (sortBy_perm _ _)
  · intro h
    exact ⟨(h.perm (sortBy_perm _ _).symm).inRange, h.sorted, by simp⟩

/-- The document after a batch that it accepts. -/
def Document.afterBatch (d : Document) (es : List Edit) : Document :=
  if es = [] then d
  else { d with lines := spliceAll (sortBy Edit.precedes es) d.lines, version := d.version + 1 }

/-- A batch is accepted exactly if it fits. -/
theorem applyEdits_eq_ok_iff {d d' : Document} {es : List Edit} :
    d.applyEdits es = .ok d' ↔ BatchFits d.lines es ∧ d' = d.afterBatch es := by
  have hnil : sortBy Edit.precedes es = [] ↔ es = [] := by
    rw [← List.length_eq_zero_iff, (sortBy_perm _ es).length_eq, List.length_eq_zero_iff]
  rw [← checkRanges_sortBy, Document.applyEdits, Document.afterBatch]
  split
  · next h =>
    rw [if_pos (hnil.1 h), h]
    simp [checkRanges, eq_comm]
  · next h =>
    rw [if_neg (fun he => h (hnil.2 he))]
    split
    · next hc => simp [hc]
    · next hc => simp [hc, eq_comm]

theorem Document.lines_afterBatch (d : Document) (es : List Edit) :
    (d.afterBatch es).lines = spliceAll (sortBy Edit.precedes es) d.lines := by
  unfold Document.afterBatch
  split
  · next h => rw [h]; rfl
  · rfl

theorem Document.version_le_afterBatch (d : Document) (es : List Edit) : d.version ≤ (d.afterBatch es).version := by
  unfold Document.afterBatch
  split
  · exact Nat.le_refl _
  · exact Nat.le_succ _

/-- A batch that leaves the version has left the document. -/
theorem Document.afterBatch_eq_self {d : Document} {es : List Edit} (h : (d.afterBatch es).version = d.version) :
    d.afterBatch es = d := by
  unfold Document.afterBatch at h ⊢
  split
  · rfl
  · next hne =>
    rw [if_neg hne] at h
    exact absurd h (Nat.succ_ne_self _)

/-! ### Laying a batch out -/

theorem BatchFits.laidOut {lines : List Text} {es : List Edit} (h : BatchFits lines es) :
    LaidOut es (sortBy Edit.precedes es) := by
  refine ⟨sortBy_perm _ _, h.sorted, fun p => filter_sortBy ?_ es⟩
  intro a b ha hb
  simp only [Edit.insertsAt, Bool.and_eq_true, beq_iff_eq] at ha hb
  rw [Edit.precedes_iff, ha.1, ha.2, hb.1, hb.2]
  exact Or.inr ⟨rfl, Position.le_refl p⟩

/-- Two edits of which each ends before the other begins are insertions at one position. -/
private theorem insertsAt_of_le {a b : Edit} (ha : a.start ≤ a.stop) (hb : b.start ≤ b.stop) (hab : a.stop ≤ b.start)
    (hba : b.stop ≤ a.start) : a.insertsAt a.start = true ∧ b.insertsAt a.start = true := by
  simp only [Edit.insertsAt, Bool.and_eq_true, beq_iff_eq, Position.le_def, Position.eq_iff, true_and] at *
  omega

/-- There is one way to lay out a batch. -/
theorem LaidOut.unique {es l₁ l₂ : List Edit} (hord : ∀ e ∈ es, e.start ≤ e.stop) (h₁ : LaidOut es l₁)
    (h₂ : LaidOut es l₂) : l₁ = l₂ := by
  induction l₁ generalizing es l₂ with
  | nil => exact (List.nil_perm.1 (h₁.perm.trans h₂.perm.symm)).symm
  | cons a A ih =>
    obtain ⟨b, B, rfl⟩ := List.exists_cons_of_length_eq_add_one (h₂.perm.length_eq.trans h₁.perm.length_eq.symm)
    have hperm := h₁.perm.trans h₂.perm.symm
    obtain ⟨haA, hA⟩ := List.pairwise_cons.1 h₁.inOrder
    obtain ⟨hbB, hB⟩ := List.pairwise_cons.1 h₂.inOrder
    have hab : a = b := by
      rcases List.mem_cons.1 (hperm.mem_iff.1 List.mem_cons_self) with h | haB
      · exact h
      · rcases List.mem_cons.1 (hperm.mem_iff.2 List.mem_cons_self) with h | hbA
        · exact h.symm
        · -- each of the two ends before the other begins
          obtain ⟨hat, hbt⟩ := insertsAt_of_le (hord a (h₁.perm.mem_iff.1 List.mem_cons_self))
            (hord b (h₂.perm.mem_iff.1 List.mem_cons_self)) (haA b hbA) (hbB a haB)
          have hi := (h₁.inserts a.start).trans (h₂.inserts a.start).symm
          rw [List.filter_cons_of_pos hat, List.filter_cons_of_pos hbt] at hi
          exact (List.cons.inj hi).1
    subst hab
    have hins : ∀ p, A.filter (Edit.insertsAt p) = B.filter (Edit.insertsAt p) := by
      intro p
      have hi := (h₁.inserts p).trans (h₂.inserts p).symm
      rw [List.filter_cons, List.filter_cons] at hi
      split at hi
      · exact (List.cons.inj hi).2
      · exact hi
    have hordB : ∀ e ∈ B, e.start ≤ e.stop := fun e he => hord e (h₂.perm.mem_iff.1 (List.mem_cons_of_mem _ he))
    rw [ih hordB ⟨hperm.cons_inv, hA, hins⟩ ⟨List.Perm.refl B, hB, fun _ => rfl⟩]

/-! ### The flat text of a batch -/

/-- The sum of some numbers. -/
def total (ns : List Int) : Int :=
  ns.foldr (· + ·) 0

theorem total_cons (n : Int) (ns : List Int) : total (n :: ns) = n + total ns := rfl

theorem total_perm {ns ms : List Int} (h : ns.Perm ms) : total ns = total ms := by
  induction h with
  | nil => rfl
  | cons n _ ih => rw [total_cons, total_cons, ih]
  | swap n m ns => simp only [total_cons]; omega
  | trans _ _ ih₁ ih₂ => exact ih₁.trans ih₂

theorem total_eq_of_forall {c : Int} {ns : List Int} (h : ∀ n ∈ ns, n = c) : total ns = ns.length * c := by
  induction ns with
  | nil => simp [total]
  | cons n ns ih =>
    rw [total_cons, h n List.mem_cons_self, ih fun m hm => h m (List.mem_cons_of_mem n hm), List.length_cons,
      Int.natCast_add, Int.add_mul]
    omega

/-- In front of the first stretch the text stays as it is. -/
private theorem take_replaceStretches {t : Text} {reached k : Nat} {ss : List (Nat × Nat × Text)} (hr : reached ≤ k)
    (hk : k ≤ t.length) (h : ∀ s ∈ ss, k ≤ s.1) :
    (replaceStretches t reached ss).take (k - reached) = (t.take k).drop reached := by
  cases ss with
  | nil => rw [replaceStretches, List.drop_take]
  | cons s rest =>
    obtain ⟨a, b, new⟩ := s
    have hka : k ≤ a := h (a, b, new) List.mem_cons_self
    rw [replaceStretches, List.append_assoc, List.take_append_of_le_length, List.drop_take, List.take_take,
      List.drop_take, Nat.min_eq_left (by omega)]
    rw [List.length_drop, List.length_take]
    omega

/-- Replacing may start anew anywhere in front of the first stretch. -/
private theorem drop_replaceStretches {t : Text} {reached k : Nat} {ss : List (Nat × Nat × Text)} (hr : reached ≤ k)
    (hk : k ≤ t.length) (h : ∀ s ∈ ss, k ≤ s.1) :
    (replaceStretches t reached ss).drop (k - reached) = replaceStretches t k ss := by
  cases ss with
  | nil => rw [replaceStretches, replaceStretches, List.drop_drop, Nat.add_sub_cancel' hr]
  | cons s rest =>
    obtain ⟨a, b, new⟩ := s
    have hka : k ≤ a := h (a, b, new) List.mem_cons_self
    rw [replaceStretches, replaceStretches, List.append_assoc, List.append_assoc, List.drop_append_of_le_length,
      List.drop_drop, Nat.add_sub_cancel' hr]
    rw [List.length_drop, List.length_take]
    omega

variable {lines : List Text}

/-- A batch all of whose edits begin behind a place leaves the flat text in front of it as it is. -/
private theorem take_spliceAll {laid : List Edit} (hr : ∀ e ∈ laid, e.InRange lines)
    (hflat : joinLines (spliceAll laid lines) = replaceStretches (joinLines lines) 0 (laid.map (Edit.stretch lines)))
    {p : Position} (hp : InBounds lines p) (hle : ∀ e ∈ laid, p ≤ e.start) :
    (joinLines lines).take (offset lines p) = (joinLines (spliceAll laid lines)).take (offset lines p) := by
  have h : ∀ s ∈ laid.map (Edit.stretch lines), offset lines p ≤ s.1 := by
    intro s hs
    obtain ⟨e, he, rfl⟩ := List.mem_map.1 hs
    exact (offset_le_iff hp (hr e he).start).2 (hle e he)
  rw [hflat]
  exact (take_replaceStretches (Nat.zero_le _) hp.offset_le h).symm

/-- Working off a batch from its end replaces its stretches in the flat text, and leaves the lines of a text, as many
more as the edits say. -/
theorem joinLines_spliceAll (h : WellFormed lines) {laid : List Edit} (hr : ∀ e ∈ laid, e.InRange lines)
    (hord : laid.Pairwise fun a b => a.stop ≤ b.start) :
    joinLines (spliceAll laid lines) = replaceStretches (joinLines lines) 0 (laid.map (Edit.stretch lines)) ∧
      WellFormed (spliceAll laid lines) ∧
      ((spliceAll laid lines).length : Int) = lines.length + total (laid.map Edit.growth) := by
  induction laid with
  | nil => simp [spliceAll, replaceStretches, total, h]
  | cons e es ih =>
    obtain ⟨hnext, hes⟩ := List.pairwise_cons.1 hord
    have he := hr e List.mem_cons_self
    have hres := fun e' he' => hr e' (List.mem_cons_of_mem e he')
    obtain ⟨hflat, hwf, hlen⟩ := ih hres hes
    -- all that has been changed lies behind the stop of `e`
    have htake := take_spliceAll hres hflat he.stop hnext
    obtain ⟨hs, ho₁⟩ := inBounds_of_take_eq h hwf htake he.start he.offset_le
    obtain ⟨ht, ho₂⟩ := inBounds_of_take_eq h hwf htake he.stop (Nat.le_refl _)
    have he' : e.InRange (spliceAll es lines) := ⟨he.ordered, hs, ht⟩
    have hcons : spliceAll (e :: es) lines = splice e (spliceAll es lines) := rfl
    rw [hcons]
    refine ⟨?_, hwf.splice e, ?_⟩
    · have hdrop : (joinLines (spliceAll es lines)).drop (offset lines e.stop) =
          replaceStretches (joinLines lines) (offset lines e.stop) (es.map (Edit.stretch lines)) := by
        rw [hflat]
        refine drop_replaceStretches (Nat.zero_le _) he.stop.offset_le ?_
        intro s hs
        obtain ⟨e', he', rfl⟩ := List.mem_map.1 hs
        exact (offset_le_iff he.stop (hres e' he').start).2 (hnext e' he')
      have hstart : (joinLines (spliceAll es lines)).take (offset lines e.start) =
          (joinLines lines).take (offset lines e.start) := by
        have := congrArg (List.take (offset lines e.start)) htake
        rwa [List.take_take, List.take_take, Nat.min_eq_left he.offset_le, eq_comm] at this
      rw [joinLines_splice he', ho₁, ho₂, hstart, hdrop]
      rfl
    · rw [length_splice hwf he', hlen, List.map_cons, total_cons]
      omega

/-- Places in front of all edits of a batch have the same text in front of them. -/
theorem take_joinLines_spliceAll (h : WellFormed lines) {laid : List Edit} (hr : ∀ e ∈ laid, e.InRange lines)
    (hord : laid.Pairwise fun a b => a.stop ≤ b.start) {p : Position} (hp : InBounds lines p)
    (hle : ∀ e ∈ laid, p ≤ e.start) :
    (joinLines (spliceAll laid lines)).take (offset lines p) = (joinLines lines).take (offset lines p) :=
  (take_spliceAll hr (joinLines_spliceAll h hr hord).1 hp hle).symm

/-- Places in front of all edits of a batch stay where they are. -/
theorem inBounds_spliceAll_of_le (h : WellFormed lines) {laid : List Edit} (hr : ∀ e ∈ laid, e.InRange lines)
    (hord : laid.Pairwise fun a b => a.stop ≤ b.start) {p : Position} (hp : InBounds lines p)
    (hle : ∀ e ∈ laid, p ≤ e.start) :
    InBounds (spliceAll laid lines) p ∧ offset (spliceAll laid lines) p = offset lines p :=
  inBounds_of_take_eq h (joinLines_spliceAll h hr hord).2.1 (take_joinLines_spliceAll h hr hord hp hle).symm hp
    (Nat.le_refl _)

/-- The text that comes from the flat text of the lines when each edit puts its text in place of its stretch.  Stretches
follow one another along the text; insertions at one position keep their order. -/
def IsSplice (lines : List Text) (es : List Edit) (t : Text) : Prop :=
  ∃ laid, LaidOut es laid ∧ t = replaceStretches (joinLines lines) 0 (laid.map (Edit.stretch lines))

private theorem isSplice_iff (h : WellFormed lines) {es : List Edit} (hfit : BatchFits lines es) {t : Text} :
    IsSplice lines es t ↔ t = joinLines (spliceAll (sortBy Edit.precedes es) lines) := by
  have hlaid := hfit.laidOut
  have hflat := (joinLines_spliceAll h (hfit.perm hlaid.perm.symm).inRange hlaid.inOrder).1
  constructor
  · rintro ⟨other, hother, rfl⟩
    rw [hflat, hother.unique (fun e he => (hfit.inRange e he).ordered) hlaid]
  · rintro rfl
    exact ⟨_, hlaid, hflat⟩

/-- A batch depends on the order of its edits only where they are insertions at one position. -/
private theorem afterBatch_perm {d : Document} {es es' : List Edit} (hfit : BatchFits d.lines es) (hp : es'.Perm es)
    (hi : ∀ p, es'.filter (Edit.insertsAt p) = es.filter (Edit.insertsAt p)) :
    d.afterBatch es' = d.afterBatch es := by
  have hlaid' := (hfit.perm hp.symm).laidOut
  have hlaid : LaidOut es (sortBy Edit.precedes es') :=
    ⟨hlaid'.perm.trans hp, hlaid'.inOrder, fun p => (hlaid'.inserts p).trans (hi p)⟩
  have hsort := hlaid.unique (fun e he => (hfit.inRange e he).ordered) hfit.laidOut
  have hnil : es' = [] ↔ es = [] := by
    rw [← List.length_eq_zero_iff, hp.length_eq, List.length_eq_zero_iff]
  simp only [Document.afterBatch, hsort, hnil]

theorem wellFormed_afterBatch {d : Document} (h : WellFormed d.lines) {es : List Edit} (hfit : BatchFits d.lines es) :
    WellFormed (d.afterBatch es).lines := by
  have hlaid := hfit.laidOut
  rw [Document.lines_afterBatch]
  exact (joinLines_spliceAll h (hfit.perm hlaid.perm.symm).inRange hlaid.inOrder).2.1

theorem length_afterBatch {d : Document} (h : WellFormed d.lines) {es : List Edit} (hfit : BatchFits d.lines es) :
    ((d.afterBatch es).lines.length : Int) = d.lines.length + total (es.map Edit.growth) := by
  have hlaid := hfit.laidOut
  rw [Document.lines_afterBatch, (joinLines_spliceAll h (hfit.perm hlaid.perm.symm).inRange hlaid.inOrder).2.2,
    total_perm (hlaid.perm.map _)]

/-- A batch that is accepted splices the flat text, whatever the order of its edits, and leaves the lines of a text. -/
theorem applyEdits_text {d d' : Document} {es : List Edit} (h : WellFormed d.lines) (hd : d.applyEdits es = .ok d') :
    (∀ t, IsSplice d.lines es t ↔ t = d'.text) ∧
    (∀ es', es'.Perm es → (∀ p, es'.filter (Edit.insertsAt p) = es.filter (Edit.insertsAt p)) →
      d.applyEdits es' = .ok d') ∧
    (d'.lines.length : Int) = d.lines.length + total (es.map Edit.growth) ∧
    WellFormed d'.lines := by
  obtain ⟨hfit, rfl⟩ := applyEdits_eq_ok_iff.1 hd
  refine ⟨?_, ?_, length_afterBatch h hfit, wellFormed_afterBatch h hfit⟩
  · intro t
    rw [isSplice_iff h hfit, Document.text, Document.lines_afterBatch]
  · intro es' hp hi
    exact applyEdits_eq_ok_iff.2 ⟨hfit.perm hp.symm, (afterBatch_perm hfit hp hi).symm⟩

/-- Edits that meet at one place: a replacement from there on, two insertions, and an erasure up to there. -/
def meetingEdits : List Edit :=
  [⟨⟨1, 1⟩, ⟨1, 2⟩, ['z']⟩, .insert ⟨1, 1⟩ ['x', '\n'], .insert ⟨1, 1⟩ ['y'], .erase ⟨0, 1⟩ ⟨1, 1⟩]

theorem applyEdits_text_meetingEdits :
    (⟨[['a', 'b'], ['c', 'd']], "", [], 0⟩ : Document).applyEdits meetingEdits =
        .ok ⟨[['a', 'x'], ['y', 'z']], "", [], 1⟩ ∧
      WellFormed [['a', 'b'], ['c', 'd']] ∧
      (∀ t, IsSplice [['a', 'b'], ['c', 'd']] meetingEdits t ↔ t = ['a', 'x', '\n', 'y', 'z']) ∧
      (2 : Int) = 2 + total (meetingEdits.map Edit.growth) ∧ WellFormed [['a', 'x'], ['y', 'z']] := by
  have hwf : WellFormed [['a', 'b'], ['c', 'd']] := ⟨by decide, by decide⟩
  have hd : (⟨[['a', 'b'], ['c', 'd']], "", [], 0⟩ : Document).applyEdits meetingEdits =
      .ok ⟨[['a', 'x'], ['y', 'z']], "", [], 1⟩ := rfl
  obtain ⟨htext, -, hlen, hwf'⟩ := applyEdits_text hwf hd
  exact ⟨hd, hwf, htext, hlen, hwf'⟩

end MultiCaret
