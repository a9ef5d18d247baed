import MultiCaret.Proofs.Document.Visible

/-!
# Lines that become several lines

A batch of edits with one edit at most on a line, none over more lines than one, treats the lines one by one: each
becomes the pieces that its own edit breaks it into, and the lines without an edit stay (`spliceAll_eq_expandFrom`).
So a line is found again below all the lines that those above it have become; if each edit makes three lines of one,
every edit above puts it two lines further down (`length_expandFrom`, `countP_range_mem`).
-/

namespace MultiCaret

/-- The lines that each line becomes, one after the other.  They may depend on the number of the line; the first line
has the number `n`. -/
def expandFrom (f : Nat → Text → List Text) (n : Nat) (ls : List Text) : List Text :=
  (ls.zipIdx n).flatMap fun l => f l.2 l.1

/-- The pieces that the edit of its line breaks a line into.  A line without an edit is one piece. -/
def piecesOf (es : List Edit) (n : Nat) (l : Text) : List Text :=
  match es.find? fun e => e.start.line == (n : Int) with
  | some e => splitLines (e.within l)
  | none => [l]

/-- Of some lines, the first of which has the number `n`, how many are marked. -/
def markedFrom (p : Nat → Bool) (n : Nat) (ls : List Text) : Nat :=
  (List.range' n ls.length).countP p

/-! ### Line by line -/

variable {f g : Nat → Text → List Text}

private theorem expandFrom_append (f : Nat → Text → List Text) (n : Nat) (A B : List Text) :
    expandFrom f n (A ++ B) = expandFrom f n A ++ expandFrom f (n + A.length) B := by
  rw [expandFrom, List.zipIdx_append, List.flatMap_append]
  rfl

theorem expandFrom_cons (f : Nat → Text → List Text) (n : Nat) (l : Text) (ls : List Text) :
    expandFrom f n (l :: ls) = f n l ++ expandFrom f (n + 1) ls := by
  rw [expandFrom, List.zipIdx_cons, List.flatMap_cons]
  rfl

theorem expandFrom_cut (f : Nat → Text → List Text) (A B : List Text) (l : Text) :
    expandFrom f 0 (A ++ l :: B) = expandFrom f 0 A ++ f A.length l ++ expandFrom f (A.length + 1) B := by
  rw [expandFrom_append, expandFrom_cons, Nat.zero_add, List.append_assoc]

theorem expandFrom_congr {n : Nat} {ls : List Text} (h : ∀ i l, ls[i]? = some l → f (n + i) l = g (n + i) l) :
    expandFrom f n ls = expandFrom g n ls := by
  induction ls generalizing n with
  | nil => rfl
  | cons l ls ih =>
    have hrest : ∀ i m, ls[i]? = some m → f (n + 1 + i) m = g (n + 1 + i) m := by
      intro i m hm
      rw [Nat.add_assoc, Nat.add_comm 1]
      exact h (i + 1) m (by rw [List.getElem?_cons_succ, hm])
    rw [expandFrom_cons, expandFrom_cons, ih hrest]
    exact congrArg (· ++ _) (h 0 l rfl)

/-- Lines that become themselves. -/
private theorem expandFrom_eq_self {n : Nat} {ls : List Text} (h : ∀ i l, ls[i]? = some l → f (n + i) l = [l]) :
    expandFrom f n ls = ls := by
  have hself : expandFrom f n ls = expandFrom (fun _ l => [l]) n ls := expandFrom_congr h
  rw [hself, expandFrom, ← List.map_eq_flatMap, List.zipIdx_map_fst]

/-! ### Batches -/

variable {lines : List Text}

theorem piecesOf_of_forall_ne {es : List Edit} {n : Nat} (h : ∀ e ∈ es, e.start.line ≠ n) (l : Text) :
    piecesOf es n l = [l] := by
  have hnone : (es.find? fun e => e.start.line == (n : Int)) = none :=
    List.find?_eq_none.2 fun e he heq => h e he (beq_iff_eq.1 heq)
  rw [piecesOf, hnone]

/-- With the keys of a list all different, the search for a key finds the element that has it. -/
theorem find?_of_nodup {α : Type} {key : α → Int} {xs : List α} (hnodup : (xs.map key).Nodup) {x : α} (hx : x ∈ xs)
    {n : Int} (hn : key x = n) : (xs.find? fun y => key y == n) = some x := by
  cases hfind : xs.find? fun y => key y == n with
  | none => exact absurd (beq_iff_eq.2 hn) (List.find?_eq_none.1 hfind x hx)
  | some y =>
    have hy := List.find?_some hfind
    rw [beq_iff_eq] at hy
    rw [List.inj_on_of_nodup_map hnodup (List.mem_of_find?_eq_some hfind) hx (hy.trans hn.symm)]

/-- With one edit at most on a line, the pieces of a line are those of any edit that is found on it. -/
theorem piecesOf_of_mem {es : List Edit} (hnodup : (es.map fun e => e.start.line).Nodup) {e : Edit} (he : e ∈ es)
    {n : Nat} (hn : e.start.line = n) (l : Text) : piecesOf es n l = splitLines (e.within l) := by
  rw [piecesOf, find?_of_nodup hnodup he hn]

/-- Working off edits of one line each, from the last line to the first one, breaks every line into the pieces of its
own edit. -/
theorem spliceAll_eq_expandFrom {laid : List Edit} (hr : ∀ e ∈ laid, e.InRange lines)
    (hone : ∀ e ∈ laid, e.stop.line = e.start.line) (hord : laid.Pairwise fun a b => a.start.line < b.start.line) :
    spliceAll laid lines = expandFrom (piecesOf laid) 0 lines := by
  induction laid with
  | nil => exact (expandFrom_eq_self fun i l _ => rfl).symm
  | cons e es ih =>
    obtain ⟨hbelow, hes⟩ := List.pairwise_cons.1 hord
    have ih' := ih (fun e' he' => hr e' (List.mem_cons_of_mem e he')) (fun e' he' => hone e' (List.mem_cons_of_mem e he'))
      hes
    obtain ⟨A, l, B, rfl, hline, -⟩ := (hr e List.mem_cons_self).start.1.cut
    rw [hline] at hbelow
    -- the other edits are below the line of `e`, which keeps its number
    have habove : ∀ i, i ≤ A.length → ∀ l, piecesOf es i l = [l] := by
      intro i hi l
      refine piecesOf_of_forall_ne (fun e' he' heq => ?_) l
      have := hbelow e' he'
      omega
    have hown : piecesOf (e :: es) A.length l = splitLines (e.within l) := by
      rw [piecesOf, List.find?_cons_of_pos (by simp [hline])]
    have hother : ∀ i, i ≠ A.length → ∀ l, piecesOf (e :: es) i l = piecesOf es i l := by
      intro i hi l
      rw [piecesOf, piecesOf, List.find?_cons_of_neg]
      simp only [hline, beq_iff_eq, Int.natCast_inj]
      omega
    have hfront : ∀ i m, A[i]? = some m → piecesOf es (0 + i) m = [m] := by
      intro i m hm
      have := (List.getElem?_eq_some_iff.1 hm).1
      exact habove (0 + i) (by omega) m
    have hfront' : ∀ i m, A[i]? = some m → piecesOf (e :: es) (0 + i) m = [m] := by
      intro i m hm
      have := (List.getElem?_eq_some_iff.1 hm).1
      rw [hother (0 + i) (by omega), hfront i m hm]
    have hrest : expandFrom (piecesOf (e :: es)) (A.length + 1) B = expandFrom (piecesOf es) (A.length + 1) B :=
      expandFrom_congr fun i m _ => hother (A.length + 1 + i) (by omega) m
    have hcons : spliceAll (e :: es) (A ++ l :: B) = splice e (spliceAll es (A ++ l :: B)) := rfl
    rw [hcons, ih', expandFrom_cut, expandFrom_cut, expandFrom_eq_self hfront, expandFrom_eq_self hfront', hrest, hown,
      habove A.length (Nat.le_refl _), List.append_assoc, List.singleton_append]
    simp only [splice, hone e List.mem_cons_self, hline, lineOf_cut, Int.toNat_natCast, drop_cut, List.take_left]
    rfl

/-! ### Where a line is found again -/

theorem markedFrom_cons (p : Nat → Bool) (n : Nat) (l : Text) (ls : List Text) :
    markedFrom p n (l :: ls) = (if p n then 1 else 0) + markedFrom p (n + 1) ls := by
  rw [markedFrom, List.length_cons, List.range'_succ, List.countP_cons, Nat.add_comm]
  rfl

/-- Each marked line becomes three lines, and each other line stays one. -/
theorem length_expandFrom {p : Nat → Bool} (h : ∀ i l, (f i l).length = if p i then 3 else 1) (n : Nat)
    (ls : List Text) : (expandFrom f n ls).length = ls.length + 2 * markedFrom p n ls := by
  induction ls generalizing n with
  | nil => rfl
  | cons l ls ih =>
    rw [expandFrom_cons, List.length_append, ih, h, List.length_cons, markedFrom_cons]
    split <;> omega

/-- Of the numbers below `k`, as many are in a list without repetitions as there are numbers below `k` in the list. -/
theorem countP_range_mem {ns : List Int} (hnodup : ns.Nodup) (hnonneg : ∀ n ∈ ns, 0 ≤ n) (k : Nat) :
    ((List.range k).countP fun i : Nat => decide ((i : Int) ∈ ns)) = ns.countP fun n => decide (n < (k : Int)) := by
  obtain ⟨marked, hmarked⟩ : ∃ marked : List Nat, marked = (List.range k).filter fun i : Nat => decide ((i : Int) ∈ ns) :=
    ⟨_, rfl⟩
  have hmem : ∀ i : Nat, i ∈ marked ↔ i < k ∧ (i : Int) ∈ ns := by
    intro i
    rw [hmarked, List.mem_filter, List.mem_range, decide_eq_true_eq]
  have hset : marked.Nodup := hmarked ▸ List.nodup_range.filter _
  have hperm : (marked.map fun i : Nat => (i : Int)).Perm (ns.filter fun n => decide (n < (k : Int))) := by
    refine (List.perm_ext_iff_of_nodup (hset.map fun a b => Int.ofNat_inj.1) (hnodup.filter _)).2 fun n => ?_
    rw [List.mem_map, List.mem_filter, decide_eq_true_eq]
    constructor
    · rintro ⟨i, hi, rfl⟩
      exact ⟨((hmem i).1 hi).2, Int.ofNat_lt.2 ((hmem i).1 hi).1⟩
    · rintro ⟨hn, hlt⟩
      obtain ⟨i, rfl⟩ := Int.eq_ofNat_of_zero_le (hnonneg n hn)
      exact ⟨i, (hmem i).2 ⟨Int.ofNat_lt.1 hlt, hn⟩, rfl⟩
  have hlen := hperm.length_eq
  rw [List.length_map, hmarked] at hlen
  rw [List.countP_eq_length_filter, List.countP_eq_length_filter, hlen]

end MultiCaret
