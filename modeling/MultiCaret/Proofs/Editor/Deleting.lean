import MultiCaret.Proofs.Editor.Typing

/-!
# Deleting with several cursors

The place in front of a place is one character back in the flat text (`placeBefore_spec`), so the removals planned for
different places touch at most and begin at different places (`plansApart_erasures`), although one of them may join
lines.  As one batch they take exactly the characters in front of the cursors out of the flat text
(`replaceStretches_erasures`), and every cursor goes back by the number of characters removed up to it
(`delete_images`).  Cursors may meet then, and the one at the origin, which has nothing to remove, goes behind the
others.
-/

namespace MultiCaret

variable {lines : List Text}

/-! ### The place in front of a place -/

/-- The place one character in front of a place other than the origin: the end of the line above for the beginning of a
line. -/
def placeBefore (lines : List Text) (p : Position) : Position :=
  if 0 < p.column then ⟨p.line, p.column - 1⟩ else ⟨p.line - 1, (lineOf lines (p.line - 1)).length⟩

theorem placeBefore_spec {p : Position} (hp : InBounds lines p) (hne : p ≠ origin) :
    InBounds lines (placeBefore lines p) ∧ offset lines (placeBefore lines p) + 1 = offset lines p := by
  obtain ⟨n, k, l, rfl, hl, hk⟩ := inBounds_iff.1 hp
  unfold placeBefore
  -- within a line, and at the beginning of a line
  split
  · next hcol =>
    simp only at hcol
    have hbefore : (⟨n, (k : Int) - 1⟩ : Position) = ⟨n, (k - 1 : Nat)⟩ := by
      rw [Position.mk.injEq]
      omega
    rw [hbefore, offset_mk, offset_mk]
    exact ⟨inBounds_iff.2 ⟨n, k - 1, l, rfl, hl, by omega⟩, by omega⟩
  · next hcol =>
    simp only at hcol
    obtain rfl : k = 0 := by omega
    cases n with
    | zero => exact absurd rfl hne
    | succ m =>
      have hm : m < lines.length := by
        have := (List.getElem?_eq_some_iff.1 hl).1
        omega
      have habove : ((m + 1 : Nat) : Int) - 1 = m := by omega
      have hlm : lines[m]? = some (lineOf lines m) := by
        rw [lineOf, if_neg (by omega), Int.toNat_natCast, List.getElem?_eq_getElem hm]
        rfl
      simp only [habove]
      rw [offset_mk, offset_mk, lineOffset_succ_of_getElem? hlm]
      exact ⟨inBounds_iff.2 ⟨m, _, _, rfl, hlm, Nat.le_refl _⟩, by omega⟩

theorem placeBefore_lt {p : Position} (hp : InBounds lines p) (hne : p ≠ origin) : placeBefore lines p < p := by
  obtain ⟨hb, ho⟩ := placeBefore_spec hp hne
  exact (offset_lt_iff hb hp).1 (by omega)

/-- No place lies between a place and the one in front of it. -/
theorem le_placeBefore {c p : Position} (hc : InBounds lines c) (hp : InBounds lines p) (h : c < p) :
    c ≤ placeBefore lines p := by
  have hne : p ≠ origin := by
    rintro rfl
    exact Position.not_le.2 h (origin_le hc)
  obtain ⟨hb, ho⟩ := placeBefore_spec hp hne
  have := (offset_lt_iff hc hp).2 h
  exact (offset_le_iff hc hb).1 (by omega)

theorem placeBefore_lt_iff {c p : Position} (hc : InBounds lines c) (hc₀ : c ≠ origin) (hp : InBounds lines p)
    (hp₀ : p ≠ origin) : placeBefore lines c < placeBefore lines p ↔ c < p := by
  obtain ⟨hb, ho⟩ := placeBefore_spec hc hc₀
  obtain ⟨hb', ho'⟩ := placeBefore_spec hp hp₀
  rw [← offset_lt_iff hb hb', ← offset_lt_iff hc hp]
  omega

/-- In front of the beginning of a line there is a newline. -/
private theorem getElem?_newline {p : Position} (hp : InBounds lines p) (hne : p ≠ origin) (hcol : p.column = 0) :
    (joinLines lines)[offset lines p - 1]? = some '\n' := by
  obtain ⟨-, ho⟩ := placeBefore_spec hp hne
  obtain ⟨n, k, l, rfl, hl, hk⟩ := inBounds_iff.1 hp
  simp only at hcol
  obtain rfl : k = 0 := by omega
  cases n with
  | zero => exact absurd rfl hne
  | succ m =>
    have hn := (List.getElem?_eq_some_iff.1 hl).1
    have hlm := List.getElem?_eq_getElem (show m < lines.length by omega)
    have hbelow : lines.drop (m + 1) ≠ [] := by
      rw [← List.length_pos_iff, List.length_drop]
      omega
    have hoff : offset lines ⟨(m + 1 : Nat), (0 : Nat)⟩ - 1 = lineOffset lines m + (lines[m]).length := by
      rw [offset_mk, lineOffset_succ_of_getElem? hlm]
      omega
    have hdrop := (joinLines_split_at hlm (Nat.le_refl _)).2
    rw [List.drop_length, joinLines_cons hbelow] at hdrop
    have hhead := congrArg (fun t : Text => t[0]?) hdrop
    simp only [List.getElem?_drop, Nat.add_zero] at hhead
    rw [hoff, hhead]
    rfl

/-! ### Removing characters from a text -/

/-- The text without the characters in front of some offsets. -/
def withoutBefore (t : Text) (ks : List Nat) : Text :=
  (t.zipIdx.filter fun x => decide (x.2 + 1 ∉ ks)).map Prod.fst

theorem withoutBefore_congr {t : Text} {ks ks' : List Nat} (h : ∀ i, i + 1 ∈ ks ↔ i + 1 ∈ ks') :
    withoutBefore t ks = withoutBefore t ks' := by
  simp only [withoutBefore, h]

/-- Nothing is taken out in front of the first offset. -/
private theorem filter_zipIdx_of_lt {t : Text} {reached : Nat} {ks : List Nat}
    (h : ∀ k ∈ ks, reached + t.length < k) :
    (t.zipIdx reached).filter (fun x => decide (x.2 + 1 ∉ ks)) = t.zipIdx reached := by
  refine List.filter_eq_self.2 fun x hx => decide_eq_true fun hmem => ?_
  have hlt := List.snd_lt_add_of_mem_zipIdx hx
  have := h _ hmem
  omega

/-- The first offset takes its character out, and what is left of the text goes on behind it. -/
private theorem filter_zipIdx_cons {t : Text} {j : Nat} {c : Char} {ks : List Nat} :
    ((c :: t).zipIdx j).filter (fun x => decide (x.2 + 1 ∉ (j + 1) :: ks)) =
      (t.zipIdx (j + 1)).filter fun x => decide (x.2 + 1 ∉ ks) := by
  rw [List.zipIdx_cons, List.filter_cons_of_neg (by simp)]
  refine List.filter_congr fun x hx => ?_
  have hle := List.le_snd_of_mem_zipIdx hx
  simp only [List.mem_cons, show ¬ x.2 + 1 = j + 1 by omega, false_or]

/-- Emptying stretches of one character each takes these characters out. -/
private theorem replaceStretches_from {t : Text} {reached : Nat} {ks : List Nat}
    (hord : ks.Pairwise (· < ·)) (hlow : ∀ k ∈ ks, reached < k) (hhigh : ∀ k ∈ ks, k ≤ t.length) :
    replaceStretches t reached (ks.map fun k => (k - 1, k, [])) =
      (((t.drop reached).zipIdx reached).filter fun x => decide (x.2 + 1 ∉ ks)).map Prod.fst := by
  induction ks generalizing reached with
  | nil => simp [replaceStretches]
  | cons k ks ih =>
    obtain ⟨hnext, hord'⟩ := List.pairwise_cons.1 hord
    have hlow₀ := hlow k List.mem_cons_self
    have hhigh₀ := hhigh k List.mem_cons_self
    obtain ⟨j, rfl⟩ : ∃ j, k = j + 1 := ⟨k - 1, by omega⟩
    -- the text from `reached` on: what stays in front of the stretch, its character, and the rest
    have hcut : t.drop reached = (t.take j).drop reached ++ (t[j] :: t.drop (j + 1)) := by
      rw [List.getElem_cons_drop, ← List.drop_append_of_le_length, List.take_append_drop]
      rw [List.length_take]
      omega
    have hlen : reached + ((t.take j).drop reached).length = j := by
      rw [List.length_drop, List.length_take]
      omega
    have hfront : ∀ k ∈ (j + 1) :: ks, reached + ((t.take j).drop reached).length < k := by
      rw [hlen]
      exact List.forall_mem_cons.2 ⟨Nat.lt_succ_self j, fun k hk => Nat.lt_of_succ_lt (hnext k hk)⟩
    rw [List.map_cons, replaceStretches, ih hord' hnext fun k' hk' => hhigh k' (List.mem_cons_of_mem _ hk'), hcut,
      List.zipIdx_append, List.filter_append, filter_zipIdx_of_lt hfront, hlen, filter_zipIdx_cons,
      List.map_append, List.append_nil, List.zipIdx_map_fst]
    rfl

theorem replaceStretches_erasures {t : Text} {ks : List Nat} (hord : ks.Pairwise (· < ·))
    (hlow : ∀ k ∈ ks, 0 < k) (hhigh : ∀ k ∈ ks, k ≤ t.length) :
    replaceStretches t 0 (ks.map fun k => (k - 1, k, [])) = withoutBefore t ks :=
  replaceStretches_from hord hlow hhigh

/-! ### The plan -/

/-- The removal of the character in front of a place. -/
def erasure (lines : List Text) (p : Position) : PlannedEdit :=
  ⟨.erase (placeBefore lines p) p, placeBefore lines p⟩

theorem inRange_erasure {p : Position} (hp : InBounds lines p) (hne : p ≠ origin) :
    (erasure lines p).edit.InRange lines :=
  ⟨Position.le_of_lt (placeBefore_lt hp hne), (placeBefore_spec hp hne).1, hp⟩

theorem shift_erasure {p : Position} (hp : InBounds lines p) (hne : p ≠ origin) :
    (erasure lines p).edit.shift lines = -1 := by
  obtain ⟨-, ho⟩ := placeBefore_spec hp hne
  simp only [erasure, Edit.erase, Edit.shift, List.length_nil]
  omega

/-- Removals in front of different places touch at most, begin at different places, and leave the cursor there. -/
theorem plansApart_erasures (h : WellFormed lines) {cs : List Position} (hnodup : cs.Nodup)
    (hin : ∀ c ∈ cs, InBounds lines c) (hne : ∀ c ∈ cs, c ≠ origin) : PlansApart lines cs (erasure lines) := by
  refine ⟨⟨?_, ?_⟩, ?_, ?_⟩
  · intro x hx
    obtain ⟨c, hc, rfl⟩ := List.mem_map.1 hx
    exact inRange_erasure (hin c hc) (hne c hc)
  · rw [List.pairwise_map]
    refine hnodup.imp_of_mem fun {c d} hc hd hcd => ?_
    by_cases hlt : c < d
    · exact Or.inl (le_placeBefore (hin c hc) (hin d hd) hlt)
    · by_cases hgt : d < c
      · exact Or.inr (le_placeBefore (hin d hd) (hin c hc) hgt)
      · exact absurd (Position.le_antisymm (Position.not_lt.1 hgt) (Position.not_lt.1 hlt)) hcd
  · refine hnodup.map_on fun c hc d hd hcd => ?_
    simp only [erasure, Edit.erase] at hcd
    obtain ⟨-, ho⟩ := placeBefore_spec (hin c hc) (hne c hc)
    obtain ⟨-, ho'⟩ := placeBefore_spec (hin d hd) (hne d hd)
    rw [hcd] at ho
    exact (offset_inj (hin c hc) (hin d hd)).1 (by omega)
  · exact fun c hc => PlannedEdit.onOwnText_advance h (inRange_erasure (hin c hc) (hne c hc)) (List.nil_append _).symm

/-- The number of places up to a place that have a character in front of them. -/
def deletedUpTo (cs : List Position) (c : Position) : Nat :=
  (cs.filter fun d => decide (d ≠ origin ∧ d ≤ c)).length

theorem mem_filter_ne_origin {cs : List Position} {c : Position} :
    c ∈ cs.filter (fun d => decide (d ≠ origin)) ↔ c ∈ cs ∧ c ≠ origin := by
  rw [List.mem_filter, decide_eq_true_eq]

/-- Nothing is removed up to the origin. -/
private theorem deletedUpTo_origin {cs : List Position} (hin : ∀ c ∈ cs, InBounds lines c) :
    deletedUpTo cs origin = 0 := by
  rw [deletedUpTo, List.length_eq_zero_iff, List.filter_eq_nil_iff]
  intro d hd hle
  obtain ⟨hne, hle⟩ := of_decide_eq_true hle
  exact hne (Position.le_antisymm hle (origin_le (hin d hd)))

/-- What is removed up to a place is removed in front of it, except for its own character. -/
private theorem deletedUpTo_eq {cs : List Position} (hnodup : cs.Nodup) {c : Position} (hc : c ∈ cs)
    (hc₀ : c ≠ origin) :
    deletedUpTo cs c = ((cs.filter fun d => decide (d ≠ origin)).filter fun d => decide (d < c)).length + 1 := by
  have hperm := filter_le_perm (hnodup.filter fun d => decide (d ≠ origin)) (mem_filter_ne_origin.2 ⟨hc, hc₀⟩)
  rw [← List.length_cons (a := c), ← hperm.length_eq, List.filter_filter, deletedUpTo]
  refine congrArg List.length (List.filter_congr fun d _ => ?_)
  rw [Bool.decide_and, Bool.and_comm]

private theorem plannedShift_erasures (h : WellFormed lines) {cs : List Position} (hnodup : cs.Nodup)
    (hin : ∀ c ∈ cs, InBounds lines c) {c : Position} (hc : c ∈ cs) (hc₀ : c ≠ origin) :
    plannedShift lines (cs.filter fun d => decide (d ≠ origin)) (erasure lines) c = -(deletedUpTo cs c : Int) := by
  have hmem : ∀ d ∈ cs.filter (fun d => decide (d ≠ origin)), InBounds lines d ∧ d ≠ origin := fun d hd =>
    ⟨hin d (mem_filter_ne_origin.1 hd).1, (mem_filter_ne_origin.1 hd).2⟩
  obtain ⟨-, ho⟩ := placeBefore_spec (hin c hc) hc₀
  have hr := inRange_erasure (hin c hc) hc₀
  obtain ⟨-, hown⟩ := inBounds_splice_of_le h hr hr.start (Position.le_refl _)
  have hfront : (cs.filter fun d => decide (d ≠ origin)).filter
        (fun d => decide ((erasure lines d).edit.start < (erasure lines c).edit.start)) =
      (cs.filter fun d => decide (d ≠ origin)).filter fun d => decide (d < c) :=
    List.filter_congr fun d hd => decide_eq_decide.2
      (placeBefore_lt_iff (hmem d hd).1 (hmem d hd).2 (hin c hc) hc₀)
  have hshift : ∀ n ∈ ((cs.filter fun d => decide (d ≠ origin)).filter fun d => decide (d < c)).map fun d =>
      (erasure lines d).edit.shift lines, n = -1 := by
    intro n hn
    obtain ⟨d, hd, rfl⟩ := List.mem_map.1 hn
    obtain ⟨hb, hne⟩ := hmem d (List.mem_filter.1 hd).1
    exact shift_erasure hb hne
  rw [plannedShift, hfront, total_eq_of_forall hshift, List.length_map, deletedUpTo_eq hnodup hc hc₀]
  simp only [erasure, Edit.erase] at hown ⊢
  omega

namespace Editor

variable {e e' : Editor}

theorem placeBefore?_eq {p : Position} (hp : InBounds lines p) :
    placeBefore? lines p = .ok (if p = origin then none else some (placeBefore lines p)) := by
  obtain ⟨⟨h₀, h₁⟩, h₂, h₃⟩ := hp
  have horigin : p = origin ↔ p.line = 0 ∧ p.column = 0 := Position.eq_iff
  unfold placeBefore? placeBefore
  by_cases hcol : 0 < p.column
  · rw [if_pos hcol, if_pos hcol, if_neg (by rw [horigin]; omega)]
  · rw [if_neg hcol, if_neg hcol]
    by_cases hline : 0 < p.line
    · rw [if_pos hline, if_neg (by rw [horigin]; omega), lineFor_of_hasLine ⟨by omega, by omega⟩]
      rfl
    · rw [if_neg hline, if_pos (by rw [horigin]; omega)]

private theorem planDelete_eq {p : Position} (hp : InBounds lines p) :
    planDelete lines p = .ok (if p = origin then none else some (erasure lines p)) := by
  rw [planDelete, placeBefore?_eq hp]
  by_cases h : p = origin
  · rw [if_pos h, if_pos h]
    rfl
  · rw [if_neg h, if_neg h]
    rfl

/-- Deleting commits the removals of the cursors that have a character in front of them; the others keep their
selections. -/
theorem delete_eq_commit (hin : ∀ s ∈ e.selections, InBounds e.lines s.active) :
    e.delete = e.commit
      ((e.selections.filter fun s => decide (s.active ≠ origin)).map fun s => (s.active, erasure e.lines s.active))
      (e.selections.filter fun s => decide (s.active = origin)) := by
  have hplan : (e.selections.mapM fun s => (planDelete e.lines s.active).map fun p => (s, p)) =
      .ok (e.selections.map fun s => (s, if s.active = origin then none else some (erasure e.lines s.active))) := by
    refine mapM_eq_ok fun s hs => ?_
    rw [planDelete_eq (hin s hs)]
    rfl
  have hcursors : ∀ ss : List Selection,
      (ss.filterMap fun s => (if s.active = origin then none else some (erasure e.lines s.active)).map fun p =>
        (s.active, p)) =
      (ss.filter fun s => decide (s.active ≠ origin)).map fun s => (s.active, erasure e.lines s.active) := by
    intro ss
    induction ss with
    | nil => rfl
    | cons s ss ih => by_cases h : s.active = origin <;> simp [h, ih]
  have huntouched : ∀ ss : List Selection,
      ((ss.map fun s => (s, if s.active = origin then none else some (erasure e.lines s.active))).filter
        fun x => x.2.isNone).map Prod.fst = ss.filter fun s => decide (s.active = origin) := by
    intro ss
    induction ss with
    | nil => rfl
    | cons s ss ih => by_cases h : s.active = origin <;> simp [h, ih]
  rw [delete, hplan, ← hcursors, ← huntouched]
  simp only [List.filterMap_map]
  rfl

theorem delete_eq_commit_carets {cs : List Position} (hcs : CursorsAt e cs) :
    e.delete = e.commit ((cs.filter fun c => decide (c ≠ origin)).map fun c => (c, erasure e.lines c))
      ((cs.filter fun c => decide (c = origin)).map Selection.caret) := by
  rw [delete_eq_commit hcs.inBounds_active, hcs.selections, List.filter_map, List.filter_map, List.map_map]
  rfl

/-- The cursors with the one at the origin behind the others. -/
def originLast (cs : List Position) : List Position :=
  cs.filter (fun c => decide (c ≠ origin)) ++ cs.filter fun c => decide (c = origin)

/-- Deleting moves every cursor back by what is removed up to it, and puts the cursor at the origin last. -/
theorem delete_images (h : WellFormed e.lines) {cs : List Position} (hcs : CursorsAt e cs) :
    ∃ e' laid, e.delete = .ok e' ∧
      LaidOut ((cs.filter fun c => decide (c ≠ origin)).map fun c => (erasure e.lines c).edit) laid ∧
      e'.lines = spliceAll laid e.lines ∧ Images e e' (originLast cs) fun c => -(deletedUpTo cs c : Int) := by
  have hzero : ∀ c ∈ cs.filter (fun c => decide (c = origin)), c = origin := fun c hc =>
    of_decide_eq_true (List.mem_filter.1 hc).2
  have hstill : ∀ c ∈ cs.filter (fun c => decide (c = origin)), -(deletedUpTo cs c : Int) = 0 := by
    intro c hc
    rw [hzero c hc, deletedUpTo_origin hcs.inBounds]
    rfl
  rw [delete_eq_commit_carets hcs]
  by_cases hnil : cs.filter (fun c => decide (c ≠ origin)) = []
  · -- nothing to remove: the only cursor is at the origin
    have hall : cs.filter (fun c => decide (c = origin)) = cs := by
      refine List.filter_eq_self.2 fun c hc => decide_eq_true (Decidable.not_not.1 fun hne => ?_)
      exact List.not_mem_nil (hnil ▸ mem_filter_ne_origin.2 ⟨hc, hne⟩)
    rw [originLast, hnil, List.nil_append, hall]
    refine ⟨e, [], rfl, ⟨List.Perm.refl _, List.Pairwise.nil, fun _ => rfl⟩, rfl, cs, ?_, ?_⟩
    · refine List.forall₂_same.2 fun c hc => ⟨hcs.inBounds c hc, ?_⟩
      simp only [hstill c (hall.symm ▸ hc), Int.add_zero]
    · rw [eraseDups_of_nodup hcs.nodup, hcs.selections]
  · have hin : ∀ c ∈ cs.filter (fun c => decide (c ≠ origin)), InBounds e.lines c := fun c hc =>
      hcs.inBounds c (mem_filter_ne_origin.1 hc).1
    have hne : ∀ c ∈ cs.filter (fun c => decide (c ≠ origin)), c ≠ origin := fun c hc => (mem_filter_ne_origin.1 hc).2
    refine commit_images h hnil (plansApart_erasures h (hcs.nodup.filter _) hin hne) ?_ ?_ hstill
    · intro p hp
      refine ⟨hcs.inBounds p (List.mem_filter.1 hp).1, fun c hc => ?_⟩
      rw [hzero p hp]
      exact origin_le (inRange_erasure (hin c hc) (hne c hc)).start
    · intro c hc
      exact (plannedShift_erasures h hcs.nodup hcs.inBounds (mem_filter_ne_origin.1 hc).1 (hne c hc)).symm

/-! ### What deleting does -/

/-- The characters in front of the cursors are removed, newlines in front of line beginnings among them, and the carets
are where the cursors come to when what is removed up to them is missing, each place once. -/
structure Deleted (e e' : Editor) (cs : List Position) : Prop where
  text_eq : e'.document.text = withoutBefore e.document.text (cs.map (offset e.lines))
  newline : ∀ c ∈ cs, c ≠ origin → c.column = 0 → e.document.text[offset e.lines c - 1]? = some '\n'
  carets : ∃ qs : List Position, e'.selections = qs.map Selection.caret ∧ qs.Nodup ∧ (∀ q ∈ qs, InBounds e'.lines q) ∧
    ∀ k : Int, (∃ q ∈ qs, (offset e'.lines q : Int) = k) ↔ ∃ c ∈ cs, k = offset e.lines c - deletedUpTo cs c

/-- Removals of one character each, laid out along the text, take the characters in front of their ends out of it. -/
private theorem text_removals (h : WellFormed lines) {laid : List Edit} (hr : ∀ x ∈ laid, x.InRange lines)
    (hord : laid.Pairwise fun a b => a.stop ≤ b.start)
    (hone : ∀ x ∈ laid, offset lines x.start + 1 = offset lines x.stop ∧ x.text = []) :
    joinLines (spliceAll laid lines) = withoutBefore (joinLines lines) (laid.map fun x => offset lines x.stop) := by
  have hstretch : laid.map (Edit.stretch lines) =
      (laid.map fun x => offset lines x.stop).map fun k => (k - 1, k, []) := by
    rw [List.map_map]
    refine List.map_congr_left fun x hx => ?_
    obtain ⟨ho, ht⟩ := hone x hx
    simp only [Edit.stretch, Function.comp, ht, ← ho, Nat.add_sub_cancel]
  rw [(joinLines_spliceAll h hr hord).1, hstretch, replaceStretches_erasures]
  · rw [List.pairwise_map]
    refine hord.imp_of_mem fun {x y} hx hy hxy => ?_
    have hle := (offset_le_iff (hr x hx).stop (hr y hy).start).2 hxy
    have := (hone y hy).1
    omega
  · rw [List.forall_mem_map]
    intro x hx
    have := (hone x hx).1
    omega
  · rw [List.forall_mem_map]
    exact fun x hx => (hr x hx).stop.offset_le

theorem text_erasures (h : WellFormed lines) {cs : List Position} (hin : ∀ c ∈ cs, InBounds lines c)
    {laid : List Edit}
    (hlaid : LaidOut ((cs.filter fun c => decide (c ≠ origin)).map fun c => (erasure lines c).edit) laid) :
    joinLines (spliceAll laid lines) = withoutBefore (joinLines lines) (cs.map (offset lines)) := by
  have hmem : ∀ x ∈ laid, ∃ c ∈ cs, c ≠ origin ∧ x = (erasure lines c).edit := by
    intro x hx
    obtain ⟨c, hc, rfl⟩ := List.mem_map.1 (hlaid.perm.mem_iff.1 hx)
    exact ⟨c, (mem_filter_ne_origin.1 hc).1, (mem_filter_ne_origin.1 hc).2, rfl⟩
  rw [text_removals h _ hlaid.inOrder]
  · -- a place at the origin has no character in front of it, so it does not matter that it has no removal
    refine withoutBefore_congr fun i => ?_
    rw [List.mem_map, List.mem_map]
    constructor
    · rintro ⟨x, hx, ho⟩
      obtain ⟨c, hc, -, rfl⟩ := hmem x hx
      exact ⟨c, hc, ho⟩
    · rintro ⟨c, hc, ho⟩
      have hne : c ≠ origin := by
        rintro rfl
        exact absurd ho (Nat.succ_ne_zero i).symm
      exact ⟨_, hlaid.perm.mem_iff.2 (List.mem_map_of_mem (mem_filter_ne_origin.2 ⟨hc, hne⟩)), ho⟩
  · intro x hx
    obtain ⟨c, hc, hne, rfl⟩ := hmem x hx
    exact ⟨(placeBefore_spec (hin c hc) hne).2, rfl⟩
  · intro x hx
    obtain ⟨c, hc, hne, rfl⟩ := hmem x hx
    exact inRange_erasure (hin c hc) hne

private theorem mem_originLast {cs : List Position} {c : Position} : c ∈ originLast cs ↔ c ∈ cs := by
  rw [originLast, List.mem_append, List.mem_filter, List.mem_filter, decide_eq_true_eq, decide_eq_true_eq]
  by_cases h : c = origin <;> simp [h]

/-- Deleting with carets at different places removes exactly the characters in front of them, and takes the carets where
the text in front of them ends then. -/
theorem delete_deleted (h : WellFormed e.lines) {cs : List Position} (hcs : CursorsAt e cs) :
    ∃ e', e.delete = .ok e' ∧ Deleted e e' cs := by
  obtain ⟨e', laid, hdelete, hlaid, hlines, images, himages, hsel⟩ := delete_images h hcs
  obtain ⟨hforth, hback⟩ := exists_mem_of_forall₂ himages
  refine ⟨e', hdelete, ?_, fun c hc => getElem?_newline (hcs.inBounds c hc), images.eraseDups, hsel,
    nodup_eraseDups images, ?_, ?_⟩
  · exact (congrArg joinLines hlines).trans (text_erasures h hcs.inBounds hlaid)
  · intro q hq
    obtain ⟨c, -, hb, -⟩ := hback q (List.mem_eraseDups.1 hq)
    exact hb
  · intro k
    constructor
    · rintro ⟨q, hq, rfl⟩
      obtain ⟨c, hc, -, ho⟩ := hback q (List.mem_eraseDups.1 hq)
      exact ⟨c, mem_originLast.1 hc, ho⟩
    · rintro ⟨c, hc, rfl⟩
      obtain ⟨q, hq, -, ho⟩ := hforth c (mem_originLast.2 hc)
      exact ⟨q, List.mem_eraseDups.2 hq, ho⟩

/-- Cursors on the first line that follow one another up to its end, one at the beginning of the line below, and one at
the origin in between. -/
def fourCursors : Editor :=
  (ofDocument (.ofText "ab\ncd".toList "doc" "plaintext".toList) {} {}).setSelections
    [.caret ⟨1, 0⟩, .caret ⟨0, 1⟩, .caret ⟨0, 0⟩, .caret ⟨0, 2⟩]

theorem delete_deleted_fourCursors :
    WellFormed fourCursors.lines ∧ CursorsAt fourCursors [⟨1, 0⟩, ⟨0, 1⟩, ⟨0, 0⟩, ⟨0, 2⟩] ∧
      ∃ e', fourCursors.delete = .ok e' ∧ Deleted fourCursors e' [⟨1, 0⟩, ⟨0, 1⟩, ⟨0, 0⟩, ⟨0, 2⟩] := by
  have h : WellFormed fourCursors.lines := wellFormed_splitLines _
  have hcs : CursorsAt fourCursors [⟨1, 0⟩, ⟨0, 1⟩, ⟨0, 0⟩, ⟨0, 2⟩] :=
    ⟨by decide +kernel, by decide, by decide, by decide +kernel⟩
  exact ⟨h, hcs, delete_deleted h hcs⟩

end Editor

end MultiCaret
