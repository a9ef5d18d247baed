import MultiCaret.Proofs.Editor.Deleting
import MultiCaret.Proofs.Editor.Invariants

/-!
# Typing a character and deleting it

Typing puts one character in at every cursor, so afterwards a cursor is further in the text by one character for itself
and one for every cursor in front of it (`mem_behindTyped`).  Deleting then has exactly the typed characters in front of
the cursors and takes them out again (`withoutBefore_typed`).  It moves each cursor back by as much as typing has moved it,
because typing keeps the order of the cursors (`deletedUpTo_eq_insertedUpTo`).
-/

namespace MultiCaret

variable {lines : List Text}

/-! ### The flat text -/

/-- The text with a character put in at some offsets. -/
def withTyped (t : Text) (c : Char) (os : List Nat) : Text :=
  replaceStretches t 0 (os.map fun o => (o, o, [c]))

/-- The offsets behind the characters put in at some offsets, which are in order. -/
def behindTyped (os : List Nat) : List Nat :=
  (os.zipIdx 1).map fun x => x.1 + x.2

/-- From a place on in front of which `m` characters have been typed, the further ones are taken out again. -/
private theorem replaceStretches_typed {t : Text} {c : Char} {os : List Nat} {reached m : Nat}
    (hord : os.Pairwise (· ≤ ·)) (hlow : ∀ o ∈ os, reached ≤ o) (hhigh : ∀ o ∈ os, o ≤ t.length) {front : Text}
    (hfront : front.length = reached + m) :
    replaceStretches (front ++ replaceStretches t reached (os.map fun o => (o, o, [c]))) (reached + m)
        (((os.zipIdx (m + 1)).map fun x => x.1 + x.2).map fun k => (k - 1, k, [])) =
      t.drop reached := by
  -- `front` is what the text begins with by then, and it grows by what is kept and the next typed character
  induction os generalizing reached m front with
  | nil => simp [replaceStretches, ← hfront]
  | cons o os ih =>
    obtain ⟨hnext, hord'⟩ := List.pairwise_cons.1 hord
    have hlow₀ := hlow o List.mem_cons_self
    have hhigh₀ := hhigh o List.mem_cons_self
    have hkept : (front ++ (t.take o).drop reached).length = o + m := by
      rw [List.length_append, List.length_drop, List.length_take]
      omega
    have hfront' : (front ++ (t.take o).drop reached ++ [c]).length = o + (m + 1) := by
      rw [List.length_append, hkept, List.length_singleton]
      omega
    have hrest := ih hord' hnext (fun o' ho' => hhigh o' (List.mem_cons_of_mem o ho')) hfront'
    have hcut : (front ++ ((t.take o).drop reached ++ [c] ++ replaceStretches t o (os.map fun o => (o, o, [c])))) =
        front ++ (t.take o).drop reached ++ [c] ++ replaceStretches t o (os.map fun o => (o, o, [c])) := by
      simp only [List.append_assoc]
    -- up to the typed character everything stays
    have hstay : ((front ++ (t.take o).drop reached ++ [c] ++
        replaceStretches t o (os.map fun o => (o, o, [c]))).take (o + m)).drop (reached + m) =
        (t.take o).drop reached := by
      rw [List.append_assoc _ [c], ← hkept, List.take_left, ← hfront, List.drop_left]
    have hback : (t.take o).drop reached ++ t.drop o = t.drop reached := by
      rw [← List.drop_append_of_le_length, List.take_append_drop]
      rw [List.length_take]
      omega
    rw [List.map_cons, replaceStretches, hcut, List.zipIdx_cons, List.map_cons, List.map_cons, replaceStretches,
      ← Nat.add_assoc, Nat.add_sub_cancel, hstay, List.append_nil, Nat.add_assoc o m 1, hrest, hback]

private theorem pairwise_behindTyped {os : List Nat} (hord : os.Pairwise (· ≤ ·)) :
    (behindTyped os).Pairwise (· < ·) := by
  rw [List.pairwise_iff_getElem] at hord ⊢
  intro i j hi hj hij
  simp only [behindTyped, List.length_map, List.length_zipIdx] at hi hj
  have := hord i j hi hj hij
  simp only [behindTyped, List.getElem_map, List.getElem_zipIdx]
  omega

/-- Without the characters in front of the offsets behind the typed ones, the text is what it was. -/
theorem withoutBefore_typed {t : Text} {c : Char} {os : List Nat} (hord : os.Pairwise (· ≤ ·))
    (hhigh : ∀ o ∈ os, o ≤ t.length) (hbehind : ∀ k ∈ behindTyped os, k ≤ (withTyped t c os).length) :
    withoutBefore (withTyped t c os) (behindTyped os) = t := by
  have hpos : ∀ k ∈ behindTyped os, 0 < k := by
    intro k hk
    obtain ⟨x, hx, rfl⟩ := List.mem_map.1 hk
    have := List.le_snd_of_mem_zipIdx hx
    omega
  have hback : replaceStretches (withTyped t c os) 0 ((behindTyped os).map fun k => (k - 1, k, [])) = t.drop 0 := by
    have hfront : ([] : Text).length = 0 + 0 := rfl
    exact replaceStretches_typed hord (fun o _ => Nat.zero_le o) hhigh hfront
  rw [← replaceStretches_erasures (pairwise_behindTyped hord) hpos hbehind, hback, List.drop_zero]

/-! ### The places behind the typed characters -/

/-- Of places in order, those up to one of them are counted by where it stands. -/
private theorem length_filter_le_getElem {ps : List Position} (hord : ps.Pairwise (· < ·)) {i : Nat}
    (hi : i < ps.length) : (ps.filter fun d => decide (d ≤ ps[i])).length = i + 1 := by
  induction ps generalizing i with
  | nil => exact absurd hi (Nat.not_lt_zero i)
  | cons p ps ih =>
    obtain ⟨hnext, hord'⟩ := List.pairwise_cons.1 hord
    cases i with
    | zero =>
      have hnone : ps.filter (fun d => decide (d ≤ p)) = [] := by
        refine List.filter_eq_nil_iff.2 fun d hd hle => ?_
        exact Position.not_le.2 (hnext d hd) (of_decide_eq_true hle)
      simp [hnone, Position.le_refl]
    | succ i =>
      have hi' : i < ps.length := Nat.lt_of_succ_lt_succ hi
      have hle : p ≤ ps[i] := Position.le_of_lt (hnext _ (List.getElem_mem hi'))
      simp [hle, ih hord' hi']

/-- As many characters are typed up to a place as there are cursors up to it. -/
private theorem insertedUpTo_char (cs : List Position) (c : Char) (p : Position) :
    insertedUpTo cs (fun _ => [c]) p = ((cs.filter fun d => decide (d ≤ p)).length : Int) := by
  rw [insertedUpTo, total_eq_of_forall (c := 1) (by simp), List.length_map, Int.mul_one]

/-- When the cursors are in order, they go behind the characters typed at their offsets. -/
theorem mem_behindTyped {ps : List Position} (hord : ps.Pairwise (· < ·)) (c : Char) {k : Nat} :
    k ∈ behindTyped (ps.map (offset lines)) ↔
      ∃ p ∈ ps, (k : Int) = offset lines p + insertedUpTo ps (fun _ => [c]) p := by
  have hrank : ∀ (i : Nat) p, ps[i]? = some p → insertedUpTo ps (fun _ => [c]) p = (i + 1 : Nat) := by
    intro i p hp
    obtain ⟨hi, rfl⟩ := List.getElem?_eq_some_iff.1 hp
    rw [insertedUpTo_char, length_filter_le_getElem hord hi]
  have hbehind : ∀ i : Nat, (behindTyped (ps.map (offset lines)))[i]? = ps[i]?.map fun p => offset lines p + (i + 1) := by
    intro i
    simp only [behindTyped, List.getElem?_map, List.getElem?_zipIdx, Option.map_map, Nat.add_comm 1]
    rfl
  rw [List.mem_iff_getElem?]
  constructor
  · rintro ⟨i, hi⟩
    rw [hbehind, Option.map_eq_some_iff] at hi
    obtain ⟨p, hp, rfl⟩ := hi
    exact ⟨p, List.mem_of_getElem? hp, by rw [hrank i p hp]; omega⟩
  · rintro ⟨p, hp, hk⟩
    obtain ⟨i, hi⟩ := List.mem_iff_getElem?.1 hp
    rw [hrank i p hi] at hk
    refine ⟨i, ?_⟩
    rw [hbehind, hi, Option.map_some, Option.some.injEq]
    omega

/-- Insertions at different places, laid out along the text. -/
private theorem LaidOut.exists_inserts {cs : List Position} (hnodup : cs.Nodup) {text : Position → Text}
    {laid : List Edit} (hlaid : LaidOut (cs.map fun c => .insert c (text c)) laid) :
    ∃ ps : List Position, ps.Perm cs ∧ ps.Pairwise (· < ·) ∧ laid = ps.map fun c => .insert c (text c) := by
  have hinsert : ∀ x ∈ laid, Edit.insert x.start (text x.start) = x := by
    intro x hx
    obtain ⟨c, -, rfl⟩ := List.mem_map.1 (hlaid.perm.mem_iff.1 hx)
    rfl
  have hperm : (laid.map Edit.start).Perm cs := by
    have h := hlaid.perm.map Edit.start
    rw [List.map_map] at h
    exact h.trans (List.Perm.of_eq (List.map_id cs))
  refine ⟨laid.map Edit.start, hperm, ?_, ?_⟩
  · have hne := List.pairwise_map.1 (hperm.nodup_iff.2 hnodup)
    refine List.pairwise_map.2 ((hlaid.inOrder.and hne).imp_of_mem fun {a b} ha _ hab => ?_)
    -- an insertion stops where it starts
    have hle : a.start ≤ b.start := by
      have := hab.1
      rwa [← hinsert a ha] at this
    by_contra hnot
    exact hab.2 (Position.le_antisymm hle (Position.not_lt.1 hnot))
  · rw [List.map_map]
    conv_lhs => rw [← List.map_id laid]
    exact List.map_congr_left fun x hx => (hinsert x hx).symm

namespace Editor

variable {e e₁ : Editor} {cs images : List Position} {c : Char}

/-- A cursor goes behind its character, moved by the characters typed in front of it. -/
def Follows (e e₁ : Editor) (cs : List Position) (c : Char) (p q : Position) : Prop :=
  InBounds e₁.lines q ∧ (offset e₁.lines q : Int) = offset e.lines p + insertedUpTo cs (fun _ => [c]) p

private theorem Follows.ne_origin {p q : Position} (h : Follows e e₁ cs c p q) (hp : p ∈ cs) : q ≠ origin := by
  rintro rfl
  have hpos : 0 < (cs.filter fun d => decide (d ≤ p)).length :=
    List.length_pos_of_mem (List.mem_filter.2 ⟨hp, decide_eq_true (Position.le_refl p)⟩)
  have ho := h.2
  rw [insertedUpTo_char] at ho
  have hzero : offset e₁.lines origin = 0 := rfl
  omega

/-- The cursors that have a character to delete up to one of them are those that have typed one up to it. -/
theorem deletedUpTo_eq_insertedUpTo (hcs : CursorsAt e cs) (himages : List.Forall₂ (Follows e e₁ cs c) cs images)
    {p q : Position} (hp : p ∈ cs) (hq : Follows e e₁ cs c p q) :
    (deletedUpTo images q : Int) = insertedUpTo cs (fun _ => [c]) p := by
  have hboth : List.Forall₂ (fun d q => d ∈ cs ∧ Follows e e₁ cs c d q) cs images :=
    (List.forall₂_and_left _ _).2 ⟨fun d hd => hd, himages⟩
  have hiff : ∀ d q', d ∈ cs ∧ Follows e e₁ cs c d q' → (decide (d ≤ p) ↔ decide (q' ≠ origin ∧ q' ≤ q)) := by
    rintro d q' ⟨hd, hq'⟩
    rw [decide_eq_true_eq, decide_eq_true_eq, and_iff_right (hq'.ne_origin hd), ← offset_le_iff hq'.1 hq.1,
      ← offset_add_insertedUpTo_le_iff cs (fun _ => [c]) (hcs.inBounds d hd) (hcs.inBounds p hp), ← hq'.2, ← hq.2,
      Int.ofNat_le]
  rw [insertedUpTo_char, deletedUpTo, (List.rel_filter (fun d q' h => hiff d q' h) hboth).length_eq]

/-- Typing a character. -/
private theorem typeText_char (h : WellFormed e.lines) (hcs : CursorsAt e cs) (c : Char) :
    ∃ (e₁ : Editor) (images ps : List Position), e.typeText [c] = .ok e₁ ∧ WellFormed e₁.lines ∧ CursorsAt e₁ images ∧
      List.Forall₂ (Follows e e₁ cs c) cs images ∧ ps.Perm cs ∧ ps.Pairwise (· < ·) ∧
      joinLines e₁.lines = withTyped (joinLines e.lines) c (ps.map (offset e.lines)) := by
  obtain ⟨e₁, laid, htype, hlaid, hlines, images, himages, hsel⟩ := commit_inserts_images h hcs fun _ => [c]
  obtain ⟨ps, hperm, hord, rfl⟩ := hlaid.exists_inserts hcs.nodup
  have hnodup := nodup_images hcs _ himages
  rw [eraseDups_of_nodup hnodup] at hsel
  have hr := ((batchFits_inserts hcs.inBounds fun _ => [c]).perm hlaid.perm.symm).inRange
  obtain ⟨hflat, hwf, -⟩ := joinLines_spliceAll h hr hlaid.inOrder
  refine ⟨e₁, images, ps, ?_, ?_, ?_, himages, hperm, hord, ?_⟩
  · rw [typeText_eq_commit, htype]
  · rw [hlines]
    exact hwf
  · refine ⟨hsel, ?_, hnodup, ?_⟩
    · rintro rfl
      exact hcs.ne_nil (List.forall₂_nil_right_iff.1 himages)
    · intro q hq
      obtain ⟨p, -, hb, -⟩ := (exists_mem_of_forall₂ himages).2 q hq
      exact hb
  · rw [hlines, hflat, withTyped, List.map_map, List.map_map]
    rfl

/-- Without the characters in front of the cursors the text is what it was before they were typed. -/
private theorem withoutBefore_images (hcs : CursorsAt e cs) (himages : List.Forall₂ (Follows e e₁ cs c) cs images)
    {ps : List Position} (hperm : ps.Perm cs) (hord : ps.Pairwise (· < ·))
    (htext : joinLines e₁.lines = withTyped (joinLines e.lines) c (ps.map (offset e.lines))) :
    withoutBefore (joinLines e₁.lines) (images.map (offset e₁.lines)) = joinLines e.lines := by
  have hin : ∀ p ∈ ps, InBounds e.lines p := fun p hp => hcs.inBounds p (hperm.mem_iff.1 hp)
  have hsame : ∀ p, insertedUpTo ps (fun _ => [c]) p = insertedUpTo cs (fun _ => [c]) p := by
    intro p
    rw [insertedUpTo_char, insertedUpTo_char, (hperm.filter _).length_eq]
  obtain ⟨hforth, hback⟩ := exists_mem_of_forall₂ himages
  have hmem : ∀ k, k ∈ images.map (offset e₁.lines) ↔ k ∈ behindTyped (ps.map (offset e.lines)) := by
    intro k
    rw [mem_behindTyped hord c, List.mem_map]
    constructor
    · rintro ⟨q, hq, rfl⟩
      obtain ⟨p, hp, hb, ho⟩ := hback q hq
      exact ⟨p, hperm.mem_iff.2 hp, by rw [ho, hsame]⟩
    · rintro ⟨p, hp, hk⟩
      obtain ⟨q, hq, hb, ho⟩ := hforth p (hperm.mem_iff.1 hp)
      refine ⟨q, hq, ?_⟩
      rw [hsame] at hk
      omega
  rw [withoutBefore_congr fun i => hmem (i + 1), htext]
  refine withoutBefore_typed ?_ ?_ ?_
  · exact List.pairwise_map.2 (hord.imp_of_mem fun {a b} ha hb hab =>
      Nat.le_of_lt ((offset_lt_iff (hin a ha) (hin b hb)).2 hab))
  · rw [List.forall_mem_map]
    exact fun p hp => (hin p hp).offset_le
  · intro k hk
    obtain ⟨q, hq, rfl⟩ := List.mem_map.1 ((hmem k).2 hk)
    obtain ⟨p, -, hb, -⟩ := hback q hq
    rw [← htext]
    exact hb.offset_le

/-- Deleting behind typed characters takes the text and the cursors back. -/
private theorem delete_typed (h : WellFormed e.lines) (hcs : CursorsAt e cs) (h₁ : WellFormed e₁.lines)
    (hcs₁ : CursorsAt e₁ images) (himages : List.Forall₂ (Follows e e₁ cs c) cs images)
    (htext : withoutBefore (joinLines e₁.lines) (images.map (offset e₁.lines)) = joinLines e.lines) :
    ∃ e₂, e₁.delete = .ok e₂ ∧ e₂.lines = e.lines ∧ e₂.selections = e.selections := by
  obtain ⟨e₂, laid, hdelete, hlaid, hlines, back, hback, hsel⟩ := delete_images h₁ hcs₁
  have hsame : e₂.lines = e.lines := by
    have hwf : WellFormed e₂.lines := kept_wellFormed.press h₁ (k := .delete) hdelete
    have hjoin : joinLines e₂.lines = joinLines e.lines := by
      rw [hlines, text_erasures h₁ hcs₁.inBounds hlaid, htext]
    rw [← hwf.splitLines_joinLines, hjoin, h.splitLines_joinLines]
  -- every cursor has typed, so none of them is at the origin, and they keep their order
  have hne : ∀ q ∈ images, q ≠ origin := by
    intro q hq
    obtain ⟨p, hp, hfollows⟩ := (exists_mem_of_forall₂ himages).2 q hq
    exact hfollows.ne_origin hp
  have hlast : originLast images = images := by
    rw [originLast, List.filter_eq_self.2 fun q hq => decide_eq_true (hne q hq),
      List.filter_eq_nil_iff.2 fun q hq h => hne q hq (of_decide_eq_true h), List.append_nil]
  rw [hlast] at hback
  have hcarets : cs = back := by
    obtain ⟨hlen, hget⟩ := List.forall₂_iff_get.1 himages
    obtain ⟨hlen', hget'⟩ := List.forall₂_iff_get.1 hback
    refine List.ext_get (hlen.trans hlen') fun i hi hi' => ?_
    have hp := List.get_mem cs ⟨i, hi⟩
    have hfollows := hget i hi (hlen ▸ hi)
    obtain ⟨hb, ho⟩ := hget' i (hlen ▸ hi) hi'
    have hcount := deletedUpTo_eq_insertedUpTo hcs himages hp hfollows
    have hforth := hfollows.2
    simp only [hsame] at hb ho
    exact (offset_inj (hcs.inBounds _ hp) hb).1 (by omega)
  refine ⟨e₂, hdelete, hsame, ?_⟩
  rw [hsel, ← hcarets, eraseDups_of_nodup hcs.nodup, hcs.selections]

/-- Typing a character at any number of carets and deleting it there changes neither the text nor the selections. -/
theorem delete_typeText (h : WellFormed e.lines) {cs : List Position} (hsel : e.selections = cs.map Selection.caret)
    (hnodup : cs.Nodup) (hin : ∀ p ∈ cs, InBounds e.lines p) (c : Char) :
    ∃ e₁ e₂, e.typeText [c] = .ok e₁ ∧ e₁.delete = .ok e₂ ∧ e₂.lines = e.lines ∧ e₂.selections = e.selections := by
  by_cases hnil : cs = []
  · subst hnil
    have htype : e.typeText [c] = .ok e := by
      rw [typeText, hsel]
      rfl
    have hdelete : e.delete = .ok e := by
      rw [delete, hsel]
      rfl
    exact ⟨e, e, htype, hdelete, rfl, rfl⟩
  · have hcs : CursorsAt e cs := ⟨hsel, hnil, hnodup, hin⟩
    obtain ⟨e₁, images, ps, htype, h₁, hcs₁, himages, hperm, hord, htext⟩ := typeText_char h hcs c
    obtain ⟨e₂, hdelete, hback⟩ := delete_typed h hcs h₁ hcs₁ himages
      (withoutBefore_images hcs himages hperm hord htext)
    exact ⟨e₁, e₂, htype, hdelete, hback⟩

/-- A newline at the cursor of an indented line and at the two cursors of the line above. -/
theorem delete_typeText_threeCursors :
    WellFormed threeCursors.lines ∧ threeCursors.selections = [⟨1, 3⟩, ⟨0, 1⟩, ⟨0, 2⟩].map Selection.caret ∧
      ∃ e₁ e₂, threeCursors.typeText ['\n'] = .ok e₁ ∧ e₁.delete = .ok e₂ ∧ e₂.lines = threeCursors.lines ∧
        e₂.selections = threeCursors.selections := by
  have h : WellFormed threeCursors.lines := wellFormed_splitLines _
  have hsel : threeCursors.selections = [⟨1, 3⟩, ⟨0, 1⟩, ⟨0, 2⟩].map Selection.caret := by decide +kernel
  exact ⟨h, hsel, delete_typeText h hsel (by decide) (by decide +kernel) '\n'⟩

end Editor

end MultiCaret
