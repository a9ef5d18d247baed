import MultiCaret.Proofs.Editor.Images

/-!
# Typing with several cursors

When the cursors stand at different places and each of them puts a text in, every text gets in at the place of its
cursor, and the cursor goes behind it, moved by what is put in in front of it (`commit_inserts`); so the cursors stay
apart.  Typing and the newline are of this kind: their plans are insertions with the cursor behind the text
(`planInsert_eq`, `planNewline_eq`).
-/

namespace MultiCaret

variable {lines : List Text}

/-! ### Insertions -/

private theorem Edit.inRange_insert {c : Position} (h : InBounds lines c) (t : Text) :
    (Edit.insert c t).InRange lines :=
  ⟨Position.le_refl c, h, h⟩

theorem Edit.shift_insert (lines : List Text) (c : Position) (t : Text) : (Edit.insert c t).shift lines = t.length := by
  simp [Edit.shift, Edit.insert]

theorem batchFits_inserts {cs : List Position} (h : ∀ c ∈ cs, InBounds lines c) (text : Position → Text) :
    BatchFits lines (cs.map fun c => .insert c (text c)) := by
  constructor
  · intro e he
    obtain ⟨c, hc, rfl⟩ := List.mem_map.1 he
    exact Edit.inRange_insert (h c hc) (text c)
  · rw [List.pairwise_map]
    exact List.pairwise_of_forall fun c d => Position.le_total c d

/-! ### Sums over the cursors up to one of them -/

private theorem total_le_of_sublist {ns ms : List Int} (hs : ns.Sublist ms) (h : ∀ m ∈ ms, 0 ≤ m) :
    total ns ≤ total ms := by
  induction hs with
  | slnil => exact Int.le_refl 0
  | cons m _ ih =>
    have h₁ := h m List.mem_cons_self
    have h₂ := ih fun n hn => h n (List.mem_cons_of_mem m hn)
    rw [total_cons]
    omega
  | cons_cons m _ ih =>
    have h₂ := ih fun n hn => h n (List.mem_cons_of_mem m hn)
    rw [total_cons, total_cons]
    omega

/-- The number of characters put in at the cursors up to a position. -/
def insertedUpTo (cs : List Position) (text : Position → Text) (c : Position) : Int :=
  total ((cs.filter fun d => decide (d ≤ c)).map fun d => ((text d).length : Int))

/-- Of different places, those up to one of them are this one and those in front of it. -/
theorem filter_le_perm {cs : List Position} (hnodup : cs.Nodup) {c : Position} (hc : c ∈ cs) :
    (cs.filter fun d => decide (d ≤ c)).Perm (c :: cs.filter fun d => decide (d < c)) := by
  have hnot : c ∉ cs.filter fun d => decide (d < c) := by
    intro hmem
    have hlt := of_decide_eq_true (List.mem_filter.1 hmem).2
    exact Position.not_le.2 hlt (Position.le_refl c)
  refine (List.perm_ext_iff_of_nodup (hnodup.filter _) (List.nodup_cons.2 ⟨hnot, hnodup.filter _⟩)).2 ?_
  intro d
  simp only [List.mem_cons, List.mem_filter, decide_eq_true_eq]
  constructor
  · rintro ⟨hd, hle⟩
    by_cases hcd : c ≤ d
    · exact Or.inl (Position.le_antisymm hle hcd)
    · exact Or.inr ⟨hd, Position.not_le.1 hcd⟩
  · rintro (rfl | ⟨hd, hlt⟩)
    · exact ⟨hc, Position.le_refl _⟩
    · exact ⟨hd, Position.le_of_lt hlt⟩

/-- Up to a cursor there is its own text and what is put in in front of it. -/
private theorem insertedUpTo_eq {cs : List Position} (hnodup : cs.Nodup) {c : Position} (hc : c ∈ cs)
    (text : Position → Text) :
    insertedUpTo cs text c =
      (text c).length + total ((cs.filter fun d => decide (d < c)).map fun d => ((text d).length : Int)) := by
  rw [insertedUpTo, total_perm ((filter_le_perm hnodup hc).map _), List.map_cons, total_cons]

private theorem insertedUpTo_mono (cs : List Position) (text : Position → Text) {c d : Position} (h : c ≤ d) :
    insertedUpTo cs text c ≤ insertedUpTo cs text d := by
  have hsub : (cs.filter fun x => decide (x ≤ c)).Sublist (cs.filter fun x => decide (x ≤ d)) :=
    List.monotone_filter_right cs fun x hx => decide_eq_true (Position.le_trans (of_decide_eq_true hx) h)
  refine total_le_of_sublist (hsub.map _) ?_
  intro n hn
  obtain ⟨x, -, rfl⟩ := List.mem_map.1 hn
  exact Int.natCast_nonneg _

/-- A later place has more in front of it, before and after. -/
private theorem offset_add_insertedUpTo_lt (cs : List Position) (text : Position → Text) {c d : Position}
    (hc : InBounds lines c) (hd : InBounds lines d) (h : c < d) :
    (offset lines c : Int) + insertedUpTo cs text c < offset lines d + insertedUpTo cs text d := by
  have h₁ := (offset_lt_iff hc hd).2 h
  have h₂ := insertedUpTo_mono cs text (Position.le_of_lt h)
  omega

/-- Putting in texts keeps the order of the places. -/
theorem offset_add_insertedUpTo_le_iff (cs : List Position) (text : Position → Text) {c d : Position}
    (hc : InBounds lines c) (hd : InBounds lines d) :
    (offset lines c : Int) + insertedUpTo cs text c ≤ offset lines d + insertedUpTo cs text d ↔ c ≤ d := by
  constructor
  · intro hle
    by_contra hlt
    have := offset_add_insertedUpTo_lt cs text hd hc (Position.not_le.1 hlt)
    omega
  · intro hle
    have h₁ := (offset_le_iff hc hd).2 hle
    have h₂ := insertedUpTo_mono cs text hle
    omega

/-! ### The plan of one cursor -/

theorem mapM_eq_ok {α β ε : Type} {f : α → Except ε β} {g : α → β} {l : List α} (h : ∀ a ∈ l, f a = .ok (g a)) :
    l.mapM f = .ok (l.map g) := by
  induction l with
  | nil => rfl
  | cons a l ih =>
    have ih' := ih fun b hb => h b (List.mem_cons_of_mem a hb)
    rw [List.mapM_cons, h a List.mem_cons_self, ih']
    rfl

namespace Editor

theorem planInsert_eq (t : Text) (p : Position) : planInsert t p = ⟨.insert p t, p.advance t⟩ := by
  rw [planInsert, Position.advance_eq]
  by_cases h : (splitLines t).length = 1
  · obtain ⟨l, hl⟩ := List.length_eq_one_iff.1 h
    have ht : l = t := by
      have hjoin : joinLines (splitLines t) = t := joinWith_splitOn t
      rw [hl] at hjoin
      exact hjoin
    rw [if_pos h, if_pos h, hl, ht]
    simp
  · rw [if_neg h, if_neg h]
    simp

theorem lineFor_of_hasLine {n : Int} (h : HasLine lines n) : lineFor lines n = .ok (lineOf lines n) := by
  obtain ⟨h₀, h₁⟩ := h
  have hlt : n.toNat < lines.length := by omega
  rw [lineFor, entryAt?, if_pos h₀, lineOf, if_neg (by omega), List.getElem?_eq_getElem hlt]
  rfl

/-- What a newline puts in at a place: the break and the blanks that its line begins with, up to there. -/
def brokenLine (lines : List Text) (p : Position) : Text :=
  '\n' :: (leadingBlanks (lineOf lines p.line)).take p.column.toNat

theorem planNewline_eq (h : WellFormed lines) {p : Position} (hp : InBounds lines p) :
    planNewline lines p = .ok ⟨.insert p (brokenLine lines p), p.advance (brokenLine lines p)⟩ := by
  obtain ⟨hline, hcol, -⟩ := hp
  have hcut : upTo (leadingBlanks (lineOf lines p.line)) p.column =
      (leadingBlanks (lineOf lines p.line)).take p.column.toNat := by
    rw [upTo, cutAt, if_neg (by omega), ← List.take_eq_take_min]
  have hno : '\n' ∉ (leadingBlanks (lineOf lines p.line)).take p.column.toNat := by
    intro hmem
    exact h.lineOf p.line (mem_of_mem_leadingBlanks (List.mem_of_mem_take hmem))
  rw [planNewline, lineFor_of_hasLine hline]
  simp only [Except.map, hcut, brokenLine, Position.advance_eq, splitLines, splitOn, if_true,
    splitOn_of_not_mem hno]
  simp
  omega

/-! ### Committing a plan -/

variable {e e' : Editor}

/-- The selections of the editor are carets at the given places, which lie in the document and differ. -/
structure CursorsAt (e : Editor) (cs : List Position) : Prop where
  selections : e.selections = cs.map Selection.caret
  ne_nil : cs ≠ []
  nodup : cs.Nodup
  inBounds : ∀ c ∈ cs, InBounds e.lines c

theorem CursorsAt.inBounds_active {cs : List Position} (hcs : CursorsAt e cs) :
    ∀ s ∈ e.selections, InBounds e.lines s.active := by
  intro s hs
  rw [hcs.selections] at hs
  obtain ⟨c, hc, rfl⟩ := List.mem_map.1 hs
  exact hcs.inBounds c hc

theorem CursorsAt.congr {cs : List Position} (h : CursorsAt e cs) (hlines : e'.lines = e.lines)
    (hselections : e'.selections = e.selections) : CursorsAt e' cs :=
  ⟨hselections.trans h.selections, h.ne_nil, h.nodup, fun c hc => hlines ▸ h.inBounds c hc⟩

/-- A text put in at the active end of every selection, and the cursor behind it. -/
def insertions (e : Editor) (text : Position → Text) : List (Position × PlannedEdit) :=
  e.selections.map fun s => (s.active, ⟨.insert s.active (text s.active), s.active.advance (text s.active)⟩)

private theorem CursorsAt.insertions_eq {cs : List Position} (hcs : CursorsAt e cs) (text : Position → Text) :
    e.insertions text = cs.map fun c => (c, ⟨.insert c (text c), c.advance (text c)⟩) := by
  rw [insertions, hcs.selections, List.map_map]
  rfl

theorem batchFits_insertions (hin : ∀ s ∈ e.selections, InBounds e.lines s.active) (text : Position → Text) :
    BatchFits e.lines ((e.insertions text).map fun c => c.2.edit) := by
  have hcs : ∀ c ∈ e.selections.map Selection.active, InBounds e.lines c := by
    intro c hc
    obtain ⟨s, hs, rfl⟩ := List.mem_map.1 hc
    exact hin s hs
  have hfit := batchFits_inserts hcs text
  rw [List.map_map] at hfit
  rw [insertions, List.map_map]
  exact hfit

theorem typeText_eq_commit (t : Text) : e.typeText t = e.commit (e.insertions fun _ => t) [] := by
  have hplan : (e.selections.map fun s => (s.active, planInsert t s.active)) = e.insertions fun _ => t :=
    List.map_congr_left fun s _ => by rw [planInsert_eq]
  rw [typeText, hplan]

theorem newline_eq_commit (h : WellFormed e.lines) (hin : ∀ s ∈ e.selections, InBounds e.lines s.active) :
    e.newline = e.commit (e.insertions (brokenLine e.lines)) [] := by
  have hplan : (e.selections.mapM fun s => (planNewline e.lines s.active).map fun p => (s.active, p)) =
      .ok (e.insertions (brokenLine e.lines)) := by
    refine mapM_eq_ok fun s hs => ?_
    rw [planNewline_eq h (hin s hs)]
    rfl
  rw [newline, hplan]

/-! ### Putting in texts -/

/-- Every cursor has put its text in.  The cursors keep their order, and each of them is further in the flat text by
what was put in up to it. -/
structure Inserted (e e' : Editor) (cs : List Position) (text : Position → Text) : Prop where
  text_eq : IsSplice e.lines (cs.map fun c => .insert c (text c)) e'.document.text
  length_eq : e'.selections.length = cs.length
  carets : ∀ (k : Nat) c, cs[k]? = some c → ∃ q, e'.selections[k]? = some (.caret q) ∧ InBounds e'.lines q ∧
    (offset e'.lines q : Int) = offset e.lines c + insertedUpTo cs text c

/-- Insertions at different places. -/
private theorem plansApart_inserts (h : WellFormed lines) {cs : List Position} (hnodup : cs.Nodup)
    (hin : ∀ c ∈ cs, InBounds lines c) (text : Position → Text) :
    PlansApart lines cs fun c => ⟨.insert c (text c), c.advance (text c)⟩ := by
  refine ⟨batchFits_inserts hin text, ?_, ?_⟩
  · exact (List.map_id cs).symm ▸ hnodup
  · exact fun c hc => PlannedEdit.onOwnText_advance h (Edit.inRange_insert (hin c hc) (text c)) (List.append_nil _).symm

private theorem plannedShift_inserts (h : WellFormed lines) {cs : List Position} (hnodup : cs.Nodup)
    (hin : ∀ c ∈ cs, InBounds lines c) (text : Position → Text) {c : Position} (hc : c ∈ cs) :
    insertedUpTo cs text c =
      plannedShift lines cs (fun c => ⟨.insert c (text c), c.advance (text c)⟩) c := by
  obtain ⟨-, ho⟩ := advance_splice h (Edit.inRange_insert (hin c hc) (text c))
  have hshift : ((cs.filter fun d => decide (d < c)).map fun d => (Edit.insert d (text d)).shift lines) =
      (cs.filter fun d => decide (d < c)).map fun d => ((text d).length : Int) :=
    List.map_congr_left fun d _ => Edit.shift_insert lines d (text d)
  have hplanned : plannedShift lines cs (fun c => ⟨.insert c (text c), c.advance (text c)⟩) c =
      offset (splice (.insert c (text c)) lines) (c.advance (text c)) - offset lines c +
        total ((cs.filter fun d => decide (d < c)).map fun d => (Edit.insert d (text d)).shift lines) := rfl
  rw [hplanned, hshift, insertedUpTo_eq hnodup hc]
  simp only [Edit.insert] at ho ⊢
  omega

/-- A keystroke for which every cursor plans to put in a text and to go behind it. -/
theorem commit_inserts_images (h : WellFormed e.lines) {cs : List Position} (hcs : CursorsAt e cs)
    (text : Position → Text) :
    ∃ e' laid, e.commit (e.insertions text) [] = .ok e' ∧ LaidOut (cs.map fun c => .insert c (text c)) laid ∧
      e'.lines = spliceAll laid e.lines ∧ Images e e' cs (insertedUpTo cs text) := by
  obtain ⟨e', laid, hcommit, hlaid, hlines, himages⟩ := commit_images h hcs.ne_nil
    (plansApart_inserts h hcs.nodup hcs.inBounds text)
    (fun p hp => absurd hp List.not_mem_nil) (fun c hc => plannedShift_inserts h hcs.nodup hcs.inBounds text hc)
    (fun p hp => absurd hp List.not_mem_nil)
  rw [List.append_nil] at himages
  rw [hcs.insertions_eq]
  exact ⟨e', laid, hcommit, hlaid, hlines, himages⟩

/-- Cursors that put in a text each stay apart. -/
theorem nodup_images {cs : List Position} (hcs : CursorsAt e cs) (text : Position → Text) {images : List Position}
    (himages : List.Forall₂ (fun c q => InBounds e'.lines q ∧
      (offset e'.lines q : Int) = offset e.lines c + insertedUpTo cs text c) cs images) : images.Nodup := by
  obtain ⟨hlen, hget⟩ := List.forall₂_iff_get.1 himages
  refine List.pairwise_iff_getElem.2 fun i j hi hj hij heq => ?_
  have hoi := (hget i (hlen ▸ hi) hi).2
  have hoj := (hget j (hlen ▸ hj) hj).2
  simp only [List.get_eq_getElem, heq] at hoi hoj
  -- cursors at one place would have one offset
  have hne := List.pairwise_iff_getElem.1 hcs.nodup i j (hlen ▸ hi) (hlen ▸ hj) hij
  have hci := hcs.inBounds _ (List.getElem_mem (hlen ▸ hi))
  have hcj := hcs.inBounds _ (List.getElem_mem (hlen ▸ hj))
  by_cases hlt : cs[i] < cs[j]
  · have := offset_add_insertedUpTo_lt cs text hci hcj hlt
    omega
  · by_cases hgt : cs[j] < cs[i]
    · have := offset_add_insertedUpTo_lt cs text hcj hci hgt
      omega
    · exact hne (Position.le_antisymm (Position.not_lt.1 hgt) (Position.not_lt.1 hlt))

private theorem commit_inserts (h : WellFormed e.lines) {cs : List Position} (hcs : CursorsAt e cs)
    (text : Position → Text) :
    ∃ e', e.commit (e.insertions text) [] = .ok e' ∧ Inserted e e' cs text := by
  obtain ⟨e', laid, hcommit, hlaid, hlines, images, himages, hsel⟩ := commit_inserts_images h hcs text
  rw [eraseDups_of_nodup (nodup_images hcs text himages)] at hsel
  obtain ⟨hlen, hget⟩ := List.forall₂_iff_get.1 himages
  have hr := ((batchFits_inserts hcs.inBounds text).perm hlaid.perm.symm).inRange
  refine ⟨e', hcommit, ⟨laid, hlaid, ?_⟩, ?_, ?_⟩
  · rw [← (joinLines_spliceAll h hr hlaid.inOrder).1, ← hlines]
    rfl
  · rw [hsel, List.length_map, hlen]
  · intro k c hc
    obtain ⟨hk, rfl⟩ := List.getElem?_eq_some_iff.1 hc
    obtain ⟨hb, ho⟩ := hget k hk (hlen ▸ hk)
    refine ⟨_, ?_, hb, ho⟩
    rw [hsel, List.getElem?_map, List.getElem?_eq_getElem (hlen ▸ hk)]
    rfl

/-- Typing a text and starting a new line put in, at every cursor, this text or the line break with the indentation in
front of the cursor. -/
theorem typeText_newline_inserted (h : WellFormed e.lines) {cs : List Position} (hcs : CursorsAt e cs) :
    (∀ t, ∃ e', e.typeText t = .ok e' ∧ Inserted e e' cs fun _ => t) ∧
      ∃ e', e.newline = .ok e' ∧ Inserted e e' cs (brokenLine e.lines) := by
  constructor
  · intro t
    rw [typeText_eq_commit]
    exact commit_inserts h hcs fun _ => t
  · rw [newline_eq_commit h hcs.inBounds_active]
    exact commit_inserts h hcs (brokenLine e.lines)

/-- Two cursors on one line and one on an indented line below, which is the primary one. -/
def threeCursors : Editor :=
  (ofDocument (.ofText "ab\n  c".toList "doc" "plaintext".toList) {} {}).setSelections
    [.caret ⟨1, 3⟩, .caret ⟨0, 1⟩, .caret ⟨0, 2⟩]

theorem typeText_newline_inserted_threeCursors :
    WellFormed threeCursors.lines ∧ CursorsAt threeCursors [⟨1, 3⟩, ⟨0, 1⟩, ⟨0, 2⟩] ∧
      (∃ e', threeCursors.typeText ['x', '\n', 'y'] = .ok e' ∧
        Inserted threeCursors e' [⟨1, 3⟩, ⟨0, 1⟩, ⟨0, 2⟩] fun _ => ['x', '\n', 'y']) ∧
      ∃ e', threeCursors.newline = .ok e' ∧
        Inserted threeCursors e' [⟨1, 3⟩, ⟨0, 1⟩, ⟨0, 2⟩] (brokenLine threeCursors.lines) := by
  have h : WellFormed threeCursors.lines := wellFormed_splitLines _
  have hcs : CursorsAt threeCursors [⟨1, 3⟩, ⟨0, 1⟩, ⟨0, 2⟩] :=
    ⟨by decide +kernel, by decide, by decide, by decide +kernel⟩
  obtain ⟨htype, hnewline⟩ := typeText_newline_inserted h hcs
  exact ⟨h, hcs, htype _, hnewline⟩

end Editor

end MultiCaret
