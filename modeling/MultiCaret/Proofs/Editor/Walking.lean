import Mathlib.Logic.Function.Iterate
import Mathlib.Tactic.Choose
import MultiCaret.Proofs.Editor.Deleting
import MultiCaret.Proofs.Editor.Session

/-!
# Walking through the text

Left and right are one character back and one character on in the flat text, through the ends of lines and past empty
lines, and both stop at the ends of the text (`leftOf_spec`, `rightOf_spec`).  So a key that moves the cursors acts on
their offsets (`Editor.Walked`): every caret goes by itself, and of those that meet only the first one is kept.  Such
steps compose, and when no caret comes to an end of the text on the way they can be taken back
(`Editor.arrowKeys_offsets`).
-/

namespace MultiCaret

variable {lines : List Text} {p : Position}

/-- Behind the last line the flat text is over. -/
private theorem offset_end {n : Nat} {l : Text} (hl : lines[n]? = some l) (hlast : lines.length ≤ n + 1) :
    lineOffset lines n + l.length = (joinLines lines).length := by
  have hle := offset_le hl (Nat.le_refl l.length)
  have hdrop := congrArg List.length (joinLines_split_at hl (Nat.le_refl l.length)).2
  rw [List.drop_eq_nil_of_le hlast, List.drop_length, List.length_drop] at hdrop
  simp only [joinWith, List.length_nil] at hdrop
  omega

/-- Places are told apart by their offsets. -/
private theorem map_offset_inj {ps qs : List Position} (hp : ∀ p ∈ ps, InBounds lines p)
    (hq : ∀ q ∈ qs, InBounds lines q) (h : ps.map (offset lines) = qs.map (offset lines)) : ps = qs := by
  induction ps generalizing qs with
  | nil => exact (List.map_eq_nil_iff.1 h.symm).symm
  | cons p ps ih =>
    cases qs with
    | nil => simp at h
    | cons q qs =>
      simp only [List.map_cons, List.cons.injEq] at h
      obtain rfl := (offset_inj (hp p List.mem_cons_self) (hq q List.mem_cons_self)).1 h.1
      rw [ih (fun p hp' => hp p (List.mem_cons_of_mem _ hp')) (fun q hq' => hq q (List.mem_cons_of_mem _ hq')) h.2]

namespace Editor

theorem leftOf_spec (hp : InBounds lines p) :
    ∃ q, leftOf lines p = .ok q ∧ InBounds lines q ∧ offset lines q = offset lines p - 1 := by
  rw [leftOf, placeBefore?_eq hp]
  by_cases h : p = origin
  · rw [if_pos h]
    refine ⟨p, rfl, hp, ?_⟩
    rw [h]
    rfl
  · obtain ⟨hb, ho⟩ := placeBefore_spec hp h
    rw [if_neg h]
    exact ⟨placeBefore lines p, rfl, hb, by omega⟩

theorem rightOf_spec (hp : InBounds lines p) :
    ∃ q, rightOf lines p = .ok q ∧ InBounds lines q ∧
      offset lines q = min (joinLines lines).length (offset lines p + 1) := by
  have hline := lineFor_of_hasLine hp.1
  obtain ⟨n, k, l, rfl, hl, hk⟩ := inBounds_iff.1 hp
  have hlineOf : lineOf lines n = l := by
    rw [lineOf, if_neg (by omega), Int.toNat_natCast, hl]
    rfl
  have hle := offset_le hl (Nat.le_refl l.length)
  simp only [hlineOf] at hline
  rw [rightOf, hline]
  simp only [Except.map]
  -- within the line, at the end of a line that is not the last one, and at the end of the text
  by_cases hcolumn : k < l.length
  · rw [if_pos (by omega)]
    refine ⟨_, rfl, inBounds_iff.2 ⟨n, k + 1, l, rfl, hl, hcolumn⟩, ?_⟩
    have hnext : (⟨n, (k : Int) + 1⟩ : Position) = ⟨n, (k + 1 : Nat)⟩ := rfl
    rw [hnext, offset_mk, offset_mk]
    omega
  · obtain rfl : k = l.length := by omega
    rw [if_neg (by omega)]
    by_cases hbelow : n + 1 < lines.length
    · rw [if_pos (by omega)]
      have hl' := List.getElem?_eq_getElem hbelow
      refine ⟨_, rfl, inBounds_iff.2 ⟨n + 1, 0, _, rfl, hl', Nat.zero_le _⟩, ?_⟩
      have hnext : (⟨(n : Int) + 1, 0⟩ : Position) = ⟨(n + 1 : Nat), (0 : Nat)⟩ := rfl
      have hle' := offset_le hl' (Nat.zero_le _)
      rw [lineOffset_succ_of_getElem? hl] at hle'
      rw [hnext, offset_mk, offset_mk, lineOffset_succ_of_getElem? hl]
      omega
    · rw [if_neg (by omega)]
      refine ⟨_, rfl, hp, ?_⟩
      have hend := offset_end hl (by omega)
      rw [offset_mk]
      omega

/-! ### One key -/

variable {e e' e'' : Editor} {cs : List Position} {f g : Nat → Nat}

/-- The offsets of the cursors in the flat text, in their order. -/
def cursorOffsets (e : Editor) : List Nat :=
  e.selections.map fun s => offset e.lines s.active

private theorem CursorsAt.cursorOffsets (hcs : CursorsAt e cs) : e.cursorOffsets = cs.map (offset e.lines) := by
  rw [Editor.cursorOffsets, hcs.selections, List.map_map]
  rfl

/-- The cursors have gone to other places of the same text.  They are carets now, and `f` takes the offsets of the old
ones to the new ones, in their order; of equal ones only the first is kept. -/
structure Walked (f : Nat → Nat) (e e' : Editor) : Prop where
  lines : e'.lines = e.lines
  carets : ∃ cs, CursorsAt e' cs
  offsets : e'.cursorOffsets = (e.cursorOffsets.map f).eraseDups

/-- Carets that are set in the lines are kept, but for repetitions. -/
private theorem walked_setSelections {target : Position → Position} (hcs : CursorsAt e cs)
    (htarget : ∀ c ∈ cs, InBounds e.lines (target c) ∧ offset e.lines (target c) = f (offset e.lines c)) :
    Walked f e (e.setSelections ((cs.map target).map Selection.caret)).revealCursor := by
  have hin : ∀ q ∈ cs.map target, InBounds e.lines q := by
    intro q hq
    obtain ⟨c, hc, rfl⟩ := List.mem_map.1 hq
    exact (htarget c hc).1
  have hne : cs.map target ≠ [] := by
    intro hnil
    exact hcs.ne_nil (List.map_eq_nil_iff.1 hnil)
  have hselections : (e.setSelections ((cs.map target).map Selection.caret)).selections =
      (cs.map target).eraseDups.map Selection.caret := by
    rw [selections_setSelections_of_inBounds, eraseDups_map fun _ _ _ _ => Selection.caret_inj]
    · intro hnil
      exact hne (List.map_eq_nil_iff.1 hnil)
    · intro s hs
      obtain ⟨q, hq, rfl⟩ := List.mem_map.1 hs
      exact ⟨hin q hq, hin q hq⟩
  obtain ⟨k, hk, -⟩ := reveal_eq (e.setSelections ((cs.map target).map Selection.caret))
    (e.setSelections ((cs.map target).map Selection.caret)).cursor
  have hcarets : CursorsAt (e.setSelections ((cs.map target).map Selection.caret)).revealCursor
      (cs.map target).eraseDups := by
    rw [revealCursor, hk]
    refine ⟨hselections, ?_, nodup_eraseDups _, ?_⟩
    · intro hnil
      obtain ⟨q, rest, hq⟩ := List.exists_cons_of_ne_nil hne
      rw [hq, List.eraseDups_cons] at hnil
      exact List.cons_ne_nil _ _ hnil
    · intro q hq
      exact hin q (List.mem_eraseDups.1 hq)
  have hlines : (e.setSelections ((cs.map target).map Selection.caret)).revealCursor.lines = e.lines := by
    rw [revealCursor, hk]
    rfl
  refine ⟨hlines, ⟨_, hcarets⟩, ?_⟩
  -- places are apart exactly if their offsets are
  have hinj : ∀ p ∈ cs.map target, ∀ q ∈ cs.map target, offset e.lines p = offset e.lines q → p = q := by
    intro p hp q hq
    exact (offset_inj (hin p hp) (hin q hq)).1
  have hoffsets : (cs.map target).map (offset e.lines) = (cs.map (offset e.lines)).map f := by
    rw [List.map_map, List.map_map]
    refine List.map_congr_left ?_
    intro c hc
    exact (htarget c hc).2
  rw [hcarets.cursorOffsets, hcs.cursorOffsets, hlines, ← eraseDups_map hinj, hoffsets]

/-- A key that moves each cursor as `f` moves its offset. -/
private theorem moveCursors_walked {move : Position → Except EditorFault Position} (hcs : CursorsAt e cs)
    (hmove : ∀ p, InBounds e.lines p →
      ∃ q, move p = .ok q ∧ InBounds e.lines q ∧ offset e.lines q = f (offset e.lines p)) :
    ∃ e', e.moveCursors move = .ok e' ∧ Walked f e e' := by
  have hex : ∀ p, ∃ q, InBounds e.lines p →
      move p = .ok q ∧ InBounds e.lines q ∧ offset e.lines q = f (offset e.lines p) := by
    intro p
    by_cases hp : InBounds e.lines p
    · obtain ⟨q, hq⟩ := hmove p hp
      exact ⟨q, fun _ => hq⟩
    · exact ⟨p, fun h => absurd h hp⟩
  choose target htarget using hex
  have hcarets : (e.selections.mapM fun s => (move s.active).map Selection.caret) =
      .ok (e.selections.map fun s => .caret (target s.active)) := by
    refine mapM_eq_ok ?_
    intro s hs
    rw [(htarget s.active (hcs.inBounds_active s hs)).1]
    rfl
  have hselections : (e.selections.map fun s => Selection.caret (target s.active)) =
      (cs.map target).map Selection.caret := by
    rw [hcs.selections, List.map_map, List.map_map]
    rfl
  rw [moveCursors, hcarets, hselections]
  refine ⟨_, rfl, walked_setSelections hcs ?_⟩
  intro c hc
  exact (htarget c (hcs.inBounds c hc)).2

/-- A key that does nothing else than move the cursors, and quiet the status bar. -/
private theorem handleKey_walked {key : String} {char : Text} {move : Position → Except EditorFault Position}
    (hcs : CursorsAt e cs)
    (hkey : e.handleKey key char =
      .orUnchanged { e with status := .quiet } (({ e with status := .quiet } : Editor).moveCursors move))
    (hmove : ∀ p, InBounds e.lines p →
      ∃ q, move p = .ok q ∧ InBounds e.lines q ∧ offset e.lines q = f (offset e.lines p)) :
    (e.handleKey key char).fault = none ∧ Walked f e (e.handleKey key char).editor := by
  have hquiet : CursorsAt { e with status := .quiet } cs := hcs.congr rfl rfl
  obtain ⟨e', he', hwalked⟩ := moveCursors_walked hquiet hmove
  rw [hkey, he']
  exact ⟨rfl, hwalked.lines, hwalked.carets, hwalked.offsets⟩

private theorem handleKey_right_walked (hcs : CursorsAt e cs) (char : Text) :
    (e.handleKey "right" char).fault = none ∧
      Walked (fun o => min (joinLines e.lines).length (o + 1)) e (e.handleKey "right" char).editor :=
  handleKey_walked (f := fun o => min (joinLines e.lines).length (o + 1)) hcs rfl fun _ hp => rightOf_spec hp

private theorem handleKey_left_walked (hcs : CursorsAt e cs) (char : Text) :
    (e.handleKey "left" char).fault = none ∧ Walked (fun o => o - 1) e (e.handleKey "left" char).editor :=
  handleKey_walked (f := fun o => o - 1) hcs rfl fun _ hp => leftOf_spec hp

/-! ### Many keys -/

private theorem CursorsAt.nodup_cursorOffsets (hcs : CursorsAt e cs) : e.cursorOffsets.Nodup := by
  rw [hcs.cursorOffsets]
  refine List.Nodup.map_on ?_ hcs.nodup
  intro p hp q hq
  exact (offset_inj (hcs.inBounds p hp) (hcs.inBounds q hq)).1

theorem Walked.refl (hcs : CursorsAt e cs) : Walked id e e := by
  refine ⟨rfl, ⟨cs, hcs⟩, ?_⟩
  rw [List.map_id, eraseDups_of_nodup hcs.nodup_cursorOffsets]

/-- One walk after the other.  Carets that have met stay together. -/
theorem Walked.trans (h : Walked f e e') (h' : Walked g e' e'') : Walked (g ∘ f) e e'' := by
  refine ⟨h'.lines.trans h.lines, h'.carets, ?_⟩
  rw [h'.offsets, h.offsets, eraseDups_map_eraseDups, List.map_map]

/-- Carets whose offsets stay the same stay where they are. -/
private theorem Walked.selections_eq (h : Walked f e e') (hcs : CursorsAt e cs) (hf : ∀ o ∈ e.cursorOffsets, f o = o) :
    e'.selections = e.selections := by
  obtain ⟨cs', hcs'⟩ := h.carets
  have hid : e.cursorOffsets.map f = e.cursorOffsets := by
    rw [List.map_congr_left hf, List.map_id']
  have hoffsets : cs'.map (offset e.lines) = cs.map (offset e.lines) := by
    rw [← hcs.cursorOffsets, ← h.lines, ← hcs'.cursorOffsets, h.offsets, hid,
      eraseDups_of_nodup hcs.nodup_cursorOffsets]
  have hin : ∀ c ∈ cs', InBounds e.lines c := by
    intro c hc
    rw [← h.lines]
    exact hcs'.inBounds c hc
  rw [hcs'.selections, hcs.selections, map_offset_inj hin hcs.inBounds hoffsets]

/-- What one step does to the offsets, many of them do as often. -/
private theorem walked_operateAll {op : Operation} (hcs : CursorsAt e cs)
    (hstep : ∀ e' cs', e'.lines = e.lines → CursorsAt e' cs' → Walked f e' (e'.operate op).editor) (k : Nat) :
    Walked f^[k] e (e.operateAll (List.replicate k op)) := by
  induction k generalizing e cs with
  | zero => exact Walked.refl hcs
  | succ k ih =>
    have hone := hstep e cs rfl hcs
    obtain ⟨cs', hcs'⟩ := hone.carets
    refine hone.trans (ih hcs' ?_)
    intro e₂ cs₂ hlines hcs₂
    exact hstep e₂ cs₂ (hlines.trans hone.lines) hcs₂

private theorem iterate_right (n k o : Nat) (h : o ≤ n) : (fun o => min n (o + 1))^[k] o = min n (o + k) := by
  induction k generalizing o with
  | zero =>
    rw [Function.iterate_zero_apply]
    omega
  | succ k ih =>
    rw [Function.iterate_succ_apply, ih _ (by omega)]
    omega

private theorem iterate_left (k o : Nat) : (fun o => o - 1)^[k] o = o - k := by
  induction k generalizing o with
  | zero => rfl
  | succ k ih =>
    rw [Function.iterate_succ_apply, ih]
    omega

/-- The arrow keys move every caret to the next offset of the text, or to the one before, as far as there is one.  In
their order only the first of those that meet is kept.  Steps to the right that come to no end of the text are taken
back by as many steps to the left. -/
theorem arrowKeys_offsets (hcs : CursorsAt e cs) (char : Text) :
    ((e.handleKey "right" char).fault = none ∧
      Walked (fun o => min (joinLines e.lines).length (o + 1)) e (e.handleKey "right" char).editor) ∧
    ((e.handleKey "left" char).fault = none ∧
      Walked (fun o => o - 1) e (e.handleKey "left" char).editor) ∧
    ∀ k, (∀ c ∈ cs, offset e.lines c + k ≤ (joinLines e.lines).length) →
      ((e.operateAll (List.replicate k (.key "right" char))).operateAll
        (List.replicate k (.key "left" char))).selections = e.selections := by
  refine ⟨handleKey_right_walked hcs char, handleKey_left_walked hcs char, ?_⟩
  intro k hk
  have hright : Walked (fun o => min (joinLines e.lines).length (o + 1))^[k] e
      (e.operateAll (List.replicate k (.key "right" char))) := by
    refine walked_operateAll hcs ?_ k
    intro e' cs' hlines hcs'
    rw [← hlines]
    exact (handleKey_right_walked hcs' char).2
  obtain ⟨cs', hcs'⟩ := hright.carets
  have hleft : Walked (fun o => o - 1)^[k] (e.operateAll (List.replicate k (.key "right" char)))
      ((e.operateAll (List.replicate k (.key "right" char))).operateAll (List.replicate k (.key "left" char))) := by
    refine walked_operateAll hcs' ?_ k
    intro e₂ cs₂ _ hcs₂
    exact (handleKey_left_walked hcs₂ char).2
  refine (hright.trans hleft).selections_eq hcs ?_
  intro o ho
  rw [hcs.cursorOffsets] at ho
  obtain ⟨c, hc, rfl⟩ := List.mem_map.1 ho
  have hroom := hk c hc
  rw [Function.comp_apply, iterate_right _ _ _ (hcs.inBounds c hc).offset_le, iterate_left]
  omega

/-- Three lines with an empty one between two others, and three carets in them: at the end of the first line, in the
empty one, and in front of the last character. -/
def acrossLines : Editor :=
  { ofDocument (.ofText ['a', 'b', '\n', '\n', 'c', 'd'] "doc" "plaintext".toList) {} {} with
    selections := [.caret ⟨2, 1⟩, .caret ⟨0, 2⟩, .caret ⟨1, 0⟩] }

/-- One step goes through two line ends and to the end of the text; the second one would keep the first caret there. -/
theorem arrowKeys_offsets_acrossLines :
    CursorsAt acrossLines [⟨2, 1⟩, ⟨0, 2⟩, ⟨1, 0⟩] ∧
      (acrossLines.handleKey "right" []).editor.selections = [.caret ⟨2, 2⟩, .caret ⟨1, 0⟩, .caret ⟨2, 0⟩] ∧
      Walked (fun o => min 6 (o + 1)) acrossLines (acrossLines.handleKey "right" []).editor ∧
      (∀ c ∈ [⟨2, 1⟩, ⟨0, 2⟩, ⟨1, 0⟩], offset acrossLines.lines c + 1 ≤ (joinLines acrossLines.lines).length) ∧
      ((acrossLines.operateAll (List.replicate 1 (.key "right" []))).operateAll
        (List.replicate 1 (.key "left" []))).selections = acrossLines.selections := by
  have hcs : CursorsAt acrossLines [⟨2, 1⟩, ⟨0, 2⟩, ⟨1, 0⟩] :=
    ⟨by decide +kernel, by decide, by decide, by decide +kernel⟩
  have hroom : ∀ c ∈ [⟨2, 1⟩, ⟨0, 2⟩, ⟨1, 0⟩],
      offset acrossLines.lines c + 1 ≤ (joinLines acrossLines.lines).length := by decide +kernel
  obtain ⟨⟨-, hright⟩, -, hback⟩ := arrowKeys_offsets hcs []
  exact ⟨hcs, by decide +kernel, hright, hroom, hback 1 hroom⟩

end Editor

end MultiCaret
