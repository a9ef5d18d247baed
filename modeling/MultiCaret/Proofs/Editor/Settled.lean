import Mathlib.Data.List.Induction
import MultiCaret.Editor.History
import MultiCaret.Proofs.Document.Batch

/-!
# Settled selections

Whatever selections the editor is given, it keeps some that lie in its lines and differ from one another, and at least
one (`settled_setSelections`).  Selections that are so already are kept as they are
(`selections_setSelections_of_settled`); this is why a moment of the history comes back exactly (`snapshot_restore`).
-/

namespace MultiCaret

/-- The selections lie in the lines, differ from one another, and there is at least one. -/
structure Settled (lines : List Text) (ss : List Selection) : Prop where
  ne_nil : ss ≠ []
  nodup : ss.Nodup
  inBounds : ∀ s ∈ ss, InBounds lines s.anchor ∧ InBounds lines s.active

/-- The lines of the moment are those of a text, and its selections are settled in them. -/
structure Snapshot.Sound (s : Snapshot) : Prop where
  wellFormed : WellFormed s.lines
  settled : Settled s.lines s.selections

/-- All selections of the moment are carets. -/
def Snapshot.OnlyCarets (s : Snapshot) : Prop :=
  ∀ sel ∈ s.selections, sel.isEmpty = true

/-! ### Settling -/

private theorem inBounds_clampTo {lines : List Text} (h : lines ≠ []) (p : Position) :
    InBounds lines (clampTo lines p) := by
  have hlen : 0 < lines.length := List.length_pos_iff.2 h
  refine ⟨⟨?_, ?_⟩, ?_, ?_⟩ <;> simp only [clampTo] <;> omega

private theorem clampTo_of_inBounds {lines : List Text} {p : Position} (h : InBounds lines p) :
    clampTo lines p = p := by
  obtain ⟨⟨h₀, h₁⟩, h₂, h₃⟩ := h
  have hline : max 0 (min p.line (lines.length - 1)) = p.line := by omega
  simp only [clampTo, hline]
  rw [Position.eq_iff]
  refine ⟨rfl, ?_⟩
  simp only
  omega

private theorem eraseDups_concat {α : Type} [DecidableEq α] (l : List α) (a : α) :
    (l ++ [a]).eraseDups = if a ∈ l then l.eraseDups else l.eraseDups ++ [a] := by
  rw [List.eraseDups_append]
  split
  · next h => simp [List.removeAll, h]
  · next h => simp [List.removeAll, List.eraseDups_cons, h]

theorem nodup_eraseDups {α : Type} [DecidableEq α] (l : List α) : l.eraseDups.Nodup := by
  induction l using List.reverseRecOn with
  | nil => simp
  | append_singleton l a ih =>
    rw [eraseDups_concat]
    split
    · exact ih
    · next ha =>
      rw [List.nodup_append]
      refine ⟨ih, by simp, ?_⟩
      intro b hb c hc hbc
      rw [List.mem_singleton.1 hc] at hbc
      rw [hbc, List.mem_eraseDups] at hb
      exact ha hb

theorem eraseDups_of_nodup {α : Type} [DecidableEq α] {l : List α} (h : l.Nodup) : l.eraseDups = l := by
  induction l with
  | nil => rfl
  | cons a l ih =>
    obtain ⟨ha, hl⟩ := List.nodup_cons.1 h
    have hfilter : l.filter (fun b => !b == a) = l := by
      rw [List.filter_eq_self]
      intro b hb
      simpa using fun he : b = a => ha (he ▸ hb)
    rw [List.eraseDups_cons, hfilter, ih hl]

/-- Leaving out repetitions goes together with a map that keeps the different elements of the list apart. -/
theorem eraseDups_map {α β : Type} [DecidableEq α] [DecidableEq β] {f : α → β} {l : List α}
    (hf : ∀ a ∈ l, ∀ b ∈ l, f a = f b → a = b) : (l.map f).eraseDups = l.eraseDups.map f := by
  induction l using List.reverseRecOn with
  | nil => simp
  | append_singleton l a ih =>
    have hmem : f a ∈ l.map f ↔ a ∈ l := by
      rw [List.mem_map]
      constructor
      · rintro ⟨b, hb, hba⟩
        rwa [← hf b (by simp [hb]) a (by simp) hba]
      · intro ha
        exact ⟨a, ha, rfl⟩
    have ih' := ih fun b hb c hc => hf b (by simp [hb]) c (by simp [hc])
    rw [List.map_append, List.map_singleton, eraseDups_concat, eraseDups_concat, ih']
    by_cases ha : a ∈ l
    · rw [if_pos ha, if_pos (hmem.2 ha)]
    · rw [if_neg ha, if_neg (fun h => ha (hmem.1 h)), List.map_append, List.map_singleton]

/-- Repetitions that are left out behind a map may be left out in front of it as well. -/
theorem eraseDups_map_eraseDups {α β : Type} [DecidableEq α] [DecidableEq β] (f : α → β) (l : List α) :
    (l.eraseDups.map f).eraseDups = (l.map f).eraseDups := by
  induction l using List.reverseRecOn with
  | nil => simp
  | append_singleton l a ih =>
    rw [List.map_append, List.map_singleton, eraseDups_concat, eraseDups_concat (l.map f)]
    by_cases ha : a ∈ l
    · rw [if_pos ha, if_pos (List.mem_map_of_mem ha), ih]
    · have hmem : f a ∈ l.eraseDups.map f ↔ f a ∈ l.map f := by simp
      rw [if_neg ha, List.map_append, List.map_singleton, eraseDups_concat, ih]
      simp only [hmem]

/-- Selections in the lines are only freed of repetitions. -/
private theorem settle_of_inBounds {lines : List Text} {ss : List Selection}
    (h : ∀ s ∈ ss, InBounds lines s.anchor ∧ InBounds lines s.active) : settle lines ss = ss.eraseDups := by
  have hmap : (ss.map fun s => (⟨clampTo lines s.anchor, clampTo lines s.active⟩ : Selection)) = ss := by
    refine (List.map_congr_left ?_).trans (List.map_id ss)
    intro s hs
    obtain ⟨ha, hb⟩ := h s hs
    rw [clampTo_of_inBounds ha, clampTo_of_inBounds hb]
    rfl
  rw [settle, hmap]

private theorem settle_of_settled {lines : List Text} {ss : List Selection} (h : Settled lines ss) :
    settle lines ss = ss := by
  rw [settle_of_inBounds h.inBounds, eraseDups_of_nodup h.nodup]

theorem settled_caret_origin {lines : List Text} (h : WellFormed lines) : Settled lines [.caret origin] := by
  refine ⟨by simp, by simp, ?_⟩
  intro s hs
  rw [List.mem_singleton.1 hs]
  exact ⟨h.inBounds_origin, h.inBounds_origin⟩

namespace Editor

variable {e : Editor}

/-! ### What the primitive steps leave alone -/

@[simp] theorem lines_setSelections (ss : List Selection) : (e.setSelections ss).lines = e.lines := rfl

@[simp] theorem undoStack_setSelections (ss : List Selection) : (e.setSelections ss).undoStack = e.undoStack := rfl

@[simp] theorem redoStack_setSelections (ss : List Selection) : (e.setSelections ss).redoStack = e.redoStack := rfl

@[simp] theorem scrollTop_setSelections (ss : List Selection) : (e.setSelections ss).scrollTop = e.scrollTop := rfl

/-- Revealing a position changes nothing but the first line of the window, and does not move it above the position. -/
theorem reveal_eq (e : Editor) (p : Position) :
    ∃ k, e.reveal p = { e with scrollTop := k } ∧ (0 ≤ e.scrollTop → 0 ≤ p.line → 0 ≤ k) := by
  unfold reveal
  split
  · exact ⟨_, rfl, fun _ h => h⟩
  · split
    · exact ⟨_, rfl, by omega⟩
    · exact ⟨_, rfl, fun h _ => h⟩

theorem updateDocument_eq (e : Editor) (d : Document) :
    ∃ t, e.updateDocument d = { e with document := d, tracker := t } := by
  unfold updateDocument
  split
  · exact ⟨_, rfl⟩
  · exact ⟨_, rfl⟩

/-! ### Setting selections -/

/-- Whatever the editor is given, its selections are settled. -/
theorem settled_setSelections (h : WellFormed e.lines) (ss : List Selection) :
    Settled e.lines (e.setSelections ss).selections := by
  have hset : ∀ s ∈ settle e.lines ss, InBounds e.lines s.anchor ∧ InBounds e.lines s.active := by
    intro s hs
    rw [settle, List.mem_eraseDups] at hs
    obtain ⟨s', -, rfl⟩ := List.mem_map.1 hs
    exact ⟨inBounds_clampTo h.ne_nil _, inBounds_clampTo h.ne_nil _⟩
  have hnodup : (settle e.lines ss).Nodup := nodup_eraseDups _
  simp only [setSelections]
  split
  · exact settled_caret_origin h
  · next s rest heq =>
    rw [heq] at hset hnodup
    exact ⟨by simp, hnodup, hset⟩

theorem selections_setSelections_of_inBounds {ss : List Selection} (hne : ss ≠ [])
    (h : ∀ s ∈ ss, InBounds e.lines s.anchor ∧ InBounds e.lines s.active) :
    (e.setSelections ss).selections = ss.eraseDups := by
  obtain ⟨s, rest, rfl⟩ := List.exists_cons_of_ne_nil hne
  simp only [setSelections, settle_of_inBounds h, List.eraseDups_cons]

theorem selections_setSelections_of_settled {ss : List Selection} (h : Settled e.lines ss) :
    (e.setSelections ss).selections = ss := by
  obtain ⟨s, rest, rfl⟩ := List.exists_cons_of_ne_nil h.ne_nil
  simp only [setSelections, settle_of_settled h]

/-- Carets stay carets. -/
theorem onlyCarets_setSelections {ss : List Selection} (h : ∀ s ∈ ss, s.isEmpty = true) :
    (e.setSelections ss).snapshot.OnlyCarets := by
  intro sel hsel
  simp only [snapshot, setSelections] at hsel
  split at hsel
  · rw [List.mem_singleton.1 hsel]
    exact Selection.isEmpty_caret origin
  · next s rest heq =>
    rw [← heq, settle, List.mem_eraseDups] at hsel
    obtain ⟨s', hs', rfl⟩ := List.mem_map.1 hsel
    rw [Selection.isEmpty_iff.1 (h s' hs')]
    exact Selection.isEmpty_caret _

theorem sound_setSelections (h : WellFormed e.lines) (ss : List Selection) : (e.setSelections ss).snapshot.Sound :=
  ⟨h, settled_setSelections h ss⟩

theorem lines_restore (e : Editor) (s : Snapshot) (h : WellFormed s.lines) : (e.restore s).lines = s.lines := by
  obtain ⟨t, ht⟩ := e.updateDocument_eq (e.document.setText (joinLines s.lines))
  rw [restore, lines_setSelections, setText, ht]
  exact h.splitLines_joinLines

/-- Going back to a sound moment brings it back exactly. -/
theorem snapshot_restore (e : Editor) {s : Snapshot} (h : s.Sound) : (e.restore s).snapshot = s := by
  have hlines := e.lines_restore s h.wellFormed
  have hsel : (e.restore s).selections = s.selections := by
    refine selections_setSelections_of_settled ?_
    rw [restore, lines_setSelections] at hlines
    rw [hlines]
    exact h.settled
  rw [snapshot, hlines, hsel]

theorem stacks_restore (e : Editor) (s : Snapshot) :
    (e.restore s).undoStack = e.undoStack ∧ (e.restore s).redoStack = e.redoStack := by
  obtain ⟨t, ht⟩ := e.updateDocument_eq (e.document.setText (joinLines s.lines))
  rw [restore, undoStack_setSelections, redoStack_setSelections, setText, ht]
  exact ⟨rfl, rfl⟩

end Editor

end MultiCaret
