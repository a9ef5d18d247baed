import Mathlib.Data.List.Basic
import MultiCaret.Editor.Screen

/-!
# Pieces of a screen

What pieces show one behind the other, and where the cells of the cursors among them are.  A line that is cut at its
cursors shows its text, with a space behind it for a cursor at its end (`shownText_cutAtCursors`), and has one cell for
every cursor, at the column of the cursor (`cursorSpans_cutAtCursors`).  A screen has the pieces of one row for each row of
the window, in the document or behind its end, and those of the status bar (`Editor.screen_eq`).
-/

namespace MultiCaret

/-- A text without characters that a terminal would act on. -/
def Showable (t : Text) : Prop :=
  ∀ c ∈ t, isTerminalControl c = false

instance (t : Text) : Decidable (Showable t) :=
  decidable_of_iff (t.all (fun c => !isTerminalControl c) = true) (by simp [Showable])

/-- What the pieces show. -/
def shownText (ps : List Piece) : Text :=
  ps.flatMap Piece.shown

/-- The stretches of the pieces that are in reverse. -/
def cursorSpans (start : Nat) (ps : List Piece) : List Span :=
  (pieceSpans start ps).filter fun x => x.style.name == "reverse"

/-- A single cell in reverse. -/
def cellSpan (k : Nat) : Span :=
  ⟨k, k + 1, .cursor⟩

/-! ### Pieces one behind the other -/

theorem Piece.shown_eq {p : Piece} (h : Showable p.text) : p.shown = p.text :=
  List.filter_eq_self.2 fun c hc => by rw [h c hc, Bool.not_false]

theorem shownText_append (ps qs : List Piece) : shownText (ps ++ qs) = shownText ps ++ shownText qs :=
  List.flatMap_append

theorem shownText_cons {p : Piece} (h : Showable p.text) (ps : List Piece) :
    shownText (p :: ps) = p.text ++ shownText ps := by
  rw [shownText, List.flatMap_cons, p.shown_eq h, shownText]

private theorem pieceSpans_append (start : Nat) (ps qs : List Piece) :
    pieceSpans start (ps ++ qs) = pieceSpans start ps ++ pieceSpans (start + (shownText ps).length) qs := by
  induction ps generalizing start with
  | nil => rfl
  | cons p ps ih =>
    have hstop : start + p.shown.length + (shownText ps).length = start + (shownText (p :: ps)).length := by
      rw [shownText, shownText, List.flatMap_cons, List.length_append, Nat.add_assoc]
    simp only [List.cons_append, pieceSpans, ih, hstop]
    split
    · split <;> rfl
    · rfl

theorem cursorSpans_append (start : Nat) (ps qs : List Piece) :
    cursorSpans start (ps ++ qs) = cursorSpans start ps ++ cursorSpans (start + (shownText ps).length) qs := by
  rw [cursorSpans, pieceSpans_append, List.filter_append, cursorSpans, cursorSpans]

/-- A piece that is not in reverse only moves what follows. -/
theorem cursorSpans_cons {p : Piece} (hstyle : p.style ≠ some .cursor) (start : Nat) (ps : List Piece) :
    cursorSpans start (p :: ps) = cursorSpans (start + p.shown.length) ps := by
  have hname : ∀ s : Style, s ≠ .cursor → (s.name == "reverse") = false := by
    intro s hs
    cases s with
    | cursor => exact absurd rfl hs
    | lineNumber | filler | language | cursorCount | place => rfl
  rw [cursorSpans, pieceSpans]
  split
  · next s hs =>
    split
    · rfl
    · rw [List.filter_cons, hname s fun heq => hstyle (heq ▸ hs)]
      rfl
  · rfl

theorem cursorSpans_eq_nil {ps : List Piece} (h : ∀ p ∈ ps, p.style ≠ some .cursor) (start : Nat) :
    cursorSpans start ps = [] := by
  induction ps generalizing start with
  | nil => rfl
  | cons p ps ih =>
    obtain ⟨hp, hps⟩ := List.forall_mem_cons.1 h
    rw [cursorSpans_cons hp, ih hps]

/-- A cell in reverse, and what follows. -/
private theorem cursorSpans_cell {c : Char} (h : Showable [c]) (start : Nat) (ps : List Piece) :
    cursorSpans start (⟨[c], some .cursor⟩ :: ps) = cellSpan start :: cursorSpans (start + 1) ps := by
  have hshown : (⟨[c], some .cursor⟩ : Piece).shown = [c] := Piece.shown_eq h
  rw [cursorSpans, pieceSpans, hshown]
  rfl

/-! ### A line cut at its cursors -/

variable {l : Text} {column : Nat} {cs : List Nat}

private theorem Showable.drop (h : Showable l) (n : Nat) : Showable (l.drop n) :=
  fun c hc => h c (List.mem_of_mem_drop hc)

private theorem Showable.take (h : Showable l) (n : Nat) : Showable (l.take n) :=
  fun c hc => h c (List.mem_of_mem_take hc)

private theorem Showable.getD (h : Showable l) (n : Nat) : Showable [l.getD n ' '] := by
  intro c hc
  rw [List.mem_singleton.1 hc, List.getD_eq_getElem?_getD]
  cases hn : l[n]? with
  | none => rfl
  | some d => exact h d (List.mem_of_getElem? hn)

/-- The columns come in order, none in front of the place reached and none behind the end of the line. -/
structure CursorsOn (l : Text) (column : Nat) (cs : List Nat) : Prop where
  ordered : cs.Pairwise (· < ·)
  inside : ∀ c ∈ cs, column ≤ c ∧ c ≤ l.length

private theorem CursorsOn.tail {c : Nat} (h : CursorsOn l column (c :: cs)) : CursorsOn l (c + 1) cs := by
  obtain ⟨hfirst, hrest⟩ := List.pairwise_cons.1 h.ordered
  exact ⟨hrest, fun d hd => ⟨hfirst d hd, (h.inside d (List.mem_cons_of_mem c hd)).2⟩⟩

theorem shownText_cutAtCursors (hl : Showable l) (h : CursorsOn l column cs) :
    shownText (cutAtCursors l column cs) = l.drop column ++ if l.length ∈ cs then [' '] else [] := by
  induction cs generalizing column with
  | nil =>
    unfold cutAtCursors
    split
    · rw [shownText_cons (hl.drop column)]
      simp [shownText]
    · next hle => simp [shownText, List.drop_eq_nil_of_le (Nat.not_lt.1 hle)]
  | cons c cs ih =>
    obtain ⟨hle, hin⟩ := h.inside c List.mem_cons_self
    have hrun : shownText (if column < c then [⟨(l.take c).drop column, none⟩] else []) = (l.take c).drop column := by
      split
      · rw [shownText_cons ((hl.take c).drop column)]
        simp [shownText]
      · next hge =>
        rw [List.drop_eq_nil_of_le (by rw [List.length_take]; omega)]
        rfl
    rw [cutAtCursors, shownText_append, hrun, shownText_cons (hl.getD c), ih h.tail]
    obtain rfl | hlt := Nat.eq_or_lt_of_le hin
    · -- the cursor at the end is the last one
      have hlast : cs = [] := by
        refine List.eq_nil_iff_forall_not_mem.2 fun d hd => ?_
        have := h.tail.inside d hd
        omega
      rw [hlast, if_pos List.mem_cons_self, if_neg List.not_mem_nil, List.take_length,
        List.drop_eq_nil_of_le (Nat.le_succ l.length), List.getD_eq_getElem?_getD, List.getElem?_length]
      rfl
    · have hmem : l.length ∈ c :: cs ↔ l.length ∈ cs := by
        rw [List.mem_cons, or_iff_right (Nat.ne_of_gt hlt)]
      have hcut : l.drop column = (l.take c).drop column ++ l[c] :: l.drop (c + 1) := by
        rw [← List.drop_eq_getElem_cons hlt]
        conv_lhs => rw [← List.take_append_drop c l]
        rw [List.drop_append_of_le_length (by rw [List.length_take]; omega)]
      rw [List.getD_eq_getElem?_getD, List.getElem?_eq_getElem hlt, Option.getD_some, hcut]
      simp only [hmem, List.append_assoc, List.cons_append, List.nil_append]

/-- The cells in reverse are at the columns of the cursors. -/
theorem cursorSpans_cutAtCursors (hl : Showable l) (h : CursorsOn l column cs) (start : Nat) :
    cursorSpans (start + column) (cutAtCursors l column cs) = cs.map fun c => cellSpan (start + c) := by
  induction cs generalizing column with
  | nil =>
    unfold cutAtCursors
    split
    · exact cursorSpans_eq_nil (by simp) _
    · rfl
  | cons c cs ih =>
    obtain ⟨hle, hin⟩ := h.inside c List.mem_cons_self
    have hrun : ∀ ps, cursorSpans (start + column) ((if column < c then [⟨(l.take c).drop column, none⟩] else []) ++ ps) =
        cursorSpans (start + c) ps := by
      intro ps
      split
      · have hlen : ((l.take c).drop column).length = c - column := by
          rw [List.length_drop, List.length_take, Nat.min_eq_left hin]
        rw [List.singleton_append, cursorSpans_cons (by simp), Piece.shown_eq ((hl.take c).drop column), hlen,
          Nat.add_assoc, Nat.add_sub_cancel' hle]
      · rw [List.nil_append, show column = c by omega]
    rw [cutAtCursors, hrun, cursorSpans_cell (hl.getD c), Nat.add_assoc, ih h.tail, List.map_cons]

/-! ### The pieces of a screen -/

namespace Editor

variable {e : Editor}

/-- The pieces of the row of a line, or of a row behind the end of the document. -/
def rowPieces (e : Editor) (i : Nat) : List Piece :=
  match e.lines[i]? with
  | some l => e.linePieces i l
  | none => [e.fillerPiece]

/-- The rows of lines of the document. -/
private theorem lineRows_eq {k n : Nat} (h : k + n ≤ e.lines.length) :
    e.lineRows n k = .ok ((List.range' k n).flatMap e.rowPieces) := by
  induction n generalizing k with
  | zero => rfl
  | succ n ih =>
    have hlt : k < e.lines.length := by omega
    have hrest := ih (k := k + 1) (by omega)
    rw [Int.natCast_succ] at hrest
    rw [lineRows, entryAt?, if_pos (Int.natCast_nonneg k), Int.toNat_natCast, List.getElem?_eq_getElem hlt]
    simp only [hrest, Except.map, List.range'_succ, List.flatMap_cons, rowPieces, List.getElem?_eq_getElem hlt]

/-- The rows behind the end of the document. -/
private theorem fillerRows_eq {k n : Nat} (h : n ≠ 0 → e.lines.length ≤ k) :
    List.replicate n e.fillerPiece = (List.range' k n).flatMap e.rowPieces := by
  induction n generalizing k with
  | zero => rfl
  | succ n ih =>
    have hle := h (Nat.succ_ne_zero n)
    rw [List.replicate_succ, List.range'_succ, List.flatMap_cons, ih fun _ => Nat.le_succ_of_le hle, rowPieces,
      List.getElem?_eq_none hle]
    rfl

/-- The pieces of the screen: a row of them for each row of the window, and the status bar. -/
def screenPieces (e : Editor) (width : Int) (rows : Nat) : List Piece :=
  (List.range' e.scrollTop.toNat rows).flatMap e.rowPieces ++ e.statusPieces width

theorem screen_eq (htop : 0 ≤ e.scrollTop) (width : Int) (rows : Nat) :
    e.screen width rows = .ok (.ofPieces (e.screenPieces width rows)) := by
  obtain ⟨k, hk⟩ := Int.eq_ofNat_of_zero_le htop
  obtain ⟨n, hn⟩ : ∃ n, n = min rows (e.lines.length - e.scrollTop).toNat := ⟨_, rfl⟩
  have hlines : e.lineRows n e.scrollTop = .ok ((List.range' k n).flatMap e.rowPieces) := by
    rw [hk]
    obtain hfit | rfl : k + n ≤ e.lines.length ∨ n = 0 := by omega
    · exact lineRows_eq hfit
    · rfl
  have hfiller := fillerRows_eq (e := e) (k := k + n) (n := rows - n) (by omega)
  have hrange : List.range' k rows = List.range' k n ++ List.range' (k + n) (rows - n) := by
    rw [List.range'_append_1, Nat.add_sub_cancel' (hn ▸ Nat.min_le_left _ _)]
  have hfirst : e.scrollTop.toNat = k := by rw [hk, Int.toNat_natCast]
  unfold screen
  simp only [← hn, hlines, Except.map, hfiller, screenPieces, hfirst, hrange, List.flatMap_append]

end Editor

end MultiCaret
