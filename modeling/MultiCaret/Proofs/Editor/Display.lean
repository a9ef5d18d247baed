import Mathlib.Data.List.Nodup
import MultiCaret.Proofs.Document.Places
import MultiCaret.Proofs.Editor.Pieces
import MultiCaret.Proofs.Editor.Steady

/-!
# The editor on the screen

A window shows a row for each of the lines from its first one on, filler rows behind the end of the document, and the
status bar in the last row (`shownText_screenPieces`).  In reverse it shows one cell for every cursor on a line of the
window (`cursorSpans_screen`); the offset of a cell adds up the rows above it, so both are followed row by row
(`cursorSpans_rows`).  Drawing scrolls to the primary cursor first, whatever the window showed before
(`Reached.draw_displays`).
-/

namespace MultiCaret

namespace Editor

/-- The text in the row of a line, or of a row behind the end of the document. -/
def rowText (e : Editor) (i : Nat) : Text :=
  match e.lines[i]? with
  | some l => padLeft ' ' (numberWidth e.lines.length) (numeral (i + 1)) ++ ' ' :: l ++
      if (⟨i, l.length⟩ : Position) ∈ e.selections.map Selection.active then [' '] else []
  | none => padLeft ' ' (numberWidth e.lines.length) ['~'] ++ [' ']

/-- The places of the cursors on the lines of a window with the given number of rows, each once. -/
def cursorsIn (e : Editor) (rows : Nat) : List Position :=
  (e.selections.map Selection.active).eraseDups.filter fun p =>
    decide (e.scrollTop ≤ p.line ∧ p.line < e.scrollTop + rows)

/-- The row and the column at which the window shows a place of the document. -/
def onScreen (e : Editor) (p : Position) : Position :=
  ⟨p.line - e.scrollTop, numberWidth e.lines.length + 1 + p.column⟩

/-- The screen of the given height shows what the editor holds: the line of the primary cursor is in the window, every row
but the last shows its line, and the cells in reverse are those of the cursors, each with the character that the cursor
stands on. -/
structure Displays (e : Editor) (height : Nat) (s : Screen) : Prop where
  scrollTop : 0 ≤ e.scrollTop
  inWindow : e.scrollTop ≤ e.cursor.line ∧ e.cursor.line < e.scrollTop + (height - 1 : Nat)
  height_eq : (splitLines s.plain).length = height
  row_eq : ∀ r < height - 1, (splitLines s.plain)[r]? = some (e.rowText (e.scrollTop.toNat + r))
  cursors : (s.spans.filter fun x => x.style.name == "reverse").Perm
    ((e.cursorsIn (height - 1)).map fun p => cellSpan (offset (splitLines s.plain) (e.onScreen p)))
  cell_eq : ∀ p ∈ e.cursorsIn (height - 1), s.plain[offset (splitLines s.plain) (e.onScreen p)]? =
    some ((lineOf e.lines p.line).getD p.column.toNat ' ')

variable {e : Editor}

/-! ### Numbers of lines -/

private theorem isTerminalControl_of_isDigit {c : Char} (h : c.isDigit = true) : isTerminalControl c = false := by
  simp only [isTerminalControl, Bool.or_eq_false_iff, beq_eq_false_iff_ne]
  refine ⟨⟨⟨⟨?_, ?_⟩, ?_⟩, ?_⟩, ?_⟩
  all_goals
    rintro rfl
    cases h

/-- The number of a line does not need more than the width of its column. -/
private theorem length_number {i count : Nat} (h : i < count) :
    (padLeft ' ' (numberWidth count) (numeral (i + 1))).length = numberWidth count := by
  have hle : (numeral ((i : Int) + 1)).length ≤ (numeral count).length := by
    rw [← Int.natCast_succ, numeral_natCast, numeral_natCast]
    exact length_natural_le h
  rw [length_padLeft, numberWidth]
  omega

private theorem showable_number (width : Nat) (n : Int) : Showable (padLeft ' ' width (numeral n) ++ [' ']) := by
  intro c hc
  rw [padLeft, List.append_assoc, List.mem_append, List.mem_append] at hc
  rcases hc with hc | hc | hc
  · rw [List.eq_of_mem_replicate hc]
    rfl
  · rcases isDigit_of_mem_numeral hc with rfl | hc
    · rfl
    · exact isTerminalControl_of_isDigit hc
  · rw [List.mem_singleton.1 hc]
    rfl

private theorem showable_filler (width : Nat) : Showable (padLeft ' ' width ['~'] ++ [' ', '\n']) := by
  intro c hc
  rw [padLeft, List.append_assoc, List.mem_append] at hc
  rcases hc with hc | hc
  · rw [List.eq_of_mem_replicate hc]
    rfl
  · exact (show Showable ['~', ' ', '\n'] by decide) c hc

/-! ### The cursors on a line -/

private theorem mem_cursorColumns (hin : ∀ s ∈ e.selections, InBounds e.lines s.active) {i c : Nat} :
    c ∈ e.cursorColumns i ↔ (⟨i, c⟩ : Position) ∈ e.selections.map Selection.active := by
  simp only [cursorColumns, mem_sortBy, List.mem_eraseDups, List.mem_map, List.mem_filter, beq_iff_eq]
  constructor
  · rintro ⟨s, ⟨hs, hline⟩, hcolumn⟩
    have hpos := (hin s hs).2.1
    refine ⟨s, hs, ?_⟩
    rw [show s.active = ⟨s.active.line, s.active.column⟩ from rfl, hline, Position.mk.injEq]
    omega
  · rintro ⟨s, hs, hactive⟩
    exact ⟨s, ⟨hs, by rw [hactive]⟩, by rw [hactive]; rfl⟩

private theorem cursorColumns_ordered (e : Editor) (i : Nat) : (e.cursorColumns i).Pairwise (· < ·) := by
  have hsorted : (e.cursorColumns i).Pairwise fun a b => decide (a ≤ b) = true :=
    sortBy_pairwise (by simpa using fun a b c => Nat.le_trans) (by simpa using Nat.le_total) _
  have hnodup : (e.cursorColumns i).Nodup := (sortBy_perm _ _).nodup_iff.2 (nodup_eraseDups _)
  refine hsorted.imp₂ (fun a b hle hne => ?_) hnodup
  exact Nat.lt_of_le_of_ne (of_decide_eq_true hle) hne

private theorem cursorsOn_cursorColumns (hin : ∀ s ∈ e.selections, InBounds e.lines s.active) {i : Nat} {l : Text}
    (hl : e.lines[i]? = some l) : CursorsOn l 0 (e.cursorColumns i) := by
  refine ⟨e.cursorColumns_ordered i, fun c hc => ⟨Nat.zero_le c, ?_⟩⟩
  obtain ⟨s, hs, hactive⟩ := List.mem_map.1 ((mem_cursorColumns hin).1 hc)
  obtain ⟨-, -, hle⟩ := hin s hs
  rw [hactive, lineOf, if_neg (by simp), Int.toNat_natCast, hl, Option.getD_some] at hle
  exact Int.ofNat_le.1 hle

private theorem cursorColumns_behind (hin : ∀ s ∈ e.selections, InBounds e.lines s.active) {i : Nat}
    (hi : e.lines.length ≤ i) : e.cursorColumns i = [] := by
  refine List.eq_nil_iff_forall_not_mem.2 fun c hc => ?_
  obtain ⟨s, hs, hactive⟩ := List.mem_map.1 ((mem_cursorColumns hin).1 hc)
  have hline := (hin s hs).1.2
  rw [hactive] at hline
  exact absurd (Int.ofNat_lt.1 hline) (Nat.not_lt.2 hi)

/-! ### Rows -/

private theorem shownText_rowPieces (hlines : ∀ l ∈ e.lines, Showable l)
    (hin : ∀ s ∈ e.selections, InBounds e.lines s.active) (i : Nat) :
    shownText (e.rowPieces i) = e.rowText i ++ ['\n'] := by
  have hbreak : shownText [⟨['\n'], none⟩] = ['\n'] := rfl
  unfold rowPieces rowText
  cases hl : e.lines[i]? with
  | none =>
    simp only [fillerPiece]
    rw [shownText_cons (showable_filler _)]
    simp [shownText]
  | some l =>
    have hshow := hlines l (List.mem_of_getElem? hl)
    simp only [linePieces]
    rw [shownText_cons (showable_number _ _), shownText_append, hbreak,
      shownText_cutAtCursors hshow (cursorsOn_cursorColumns hin hl)]
    simp only [mem_cursorColumns hin, List.drop_zero, List.append_assoc, List.cons_append, List.nil_append]

/-- The cells in reverse of a row are behind the number, at the columns of the cursors. -/
private theorem cursorSpans_rowPieces (hlines : ∀ l ∈ e.lines, Showable l)
    (hin : ∀ s ∈ e.selections, InBounds e.lines s.active) (start i : Nat) :
    cursorSpans start (e.rowPieces i) =
      (e.cursorColumns i).map fun c => cellSpan (start + (numberWidth e.lines.length + 1 + c)) := by
  unfold rowPieces
  cases hl : e.lines[i]? with
  | none =>
    simp only [fillerPiece]
    rw [cursorColumns_behind hin (List.getElem?_eq_none_iff.1 hl), cursorSpans_eq_nil (by simp)]
    rfl
  | some l =>
    have hshow := hlines l (List.mem_of_getElem? hl)
    have hlt : i < e.lines.length := (List.getElem?_eq_some_iff.1 hl).1
    have hbreak : ∀ k, cursorSpans k [⟨['\n'], none⟩] = [] := cursorSpans_eq_nil (by simp)
    simp only [linePieces]
    rw [cursorSpans_cons (by simp), Piece.shown_eq (showable_number _ _), List.length_append, length_number hlt,
      List.length_singleton, cursorSpans_append, hbreak, List.append_nil]
    have hcells := cursorSpans_cutAtCursors hshow (cursorsOn_cursorColumns hin hl)
      (start + (numberWidth e.lines.length + 1))
    rw [Nat.add_zero] at hcells
    rw [hcells]
    simp only [Nat.add_assoc]

/-! ### The screen -/

private theorem newline_not_mem_statusPieces (hlanguage : '\n' ∉ e.document.language) (width : Int) :
    '\n' ∉ shownText (e.statusPieces width) := by
  have hnumeral : ∀ n : Int, ¬ '\n' ∈ numeral n := newline_not_mem_numeral
  have hmessage : '\n' ∉ e.status.text.toList := by
    cases e.status with
    | cursors n =>
      have hdigits : (toString n).toList = numeral n := by
        rw [numeral_natCast]
        exact String.toList_ofList
      simp only [Status.text, String.toList_append, hdigits, List.mem_append, hnumeral, false_or]
      decide
    | quiet | undone | redone | nothingToUndo | nothingToRedo => decide
  have hupper := newline_not_mem_upperCase hlanguage
  intro hmem
  obtain ⟨q, hq, hshown⟩ := List.mem_flatMap.1 hmem
  have htext : '\n' ∈ q.text := (List.mem_filter.1 hshown).1
  simp only [statusPieces, List.mem_cons, List.not_mem_nil, or_false] at hq
  rcases hq with rfl | rfl | rfl | rfl | rfl
  · simp [hupper] at htext
  · simp only at htext
    split at htext
    · simp [hnumeral] at htext
    · cases htext
  · simp [hmessage] at htext
  · exact absurd (List.eq_of_mem_replicate htext) (by decide)
  · simp [hnumeral] at htext

/-- The texts in the rows of a window and the status bar. -/
def screenRows (e : Editor) (width : Int) (rows : Nat) : List Text :=
  (List.range' e.scrollTop.toNat rows).map e.rowText ++ [shownText (e.statusPieces width)]

private theorem newline_not_mem_rowText (hwf : WellFormed e.lines) (i : Nat) : '\n' ∉ e.rowText i := by
  have hpad : ∀ {n : Nat} {t : Text}, '\n' ∉ t → '\n' ∉ padLeft ' ' n t := by
    intro n t ht hmem
    rcases List.mem_append.1 hmem with hmem | hmem
    · cases List.eq_of_mem_replicate hmem
    · exact ht hmem
  unfold rowText
  split
  · next l hl =>
    have hline := hwf.no_newline l (List.mem_of_getElem? hl)
    have hnumber := hpad (n := numberWidth e.lines.length) (newline_not_mem_numeral (i + 1))
    split <;> simp [hline, hnumber]
  · simpa using hpad (n := numberWidth e.lines.length) (t := ['~']) (by decide)

private theorem wellFormed_screenRows (hwf : WellFormed e.lines) (hlanguage : '\n' ∉ e.document.language) (width : Int)
    (rows : Nat) : WellFormed (e.screenRows width rows) := by
  refine ⟨by simp [screenRows], fun l hl => ?_⟩
  rcases List.mem_append.1 hl with hl | hl
  · obtain ⟨i, -, rfl⟩ := List.mem_map.1 hl
    exact newline_not_mem_rowText hwf i
  · rw [List.mem_singleton.1 hl]
    exact newline_not_mem_statusPieces hlanguage width

private theorem getElem?_screenRows (e : Editor) (width : Int) {r rows : Nat} (h : r < rows) :
    (e.screenRows width rows)[r]? = some (e.rowText (e.scrollTop.toNat + r)) := by
  rw [screenRows, List.getElem?_append_left (by simpa using h), List.getElem?_map, List.getElem?_range' h, Nat.one_mul]
  rfl

theorem shownText_screenPieces (hlines : ∀ l ∈ e.lines, Showable l)
    (hin : ∀ s ∈ e.selections, InBounds e.lines s.active) (width : Int) (rows : Nat) :
    shownText (e.screenPieces width rows) = joinLines (e.screenRows width rows) := by
  rw [screenPieces, screenRows, joinLines_concat, shownText_append, List.flatMap_map]
  congr 1
  rw [shownText, List.flatMap_assoc]
  exact List.flatMap_congr fun i _ => shownText_rowPieces hlines hin i

/-- The places of the cursors on the lines of a window, row by row. -/
def cursorsByRow (e : Editor) (rows : Nat) : List Position :=
  (List.range' e.scrollTop.toNat rows).flatMap fun i : Nat =>
    (e.cursorColumns i).map fun c : Nat => (⟨i, c⟩ : Position)

/-- The first rows of a window: how long they are together, and the cells in reverse in them. -/
theorem cursorSpans_rows (htop : 0 ≤ e.scrollTop) (hlines : ∀ l ∈ e.lines, Showable l)
    (hin : ∀ s ∈ e.selections, InBounds e.lines s.active) (width : Int) {rows n : Nat} (hn : n ≤ rows) :
    (shownText ((List.range' e.scrollTop.toNat n).flatMap e.rowPieces)).length =
        lineOffset (e.screenRows width rows) n ∧
      cursorSpans 0 ((List.range' e.scrollTop.toNat n).flatMap e.rowPieces) =
        (e.cursorsByRow n).map fun p => cellSpan (offset (e.screenRows width rows) (e.onScreen p)) := by
  induction n with
  | zero => exact ⟨rfl, rfl⟩
  | succ n ih =>
    obtain ⟨hlen, hspans⟩ := ih (Nat.le_of_succ_le hn)
    have hoffset := lineOffset_succ_of_getElem? (e.getElem?_screenRows width (Nat.lt_of_succ_le hn))
    have hrange := List.range'_1_concat (s := e.scrollTop.toNat) (n := n)
    simp only [cursorsByRow, hrange, List.flatMap_append, List.flatMap_cons, List.flatMap_nil, List.append_nil,
      List.map_append, List.map_map] at hspans ⊢
    constructor
    · rw [shownText_append, List.length_append, hlen, shownText_rowPieces hlines hin, List.length_append, hoffset,
        List.length_singleton, Nat.add_assoc]
    · rw [cursorSpans_append, hspans, Nat.zero_add, hlen, cursorSpans_rowPieces hlines hin]
      congr 1
      refine List.map_congr_left fun c _ => ?_
      have hrow : ((e.scrollTop.toNat + n : Nat) - e.scrollTop : Int).toNat = n := by omega
      have hcolumn : ((numberWidth e.lines.length : Int) + 1 + (c : Int)).toNat = numberWidth e.lines.length + 1 + c := by
        omega
      simp only [Function.comp, offset, onScreen, hrow, hcolumn]

private theorem cursorsByRow_perm (htop : 0 ≤ e.scrollTop) (hin : ∀ s ∈ e.selections, InBounds e.lines s.active)
    (rows : Nat) : (e.cursorsByRow rows).Perm (e.cursorsIn rows) := by
  have hnodup : (e.cursorsByRow rows).Nodup := by
    have hrows : (List.range' e.scrollTop.toNat rows).Nodup := List.nodup_range'
    refine List.nodup_flatMap.2 ⟨fun i _ => ?_, hrows.imp fun {i j} hne p hp hp' => ?_⟩
    · have hcolumns : (e.cursorColumns i).Nodup := (e.cursorColumns_ordered i).imp Nat.ne_of_lt
      refine hcolumns.map fun a b hab => ?_
      exact Int.ofNat_inj.1 (Position.mk.inj hab).2
    · obtain ⟨c, -, rfl⟩ := List.mem_map.1 hp
      obtain ⟨d, -, hd⟩ := List.mem_map.1 hp'
      exact hne (Int.ofNat_inj.1 (Position.mk.inj hd).1).symm
  refine (List.perm_ext_iff_of_nodup hnodup ((nodup_eraseDups _).filter _)).2 fun p => ?_
  simp only [cursorsByRow, List.mem_flatMap, List.mem_range'_1, List.mem_map, mem_cursorColumns hin,
    List.mem_filter, List.mem_eraseDups, decide_eq_true_eq]
  constructor
  · rintro ⟨i, hi, c, hc, rfl⟩
    exact ⟨hc, by simp only; omega⟩
  · rintro ⟨⟨s, hs, rfl⟩, htop, hbottom⟩
    obtain ⟨⟨hline, -⟩, hcolumn, -⟩ := hin s hs
    have hplace : (⟨(s.active.line.toNat : Nat), (s.active.column.toNat : Nat)⟩ : Position) = s.active := by
      rw [Int.toNat_of_nonneg hline, Int.toNat_of_nonneg hcolumn]
    exact ⟨s.active.line.toNat, by omega, s.active.column.toNat, ⟨s, hs, hplace.symm⟩, hplace⟩

/-- The cells in reverse on a screen are those of the cursors in the window. -/
theorem cursorSpans_screen (htop : 0 ≤ e.scrollTop) (hlines : ∀ l ∈ e.lines, Showable l)
    (hin : ∀ s ∈ e.selections, InBounds e.lines s.active) (width : Int) (rows : Nat) :
    (cursorSpans 0 (e.screenPieces width rows)).Perm
      ((e.cursorsIn rows).map fun p => cellSpan (offset (e.screenRows width rows) (e.onScreen p))) := by
  have hstatus : ∀ p ∈ e.statusPieces width, p.style ≠ some .cursor := by
    intro p hp
    simp only [statusPieces, List.mem_cons, List.not_mem_nil, or_false] at hp
    rcases hp with rfl | rfl | rfl | rfl | rfl
    all_goals nofun
  obtain ⟨-, hspans⟩ := cursorSpans_rows htop hlines hin width (Nat.le_refl rows)
  rw [screenPieces, cursorSpans_append, cursorSpans_eq_nil hstatus, List.append_nil, hspans]
  exact (cursorsByRow_perm htop hin rows).map _

/-- The cell of a cursor shows the character that the cursor stands on, and a space at the end of the line. -/
private theorem getElem?_rowText (hin : ∀ s ∈ e.selections, InBounds e.lines s.active) {p : Position}
    (hp : p ∈ e.selections.map Selection.active) :
    (e.rowText p.line.toNat)[numberWidth e.lines.length + 1 + p.column.toNat]? =
      some ((lineOf e.lines p.line).getD p.column.toNat ' ') := by
  obtain ⟨s, hs, rfl⟩ := List.mem_map.1 hp
  obtain ⟨⟨hline, hlt⟩, hcolumn, hle⟩ := hin s hs
  obtain ⟨i, hi⟩ := Int.eq_ofNat_of_zero_le hline
  obtain ⟨c, hc⟩ := Int.eq_ofNat_of_zero_le hcolumn
  obtain ⟨l, hl⟩ : ∃ l, e.lines[i]? = some l := ⟨_, List.getElem?_eq_getElem (by omega)⟩
  have hactive : s.active = ⟨i, c⟩ := by rw [← hi, ← hc]
  have hlineOf : lineOf e.lines i = l := by
    rw [lineOf, if_neg (by simp), Int.toNat_natCast, hl, Option.getD_some]
  rw [hactive] at hp hle ⊢
  simp only [hlineOf, Int.toNat_natCast] at hle ⊢
  have hnumber := length_number (i := i) (by omega : i < e.lines.length)
  rw [rowText, hl]
  simp only
  rw [List.append_assoc, List.cons_append, List.getElem?_append_right (by omega), hnumber,
    show numberWidth e.lines.length + 1 + c - numberWidth e.lines.length = c + 1 by omega, List.getElem?_cons_succ,
    List.getD_eq_getElem?_getD]
  obtain heq | hless := Nat.eq_or_lt_of_le (Int.ofNat_le.1 hle)
  · rw [heq] at hp
    rw [if_pos hp, heq, List.getElem?_concat_length, List.getElem?_length, Option.getD_none]
  · rw [List.getElem?_append_left hless, List.getElem?_eq_getElem hless, Option.getD_some]

/-! ### Drawing -/

/-- Revealing a place scrolls the window to it. -/
private theorem reveal_window (hview : 0 < e.viewHeight) (p : Position) :
    ∃ top, e.reveal p = { e with scrollTop := top } ∧ top ≤ p.line ∧ p.line < top + e.viewHeight := by
  unfold reveal
  split
  · exact ⟨_, rfl, Int.le_refl _, by omega⟩
  · split
    · exact ⟨_, rfl, by omega, by omega⟩
    · exact ⟨_, rfl, by omega, by omega⟩

/-- The screen of a window that holds the primary cursor shows what the editor holds. -/
private theorem Ready.displays (h : e.Ready) (hlines : ∀ l ∈ e.lines, Showable l)
    (hlanguage : '\n' ∉ e.document.language)
    (width : Int) {rows : Nat} (hwindow : e.scrollTop ≤ e.cursor.line ∧ e.cursor.line < e.scrollTop + rows) :
    ∃ s, e.screen width rows = .ok s ∧ e.Displays (rows + 1) s := by
  have hin := h.inBounds_active
  have hsplit := (wellFormed_screenRows h.sound.wellFormed hlanguage width rows).splitLines_joinLines
  have hplain := shownText_screenPieces hlines hin width rows
  have hrows : splitLines (Screen.ofPieces (e.screenPieces width rows)).plain = e.screenRows width rows := by
    rw [← hsplit, ← hplain]
    rfl
  refine ⟨_, screen_eq h.scrollTop width rows, h.scrollTop, hwindow, ?_, ?_, ?_, ?_⟩
  · rw [hrows]
    simp [screenRows]
  · intro r hr
    rw [hrows]
    exact e.getElem?_screenRows width hr
  · rw [hrows]
    exact cursorSpans_screen h.scrollTop hlines hin width rows
  · intro p hp
    obtain ⟨hmem, hshown⟩ := List.mem_filter.1 hp
    rw [List.mem_eraseDups] at hmem
    obtain ⟨htop, hbottom⟩ := of_decide_eq_true hshown
    obtain ⟨s, hs, hactive⟩ := List.mem_map.1 hmem
    have hcolumn : 0 ≤ p.column := hactive ▸ (hin s hs).2.1
    have hcell := getElem?_rowText hin hmem
    have hrow : (e.screenRows width rows)[(p.line - e.scrollTop).toNat]? = some (e.rowText p.line.toNat) := by
      have hline : e.scrollTop.toNat + (p.line - e.scrollTop).toNat = p.line.toNat := by
        have := h.scrollTop
        omega
      rw [e.getElem?_screenRows width (by omega), hline]
    have hplace : (numberWidth e.lines.length + 1 + p.column : Int).toNat =
        numberWidth e.lines.length + 1 + p.column.toNat := by omega
    rw [hrows, ← hcell]
    simp only [offset, onScreen, hplace]
    rw [← getElem?_joinLines hrow (List.getElem?_eq_some_iff.1 hcell).1, ← hplain]
    rfl

/-- In a session with carets and without direct edits, drawing in a window that is not too small scrolls to the primary
cursor and shows the lines in the window and all cursors on them. -/
theorem Reached.draw_displays (h : Reached (fun op => op.Mediated ∧ op.ByCarets) e) {width height : Int}
    (hwidth : 10 ≤ width) (hheight : 2 ≤ height) (hlines : ∀ l ∈ e.lines, Showable l)
    (hlanguage : '\n' ∉ e.document.language) :
    ∃ e' s, e.draw width height = (e', .ok s) ∧ e'.lines = e.lines ∧ e'.selections = e.selections ∧
      e'.Displays height.toNat s := by
  obtain ⟨rows, hrows⟩ : ∃ rows : Nat, rows = (height - 1).toNat := ⟨_, rfl⟩
  have hready := h.steady.ready
  have hviewReady : ({ e with viewHeight := rows } : Editor).Ready := ⟨hready.sound, hready.carets, hready.scrollTop⟩
  have hview : 0 < ({ e with viewHeight := rows } : Editor).viewHeight := by simp only; omega
  obtain ⟨top, htop, hwindow⟩ := reveal_window hview e.cursor
  have hscrolled : ({ e with viewHeight := rows, scrollTop := top } : Editor).Ready := htop ▸ hviewReady.revealCursor
  obtain ⟨s, hs, hdisplays⟩ := hscrolled.displays hlines hlanguage width hwindow
  refine ⟨{ e with viewHeight := rows, scrollTop := top }, s, ?_, rfl, rfl, ?_⟩
  · have hreveal : ({ e with viewHeight := rows } : Editor).revealCursor =
        { e with viewHeight := rows, scrollTop := top } := htop
    simp only [draw, if_neg (show ¬ (height < 2 ∨ width < 10) by omega), ← hrows, hreveal, hs]
  · rw [show height.toNat = rows + 1 by omega]
    exact hdisplays

/-- Two lines with a cursor on each, one of them at the end of its line. -/
def onTwoLines : Editor :=
  (ofDocument (.ofText "ab\nc".toList "doc" "json".toList) {} {}).setSelections [.caret ⟨1, 1⟩, .caret ⟨0, 1⟩]

theorem draw_displays_onTwoLines :
    Reached (fun op => op.Mediated ∧ op.ByCarets) onTwoLines ∧ (∀ l ∈ onTwoLines.lines, Showable l) ∧
      '\n' ∉ onTwoLines.document.language ∧
      ∃ e' s, onTwoLines.draw 20 4 = (e', .ok s) ∧ e'.Displays 4 s ∧
        (splitLines s.plain).take 3 = ["  1 ab".toList, "  2 c ".toList, "  ~ ".toList] ∧
        (s.spans.filter fun x => x.style.name == "reverse") = [⟨5, 6, .cursor⟩, ⟨12, 13, .cursor⟩] := by
  have hnew : Reached (fun op => op.Mediated ∧ op.ByCarets)
      (ofDocument (.ofText "ab\nc".toList "doc" "json".toList) {} {}) := .new _ _ _ _ _
  have hcarets : ∀ s ∈ [Selection.caret ⟨1, 1⟩, .caret ⟨0, 1⟩], s.isEmpty = true := by decide
  have hselect : (Operation.select [.caret ⟨1, 1⟩, .caret ⟨0, 1⟩]).Mediated ∧
      (Operation.select [.caret ⟨1, 1⟩, .caret ⟨0, 1⟩]).ByCarets := ⟨trivial, hcarets⟩
  have h : Reached (fun op => op.Mediated ∧ op.ByCarets) onTwoLines := hnew.next hselect
  have hlines : ∀ l ∈ onTwoLines.lines, Showable l := by decide +kernel
  have hlanguage : '\n' ∉ onTwoLines.document.language := by decide +kernel
  obtain ⟨e', s, hdraw, -, -, hdisplays⟩ :=
    h.draw_displays (show (10 : Int) ≤ 20 by decide) (show (2 : Int) ≤ 4 by decide) hlines hlanguage
  have hshown : (onTwoLines.draw 20 4).2.toOption.map (fun s => ((splitLines s.plain).take 3,
      s.spans.filter fun x => x.style.name == "reverse")) =
      some (["  1 ab".toList, "  2 c ".toList, "  ~ ".toList], [⟨5, 6, .cursor⟩, ⟨12, 13, .cursor⟩]) := by
    decide +kernel
  rw [hdraw] at hshown
  obtain ⟨hrows, hcells⟩ := Prod.mk.inj (Option.some.inj hshown)
  exact ⟨h, hlines, hlanguage, e', s, hdraw, hdisplays, hrows, hcells⟩

end Editor

end MultiCaret
