import Mathlib.Algebra.Group.Nat.Defs
import MultiCaret.Text.Utf8

/-!
# Bytes that are a text

Reading accepts exactly the bytes of some text, and the text is the one that it returns (`Utf8.decode_eq_ok_iff`).  What
may still come in the middle of a character is said for each state of the reader (`Utf8.Follows`); one byte takes a
state to the next one, and the states of the first byte are where short forms, surrogates and large numbers are shut
out (`Utf8.completes_of_begin?`, `Utf8.exists_begin?`).
-/

namespace MultiCaret

private theorem map_eq_ok_iff {ε α β : Type} {f : α → β} {x : Except ε α} {y : β} :
    x.map f = .ok y ↔ ∃ a, x = .ok a ∧ f a = y := by
  cases x with
  | error e =>
    refine ⟨fun h => ?_, ?_⟩
    · cases h
    · rintro ⟨a, h, -⟩
      cases h
  | ok a =>
    constructor
    · intro h
      exact ⟨a, rfl, Except.ok.inj h⟩
    · rintro ⟨_, h, rfl⟩
      cases h
      rfl

namespace Utf8

/-- The last bytes of a character with the number `n`, six bits in each. -/
def tailBytes : Nat → Nat → Bytes
  | 0, _ => []
  | m + 1, n => UInt8.ofNat (0x80 + n / 64 ^ m % 64) :: tailBytes m n

/-- How many bytes come behind the first one of a character with the number `n`. -/
def tailCount (n : Nat) : Nat :=
  if n < 0x80 then 0 else if n < 0x800 then 1 else if n < 0x10000 then 2 else 3

/-- The first byte of a character with the number `n`. -/
def leadByte (n : Nat) : Nat :=
  if n < 0x80 then n else if n < 0x800 then 0xC0 + n / 64 else if n < 0x10000 then 0xE0 + n / 4096
  else 0xF0 + n / 262144

private theorem encodeChar_eq (c : Char) :
    encodeChar c = UInt8.ofNat (leadByte c.toNat) :: tailBytes (tailCount c.toNat) c.toNat := by
  unfold encodeChar leadByte tailCount
  simp only
  split
  · rfl
  · split
    · simp [tailBytes]
    · split
      · simp [tailBytes]
      · simp [tailBytes]

private theorem encode_cons (c : Char) (t : Text) : encode (c :: t) = encodeChar c ++ encode t :=
  List.flatMap_cons

private theorem encode_eq_nil {t : Text} (h : encode t = []) : t = [] := by
  cases t with
  | nil => rfl
  | cons c t =>
    rw [encode_cons, encodeChar_eq] at h
    simp at h

private theorem toNat_ofNat {n : Nat} (h : n.isValidChar) : (Char.ofNat n).toNat = n := by
  delta Char.ofNat
  rw [dif_pos h]
  rfl

theorem isValidChar_toNat (c : Char) : c.toNat.isValidChar :=
  c.valid

private theorem toNat_leadByte (c : Char) : (UInt8.ofNat (leadByte c.toNat)).toNat = leadByte c.toNat := by
  have hn := isValidChar_toNat c
  unfold Nat.isValidChar at hn
  refine UInt8.toNat_ofNat_of_lt' (show _ < 256 from ?_)
  unfold leadByte
  split
  · omega
  · split
    · omega
    · split <;> omega

/-- Only the characters of ASCII have a first byte of ASCII, and it is their only one. -/
private theorem leadByte_lt_iff (n : Nat) : leadByte n < 0x80 ↔ n < 0x80 := by
  unfold leadByte
  split
  · omega
  · split
    · omega
    · split <;> omega

/-- The state of the reader in the middle of a character: some bytes are missing, and the next one lies in an interval of
bytes that go on with characters. -/
structure Begun.Sound (g : Begun) : Prop where
  missing_pos : 0 < g.missing
  low_le : 0x80 ≤ g.low
  high_le : g.high ≤ 0xBF

/-- The bytes to come make up the character begun, which has the number `n`. -/
structure Begun.Completes (g : Begun) (n : Nat) : Prop where
  bits : n / 64 ^ g.missing = g.bits
  low : g.low ≤ 0x80 + n / 64 ^ (g.missing - 1) % 64
  high : 0x80 + n / 64 ^ (g.missing - 1) % 64 ≤ g.high

/-- What may come in a state of the reader for it to return a text: the bytes of the text, or the missing bytes of its
first character and the bytes of the others. -/
def Follows : Option Begun → Bytes → Text → Prop
  | none, bs, t => bs = encode t
  | some g, bs, t => ∃ n t', t = Char.ofNat n :: t' ∧ g.Completes n ∧ bs = tailBytes g.missing n ++ encode t'

private theorem sound_of_begin? {pos : Nat} {b : UInt8} {g : Begun} (h : begin? pos b = some g) : g.Sound := by
  unfold begin? at h
  simp only at h
  split at h
  · cases h
  · split at h
    · cases h
      exact ⟨by simp, by simp, by simp⟩
    · split at h
      · cases h
        refine ⟨by simp, ?_, ?_⟩ <;> simp only <;> split <;> omega
      · split at h
        · cases h
          refine ⟨by simp, ?_, ?_⟩ <;> simp only <;> split <;> omega
        · cases h

/-- A byte that begins a character is the first byte of the characters which the bytes to come can complete. -/
theorem completes_of_begin? {pos n : Nat} {b : UInt8} {g : Begun} (h : begin? pos b = some g) (hn : g.Completes n) :
    n.isValidChar ∧ leadByte n = b.toNat ∧ tailCount n = g.missing := by
  obtain ⟨hbits, hlow, hhigh⟩ := hn
  unfold begin? at h
  simp only at h
  unfold Nat.isValidChar leadByte tailCount
  split at h
  · cases h
  · split at h
    · cases h
      simp only [Nat.reduceSub, Nat.reducePow] at hbits hlow hhigh
      rw [if_neg (by omega), if_pos (by omega), if_neg (by omega), if_pos (by omega)]
      refine ⟨?_, ?_, rfl⟩ <;> omega
    · split at h
      · -- the bounds of the second byte keep the number from being below 0x800, and from being a surrogate's
        cases h
        simp only [Nat.reduceSub, Nat.reducePow] at hbits hlow hhigh
        have hmin : 0x800 ≤ n := by split at hlow <;> omega
        have hgap : n < 0xD800 ∨ 0xDFFF < n := by split at hhigh <;> omega
        rw [if_neg (by omega), if_neg (by omega), if_pos (by omega), if_neg (by omega), if_neg (by omega),
          if_pos (by omega)]
        refine ⟨?_, ?_, rfl⟩ <;> omega
      · split at h
        · -- here they keep it between 0x10000 and the last character
          cases h
          simp only [Nat.reduceSub, Nat.reducePow] at hbits hlow hhigh
          have hmin : 0x10000 ≤ n := by split at hlow <;> omega
          have hmax : n < 0x110000 := by split at hhigh <;> omega
          rw [if_neg (by omega), if_neg (by omega), if_neg (by omega), if_neg (by omega), if_neg (by omega),
            if_neg (by omega)]
          refine ⟨?_, ?_, rfl⟩ <;> omega
        · cases h

/-- The first byte of a character outside ASCII begins it. -/
theorem exists_begin? (pos : Nat) {n : Nat} (hn : n.isValidChar) (h : 0x80 ≤ n) {b : UInt8}
    (hb : b.toNat = leadByte n) : ∃ g, begin? pos b = some g ∧ g.Completes n ∧ g.missing = tailCount n := by
  unfold Nat.isValidChar at hn
  unfold leadByte at hb
  unfold begin?
  simp only
  rw [if_neg (by omega)] at hb
  by_cases h₂ : n < 0x800
  · have hcount : tailCount n = 1 := by rw [tailCount, if_neg (by omega), if_pos h₂]
    rw [if_pos h₂] at hb
    rw [if_neg (by omega), if_pos (by omega), hcount]
    refine ⟨_, rfl, ⟨?_, ?_, ?_⟩, rfl⟩
    · simp only [Nat.reducePow]
      omega
    · simp only [Nat.reduceSub, Nat.reducePow]
      omega
    · simp only [Nat.reduceSub, Nat.reducePow]
      omega
  · rw [if_neg h₂] at hb
    by_cases h₃ : n < 0x10000
    · have hcount : tailCount n = 2 := by rw [tailCount, if_neg (by omega), if_neg h₂, if_pos h₃]
      rw [if_pos h₃] at hb
      rw [if_neg (by omega), if_neg (by omega), if_pos (by omega), hcount]
      refine ⟨_, rfl, ⟨?_, ?_, ?_⟩, rfl⟩
      · simp only [Nat.reducePow]
        omega
      · simp only [Nat.reduceSub, Nat.reducePow]
        split <;> omega
      · simp only [Nat.reduceSub, Nat.reducePow]
        split <;> omega
    · have hcount : tailCount n = 3 := by rw [tailCount, if_neg (by omega), if_neg h₂, if_neg h₃]
      rw [if_neg h₃] at hb
      rw [if_neg (by omega), if_neg (by omega), if_neg (by omega), if_pos (by omega), hcount]
      refine ⟨_, rfl, ⟨?_, ?_, ?_⟩, rfl⟩
      · simp only [Nat.reducePow]
        omega
      · simp only [Nat.reduceSub, Nat.reducePow]
        split <;> omega
      · simp only [Nat.reduceSub, Nat.reducePow]
        split <;> omega

/-- A byte goes on with the character begun exactly if it lies in the interval and its six bits come behind those read. -/
private theorem completes_iff {g : Begun} (hg : g.Sound) (n : Nat) (b : UInt8) :
    g.Completes n ∧ b = UInt8.ofNat (0x80 + n / 64 ^ (g.missing - 1) % 64) ↔
      (g.low ≤ b.toNat ∧ b.toNat ≤ g.high) ∧ n / 64 ^ (g.missing - 1) = 64 * g.bits + (b.toNat - 0x80) := by
  obtain ⟨hpos, hlow, hhigh⟩ := hg
  have hsplit : n / 64 ^ g.missing = n / 64 ^ (g.missing - 1) / 64 := by
    rw [Nat.div_div_eq_div_mul, ← Nat.pow_succ, Nat.succ_eq_add_one, Nat.sub_add_cancel hpos]
  constructor
  · rintro ⟨⟨hbits, hl, hh⟩, rfl⟩
    have hbyte : (UInt8.ofNat (0x80 + n / 64 ^ (g.missing - 1) % 64)).toNat = 0x80 + n / 64 ^ (g.missing - 1) % 64 :=
      UInt8.toNat_ofNat_of_lt' (show _ < 256 by omega)
    rw [hbyte]
    exact ⟨⟨hl, hh⟩, by omega⟩
  · rintro ⟨⟨hl, hh⟩, hx⟩
    have hbyte : 0x80 + n / 64 ^ (g.missing - 1) % 64 = b.toNat := by omega
    rw [hbyte, UInt8.ofNat_toNat]
    exact ⟨⟨by omega, by omega, by omega⟩, rfl⟩

/-- What may come behind a byte that begins a character is what comes behind it in the bytes of a text. -/
private theorem follows_begin {pos : Nat} {b : UInt8} {g : Begun} (hb : ¬ b.toNat < 0x80) (h : begin? pos b = some g)
    (bs : Bytes) (t : Text) : Follows (some g) bs t ↔ b :: bs = encode t := by
  constructor
  · rintro ⟨n, t', rfl, hn, rfl⟩
    obtain ⟨hvalid, hlead, hcount⟩ := completes_of_begin? h hn
    rw [encode_cons, encodeChar_eq, toNat_ofNat hvalid, hlead, hcount, UInt8.ofNat_toNat, List.cons_append]
  · intro heq
    cases t with
    | nil => cases heq
    | cons c t' =>
      rw [encode_cons, encodeChar_eq, List.cons_append, List.cons.injEq] at heq
      obtain ⟨rfl, rfl⟩ := heq
      rw [toNat_leadByte, leadByte_lt_iff, Nat.not_lt] at hb
      obtain ⟨g', hg', hcompletes, hcount⟩ := exists_begin? pos (isValidChar_toNat c) hb (toNat_leadByte c)
      obtain rfl : g' = g := Option.some.inj (hg'.symm.trans h)
      exact ⟨c.toNat, t', by rw [Char.ofNat_toNat], hcompletes, by rw [hcount]⟩

/-- A byte that begins no character does not stand where a character does. -/
private theorem ne_encode_of_begin? {pos : Nat} {b : UInt8} (hb : ¬ b.toNat < 0x80) (h : begin? pos b = none)
    (bs : Bytes) (t : Text) : b :: bs ≠ encode t := by
  intro heq
  cases t with
  | nil => cases heq
  | cons c t' =>
    rw [encode_cons, encodeChar_eq, List.cons_append, List.cons.injEq] at heq
    obtain ⟨rfl, -⟩ := heq
    rw [toNat_leadByte, leadByte_lt_iff, Nat.not_lt] at hb
    obtain ⟨g, hg, -⟩ := exists_begin? pos (isValidChar_toNat c) hb (toNat_leadByte c)
    rw [h] at hg
    cases hg

/-- A byte of ASCII is its character. -/
private theorem cons_eq_encode {b : UInt8} (hb : b.toNat < 0x80) (bs : Bytes) (t : Text) :
    b :: bs = encode t ↔ ∃ t', bs = encode t' ∧ Char.ofNat b.toNat :: t' = t := by
  have hchar {c : Char} (hc : c.toNat < 0x80) : encodeChar c = [UInt8.ofNat c.toNat] := by
    rw [encodeChar, if_pos hc]
  constructor
  · intro heq
    cases t with
    | nil => cases heq
    | cons c t' =>
      have hlead := heq
      rw [encode_cons, encodeChar_eq, List.cons_append, List.cons.injEq] at hlead
      rw [hlead.1, toNat_leadByte, leadByte_lt_iff] at hb
      rw [encode_cons, hchar hb, List.singleton_append, List.cons.injEq] at heq
      obtain ⟨rfl, rfl⟩ := heq
      refine ⟨t', rfl, ?_⟩
      rw [UInt8.toNat_ofNat_of_lt' (show _ < 256 by omega), Char.ofNat_toNat]
  · rintro ⟨t', rfl, rfl⟩
    have hn : (Char.ofNat b.toNat).toNat = b.toNat := toNat_ofNat (Or.inl (by omega))
    rw [encode_cons, hchar (hn.symm ▸ hb), hn, UInt8.ofNat_toNat, List.singleton_append]

private theorem tailBytes_of_pos {m : Nat} (h : 0 < m) (n : Nat) :
    tailBytes m n = UInt8.ofNat (0x80 + n / 64 ^ (m - 1) % 64) :: tailBytes (m - 1) n := by
  obtain ⟨k, rfl⟩ := Nat.exists_eq_succ_of_ne_zero (Nat.ne_of_gt h)
  rfl

private theorem follows_some_nil {g : Begun} (hg : g.Sound) (t : Text) : ¬ Follows (some g) [] t := by
  rintro ⟨n, t', -, -, heq⟩
  rw [tailBytes_of_pos hg.missing_pos] at heq
  cases heq

private theorem follows_some_cons {g : Begun} (hg : g.Sound) (b : UInt8) (bs : Bytes) (t : Text) :
    Follows (some g) (b :: bs) t ↔ (g.low ≤ b.toNat ∧ b.toNat ≤ g.high) ∧ ∃ n t', t = Char.ofNat n :: t' ∧
      n / 64 ^ (g.missing - 1) = 64 * g.bits + (b.toNat - 0x80) ∧ bs = tailBytes (g.missing - 1) n ++ encode t' := by
  constructor
  · rintro ⟨n, t', ht, hn, heq⟩
    rw [tailBytes_of_pos hg.missing_pos, List.cons_append, List.cons.injEq] at heq
    obtain ⟨hb, hbits⟩ := (completes_iff hg n b).mp ⟨hn, heq.1⟩
    exact ⟨hb, n, t', ht, hbits, heq.2⟩
  · rintro ⟨hb, n, t', ht, hbits, rfl⟩
    obtain ⟨hn, rfl⟩ := (completes_iff hg n b).mpr ⟨hb, hbits⟩
    exact ⟨n, t', ht, hn, by rw [tailBytes_of_pos hg.missing_pos, List.cons_append]⟩

/-- What may come in the middle of a character after a byte that goes on with it. -/
private theorem follows_next {g : Begun} (hg : g.Sound) {b : UInt8} (hb : g.low ≤ b.toNat ∧ b.toNat ≤ g.high)
    (bs : Bytes) (t : Text) :
    Follows (some { g with bits := 64 * g.bits + (b.toNat - 0x80), missing := g.missing - 1, low := 0x80,
                           high := 0xBF }) bs t ↔ Follows (some g) (b :: bs) t := by
  rw [follows_some_cons hg]
  constructor
  · rintro ⟨n, t', ht, hn, heq⟩
    exact ⟨hb, n, t', ht, hn.bits, heq⟩
  · rintro ⟨-, n, t', ht, hbits, heq⟩
    refine ⟨n, t', ht, ⟨hbits, ?_, ?_⟩, heq⟩
    · exact Nat.le_add_right _ _
    · simp only
      omega

/-- The last byte of a character completes it. -/
private theorem follows_last {g : Begun} (hg : g.Sound) {b : UInt8} (hb : g.low ≤ b.toNat ∧ b.toNat ≤ g.high)
    (hmissing : g.missing ≤ 1) (bs : Bytes) (t : Text) :
    Follows (some g) (b :: bs) t ↔
      ∃ t', bs = encode t' ∧ Char.ofNat (64 * g.bits + (b.toNat - 0x80)) :: t' = t := by
  have hone : g.missing - 1 = 0 := by omega
  rw [follows_some_cons hg, hone]
  constructor
  · rintro ⟨-, n, t', rfl, hbits, heq⟩
    rw [Nat.pow_zero, Nat.div_one] at hbits
    exact ⟨t', heq, by rw [hbits]⟩
  · rintro ⟨t', heq, rfl⟩
    exact ⟨hb, _, t', rfl, by rw [Nat.pow_zero, Nat.div_one], heq⟩

private theorem sound_next {g : Begun} (hmissing : 1 < g.missing) (bits : Nat) :
    Begun.Sound { g with bits := bits, missing := g.missing - 1, low := 0x80, high := 0xBF } :=
  ⟨Nat.sub_pos_of_lt hmissing, Nat.le_refl _, Nat.le_refl _⟩

/-- In every state the reader returns exactly the text whose bytes, or whose missing bytes, are there. -/
theorem decodeFrom_eq_ok_iff (bs : Bytes) (pos : Nat) (s : Option Begun) (hs : ∀ g ∈ s, g.Sound) (t : Text) :
    decodeFrom pos s bs = .ok t ↔ Follows s bs t := by
  have hnone : ∀ g ∈ (none : Option Begun), g.Sound := by rintro g ⟨⟩
  induction bs generalizing pos s t with
  | nil =>
    cases s with
    | none =>
      constructor
      · intro h
        cases h
        rfl
      · intro h
        rw [encode_eq_nil h.symm]
        rfl
    | some g =>
      constructor
      · intro h
        cases h
      · exact fun h => absurd h (follows_some_nil (hs g rfl) t)
  | cons b bs ih =>
    cases s with
    | none =>
      unfold decodeFrom
      simp only
      split
      case isTrue hb =>
        rw [map_eq_ok_iff, Follows, cons_eq_encode hb]
        exact exists_congr fun t' => and_congr_left' (ih (pos + 1) none hnone t')
      case isFalse hb =>
        cases hbegin : begin? pos b with
        | none =>
          constructor
          · intro h
            cases h
          · exact fun h => absurd h (ne_encode_of_begin? hb hbegin bs t)
        | some g =>
          have hg : ∀ g' ∈ some g, g'.Sound := by
            rintro g' ⟨⟩
            exact sound_of_begin? hbegin
          exact (ih (pos + 1) (some g) hg t).trans (follows_begin hb hbegin bs t)
    | some g =>
      have hg := hs g rfl
      unfold decodeFrom
      simp only
      split
      case isTrue hb =>
        split
        case isTrue hlast =>
          rw [map_eq_ok_iff, follows_last hg hb hlast]
          exact exists_congr fun t' => and_congr_left' (ih (pos + 1) none hnone t')
        case isFalse hmore =>
          rw [Nat.not_le] at hmore
          rw [← follows_next hg hb]
          refine ih (pos + 1) _ ?_ t
          rintro g' ⟨⟩
          exact sound_next hmore _
      case isFalse hb =>
        constructor
        · intro h
          cases h
        · intro h
          exact absurd ((follows_some_cons hg b bs t).mp h).1 hb

/-- Reading returns a text exactly for the bytes of that text. -/
theorem decode_eq_ok_iff (bs : Bytes) (t : Text) : decode bs = .ok t ↔ bs = encode t :=
  decodeFrom_eq_ok_iff bs 0 none (by rintro g ⟨⟩) t

theorem decode_encode (t : Text) : decode (encode t) = .ok t :=
  (decode_eq_ok_iff _ t).mpr rfl

/-- Reading fails exactly for bytes that are no text's. -/
theorem decode_eq_error_iff (bs : Bytes) : (∃ e, decode bs = .error e) ↔ ∀ t, bs ≠ encode t := by
  constructor
  · rintro ⟨e, he⟩ t rfl
    rw [decode_encode] at he
    cases he
  · intro h
    cases hd : decode bs with
    | error e => exact ⟨e, rfl⟩
    | ok t => exact absurd ((decode_eq_ok_iff bs t).mp hd) (h t)

end Utf8

end MultiCaret
