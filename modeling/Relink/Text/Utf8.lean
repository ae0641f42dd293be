import Relink.Text

/-! # UTF-8

Decoding reads one byte at a time. Between characters the decoder is ready; inside a character it
knows which byte may come next, how many follow that one and the value read so far. A byte that may
not come next ends an ill-formed part and is then read afresh, so each ill-formed part is as long as
it can be while still the beginning of some character. Decoding for display replaces each such part
by one replacement character; strict decoding refuses any. -/

namespace Relink.Utf8

/-- The bytes of a text. -/
def encode (text : Text) : Bytes := text.flatMap String.utf8EncodeChar

/-- Where decoding stands. -/
inductive Progress where
  /-- Between two characters. -/
  | ready
  /-- Inside a character: the next byte lies from `low` to `high`, `more` bytes follow it, and `value`
      has been read. -/
  | inside (low high more value : Nat)
  deriving DecidableEq, Repr

/-- Reads the first byte of a character, given its number. A part that can belong to no character is
    reported as `none`. -/
def lead (n : Nat) : Progress × List (Option Char) :=
  if n < 0x80 then (.ready, [some (Char.ofNat n)])
  else if n < 0xc2 then (.ready, [none])
  else if n < 0xe0 then (.inside 0x80 0xbf 0 (n - 0xc0), [])
  else if n = 0xe0 then (.inside 0xa0 0xbf 1 0, [])
  else if n = 0xed then (.inside 0x80 0x9f 1 0xd, [])
  else if n < 0xf0 then (.inside 0x80 0xbf 1 (n - 0xe0), [])
  else if n = 0xf0 then (.inside 0x90 0xbf 2 0, [])
  else if n < 0xf4 then (.inside 0x80 0xbf 2 (n - 0xf0), [])
  else if n = 0xf4 then (.inside 0x80 0x8f 2 4, [])
  else (.ready, [none])

/-- Reads a byte that may come next inside a character. -/
def advance (n value : Nat) : (more : Nat) → Progress × List (Option Char)
  | 0 => (.ready, [some (Char.ofNat (value * 64 + (n - 0x80)))])
  | more + 1 => (.inside 0x80 0xbf more (value * 64 + (n - 0x80)), [])

/-- Reads one byte. -/
def step (progress : Progress) (b : UInt8) : Progress × List (Option Char) :=
  match progress with
  | .ready => lead b.toNat
  | .inside low high more value =>
    if low ≤ b.toNat ∧ b.toNat ≤ high then advance b.toNat value more
    else ((lead b.toNat).1, none :: (lead b.toNat).2)

/-- Reads bytes to their end: the characters in order, with `none` for each ill-formed part. -/
def scan : Progress → Bytes → List (Option Char)
  | .ready, [] => []
  | .inside .., [] => [none]
  | progress, b :: bytes => (step progress b).2 ++ scan (step progress b).1 bytes

/-- The character shown for an ill-formed part. -/
def replacement : Char := '\uFFFD'

/-- The text of arbitrary bytes, with one replacement character for each ill-formed part. -/
def decodeLossy (bytes : Bytes) : Text := (scan .ready bytes).map (·.getD replacement)

/-- The text of well-formed bytes. -/
def decode? (bytes : Bytes) : Option Text := (scan .ready bytes).mapM id

/-! ### Writing and reading back -/

theorem scan_cons (progress : Progress) (b : UInt8) (bytes : Bytes) :
    scan progress (b :: bytes) = (step progress b).2 ++ scan (step progress b).1 bytes := by
  cases progress <;> rfl

theorem scan_ready_cons {n : Nat} (hn : n < 256) (bytes : Bytes) :
    scan .ready (UInt8.ofNat n :: bytes) = (lead n).2 ++ scan (lead n).1 bytes := by
  rw [scan_cons, step, UInt8.toNat_ofNat', Nat.mod_eq_of_lt hn]

theorem scan_inside_cons (n low high more value : Nat) (bytes : Bytes) (hn : n < 256) (hl : low ≤ n)
    (hh : n ≤ high) :
    scan (.inside low high more value) (UInt8.ofNat n :: bytes) =
      (advance n value more).2 ++ scan (advance n value more).1 bytes := by
  rw [scan_cons, step, UInt8.toNat_ofNat', Nat.mod_eq_of_lt hn, if_pos ⟨hl, hh⟩]

/-- The bytes of a character are read as that character. -/
theorem scan_utf8EncodeChar (c : Char) (bytes : Bytes) :
    scan .ready (String.utf8EncodeChar c ++ bytes) = some c :: scan .ready bytes := by
  have hv : c.toNat < 0xd800 ∨ 0xdfff < c.toNat ∧ c.toNat < 0x110000 := c.valid
  have hc : Char.ofNat c.toNat = c := Char.ofNat_toNat c
  generalize hn : c.toNat = n at hv hc
  have he : c.val.toNat = n := hn
  unfold String.utf8EncodeChar
  simp only [he]
  split
  · rw [List.singleton_append, scan_ready_cons (by omega), lead, if_pos (by omega), hc]
    rfl
  · split
    · have hl : lead (n / 64 % 32 + 192) = (.inside 0x80 0xbf 0 (n / 64), []) := by
        rw [lead, if_neg (by omega), if_neg (by omega), if_pos (by omega),
          show n / 64 % 32 + 192 - 0xc0 = n / 64 by omega]
      simp only [List.cons_append, List.nil_append]
      rw [scan_ready_cons (by omega), hl, List.nil_append,
        scan_inside_cons (n % 64 + 128) _ _ _ _ _ (by omega) (by omega) (by omega), advance,
        show n / 64 * 64 + (n % 64 + 128 - 0x80) = n by omega, hc]
      rfl
    · split
      · have hl : ∃ low high, lead (n / 4096 % 16 + 224) = (.inside low high 1 (n / 4096), []) ∧
            low ≤ n / 64 % 64 + 128 ∧ n / 64 % 64 + 128 ≤ high := by
          unfold lead
          rw [if_neg (by omega), if_neg (by omega), if_neg (by omega)]
          split
          · exact ⟨0xa0, 0xbf, by rw [show n / 4096 = 0 by omega], by omega, by omega⟩
          · split
            · exact ⟨0x80, 0x9f, by rw [show n / 4096 = 0xd by omega], by omega, by omega⟩
            · rw [if_pos (by omega)]
              exact ⟨0x80, 0xbf, by rw [show n / 4096 % 16 + 224 - 0xe0 = n / 4096 by omega], by omega, by omega⟩
        obtain ⟨low, high, hl, hlow, hhigh⟩ := hl
        simp only [List.cons_append, List.nil_append]
        rw [scan_ready_cons (by omega), hl, List.nil_append,
          scan_inside_cons _ _ _ _ _ _ (by omega) hlow hhigh, advance, List.nil_append,
          scan_inside_cons (n % 64 + 128) _ _ _ _ _ (by omega) (by omega) (by omega), advance,
          show (n / 4096 * 64 + (n / 64 % 64 + 128 - 0x80)) * 64 + (n % 64 + 128 - 0x80) = n by omega, hc]
        rfl
      · have hl : ∃ low high, lead (n / 262144 % 8 + 240) = (.inside low high 2 (n / 262144), []) ∧
            low ≤ n / 4096 % 64 + 128 ∧ n / 4096 % 64 + 128 ≤ high := by
          unfold lead
          rw [if_neg (by omega), if_neg (by omega), if_neg (by omega), if_neg (by omega),
            if_neg (by omega), if_neg (by omega)]
          split
          · exact ⟨0x90, 0xbf, by rw [show n / 262144 = 0 by omega], by omega, by omega⟩
          · split
            · exact ⟨0x80, 0xbf, by rw [show n / 262144 % 8 + 240 - 0xf0 = n / 262144 by omega], by omega, by omega⟩
            · rw [if_pos (by omega)]
              exact ⟨0x80, 0x8f, by rw [show n / 262144 = 4 by omega], by omega, by omega⟩
        obtain ⟨low, high, hl, hlow, hhigh⟩ := hl
        simp only [List.cons_append, List.nil_append]
        rw [scan_ready_cons (by omega), hl, List.nil_append,
          scan_inside_cons _ _ _ _ _ _ (by omega) hlow hhigh, advance, List.nil_append,
          scan_inside_cons (n / 64 % 64 + 128) _ _ _ _ _ (by omega) (by omega) (by omega), advance,
          List.nil_append,
          scan_inside_cons (n % 64 + 128) _ _ _ _ _ (by omega) (by omega) (by omega), advance,
          show ((n / 262144 * 64 + (n / 4096 % 64 + 128 - 0x80)) * 64 + (n / 64 % 64 + 128 - 0x80)) * 64 +
            (n % 64 + 128 - 0x80) = n by omega, hc]
        rfl

theorem scan_encode_append (text : Text) (bytes : Bytes) :
    scan .ready (encode text ++ bytes) = text.map some ++ scan .ready bytes := by
  induction text with
  | nil => rfl
  | cons c text ih =>
    rw [encode, List.flatMap_cons, List.append_assoc, scan_utf8EncodeChar]
    exact congrArg _ ih

theorem scan_encode (text : Text) : scan .ready (encode text) = text.map some := by
  have h := scan_encode_append text []
  rwa [List.append_nil, scan, List.append_nil] at h

theorem decodeLossy_encode (text : Text) : decodeLossy (encode text) = text := by
  rw [decodeLossy, scan_encode, List.map_map]
  exact List.map_id text

theorem decode?_encode (text : Text) : decode? (encode text) = some text := by
  rw [decode?, scan_encode]
  induction text with
  | nil => rfl
  | cons c text ih => simp [List.mapM_cons, ih]

theorem encode_injective {a b : Text} (h : encode a = encode b) : a = b := by
  rw [← decodeLossy_encode a, h, decodeLossy_encode]

end Relink.Utf8
