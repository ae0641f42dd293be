import Relink.Text.Utf8

/-! # ASCII among arbitrary bytes

A byte of ASCII is never a part of a longer character. Whatever stands before it, it is decoded as the
character that it is, and what follows it is decoded as if nothing stood before. -/

namespace Relink.Utf8

/-- No byte of ASCII may come next inside a character. -/
def Progress.Waits : Progress → Prop
  | ready => True
  | inside low _ _ _ => 0x80 ≤ low

theorem waits_lead (n : Nat) : (lead n).1.Waits := by
  unfold lead
  repeat' split
  all_goals simp [Progress.Waits]

theorem waits_step (progress : Progress) (b : UInt8) : (step progress b).1.Waits := by
  cases progress with
  | ready => exact waits_lead _
  | inside low high more value =>
    rw [step]
    split
    · cases more <;> simp [advance, Progress.Waits]
    · exact waits_lead _

theorem scan_cons_ascii {progress : Progress} (hwaits : progress.Waits) {b : UInt8} (hb : b.toNat < 0x80)
    (bytes : Bytes) :
    scan progress (b :: bytes) = scan progress [] ++ some (Char.ofNat b.toNat) :: scan .ready bytes := by
  have hlead : lead b.toNat = (.ready, [some (Char.ofNat b.toNat)]) := by rw [lead, if_pos hb]
  rw [scan_cons]
  cases progress with
  | ready =>
    rw [step, hlead]
    rfl
  | inside low high more value =>
    have hlow : 0x80 ≤ low := hwaits
    rw [step, if_neg (by omega), hlead]
    rfl

theorem scan_append_ascii {progress : Progress} (hwaits : progress.Waits) (front : Bytes) {b : UInt8}
    (hb : b.toNat < 0x80) (bytes : Bytes) :
    scan progress (front ++ b :: bytes) = scan progress front ++ some (Char.ofNat b.toNat) :: scan .ready bytes := by
  induction front generalizing progress with
  | nil => exact scan_cons_ascii hwaits hb bytes
  | cons d front ih => rw [List.cons_append, scan_cons, scan_cons, ih (waits_step _ _), List.append_assoc]

theorem decodeLossy_append_ascii (front : Bytes) {b : UInt8} (hb : b.toNat < 0x80) (bytes : Bytes) :
    decodeLossy (front ++ b :: bytes) = decodeLossy front ++ Char.ofNat b.toNat :: decodeLossy bytes := by
  rw [decodeLossy, scan_append_ascii (show Progress.ready.Waits from trivial) front hb, List.map_append, List.map_cons]
  rfl

theorem mem_decodeLossy {bytes : Bytes} {b : UInt8} (hb : b.toNat < 0x80) (hmem : b ∈ bytes) :
    Char.ofNat b.toNat ∈ decodeLossy bytes := by
  obtain ⟨front, rest, rfl⟩ := List.append_of_mem hmem
  rw [decodeLossy_append_ascii front hb]
  exact List.mem_append_right _ List.mem_cons_self

theorem encode_cons_ascii {c : Char} (hc : c.toNat < 0x80) (text : Text) :
    encode (c :: text) = UInt8.ofNat c.toNat :: encode text := by
  have hone : String.utf8EncodeChar c = [UInt8.ofNat c.toNat] := by
    have hle : c.val.toNat ≤ 0x7f := Nat.le_of_lt_succ hc
    unfold String.utf8EncodeChar
    simp only [hle, ↓reduceIte]
    rfl
  rw [encode, List.flatMap_cons, hone]
  rfl

/-- A text that starts with a character of ASCII is read among arbitrary bytes. -/
theorem decodeLossy_around {c : Char} (hc : c.toNat < 0x80) (text : Text) (front back : Bytes) :
    decodeLossy (front ++ (encode (c :: text) ++ back)) = decodeLossy front ++ (c :: text ++ decodeLossy back) := by
  have hb : (UInt8.ofNat c.toNat).toNat = c.toNat := by
    rw [UInt8.toNat_ofNat', Nat.mod_eq_of_lt (by omega)]
  have hrest : decodeLossy (encode text ++ back) = text ++ decodeLossy back := by
    rw [decodeLossy, scan_encode_append, List.map_append, List.map_map]
    exact congrArg (· ++ decodeLossy back) (List.map_id text)
  rw [encode_cons_ascii hc, List.cons_append, decodeLossy_append_ascii front (by rwa [hb]), hb, Char.ofNat_toNat, hrest]
  rfl

/-! ### What the characters are read from -/

/-- The character that is being read lies beyond ASCII. -/
def Progress.Beyond : Progress → Prop
  | ready => True
  | inside low _ more value => (if more = 0 then 0x80 else 2) ≤ value * 64 + (low - 0x80)

theorem beyond_lead (n : Nat) : (lead n).1.Beyond := by
  unfold lead
  repeat' split
  all_goals grind [Progress.Beyond]

theorem beyond_step {progress : Progress} (hbeyond : progress.Beyond) (b : UInt8) :
    (step progress b).1.Beyond := by
  cases progress with
  | ready => exact beyond_lead _
  | inside low high more value =>
    rw [step]
    split
    · rename_i hrange
      cases more with
      | zero => trivial
      | succ more =>
        have hvalue : 2 ≤ value * 64 + (b.toNat - 0x80) := by
          rw [Progress.Beyond, if_neg (Nat.succ_ne_zero more)] at hbeyond
          omega
        rw [advance, Progress.Beyond]
        split <;> omega
    · exact beyond_lead _

theorem toNat_ofNat {n : Nat} {c : Char} (h : Char.ofNat n = c) (hc : 0 < c.toNat) : n = c.toNat := by
  by_cases hvalid : n.isValidChar
  · have he : Char.ofNat n = Char.ofNatAux n hvalid := dif_pos hvalid
    rw [← h, he]
    rfl
  · have he : Char.ofNat n = '\x00' := dif_neg hvalid
    rw [← h, he] at hc
    exact absurd hc (by decide)

/-- A byte of ASCII is all that a character of ASCII is read from. -/
theorem toNat_of_mem_lead {n : Nat} {c : Char} (h : some c ∈ (lead n).2) (hc : 0 < c.toNat) : n = c.toNat := by
  unfold lead at h
  split at h
  · exact toNat_ofNat (Option.some.inj (List.mem_singleton.mp h)).symm hc
  · repeat' split at h
    all_goals simp at h

theorem toNat_of_mem_step {progress : Progress} (hbeyond : progress.Beyond) {b : UInt8} {c : Char}
    (h : some c ∈ (step progress b).2) (hc : 0 < c.toNat) (hascii : c.toNat < 0x80) : b.toNat = c.toNat := by
  cases progress with
  | ready => exact toNat_of_mem_lead h hc
  | inside low high more value =>
    rw [step] at h
    split at h
    · rename_i hrange
      cases more with
      | zero =>
        have hvalue : value * 64 + (b.toNat - 0x80) = c.toNat :=
          toNat_ofNat (Option.some.inj (List.mem_singleton.mp h)).symm hc
        have hlow : 0x80 ≤ value * 64 + (low - 0x80) := by simpa [Progress.Beyond] using hbeyond
        omega
      | succ more => cases h
    · exact toNat_of_mem_lead (by simpa using h) hc

theorem exists_of_mem_scan {progress : Progress} (hbeyond : progress.Beyond) {bytes : Bytes} {c : Char}
    (h : some c ∈ scan progress bytes) (hc : 0 < c.toNat) (hascii : c.toNat < 0x80) :
    ∃ b ∈ bytes, b.toNat = c.toNat := by
  induction bytes generalizing progress with
  | nil => cases progress <;> simp [scan] at h
  | cons b bytes ih =>
    rw [scan_cons, List.mem_append] at h
    rcases h with h | h
    · exact ⟨b, List.mem_cons_self, toNat_of_mem_step hbeyond h hc hascii⟩
    · obtain ⟨d, hd, he⟩ := ih (beyond_step hbeyond b) h
      exact ⟨d, List.mem_cons_of_mem _ hd, he⟩

/-- A character of ASCII that bytes show is one of the bytes. -/
theorem exists_of_mem_decodeLossy {bytes : Bytes} {c : Char} (h : c ∈ decodeLossy bytes) (hc : 0 < c.toNat)
    (hascii : c.toNat < 0x80) : ∃ b ∈ bytes, b.toNat = c.toNat := by
  obtain ⟨read, hread, hshown⟩ := List.mem_map.mp h
  cases read with
  | none =>
    rw [← hshown] at hascii
    exact absurd hascii (by decide)
  | some d =>
    cases hshown
    exact exists_of_mem_scan (show Progress.ready.Beyond from trivial) hread hc hascii

/-- Each byte shows something, at once or when the character that it begins is read or breaks off. -/
theorem lead_shows (n : Nat) : (lead n).2 ≠ [] ∨ (lead n).1 ≠ .ready := by
  unfold lead
  repeat' split
  all_goals simp

theorem scan_ne_nil {progress : Progress} (h : progress ≠ .ready) (bytes : Bytes) : scan progress bytes ≠ [] := by
  cases progress with
  | ready => exact absurd rfl h
  | inside low high more value =>
    clear h
    induction bytes generalizing low high more value with
    | nil => exact List.cons_ne_nil _ _
    | cons b bytes ih =>
      rw [scan_cons, step]
      split
      · cases more with
        | zero => exact List.cons_ne_nil _ _
        | succ more => exact ih _ _ _ _
      · exact List.cons_ne_nil _ _

theorem decodeLossy_ne_nil {bytes : Bytes} (h : bytes ≠ []) : decodeLossy bytes ≠ [] := by
  obtain ⟨b, bytes, rfl⟩ := List.exists_cons_of_ne_nil h
  rw [decodeLossy, Ne, List.map_eq_nil_iff, scan_cons, List.append_eq_nil_iff]
  rintro ⟨hnow, hlater⟩
  rcases lead_shows b.toNat with hshown | hinside
  · exact hshown hnow
  · exact scan_ne_nil hinside bytes hlater

/-! ### Bytes that show a text of ASCII -/

theorem eq_none_of_mem_lead {n : Nat} (hn : 0x80 ≤ n) {read : Option Char} (h : read ∈ (lead n).2) : read = none := by
  rw [lead, if_neg (by omega)] at h
  repeat' split at h
  all_goals simp_all

/-- A byte beyond ASCII shows a character beyond ASCII, or is a part of something ill-formed. -/
theorem exists_beyond_ascii {progress : Progress} (hbeyond : progress.Beyond) {bytes : Bytes}
    (h : progress ≠ .ready ∨ ∃ b ∈ bytes, 0x80 ≤ b.toNat) :
    ∃ read ∈ scan progress bytes, ∀ c, read = some c → c.toNat = 0 ∨ 0x80 ≤ c.toNat := by
  induction bytes generalizing progress with
  | nil =>
    cases progress with
    | ready => simp at h
    | inside low high more value => exact ⟨none, List.mem_singleton_self _, nofun⟩
  | cons b bytes ih =>
    rw [scan_cons]
    by_cases hlater : (step progress b).1 ≠ .ready ∨ ∃ b ∈ bytes, 0x80 ≤ b.toNat
    · obtain ⟨read, hread, hc⟩ := ih (beyond_step hbeyond b) hlater
      exact ⟨read, List.mem_append_right _ hread, hc⟩
    · -- Nothing is left for later, so what the byte shows is shown at once.
      have hready : (step progress b).1 = .ready := Decidable.of_not_not fun hne => hlater (Or.inl hne)
      suffices hnow : ∃ read ∈ (step progress b).2, ∀ c, read = some c → c.toNat = 0 ∨ 0x80 ≤ c.toNat by
        obtain ⟨read, hread, hc⟩ := hnow
        exact ⟨read, List.mem_append_left _ hread, hc⟩
      cases progress with
      | ready =>
        have hb : 0x80 ≤ b.toNat := by
          obtain ⟨d, hd, hhigh⟩ := h.resolve_left fun hne => hne rfl
          rcases List.mem_cons.mp hd with rfl | hd
          · exact hhigh
          · exact absurd (Or.inr ⟨d, hd, hhigh⟩) hlater
        have hshown := (lead_shows b.toNat).resolve_right fun hne => hne hready
        obtain ⟨read, hread⟩ := List.exists_mem_of_ne_nil _ hshown
        refine ⟨read, hread, fun c hc => ?_⟩
        rw [eq_none_of_mem_lead hb hread] at hc
        cases hc
      | inside low high more value =>
        rw [step] at hready ⊢
        split
        · rename_i hrange
          rw [if_pos hrange] at hready
          cases more with
          | zero =>
            refine ⟨_, List.mem_singleton_self _, fun c hc => ?_⟩
            rcases Nat.eq_zero_or_pos c.toNat with hzero | hpos
            · exact Or.inl hzero
            · have hvalue := toNat_ofNat (Option.some.inj hc) hpos
              have hlow : 0x80 ≤ value * 64 + (low - 0x80) := by simpa [Progress.Beyond] using hbeyond
              omega
          | succ more => cases hready
        · exact ⟨none, List.mem_cons_self, nofun⟩

theorem encode_decodeLossy_of_ascii {bytes : Bytes} (h : ∀ b ∈ bytes, b.toNat < 0x80) :
    encode (decodeLossy bytes) = bytes := by
  induction bytes with
  | nil => rfl
  | cons b bytes ih =>
    obtain ⟨hb, hbytes⟩ := List.forall_mem_cons.mp h
    have hchar : ∀ n < 0x80, (Char.ofNat n).toNat = n := by decide
    have hdecode := decodeLossy_append_ascii [] hb bytes
    rw [List.nil_append, show decodeLossy [] = [] from rfl, List.nil_append] at hdecode
    rw [hdecode, encode_cons_ascii (by rwa [hchar _ hb]), ih hbytes, hchar _ hb, UInt8.ofNat_toNat]

/-- Whether a text is one of ASCII without the null character, which `Char.ofNat` also gives for a number that is no
    character. -/
def IsAscii (text : Text) : Prop := ∀ c ∈ text, 0 < c.toNat ∧ c.toNat < 0x80

instance (text : Text) : Decidable (IsAscii text) := List.decidableBAll _ text

/-- Bytes that show a text of ASCII are those of the text. -/
theorem eq_encode_of_decodeLossy {bytes : Bytes} (h : IsAscii (decodeLossy bytes)) :
    bytes = encode (decodeLossy bytes) := by
  refine (encode_decodeLossy_of_ascii fun b hb => Nat.lt_of_not_le fun hhigh => ?_).symm
  obtain ⟨read, hread, hc⟩ := exists_beyond_ascii (show Progress.ready.Beyond from trivial) (Or.inr ⟨b, hb, hhigh⟩)
  have hshown := h _ (List.mem_map_of_mem hread)
  cases read with
  | none => exact absurd hshown.2 (by decide)
  | some c =>
    rcases hc c rfl with hzero | hhigh
    · exact absurd hzero (Nat.ne_of_gt hshown.1)
    · exact absurd hshown.2 (Nat.not_lt_of_le hhigh)

end Relink.Utf8
