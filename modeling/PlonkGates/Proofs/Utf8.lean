import Mathlib.Order.Bounds.Basic
import PlonkGates.Proofs.Outcome
import PlonkGates.Text.Utf8

/-!
# Decoding undoes encoding

The decoder takes one sequence of bytes after the other. The sequences it takes are the encodings of
single characters (`Sequence.eq_encode`, `sequence_encode`), so what it returns for some bytes is
the one text that they encode (`decodeUtf8From_eq_ok_iff`). If it fails, the offset that it names is
where the longest beginning that encodes a text ends (`isGreatest_offset`).
-/

namespace PlonkGates.Text

/-! ## Bytes -/

theorem isContinuation_iff {b : UInt8} :
    isContinuation b = true ↔ 0x80 ≤ b.toNat ∧ b.toNat ≤ 0xbf := by
  simp [isContinuation, UInt8.le_iff_toNat_le]

theorem isSecondByte_iff {lead b : UInt8} :
    isSecondByte lead b = true ↔ 0x80 ≤ b.toNat ∧ b.toNat ≤ 0xbf ∧
      (lead.toNat = 0xe0 → 0xa0 ≤ b.toNat) ∧ (lead.toNat = 0xed → b.toNat ≤ 0x9f) ∧
      (lead.toNat = 0xf0 → 0x90 ≤ b.toNat) ∧ (lead.toNat = 0xf4 → b.toNat ≤ 0x8f) := by
  simp only [isSecondByte, ← UInt8.toNat_inj]
  split_ifs <;> simp [isContinuation_iff, UInt8.le_iff_toNat_le] at * <;> omega

/-- The sequences of bytes that are read as one code point, each with its code point. -/
inductive Sequence (n : Nat) : List UInt8 → Prop where
  | one {b₀ : UInt8} (h₀ : b₀.toNat < 0x80) (hn : b₀.toNat = n) : Sequence n [b₀]
  | two {b₀ b₁ : UInt8} (h₀ : 0xc2 ≤ b₀.toNat ∧ b₀.toNat < 0xe0) (h₁ : isSecondByte b₀ b₁ = true)
      (hn : (b₀.toNat - 0xc0) * 64 + payload b₁ = n) : Sequence n [b₀, b₁]
  | three {b₀ b₁ b₂ : UInt8} (h₀ : 0xe0 ≤ b₀.toNat ∧ b₀.toNat < 0xf0)
      (h₁ : isSecondByte b₀ b₁ = true) (h₂ : isContinuation b₂ = true)
      (hn : ((b₀.toNat - 0xe0) * 64 + payload b₁) * 64 + payload b₂ = n) :
      Sequence n [b₀, b₁, b₂]
  | four {b₀ b₁ b₂ b₃ : UInt8} (h₀ : 0xf0 ≤ b₀.toNat ∧ b₀.toNat ≤ 0xf4)
      (h₁ : isSecondByte b₀ b₁ = true) (h₂ : isContinuation b₂ = true)
      (h₃ : isContinuation b₃ = true)
      (hn : (((b₀.toNat - 0xf0) * 64 + payload b₁) * 64 + payload b₂) * 64 + payload b₃ = n) :
      Sequence n [b₀, b₁, b₂, b₃]

/-- The first byte of a longer sequence is neither a character nor out of range. -/
theorem leads_sequence {b : UInt8} (h : 0xc2 ≤ b.toNat ∧ b.toNat ≤ 0xf4) :
    ¬b < 0x80 ∧ ¬b < 0xc2 ∧ ¬0xf4 < b := by
  simp only [UInt8.lt_iff_toNat_lt, UInt8.reduceToNat]
  omega

/-- **A sequence at the front of some bytes is decoded into its character.** -/
theorem decodeUtf8From_append {bs : List UInt8} {n : Nat} (h : Sequence n bs)
    (rest : List UInt8) (offset : Nat) :
    decodeUtf8From offset (bs ++ rest) =
      (decodeUtf8From (offset + bs.length) rest).map (Char.ofNat n :: ·) := by
  cases h with
  | one h₀ hn =>
    rw [List.singleton_append, List.length_singleton, ← hn]
    conv_lhs => unfold decodeUtf8From
    rw [if_pos (UInt8.lt_iff_toNat_lt.mpr h₀)]
  | @two b₀ b₁ h₀ h₁ hn =>
    obtain ⟨hone, hlow, hhigh⟩ := leads_sequence (b := b₀) ⟨h₀.1, by omega⟩
    have htwo : b₀ < 0xe0 := UInt8.lt_iff_toNat_lt.mpr h₀.2
    conv_lhs => unfold decodeUtf8From
    simp [hone, hlow, hhigh, h₁, htwo, hn]
  | @three b₀ b₁ b₂ h₀ h₁ h₂ hn =>
    obtain ⟨hone, hlow, hhigh⟩ := leads_sequence (b := b₀) ⟨by omega, by omega⟩
    have htwo : ¬b₀ < 0xe0 := fun h => absurd (UInt8.lt_iff_toNat_lt.mp h) (Nat.not_lt.mpr h₀.1)
    have hthree : b₀ < 0xf0 := UInt8.lt_iff_toNat_lt.mpr h₀.2
    conv_lhs => unfold decodeUtf8From
    simp [hone, hlow, hhigh, h₁, htwo, h₂, hthree, hn]
  | @four b₀ b₁ b₂ b₃ h₀ h₁ h₂ h₃ hn =>
    obtain ⟨hone, hlow, hhigh⟩ := leads_sequence (b := b₀) ⟨by omega, h₀.2⟩
    have hthree : ¬b₀ < 0xf0 := fun h => absurd (UInt8.lt_iff_toNat_lt.mp h) (Nat.not_lt.mpr h₀.1)
    have htwo : ¬b₀ < 0xe0 := fun h => hthree (UInt8.lt_trans h (by decide))
    conv_lhs => unfold decodeUtf8From
    simp [hone, hlow, hhigh, h₁, htwo, h₂, hthree, h₃, hn]

/-- Bytes that do not start with a sequence are refused right there. -/
theorem sequence_or_error (b₀ : UInt8) (rest : List UInt8) (offset : Nat) :
    (∃ n bs more, Sequence n bs ∧ b₀ :: rest = bs ++ more) ∨
      ∃ reason, decodeUtf8From offset (b₀ :: rest) = .error ⟨offset, reason⟩ := by
  unfold decodeUtf8From
  simp only [UInt8.lt_iff_toNat_lt, UInt8.reduceToNat, Bool.or_eq_true, decide_eq_true_eq,
    Bool.not_eq_true']
  by_cases hone : b₀.toNat < 0x80
  · exact Or.inl ⟨_, [b₀], rest, .one hone rfl, rfl⟩
  rw [if_neg hone]
  by_cases hstart : b₀.toNat < 0xc2 ∨ 0xf4 < b₀.toNat
  · exact Or.inr ⟨_, if_pos hstart⟩
  rw [if_neg hstart]
  rcases rest with _ | ⟨b₁, rest⟩
  · exact Or.inr ⟨_, rfl⟩
  cases hsecond : isSecondByte b₀ b₁ with
  | false => exact Or.inr ⟨.continuationByte, by simp [hsecond]⟩
  | true =>
    by_cases htwo : b₀.toNat < 0xe0
    · exact Or.inl ⟨_, [b₀, b₁], rest, .two ⟨by omega, htwo⟩ hsecond rfl, rfl⟩
    rcases rest with _ | ⟨b₂, rest⟩
    · exact Or.inr ⟨.endOfData, by simp [hsecond, htwo]⟩
    cases hthird : isContinuation b₂ with
    | false => exact Or.inr ⟨.continuationByte, by simp [hsecond, htwo, hthird]⟩
    | true =>
      by_cases hthree : b₀.toNat < 0xf0
      · exact Or.inl ⟨_, [b₀, b₁, b₂], rest, .three ⟨by omega, hthree⟩ hsecond hthird rfl, rfl⟩
      rcases rest with _ | ⟨b₃, rest⟩
      · exact Or.inr ⟨.endOfData, by simp [hsecond, htwo, hthird, hthree]⟩
      cases hfourth : isContinuation b₃ with
      | false => exact Or.inr ⟨.continuationByte, by simp [hsecond, htwo, hthird, hthree, hfourth]⟩
      | true =>
        exact Or.inl ⟨_, [b₀, b₁, b₂, b₃], rest,
          .four ⟨by omega, by omega⟩ hsecond hthird hfourth rfl, rfl⟩

/-! ## Characters -/

theorem exists_byte {n : Nat} (h : n < 256) : ∃ b : UInt8, UInt8.ofNat n = b ∧ b.toNat = n :=
  ⟨UInt8.ofNat n, rfl, by rw [UInt8.toNat_ofNat', Nat.mod_eq_of_lt h]⟩

/-- **The encoding of a character is a sequence.** -/
theorem sequence_encode (c : Char) : Sequence c.toNat (String.utf8EncodeChar c) := by
  have hvalid : c.toNat < 0xd800 ∨ 0xdfff < c.toNat ∧ c.toNat < 0x110000 := c.valid
  rw [Char.toNat] at hvalid ⊢
  unfold String.utf8EncodeChar
  generalize c.val.toNat = v at hvalid
  obtain ⟨last, hlast, hl⟩ := exists_byte (show v % 64 + 128 < 256 by omega)
  obtain ⟨third, hthird, ht⟩ := exists_byte (show v / 64 % 64 + 128 < 256 by omega)
  dsimp only
  split_ifs with hone htwo hthree
  · obtain ⟨b₀, hb₀, h₀⟩ := exists_byte (show v < 256 by omega)
    rw [hb₀]
    exact .one (by omega) h₀
  · obtain ⟨b₀, hb₀, h₀⟩ := exists_byte (show v / 64 % 32 + 192 < 256 by omega)
    rw [hb₀, hlast]
    refine .two ?_ ?_ ?_
    · omega
    · rw [isSecondByte_iff]
      omega
    · unfold payload
      omega
  · obtain ⟨b₀, hb₀, h₀⟩ := exists_byte (show v / 4096 % 16 + 224 < 256 by omega)
    rw [hb₀, hthird, hlast]
    refine .three ?_ ?_ ?_ ?_
    · omega
    · rw [isSecondByte_iff]
      omega
    · rw [isContinuation_iff]
      omega
    · unfold payload
      omega
  · obtain ⟨b₀, hb₀, h₀⟩ := exists_byte (show v / 262144 % 8 + 240 < 256 by omega)
    obtain ⟨b₁, hb₁, h₁⟩ := exists_byte (show v / 4096 % 64 + 128 < 256 by omega)
    rw [hb₀, hb₁, hthird, hlast]
    refine .four ?_ ?_ ?_ ?_ ?_
    · omega
    · rw [isSecondByte_iff]
      omega
    · rw [isContinuation_iff]
      omega
    · rw [isContinuation_iff]
      omega
    · unfold payload
      omega

theorem ofNat_eq_byte {n : Nat} {b : UInt8} (h : b.toNat = n) : UInt8.ofNat n = b := by
  rw [← h, UInt8.ofNat_toNat]

theorem toNat_ofNat_char {n : Nat} (h : n.isValidChar) : (Char.ofNat n).val.toNat = n := by
  rw [Char.ofNat, dif_pos h]
  rfl

/-- **A sequence is the encoding of its character.** -/
theorem Sequence.eq_encode {bs : List UInt8} {n : Nat} (h : Sequence n bs) :
    String.utf8EncodeChar (Char.ofNat n) = bs := by
  unfold String.utf8EncodeChar
  cases h with
  | one h₀ hn =>
    rw [toNat_ofNat_char (Or.inl (by omega))]
    dsimp only
    rw [if_pos (by omega), ofNat_eq_byte hn]
  | two h₀ h₁ hn =>
    rw [isSecondByte_iff] at h₁
    unfold payload at hn
    rw [toNat_ofNat_char (Or.inl (by omega))]
    dsimp only
    rw [if_neg (by omega), if_pos (by omega)]
    simp only [List.cons.injEq, and_true]
    exact ⟨ofNat_eq_byte (by omega), ofNat_eq_byte (by omega)⟩
  | three h₀ h₁ h₂ hn =>
    rw [isSecondByte_iff] at h₁
    rw [isContinuation_iff] at h₂
    unfold payload at hn
    rw [toNat_ofNat_char (by rw [Nat.isValidChar]; omega)]
    dsimp only
    rw [if_neg (by omega), if_neg (by omega), if_pos (by omega)]
    simp only [List.cons.injEq, and_true]
    exact ⟨ofNat_eq_byte (by omega), ofNat_eq_byte (by omega), ofNat_eq_byte (by omega)⟩
  | four h₀ h₁ h₂ h₃ hn =>
    rw [isSecondByte_iff] at h₁
    rw [isContinuation_iff] at h₂ h₃
    unfold payload at hn
    rw [toNat_ofNat_char (by rw [Nat.isValidChar]; omega)]
    dsimp only
    rw [if_neg (by omega), if_neg (by omega), if_neg (by omega)]
    simp only [List.cons.injEq, and_true]
    exact ⟨ofNat_eq_byte (by omega), ofNat_eq_byte (by omega), ofNat_eq_byte (by omega),
      ofNat_eq_byte (by omega)⟩

/-! ## Texts -/

theorem encodeUtf8_cons (c : Char) (cs : List Char) :
    encodeUtf8 (c :: cs) = String.utf8EncodeChar c ++ encodeUtf8 cs := rfl

/-- The text at the front of some bytes is decoded, and then the rest of them is. -/
theorem decodeUtf8From_encodeUtf8_append (cs : List Char) (rest : List UInt8) (offset : Nat) :
    decodeUtf8From offset (encodeUtf8 cs ++ rest) =
      (decodeUtf8From (offset + (encodeUtf8 cs).length) rest).map (cs ++ ·) := by
  induction cs generalizing offset with
  | nil => cases h : decodeUtf8From offset rest <;> simp [encodeUtf8, h, Except.map]
  | cons c cs ih =>
    rw [encodeUtf8_cons, List.append_assoc, decodeUtf8From_append (sequence_encode c), ih,
      Char.ofNat_toNat, List.length_append, Nat.add_assoc]
    cases decodeUtf8From (offset + _) rest <;> rfl

theorem decodeUtf8From_encodeUtf8 (cs : List Char) (offset : Nat) :
    decodeUtf8From offset (encodeUtf8 cs) = .ok cs := by
  have h := decodeUtf8From_encodeUtf8_append cs [] offset
  rwa [List.append_nil, decodeUtf8From, ok_map, List.append_nil] at h

theorem Sequence.length_pos {bs : List UInt8} {n : Nat} (h : Sequence n bs) : 0 < bs.length := by
  cases h <;> exact Nat.succ_pos _

/-- Bytes encode a text, or they are refused behind a beginning that encodes one. -/
theorem encodes_or_error (bytes : List UInt8) (offset : Nat) :
    (∃ cs, encodeUtf8 cs = bytes) ∨ ∃ cs reason, encodeUtf8 cs <+: bytes ∧
      decodeUtf8From offset bytes = .error ⟨offset + (encodeUtf8 cs).length, reason⟩ := by
  induction hlength : bytes.length using Nat.strong_induction_on generalizing bytes offset with
  | _ length ih =>
    rcases bytes with _ | ⟨b, bytes⟩
    · exact Or.inl ⟨[], rfl⟩
    rcases sequence_or_error b bytes offset with ⟨n, bs, more, hsequence, heq⟩ | ⟨reason, herror⟩
    · -- one character is taken off the front, and the rest is shorter
      have hpos := hsequence.length_pos
      have hbytes : bs.length + more.length = length := by
        rw [← hlength, heq, List.length_append]
      rw [heq]
      rcases ih more.length (by omega) more (offset + bs.length) rfl with
        ⟨cs, rfl⟩ | ⟨cs, reason, hfront, herror⟩
      · exact Or.inl ⟨Char.ofNat n :: cs, by rw [encodeUtf8_cons, hsequence.eq_encode]⟩
      · refine Or.inr ⟨Char.ofNat n :: cs, reason, ?_, ?_⟩
        · rw [encodeUtf8_cons, hsequence.eq_encode]
          exact (List.prefix_append_right_inj bs).mpr hfront
        · rw [decodeUtf8From_append hsequence, herror, error_map, encodeUtf8_cons,
            hsequence.eq_encode, List.length_append, Nat.add_assoc]
    · exact Or.inr ⟨[], reason, List.nil_prefix, herror⟩

variable {bytes : List UInt8} {failure : Utf8Failure}

/-- **Bytes are decoded exactly into the text that they encode.** -/
theorem decodeUtf8From_eq_ok_iff {offset : Nat} {cs : List Char} :
    decodeUtf8From offset bytes = .ok cs ↔ encodeUtf8 cs = bytes := by
  constructor
  · intro h
    rcases encodes_or_error bytes offset with ⟨ds, rfl⟩ | ⟨ds, reason, -, herror⟩
    · rw [decodeUtf8From_encodeUtf8] at h
      rw [Except.ok.inj h]
    · rw [h] at herror
      cases herror
  · rintro rfl
    exact decodeUtf8From_encodeUtf8 cs offset

theorem exists_prefix_of_error {offset : Nat} (h : decodeUtf8From offset bytes = .error failure) :
    ∃ cs, encodeUtf8 cs <+: bytes ∧ offset + (encodeUtf8 cs).length = failure.offset := by
  rcases encodes_or_error bytes offset with ⟨cs, rfl⟩ | ⟨cs, reason, hfront, herror⟩
  · rw [decodeUtf8From_encodeUtf8] at h
    cases h
  · rw [h] at herror
    cases herror
    exact ⟨cs, hfront, rfl⟩

/-- **The offset of a failure is the length of the longest beginning that encodes a text.** -/
theorem isGreatest_offset (h : decodeUtf8 bytes = .error failure) :
    IsGreatest {n | ∃ cs, encodeUtf8 cs <+: bytes ∧ (encodeUtf8 cs).length = n} failure.offset := by
  constructor
  · obtain ⟨cs, hfront, hoffset⟩ := exists_prefix_of_error h
    exact ⟨cs, hfront, by omega⟩
  · -- what is decoded of a beginning is no failure, so the failure is behind it
    rintro n ⟨cs, ⟨rest, rfl⟩, rfl⟩
    rw [decodeUtf8, decodeUtf8From_encodeUtf8_append] at h
    cases hrest : decodeUtf8From (0 + (encodeUtf8 cs).length) rest with
    | ok ds =>
      rw [hrest] at h
      cases h
    | error cause =>
      rw [hrest, error_map, Except.error.injEq] at h
      obtain ⟨ds, -, hoffset⟩ := exists_prefix_of_error hrest
      rw [← h]
      omega

end PlonkGates.Text
