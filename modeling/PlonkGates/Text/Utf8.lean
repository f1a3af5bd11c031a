/-!
# UTF-8

Decoding of bytes into characters, with the place and the reason of the first failure. A sequence
is well formed when it is the shortest encoding of a scalar value.
-/

namespace PlonkGates.Text

/-- Why bytes are not UTF-8. -/
inductive Utf8Reason where
  /-- No sequence starts with this byte. -/
  | startByte
  /-- A byte does not continue the sequence before it. -/
  | continuationByte
  /-- The data ends inside a sequence. -/
  | endOfData
deriving DecidableEq, Repr

def Utf8Reason.message : Utf8Reason → String
  | .startByte => "invalid start byte"
  | .continuationByte => "invalid continuation byte"
  | .endOfData => "unexpected end of data"

/-- The offset of the sequence that is not well formed, and what is wrong with it. -/
structure Utf8Failure where
  offset : Nat
  reason : Utf8Reason
deriving DecidableEq, Repr

/-- Any byte that may continue a sequence. -/
def isContinuation (b : UInt8) : Bool := 0x80 ≤ b && b ≤ 0xbf

/--
The second byte of a sequence is narrowed after four leading bytes, so that overlong forms,
surrogates and values above the last code point are left out.
-/
def isSecondByte (lead b : UInt8) : Bool :=
  if lead = 0xe0 then 0xa0 ≤ b && b ≤ 0xbf
  else if lead = 0xed then 0x80 ≤ b && b ≤ 0x9f
  else if lead = 0xf0 then 0x90 ≤ b && b ≤ 0xbf
  else if lead = 0xf4 then 0x80 ≤ b && b ≤ 0x8f
  else isContinuation b

/-- The payload of a byte that continues a sequence. -/
def payload (b : UInt8) : Nat := b.toNat - 0x80

/-- Decodes bytes that start at `offset` of the whole data. -/
def decodeUtf8From (offset : Nat) : List UInt8 → Except Utf8Failure (List Char)
  | [] => .ok []
  | b₀ :: rest =>
    if b₀ < 0x80 then
      (decodeUtf8From (offset + 1) rest).map (Char.ofNat b₀.toNat :: ·)
    else if b₀ < 0xc2 || 0xf4 < b₀ then .error ⟨offset, .startByte⟩
    else match rest with
      | [] => .error ⟨offset, .endOfData⟩
      | b₁ :: rest₁ =>
        if !isSecondByte b₀ b₁ then .error ⟨offset, .continuationByte⟩
        else if b₀ < 0xe0 then
          (decodeUtf8From (offset + 2) rest₁).map
            (Char.ofNat ((b₀.toNat - 0xc0) * 64 + payload b₁) :: ·)
        else match rest₁ with
          | [] => .error ⟨offset, .endOfData⟩
          | b₂ :: rest₂ =>
            if !isContinuation b₂ then .error ⟨offset, .continuationByte⟩
            else if b₀ < 0xf0 then
              (decodeUtf8From (offset + 3) rest₂).map
                (Char.ofNat (((b₀.toNat - 0xe0) * 64 + payload b₁) * 64 + payload b₂) :: ·)
            else match rest₂ with
              | [] => .error ⟨offset, .endOfData⟩
              | b₃ :: rest₃ =>
                if !isContinuation b₃ then .error ⟨offset, .continuationByte⟩
                else
                  (decodeUtf8From (offset + 4) rest₃).map
                    (Char.ofNat ((((b₀.toNat - 0xf0) * 64 + payload b₁) * 64 + payload b₂) * 64
                      + payload b₃) :: ·)

/-- The characters that the bytes encode, or the first place where they encode none. -/
def decodeUtf8 (bytes : List UInt8) : Except Utf8Failure (List Char) := decodeUtf8From 0 bytes

/-- The bytes of a text. -/
def encodeUtf8 (cs : List Char) : List UInt8 := cs.flatMap String.utf8EncodeChar

end PlonkGates.Text
