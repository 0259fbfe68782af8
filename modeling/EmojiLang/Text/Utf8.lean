/-!
# Bytes and text

File contents are bytes.  `utf8Units` cuts a byte sequence into encoded characters; where the bytes
are no character, the longest part that could have begun one counts as a single unit without a
character.  A sequence is text if every unit is a character, and any sequence can be shown with a
replacement mark for each unit that is none.

**Results.** `utf8Units_ascii` says that bytes below `0x80` are characters by themselves.
-/

namespace EmojiLang
namespace Text

/-- The shape of a multi-byte character, by its first byte: the number of bytes that follow, the
bounds of the first of them, and the bits that the first byte contributes. -/
structure LeadByte where
  following : Nat
  low : Nat
  high : Nat
  bits : Nat
deriving Repr

/-- The shape that a first byte announces; overlong forms and surrogates are excluded by the bounds. -/
def leadByte (b : Nat) : Option LeadByte :=
  if b < 0xc2 then none
  else if b < 0xe0 then some ⟨1, 0x80, 0xbf, b - 0xc0⟩
  else if b = 0xe0 then some ⟨2, 0xa0, 0xbf, 0⟩
  else if b = 0xed then some ⟨2, 0x80, 0x9f, 0xd⟩
  else if b < 0xf0 then some ⟨2, 0x80, 0xbf, b - 0xe0⟩
  else if b = 0xf0 then some ⟨3, 0x90, 0xbf, 0⟩
  else if b < 0xf4 then some ⟨3, 0x80, 0xbf, b - 0xf0⟩
  else if b = 0xf4 then some ⟨3, 0x80, 0x8f, 4⟩
  else none

/-- Reads the bytes that a character still lacks: the number of bytes that belong to it, and its code
point if none is missing. -/
def following : (count low high bits : Nat) → List UInt8 → Nat × Option Nat
  | 0, _, _, bits, _ => (0, some bits)
  | _ + 1, _, _, _, [] => (0, none)
  | count + 1, low, high, bits, b :: rest =>
      if low ≤ b.toNat ∧ b.toNat ≤ high then
        let (n, point) := following count 0x80 0xbf (bits * 64 + (b.toNat - 0x80)) rest
        (n + 1, point)
      else
        (0, none)

/-- The units of a byte sequence whose first `skip` bytes belong to a unit read before. -/
def utf8UnitsFrom : (skip : Nat) → List UInt8 → List (Option Char)
  | _, [] => []
  | skip + 1, _ :: rest => utf8UnitsFrom skip rest
  | 0, b :: rest =>
      if b.toNat < 0x80 then
        some (Char.ofNat b.toNat) :: utf8UnitsFrom 0 rest
      else
        match leadByte b.toNat with
        | none => none :: utf8UnitsFrom 0 rest
        | some lead =>
            let (n, point) := following lead.following lead.low lead.high lead.bits rest
            point.map Char.ofNat :: utf8UnitsFrom n rest

/-- The characters and the faulty parts of a byte sequence. -/
def utf8Units (bytes : List UInt8) : List (Option Char) := utf8UnitsFrom 0 bytes

theorem utf8Units_ascii (b : UInt8) (rest : List UInt8) (h : b.toNat < 0x80) :
    utf8Units (b :: rest) = some (Char.ofNat b.toNat) :: utf8Units rest := by
  simp [utf8Units, utf8UnitsFrom, h]

/-- The text that a byte sequence encodes, if it encodes one. -/
def decode? (bytes : List UInt8) : Option String :=
  let units := utf8Units bytes
  if units.all Option.isSome then some (String.ofList (units.filterMap id)) else none

/-- The text of a byte sequence, with a replacement mark for each faulty part. -/
def decodeLossy (bytes : List UInt8) : String :=
  String.ofList ((utf8Units bytes).map fun unit => unit.getD '\ufffd')

/-- The bytes of a text. -/
def encode (text : String) : List UInt8 := text.toList.flatMap String.utf8EncodeChar

end Text
end EmojiLang
