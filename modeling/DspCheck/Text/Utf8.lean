import DspCheck.Text.Basic

/-!
# Bytes of a text

Files are bytes.  `Text.ofUtf8?` reads them strictly.  `Text.ofUtf8Lossy` reads whatever is there:
each longest ill-formed run that could begin a scalar becomes one replacement character.
-/

namespace DspCheck
namespace Text

/-- The bytes of a text. -/
def bytes (t : Text) : List UInt8 :=
  t.flatMap String.utf8EncodeChar

/-- The UTF-8 form of a text. -/
def toUtf8 (t : Text) : ByteArray :=
  (String.ofList t).toUTF8

/-- The text with a given UTF-8 form, if the bytes are well formed. -/
def ofUtf8? (bytes : ByteArray) : Option Text :=
  (String.fromUTF8? bytes).map String.toList

/-- What was written is read back. -/
theorem ofUtf8?_toUtf8 (t : Text) : ofUtf8? (toUtf8 t) = some t := by
  have h : String.fromUTF8? (String.ofList t).toUTF8 = some (String.ofList t) :=
    dif_pos (String.ofList t).isValidUTF8
  rw [ofUtf8?, toUtf8, h, Option.map_some, String.toList_ofList]

/-- The character that stands for bytes that are no text. -/
def replacement : Char := '\uFFFD'

/-- Number of bytes that follow a lead byte, and the range of the first of them.

The ranges leave out forms that are longer than needed, surrogates, and what lies above the last
scalar. -/
def continuation? (lead : Nat) : Option (Nat × Nat × Nat) :=
  if 0xC2 ≤ lead && lead ≤ 0xDF then some (1, 0x80, 0xBF)
  else if lead = 0xE0 then some (2, 0xA0, 0xBF)
  else if lead = 0xED then some (2, 0x80, 0x9F)
  else if 0xE1 ≤ lead && lead ≤ 0xEF then some (2, 0x80, 0xBF)
  else if lead = 0xF0 then some (3, 0x90, 0xBF)
  else if 0xF1 ≤ lead && lead ≤ 0xF3 then some (3, 0x80, 0xBF)
  else if lead = 0xF4 then some (3, 0x80, 0x8F)
  else none

/-- The value bits of a lead byte with a given number of bytes after it. -/
def leadBits (lead following : Nat) : Nat :=
  lead % Nat.pow 2 (6 - following)

/-- Where the reader of bytes stands. -/
inductive Utf8State
  /-- Between scalars. -/
  | start
  /-- Inside a scalar: its value so far, the bytes still owed, and the range of the next one. -/
  | inside (value owed low high : Nat)
  deriving DecidableEq, Repr

/-- Reading a byte between scalars: what it gives at once, and where the reader then stands. -/
def readLead (byte : Nat) : Text × Utf8State :=
  if byte < 0x80 then ([Char.ofNat byte], .start)
  else
    match continuation? byte with
    | some (following, low, high) => ([], .inside (leadBits byte following) following low high)
    | none => ([replacement], .start)

/-- Reading one byte. -/
def readByte : Utf8State → Nat → Text × Utf8State
  | .start, byte => readLead byte
  | .inside value owed low high, byte =>
      if low ≤ byte && byte ≤ high then
        let value := value * 64 + byte % 64
        if owed = 1 then ([Char.ofNat value], .start)
        else ([], .inside value (owed - 1) 0x80 0xBF)
      else
        let next := readLead byte
        (replacement :: next.1, next.2)

/-- Reading bytes to their end; a scalar that the end cuts off is ill formed. -/
def readBytes : Utf8State → List UInt8 → Text
  | .start, [] => []
  | .inside .., [] => [replacement]
  | state, byte :: bytes =>
      let next := readByte state byte.toNat
      next.1 ++ readBytes next.2 bytes

/-- The text of arbitrary bytes. -/
def ofUtf8Lossy (bytes : ByteArray) : Text :=
  readBytes .start bytes.toList

end Text
end DspCheck
