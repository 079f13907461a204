import StateSpace.Text.Half

/-!
The bytes that a text takes where it is handed to the system, as the name of a file or the value of
a variable. A low half from U+DC80 to U+DCFF stands for a byte that belongs to no character; other
halves stand for no bytes, and a zero byte would end the text.
-/
namespace StateSpace.Text

/-- Why a text cannot be handed to the system. -/
inductive ByteError where
  | noEncoding
  | zeroByte
  deriving DecidableEq

def ByteError.message : ByteError → Option String
  | .noEncoding => none
  | .zeroByte => some "embedded null byte"

/-- A byte that belongs to no character is kept as the code point this far above it. -/
def loneBytes : Nat := 0xdc00

/-- The bytes of a code point. -/
def bytes? (code : Nat) : Option (List UInt8) :=
  if loneBytes + 0x80 ≤ code && code < loneBytes + 0x100 then some [UInt8.ofNat (code - loneBytes)]
  else if isHalf code then none
  else some (String.utf8EncodeChar (Char.ofNat code))

/-- The bytes of a text. That it has any comes before the question of a zero byte. -/
def bytesOf (s : String) : Except ByteError (List UInt8) :=
  match (codesOf s).mapM bytes? with
  | none => .error .noEncoding
  | some bytes => if s.contains (Char.ofNat 0) then .error .zeroByte else .ok bytes.flatten

/-- The code points that bytes are read as, from a place on. -/
def codesFrom (bytes : ByteArray) (i : Nat) : List Nat :=
  if h : i < bytes.size then
    match bytes.utf8DecodeChar? i with
    | some c => c.toNat :: codesFrom bytes (i + c.utf8Size)
    | none => (loneBytes + bytes[i].toNat) :: codesFrom bytes (i + 1)
  else []
termination_by bytes.size - i
decreasing_by
  · have := c.utf8Size_pos
    omega
  · omega

/-- A text as it is read back from its bytes: bytes that stood alone may make a character. -/
def reread (s : String) : String :=
  match bytesOf s with
  | .ok bytes => ofCodes (codesFrom (ByteArray.mk bytes.toArray) 0)
  | .error _ => s

example : (bytes? 0xe9).map List.length = some 2 ∧ bytes? 0xdc80 = some [0x80] ∧
    bytes? 0xd800 = none := by decide

end StateSpace.Text
