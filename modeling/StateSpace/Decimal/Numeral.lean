import StateSpace.Binary64
import StateSpace.Text.Blank
import StateSpace.Text.Digit
import StateSpace.Text.Quoted

/-!
Numbers read from text: white space around, an optional sign, digits of any script, and single
underscores between digits.
-/
namespace StateSpace.Decimal

/-- Digits read so far: their value and how many there were. -/
structure Numeral where
  value : Nat
  count : Nat
  deriving DecidableEq

def Numeral.push (n : Numeral) (digit : Nat) : Numeral :=
  { value := 10 * n.value + digit, count := n.count + 1 }

/-- The longest run of digits, where an underscore may stand between two digits. -/
def Numeral.scan (n : Numeral) : List Char → Numeral × List Char
  | [] => (n, [])
  | c :: rest =>
      match Text.digitValue? c with
      | some digit => (n.push digit).scan rest
      | none =>
          if c = '_' ∧ n.count > 0 then
            match rest with
            | [] => (n, [c])
            | d :: tail =>
                match Text.digitValue? d with
                | some digit => (n.push digit).scan tail
                | none => (n, c :: d :: tail)
          else (n, c :: rest)

def Numeral.empty : Numeral := ⟨0, 0⟩

/-- The sign in front, if there is one. -/
def splitSign : List Char → Bool × List Char
  | '-' :: rest => (true, rest)
  | '+' :: rest => (false, rest)
  | text => (false, text)

/-- Why a text is no integer. -/
inductive IntegerError where
  | malformed
  | tooLong (digits : Nat)
  deriving DecidableEq

/-- The most digits that an integer may be written with. -/
def maxDigits : Nat := 4300

/-- The most characters of a refused text that a message shows. -/
def shownLength : Nat := 200

/-- What is said of a text that is no integer. -/
def IntegerError.message (text : String) : IntegerError → String
  | .malformed =>
      "invalid literal for int() with base 10: " ++
        String.ofList ((Text.quoted text).toList.take shownLength)
  | .tooLong digits =>
      s!"Exceeds the limit ({maxDigits} digits) for integer string conversion: " ++
        s!"value has {digits} digits; use sys.set_int_max_str_digits() to increase the limit"

/-- Whether an integer has few enough digits to be written. -/
def isWritable (n : Int) : Bool := n.natAbs < tenPow maxDigits

theorem isWritable_tenPow {digits : Nat} :
    isWritable (tenPow digits) = true ↔ digits < maxDigits := by
  rw [isWritable, Int.natAbs_natCast, decide_eq_true_iff, tenPow_lt_tenPow_iff]

theorem isWritable_tenPow_maxDigits : isWritable (tenPow maxDigits) = false :=
  Bool.eq_false_iff.mpr (mt isWritable_tenPow.mp (Nat.lt_irrefl maxDigits))

/-- What is said where an integer with too many digits would have to be written. -/
def unwritable : String :=
  s!"Exceeds the limit ({maxDigits} digits) for integer string conversion; " ++
    "use sys.set_int_max_str_digits() to increase the limit"

/-- The integer that a text stands for. Length is judged before what follows the digits, unless
that is an underscore. -/
def integer (text : String) : Except IntegerError Int :=
  let (negative, body) := splitSign (Text.trimBy Text.isPadding text).toList
  let (n, rest) := Numeral.empty.scan body
  if n.count = 0 ∨ rest.head? = some '_' then .error .malformed
  else if n.count > maxDigits then .error (.tooLong n.count)
  else if rest ≠ [] then .error .malformed
  else .ok (if negative then -(n.value : Int) else n.value)

/-- The exponent part: a sign and digits after the letter `e`. -/
def exponentPart : List Char → Option (Int × List Char)
  | c :: rest =>
      if c = 'e' ∨ c = 'E' then
        let (negative, body) := splitSign rest
        let (n, tail) := Numeral.empty.scan body
        if n.count = 0 then none else some (if negative then -(n.value : Int) else n.value, tail)
      else some (0, c :: rest)
  | [] => some (0, [])

/-- A number with optional fraction and exponent; the underscores of the fraction stand between its
own digits. -/
def unsignedReal? (negative : Bool) (body : List Char) : Option Binary64 :=
  let (whole, rest) := Numeral.empty.scan body
  let (fraction, rest) :=
    match rest with
    | '.' :: tail => Numeral.empty.scan tail
    | _ => (Numeral.empty, rest)
  if whole.count + fraction.count = 0 then
    none
  else
    match exponentPart rest with
    | some (exponent, []) =>
        let digits := whole.value * tenPow fraction.count + fraction.value
        some (Binary64.ofDecimal negative digits (exponent - fraction.count))
    | _ => none

/-- The number that a text stands for, infinities and NaN by name in any case included. -/
def real? (text : String) : Option Binary64 :=
  let (negative, body) := splitSign (Text.trimBy Text.isPadding text).toList
  let name := String.ofList (body.map Char.toLower)
  if name = "inf" ∨ name = "infinity" then
    some (Binary64.ofSignBits negative Binary64.infinityBits)
  else if name = "nan" then
    some Binary64.quietNan
  else
    unsignedReal? negative body

end StateSpace.Decimal
