import StateSpace.Value
import StateSpace.Decimal.Numeral
import StateSpace.Text.Half

/-!
Reading JSON. Integers are unbounded and kept apart from reals; the three names of infinities and
NaN are numbers; of two fields with one name the later value stands, in the earlier place.
-/
namespace StateSpace.Json

open Text (isHighHalf isLowHalf keep)

inductive ReadError where
  | malformed
  | tooLong (digits : Nat)
  | tooDeep
  deriving DecidableEq

def isSpace (c : Char) : Bool := c == ' ' || c == '\t' || c == '\n' || c == '\r'

def skipSpace (cs : List Char) : List Char := cs.dropWhile isSpace

/-- The text after a word that has to stand here. -/
def after? : List Char → List Char → Option (List Char)
  | [], cs => some cs
  | _ :: _, [] => none
  | w :: ws, c :: cs => if w = c then after? ws cs else none

/-! ### Numbers -/

def digitOf? (c : Char) : Option Nat :=
  if '0' ≤ c ∧ c ≤ '9' then some (c.toNat - 48) else none

def scanDigits (n : Decimal.Numeral) : List Char → Decimal.Numeral × List Char
  | [] => (n, [])
  | c :: rest =>
      match digitOf? c with
      | some digit => scanDigits (n.push digit) rest
      | none => (n, c :: rest)

/-- The digits of a fraction after its point; without digits there is no fraction. -/
def fractionOf (cs : List Char) : Decimal.Numeral × List Char :=
  match cs with
  | '.' :: rest =>
      match scanDigits .empty rest with
      | (⟨_, 0⟩, _) => (.empty, cs)
      | found => found
  | _ => (.empty, cs)

/-- The exponent after its letter; without digits there is no exponent. -/
def exponentOf? : List Char → Option (Int × List Char)
  | [] => none
  | c :: rest =>
      if c = 'e' ∨ c = 'E' then
        let (negative, body) := Decimal.splitSign rest
        match scanDigits .empty body with
        | (⟨_, 0⟩, _) => none
        | (n, tail) => some (if negative then -(n.value : Int) else n.value, tail)
      else none

def unsignedNumber (negative : Bool) (cs : List Char) : Except ReadError (Value × List Char) :=
  let (whole, rest) :=
    match cs with
    | '0' :: tail => ((⟨0, 1⟩ : Decimal.Numeral), tail)
    | _ => scanDigits .empty cs
  if whole.count = 0 then
    .error .malformed
  else
    let (fraction, rest) := fractionOf rest
    let digits := whole.value * tenPow fraction.count + fraction.value
    match exponentOf? rest with
    | some (exponent, tail) =>
        .ok (.real (Binary64.ofDecimal negative digits (exponent - fraction.count)), tail)
    | none =>
        if fraction.count > 0 then
          .ok (.real (Binary64.ofDecimal negative digits (-(fraction.count : Int))), rest)
        else if whole.count > Decimal.maxDigits then
          .error (.tooLong whole.count)
        else
          .ok (.int (if negative then -(whole.value : Int) else whole.value), rest)

def number (cs : List Char) : Except ReadError (Value × List Char) :=
  match cs with
  | '-' :: rest =>
      match after? "Infinity".toList rest with
      | some tail => .ok (.real (Binary64.ofSignBits true Binary64.infinityBits), tail)
      | none => unsignedNumber true rest
  | _ => unsignedNumber false cs

/-! ### Texts -/

def hexDigitOf? (c : Char) : Option Nat :=
  if '0' ≤ c ∧ c ≤ '9' then some (c.toNat - 48)
  else if 'a' ≤ c ∧ c ≤ 'f' then some (c.toNat - 87)
  else if 'A' ≤ c ∧ c ≤ 'F' then some (c.toNat - 55)
  else none

def codeUnit? : List Char → Option (Nat × List Char)
  | a :: b :: c :: d :: rest => do
      let w ← hexDigitOf? a
      let x ← hexDigitOf? b
      let y ← hexDigitOf? c
      let z ← hexDigitOf? d
      some (w * 4096 + x * 256 + y * 16 + z, rest)
  | _ => none

/-- The code point after a backslash and `u`; two halves in a row make one code point. -/
def escapedCode? (cs : List Char) : Option (Nat × List Char) := do
  let (high, rest) ← codeUnit? cs
  let lower : Option (Nat × List Char) :=
    if isHighHalf high then
      match rest with
      | '\x5c' :: 'u' :: tail => codeUnit? tail
      | _ => none
    else none
  match lower with
  | some (low, tail) =>
      if isLowHalf low then
        some (0x10000 + (high - 0xd800) * 0x400 + (low - 0xdc00), tail)
      else some (high, rest)
  | none => some (high, rest)

def escapes : List (Char × Char) :=
  [ ('\x22', '\x22'), ('\x5c', '\x5c'), ('/', '/'), ('b', '\x08'), ('f', '\x0c'), ('n', '\n'),
    ('r', '\r'), ('t', '\t') ]

/-- The rest of a text whose opening quote is read; `done` holds its characters so far, last
first. -/
def textBody : Nat → List Char → List Char → Except ReadError (String × List Char)
  | 0, _, _ => .error .malformed
  | _, _, [] => .error .malformed
  | fuel + 1, done, c :: rest =>
      if c = '\x22' then .ok (String.ofList done.reverse, rest)
      else if c = '\x5c' then
        match rest with
        | [] => .error .malformed
        | 'u' :: tail =>
            match escapedCode? tail with
            | some (code, tail) => textBody fuel ((keep code).reverse ++ done) tail
            | none => .error .malformed
        | e :: tail =>
            match escapes.lookup e with
            | some d => textBody fuel (d :: done) tail
            | none => .error .malformed
      else if c.toNat < 0x20 then .error .malformed
      else textBody fuel (c :: done) rest

/-! ### Values -/

/-- Puts a field in place: a known name keeps its place and takes the new value. -/
def putField (name : String) (v : Value) : List (String × Value) → List (String × Value)
  | [] => [(name, v)]
  | (k, w) :: rest => if k = name then (k, v) :: rest else (k, w) :: putField name v rest

mutual

/-- A value that may hold values inside one another down to a number of levels. -/
def value : Nat → Nat → List Char → Except ReadError (Value × List Char)
  | 0, _, _ => .error .malformed
  | fuel + 1, levels, cs =>
      match cs, levels with
      | '\x22' :: rest, _ => do
          let (s, tail) ← textBody (rest.length + 1) [] rest
          .ok (.text s, tail)
      | '\x5b' :: _, 0 | '\x7b' :: _, 0 => .error .tooDeep
      | '\x5b' :: rest, levels + 1 =>
          match skipSpace rest with
          | '\x5d' :: tail => .ok (.list [], tail)
          | body => do
              let (vs, tail) ← items fuel levels body
              .ok (.list vs, tail)
      | '\x7b' :: rest, levels + 1 =>
          match skipSpace rest with
          | '\x7d' :: tail => .ok (.record [], tail)
          | body => do
              let (fields, tail) ← fields fuel levels [] body
              .ok (.record fields, tail)
      | _, _ =>
          match after? "null".toList cs, after? "true".toList cs, after? "false".toList cs,
              after? "NaN".toList cs, after? "Infinity".toList cs with
          | some tail, _, _, _, _ => .ok (.null, tail)
          | _, some tail, _, _, _ => .ok (.bool true, tail)
          | _, _, some tail, _, _ => .ok (.bool false, tail)
          | _, _, _, some tail, _ => .ok (.real Binary64.quietNan, tail)
          | _, _, _, _, some tail => .ok (.real Binary64.infinity, tail)
          | _, _, _, _, _ => number cs

/-- The items of a list up to its closing bracket; at least one has to come. -/
def items : Nat → Nat → List Char → Except ReadError (List Value × List Char)
  | 0, _, _ => .error .malformed
  | fuel + 1, levels, cs => do
      let (v, rest) ← value fuel levels cs
      match skipSpace rest with
      | '\x5d' :: tail => .ok ([v], tail)
      | ',' :: tail =>
          let (vs, tail) ← items fuel levels (skipSpace tail)
          .ok (v :: vs, tail)
      | _ => .error .malformed

/-- The fields of a record up to its closing brace; at least one has to come. -/
def fields : Nat → Nat → List (String × Value) → List Char →
    Except ReadError (List (String × Value) × List Char)
  | 0, _, _, _ => .error .malformed
  | fuel + 1, levels, done, cs =>
      match cs with
      | '\x22' :: rest => do
          let (name, rest) ← textBody (rest.length + 1) [] rest
          match skipSpace rest with
          | ':' :: rest =>
              let (v, rest) ← value fuel levels (skipSpace rest)
              let done := putField name v done
              match skipSpace rest with
              | '\x7d' :: tail => .ok (done, tail)
              | ',' :: tail => fields fuel levels done (skipSpace tail)
              | _ => .error .malformed
          | _ => .error .malformed
      | _ => .error .malformed

end

/-- How deep lists and records may stand inside one another. -/
def maxLevels : Nat := 990

/-- The one value of a document, with white space around it. -/
def read (s : String) : Except ReadError Value := do
  let cs := skipSpace s.toList
  let (v, rest) ← value (2 * cs.length + 2) maxLevels cs
  if (skipSpace rest).isEmpty then .ok v else .error .malformed

end StateSpace.Json
