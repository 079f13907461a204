import StateSpace.Decimal.Places
import StateSpace.Defect
import StateSpace.Display
import StateSpace.Number

/-!
Templates: texts with places that values are put into. A place starts with a percent sign and ends
with the letter of its kind; between them may stand the name of a field in brackets, flags, a width,
and a precision behind a point. One value fills the first place that names no field; a list or a
record need not be used at all.
-/
namespace StateSpace.Value.Template

/-- Whether a code point is that of a character. -/
def isOf (c : Char) (code : Nat) : Bool := code == c.toNat

structure Flags where
  left : Bool
  plus : Bool
  blank : Bool
  alternate : Bool
  zero : Bool

def Flags.none : Flags := ⟨false, false, false, false, false⟩

/-- The flags with the one that a code point stands for, if it stands for one. -/
def Flags.with? (f : Flags) (code : Nat) : Option Flags :=
  if isOf '-' code then some { f with left := true }
  else if isOf '+' code then some { f with plus := true }
  else if isOf ' ' code then some { f with blank := true }
  else if isOf '#' code then some { f with alternate := true }
  else if isOf '0' code then some { f with zero := true }
  else Option.none

/-- Flags in any order and number, and what follows them. -/
def Flags.read (f : Flags) : List Nat → Flags × List Nat
  | [] => (f, [])
  | code :: rest =>
      match f.with? code with
      | some f => f.read rest
      | Option.none => (f, code :: rest)

/-- What is there to be put into places. -/
structure Supply where
  fields : Option Value
  next : Value
  isTaken : Bool

/-- A value as a supply; lists and records have something to be looked up in. -/
def Supply.ofValue (v : Value) : Supply :=
  { fields :=
      match v with
      | .list _ | .record _ => some v
      | _ => none
    next := v
    isTaken := false }

/-- The next value, which can be taken once. -/
def Supply.take (s : Supply) : Except Defect (Value × Supply) :=
  if s.isTaken then .error .wrongKind else .ok (s.next, { s with isTaken := true })

/-- Whether a value was left over that had to be used. -/
def Supply.isLeft (s : Supply) : Bool := s.fields.isNone && !s.isTaken

/-- The code points up to the bracket that closes one already open, and what follows it; brackets in
between stand in pairs. -/
def splitKey : Nat → List Nat → Option (List Nat × List Nat)
  | _, [] => none
  | depth, code :: rest =>
      let inside (depth : Nat) := (splitKey depth rest).map fun (key, rest) => (code :: key, rest)
      if isOf '(' code then inside (depth + 1)
      else if isOf ')' code then
        match depth with
        | 0 => some ([], rest)
        | depth + 1 => inside depth
      else inside depth

/-- The value that a field holds; lists have no fields of that kind. -/
def fieldOf (holder : Value) (key : List Nat) : Except Defect Value :=
  match holder with
  | .record fields =>
      match fields.lookup (Text.ofCodes key) with
      | some v => .ok v
      | none => .error .noField
  | _ => .error .wrongKind

/-- Turns to the field that a place names, if it names one. -/
def turnToField (s : Supply) : List Nat → Except Defect (Supply × List Nat)
  | [] => .ok (s, [])
  | code :: rest =>
      if isOf '(' code then
        match s.fields, splitKey 0 rest with
        | none, _ => .error .wrongKind
        | some _, none => .error (.template .openKey)
        | some holder, some (key, rest) => do
            .ok ({ s with next := ← fieldOf holder key, isTaken := false }, rest)
      else .ok (s, code :: rest)

def digitOf? (code : Nat) : Option Nat :=
  if '0'.toNat ≤ code ∧ code ≤ '9'.toNat then some (code - '0'.toNat) else none

/-- Digits as a number that goes on from one, and what follows them; a number beyond the limit is
refused. -/
def readDigits (limit : Nat) : Nat → List Nat → Option (Nat × List Nat)
  | n, [] => some (n, [])
  | n, code :: rest =>
      match digitOf? code with
      | none => some (n, code :: rest)
      | some digit =>
          if 10 * n + digit ≤ limit then readDigits limit (10 * n + digit) rest else none

/-- A width or a precision. A star takes it from the supply, where it may be below zero. -/
def readAmount (limit : Nat) (tooMuch : TemplateError) (s : Supply) :
    List Nat → Except Defect (Option Int × Supply × List Nat)
  | [] => .ok (none, s, [])
  | code :: rest =>
      if isOf '*' code then do
        let (v, s) ← s.take
        match v.toInt? with
        | none => .error .wrongKind
        | some n =>
            if n < -(limit : Int) - 1 ∨ (limit : Int) < n then .error .tooLarge
            else .ok (some n, s, rest)
      else if (digitOf? code).isSome then
        match readDigits limit 0 (code :: rest) with
        | none => .error (.template tooMuch)
        | some (n, rest) => .ok (some (n : Int), s, rest)
      else .ok (none, s, code :: rest)

/-- The largest width that can be counted. -/
def maxWidth : Nat := 0x7fffffffffffffff

/-- The largest precision that can be counted. -/
def maxPrecision : Nat := 0x7fffffff

/-- The most characters that a place has room for. -/
def maxRoom : Nat := 10000000

/-- What is said of a place before its kind. -/
structure Layout where
  flags : Flags
  width : Nat
  precision : Option Nat

/-- A precision behind its point, if there is one. -/
def readPrecision (s : Supply) : List Nat → Except Defect (Option Nat × Supply × List Nat)
  | [] => .ok (none, s, [])
  | code :: rest =>
      if isOf '.' code then do
        let (n, s, rest) ← readAmount maxPrecision .tooPrecise s rest
        .ok (some (n.getD 0).toNat, s, rest)
      else .ok (none, s, code :: rest)

/-- A width below zero puts the value to the left. -/
def readLayout (s : Supply) (codes : List Nat) : Except Defect (Layout × Supply × List Nat) := do
  let (flags, rest) := Flags.none.read codes
  let (width, s, rest) ← readAmount maxWidth .tooWide s rest
  let width := width.getD 0
  let (precision, s, rest) ← readPrecision s rest
  let flags := if width < 0 then { flags with left := true } else flags
  .ok ({ flags, width := width.natAbs, precision }, s, rest)

/-- A letter for the size of a number says nothing. -/
def skipSize : List Nat → List Nat
  | [] => []
  | code :: rest =>
      if isOf 'h' code || isOf 'l' code || isOf 'L' code then rest else code :: rest

def codesOfChars (cs : List Char) : List Nat := cs.map Char.toNat

/-- What is put into a place: a sign, a mark in front of the digits, and the rest. -/
structure Content where
  sign : List Nat
  mark : List Nat
  body : List Nat

def Content.size (c : Content) : Nat := c.sign.length + c.mark.length + c.body.length

/-- Content at the width of its place: to the right, unless it is to stand to the left, behind
blanks or, where that is wanted, with zeros behind the sign and the mark. -/
def Layout.align (l : Layout) (zero : Bool) (c : Content) : Except Defect (List Nat) :=
  let gap := l.width - c.size
  if maxRoom < gap then .error .noRoom
  else
    let fill (c : Char) := List.replicate gap c.toNat
    .ok <|
      if l.flags.left then c.sign ++ c.mark ++ c.body ++ fill ' '
      else if zero then c.sign ++ c.mark ++ fill '0' ++ c.body
      else fill ' ' ++ c.sign ++ c.mark ++ c.body

/-- The sign in front of a number that has none of its own. -/
def Flags.sign (f : Flags) : List Char :=
  if f.plus then ['+'] else if f.blank then [' '] else []

/-- A number in its place; the mark of its base is given apart. -/
def Layout.number (l : Layout) (isNegative : Bool) (mark digits : List Char) :
    Except Defect (List Nat) :=
  let sign := if isNegative then ['-'] else l.flags.sign
  l.align l.flags.zero ⟨codesOfChars sign, codesOfChars mark, codesOfChars digits⟩

/-- A text in its place, cut down to the precision. -/
def Layout.text (l : Layout) (codes : List Nat) : Except Defect (List Nat) :=
  let codes :=
    match l.precision with
    | some n => codes.take n
    | none => codes
  l.align false ⟨[], [], codes⟩

/-- A text in which all but the first 128 code points are escaped. -/
def escaped (s : String) : String :=
  String.ofList ((Text.codesOf s).flatMap fun code =>
    if code < 128 then [Char.ofNat code] else Text.escapeCode code)

/-- A text as it is, any other value in its quoted form. -/
def textOf : Value → Except Unwritable String
  | .text s => .ok s
  | v => v.write usualRoom

/-- The three ways to show any value. -/
def shown? (kind : Char) : Option (Value → Except Unwritable String) :=
  match kind with
  | 's' => some textOf
  | 'r' => some (write usualRoom)
  | 'a' => some fun v => (v.write usualRoom).map escaped
  | _ => none

/-- The integer in a number, which loses its fraction. -/
def wholeOf (v : Value) : Except Defect Int :=
  match v with
  | .real x =>
      match x.magnitude with
      | .nan => .error .notANumber
      | .infinite => .error .tooLarge
      | .finite mantissa exponent =>
          let (num, den) := Binary64.scale mantissa 1 exponent
          .ok (if x.isNegative then -((num / den : Nat) : Int) else (num / den : Nat))
  | v =>
      match v.toInt? with
      | some n => .ok n
      | none => .error .wrongKind

/-- The bases that integers are written in, with the marks for them; a real fits only the first. -/
def base? (kind : Char) : Option (Nat × List Char) :=
  match kind with
  | 'd' | 'i' | 'u' => some (10, [])
  | 'o' => some (8, ['0', 'o'])
  | 'x' => some (16, ['0', 'x'])
  | 'X' => some (16, ['0', 'X'])
  | _ => none

def integerOf (base : Nat) (v : Value) : Except Defect Int :=
  match base, v.toInt? with
  | _, some n => .ok n
  | 10, none => wholeOf v
  | _, none => .error .wrongKind

/-- An integer in a base, with as many digits as the precision says or more. -/
def Layout.integer (l : Layout) (kind : Char) (base : Nat) (mark : List Char) (v : Value) :
    Except Defect (List Nat) := do
  let n ← integerOf base v
  if base = 10 && !Decimal.isWritable n then .error (.unwritable .digits)
  else
    let digits := Nat.toDigits base n.natAbs
    let digits := if kind = 'X' then digits.map Char.toUpper else digits
    let more := (l.precision.getD 0) - digits.length
    if maxPrecision - 3 < l.precision.getD 0 then .error .tooLarge
    else if maxRoom < more then .error .noRoom
    else
      l.number (n < 0) (if l.flags.alternate then mark else []) (Decimal.zeros more ++ digits)

def form? (kind : Char) : Option Decimal.Form :=
  match kind.toLower with
  | 'f' => some .fixed
  | 'e' => some .power
  | 'g' => some .general
  | _ => none

/-- A real in one of its forms, in capitals for a capital letter. -/
def Layout.real (l : Layout) (kind : Char) (form : Decimal.Form) (v : Value) :
    Except Defect (List Nat) :=
  match Number.ofValue? v with
  | none => .error .wrongKind
  | some n =>
      match n.toReal? with
      | none => .error .tooLarge
      | some x =>
          if maxRoom < l.precision.getD 0 then .error .noRoom
          else
            let digits := Decimal.inForm form l.flags.alternate l.precision x
            let digits := if kind.isUpper then digits.map Char.toUpper else digits
            match digits with
            | '-' :: digits => l.number true [] digits
            | digits => l.number false [] digits

/-- One character: a text of it alone, or its code point. -/
def symbolOf (v : Value) : Except Defect Nat :=
  match v with
  | .text s =>
      match Text.codesOf s with
      | [code] => .ok code
      | _ => .error .wrongKind
  | v =>
      match v.toInt? with
      | none => .error .wrongKind
      | some n => if 0 ≤ n ∧ n ≤ 0x10ffff then .ok n.toNat else .error .tooLarge

/-- A value as a place of some kind shows it, unless there is no such kind. -/
def Layout.show? (l : Layout) (kind : Nat) (v : Value) : Option (Except Defect (List Nat)) :=
  let letter := Char.ofNat kind
  match shown? letter, base? letter, form? letter with
  | some shown, _, _ =>
      some (do l.text (Text.codesOf (← (shown v).mapError .unwritable)))
  | none, some (base, mark), _ => some (l.integer letter base mark v)
  | none, none, some form => some (l.real letter form v)
  | none, none, none =>
      if letter = 'c' then some (do l.align false ⟨[], [], [← symbolOf v]⟩) else none

/-- What a place shows, and what is left of the supply and of the template. The place's percent sign
is already read. -/
def place (size : Nat) (s : Supply) (codes : List Nat) :
    Except Defect (List Nat × Supply × List Nat) := do
  let (s, rest) ← turnToField s codes
  let (layout, s, rest) ← readLayout s rest
  match skipSize rest with
  | [] => .error (.template .incomplete)
  | kind :: rest => do
      let (v, s) ← s.take
      match layout.show? kind v with
      | none => .error (.template (.unknownKind kind (size - rest.length - 1)))
      | some shown => do .ok (← shown, s, rest)

/-- Fills a template of a size from some code point on. Two percent signs in a row stand for one. No
place is empty, so that as many turns as there are code points are enough. -/
def fillFrom (size : Nat) : Nat → Supply → List Nat → Except Defect (List Nat)
  | 0, s, _ => if s.isLeft then .error .wrongKind else .ok []
  | _ + 1, s, [] => if s.isLeft then .error .wrongKind else .ok []
  | turns + 1, s, code :: rest =>
      if !isOf '%' code then do .ok (code :: (← fillFrom size turns s rest))
      else if rest.head?.any (isOf '%') then do
        .ok (code :: (← fillFrom size turns s (rest.drop 1)))
      else do
        let (shown, s, rest) ← place size s rest
        .ok (shown ++ (← fillFrom size turns s rest))

/-- A template with a value in its places. -/
def fill (template : String) (v : Value) : Except Defect String := do
  let codes := Text.codesOf template
  .ok (Text.ofCodes (← fillFrom codes.length codes.length (.ofValue v) codes))

end StateSpace.Value.Template
