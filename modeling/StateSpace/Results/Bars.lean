import StateSpace.Results.Table
import StateSpace.Results.Ticks

/-!
Bars from values. An axis lists names or measures numbers, as the first value that decides it says.
Bars stand at the places of their names, or at the numbers that they have for names, and are as high
as the numbers, or the places of the names, that are to be shown.
-/
namespace StateSpace.Results

/-- The nearest real. -/
def toReal (n : Number) : Except ShowError Binary64 :=
  match n.toReal? with
  | some x => .ok x
  | none => .error .tooLarge

inductive Scale where
  | names
  | numbers

/-- Whether a value says what an axis shows; null, infinities and NaN do not. -/
def isDecisive (v : Value) : Except ShowError Bool :=
  match v with
  | .null => .ok false
  | .real x => .ok x.isFinite
  | .int n => do
      let _ ← toReal (.int n)
      .ok true
  | _ => .ok true

/-- The first value that says what an axis shows; where there is none, the first of all. -/
def decisive? : List Value → Except ShowError (Option Value)
  | [] => .ok none
  | v :: rest => do
      if ← isDecisive v then .ok (some v)
      else .ok (some ((← decisive? rest).getD v))

def text? : Value → Option String
  | .text s => some s
  | _ => none

/-- What an axis shows that is given some values. All of them are names if one of them has to be. -/
def scaleOf (values : List Value) : Except ShowError Scale := do
  match ← decisive? values with
  | some (.text _) => if values.all (text? · |>.isSome) then .ok .names else .error .notNumber
  | some (.record (_ :: _)) => .error .notNumber
  | _ => .ok .numbers

/-- The most levels of nested lists. -/
def maxLevels : Nat := 64

mutual

/-- The shape of a value; lists side by side have to have the same. -/
def shape? : Value → Option Shape
  | .list vs => shapeOfItems? vs
  | .tuple vs => shapeOfItems? vs
  | _ => some []

def shapeOfItems? : List Value → Option Shape
  | [] => some [0]
  | v :: vs =>
      match shape? v, shapeOfItems? vs with
      | some s, some (n :: t) => if n = 0 ∨ s = t then some ((n + 1) :: s) else none
      | _, _ => none

end

def shapeOf (values : List Value) : Except ShowError Shape :=
  match shapeOfItems? values with
  | some s => if s.length ≤ maxLevels then .ok s else .error .ragged
  | none => .error .ragged

/-- Whether two shapes go together: lengths of one level are the same, or one of the two is one. -/
def goTogether (s t : Shape) : Bool :=
  (s.reverse.zip t.reverse).all fun (m, n) => m == n || m == 1 || n == 1

def checkShapes (places heights : Shape) : Except ShowError Unit :=
  if goTogether places heights then .ok () else .error (.mismatch places heights)

/-- The place of each item among the different items, which stand in the order in which they first
appear. -/
def placesOf (items : List String) : List Binary64 :=
  items.map fun item => Binary64.ofRatio false (items.eraseDups.idxOf item) 1

/-- An integer that is measured has to fit in 64 bits with its sign. -/
def fits : Number → Bool
  | .int n => -(twoPow 63 : Int) ≤ n && n < twoPow 63
  | .real _ => true

/-- Numbers as heights, or the first value that is none. -/
inductive Heights where
  | all (xs : List Binary64)
  | upTo (v : Value)

/-- Values as heights, as far as they are numbers. -/
def measured : List Value → Except ShowError Heights
  | [] => .ok (.all [])
  | v :: rest =>
      match Number.ofValue? v with
      | none => .ok (.upTo v)
      | some n => do
          if !fits n then .error .tooLarge
          else
            let x ← toReal n
            match ← measured rest with
            | .all xs => .ok (.all (x :: xs))
            | .upTo w => .ok (.upTo w)

def heightsOn (scale : Scale) (values : List Value) : Except ShowError Heights :=
  match scale with
  | .names => .ok (.all (placesOf (values.filterMap text?)))
  | .numbers => measured values

/-- The width of a bar. -/
def width : Binary64 := Range.decimal 8 (-1)

/-- The left ends of bars and their width. -/
structure Stand where
  lefts : List Binary64
  width : Binary64

/-- The real that a bar has for a name. -/
def positionOf (v : Value) : Except ShowError Binary64 :=
  match Number.ofValue? v with
  | some n => toReal n
  | none => .error .notNumber

/-- Where bars stand. The width is what is left of it after it is added to the first position. -/
def standOn (scale : Scale) (names : List Value) : Except ShowError Stand := do
  match scale with
  | .names =>
      let places := placesOf (names.filterMap text?)
      .ok { lefts := places.map (· - width / Range.decimal 2 0), width }
  | .numbers =>
      let positions ← names.mapM positionOf
      match (positions.find? Binary64.isFinite).orElse fun _ => positions.head? with
      | none => .ok { lefts := [], width }
      | some first =>
          let width := (first + width) - first
          .ok { lefts := positions.map (· - width / Range.decimal 2 0), width }

/-- Bars side by side, with what the axes below and beside them show. -/
structure Bars where
  xScale : Scale
  yScale : Scale
  stand : Stand
  heights : List Binary64

/-- What keeps a bar from reaching up to a value that is no number. -/
def heightError : Value → ShowError
  | .text _ => .noSum
  | _ => .notNumber

/-- Bars with names and values. -/
def barsOf (names values : List Value) : Except ShowError Bars := do
  let xScale ← scaleOf names
  let yScale ← scaleOf values
  let places ←
    match xScale with
    | .names => .ok [names.length]
    | .numbers => shapeOf names
  let heights ← heightsOn yScale values
  match heights with
  | .all heights => do
      checkShapes places [values.length]
      .ok { xScale, yScale, stand := ← standOn xScale names, heights }
  | .upTo v => do
      let shape ← shapeOf values
      checkShapes places shape
      let _ ← standOn xScale names
      .error (if shape.length = 1 then heightError v else .notNumber)

/-- The middles of bars. -/
def Stand.middles (s : Stand) : List Binary64 := s.lefts.map (· + s.width / Range.decimal 2 0)

def ofTicks : Option TickError → Except ShowError Unit
  | none => .ok ()
  | some .uncounted => .error .uncounted
  | some .unbounded => .error .tooLarge

/-- Breaks off where an axis of numbers has no ticks. -/
def checkTicks (scale : Scale) (standsOnZero : Bool) (numbers : List Binary64) :
    Except ShowError Unit :=
  match scale with
  | .names => .ok ()
  | .numbers => ofTicks (Range.ofAxis standsOnZero (Range.ofNumbers? numbers)).tickError?

/-- Breaks off where heights leave their axis, on whose zero all bars stand, without ticks. -/
def checkHeights (scale : Scale) (heights : List Binary64) : Except ShowError Unit :=
  checkTicks scale true (heights.flatMap fun height => [Binary64.zero, height])

/-- Breaks off where the places of bars leave their axis without ticks. -/
def Bars.checkPlaces (b : Bars) : Except ShowError Unit :=
  checkTicks b.xScale false (b.stand.lefts.flatMap fun left => [left, left + b.stand.width])

end StateSpace.Results
