import StateSpace.Results.Bars
import StateSpace.Value.Key

/-!
Bar charts as data: one measure of every row, each bar with its value written above it, and panels
that compare runs side by side.
-/
namespace StateSpace.Results

/-- A text at a place of a chart. -/
structure Label where
  place : Nat
  height : Binary64
  text : String
  deriving DecidableEq

structure BarChart where
  title : String
  axis : String
  ticks : List String
  heights : List Binary64
  labels : List Label

/-- A bar at the whole number next to its middle; a hatched one stands for a failed run. -/
structure Bar where
  place : Int
  height : Binary64
  isHatched : Bool
  deriving DecidableEq

structure Panel where
  title : String
  bars : List Bar
  deriving DecidableEq

structure Comparison where
  title : String
  panels : List Panel
  deriving DecidableEq

inductive Chart where
  | bars (c : BarChart)
  | comparison (c : Comparison)

/-! ### One measure of every row -/

/-- The largest value, of equals the first; nothing is larger than a NaN in front. -/
def largest? : List Value → Except ShowError (Option Value)
  | [] => .ok none
  | v :: rest => do
      .ok (some (← rest.foldlM (fun top w =>
        match top.below? w with
        | some true => .ok w
        | some false => .ok top
        | none => .error .notComparable) v))

/-- The height that the spacing of the labels follows; one, where nothing counts as true. -/
def topOf (values : List Value) : Except ShowError Value := do
  match ← largest? (values.filter (· != .null)) with
  | some top => .ok (if top.isTruthy then top else .int 1)
  | none => .ok (.int 1)

/-- A hundredth, the share of the top by which a label stands above its bar. -/
def labelGap : Binary64 := Binary64.ofDecimal false 1 (-2)

/-- Reals below this are written with more places. -/
def fineBelow : Binary64 := Binary64.ofDecimal false 1 (-2)

def labelText : Value → String
  | .null => "n/a"
  | .real x => Decimal.fixed (if x.lt fineBelow then 4 else 3) x
  | v => v.plain

/-- The text that is written for a value; a null leaves the place empty. -/
def shownText : Value → String
  | .null => ""
  | v => v.plain

/-- The value that a bar is as high as; what does not count as true is zero. -/
def orZero (v : Value) : Value := if v.isTruthy then v else .int 0

/-- How high a label stands above its bar. -/
def gapBelow (top : Value) : Except ShowError Binary64 := do .ok (labelGap * (← positionOf top))

def labelOf (top : Value) (place : Nat) (v : Value) : Except ShowError Label := do
  let gap ← gapBelow top
  let base ← positionOf (if v = .null then .int 0 else v)
  .ok { place, height := base + gap, text := labelText v }

/-- The value of a row's field. Fields have texts as names, and what cannot be looked up is no
name. -/
def fieldOf (name : Value) (row : Row) : Except ShowError Value :=
  match name with
  | .text s => .ok ((row.lookup s).getD .null)
  | name => if name.isKey then .ok .null else .error .notNumber

def barChart (title axis : String) (metric : Value) (rows : List Row) :
    Except ShowError BarChart := do
  let ticks ← rows.mapM nameOf
  let values ← rows.mapM (fieldOf metric)
  let top ← topOf values
  let places := (List.range rows.length).map fun (place : Nat) => Value.int place
  let bars ← barsOf places (values.map orZero)
  let labels ← (values.zipIdx).mapM fun (v, place) => labelOf top place v
  .ok { title, axis, ticks := ticks.map shownText, heights := bars.heights, labels }

/-- Breaks off where the heights in a chart leave their axis without ticks. -/
def BarChart.check (c : BarChart) : Except ShowError Unit :=
  checkHeights .numbers c.heights

/-! ### Runs side by side -/

/-- What is compared of a run. -/
structure Contender where
  name : Value
  isSuccess : Bool
  cost : Value
  expansions : Value
  seconds : Value
  peakKb : Value

/-- The measures compared, each with its panel's title; a failed run has no cost. -/
def measures : List (String × (Contender → Value)) :=
  [ ("Nodes Expanded", (·.expansions)),
    ("Path Cost", fun c => if c.isSuccess then c.cost else .int 0),
    ("Time (s)", (·.seconds)),
    ("Peak Memory (KB)", (·.peakKb)) ]

/-- The whole number next to the middle of a bar. -/
def placeOf (middle : Binary64) : Except ShowError Int :=
  match middle.nearest? with
  | some n => .ok n
  | none => .error (if middle.isNan then .noPlace else .tooLarge)

/-- The bars of one measure, which share a place where they share a name. -/
def barsFor (contenders : List Contender) (measure : Contender → Value) : Except ShowError Bars :=
  barsOf (contenders.map (·.name)) (contenders.map fun c => orZero (measure c))

def panelOf (contenders : List Contender) (title : String) (bars : Bars) :
    Except ShowError Panel := do
  let places ← bars.stand.middles.mapM placeOf
  let bars := (contenders.zip (places.zip bars.heights)).map fun (c, place, height) =>
    { place, height, isHatched := !c.isSuccess : Bar }
  .ok { title, bars }

def defaultTitle : String := "Search Comparison"

/-- A text with a half in it cannot be drawn. -/
def checkGlyphs (text : String) : Except ShowError Unit :=
  if Text.hasHalf text then .error .noGlyph else .ok ()

/-- The title says what hatching means where there is a hatched bar. -/
def titleOf (title : Value) (contenders : List Contender) : String :=
  if contenders.all (·.isSuccess) then shownText title
  else title.plain ++ " (hatched = no solution)"

/-- The texts among values. -/
def textsOf (values : List Value) : List String := values.filterMap text?

/-- Breaks off where the axes of bars cannot be drawn. -/
def checkAxes (contenders : List Contender) (bars : Bars) : Except ShowError Unit := do
  (textsOf (contenders.map (·.name))).forM checkGlyphs
  bars.checkPlaces
  checkHeights bars.yScale bars.heights

/-- Runs side by side. All bars are made before any axis is drawn, and places are found last. -/
def comparison (title : Value) (contenders : List Contender) : Except ShowError Comparison := do
  let measured ← measures.mapM fun (title, measure) => do
    .ok (title, ← barsFor contenders measure)
  let title := titleOf title contenders
  measured.forM fun (_, bars) => checkAxes contenders bars
  checkGlyphs title
  let panels ← measured.mapM fun (title, bars) => panelOf contenders title bars
  .ok { title, panels }

end StateSpace.Results
