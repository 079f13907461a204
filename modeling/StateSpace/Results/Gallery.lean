import StateSpace.CommandLine
import StateSpace.Host
import StateSpace.Results.Ranking
import StateSpace.Settings

/-!
The command that turns a results document into a table and one chart per measure, all kept beside
the document.
-/
namespace StateSpace.Results

/-- A chart of the gallery: the field it shows, its title and axis, and the file it is kept in. -/
structure Exhibit where
  metric : String
  title : String
  axis : String
  file : String
  deriving DecidableEq

def exhibits : List Exhibit :=
  [ ⟨"nodes_expanded", "Nodes Expanded (lower is better)", "nodes", "nodes_expanded.png"⟩,
    ⟨"time_s", "Wall Time (lower is better)", "seconds", "time.png"⟩,
    ⟨"cost", "Path Cost (lower is better)", "cost", "cost.png"⟩ ]

def documentName : String := "results.json"

def tableName : String := "results.md"

inductive GalleryError where
  | rows (e : RowsError)
  | unshown (e : ShowError)
  deriving DecidableEq

def GalleryError.message : GalleryError → Option String
  | .rows e => e.message
  | .unshown e => e.message

def liftRows {α : Type} : Except RowsError α → Except GalleryError α
  | .ok a => .ok a
  | .error e => .error (.rows e)

def liftShow {α : Type} : Except ShowError α → Except GalleryError α
  | .ok a => .ok a
  | .error e => .error (.unshown e)

def ranked (metric : Value) (rows : List Row) : Except GalleryError (List Row) := do
  let keyed ← liftShow (rows.mapM fun row => do .ok (rankKey (← fieldOf metric row), row))
  match ranked? keyed with
  | some rows => .ok rows
  | none => .error (.unshown .notComparable)

/-- The names in a document's rows, ranked by a field; the text of the document is given if it is
there. -/
def rankedNames (dir : DirPath) (metric : Value) (document : Option String) :
    Except GalleryError (List Value) := do
  let rows ← liftRows (load (dir.entry documentName) document)
  let rows ← ranked metric rows
  .ok (rows.map fun row => (row.lookup "algo").getD .null)

section

variable {m : Type → Type} [Monad m]

def announce (host : Host m) (file : DirPath) : ExceptT GalleryError m Unit :=
  host.print ("Wrote " ++ file.text)

/-- Ranks the rows by an exhibit's measure and draws its chart. -/
def exhibit (host : Host m) (dir : DirPath) (rows : List Row) (e : Exhibit) :
    ExceptT GalleryError m Unit := do
  let sorted ← ExceptT.mk (pure (ranked (.text e.metric) rows))
  let chart ← ExceptT.mk (pure (liftShow (barChart e.title e.axis (.text e.metric) sorted)))
  ExceptT.mk (pure (liftShow chart.check))
  host.draw (dir.entry e.file) (.bars chart)
  announce host (dir.entry e.file)

/-- Keeps a text in a file; of a text without an encoding the file alone is left. -/
def keepTable (host : Host m) (file : DirPath) (text : String) : ExceptT GalleryError m Unit := do
  if Text.hasHalf text then
    host.write file ""
    throw (.unshown .noEncoding)
  else host.write file text

/-- The table and the charts of a document, whose text is given if it is there. -/
def gallery (host : Host m) (dir : DirPath) (document : Option String) :
    ExceptT GalleryError m Unit := do
  let rows ← ExceptT.mk (pure (liftRows (load (dir.entry documentName) document)))
  let text ← ExceptT.mk (pure (liftShow (table rows)))
  keepTable host (dir.entry tableName) text
  announce host (dir.entry tableName)
  exhibits.forM (exhibit host dir rows)

end

/-! ### The command line -/

inductive GalleryKey where
  | help
  | dir
  deriving DecidableEq

def galleryOptions : List (CommandLine.Declared GalleryKey) :=
  [ ⟨.help, ["-h", "--help"], .halt, []⟩, ⟨.dir, ["--dir"], .one, []⟩ ]

/-- The directory asked for, else the one of the environment, else the default one. -/
def galleryDir (env : Environment) (fallback : DirPath) (words : List String) :
    Except CommandLine.Stop DirPath := do
  let given ← CommandLine.read galleryOptions words
  match CommandLine.last? .dir given with
  | some [dir] => .ok (.ofText dir)
  | _ => .ok (((env.lookup Settings.dirVariable).map .ofText).getD fallback)

end StateSpace.Results
