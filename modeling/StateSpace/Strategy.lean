import StateSpace.Display
import StateSpace.Text.Blank
import StateSpace.Text.Case

/-!
The five search strategies and the two ways an informed strategy orders its frontier, with the
names they go by.
-/
namespace StateSpace

inductive Strategy where
  | bfs
  | dfs
  | iddfs
  | astar
  | greedy
  deriving DecidableEq

inductive Discipline where
  | batch
  | global
  deriving DecidableEq

namespace Strategy

def all : List Strategy := [.bfs, .dfs, .iddfs, .astar, .greedy]

def name : Strategy → String
  | .bfs => "BFS"
  | .dfs => "DFS"
  | .iddfs => "IDDFS"
  | .astar => "ASTAR"
  | .greedy => "GREEDY"

def value : Strategy → String
  | .bfs => "bfs"
  | .dfs => "dfs"
  | .iddfs => "iddfs"
  | .astar => "astar"
  | .greedy => "greedy"

/-- Whether a run deepens its bound pass after pass. -/
def isIterative (s : Strategy) : Bool := s == .iddfs

/-- Whether children are queued by an estimate. -/
def isInformed (s : Strategy) : Bool := s == .astar || s == .greedy

def aliases : List (String × Strategy) :=
  [ ("breadthfirst", .bfs), ("depthfirst", .dfs), ("ids", .iddfs), ("iterativedeepening", .iddfs),
    ("a*", .astar), ("bestfirst", .greedy), ("greedybestfirst", .greedy) ]

/-- The key a name is looked up by: lower case, without separators. -/
def key (name : String) : String :=
  String.ofList ((Text.lower (Text.strip name)).toList.filter
    fun c => c != '-' && c != '_' && c != ' ')

def ofName? (name : String) : Option Strategy :=
  let k := key name
  (aliases.lookup k).or (all.find? fun s => s.value == k)

end Strategy

namespace Discipline

def all : List Discipline := [.batch, .global]

def name : Discipline → String
  | .batch => "BATCH"
  | .global => "GLOBAL"

def value : Discipline → String
  | .batch => "batch"
  | .global => "global"

def ofName? (name : String) : Option Discipline :=
  let k := Text.lower (Text.strip name)
  all.find? fun d => d.value == k

end Discipline

/-- A name that stands for nothing known. -/
inductive NameError where
  | strategy (given : Value)
  | discipline (given : Value)
  deriving DecidableEq

def NameError.message : NameError → String
  | .strategy given =>
      "Unknown search strategy: " ++ given.quoted ++ ". Available: " ++
        ", ".intercalate (Strategy.all.map Strategy.name)
  | .discipline given =>
      "Unknown frontier ordering: " ++ given.quoted ++ ". Available: " ++
        ", ".intercalate (Discipline.all.map Discipline.value)

/-- The strategy that a value names; what is no text counts by its plain form. -/
def Strategy.parse (given : Value) : Except NameError Strategy :=
  match ofName? given.plain with
  | some s => .ok s
  | none => .error (.strategy given)

def Discipline.parse (given : Value) : Except NameError Discipline :=
  match ofName? given.plain with
  | some d => .ok d
  | none => .error (.discipline given)

/-- What a run is called: the ordering counts only where it matters. -/
def Strategy.label (s : Strategy) (d : Discipline) : String :=
  if s.isInformed && d == .global then s.name ++ "/global" else s.name

end StateSpace
