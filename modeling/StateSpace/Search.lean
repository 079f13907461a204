import Std.Data.HashMap
import StateSpace.Frontier
import StateSpace.Keyed
import StateSpace.Node
import StateSpace.Strategy

/-!
The search engine. One loop serves all strategies: it takes the front node, tests it for the goal
and, within the depth bound, expands it; strategies differ in which nodes they admit to expansion,
in the end of the frontier that children go to, and in the order of a batch of children. A `Search`
is the whole state of an engine between two turns of that loop. Costs, estimates and depth bounds
are quantities of one type; where two of them have no sum or no order, or a state cannot be looked
up, the search is broken off.
-/
namespace StateSpace

/-- What a search is to do: the problem, the strategy, and the ordering of an informed frontier. -/
structure Plan (σ κ : Type) where
  problem : Problem σ κ
  strategy : Strategy
  discipline : Discipline

/-- Depth bound of a pass that is not meant to be cut. -/
def unbounded : Int := 0x7fffffffffffffff

/-- Why a search was broken off. -/
inductive Fault (σ : Type) where
  | price (rule asked : Value) (state : σ)
  | defect (d : Defect)
  | noOrder
  | exhausted
  | emptyFrontier

/-- What is said of a fault, in some room. The name of a rule, the price that it asks and the state
are written one after another, and the first of them that cannot be written is all that is said. -/
def Fault.message {σ : Type} [Display σ] (room : Nat) :
    Fault σ → Except Unwritable (Option String)
  | .price rule asked state => do
      let name ← rule.write room
      let price ← asked.write room
      let place ← Display.quoted room state
      .ok (some ("Rule " ++ name ++ " returned cost " ++ price ++ " for state " ++ place ++
        "; rule costs must be non-negative integers."))
  | .defect d => .ok d.message
  | _ => .ok none

/-- What happens in a search, for its record. -/
inductive Event (σ κ : Type) where
  | passBegan (pass : Nat) (bound : κ)
  | began (state : σ)
  | tested (node : Node σ κ) (isGoal : Bool)
  | expanded (node : Node σ κ)
  | estimated (state : σ) (estimate : Option κ)
  | goalReached (pass depth expansions waiting peak : Nat)
  | drained (pass expansions closed peak : Nat) (boundHit : Bool)
  | concluded (cost : Option κ) (expansions passes : Nat)

/-- An answer of the problem, with the record of the question. -/
structure Answered (σ κ α : Type) where
  value : α
  record : List (Event σ κ)

/-- The cost at which each state was expanded last. -/
abbrev Closed (σ κ : Type) [Keyed σ] := Std.HashMap σ κ

/-- Keeps the cost of a state; of equal states the first one stays. -/
def Closed.put {σ κ : Type} [Keyed σ] (closed : Closed σ κ) (state : σ) (cost : κ) : Closed σ κ :=
  closed.insert ((closed.getKey? state).getD state) cost

theorem Closed.put_eq_insert {σ κ : Type} [DecidableEq σ] [Hashable σ] (closed : Closed σ κ)
    (state : σ) (cost : κ) : closed.put state cost = closed.insert state cost := by
  unfold Closed.put
  cases h : closed.getKey? state with
  | none => rfl
  | some key =>
    have hkey := Std.HashMap.getKey?_beq (m := closed) (k := state)
    simp_all

structure Search (σ κ : Type) [Keyed σ] where
  frontier : Frontier (Node σ κ) κ
  closed : Closed σ κ
  solution : Option (Node σ κ)
  expansions : Nat
  isFinished : Bool
  isFailed : Bool
  passes : Nat
  depthBound : κ
  boundHit : Bool
  peak : Nat
  history : List (Event σ κ)
  /-- How many more expansions are granted; none when they are not counted. -/
  allowance : Option Nat

/-- A search on its way, at its end, or broken off. -/
inductive Progress (σ κ : Type) [Keyed σ] where
  | running (s : Search σ κ)
  | ended (s : Search σ κ)
  | broken (s : Search σ κ) (fault : Fault σ)

namespace Plan

variable {σ κ : Type} [Quantity κ]

/-- Asks for the initial state. -/
def askInitial (plan : Plan σ κ) : Answered σ κ σ :=
  let initial := plan.problem.initial
  ⟨initial, [.began initial]⟩

/-- Asks whether a node is a goal. -/
def askGoal (plan : Plan σ κ) (n : Node σ κ) : Answered σ κ Bool :=
  let isGoal := plan.problem.isGoal n.state
  ⟨isGoal, [.tested n isGoal]⟩

/-- Asks for the rules to expand a node by. -/
def askRules (plan : Plan σ κ) (n : Node σ κ) : Answered σ κ (List (Rule σ)) :=
  ⟨plan.problem.rules, [.expanded n]⟩

/-- Asks for the estimate at a state; a problem without estimates is not asked. -/
def askEstimate (plan : Plan σ κ) (state : σ) : Answered σ κ (Except Defect κ) :=
  match plan.problem.heuristic with
  | none => ⟨.ok (Quantity.ofInt 0), []⟩
  | some h =>
      match h state with
      | .error d => ⟨.error d, []⟩
      | .ok estimate => ⟨.ok (estimate.getD (Quantity.ofInt 0)), [.estimated state estimate]⟩

/-- What a node is queued by: its cost, its cost and estimate, or its estimate. -/
def askEvaluation (plan : Plan σ κ) (n : Node σ κ) : Answered σ κ (Except Defect κ) :=
  match plan.strategy with
  | .astar =>
      let estimate := plan.askEstimate n.state
      ⟨do Quantity.add n.cost (← estimate.value), estimate.record⟩
  | .greedy => plan.askEstimate n.state
  | _ => ⟨.ok n.cost, []⟩

/-- The nodes with their evaluations, made one after another; the first one that breaks is the
last. -/
def askEvaluations (plan : Plan σ κ) :
    List (Node σ κ) → Answered σ κ (Except Defect (List (κ × Node σ κ)))
  | [] => ⟨.ok [], []⟩
  | n :: rest =>
      let first := plan.askEvaluation n
      match first.value with
      | .error d => ⟨.error d, first.record⟩
      | .ok key =>
          let others := plan.askEvaluations rest
          ⟨others.value.map ((key, n) :: ·), first.record ++ others.record⟩

/-- The children of a node by the rules from a position on; the first invalid price and the first
rule that breaks stop them. -/
def childrenFrom (node : Node σ κ) :
    Nat → List (Rule σ) → Except (Fault σ) (List (Node σ κ))
  | _, [] => .ok []
  | position, rule :: rest =>
      match rule.apply node.state with
      | .blocked => childrenFrom node (position + 1) rest
      | .broken d => .error (.defect d)
      | .leads state asked =>
          match asked.toPrice? with
          | none => .error (.price rule.name asked node.state)
          | some price =>
              match Quantity.add node.cost (Quantity.ofInt price) with
              | .error d => .error (.defect d)
              | .ok cost =>
                  match childrenFrom node (position + 1) rest with
                  | .error fault => .error fault
                  | .ok later => .ok (.child node (some ⟨position, rule⟩) state cost :: later)

/-- Entries for nodes by their keys, least first, equals in the order given. -/
def entries? (keyed : List (κ × Node σ κ)) : Except (Fault σ) (List (Entry (Node σ κ) κ)) :=
  match Quantity.sort? keyed with
  | none => .error .noOrder
  | some sorted => .ok (sorted.map fun (key, item) => { item, key := some key })

/-- Evaluates nodes to queue them, the least first. -/
def askBatch (plan : Plan σ κ) (nodes : List (Node σ κ)) :
    Answered σ κ (Except (Fault σ) (List (Entry (Node σ κ) κ))) :=
  let keyed := plan.askEvaluations nodes
  match keyed.value with
  | .error d => ⟨.error (.defect d), keyed.record⟩
  | .ok pairs => ⟨entries? pairs, keyed.record⟩

/-- The bound of a pass, by the number of passes before it. -/
def boundAfter (plan : Plan σ κ) (passes : Nat) : κ :=
  Quantity.ofInt ((if plan.strategy.isIterative then 0 else unbounded) + passes)

end Plan

namespace Search

variable {σ κ : Type} [Keyed σ] [Quantity κ]

def fresh : Search σ κ :=
  { frontier := .empty, closed := ∅, solution := none, expansions := 0, isFinished := false,
    isFailed := false, passes := 0, depthBound := Quantity.ofInt 0, boundHit := false, peak := 1,
    history := [], allowance := none }

/-- A fresh search again, but for the allowance. -/
def reset (s : Search σ κ) : Search σ κ := { fresh with allowance := s.allowance }

def record (s : Search σ κ) (events : List (Event σ κ)) : Search σ κ :=
  { s with history := events.reverse ++ s.history }

/-- Whether a state was not expanded in this pass yet, or only at a higher cost. -/
def isBest (s : Search σ κ) (n : Node σ κ) : Except (Fault σ) Bool :=
  if !Keyed.isKey n.state then .error (.defect .wrongKind)
  else
    match s.closed[n.state]? with
    | none => .ok true
    | some best =>
        if Quantity.isMissing best then .ok true
        else
          match Quantity.below? n.cost best with
          | some isLess => .ok isLess
          | none => .error .noOrder

/-- Whether the strategy lets a node be expanded. -/
def admits (s : Search σ κ) (strategy : Strategy) (n : Node σ κ) : Except (Fault σ) Bool :=
  match strategy with
  | .bfs =>
      if Keyed.isKey n.state then .ok (!s.closed.contains n.state)
      else .error (.defect .wrongKind)
  | .dfs | .iddfs | .astar => s.isBest n
  | .greedy => .ok true

def count (s : Search σ κ) : Search σ κ := { s with expansions := s.expansions + 1 }

/-- Counts an expansion and closes its state. -/
def close (s : Search σ κ) (n : Node σ κ) : Search σ κ :=
  { s.count with closed := s.closed.put n.state n.cost }

/-- Pays for one expansion, unless nothing is left of the allowance. -/
def pay? (s : Search σ κ) : Option (Search σ κ) :=
  match s.allowance with
  | none => some s
  | some 0 => none
  | some (left + 1) => some { s with allowance := some left }

def pushRoot (s : Search σ κ) (state : σ) (cost : κ) : Search σ κ :=
  { s with frontier := s.frontier.pushBack ⟨.root state cost, none⟩ }

/-- Inserts keyed entries one after another, each behind the keys that are not greater. -/
def insertAll (s : Search σ κ) : List (Entry (Node σ κ) κ) → Progress σ κ
  | [] => .running s
  | e :: rest =>
      match s.frontier.insertOrdered? e with
      | none => .broken s .noOrder
      | some frontier => insertAll { s with frontier } rest

/-- Queues a batch of children the way the strategy does; an evaluation that breaks leaves all of
them out. -/
def enqueue (plan : Plan σ κ) (s : Search σ κ) (nodes : List (Node σ κ)) : Progress σ κ :=
  match plan.strategy with
  | .bfs =>
      .running { s with frontier := nodes.foldl (fun f n => f.pushBack ⟨n, none⟩) s.frontier }
  | .dfs | .iddfs =>
      .running { s with frontier := nodes.foldl (fun f n => f.pushFront ⟨n, none⟩) s.frontier }
  | .astar | .greedy =>
      let batch := plan.askBatch nodes
      let s := s.record batch.record
      match batch.value, plan.discipline with
      | .error fault, _ => .broken s fault
      | .ok entries, .batch => .running { s with frontier := entries.foldl .pushBack s.frontier }
      | .ok entries, .global => s.insertAll entries

/-- Counts an expansion, closes the state and queues its children. -/
def expand (plan : Plan σ κ) (s : Search σ κ) (n : Node σ κ) : Progress σ κ :=
  if !Keyed.isKey n.state then .broken s.count (.defect .wrongKind)
  else
    let rules := plan.askRules n
    let closed := (s.close n).record rules.record
    match closed.pay? with
    | none => .broken closed .exhausted
    | some paid =>
        match Plan.childrenFrom n 0 rules.value with
        | .error fault => .broken paid fault
        | .ok nodes => paid.enqueue plan nodes

/-- Expands a node that the strategy admits; any other leaves the search as it is. -/
def explode (plan : Plan σ κ) (s : Search σ κ) (n : Node σ κ) : Progress σ κ :=
  match s.admits plan.strategy n with
  | .error fault => .broken s fault
  | .ok false => .running s
  | .ok true => s.expand plan n

/-- Takes the front node from the frontier and expands it. -/
def explodeFront (plan : Plan σ κ) (s : Search σ κ) : Progress σ κ :=
  match s.frontier.popFront? with
  | none => .broken s .emptyFrontier
  | some (e, rest) => { s with frontier := rest }.explode plan e.item

/-- The state at the first turn of a pass: nothing closed, the root alone on the frontier. -/
def beginPass (plan : Plan σ κ) (s : Search σ κ) (bound : κ) : Search σ κ :=
  let initial := plan.askInitial
  { s with
    frontier := Frontier.empty.pushBack ⟨.root initial.value (Quantity.ofInt 0), none⟩
    closed := ∅
    passes := s.passes + 1
    depthBound := bound
    boundHit := false
    peak := 1
    history := initial.record ++ .passBegan (s.passes + 1) bound :: s.history }

/-- The end of a pass without a goal; the run has failed unless the bound cut something off. -/
def drain (s : Search σ κ) : Search σ κ :=
  { s with
    isFailed := s.isFailed || !s.boundHit
    isFinished := s.isFinished || !s.boundHit
    history :=
      .drained s.passes s.expansions s.closed.size s.peak s.boundHit :: s.history }

/-- Whether a node lies deeper than the bound, if the two can be compared. -/
def isBeyond? (s : Search σ κ) (n : Node σ κ) : Option Bool :=
  Quantity.below? s.depthBound (Quantity.ofInt n.depth)

/-- Whether a node lies within the bound. -/
def isWithin (s : Search σ κ) (n : Node σ κ) : Bool :=
  Quantity.atMost? (Quantity.ofInt n.depth) s.depthBound == some true

/-- Leaves the frontier that a node was taken from; the peak and the bound take note of it. -/
def pop (s : Search σ κ) (isBeyond : Bool) (rest : Frontier (Node σ κ) κ) : Search σ κ :=
  { s with
    frontier := rest
    peak := max s.peak s.frontier.size
    boundHit := s.boundHit || isBeyond }

/-- The end of a pass at a goal. -/
def succeed (s : Search σ κ) (n : Node σ κ) : Search σ κ :=
  { s with
    solution := some n
    isFinished := true
    history :=
      .goalReached s.passes n.depth s.expansions s.frontier.size s.peak :: s.history }

/-- One turn of the loop of a pass. -/
def turn (plan : Plan σ κ) (s : Search σ κ) : Progress σ κ :=
  match s.frontier.popFront? with
  | none => .ended s.drain
  | some (e, rest) =>
      match s.isBeyond? e.item with
      | none => .broken { s with frontier := rest } .noOrder
      | some isBeyond =>
          let isGoal := plan.askGoal e.item
          let taken := (s.pop isBeyond rest).record isGoal.record
          if isGoal.value then .ended (taken.succeed e.item)
          else if s.isWithin e.item then taken.explode plan e.item
          else .running taken

/-- The end of a run. -/
def conclude (s : Search σ κ) : Search σ κ :=
  let cost := if s.isFailed then none else s.solution.map (·.cost)
  { s with history := .concluded cost s.expansions s.passes :: s.history }

/-- One turn of the loop of a run: where a pass ends without a verdict, the next one begins a step
deeper. -/
def advance (plan : Plan σ κ) (s : Search σ κ) : Progress σ κ :=
  match s.turn plan with
  | .ended t =>
      if t.isFinished then .ended t.conclude
      else .running (t.beginPass plan (plan.boundAfter t.passes))
  | other => other

def beginRun (plan : Plan σ κ) (s : Search σ κ) : Search σ κ :=
  s.reset.beginPass plan (plan.boundAfter 0)

end Search

namespace Progress

variable {σ κ : Type} [Keyed σ]

/-- The search, however it stands. -/
def search : Progress σ κ → Search σ κ
  | running s => s
  | ended s => s
  | broken s _ => s

/-- At most `n` turns, fewer when the search ends or breaks off. -/
def after (step : Search σ κ → Progress σ κ) : Nat → Progress σ κ → Progress σ κ
  | 0, p => p
  | n + 1, .running s => after step n (step s)
  | _ + 1, p => p

end Progress

namespace Search

variable {σ κ : Type} [Keyed σ] [Quantity κ]

/-- One bounded pass, cut off after `turns` turns. -/
def explore (plan : Plan σ κ) (s : Search σ κ) (bound : κ) (turns : Nat) : Progress σ κ :=
  Progress.after (turn plan) turns (.running (s.beginPass plan bound))

/-- A run from a clean slate, cut off after `turns` turns. -/
def run (plan : Plan σ κ) (s : Search σ κ) (turns : Nat) : Progress σ κ :=
  Progress.after (advance plan) turns (.running (s.beginRun plan))

def solutionPath (s : Search σ κ) : List σ :=
  match s.solution with
  | none => []
  | some n => n.states

end Search

/-! ### Integers as quantities -/

namespace Search

variable {σ : Type} [DecidableEq σ] [Hashable σ]

theorem isBest_int (s : Search σ Int) (n : Node σ Int) :
    s.isBest n =
      .ok (match s.closed[n.state]? with
        | none => true
        | some best => decide (n.cost < best)) := by
  unfold isBest
  simp
  split <;> simp_all

theorem isBeyond?_int (s : Search σ Int) (n : Node σ Int) :
    s.isBeyond? n = some (decide (s.depthBound < n.depth)) := rfl

theorem isWithin_int (s : Search σ Int) (n : Node σ Int) :
    s.isWithin n = decide (n.depth ≤ s.depthBound) := by
  simp [isWithin]

end Search

end StateSpace
