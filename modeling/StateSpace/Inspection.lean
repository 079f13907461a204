import Std.Data.HashSet
import StateSpace.Display
import StateSpace.Frontier
import StateSpace.Keyed
import StateSpace.Problem

/-!
An inspection of a problem: its states are walked breadth first, up to a given number, and every
price that a rule asks there has to be valid.
-/
namespace StateSpace

/-- What an inspection found. -/
inductive Finding (σ : Type) where
  | sound (visited : List σ)
  | unsound (rule asked : Value) (source target : σ)
  | defect (d : Defect)
  | exhausted

/-- What is said of a finding, in some room. Of a price that is none, the name of the rule, what it
asks and the two states are written one after another, and the first of them that cannot be written
is all that is said. -/
def Finding.message {σ : Type} [Display σ] (room : Nat) :
    Finding σ → Except Unwritable (Option String)
  | .sound visited =>
      .ok (some (s!"OK: visited {visited.length} states; " ++
        "all rule costs are non-negative integers."))
  | .unsound rule asked source target => do
      let name ← rule.writePlain room
      let price ← asked.write room
      let source ← Display.plain room source
      let target ← Display.plain room target
      .ok (some ("rule " ++ name ++ " gave cost " ++ price ++ " for (s=" ++ source ++ ", s\x27=" ++
        target ++ ")"))
  | .defect d => .ok d.message
  | .exhausted => .ok none

namespace Problem

variable {σ κ : Type}

/-- The states that the rules lead to, unless one of the rules asks an invalid price or breaks. -/
def successors (source : σ) : List (Rule σ) → Except (Finding σ) (List σ)
  | [] => .ok []
  | rule :: rest =>
      match rule.apply source with
      | .blocked => successors source rest
      | .broken d => .error (.defect d)
      | .leads target asked =>
          if asked.isPrice then
            match successors source rest with
            | .error finding => .error finding
            | .ok later => .ok (target :: later)
          else .error (.unsound rule.name asked source target)

/-- The walk from a queue on; `visited` holds the states of `seen`, last first. -/
def inspectFrom [Keyed σ] (p : Problem σ κ) (queue : Frontier σ κ) (seen : Std.HashSet σ)
    (visited : List σ) (allowance : Option Nat) (left : Nat) : Finding σ :=
  match left with
  | 0 => .sound visited.reverse
  | more + 1 =>
      match h : queue.popFront? with
      | none => .sound visited.reverse
      | some (e, rest) =>
          have : queue.size = rest.size + 1 := Frontier.size_of_popFront? h
          if !Keyed.isKey e.item then .defect .wrongKind
          else if seen.contains e.item then
            inspectFrom p rest seen visited allowance (more + 1)
          else if allowance = some 0 then .exhausted
          else
            match successors e.item p.rules with
            | .error finding => finding
            | .ok next =>
                inspectFrom p (next.foldl (fun q s => q.pushBack ⟨s, none⟩) rest)
                  (seen.insert e.item) (e.item :: visited) (allowance.map (· - 1)) more
  termination_by (left, queue.size)
  decreasing_by
    · exact Prod.Lex.right _ (by omega)
    · exact Prod.Lex.left _ _ (by omega)

/-- Inspects at most `limit` states; `allowance` is how many of them may be expanded at all. -/
def inspect [Keyed σ] (p : Problem σ κ) (limit : Int) (allowance : Option Nat) : Finding σ :=
  p.inspectFrom (Frontier.empty.pushBack ⟨p.initial, none⟩) ∅ [] allowance limit.toNat

/-- The number of states inspected where none is given. -/
def defaultInspection : Int := 10000

/-- More states than any inspection visits. -/
def unlimitedInspection : Int := 0x7fffffffffffffff

/-- The number of states that a value allows: a real counts as the integer above it. -/
def inspectionLimit (v : Value) : Except Defect Int :=
  match Number.ofValue? v with
  | none => .error .wrongKind
  | some (.int n) => .ok n
  | some (.real x) =>
      match Number.floorOf x with
      | some (n, hasRest) => .ok (if hasRest then n + 1 else n)
      | none => .ok (if Binary64.zero.lt x then unlimitedInspection else 0)

end Problem

end StateSpace
