import StateSpace.Proofs.Closing
import StateSpace.Proofs.Termination

/-!
# The stack is a recursion

Depth first, the children of a node go to the front of the frontier all at once, and whether one of
them is admitted is decided when its turn comes. The recursive descent takes one child, then all that
lies below it, then the next child. Both come to the same: what the descent makes of all that waits
on the stack, from what was seen so far, is not changed by a turn of the loop. At the end of a pass
nothing waits, or a goal has stopped the descent.
-/
namespace StateSpace

/-- What a descent has seen: the nodes it tested, latest first, the states it closed with their
costs, how many nodes it expanded, whether something lay beyond the bound, and the goal that stopped
it. -/
structure Descent (σ : Type) where
  tested : List (Node σ Int)
  closed : σ → Option Int
  expansions : Nat
  boundHit : Bool
  solution : Option (Node σ Int)

namespace Descent

variable {σ : Type}

/-- Nothing was seen yet, and so many nodes were expanded before. -/
def start (expansions : Nat) : Descent σ where
  tested := []
  closed _ := none
  expansions
  boundHit := false
  solution := none

def test (d : Descent σ) (n : Node σ Int) : Descent σ := { d with tested := n :: d.tested }

/-- Whether the state of a node was closed at no higher cost. -/
def isClosed (d : Descent σ) (n : Node σ Int) : Bool :=
  (d.closed n.state).any fun cost => decide (cost ≤ n.cost)

def close [DecidableEq σ] (d : Descent σ) (n : Node σ Int) : Descent σ :=
  { d with
    closed := fun x => if n.state = x then some n.cost else d.closed x
    expansions := d.expansions + 1 }

end Descent

namespace Problem

theorem height_lt_of_mem_offspring {σ : Type} {p : Problem σ Int} {bound : Int}
    {n m : Node σ Int} (hwithin : ¬bound < n.depth) (hm : m ∈ p.offspring n) :
    (bound + 1 - m.depth).toNat < (bound + 1 - n.depth).toNat := by
  obtain ⟨position, hchild⟩ := mem_offspring_iff.mp hm
  rw [depth_of_child? hchild]
  push_cast
  omega

variable {σ : Type} [DecidableEq σ] {p : Problem σ Int} {bound : Int} {d : Descent σ}

/-- Visits a node: stops with it where it is a goal, notes that it lies beyond the bound, or leaves
it where its state was closed at no higher cost. Else the state is closed and the children are
visited, that of the last rule first, until one of them ends in a goal. -/
def visit (p : Problem σ Int) (bound : Int) (n : Node σ Int) (d : Descent σ) : Descent σ :=
  if p.isGoal n.state then { d.test n with solution := some n }
  else if _hbeyond : bound < n.depth then { d.test n with boundHit := true }
  else if d.isClosed n then d.test n
  else
    (p.offspring n).reverse.attach.foldl
      (fun d m => if d.solution.isSome then d else p.visit bound m.1 d) ((d.test n).close n)
termination_by (bound + 1 - n.depth).toNat
decreasing_by exact height_lt_of_mem_offspring _hbeyond (List.mem_reverse.mp m.2)

/-- Visits nodes one after another until one of them ends in a goal. -/
def visitAll (p : Problem σ Int) (bound : Int) (nodes : List (Node σ Int)) (d : Descent σ) :
    Descent σ :=
  nodes.foldl (fun d n => if d.solution.isSome then d else p.visit bound n d) d

theorem visit_eq (p : Problem σ Int) (bound : Int) (n : Node σ Int) (d : Descent σ) :
    p.visit bound n d =
      if p.isGoal n.state then { d.test n with solution := some n }
      else if bound < n.depth then { d.test n with boundHit := true }
      else if d.isClosed n then d.test n
      else p.visitAll bound (p.offspring n).reverse ((d.test n).close n) := by
  rw [visit, visitAll, ← List.foldl_attach (l := (p.offspring n).reverse)]
  simp only [dite_eq_ite]

@[simp]
theorem visitAll_nil : p.visitAll bound [] d = d := rfl

theorem visitAll_append (front back : List (Node σ Int)) :
    p.visitAll bound (front ++ back) d = p.visitAll bound back (p.visitAll bound front d) :=
  List.foldl_append

theorem visitAll_of_solution (hsolution : d.solution.isSome = true) (nodes : List (Node σ Int)) :
    p.visitAll bound nodes d = d := by
  induction nodes with
  | nil => rfl
  | cons n rest ih =>
      rw [visitAll, List.foldl_cons, if_pos hsolution]
      exact ih

theorem visitAll_cons (hsolution : d.solution = none) (n : Node σ Int)
    (rest : List (Node σ Int)) :
    p.visitAll bound (n :: rest) d = p.visitAll bound rest (p.visit bound n d) := by
  rw [visitAll, List.foldl_cons, hsolution]
  rfl

end Problem

namespace Search

variable {σ : Type} [DecidableEq σ] [Hashable σ] {plan : Plan σ Int} {bound : Int}
  {start s t : Search σ Int} {n : Node σ Int}

/-- What a pass on its way has seen. -/
def descent (s : Search σ Int) : Descent σ where
  tested := s.tested
  closed x := s.closed[x]?
  expansions := s.expansions
  boundHit := s.boundHit
  solution := none

/-- The pass has come to the same as the descent. A goal beyond the bound counts as cut off for the
pass, whose verdict does not look at the flag where a goal was found. -/
structure Retraces (bound : Int) (start t : Search σ Int) (d : Descent σ) : Prop where
  tested : t.tested = d.tested
  solution : t.solution = d.solution.or start.solution
  closed : ∀ x, t.closed[x]? = d.closed x
  expansions : t.expansions = d.expansions
  boundHit : t.boundHit = (d.boundHit || d.solution.any fun n => decide (bound < n.depth))
  isFailed : t.isFailed = (start.isFailed || d.solution.isNone && !d.boundHit)
  isFinished : t.isFinished = (start.isFinished || d.solution.isSome || !d.boundHit)

theorem Retraces.of_start {d : Descent σ} (retraces : Retraces bound s t d)
    (hsolution : s.solution = start.solution) (hfailed : s.isFailed = start.isFailed)
    (hfinished : s.isFinished = start.isFinished) : Retraces bound start t d :=
  { retraces with
    solution := hsolution ▸ retraces.solution
    isFailed := hfailed ▸ retraces.isFailed
    isFinished := hfinished ▸ retraces.isFinished }

theorem Ends.retraces (hends : Ends plan s t) :
    Retraces s.depthBound s t
      (plan.problem.visitAll s.depthBound s.frontier.items s.descent) := by
  cases hends with
  | drained hempty hresult =>
      have hitems : s.frontier.items = [] := by rw [Frontier.items, hempty, List.map_nil]
      subst hresult
      rw [hitems, Problem.visitAll_nil]
      exact ⟨rfl, rfl, fun _ => rfl, rfl, (Bool.or_false _).symm, by simp [descent, drain],
        by simp [descent, drain]⟩
  | goal n key rest hfront hgoal hresult =>
      subst hresult
      rw [Frontier.items_of_front hfront, Problem.visitAll_cons rfl, Problem.visit_eq,
        if_pos hgoal, Problem.visitAll_of_solution rfl]
      exact ⟨rfl, rfl, fun _ => rfl, rfl, rfl, by simp [succeed, take, pop, record], by simp [succeed]⟩

section Stack

variable (hstrategy : plan.strategy = .dfs ∨ plan.strategy = .iddfs)

include hstrategy

theorem isClosed_descent (s : Search σ Int) (n : Node σ Int) :
    s.descent.isClosed n = !s.isAdmitted plan.strategy n := by
  unfold Descent.isClosed descent isAdmitted
  cases hbest : s.closed[n.state]? with
  | none => rcases hstrategy with hstrategy | hstrategy <;> simp [hstrategy, hbest]
  | some best =>
      have hle : decide (best ≤ n.cost) = !decide (n.cost < best) := by
        rw [← decide_not, decide_eq_decide, not_lt]
      rcases hstrategy with hstrategy | hstrategy <;> simp [hstrategy, hbest, hle]

/-- A turn that goes on leaves what the descent makes of all that waits as it was. -/
theorem Turn.visitAll_descent (hturn : Turn plan s t) :
    plan.problem.visitAll s.depthBound t.frontier.items t.descent =
      plan.problem.visitAll s.depthBound s.frontier.items s.descent := by
  cases hturn with
  | skipped n rest takes hreason hfrontier hclosed _ hexpansions =>
      obtain ⟨key, hfront⟩ := takes.front
      have hvisit : plan.problem.visit s.depthBound n s.descent = t.descent := by
        rw [Problem.visit_eq, takes.notGoal, if_neg Bool.false_ne_true]
        rcases hreason with hbeyond | ⟨hwithin, hrefused⟩
        · rw [if_pos hbeyond]
          simp [descent, Descent.test, takes.tested, takes.boundHit, hbeyond, hclosed, hexpansions]
        · have hisClosed : s.descent.isClosed n = true := by
            rw [isClosed_descent hstrategy, hrefused]
            rfl
          rw [if_neg (not_lt.mpr hwithin), if_pos hisClosed]
          simp [descent, Descent.test, takes.tested, takes.boundHit, not_lt.mpr hwithin, hclosed,
            hexpansions]
      rw [Frontier.items_of_front hfront, Problem.visitAll_cons rfl, hvisit, hfrontier]
      rfl
  | expanded n rest takes hwithin hadmitted _ hqueue hclosed _ hexpansions =>
      obtain ⟨key, hfront⟩ := takes.front
      obtain ⟨f, hf, hitems⟩ := Plan.queue?_dfs hstrategy rest (plan.problem.offspring n)
      obtain rfl := Option.some.inj (hf.symm.trans hqueue)
      have hopen : s.descent.isClosed n = false := by
        rw [isClosed_descent hstrategy, hadmitted]
        rfl
      have hdescent : t.descent = (s.descent.test n).close n := by
        simp [descent, Descent.test, Descent.close, takes.tested, takes.boundHit,
          not_lt.mpr hwithin, hclosed, hexpansions]
      -- The children stand on the stack in the order in which the descent takes them.
      rw [hitems, Problem.visitAll_append, hdescent, Frontier.items_of_front hfront,
        Problem.visitAll_cons rfl, Problem.visit_eq, takes.notGoal, if_neg Bool.false_ne_true,
        if_neg (not_lt.mpr hwithin), hopen, if_neg Bool.false_ne_true]
      rfl

theorem retraces_of_after {turns : Nat}
    (hend : Progress.after (turn plan) turns (.running s) = .ended t) :
    Retraces s.depthBound s t
      (plan.problem.visitAll s.depthBound s.frontier.items s.descent) := by
  induction turns generalizing s with
  | zero => cases hend
  | succ turns ih =>
      rw [Progress.after] at hend
      cases hturn : s.turn plan with
      | running u =>
          rw [hturn] at hend
          have htaken := turn_of_running hturn
          obtain ⟨n, rest, takes⟩ := htaken.exists_takes
          have retraces := ih hend
          rw [takes.depthBound, htaken.visitAll_descent hstrategy] at retraces
          exact retraces.of_start takes.solution takes.isFailed takes.isFinished
      | ended u =>
          rw [hturn] at hend
          obtain rfl : u = t := by cases turns <;> exact Progress.ended.inj hend
          exact (ends_of_ended hturn).retraces
      | broken u fault =>
          rw [hturn] at hend
          cases turns <;> cases hend

/-- **The stack is recursive depth-first search.** Where every rule that applies asks a price and
expansions are not counted, a depth-first or deepening pass with any bound comes to an end. It has
tested the nodes that the recursive descent from the root tests, in the same order, and ends with the
same solution, the same closed states and costs, the same number of expansions and the same
verdict. -/
theorem retraces_visit (hallowance : start.allowance = none) (hpriced : plan.problem.IsPriced)
    (bound : Int) :
    (∃ turns t, start.explore plan bound turns = .ended t) ∧
      ∀ turns t, start.explore plan bound turns = .ended t →
        Retraces bound start t
          (plan.problem.visit bound (.root plan.problem.initial 0) (.start start.expansions)) := by
  constructor
  · refine Pass.exists_ended hpriced (fun s _ e rest _ _ => ?_) (.start start) hallowance
    obtain ⟨f, hqueue, -⟩ := Plan.queue?_dfs hstrategy rest (plan.problem.offspring e.item)
    exact ⟨f, hqueue⟩
  · intro turns t hend
    have hitems : (start.beginPass plan bound).frontier.items =
      [.root plan.problem.initial 0] := rfl
    have hdescent : (start.beginPass plan bound).descent = .start start.expansions := by
      simp [descent, Descent.start, beginPass, Plan.askInitial, tested, recent, Event.isStart]
    have retraces := retraces_of_after hstrategy hend
    rw [hitems, hdescent, Problem.visitAll_cons rfl, Problem.visitAll_nil] at retraces
    exact retraces.of_start rfl rfl rfl

end Stack

/-- Both ways from 0 to 1 are tested, the dear one of the later rule first. -/
theorem retraces_parallel :
    ∃ t, (fresh : Search Int Int).explore ⟨parallel, .dfs, .batch⟩ 7 4 = .ended t ∧
      t.tested.map Node.cost = [1, 5, 0] ∧
      Retraces 7 fresh t (parallel.visit 7 (.root 0 0) (.start 0)) := by
  obtain ⟨t, hrun, hcosts⟩ :
      ∃ t, (fresh : Search Int Int).explore ⟨parallel, .dfs, .batch⟩ 7 4 = .ended t ∧
        t.tested.map Node.cost = [1, 5, 0] := by
    simp [explore, fresh, beginPass, Plan.askInitial, Progress.after, turn, isBeyond?_int,
      isWithin_int, pop, record, Plan.askGoal, explode, admits, isBest_int, expand, close, count,
      pay?, Closed.put_eq_insert, enqueue, drain, tested, recent, Event.isStart, Plan.askRules,
      Plan.childrenFrom, Frontier.popFront?, Frontier.pushBack, Frontier.pushFront, Frontier.empty,
      Frontier.ofList, Node.depth, Node.state, Node.cost, Value.toPrice?, Rule.fixed, parallel]
    rfl
  have hpriced : parallel.IsPriced := by
    refine Problem.isPriced_of_fixed fun rule hrule => ?_
    simp only [parallel, List.mem_cons, List.not_mem_nil, or_false] at hrule
    rcases hrule with rfl | rfl
    · exact ⟨"cheap", _, 1, rfl⟩
    · exact ⟨"dear", _, 5, rfl⟩
  obtain ⟨-, hretraces⟩ :=
    @retraces_visit Int _ _ ⟨parallel, .dfs, .batch⟩ fresh (Or.inl rfl) rfl hpriced 7
  exact ⟨t, hrun, hcosts, hretraces 4 t hrun⟩

end Search

end StateSpace
