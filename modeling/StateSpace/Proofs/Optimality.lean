import StateSpace.Proofs.Exhaustion
import StateSpace.Proofs.GlobalOrdering

/-!
# Cost of the solution under a global ordering

An A* search under a global ordering takes a goal only when nothing that scores less waits. On the
way to any goal some node waits at no more than its cost on that way, so that the solution found
costs no more than the cheapest one but for the error of the estimates. The estimates need not be
consistent.
-/
namespace StateSpace

/-- Within reach no estimate is negative, and none exceeds the cost of any way to a goal by more
than the slack. -/
structure Problem.EstimatesWithin {σ : Type} (p : Problem σ Int) (slack : Nat) : Prop where
  nonneg : ∀ s h, p.Reaches s → p.estimate s = .ok h → 0 ≤ h
  le_add : ∀ s h, p.Reaches s → p.estimate s = .ok h → ∀ word goal, ∀ cost : Nat,
    p.follow? s word = some (goal, cost) → p.isGoal goal = true → h ≤ slack + cost

theorem Plan.evaluate_astar {σ : Type} {plan : Plan σ Int} {n : Node σ Int} {k : Int}
    (hstrategy : plan.strategy = .astar) (heval : plan.evaluate n = .ok k) :
    ∃ h, plan.problem.estimate n.state = .ok h ∧ k = n.cost + h := by
  rw [evaluate_eq, hstrategy] at heval
  cases hestimate : plan.problem.estimate n.state with
  | error d => simp [hestimate, bind, Except.bind] at heval
  | ok h =>
      simp only [hestimate, bind, Except.bind, Quantity.add_int, Except.ok.injEq] at heval
      exact ⟨h, rfl, heval.symm⟩

namespace Search

variable {σ : Type} [DecidableEq σ] [Hashable σ] {plan : Plan σ Int} {bound : Int}
  {start s t : Search σ Int} {n m : Node σ Int} {slack : Nat}

/-- A node at the front costs no more than any goal, but for the slack of the estimates. -/
theorem Pass.front_cost_le (hstrategy : plan.strategy = .astar)
    (hdiscipline : plan.discipline = .global) (hestimates : plan.problem.EstimatesWithin slack)
    (hs : Pass plan bound s) (hcut : ∀ k ∈ s.tested, (k.depth : Int) ≤ bound)
    {key : Option Int} {rest : List (Entry (Node σ Int) Int)}
    (hfront : s.frontier.toList = ⟨n, key⟩ :: rest) (hm : plan.problem.Grows m)
    (hgoal : plan.problem.isGoal m.state = true) : n.cost ≤ slack + m.cost := by
  have hbfs : plan.strategy ≠ .bfs := by rw [hstrategy]; simp
  have ledger := hs.ledger
  obtain ⟨a, hagrows, word, cost, -, hcost, hfollow, hlater⟩ :=
    (hs.covering_cost hbfs).walk_of_goal plan.problem.grading_cost ledger hm hgoal
  obtain ⟨k, hk, hstate, hle⟩ : Waits (fun a b => a.cost ≤ b.cost) s a := by
    rcases hlater with hwaits | ⟨⟨k, hk, hbeyond, -⟩, -⟩
    · exact hwaits
    · have hwithin := hcut k hk
      rw [ledger.depthBound] at hbeyond
      omega
  have hn := Frontier.mem_items_of_front hfront
  have hngrows := ledger.waiting n hn
  rcases hs.ranked (Or.inl hstrategy) hdiscipline with hroot | ⟨items, ranked⟩
  · rw [hroot] at hn
    obtain rfl := List.mem_singleton.mp hn
    have := hm.cost_nonneg
    show (0 : Int) ≤ slack + m.cost
    omega
  · have hitems : s.frontier.items = items := by
      rw [Frontier.items, ranked.entries, Plan.items_keyed]
    rw [hitems] at hn hk
    have hscore : plan.score n ≤ plan.score k := by
      rw [hfront] at ranked
      exact ranked.score_le k hk
    obtain ⟨hestn, hnest, hnscore⟩ := Plan.evaluate_astar hstrategy (ranked.evaluate n hn)
    obtain ⟨hestk, hkest, hkscore⟩ := Plan.evaluate_astar hstrategy (ranked.evaluate k hk)
    have hnonneg := hestimates.nonneg n.state hestn hngrows.reaches hnest
    have hwithin : hestk ≤ slack + cost := by
      rw [hstate] at hkest
      exact hestimates.le_add a.state hestk hagrows.reaches hkest word m.state cost hfollow hgoal
    -- Only the estimate at `a` is compared with a cost, so estimates need not agree along the way.
    calc n.cost ≤ plan.score n := by omega
      _ ≤ plan.score k := hscore
      _ = k.cost + hestk := hkscore
      _ ≤ a.cost + (slack + cost) := by omega
      _ = slack + m.cost := by omega

/-- **Cost up to the error of the estimates.** Where an A* search under a global ordering finds a
solution and took no node beyond the unbounded depth, the solution costs no more than the cheapest
one and the slack of the estimates together; without slack it is a cheapest one. -/
theorem isLeast_cost_of_astar_global (hstrategy : plan.strategy = .astar)
    (hdiscipline : plan.discipline = .global) (hestimates : plan.problem.EstimatesWithin slack)
    {turns : Nat} (hrun : start.run plan turns = .ended t) (hsolution : t.solution = some n)
    (hpopped : ∀ m ∈ t.popped, (m.depth : Int) ≤ unbounded) :
    ∃ best : Nat, IsLeast {cost | ∃ word, plan.problem.Solves word cost} best ∧
      n.cost ≤ slack + best ∧ (slack = 0 → n.cost = best) := by
  obtain ⟨s, key, rest, hs, hfront, hgoal, rfl⟩ := exists_front_of_solution hrun hsolution
  obtain ⟨before, -, hpass⟩ := hs.exists_pass
  have hcut : ∀ k ∈ s.tested, (k.depth : Int) ≤ plan.boundAfter before := by
    intro k hk
    have hle := hpopped k (List.mem_cons_of_mem n (s.tested_subset_popped hk))
    have hbound : plan.boundAfter before = unbounded + before := by
      simp [Plan.boundAfter, hstrategy, Strategy.isIterative]
    omega
  have hn := Frontier.mem_items_of_front hfront
  obtain ⟨cost, hcost, hfollow⟩ := (hpass.ledger.waiting n hn).follow?
  have hsolves : ∃ cost word, plan.problem.Solves word cost :=
    ⟨cost, n.positions, n.state, hfollow, hgoal⟩
  classical
  obtain ⟨word, goal, hbest, hbestgoal⟩ := Nat.find_spec hsolves
  have hmin : ∀ cost, (∃ word, plan.problem.Solves word cost) → Nat.find hsolves ≤ cost :=
    fun cost hcost => Nat.find_min' hsolves hcost
  obtain ⟨m, hm, -, hstate, hmcost⟩ := Problem.exists_grows_of_follow? hbest
  have hle := hpass.front_cost_le hstrategy hdiscipline hestimates hcut hfront hm
    (hstate ▸ hbestgoal)
  have hleast := hmin cost ⟨n.positions, n.state, hfollow, hgoal⟩
  refine ⟨Nat.find hsolves, ⟨⟨word, goal, hbest, hbestgoal⟩, fun c hc => hmin c hc⟩, ?_, ?_⟩
  · omega
  · intro hslack
    omega

/-- Doublings from 1 to 2, with an estimate that is by one too high at the goal. -/
def guesses : Plan Int Int where
  problem := { Doubling.evens 1 2 2 with heuristic := some fun _ => .ok (some 1) }
  strategy := .astar
  discipline := .global

theorem cost_guesses_le :
    ∃ t n, (fresh : Search Int Int).run guesses 2 = .ended t ∧ t.solution = some n ∧
      ∃ best : Nat, IsLeast {cost | ∃ word, guesses.problem.Solves word cost} best ∧
        n.cost ≤ 1 + best := by
  obtain ⟨t, n, hrun, hsolution, hdepths⟩ :
      ∃ t n, (fresh : Search Int Int).run guesses 2 = .ended t ∧ t.solution = some n ∧
        t.popped.map Node.depth = [1, 0] := by
    simp [run, beginRun, reset, fresh, beginPass, Plan.askInitial, guesses, Plan.boundAfter,
      Strategy.isIterative, unbounded, Progress.after, advance, turn, isBeyond?_int, isWithin_int,
      pop, record, Plan.askGoal, explode, admits, isBest_int, expand, close, count, pay?,
      Closed.put_eq_insert, enqueue, insertAll, succeed, conclude, popped, Plan.askRules,
      Plan.childrenFrom, Plan.askBatch, Plan.entries?, Plan.askEvaluations, Plan.askEvaluation,
      Plan.askEstimate, Except.map, bind, Except.bind, stableSort, insertBehind,
      Sorting.halve?, Frontier.insertOrdered?, Frontier.popFront?, Frontier.pushBack,
      Frontier.empty, Frontier.ofList, Frontier.toList, Node.depth, Node.state, Node.cost,
      Value.toPrice?, Rule.unit, Rule.fixed, Doubling.evens, Doubling.evenRules, Doubling.within]
    rfl
  have hestimates : guesses.problem.EstimatesWithin 1 := by
    have hone : ∀ s h, guesses.problem.estimate s = .ok h → h = 1 :=
      fun s h hestimate => (Except.ok.inj hestimate).symm
    constructor
    · intro s h _ hestimate
      rw [hone s h hestimate]
      exact Int.one_nonneg
    · intro s h _ hestimate word goal cost _ _
      rw [hone s h hestimate]
      omega
  have hpopped : ∀ m ∈ t.popped, (m.depth : Int) ≤ unbounded := by
    intro m hm
    have hdepth := List.mem_map_of_mem (f := Node.depth) hm
    rw [hdepths] at hdepth
    simp only [List.mem_cons, List.not_mem_nil, or_false] at hdepth
    unfold unbounded
    omega
  obtain ⟨best, hbest, hle, -⟩ :=
    isLeast_cost_of_astar_global rfl rfl hestimates hrun hsolution hpopped
  exact ⟨t, n, hrun, hsolution, best, hbest, hle⟩

end Search

end StateSpace
