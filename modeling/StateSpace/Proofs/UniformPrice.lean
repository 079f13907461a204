import StateSpace.Proofs.BatchOrdering
import StateSpace.Proofs.Breadth
import StateSpace.Proofs.Consistency
import StateSpace.Proofs.Deepening
import StateSpace.Proofs.FiniteSpace

/-!
# Strategies agree under one price

Where all rules ask the same positive price, the cost of a node is its depth, and a node that a
bound cuts off costs more than all that lie within the bound. So under consistent estimates an A*
search under a global ordering settles each state at its first expansion in every pass, cut or not.
The goal that a run takes has as few steps as any, except in a depth-first one. Where there is a way
to a goal every run takes one, since a drained pass has seen all goals as deep as passes were made.
On finitely many states every run with an admission test comes to a verdict, and all of them come to
the same.
-/
namespace StateSpace

theorem Problem.Grows.exists_nearest {σ : Type} {p : Problem σ Int} {m : Node σ Int}
    (hm : p.Grows m) (hgoal : p.isGoal m.state = true) :
    ∃ n, p.Grows n ∧ p.isGoal n.state = true ∧
      ∀ word cost, p.Solves word cost → n.depth ≤ word.length := by
  obtain ⟨n, ⟨hn, hfound⟩, hmin⟩ := (measure Node.depth).wf.has_min
    {n | p.Grows n ∧ p.isGoal n.state = true} ⟨m, hm, hgoal⟩
  refine ⟨n, hn, hfound, ?_⟩
  rintro word cost ⟨goal, hfollow, hfinish⟩
  obtain ⟨k, hk, rfl, rfl, -⟩ := Problem.exists_grows_of_follow? hfollow
  rw [hk.length_positions]
  exact Nat.le_of_not_lt (hmin k ⟨hk, hfinish⟩)

namespace Search

variable {σ : Type} [DecidableEq σ] [Hashable σ] {plan : Plan σ Int} {bound : Int}
  {start s t : Search σ Int} {n m : Node σ Int} {price : Nat}

section Depth

variable (hprice : plan.problem.HasPrice price) (hpositive : 1 ≤ price)

include hprice hpositive

theorem Pass.expands_depth_of_refused (hs : Pass plan bound s) (hn : n ∈ s.frontier.items)
    (hrefused : s.isAdmitted plan.strategy n = false) :
    Expands (fun a b => a.depth ≤ b.depth) s n := by
  have hngrows := hs.ledger.waiting n hn
  by_cases hbfs : plan.strategy = .bfs
  · obtain ⟨g, hg, hstate, hle⟩ := hs.expands_word_of_refused hbfs hn hrefused
    exact ⟨g, hg, hstate, Problem.depth_le_of_word (hs.ledger.grows_of_expanded hg) hngrows hle⟩
  · obtain ⟨g, hg, hstate, hle⟩ := hs.expands_cost_of_refused hbfs hrefused
    have hggrows := hs.ledger.grows_of_expanded hg
    exact ⟨g, hg, hstate, (hggrows.cost_le_iff hngrows hprice hpositive).mp hle⟩

/-- Under one price a node is refused only where its state was expanded no deeper. -/
theorem Pass.covering_depth_of_price (hs : Pass plan bound s) :
    Covering plan (fun a b => a.depth ≤ b.depth) s :=
  hs.covering plan.problem.grading_depth fun _ hu _ hk =>
    hu.expands_depth_of_refused hprice hpositive hk

/-- A drained pass has seen every goal up to one step beyond its bound. -/
theorem Run.passes_lt_depth_of_price (hs : Run plan start s) (hempty : s.frontier.toList = [])
    (hm : plan.problem.Grows m) (hgoal : plan.problem.isGoal m.state = true) :
    s.passes < m.depth := by
  obtain ⟨before, -, hpass⟩ := hs.exists_pass
  exact hs.passes_lt_depth plan.problem.grading_depth (fun _ _ _ _ hle => hle)
    (hpass.covering_depth_of_price hprice hpositive) hempty hm hgoal

end Depth

section Consistent

variable (hprice : plan.problem.HasPrice price) (hpositive : 1 ≤ price)
  (hconsistent : plan.problem.IsConsistent)

include hprice hpositive hconsistent

section Global

variable (hstrategy : plan.strategy = .astar) (hdiscipline : plan.discipline = .global)

include hstrategy hdiscipline

theorem Stage.settled_of_price {p : Progress σ Int} (hstage : Stage plan bound p) :
    Settled plan p.search.expanded := by
  refine hstage.expanded_induction (settled_nil plan) ?_
  intro u n key rest hu settled hfront hwithin hadmitted
  refine hu.settled_cons hstrategy hdiscipline hconsistent hfront hadmitted ?_ settled
  intro k hk hbeyond
  have hn := hu.ledger.waiting n (Frontier.mem_items_of_front hfront)
  rw [hn.cost_le_iff (hu.ledger.tested k hk).1 hprice hpositive]
  rw [hu.ledger.depthBound] at hwithin
  omega

theorem Pass.front_depth_le_of_price (hbound : 0 ≤ bound) (hs : Pass plan bound s)
    {key : Option Int} {rest : List (Entry (Node σ Int) Int)}
    (hfront : s.frontier.toList = ⟨n, key⟩ :: rest)
    (hfound : plan.problem.isGoal n.state = true) (hm : plan.problem.Grows m)
    (hgoal : plan.problem.isGoal m.state = true) : n.depth ≤ m.depth := by
  have ledger := hs.ledger
  have hn := Frontier.mem_items_of_front hfront
  have hngrows := ledger.waiting n hn
  rcases hs.expands_or_front_le hstrategy hdiscipline hconsistent hfront hm with
    ⟨g, hg, hstate, -⟩ | hscore | ⟨k, hk, hbeyond, hle⟩
  · exact absurd hstate (ledger.state_ne_of_goal (ledger.expanded g hg).1 hgoal)
  · rw [Plan.score_astar hstrategy (hconsistent.goal n.state hngrows.reaches hfound),
      Plan.score_astar hstrategy (hconsistent.goal m.state hm.reaches hgoal)] at hscore
    exact (hngrows.cost_le_iff hm hprice hpositive).mp (by omega)
  · -- The front lies no deeper than what was cut off.
    have hdepth := (hs.depth_le hbound).1 n hn
    have hkm := ((ledger.tested k hk).1.cost_le_iff hm hprice hpositive).mp hle
    omega

end Global

/-- The goal at the front of a run has as few steps as any, except in a depth-first run. -/
theorem Run.front_depth_le (hgreedy : plan.strategy ≠ .greedy) (hdfs : plan.strategy ≠ .dfs)
    (hs : Run plan start s) {key : Option Int} {rest : List (Entry (Node σ Int) Int)}
    (hfront : s.frontier.toList = ⟨n, key⟩ :: rest)
    (hfound : plan.problem.isGoal n.state = true) (hm : plan.problem.Grows m)
    (hgoal : plan.problem.isGoal m.state = true) : n.depth ≤ m.depth := by
  obtain ⟨before, -, hpass⟩ := hs.exists_pass
  have hbound : 0 ≤ plan.boundAfter before :=
    (Int.natCast_nonneg before).trans (plan.le_boundAfter before)
  have hn := hpass.ledger.waiting n (Frontier.mem_items_of_front hfront)
  cases hstrategy : plan.strategy with
  | bfs =>
      have hword := hpass.front_earliest hstrategy hbound hfront hm hgoal
      exact Problem.depth_le_of_word hn hm hword
  | dfs => exact absurd hstrategy hdfs
  | iddfs =>
      obtain ⟨nearest, hgrows, hnearest, hmin⟩ := hm.exists_nearest hgoal
      obtain ⟨-, hdepth, -⟩ :=
        hs.front_nearest hstrategy hprice hpositive hfront hfound hgrows hnearest hmin
      obtain ⟨cost, -, hsolves⟩ := hm.solves hgoal
      rw [hdepth, ← hm.length_positions]
      exact hmin m.positions cost hsolves
  | astar =>
      cases hdiscipline : plan.discipline with
      | batch => exact hpass.front_depth_le (Or.inl hstrategy) hdiscipline hbound hfront hm hgoal
      | global =>
          exact hpass.front_depth_le_of_price hprice hpositive hconsistent hstrategy hdiscipline
            hbound hfront hfound hm hgoal
  | greedy => exact absurd hstrategy hgreedy

/-- On finitely many states every run with an admission test comes to a verdict, and the solutions
of all but the depth-first ones have as few steps as possible. -/
theorem exists_fewest_of_price (hgreedy : plan.strategy ≠ .greedy)
    (hfinite : {x | plan.problem.Reaches x}.Finite) (hallowance : start.allowance = none) :
    ∃ turns t, start.run plan turns = .ended t ∧
      ((∃ n, t.solution = some n) ↔
        ∃ x, plan.problem.Reaches x ∧ plan.problem.isGoal x = true) ∧
      (t.isFailed = false ↔ ∃ n, t.solution = some n) ∧
      ∀ n, t.solution = some n → plan.problem.Grows n ∧ plan.problem.isGoal n.state = true ∧
        (plan.strategy ≠ .dfs → ∀ word cost, plan.problem.Solves word cost →
          n.depth ≤ word.length) := by
  obtain ⟨turns, t, hrun, hsolved, hfailed, -, -⟩ := decides_of_passes_le
    (fun _ hs => hs.passes_le_of_hit fun _ _ hpass => hpass.bound_lt_of_hit hgreedy hfinite)
    (unbroken_of_estimated hallowance hprice.isPriced hconsistent.estimated)
  refine ⟨turns, t, hrun, hsolved, hfailed, fun n hsolution => ?_⟩
  obtain ⟨s, key, rest, hs, hfront, hfound, -⟩ := exists_front_of_solution hrun hsolution
  obtain ⟨before, -, hpass⟩ := hs.exists_pass
  refine ⟨hpass.ledger.waiting n (Frontier.mem_items_of_front hfront), hfound, ?_⟩
  rintro hdfs word cost ⟨goal, hfollow, hgoal⟩
  obtain ⟨m, hm, rfl, rfl, -⟩ := Problem.exists_grows_of_follow? hfollow
  rw [hm.length_positions]
  exact hs.front_depth_le hprice hpositive hconsistent hgreedy hdfs hfront hfound hm hgoal

/-- Where some word solves the problem every run ends with a solution, however many states there
are, and the solutions of all but greedy and depth-first runs have as few steps as possible. -/
theorem exists_fewest_of_solvable (hallowance : start.allowance = none)
    (hsolvable : ∃ word cost, plan.problem.Solves word cost) :
    ∃ turns t n, start.run plan turns = .ended t ∧ t.isFailed = false ∧ t.solution = some n ∧
      plan.problem.Grows n ∧ plan.problem.isGoal n.state = true ∧
      (plan.strategy ≠ .greedy → plan.strategy ≠ .dfs → ∀ word cost,
        plan.problem.Solves word cost → n.depth ≤ word.length) := by
  obtain ⟨s, n, key, rest, turns, hs, hfront, hfound, hrun⟩ := exists_solution
    (fun s hs hempty m hm hgoal => hs.passes_lt_depth_of_price hprice hpositive hempty hm hgoal)
    (unbroken_of_estimated hallowance hprice.isPriced hconsistent.estimated) hsolvable
  obtain ⟨before, -, hpass⟩ := hs.exists_pass
  refine ⟨turns, _, n, hrun, hs.no_verdict.2.2, rfl,
    hpass.ledger.waiting n (Frontier.mem_items_of_front hfront), hfound, ?_⟩
  rintro hgreedy hdfs word cost ⟨goal, hfollow, hgoal⟩
  obtain ⟨m, hm, rfl, rfl, -⟩ := Problem.exists_grows_of_follow? hfollow
  rw [hm.length_positions]
  exact hs.front_depth_le hprice hpositive hconsistent hgreedy hdfs hfront hfound hm hgoal

end Consistent

end Search

end StateSpace
