import StateSpace.Proofs.UniformPrice
import Mathlib.Order.Lattice.Nat

/-!
# Drained passes are balls

The distance of a state is the least number of steps that lead to it. Where all rules ask the same
positive price, a pass that is drained without a goal has expanded the states whose distance is at
most its bound and tested those that lie up to one step further. Depth first a state is often met on
a detour first, close to the bound or beyond it. But it is refused later on only where it was
expanded no deeper, so that it is expanded again on a shorter way, and no part of the ball is lost.
-/
namespace StateSpace

namespace Problem

variable {σ : Type} {p : Problem σ Int} {n : Node σ Int} {x : σ} {steps limit : Nat}

theorem LeastSteps.exists_grows (hsteps : p.LeastSteps x steps) :
    ∃ n, p.Grows n ∧ n.state = x ∧ n.depth = steps := by
  obtain ⟨word, cost, hfollow, hlength⟩ := hsteps.1
  obtain ⟨n, hn, rfl, hstate, -⟩ := exists_grows_of_follow? hfollow
  exact ⟨n, hn, hstate, hn.length_positions.symm.trans hlength⟩

theorem LeastSteps.le_depth (hsteps : p.LeastSteps x steps) (hn : p.Grows n)
    (hstate : n.state = x) : steps ≤ n.depth := by
  obtain ⟨cost, -, hfollow⟩ := hn.follow?
  exact hsteps.2 ⟨n.positions, cost, hstate ▸ hfollow, hn.length_positions⟩

/-- A state lies within a distance if some node of it is no deeper. -/
theorem exists_leastSteps_le_iff :
    (∃ steps ≤ limit, p.LeastSteps x steps) ↔ ∃ n, p.Grows n ∧ n.state = x ∧ n.depth ≤ limit := by
  constructor
  · rintro ⟨steps, hle, hsteps⟩
    obtain ⟨n, hn, hstate, rfl⟩ := hsteps.exists_grows
    exact ⟨n, hn, hstate, hle⟩
  · rintro ⟨n, hn, rfl, hle⟩
    obtain ⟨cost, -, hfollow⟩ := hn.follow?
    have hmem : n.depth ∈ {length | ∃ word cost,
        p.follow? p.initial word = some (n.state, cost) ∧ word.length = length} :=
      ⟨n.positions, cost, hfollow, hn.length_positions⟩
    exact ⟨_, (Nat.sInf_le hmem).trans hle, Nat.sInf_mem ⟨_, hmem⟩, fun _ => Nat.sInf_le⟩

end Problem

namespace Search

variable {σ : Type} [DecidableEq σ] [Hashable σ] {plan : Plan σ Int} {bound price : Nat}
  {start s t : Search σ Int} {n : Node σ Int} {x : σ}

theorem exists_drained_of_goalless {turns : Nat}
    (hended : start.explore plan bound turns = .ended t)
    (hgoalless : ∀ n ∈ t.tested, plan.problem.isGoal n.state = false) :
    ∃ s, Pass plan bound s ∧ s.frontier.toList = [] ∧ t.closed = s.closed ∧
      t.tested = s.tested := by
  have hstage := stage_explore plan bound start turns
  rw [hended] at hstage
  cases hstage with
  | @ended s _ hs hturn =>
      cases ends_of_ended hturn with
      | drained hempty hresult =>
          subst hresult
          exact ⟨s, hs, hempty, rfl, rfl⟩
      | goal n key rest hfront hgoal hresult =>
          subst hresult
          rw [hgoalless n List.mem_cons_self] at hgoal
          cases hgoal

section Drained

variable (hprice : plan.problem.HasPrice price) (hpositive : 1 ≤ price) (hs : Pass plan bound s)
  (hempty : s.frontier.toList = [])

include hprice hpositive hs hempty

/-- Up to one step beyond the bound the state of a node was expanded no deeper, or the node lies
beyond the bound and its state was tested. -/
theorem Pass.expands_or_tested (hn : plan.problem.Grows n) (hnear : n.depth ≤ bound + 1) :
    Expands (fun a b => a.depth ≤ b.depth) s n ∨
      bound < n.depth ∧ ∃ k ∈ s.tested, k.state = n.state := by
  have ledger := hs.ledger
  have covering := hs.covering_depth_of_price hprice hpositive
  rcases covering.walk plan.problem.grading_depth ledger hn with
    hexpands | ⟨a, ha, ⟨k, hk, -⟩ | ⟨k, hk, hbeyond, hstate, hle⟩⟩
  · exact Or.inl hexpands
  · exact absurd hk (Frontier.not_mem_items hempty k)
  · -- What was cut off stands for a node beyond the bound, and only the last of the path is one.
    obtain ⟨hagrows, word, cost, hpositions, -, hfollow⟩ := hn.of_mem_path ha
    have hlength := hn.depth_eq_add hagrows hpositions
    rw [ledger.depthBound] at hbeyond
    obtain rfl : word = [] := List.eq_nil_of_length_eq_zero (by omega)
    obtain ⟨hsame, -⟩ := Prod.mk.inj (Option.some.inj hfollow)
    exact Or.inr ⟨by omega, k, hk, hstate.trans hsame⟩

theorem Pass.expands_of_depth_le (hn : plan.problem.Grows n) (hwithin : n.depth ≤ bound) :
    Expands (fun a b => a.depth ≤ b.depth) s n := by
  rcases hs.expands_or_tested hprice hpositive hempty hn (by omega) with hexpands | ⟨hbeyond, -⟩
  · exact hexpands
  · omega

theorem Pass.mem_closed_iff_leastSteps :
    x ∈ s.closed ↔ ∃ steps ≤ bound, plan.problem.LeastSteps x steps := by
  have ledger := hs.ledger
  rw [ledger.mem_closed_iff, Problem.exists_leastSteps_le_iff]
  constructor
  · rintro ⟨g, hg, hstate⟩
    exact ⟨g, ledger.grows_of_expanded hg, hstate, by exact_mod_cast (ledger.expanded g hg).2⟩
  · rintro ⟨n, hn, rfl, hwithin⟩
    obtain ⟨g, hg, hstate, -⟩ := hs.expands_of_depth_le hprice hpositive hempty hn hwithin
    exact ⟨g, hg, hstate⟩

theorem Pass.exists_tested_iff_leastSteps :
    (∃ n ∈ s.tested, n.state = x) ↔ ∃ steps ≤ bound + 1, plan.problem.LeastSteps x steps := by
  have ledger := hs.ledger
  rw [Problem.exists_leastSteps_le_iff]
  constructor
  · rintro ⟨k, hk, hstate⟩
    have hdepth := (hs.depth_le (Int.natCast_nonneg bound)).2 k hk
    exact ⟨k, (ledger.tested k hk).1, hstate, by exact_mod_cast hdepth⟩
  · rintro ⟨n, hn, rfl, hnear⟩
    rcases hs.expands_or_tested hprice hpositive hempty hn hnear with
      ⟨g, hg, hstate, -⟩ | ⟨-, htested⟩
    · exact ⟨g, (ledger.expanded g hg).1, hstate⟩
    · exact htested

theorem Pass.getElem?_closed_of_leastSteps (hgreedy : plan.strategy ≠ .greedy) {steps : Nat}
    (hwithin : steps ≤ bound) (hsteps : plan.problem.LeastSteps x steps) :
    s.closed[x]? = some (price * steps : Int) := by
  have ledger := hs.ledger
  -- What the map holds is the cheapest expansion, and under one price that is the least deep one.
  obtain ⟨n, hn, rfl, rfl⟩ := hsteps.exists_grows
  obtain ⟨g, hg, hgstate, hgle⟩ := hs.expands_of_depth_le hprice hpositive hempty hn hwithin
  obtain ⟨k, hk, hkstate, hclosed, hcheapest⟩ := hs.exists_cheapest hgreedy hg
  rw [hgstate] at hkstate hclosed
  have hkgrows := ledger.grows_of_expanded hk
  have hkle : k.depth ≤ g.depth :=
    (hkgrows.cost_le_iff (ledger.grows_of_expanded hg) hprice hpositive).mp (hcheapest g hg rfl)
  have hdepth : k.depth = n.depth :=
    (hkle.trans hgle).antisymm (hsteps.le_depth hkgrows hkstate)
  rw [hclosed, hkgrows.cost_eq hprice, hdepth]

end Drained

/-- **A drained pass is a ball.** Where all rules ask the same positive price and a pass of any
strategy ends without a goal, the closed states are those whose distance is at most the bound, and
the states that were tested are those up to one step further. Where there is an admission test, each
closed state has the price of its distance. -/
theorem ball_of_goalless_pass {turns : Nat} (hprice : plan.problem.HasPrice price)
    (hpositive : 1 ≤ price) (hended : start.explore plan bound turns = .ended t)
    (hgoalless : ∀ n ∈ t.tested, plan.problem.isGoal n.state = false) :
    (∀ x, x ∈ t.closed ↔ ∃ steps ≤ bound, plan.problem.LeastSteps x steps) ∧
      (plan.strategy ≠ .greedy → ∀ x, ∀ steps ≤ bound, plan.problem.LeastSteps x steps →
        t.closed[x]? = some (price * steps : Int)) ∧
      ∀ x, (∃ n ∈ t.tested, n.state = x) ↔
        ∃ steps ≤ bound + 1, plan.problem.LeastSteps x steps := by
  obtain ⟨s, hs, hempty, hclosed, htested⟩ := exists_drained_of_goalless hended hgoalless
  rw [hclosed, htested]
  refine ⟨fun x => ?_, fun hgreedy x steps hwithin hsteps => ?_, fun x => ?_⟩
  · exact hs.mem_closed_iff_leastSteps hprice hpositive hempty
  · exact hs.getElem?_closed_of_leastSteps hprice hpositive hempty hgreedy hwithin hsteps
  · exact hs.exists_tested_iff_leastSteps hprice hpositive hempty

/-- Two steps lead from 0 to 2, and the earlier of two rules leads there at once. -/
def shortcut : Problem Int Int where
  initial := 0
  isGoal n := n == 5
  rules :=
    [ Rule.fixed "jump" (.int 1) fun n => if n = 0 then some 2 else none,
      Rule.fixed "on" (.int 1) fun n => if n < 5 then some (n + 1) else none ]
  heuristic := none

/-- Depth first 2 is expanded at the bound of two steps and then again one step from 0, so that 3 is
expanded as well and 4 is tested. -/
theorem ball_shortcut :
    shortcut.HasPrice 1 ∧
      ∃ t, (fresh : Search Int Int).explore ⟨shortcut, .dfs, .batch⟩ (2 : Nat) 8 = .ended t ∧
      t.tested.map Node.state = [4, 3, 2, 3, 2, 1, 0] ∧
      (∀ x, x ∈ t.closed ↔ ∃ steps ≤ 2, shortcut.LeastSteps x steps) ∧
      (∀ x, ∀ steps ≤ 2, shortcut.LeastSteps x steps → t.closed[x]? = some (steps : Int)) ∧
      ∀ x, (∃ n ∈ t.tested, n.state = x) ↔ ∃ steps ≤ 3, shortcut.LeastSteps x steps := by
  obtain ⟨t, hended, hstates⟩ :
      ∃ t, (fresh : Search Int Int).explore ⟨shortcut, .dfs, .batch⟩ (2 : Nat) 8 = .ended t ∧
        t.tested.map Node.state = [4, 3, 2, 3, 2, 1, 0] := by
    simp [explore, fresh, beginPass, Plan.askInitial, Progress.after, turn, isBeyond?_int,
      isWithin_int, pop, record, Plan.askGoal, explode, admits, isBest_int, expand, close, count,
      pay?, Closed.put_eq_insert, enqueue, drain, tested, recent, Event.isStart, Plan.askRules,
      Plan.childrenFrom, Frontier.popFront?, Frontier.pushBack, Frontier.pushFront, Frontier.empty,
      Frontier.ofList, Node.depth, Node.state, Node.cost, Value.toPrice?, Rule.fixed, shortcut]
    rfl
  have hprice : shortcut.HasPrice 1 := by
    refine Problem.hasPrice_of_fixed fun rule hrule => ?_
    simp only [shortcut, List.mem_cons, List.not_mem_nil, or_false] at hrule
    rcases hrule with rfl | rfl
    · exact ⟨"jump", _, rfl⟩
    · exact ⟨"on", _, rfl⟩
  have hgoalless : ∀ n ∈ t.tested, shortcut.isGoal n.state = false := by
    intro n hn
    have hstate := List.mem_map_of_mem (f := Node.state) hn
    rw [hstates] at hstate
    simp only [List.mem_cons, List.not_mem_nil, or_false] at hstate
    simp only [shortcut, beq_eq_false_iff_ne]
    omega
  obtain ⟨hclosed, hcost, htested⟩ := ball_of_goalless_pass hprice le_rfl hended hgoalless
  refine ⟨hprice, t, hended, hstates, hclosed, fun x steps hwithin hsteps => ?_, htested⟩
  rw [hcost (by simp) x steps hwithin hsteps, Int.natCast_one, Int.one_mul]

end Search

end StateSpace
