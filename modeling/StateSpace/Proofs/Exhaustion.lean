import StateSpace.Proofs.Coverage
import Mathlib.Order.Bounds.Basic

/-!
# A failed run has seen everything

A run fails where a pass is drained and nothing was cut off. Then every state within reach was
expanded, so none of them is a goal; and where admission goes by cost, the closed map holds the
least cost of every state.
-/
namespace StateSpace

namespace Problem

variable {σ : Type}

theorem grading_any (p : Problem σ Int) : p.Grading fun _ _ => True where
  refl _ := trivial
  trans _ _ := trivial
  child _ _ _ _ _ _ := trivial

theorem grading_cost (p : Problem σ Int) : p.Grading fun a b => a.cost ≤ b.cost where
  refl n := le_refl n.cost
  trans := le_trans
  child := by
    intro a b a' b' position _ _ hstate hle ha hb
    obtain ⟨price, hstep, hcost⟩ := step?_of_child? ha
    obtain ⟨price', hstep', hcost'⟩ := step?_of_child? hb
    rw [hstate, hstep'] at hstep
    obtain ⟨-, rfl⟩ := Prod.mk.inj (Option.some.inj hstep)
    omega

end Problem

namespace Search

variable {σ : Type} [DecidableEq σ] [Hashable σ] {plan : Plan σ Int} {bound : Int}
  {start s t : Search σ Int} {n : Node σ Int} {le : Node σ Int → Node σ Int → Prop}

/-- A node is refused only where its state was closed, and, except breadth first, at no higher
cost. -/
theorem closed_of_refused (hrefused : s.isAdmitted plan.strategy n = false) :
    ∃ best, s.closed[n.state]? = some best ∧ (plan.strategy ≠ .bfs → best ≤ n.cost) := by
  unfold isAdmitted at hrefused
  cases hbest : s.closed[n.state]? with
  | none =>
      rw [hbest] at hrefused
      cases hstrategy : plan.strategy <;> simp [hstrategy] at hrefused
  | some best =>
      rw [hbest] at hrefused
      refine ⟨best, rfl, fun hbfs => ?_⟩
      cases hstrategy : plan.strategy <;> simp [hstrategy] at hrefused hbfs <;> exact hrefused

/-- Where there is an admission test, a state is only closed again at a lower cost. -/
theorem lt_of_admitted (hgreedy : plan.strategy ≠ .greedy)
    (hadmitted : s.isAdmitted plan.strategy n = true) {best : Int}
    (hbest : s.closed[n.state]? = some best) : n.cost < best := by
  unfold isAdmitted at hadmitted
  cases hstrategy : plan.strategy <;> simp [hstrategy, hbest] at hadmitted hgreedy <;>
    exact hadmitted

theorem Pass.exists_expanded_of_refused (hs : Pass plan bound s)
    (hrefused : s.isAdmitted plan.strategy n = false) :
    ∃ g ∈ s.expanded, g.state = n.state ∧ (plan.strategy ≠ .bfs → g.cost ≤ n.cost) := by
  obtain ⟨best, hbest, hle⟩ := closed_of_refused hrefused
  obtain ⟨g, hg, hstate, rfl⟩ := hs.ledger.expanded_of_closed _ best hbest
  exact ⟨g, hg, hstate, hle⟩

theorem Pass.expands_any_of_refused (hs : Pass plan bound s)
    (hrefused : s.isAdmitted plan.strategy n = false) : Expands (fun _ _ => True) s n := by
  obtain ⟨g, hg, hstate, -⟩ := hs.exists_expanded_of_refused hrefused
  exact ⟨g, hg, hstate, trivial⟩

theorem Pass.expands_cost_of_refused (hs : Pass plan bound s) (hstrategy : plan.strategy ≠ .bfs)
    (hrefused : s.isAdmitted plan.strategy n = false) :
    Expands (fun a b => a.cost ≤ b.cost) s n := by
  obtain ⟨g, hg, hstate, hle⟩ := hs.exists_expanded_of_refused hrefused
  exact ⟨g, hg, hstate, hle hstrategy⟩

theorem Pass.covering_any (hs : Pass plan bound s) : Covering plan (fun _ _ => True) s :=
  hs.covering plan.problem.grading_any fun _ hu _ _ => hu.expands_any_of_refused

theorem Pass.covering_cost (hstrategy : plan.strategy ≠ .bfs) (hs : Pass plan bound s) :
    Covering plan (fun a b => a.cost ≤ b.cost) s :=
  hs.covering plan.problem.grading_cost fun _ hu _ _ => hu.expands_cost_of_refused hstrategy

theorem Visit.closed_le_of_expanded (hgreedy : plan.strategy ≠ .greedy)
    (ledger : Ledger plan bound s) (hvisit : Visit plan s t)
    (hle : ∀ n ∈ s.expanded, ∀ best, s.closed[n.state]? = some best → best ≤ n.cost) :
    ∀ n ∈ t.expanded, ∀ best, t.closed[n.state]? = some best → best ≤ n.cost := by
  cases hvisit with
  | skipped n rest takes _ hclosed hexpanded =>
      rw [hexpanded, hclosed]
      exact hle
  | expanded n rest takes _ hadmitted _ hclosed hexpanded =>
      intro m hm best hbest
      rw [hclosed] at hbest
      rw [hexpanded] at hm
      split at hbest
      · next hstate =>
        obtain rfl := Option.some.inj hbest
        rcases List.mem_cons.mp hm with rfl | hm
        · exact le_refl _
        · -- The state was closed before, and is closed again at a lower cost.
          obtain ⟨cost, hcost⟩ := ledger.closed_of_expanded m hm
          have hle := hle m hm cost hcost
          rw [← hstate] at hcost
          have hlt := lt_of_admitted hgreedy hadmitted hcost
          omega
      · next hstate =>
        rcases List.mem_cons.mp hm with rfl | hm
        · exact absurd rfl hstate
        · exact hle m hm best hbest

/-- Where there is an admission test, a closed cost is the least at which its state was expanded. -/
theorem Pass.closed_le_of_expanded (hgreedy : plan.strategy ≠ .greedy) (hs : Pass plan bound s) :
    ∀ n ∈ s.expanded, ∀ best, s.closed[n.state]? = some best → best ≤ n.cost := by
  induction hs with
  | start s =>
      intro n hn
      cases hn
  | turn hs hturn ih =>
      exact (turn_of_running hturn).visit.closed_le_of_expanded hgreedy hs.ledger ih

/-- Where there is an admission test, a state that was expanded is closed at the cost of the cheapest
of its nodes that were. -/
theorem Pass.exists_cheapest (hgreedy : plan.strategy ≠ .greedy) (hs : Pass plan bound s)
    (hn : n ∈ s.expanded) :
    ∃ k ∈ s.expanded, k.state = n.state ∧ s.closed[n.state]? = some k.cost ∧
      ∀ g ∈ s.expanded, g.state = n.state → k.cost ≤ g.cost := by
  obtain ⟨best, hbest⟩ := hs.ledger.closed_of_expanded n hn
  obtain ⟨k, hk, hstate, rfl⟩ := hs.ledger.expanded_of_closed _ best hbest
  refine ⟨k, hk, hstate, hbest, fun g hg hgstate => ?_⟩
  rw [← hgstate] at hbest
  exact hs.closed_le_of_expanded hgreedy g hg _ hbest

/-- A node is admitted only if it costs less than all nodes of its state that were expanded. -/
theorem Pass.cost_lt_of_admitted (hgreedy : plan.strategy ≠ .greedy) (hs : Pass plan bound s)
    (hadmitted : s.isAdmitted plan.strategy n = true) {g : Node σ Int} (hg : g ∈ s.expanded)
    (hstate : g.state = n.state) : n.cost < g.cost := by
  obtain ⟨best, hbest⟩ := hs.ledger.closed_of_expanded g hg
  have hle := hs.closed_le_of_expanded hgreedy g hg best hbest
  rw [hstate] at hbest
  exact lt_of_lt_of_le (lt_of_admitted hgreedy hadmitted hbest) hle

/-- In a pass that is drained with nothing cut off, every node is answered for by one that was
expanded. -/
theorem Covering.expands_of_drained (grading : plan.problem.Grading le)
    (covering : Covering plan le s) (ledger : Ledger plan bound s)
    (hempty : s.frontier.toList = []) (hhit : s.boundHit = false) (hn : plan.problem.Grows n) :
    Expands le s n := by
  rcases covering.walk grading ledger hn with hexpands | ⟨a, -, ⟨m, hm, -⟩ | ⟨m, hm, hbeyond, -⟩⟩
  · exact hexpands
  · exact absurd hm (Frontier.not_mem_items hempty m)
  · rw [ledger.depthBound] at hbeyond
    rw [ledger.boundHit.mpr ⟨m, hm, hbeyond⟩] at hhit
    cases hhit

/-- A drained pass in which nothing was cut off has closed the states within reach and no others. -/
theorem Pass.mem_closed_iff (hs : Pass plan bound s) (hempty : s.frontier.toList = [])
    (hhit : s.boundHit = false) (x : σ) : x ∈ s.closed ↔ plan.problem.Reaches x := by
  rw [hs.ledger.mem_closed_iff]
  constructor
  · rintro ⟨g, hg, rfl⟩
    exact (hs.ledger.grows_of_expanded hg).reaches
  · rintro ⟨word, cost, hfollow⟩
    obtain ⟨n, hn, -, rfl, -⟩ := Problem.exists_grows_of_follow? hfollow
    obtain ⟨g, hg, hstate, -⟩ := hs.covering_any.expands_of_drained plan.problem.grading_any
      hs.ledger hempty hhit hn
    exact ⟨g, hg, hstate⟩

theorem Pass.notGoal_of_drained (hs : Pass plan bound s) (hempty : s.frontier.toList = [])
    (hhit : s.boundHit = false) {x : σ} (hx : plan.problem.Reaches x) :
    plan.problem.isGoal x = false := by
  obtain ⟨g, hg, rfl⟩ :=
    hs.ledger.mem_closed_iff.mp ((hs.mem_closed_iff hempty hhit x).mpr hx)
  exact (hs.ledger.tested g (hs.ledger.expanded g hg).1).2

theorem Pass.isLeast_closed (hbfs : plan.strategy ≠ .bfs) (hgreedy : plan.strategy ≠ .greedy)
    (hs : Pass plan bound s) (hempty : s.frontier.toList = []) (hhit : s.boundHit = false) {x : σ}
    (hx : plan.problem.Reaches x) :
    ∃ best : Nat, s.closed[x]? = some (best : Int) ∧
      IsLeast {cost | ∃ word, plan.problem.follow? plan.problem.initial word = some (x, cost)}
        best := by
  obtain ⟨n, hn, rfl⟩ := hs.ledger.mem_closed_iff.mp ((hs.mem_closed_iff hempty hhit x).mpr hx)
  obtain ⟨g, hg, hstate, hclosed, hcheapest⟩ := hs.exists_cheapest hgreedy hn
  obtain ⟨best, hbest, hfollow⟩ := (hs.ledger.grows_of_expanded hg).follow?
  rw [hstate] at hfollow
  refine ⟨best, by rw [hclosed, hbest], ⟨g.positions, hfollow⟩, ?_⟩
  rintro other ⟨word, hword⟩
  obtain ⟨m, hm, -, hmstate, hmcost⟩ := Problem.exists_grows_of_follow? hword
  obtain ⟨k, hk, hkstate, hle⟩ := (hs.covering_cost hbfs).expands_of_drained
    plan.problem.grading_cost hs.ledger hempty hhit hm
  have := hcheapest k hk (hkstate.trans hmstate)
  omega

/-- **Failure is authoritative.** A run that fails has drained its frontier, has closed the states
within reach and no others, and none of them is a goal. Where admission goes by cost, the closed map
holds the least cost of any word that leads to a state. -/
theorem exhausted_of_failed {turns : Nat} (hrun : start.run plan turns = .ended t)
    (hfailed : t.isFailed = true) :
    t.frontier.toList = [] ∧
      (∀ x, x ∈ t.closed ↔ plan.problem.Reaches x) ∧
      (∀ x, plan.problem.Reaches x → plan.problem.isGoal x = false) ∧
      (plan.strategy = .dfs ∨ plan.strategy = .iddfs ∨ plan.strategy = .astar →
        ∀ x, plan.problem.Reaches x → ∃ best : Nat, t.closed[x]? = some (best : Int) ∧
          IsLeast {cost | ∃ word, plan.problem.follow? plan.problem.initial word = some (x, cost)}
            best) := by
  obtain ⟨s, hs, hempty, hhit, rfl⟩ := exists_drained_of_failed hrun hfailed
  obtain ⟨before, -, hpass⟩ := hs.exists_pass
  refine ⟨hempty, hpass.mem_closed_iff hempty hhit,
    fun x hx => hpass.notGoal_of_drained hempty hhit hx, ?_⟩
  intro hstrategy x hx
  have hbfs : plan.strategy ≠ .bfs := by
    rcases hstrategy with h | h | h <;> rw [h] <;> simp
  have hgreedy : plan.strategy ≠ .greedy := by
    rcases hstrategy with h | h | h <;> rw [h] <;> simp
  exact hpass.isLeast_closed hbfs hgreedy hempty hhit hx

/-- From 1 by steps of two and doublings, 5 is not reached where nothing goes beyond 2. -/
theorem exhausted_evens :
    ∃ t, (fresh : Search Int Int).run ⟨Doubling.evens 1 5 2, .dfs, .batch⟩ 3 = .ended t ∧
      t.isFailed = true ∧ t.frontier.toList = [] ∧
      (∀ x, x ∈ t.closed ↔ (Doubling.evens 1 5 2).Reaches x) ∧
      (∀ x, (Doubling.evens 1 5 2).Reaches x → (Doubling.evens 1 5 2).isGoal x = false) ∧
      ∀ x, (Doubling.evens 1 5 2).Reaches x → ∃ best : Nat, t.closed[x]? = some (best : Int) ∧
        IsLeast {cost | ∃ word, (Doubling.evens 1 5 2).follow? 1 word = some (x, cost)} best := by
  obtain ⟨t, hrun, hfailed⟩ :
      ∃ t, (fresh : Search Int Int).run ⟨Doubling.evens 1 5 2, .dfs, .batch⟩ 3 = .ended t ∧
        t.isFailed = true := by
    simp [run, beginRun, reset, fresh, beginPass, Plan.askInitial, Plan.boundAfter,
      Strategy.isIterative, unbounded, Progress.after, advance, turn, isBeyond?_int, isWithin_int,
      pop, record, Plan.askGoal, explode, admits, isBest_int, expand, close, count, pay?,
      Closed.put_eq_insert, enqueue, drain, conclude, Plan.askRules, Plan.childrenFrom,
      Frontier.popFront?, Frontier.pushBack, Frontier.pushFront, Frontier.empty, Frontier.ofList,
      Node.depth, Node.state, Node.cost, Value.toPrice?, Rule.unit, Rule.fixed, Doubling.evens,
      Doubling.evenRules, Doubling.within]
  obtain ⟨hempty, hclosed, hgoals, hleast⟩ := exhausted_of_failed hrun hfailed
  exact ⟨t, hrun, hfailed, hempty, hclosed, hgoals, hleast (Or.inl rfl)⟩

end Search

end StateSpace
