import StateSpace.Proofs.Exhaustion

/-!
# What the closed map holds

At every moment the closed map holds the states that the pass under way has expanded, each at the
cost of its latest expansion. Where there is an admission test a state is expanded again only at a
lower cost, so that the latest expansion is the cheapest one. Greedy search has no such test: it
expands a state again at any cost, and what the map held before is lost.
-/
namespace StateSpace.Search

variable {σ : Type} [DecidableEq σ] [Hashable σ] {plan : Plan σ Int} {bound : Int}
  {start s t : Search σ Int} {n : Node σ Int}

/-- The cost of the latest expansion of a state in the pass under way. -/
def latestCost? (s : Search σ Int) (x : σ) : Option Int :=
  (s.expanded.find? fun n => decide (n.state = x)).map (·.cost)

theorem latestCost?_of_cons {n : Node σ Int} (hexpanded : t.expanded = n :: s.expanded) (x : σ) :
    t.latestCost? x = if n.state = x then some n.cost else s.latestCost? x := by
  unfold latestCost?
  rw [hexpanded, List.find?_cons]
  by_cases hstate : n.state = x <;> simp [hstate]

theorem exists_expanded_of_latestCost? {x : σ} {cost : Int} (hcost : s.latestCost? x = some cost) :
    ∃ n ∈ s.expanded, n.state = x ∧ n.cost = cost := by
  obtain ⟨n, hn, hncost⟩ := Option.map_eq_some_iff.mp hcost
  exact ⟨n, List.mem_of_find?_eq_some hn, by simpa using List.find?_some hn, hncost⟩

/-- The closed map holds the latest cost of every state and, where there is an admission test, no
state was expanded at a lower one. -/
structure Closing (plan : Plan σ Int) (s : Search σ Int) : Prop where
  latest : ∀ x, s.closed[x]? = s.latestCost? x
  least : plan.strategy ≠ .greedy →
    ∀ n ∈ s.expanded, ∀ best, s.closed[n.state]? = some best → best ≤ n.cost

theorem closing_beginPass (plan : Plan σ Int) (bound : Int) (s : Search σ Int) :
    Closing plan (s.beginPass plan bound) where
  latest := by
    intro x
    simp [beginPass, Plan.askInitial, latestCost?, expanded, recent, Event.isStart]
  least := by
    intro _ n hn
    cases hn

theorem Closing.of_eq (closing : Closing plan s) (hclosed : t.closed = s.closed)
    (hexpanded : t.expanded = s.expanded) : Closing plan t := by
  refine ⟨fun x => ?_, ?_⟩
  · rw [latestCost?, hclosed, hexpanded]
    exact closing.latest x
  · rw [hclosed, hexpanded]
    exact closing.least

theorem Closing.visit (closing : Closing plan s) (ledger : Ledger plan bound s)
    (hvisit : Visit plan s t) : Closing plan t := by
  refine ⟨?_, fun hgreedy => hvisit.closed_le_of_expanded hgreedy ledger (closing.least hgreedy)⟩
  cases hvisit with
  | skipped n rest takes _ hclosed hexpanded =>
      exact (closing.of_eq hclosed hexpanded).latest
  | expanded n rest takes _ _ _ hclosed hexpanded =>
      intro x
      rw [hclosed, latestCost?_of_cons hexpanded, closing.latest]

theorem Pass.closing (hs : Pass plan bound s) : Closing plan s := by
  induction hs with
  | start s => exact closing_beginPass plan bound s
  | turn hs hturn ih => exact ih.visit hs.ledger (turn_of_running hturn).visit

theorem Moment.closing {p : Progress σ Int} (hmoment : Moment plan start p) :
    Closing plan p.search := by
  cases hmoment with
  | running hs =>
      obtain ⟨before, -, hpass⟩ := hs.exists_pass
      exact hpass.closing
  | ended hs hturn =>
      obtain ⟨before, -, hpass⟩ := hs.exists_pass
      cases ends_of_ended hturn with
      | drained hempty hresult =>
          subst hresult
          exact hpass.closing.of_eq rfl rfl
      | goal n key rest hfront hgoal hresult =>
          subst hresult
          exact hpass.closing.of_eq rfl rfl
  | broken hs hturn =>
      obtain ⟨before, -, hpass⟩ := hs.exists_pass
      exact hpass.closing.visit hpass.ledger (visit_of_broken hturn)

/-- **The closed map holds the latest expansions.** At every moment of a run, broken off or not, its
keys are the states that the pass under way has expanded, each with the cost of its latest
expansion. Where there is an admission test this is the least cost at which the state was
expanded. -/
theorem closed_eq_latestCost (plan : Plan σ Int) (start : Search σ Int) (turns : Nat) :
    (∀ x, x ∈ (start.run plan turns).search.closed ↔
        ∃ n ∈ (start.run plan turns).search.expanded, n.state = x) ∧
      (∀ x, (start.run plan turns).search.closed[x]? =
        (start.run plan turns).search.latestCost? x) ∧
      (plan.strategy ≠ .greedy → ∀ x best,
        (start.run plan turns).search.closed[x]? = some best →
          IsLeast {cost | ∃ n ∈ (start.run plan turns).search.expanded,
            n.state = x ∧ n.cost = cost} best) := by
  obtain ⟨hlatest, hleast⟩ := (moment_run plan start turns).closing
  refine ⟨fun x => ?_, hlatest, fun hgreedy x best hbest => ⟨?_, ?_⟩⟩
  · rw [Std.HashMap.mem_iff_isSome_getElem?, hlatest, latestCost?, Option.isSome_map,
      List.find?_isSome]
    simp only [decide_eq_true_eq]
  · rw [hlatest] at hbest
    exact exists_expanded_of_latestCost? hbest
  · rintro cost ⟨n, hn, rfl, rfl⟩
    exact hleast hgreedy n hn best hbest

/-- Two rules lead from 0 to 1, the later one at a higher price, and there is no goal. -/
def parallel : Problem Int Int where
  initial := 0
  isGoal n := n == 2
  rules :=
    [ Rule.fixed "cheap" (.int 1) fun n => if n = 0 then some 1 else none,
      Rule.fixed "dear" (.int 5) fun n => if n = 0 then some 1 else none ]
  heuristic := none

/-- Greedy search expands 1 at cost 1 and then at cost 5, and closes it at the higher of the two. -/
theorem closed_above_least_parallel :
    ∃ t, (fresh : Search Int Int).run ⟨parallel, .greedy, .batch⟩ 4 = .ended t ∧
      t.closed[(1 : Int)]? = some 5 ∧
      ¬IsLeast {cost | ∃ n ∈ t.expanded, n.state = 1 ∧ n.cost = cost} 5 := by
  obtain ⟨t, hrun, hclosed, n, hn, hstate, hcost⟩ :
      ∃ t, (fresh : Search Int Int).run ⟨parallel, .greedy, .batch⟩ 4 = .ended t ∧
        t.closed[(1 : Int)]? = some 5 ∧ ∃ n ∈ t.expanded, n.state = 1 ∧ n.cost = 1 := by
    simp [run, beginRun, reset, fresh, beginPass, Plan.askInitial, Plan.boundAfter,
      Strategy.isIterative, unbounded, Progress.after, advance, turn, isBeyond?_int, isWithin_int,
      pop, record, Plan.askGoal, explode, admits, expand, close, count, pay?, Closed.put_eq_insert,
      enqueue, drain, conclude, expanded, recent, Event.isStart, Event.expanded?, Plan.askRules,
      Plan.childrenFrom, Plan.askBatch, Plan.entries?, Plan.askEvaluations, Plan.askEvaluation,
      Plan.askEstimate, Except.map, stableSort, insertBehind,
      Frontier.popFront?, Frontier.pushBack, Frontier.empty, Frontier.ofList, Node.depth,
      Node.state, Node.cost, Value.toPrice?, Rule.fixed, parallel]
  refine ⟨t, hrun, hclosed, fun hleast => ?_⟩
  have hle := hleast.2 ⟨n, hn, hstate, hcost⟩
  omega

end StateSpace.Search
