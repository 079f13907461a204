import StateSpace.Proofs.Ancestry
import StateSpace.Proofs.Closing

/-!
# States that are expanded again

Many nodes of one state may wait at the same time, and by the time one is taken its state may have
been closed. Where there is an admission test it is expanded only if it costs less than all
expansions of its state before. Costs are whole numbers, so the cost of the first expansion and the
least cost of the state bound their number. A node costs no less than its ancestors, so none of them
has the state of a node that is expanded.
-/
namespace StateSpace.Search

variable {σ : Type} [DecidableEq σ] [Hashable σ] {plan : Plan σ Int} {bound : Int}
  {start s t : Search σ Int} {n : Node σ Int} {x : σ}

/-- The nodes of a state that were expanded in the pass under way, in the order of time. -/
def expansionsOf (s : Search σ Int) (x : σ) : List (Node σ Int) :=
  (s.expanded.filter fun n => decide (n.state = x)).reverse

theorem mem_expansionsOf_iff : n ∈ s.expansionsOf x ↔ n ∈ s.expanded ∧ n.state = x := by
  rw [expansionsOf, List.mem_reverse, List.mem_filter, decide_eq_true_iff]

/-- These nodes of the search tree, latest first, cost less than all of their states before them,
and none of them lies below a node of its state. -/
structure Improving (plan : Plan σ Int) (nodes : List (Node σ Int)) : Prop where
  grows : ∀ n ∈ nodes, plan.problem.Grows n
  cheaper : nodes.Pairwise fun a b => a.state = b.state → a.cost < b.cost
  acyclic : ∀ n ∈ nodes, ∀ a ∈ n.path.dropLast, a.state ≠ n.state

/-! ### The number of falls -/

theorem length_le_of_falling {first least : Int} {later : List Int}
    (hfalling : (first :: later).Pairwise fun a b => b < a)
    (hleast : ∀ cost ∈ first :: later, least ≤ cost) :
    ((first :: later).length : Int) ≤ first - least + 1 := by
  induction later generalizing first with
  | nil =>
      have hfirst := hleast first List.mem_cons_self
      rw [List.length_singleton]
      omega
  | cons second later ih =>
      obtain ⟨hfalls, hlater⟩ := List.pairwise_cons.mp hfalling
      have hsecond := hfalls second List.mem_cons_self
      have hlength := ih hlater fun cost hcost => hleast cost (List.mem_cons_of_mem first hcost)
      rw [List.length_cons]
      push_cast
      omega

theorem Improving.pairwise_expansionsOf (improving : Improving plan s.expanded) (x : σ) :
    (s.expansionsOf x).Pairwise fun a b => b.cost < a.cost := by
  rw [expansionsOf, List.pairwise_reverse]
  refine (improving.cheaper.filter _).imp_of_mem fun {a b} ha hb hlt => hlt ?_
  have hastate : a.state = x := by simpa using (List.mem_filter.mp ha).2
  have hbstate : b.state = x := by simpa using (List.mem_filter.mp hb).2
  exact hastate.trans hbstate.symm

theorem Improving.length_expansionsOf_le (improving : Improving plan s.expanded)
    {first : Node σ Int} {best : Nat} (hfirst : (s.expansionsOf x).head? = some first)
    (hbest : plan.problem.LeastCost x best) :
    ((s.expansionsOf x).length : Int) ≤ first.cost - best + 1 := by
  obtain ⟨later, hlist⟩ := List.head?_eq_some_iff.mp hfirst
  have hfalling : ((s.expansionsOf x).map Node.cost).Pairwise fun a b => b < a :=
    List.pairwise_map.mpr (improving.pairwise_expansionsOf x)
  have hleast : ∀ cost ∈ (s.expansionsOf x).map Node.cost, (best : Int) ≤ cost := by
    intro cost hcost
    obtain ⟨n, hn, rfl⟩ := List.mem_map.mp hcost
    obtain ⟨hexpanded, rfl⟩ := mem_expansionsOf_iff.mp hn
    obtain ⟨spent, hspent, hfollow⟩ := (improving.grows n hexpanded).follow?
    have hle := hbest.2 ⟨n.positions, hfollow⟩
    omega
  rw [hlist, List.map_cons] at hfalling hleast
  have hlength := length_le_of_falling hfalling hleast
  rwa [← List.map_cons, ← hlist, List.length_map] at hlength

/-! ### Passes and runs -/

section Admission

variable (hgreedy : plan.strategy ≠ .greedy)

include hgreedy

theorem Pass.improving_cons {key : Option Int} {rest : List (Entry (Node σ Int) Int)}
    (hs : Pass plan bound s) (improving : Improving plan s.expanded)
    (hfront : s.frontier.toList = ⟨n, key⟩ :: rest)
    (hadmitted : s.isAdmitted plan.strategy n = true) : Improving plan (n :: s.expanded) where
  grows :=
    List.forall_mem_cons.mpr
      ⟨hs.ledger.waiting n (Frontier.mem_items_of_front hfront), improving.grows⟩
  cheaper :=
    List.pairwise_cons.mpr
      ⟨fun _ hg hstate => hs.cost_lt_of_admitted hgreedy hadmitted hg hstate.symm,
        improving.cheaper⟩
  acyclic :=
    List.forall_mem_cons.mpr
      ⟨fun _ ha =>
        hs.ne_of_admitted hgreedy (Frontier.mem_items_of_front hfront) hadmitted ha,
        improving.acyclic⟩

theorem Stage.improving {p : Progress σ Int} (hstage : Stage plan bound p) :
    Improving plan p.search.expanded := by
  have hnil : Improving plan [] :=
    ⟨(fun n hn => by cases hn), List.Pairwise.nil, fun n hn => by cases hn⟩
  exact hstage.expanded_induction hnil fun _ _ _ _ hu improving hfront _ hadmitted =>
    hu.improving_cons hgreedy improving hfront hadmitted

/-- **Expanded again only at a better price.** At every moment of a pass, of its own or in a run,
the expansions of one state fall in cost where there is an admission test. So there are no more of
them than whole numbers from the least cost of the state up to the cost of the first one. And no
node was expanded that has its own state among its proper ancestors. -/
theorem falling_of_admission
    (ht : (∃ bound turns, (start.explore plan bound turns).search = t) ∨
      ∃ turns, (start.run plan turns).search = t) :
    (∀ x, (t.expansionsOf x).Pairwise fun a b => b.cost < a.cost) ∧
      (∀ x first best, (t.expansionsOf x).head? = some first → plan.problem.LeastCost x best →
        ((t.expansionsOf x).length : Int) ≤ first.cost - best + 1) ∧
      ∀ n ∈ t.expanded, ∀ a ∈ n.path.dropLast, a.state ≠ n.state := by
  have improving : Improving plan t.expanded := by
    rcases ht with ⟨bound, turns, rfl⟩ | ⟨turns, rfl⟩
    · exact (stage_explore plan bound start turns).improving hgreedy
    · obtain ⟨bound, q, hstage, hexpanded⟩ := (moment_run plan start turns).exists_stage
      rw [hexpanded]
      exact hstage.improving hgreedy
  exact ⟨improving.pairwise_expansionsOf,
    fun x first best hfirst hbest => improving.length_expansionsOf_le hfirst hbest,
    improving.acyclic⟩

end Admission

theorem leastCost_parallel : parallel.LeastCost 1 1 := by
  have hpositive : parallel.HasPositivePrices := by
    refine Problem.hasPositivePrices_of_fixed fun rule hrule => ?_
    simp only [parallel, List.mem_cons, List.not_mem_nil, or_false] at hrule
    rcases hrule with rfl | rfl
    · exact ⟨"cheap", _, 1, rfl, by decide⟩
    · exact ⟨"dear", _, 5, rfl, by decide⟩
  refine ⟨⟨[0], rfl⟩, ?_⟩
  rintro cost ⟨word, hfollow⟩
  have hlength := hpositive.length_le ⟨[], 0, rfl⟩ hfollow
  have hne : word ≠ [] := by
    rintro rfl
    simp [parallel] at hfollow
  exact (List.length_pos_iff.mpr hne).trans_le hlength

/-- The later of two rules leads from 0 to 1 at cost 5, and 1 is expanded again at cost 1. -/
theorem falling_parallel :
    ∃ t first, (fresh : Search Int Int).explore ⟨parallel, .dfs, .batch⟩ 7 4 = .ended t ∧
      (t.expansionsOf 1).map Node.cost = [5, 1] ∧ (t.expansionsOf 1).head? = some first ∧
      ((t.expansionsOf 1).length : Int) ≤ first.cost - (1 : Nat) + 1 ∧
      ∀ n ∈ t.expanded, ∀ a ∈ n.path.dropLast, a.state ≠ n.state := by
  obtain ⟨t, hrun, hcosts⟩ :
      ∃ t, (fresh : Search Int Int).explore ⟨parallel, .dfs, .batch⟩ 7 4 = .ended t ∧
        (t.expansionsOf 1).map Node.cost = [5, 1] := by
    simp [explore, fresh, beginPass, Plan.askInitial, Progress.after, turn, isBeyond?_int,
      isWithin_int, pop, record, Plan.askGoal, explode, admits, isBest_int, expand, close, count,
      pay?, Closed.put_eq_insert, enqueue, drain, expansionsOf, expanded, recent, Event.isStart,
      Plan.askRules, Plan.childrenFrom, Frontier.popFront?, Frontier.pushBack, Frontier.pushFront,
      Frontier.empty, Frontier.ofList, Node.depth, Node.state, Node.cost, Value.toPrice?,
      Rule.fixed, parallel]
    rfl
  obtain ⟨first, hfirst⟩ : ∃ first, (t.expansionsOf 1).head? = some first := by
    cases hlist : t.expansionsOf 1 with
    | nil => simp [hlist] at hcosts
    | cons first later => exact ⟨first, rfl⟩
  have ht : ((fresh : Search Int Int).explore ⟨parallel, .dfs, .batch⟩ 7 4).search = t := by
    rw [hrun]
    rfl
  obtain ⟨-, hlength, hacyclic⟩ :=
    @falling_of_admission Int _ _ ⟨parallel, .dfs, .batch⟩ fresh t (by simp) (Or.inl ⟨7, 4, ht⟩)
  exact ⟨t, first, hrun, hcosts, hfirst, hlength 1 first 1 hfirst leastCost_parallel, hacyclic⟩

end StateSpace.Search
