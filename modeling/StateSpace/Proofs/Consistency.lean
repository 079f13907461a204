import StateSpace.Proofs.Ancestry
import StateSpace.Proofs.Estimates
import StateSpace.Proofs.GlobalOrdering

/-!
# Expansion under consistent estimates

Where estimates are consistent, an A* search under a global ordering takes nodes in the order of
their scores, and the first node of a state that it expands is a cheapest one. So no state is
expanded twice. Those expanded before a solution are all that score less, and some that score the
same.
-/
namespace StateSpace.Search

variable {σ : Type} [DecidableEq σ] [Hashable σ] {plan : Plan σ Int} {bound : Int}
  {start s t : Search σ Int} {n m : Node σ Int}

/-- The nodes that were taken, latest first, do not score less than those taken before them, nor
more than those that wait. -/
structure Ascending (plan : Plan σ Int) (s : Search σ Int) : Prop where
  tested : s.tested.Pairwise fun a b => plan.score b ≤ plan.score a
  ahead : ∀ n ∈ s.tested, ∀ m ∈ s.frontier.items, plan.score n ≤ plan.score m

/-- No two of these nodes have the same state, and each is a cheapest node of its state. -/
structure Settled (plan : Plan σ Int) (nodes : List (Node σ Int)) : Prop where
  cheapest : ∀ n ∈ nodes, ∀ m, plan.problem.Grows m → m.state = n.state → n.cost ≤ m.cost
  once : (nodes.map Node.state).Nodup

theorem settled_nil {σ : Type} (plan : Plan σ Int) : Settled plan [] :=
  ⟨(fun n hn => by cases hn), List.nodup_nil⟩

theorem Ledger.size_closed (ledger : Ledger plan bound s)
    (honce : (s.expanded.map Node.state).Nodup) : s.closed.size = s.expanded.length := by
  have hkeys : s.closed.keys.Perm (s.expanded.map Node.state) := by
    refine (List.perm_ext_iff_of_nodup Std.HashMap.nodup_keys honce).mpr fun x => ?_
    rw [Std.HashMap.mem_keys, ledger.mem_closed_iff, List.mem_map]
  rw [← Std.HashMap.length_keys, hkeys.length_eq, List.length_map]

theorem Settled.leastCost (settled : Settled plan s.expanded) (ledger : Ledger plan bound s) {x : σ}
    {cost : Int} (hclosed : s.closed[x]? = some cost) :
    ∃ best : Nat, cost = best ∧ plan.problem.LeastCost x best := by
  obtain ⟨n, hn, rfl, rfl⟩ := ledger.expanded_of_closed x cost hclosed
  obtain ⟨best, hbest, hfollow⟩ := (ledger.grows_of_expanded hn).follow?
  refine ⟨best, hbest, ⟨n.positions, hfollow⟩, ?_⟩
  rintro other ⟨word, hword⟩
  obtain ⟨m, hm, -, hstate, hmcost⟩ := Problem.exists_grows_of_follow? hword
  have hle := settled.cheapest n hn m hm hstate
  omega

section Consistent

variable (hstrategy : plan.strategy = .astar) (hdiscipline : plan.discipline = .global)
  (hconsistent : plan.problem.IsConsistent)

include hstrategy hdiscipline hconsistent

theorem Pass.ascending_visit (hs : Pass plan bound s) (ascending : Ascending plan s)
    (hvisit : Visit plan s t) : Ascending plan t := by
  obtain ⟨n, rest, takes, hwaiting⟩ := hvisit.exists_taken
  obtain ⟨key, hfront⟩ := takes.front
  have hn := takes.mem_items.1
  have hfirst : ∀ m ∈ t.frontier.items, plan.score n ≤ plan.score m := by
    intro m hm
    rcases hwaiting m hm with hm | hchild
    · exact hs.score_front_le (Or.inl hstrategy) hdiscipline hfront m hm
    · exact Plan.score_le_of_mem_offspring hstrategy hconsistent (hs.ledger.waiting n hn) hchild
  constructor
  · rw [takes.tested, List.pairwise_cons]
    exact ⟨fun k hk => ascending.ahead k hk n hn, ascending.tested⟩
  · intro k hk m hm
    rw [takes.tested] at hk
    rcases List.mem_cons.mp hk with rfl | hk
    · exact hfirst m hm
    · exact (ascending.ahead k hk n hn).trans (hfirst m hm)

theorem Pass.ascending (hs : Pass plan bound s) : Ascending plan s := by
  induction hs with
  | start s => exact ⟨List.Pairwise.nil, fun n hn => by cases hn⟩
  | turn hs hturn ih =>
      exact hs.ascending_visit hstrategy hdiscipline hconsistent ih (turn_of_running hturn).visit

section Front

variable (hs : Pass plan bound s) {key : Option Int} {rest : List (Entry (Node σ Int) Int)}
  (hfront : s.frontier.toList = ⟨n, key⟩ :: rest)

include hs hfront

/-- A node of the search tree is answered for by one that was expanded, or it scores no less than the
front, or it costs no less than something that was cut off. -/
theorem Pass.expands_or_front_le (hm : plan.problem.Grows m) :
    Expands (fun a b => a.cost ≤ b.cost) s m ∨ plan.score n ≤ plan.score m ∨
      ∃ k ∈ s.tested, bound < k.depth ∧ k.cost ≤ m.cost := by
  have ledger := hs.ledger
  have hbfs : plan.strategy ≠ .bfs := by
    rw [hstrategy]
    simp
  rcases (hs.covering_cost hbfs).walk plan.problem.grading_cost ledger hm with
    hexpands | ⟨a, ha, ⟨k, hk, hstate, hle⟩ | ⟨k, hk, hbeyond, -, hle⟩⟩
  · exact Or.inl hexpands
  · have hagrows := (hm.of_mem_path ha).1
    refine Or.inr (Or.inl ?_)
    calc plan.score n ≤ plan.score k :=
          hs.score_front_le (Or.inl hstrategy) hdiscipline hfront k hk
      _ ≤ plan.score a :=
          (Plan.score_le_iff hstrategy hconsistent.estimated hagrows hstate).mpr hle
      _ ≤ plan.score m := Plan.score_le_of_mem_path hstrategy hconsistent hm ha
  · obtain ⟨-, -, later, -, hlater, -⟩ := hm.of_mem_path ha
    rw [ledger.depthBound] at hbeyond
    exact Or.inr (Or.inr ⟨k, hk, hbeyond, by omega⟩)

/-- A node of the search tree that scores less than the front is answered for by one that was
expanded. -/
theorem Pass.expands_or_score_le (hcut : ∀ k ∈ s.tested, (k.depth : Int) ≤ bound)
    (hm : plan.problem.Grows m) :
    Expands (fun a b => a.cost ≤ b.cost) s m ∨ plan.score n ≤ plan.score m := by
  rcases hs.expands_or_front_le hstrategy hdiscipline hconsistent hfront hm with
    hexpands | hscore | ⟨k, hk, hbeyond, -⟩
  · exact Or.inl hexpands
  · exact Or.inr hscore
  · exact absurd (hcut k hk) (not_le.mpr hbeyond)

section Admitted

variable (hadmitted : s.isAdmitted plan.strategy n = true)
  (hspared : ∀ k ∈ s.tested, bound < k.depth → n.cost ≤ k.cost)

include hadmitted hspared

/-- Where nothing that was cut off costs less, the front is admitted only if it is a cheapest node of
its state. -/
theorem Pass.cheapest_of_admitted (hm : plan.problem.Grows m) (hstate : m.state = n.state) :
    n.cost ≤ m.cost := by
  have hgreedy : plan.strategy ≠ .greedy := by
    rw [hstrategy]
    simp
  rcases hs.expands_or_front_le hstrategy hdiscipline hconsistent hfront hm with
    ⟨g, hg, hgstate, hle⟩ | hscore | ⟨k, hk, hbeyond, hle⟩
  · have hlt := hs.cost_lt_of_admitted hgreedy hadmitted hg (hgstate.trans hstate)
    exact hlt.le.trans hle
  · exact (Plan.score_le_iff hstrategy hconsistent.estimated hm hstate.symm).mp hscore
  · exact (hspared k hk hbeyond).trans hle

theorem Pass.settled_cons (settled : Settled plan s.expanded) :
    Settled plan (n :: s.expanded) := by
  have hgreedy : plan.strategy ≠ .greedy := by
    rw [hstrategy]
    simp
  constructor
  · refine List.forall_mem_cons.mpr ⟨fun m hm hstate => ?_, settled.cheapest⟩
    exact hs.cheapest_of_admitted hstrategy hdiscipline hconsistent hfront hadmitted hspared hm
      hstate
  · rw [List.map_cons, List.nodup_cons]
    refine ⟨fun hrepeated => ?_, settled.once⟩
    -- A state is closed at its least cost, so no other node of it is admitted.
    obtain ⟨g, hg, hstate⟩ := List.mem_map.mp hrepeated
    have hn := hs.ledger.waiting n (Frontier.mem_items_of_front hfront)
    have hle := settled.cheapest g hg n hn hstate.symm
    have hlt := hs.cost_lt_of_admitted hgreedy hadmitted hg hstate
    omega

end Admitted

end Front

theorem Pass.settled_visit (hs : Pass plan bound s)
    (hcut : ∀ k ∈ s.tested, (k.depth : Int) ≤ bound) (settled : Settled plan s.expanded)
    (hvisit : Visit plan s t) : Settled plan t.expanded := by
  rcases hvisit.expanded_cases with hsame | ⟨n, key, rest, hfront, -, hadmitted, hmore⟩
  · exact hsame ▸ settled
  · rw [hmore]
    exact hs.settled_cons hstrategy hdiscipline hconsistent hfront hadmitted
      (fun k hk hbeyond => absurd (hcut k hk) (not_le.mpr hbeyond)) settled

theorem Pass.settled (hs : Pass plan bound s)
    (hcut : ∀ k ∈ s.tested, (k.depth : Int) ≤ bound) : Settled plan s.expanded := by
  induction hs with
  | start s => exact settled_nil plan
  | turn hs hturn ih =>
      have hvisit := (turn_of_running hturn).visit
      obtain ⟨n, rest, takes⟩ := hvisit.exists_takes
      have hcut' := fun k hk => hcut k (takes.tested ▸ List.mem_cons_of_mem n hk)
      exact hs.settled_visit hstrategy hdiscipline hconsistent hcut' (ih hcut') hvisit

/-! ### Solutions -/

section Front

variable (hs : Pass plan bound s) {key : Option Int} {rest : List (Entry (Node σ Int) Int)}
  (hfront : s.frontier.toList = ⟨n, key⟩ :: rest) (hgoal : plan.problem.isGoal n.state = true)
  {x : σ} {best : Nat} {h : Int} (hbest : plan.problem.LeastCost x best)
  (hestimate : plan.problem.estimate x = .ok h)

include hs hfront hgoal hbest hestimate

theorem Pass.mem_closed_of_lt (hcut : ∀ k ∈ s.tested, (k.depth : Int) ≤ bound)
    (hlt : best + h < n.cost) : x ∈ s.closed := by
  have hn := hs.ledger.waiting n (Frontier.mem_items_of_front hfront)
  obtain ⟨⟨word, hfollow⟩, -⟩ := hbest
  obtain ⟨m, hm, -, rfl, hmcost⟩ := Problem.exists_grows_of_follow? hfollow
  have hmscore : plan.score m = m.cost + h := Plan.score_astar hstrategy hestimate
  have hnscore : plan.score n = n.cost + 0 :=
    Plan.score_astar hstrategy (hconsistent.goal n.state hn.reaches hgoal)
  rcases hs.expands_or_score_le hstrategy hdiscipline hconsistent hfront hcut hm with
    ⟨g, hg, hstate, -⟩ | hscore
  · exact hs.ledger.mem_closed_iff.mpr ⟨g, hg, hstate⟩
  · omega

theorem Pass.le_of_mem_closed (hx : x ∈ s.closed) : best + h ≤ n.cost := by
  have ledger := hs.ledger
  have hn := Frontier.mem_items_of_front hfront
  have hngrows := ledger.waiting n hn
  obtain ⟨g, hg, rfl⟩ := ledger.mem_closed_iff.mp hx
  have hgtested := (ledger.expanded g hg).1
  have hle : (best : Int) ≤ g.cost := by
    obtain ⟨spent, hspent, hfollow⟩ := (ledger.tested g hgtested).1.follow?
    have := hbest.2 ⟨g.positions, hfollow⟩
    omega
  have hnscore : plan.score n = n.cost + 0 :=
    Plan.score_astar hstrategy (hconsistent.goal n.state hngrows.reaches hgoal)
  calc best + h ≤ g.cost + h := by omega
    _ = plan.score g := (Plan.score_astar hstrategy hestimate).symm
    _ ≤ plan.score n :=
        (hs.ascending hstrategy hdiscipline hconsistent).ahead g hgtested n hn
    _ = n.cost := by omega

end Front

end Consistent

/-! ### Runs of one pass -/

/-- The nodes taken and the expansions counted in the run are those of the pass under way. -/
structure Tallied (s : Search σ Int) : Prop where
  popped : s.popped = s.tested
  expansions : s.expansions = s.expanded.length

theorem Tallied.visit (tallied : Tallied s) (hvisit : Visit plan s t) : Tallied t := by
  cases hvisit with
  | skipped n rest takes _ _ hexpanded hexpansions =>
      refine ⟨?_, ?_⟩
      · rw [takes.popped, takes.tested, tallied.popped]
      · rw [hexpanded, hexpansions, tallied.expansions]
  | expanded n rest takes _ _ _ _ hexpanded hexpansions =>
      refine ⟨?_, ?_⟩
      · rw [takes.popped, takes.tested, tallied.popped]
      · rw [hexpanded, hexpansions, tallied.expansions, List.length_cons]

/-- A run that does not deepen and took no node beyond the unbounded depth is in its first pass. -/
theorem Run.first_pass (hiterative : plan.strategy.isIterative = false) (hs : Run plan start s)
    (hpopped : ∀ m ∈ s.popped, (m.depth : Int) ≤ unbounded) :
    Pass plan unbounded s ∧ Tallied s := by
  induction hs with
  | start =>
      have hbound : plan.boundAfter 0 = unbounded := by
        simp [Plan.boundAfter, hiterative]
      exact ⟨hbound ▸ .start start.reset, rfl, rfl⟩
  | turn hs hturn ih =>
      have hvisit := (turn_of_running hturn).visit
      obtain ⟨n, rest, takes⟩ := hvisit.exists_takes
      obtain ⟨hpass, tallied⟩ :=
        ih fun m hm => hpopped m (takes.popped ▸ List.mem_cons_of_mem n hm)
      exact ⟨hpass.turn hturn, tallied.visit hvisit⟩
  | @next s t hs hturn hopen ih =>
      have hhit := hs.boundHit_of_open hturn hopen
      obtain ⟨-, rfl⟩ := drained_of_open hturn hopen
      obtain ⟨hpass, tallied⟩ := ih hpopped
      obtain ⟨n, hn, hbeyond⟩ := hpass.ledger.boundHit.mp hhit
      have hwithin := hpopped n (tallied.popped ▸ hn)
      omega

/-- What a run of one pass knows of the nodes that it took and expanded. -/
structure Explored (plan : Plan σ Int) (s : Search σ Int) : Prop where
  grows : ∀ n ∈ s.popped, plan.problem.Grows n
  ascending : s.popped.Pairwise fun a b => plan.score b ≤ plan.score a
  once : (s.expanded.map Node.state).Nodup
  expansions : s.expansions = s.closed.size
  leastCost : ∀ x, ∀ cost : Int, s.closed[x]? = some cost →
    ∃ best : Nat, cost = best ∧ plan.problem.LeastCost x best

theorem Ledger.explored (ledger : Ledger plan bound s) (ascending : Ascending plan s)
    (settled : Settled plan s.expanded) (tallied : Tallied s) : Explored plan s where
  grows := by
    rw [tallied.popped]
    exact fun n hn => (ledger.tested n hn).1
  ascending := by
    rw [tallied.popped]
    exact ascending.tested
  once := settled.once
  expansions := by rw [tallied.expansions, ledger.size_closed settled.once]
  leastCost _ _ hclosed := settled.leastCost ledger hclosed

theorem Explored.pairwise_evaluate (hestimated : plan.problem.IsEstimated)
    (explored : Explored plan s) :
    s.popped.reverse.Pairwise fun a b =>
      ∃ k l, plan.evaluate a = .ok k ∧ plan.evaluate b = .ok l ∧ k ≤ l := by
  rw [List.pairwise_reverse]
  refine explored.ascending.imp_of_mem fun {a b} ha hb hle => ?_
  exact ⟨plan.score b, plan.score a, Plan.evaluate_of_isEstimated hestimated (explored.grows b hb),
    Plan.evaluate_of_isEstimated hestimated (explored.grows a ha), hle⟩

section Runs

variable (hstrategy : plan.strategy = .astar) (hdiscipline : plan.discipline = .global)
  (hconsistent : plan.problem.IsConsistent)

include hstrategy hdiscipline hconsistent

theorem Moment.explored {p : Progress σ Int} (hmoment : Moment plan start p)
    (hpopped : ∀ m ∈ p.search.popped, (m.depth : Int) ≤ unbounded) :
    Explored plan p.search := by
  have hiterative : plan.strategy.isIterative = false := by
    rw [hstrategy]
    rfl
  have hknown : ∀ s, Run plan start s → (∀ m ∈ s.popped, (m.depth : Int) ≤ unbounded) →
      Pass plan unbounded s ∧ Tallied s ∧ Ascending plan s ∧ Settled plan s.expanded := by
    intro s hs hpopped
    obtain ⟨hpass, tallied⟩ := hs.first_pass hiterative hpopped
    exact ⟨hpass, tallied, hpass.ascending hstrategy hdiscipline hconsistent,
      hpass.settled hstrategy hdiscipline hconsistent (tallied.popped ▸ hpopped)⟩
  cases hmoment with
  | running hs =>
      obtain ⟨hpass, tallied, ascending, settled⟩ := hknown _ hs hpopped
      exact hpass.ledger.explored ascending settled tallied
  | @ended s t hs hturn =>
      cases ends_of_ended hturn with
      | drained hempty hresult =>
          subst hresult
          obtain ⟨hpass, tallied, ascending, settled⟩ := hknown s hs hpopped
          have explored := hpass.ledger.explored ascending settled tallied
          exact ⟨explored.grows, explored.ascending, explored.once, explored.expansions,
            explored.leastCost⟩
      | goal n key rest hfront hgoal hresult =>
          subst hresult
          obtain ⟨hpass, tallied, ascending, settled⟩ :=
            hknown s hs fun m hm => hpopped m (List.mem_cons_of_mem n hm)
          have explored := hpass.ledger.explored ascending settled tallied
          have hn := Frontier.mem_items_of_front hfront
          refine ⟨?_, ?_, explored.once, explored.expansions, explored.leastCost⟩
          · exact List.forall_mem_cons.mpr ⟨hpass.ledger.waiting n hn, explored.grows⟩
          · refine List.pairwise_cons.mpr ⟨fun k hk => ?_, explored.ascending⟩
            exact ascending.ahead k (tallied.popped ▸ hk) n hn
  | @broken s t fault hs hturn =>
      have hvisit := visit_of_broken hturn
      obtain ⟨n, rest, takes⟩ := hvisit.exists_takes
      have hpopped' := fun m hm => hpopped m (takes.popped ▸ List.mem_cons_of_mem n hm)
      obtain ⟨hpass, tallied, ascending, settled⟩ := hknown s hs hpopped'
      have hascending :=
        hpass.ascending_visit hstrategy hdiscipline hconsistent ascending hvisit
      have hsettled := hpass.settled_visit hstrategy hdiscipline hconsistent
        (tallied.popped ▸ hpopped') settled hvisit
      exact (hpass.ledger.visit hvisit).explored hascending hsettled (tallied.visit hvisit)

/-- **Consistent estimates.** In a run of an A* search under a global ordering that takes no node
beyond the unbounded depth, nodes are taken in the order of their scores, no state is expanded
twice, and states are closed at their least costs. Where it has found a solution, the states that
score less are closed, and none that score more. -/
theorem closes_least_of_consistent {turns : Nat} (ht : (start.run plan turns).search = t)
    (hpopped : ∀ m ∈ t.popped, (m.depth : Int) ≤ unbounded) :
    (t.popped.reverse.Pairwise fun a b =>
        ∃ k l, plan.evaluate a = .ok k ∧ plan.evaluate b = .ok l ∧ k ≤ l) ∧
      (t.expanded.map Node.state).Nodup ∧ t.expansions = t.closed.size ∧
      (∀ x, ∀ cost : Int, t.closed[x]? = some cost →
        ∃ best : Nat, cost = best ∧ plan.problem.LeastCost x best) ∧
      ∀ n, t.solution = some n → ∀ x best h, plan.problem.LeastCost x best →
        plan.problem.estimate x = .ok h →
          (best + h < n.cost → x ∈ t.closed) ∧ (x ∈ t.closed → best + h ≤ n.cost) := by
  have hmoment := moment_run plan start turns
  subst ht
  have explored := hmoment.explored hstrategy hdiscipline hconsistent hpopped
  refine ⟨explored.pairwise_evaluate hconsistent.estimated, explored.once, explored.expansions,
    explored.leastCost, ?_⟩
  intro n hsolution x best h hbest hestimate
  obtain ⟨s, key, rest, hs, hfront, hgoal, heq⟩ := hmoment.exists_front hsolution
  rw [heq] at hpopped ⊢
  have hiterative : plan.strategy.isIterative = false := by
    rw [hstrategy]
    rfl
  obtain ⟨hpass, tallied⟩ :=
    hs.first_pass hiterative fun m hm => hpopped m (List.mem_cons_of_mem n hm)
  constructor
  · refine hpass.mem_closed_of_lt hstrategy hdiscipline hconsistent hfront hgoal hbest hestimate ?_
    intro k hk
    have hold : k ∈ s.popped := tallied.popped ▸ hk
    exact hpopped k (List.mem_cons_of_mem n hold)
  · exact hpass.le_of_mem_closed hstrategy hdiscipline hconsistent hfront hgoal hbest hestimate

end Runs

/-- Doublings from 1 to 2, with the number of steps that are left as the estimate. -/
def measured : Plan Int Int where
  problem :=
    { Doubling.evens 1 2 2 with heuristic := some fun s => .ok (some (if s = 2 then 0 else 1)) }
  strategy := .astar
  discipline := .global

theorem isConsistent_measured : measured.problem.IsConsistent := by
  have hprice : measured.problem.HasPrice 1 := Problem.hasPrice_of_evenRules rfl
  have hvalue : ∀ s h, measured.problem.estimate s = .ok h → h = if s = 2 then 0 else 1 :=
    fun s h hestimate => (Except.ok.inj hestimate).symm
  refine ⟨fun s _ => ⟨_, rfl⟩, ?_, ?_⟩
  · intro s t position price h h' hs hstep hestimate hestimate'
    obtain rfl := hprice.eq_of_step? hs hstep
    rw [hvalue s h hestimate, hvalue t h' hestimate']
    split <;> split <;> decide
  · intro s _ hgoal
    obtain rfl : s = 2 := by simpa [measured, Doubling.evens] using hgoal
    rfl

theorem closes_least_measured :
    ∃ t n, (fresh : Search Int Int).run measured 2 = .ended t ∧ t.solution = some n ∧
      t.expansions = t.closed.size ∧
      ∀ x best h, measured.problem.LeastCost x best → measured.problem.estimate x = .ok h →
        (best + h < n.cost → x ∈ t.closed) ∧ (x ∈ t.closed → best + h ≤ n.cost) := by
  obtain ⟨t, n, hrun, hsolution, hdepths⟩ :
      ∃ t n, (fresh : Search Int Int).run measured 2 = .ended t ∧ t.solution = some n ∧
        t.popped.map Node.depth = [1, 0] := by
    simp [run, beginRun, reset, fresh, beginPass, Plan.askInitial, measured, Plan.boundAfter,
      Strategy.isIterative, unbounded, Progress.after, advance, turn, isBeyond?_int, isWithin_int,
      pop, record, Plan.askGoal, explode, admits, isBest_int, expand, close, count, pay?,
      Closed.put_eq_insert, enqueue, insertAll, succeed, conclude, popped, Plan.askRules,
      Plan.childrenFrom, Plan.askBatch, Plan.entries?, Plan.askEvaluations, Plan.askEvaluation,
      Plan.askEstimate, Except.map, bind, Except.bind, stableSort, insertBehind,
      Sorting.halve?, Frontier.insertOrdered?, Frontier.popFront?, Frontier.pushBack,
      Frontier.empty, Frontier.ofList, Frontier.toList, Node.depth, Node.state, Node.cost,
      Value.toPrice?, Rule.unit, Rule.fixed, Doubling.evens, Doubling.evenRules, Doubling.within]
    rfl
  have hpopped : ∀ m ∈ t.popped, (m.depth : Int) ≤ unbounded := by
    intro m hm
    have hdepth := List.mem_map_of_mem (f := Node.depth) hm
    rw [hdepths] at hdepth
    simp only [List.mem_cons, List.not_mem_nil, or_false] at hdepth
    unfold unbounded
    omega
  have ht : ((fresh : Search Int Int).run measured 2).search = t := by
    rw [hrun]
    rfl
  obtain ⟨-, -, hexpansions, -, hcosts⟩ :=
    closes_least_of_consistent rfl rfl isConsistent_measured ht hpopped
  exact ⟨t, n, hrun, hsolution, hexpansions, hcosts n hsolution⟩

end StateSpace.Search
