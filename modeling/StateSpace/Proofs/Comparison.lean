import StateSpace.Proofs.Breadth
import StateSpace.Proofs.Consistency

/-!
# Breadth first and A* compared

Where every step costs one, a solution found breadth first is as deep as one found by A* under a
global ordering. Breadth first has expanded all states that lie closer than its solution, and on the
level of the solution perhaps some. A* has expanded states that do not score more than its solution.
Since their estimates are positive, all of these lie closer, whatever the order among equal scores.
-/
namespace StateSpace.Search

variable {σ : Type} [DecidableEq σ] [Hashable σ] {plan : Plan σ Int} {bound : Int}
  {start start' s s' t t' : Search σ Int} {n m : Node σ Int}

/-! ### The end of a run of one pass -/

/-- The end of a pass that came to a verdict. -/
inductive Verdict (plan : Plan σ Int) (s t : Search σ Int) : Prop where
  | failed (empty : s.frontier.toList = []) (uncut : s.boundHit = false)
      (isFailed : t.isFailed = true) (solution : t.solution = none)
  | solved (n : Node σ Int) (key : Option Int) (rest : List (Entry (Node σ Int) Int))
      (front : s.frontier.toList = ⟨n, key⟩ :: rest)
      (isGoal : plan.problem.isGoal n.state = true)
      (isFailed : t.isFailed = false) (solution : t.solution = some n)

theorem exists_verdict_of_ended (hiterative : plan.strategy.isIterative = false) {turns : Nat}
    (hrun : start.run plan turns = .ended t)
    (hpopped : ∀ m ∈ t.popped, (m.depth : Int) ≤ unbounded) :
    ∃ s, Pass plan unbounded s ∧ (∀ k ∈ s.tested, (k.depth : Int) ≤ unbounded) ∧
      t.closed = s.closed ∧ t.expansions = s.expanded.length ∧ Verdict plan s t := by
  obtain ⟨s, u, hs, hturn, hfinished, rfl⟩ := exists_run_of_ended hrun
  obtain ⟨hsolution, -, hfailed⟩ := hs.no_verdict
  cases ends_of_ended hturn with
  | drained hempty hresult =>
      subst hresult
      obtain ⟨hpass, tallied⟩ := hs.first_pass hiterative hpopped
      rw [hs.drain_verdict.1, Bool.not_eq_true'] at hfinished
      have hfailure : s.drain.isFailed = true := by
        rw [hs.drain_verdict.2, hfinished]
        rfl
      exact ⟨s, hpass, tallied.popped ▸ hpopped, rfl, tallied.expansions,
        .failed hempty hfinished hfailure hsolution⟩
  | goal n key rest hfront hgoal hresult =>
      subst hresult
      have hearlier : ∀ m ∈ s.popped, (m.depth : Int) ≤ unbounded :=
        fun m hm => hpopped m (List.mem_cons_of_mem n hm)
      obtain ⟨hpass, tallied⟩ := hs.first_pass hiterative hearlier
      exact ⟨s, hpass, tallied.popped ▸ hearlier, rfl, tallied.expansions,
        .solved n key rest.toList hfront hgoal hfailed rfl⟩

/-! ### What lies closer than a solution -/

/-- Breadth first all states of nodes that are less deep than the front were expanded. -/
theorem Pass.mem_closed_of_depth_lt (hstrategy : plan.strategy = .bfs) (hs : Pass plan bound s)
    (hcut : ∀ k ∈ s.tested, (k.depth : Int) ≤ bound) {key : Option Int}
    {rest : List (Entry (Node σ Int) Int)} (hfront : s.frontier.toList = ⟨n, key⟩ :: rest)
    (hm : plan.problem.Grows m) (hlt : m.depth < n.depth) : m.state ∈ s.closed := by
  rcases hs.mem_closed_or_front_le hstrategy hfront hm with hclosed | hle | ⟨k, hk, hbeyond⟩
  · exact hclosed
  · have hn := hs.ledger.waiting n (Frontier.mem_items_of_front hfront)
    exact absurd (Problem.depth_le_of_word hn hm hle) (not_le.mpr hlt)
  · have hwithin := hcut k hk
    rw [hs.ledger.depthBound] at hbeyond
    omega

section Consistent

variable (hstrategy : plan.strategy = .astar) (hdiscipline : plan.discipline = .global)
  (hconsistent : plan.problem.IsConsistent) (hs : Pass plan bound s) {key : Option Int}
  {rest : List (Entry (Node σ Int) Int)} (hfront : s.frontier.toList = ⟨n, key⟩ :: rest)
  (hgoal : plan.problem.isGoal n.state = true)

include hstrategy hdiscipline hconsistent hs hfront hgoal

/-- A goal at the front costs no more than any other goal. -/
theorem Pass.cost_le_of_goals (hcut : ∀ k ∈ s.tested, (k.depth : Int) ≤ bound)
    (hm : plan.problem.Grows m) (hmgoal : plan.problem.isGoal m.state = true) :
    n.cost ≤ m.cost := by
  have ledger := hs.ledger
  have hn := ledger.waiting n (Frontier.mem_items_of_front hfront)
  rcases hs.expands_or_score_le hstrategy hdiscipline hconsistent hfront hcut hm with
    ⟨g, hg, hstate, -⟩ | hscore
  · exact absurd hstate (ledger.state_ne_of_goal (ledger.expanded g hg).1 hmgoal)
  · rw [Plan.score_astar hstrategy (hconsistent.goal n.state hn.reaches hgoal),
      Plan.score_astar hstrategy (hconsistent.goal m.state hm.reaches hmgoal)] at hscore
    omega

/-- Under positive estimates a state that was expanded has a node that costs less than the goal at
the front. -/
theorem Pass.exists_cost_lt_of_mem_closed (hcut : ∀ k ∈ s.tested, (k.depth : Int) ≤ bound)
    (hpositive : ∀ x h, plan.problem.Reaches x → plan.problem.isGoal x = false →
      plan.problem.estimate x = .ok h → 1 ≤ h) {x : σ} (hx : x ∈ s.closed) :
    ∃ m, plan.problem.Grows m ∧ m.state = x ∧ m.cost < n.cost := by
  have ledger := hs.ledger
  obtain ⟨cost, hcost⟩ := Option.isSome_iff_exists.mp (Std.HashMap.mem_iff_isSome_getElem?.mp hx)
  obtain ⟨best, -, hbest⟩ :=
    (hs.settled hstrategy hdiscipline hconsistent hcut).leastCost ledger hcost
  obtain ⟨word, hfollow⟩ := hbest.1
  obtain ⟨m, hm, -, hstate, hmcost⟩ := Problem.exists_grows_of_follow? hfollow
  obtain ⟨g, hg, hgstate⟩ := ledger.mem_closed_iff.mp hx
  have hnot : plan.problem.isGoal x = false :=
    hgstate ▸ (ledger.tested g (ledger.expanded g hg).1).2
  have hreaches : plan.problem.Reaches x := hstate ▸ hm.reaches
  obtain ⟨h, hestimate⟩ := hconsistent.estimated x hreaches
  have hone := hpositive x h hreaches hnot hestimate
  have hle := hs.le_of_mem_closed hstrategy hdiscipline hconsistent hfront hgoal hbest hestimate hx
  exact ⟨m, hm, hstate, by omega⟩

end Consistent

/-! ### Two runs on one problem -/

section Runs

variable {p : Problem σ Int} {d : Discipline}

theorem length_le_of_closed_subset {plan' : Plan σ Int} (ledger : Ledger plan bound s)
    (ledger' : Ledger plan' bound s') (honce : (s'.expanded.map Node.state).Nodup)
    (hsubset : ∀ x ∈ s'.closed, x ∈ s.closed) : s'.expanded.length ≤ s.expanded.length := by
  have hstates : s'.expanded.map Node.state ⊆ s.expanded.map Node.state := by
    intro x hx
    obtain ⟨g, hg, rfl⟩ := List.mem_map.mp hx
    obtain ⟨k, hk, hstate⟩ :=
      ledger.mem_closed_iff.mp (hsubset g.state (ledger'.mem_closed_iff.mpr ⟨g, hg, rfl⟩))
    exact List.mem_map.mpr ⟨k, hk, hstate⟩
  simpa using (honce.subperm hstates).length_le

/-- **A\* expands no more than breadth first.** Where every step costs one and estimates are
consistent, and positive except at goals, runs of both that take no node beyond the unbounded depth
agree on success and on cost; every state that A* closes under a global ordering is closed breadth
first, and A* expands no more nodes. -/
theorem expansions_le_of_consistent (hprice : p.HasPrice 1) (hconsistent : p.IsConsistent)
    (hpositive : ∀ x h, p.Reaches x → p.isGoal x = false → p.estimate x = .ok h → 1 ≤ h)
    {turns turns' : Nat} (hrun : start.run ⟨p, .bfs, d⟩ turns = .ended t)
    (hrun' : start'.run ⟨p, .astar, .global⟩ turns' = .ended t')
    (hpopped : ∀ m ∈ t.popped, (m.depth : Int) ≤ unbounded)
    (hpopped' : ∀ m ∈ t'.popped, (m.depth : Int) ≤ unbounded) :
    t'.isFailed = t.isFailed ∧ t'.solution.map Node.cost = t.solution.map Node.cost ∧
      (∀ x ∈ t'.closed, x ∈ t.closed) ∧ t'.expansions ≤ t.expansions := by
  obtain ⟨s, hs, hcut, hclosed, hcount, hverdict⟩ := exists_verdict_of_ended rfl hrun hpopped
  obtain ⟨s', hs', hcut', hclosed', hcount', hverdict'⟩ :=
    exists_verdict_of_ended rfl hrun' hpopped'
  have honce := (hs'.settled rfl rfl hconsistent hcut').once
  -- The counts follow from the closed states, so each pair of ends is asked only for those.
  suffices hends : t'.isFailed = t.isFailed ∧ t'.solution.map Node.cost = t.solution.map Node.cost ∧
      ∀ x ∈ s'.closed, x ∈ s.closed by
    obtain ⟨hfailed, hcost, hsubset⟩ := hends
    rw [hclosed, hclosed', hcount, hcount']
    exact ⟨hfailed, hcost, hsubset, length_le_of_closed_subset hs.ledger hs'.ledger honce hsubset⟩
  cases hverdict with
  | failed hempty huncut hfailed hsolution =>
      cases hverdict' with
      | failed hempty' huncut' hfailed' hsolution' =>
          rw [hfailed, hfailed', hsolution, hsolution']
          refine ⟨rfl, rfl, fun x hx => ?_⟩
          have hreaches := (hs'.mem_closed_iff hempty' huncut' x).mp hx
          exact (hs.mem_closed_iff hempty huncut x).mpr hreaches
      | solved n key rest hfront hgoal =>
          have hn := hs'.ledger.waiting n (Frontier.mem_items_of_front hfront)
          have hnot := hs.notGoal_of_drained hempty huncut hn.reaches
          exact absurd hgoal (Bool.eq_false_iff.mp hnot)
  | solved n key rest hfront hgoal hfailed hsolution =>
      have hn := hs.ledger.waiting n (Frontier.mem_items_of_front hfront)
      cases hverdict' with
      | failed hempty' huncut' =>
          have hnot := hs'.notGoal_of_drained hempty' huncut' hn.reaches
          exact absurd hgoal (Bool.eq_false_iff.mp hnot)
      | solved n' key' rest' hfront' hgoal' hfailed' hsolution' =>
          have hn' := hs'.ledger.waiting n' (Frontier.mem_items_of_front hfront')
          have hword := hs.front_earliest rfl (by decide) hfront hn' hgoal'
          have hdepth := Problem.depth_le_of_word hn hn' hword
          have hle := hs'.cost_le_of_goals rfl rfl hconsistent hfront' hgoal' hcut' hn hgoal
          have hunit : ∀ m, p.Grows m → m.cost = m.depth := by
            intro m hm
            simpa using hm.cost_eq hprice
          have hsame : n'.cost = n.cost := by
            rw [hunit n hn, hunit n' hn'] at hle ⊢
            omega
          rw [hfailed, hfailed', hsolution, hsolution', Option.map_some, Option.map_some, hsame]
          refine ⟨rfl, rfl, fun x hx => ?_⟩
          obtain ⟨m, hm, rfl, hlt⟩ := hs'.exists_cost_lt_of_mem_closed rfl rfl hconsistent hfront'
            hgoal' hcut' hpositive hx
          rw [hsame, hunit m hm, hunit n hn] at hlt
          exact hs.mem_closed_of_depth_lt rfl hcut hfront hm (by exact_mod_cast hlt)

end Runs

/-- From 1 to 4 by steps of two and doublings, with estimates that lead past 3. -/
def signposted : Problem Int Int :=
  { Doubling.evens 1 4 4 with
    heuristic := some fun s => .ok (some (if s = 4 then 0 else if s = 3 then 2 else 1)) }

theorem isConsistent_signposted : signposted.IsConsistent := by
  have hvalue : ∀ s h, signposted.estimate s = .ok h →
      h = if s = 4 then 0 else if s = 3 then 2 else 1 :=
    fun s h hestimate => (Except.ok.inj hestimate).symm
  have hdead : ∀ position, signposted.step? 3 position = none := by
    rintro (_ | _ | position) <;> rfl
  refine ⟨fun s _ => ⟨_, rfl⟩, ?_, ?_⟩
  · intro s t position price h h' hs hstep hestimate hestimate'
    by_cases hthree : s = 3
    · rw [hthree, hdead] at hstep
      cases hstep
    · have hprice : signposted.HasPrice 1 := Problem.hasPrice_of_evenRules rfl
      obtain rfl := hprice.eq_of_step? hs hstep
      rw [hvalue s h hestimate, hvalue t h' hestimate', if_neg hthree]
      split <;> split <;> omega
  · intro s _ hgoal
    obtain rfl : s = 4 := by simpa [signposted, Doubling.evens] using hgoal
    rfl

/-- Breadth first expands 1, 3 and 2, and A* only 1 and 2. -/
theorem expansions_le_signposted :
    ∃ t t', (fresh : Search Int Int).run ⟨signposted, .bfs, .batch⟩ 4 = .ended t ∧
      (fresh : Search Int Int).run ⟨signposted, .astar, .global⟩ 3 = .ended t' ∧
      t.expansions = 3 ∧ t'.expansions = 2 ∧ t'.expansions ≤ t.expansions ∧
      t'.isFailed = t.isFailed ∧ t'.solution.map Node.cost = t.solution.map Node.cost ∧
      ∀ x ∈ t'.closed, x ∈ t.closed := by
  obtain ⟨t, hrun, hcount, hdepths⟩ :
      ∃ t, (fresh : Search Int Int).run ⟨signposted, .bfs, .batch⟩ 4 = .ended t ∧
        t.expansions = 3 ∧ t.popped.map Node.depth = [2, 1, 1, 0] := by
    simp [run, beginRun, reset, fresh, beginPass, Plan.askInitial, signposted, Plan.boundAfter,
      Strategy.isIterative, unbounded, Progress.after, advance, turn, isBeyond?_int, isWithin_int,
      pop, record, Plan.askGoal, explode, admits, expand, close, count, pay?, Closed.put_eq_insert,
      enqueue, succeed, conclude, popped, Plan.askRules, Plan.childrenFrom, Frontier.popFront?,
      Frontier.pushBack, Frontier.empty, Frontier.ofList, Node.depth, Node.state, Node.cost,
      Value.toPrice?, Rule.unit, Rule.fixed, Doubling.evens, Doubling.evenRules, Doubling.within]
    rfl
  obtain ⟨t', hrun', hcount', hdepths'⟩ :
      ∃ t', (fresh : Search Int Int).run ⟨signposted, .astar, .global⟩ 3 = .ended t' ∧
        t'.expansions = 2 ∧ t'.popped.map Node.depth = [2, 1, 0] := by
    simp [run, beginRun, reset, fresh, beginPass, Plan.askInitial, signposted, Plan.boundAfter,
      Strategy.isIterative, unbounded, Progress.after, advance, turn, isBeyond?_int, isWithin_int,
      pop, record, Plan.askGoal, explode, admits, isBest_int, expand, close, count, pay?,
      Closed.put_eq_insert, enqueue, insertAll, succeed, conclude, popped, Plan.askRules,
      Plan.childrenFrom, Plan.askBatch, Plan.entries?, Plan.askEvaluations, Plan.askEvaluation,
      Plan.askEstimate, Except.map, bind, Except.bind, stableSort, insertBehind,
      Sorting.halve?, Frontier.notAbove, Frontier.insertOrdered?, Frontier.popFront?,
      Frontier.pushBack, Frontier.empty, Frontier.ofList, Frontier.toList, Node.depth, Node.state,
      Node.cost, Value.toPrice?, Rule.unit, Rule.fixed, Doubling.evens, Doubling.evenRules,
      Doubling.within]
    rfl
  have hshallow : ∀ {u : Search Int Int}, (∀ depth ∈ u.popped.map Node.depth, depth ≤ 2) →
      ∀ m ∈ u.popped, (m.depth : Int) ≤ unbounded := by
    intro u hle m hm
    have hdepth := hle m.depth (List.mem_map_of_mem hm)
    unfold unbounded
    omega
  have hpositive : ∀ x h, signposted.Reaches x → signposted.isGoal x = false →
      signposted.estimate x = .ok h → 1 ≤ h := by
    intro x h _ hgoal hestimate
    have hvalue : h = if x = 4 then 0 else if x = 3 then 2 else 1 :=
      (Except.ok.inj hestimate).symm
    have hne : x ≠ 4 := by simpa [signposted, Doubling.evens] using hgoal
    rw [hvalue, if_neg hne]
    split <;> omega
  obtain ⟨hfailed, hcost, hclosed, hle⟩ :=
    expansions_le_of_consistent (Problem.hasPrice_of_evenRules rfl) isConsistent_signposted
      hpositive hrun hrun' (hshallow (by rw [hdepths]; decide))
      (hshallow (by rw [hdepths']; decide))
  exact ⟨t, t', hrun, hrun', hcount, hcount', hle, hfailed, hcost, hclosed⟩

end StateSpace.Search
