import StateSpace.Proofs.Estimates
import StateSpace.Proofs.Exhaustion
import StateSpace.Proofs.GlobalOrdering

/-!
# Runs come to an end

Within its bound a pass grows a tree of limited height, and every node of it has at most one child
for each rule. So every pass ends if none of its turns breaks it off, and a run ends with a solution
if a pass that is drained has seen all goals that are no deeper than the number of passes.
-/
namespace StateSpace

/-- The number of nodes of a tree of this height in which every node has the same number of
children. -/
def treeSize (children : Nat) : Nat → Nat
  | 0 => 1
  | height + 1 => 1 + children * treeSize children height

theorem treeSize_pos (children height : Nat) : 0 < treeSize children height := by
  cases height with
  | zero => exact Nat.one_pos
  | succ height => exact Nat.add_pos_left Nat.one_pos _

namespace Plan

variable {σ : Type} {plan : Plan σ Int} {bound : Int} {n : Node σ Int}

/-- The size of the largest tree that may grow from a node within a bound. -/
def shade (plan : Plan σ Int) (bound : Int) (n : Node σ Int) : Nat :=
  treeSize plan.problem.rules.length (bound + 1 - n.depth).toNat

theorem sum_shade_offspring_lt (hwithin : n.depth ≤ bound) :
    ((plan.problem.offspring n).map (plan.shade bound)).sum < plan.shade bound n := by
  obtain ⟨height, hheight⟩ : ∃ height : Nat, bound - n.depth = height :=
    Int.eq_ofNat_of_zero_le (by omega)
  have hself : plan.shade bound n =
      1 + plan.problem.rules.length * treeSize plan.problem.rules.length height := by
    have hsucc : (bound + 1 - n.depth).toNat = height + 1 := by omega
    rw [shade, hsucc, treeSize]
  have hchild : ∀ m ∈ plan.problem.offspring n,
      plan.shade bound m = treeSize plan.problem.rules.length height := by
    intro m hm
    obtain ⟨position, hm⟩ := Problem.mem_offspring_iff.mp hm
    have hsame : (bound + 1 - m.depth).toNat = height := by
      rw [Problem.depth_of_child? hm]
      push_cast
      omega
    rw [shade, hsame]
  have hsum : ((plan.problem.offspring n).map (plan.shade bound)).sum =
      (plan.problem.offspring n).length * treeSize plan.problem.rules.length height := by
    rw [List.map_congr_left hchild, List.map_const', List.sum_replicate_nat]
  have hlength := Nat.mul_le_mul_right (treeSize plan.problem.rules.length height)
    (Problem.length_offspring_le (p := plan.problem) (n := n))
  omega

theorem le_boundAfter (plan : Plan σ Int) (before : Nat) :
    (before : Int) ≤ plan.boundAfter before := by
  unfold boundAfter unbounded
  split <;> simp

end Plan

namespace Search

variable {σ : Type} [DecidableEq σ] [Hashable σ] {plan : Plan σ Int} {start s t : Search σ Int}
  {n m : Node σ Int}

/-! ### The end of a pass -/

/-- The size of all that waits and may grow from there. -/
def load (plan : Plan σ Int) (s : Search σ Int) : Nat :=
  (s.frontier.items.map (plan.shade s.depthBound)).sum

/-- Every turn of a pass that goes on makes its load smaller. -/
theorem Turn.load_lt (hturn : Turn plan s t) : load plan t < load plan s := by
  have hload : ∀ n rest, Takes plan s n rest t →
      load plan s = plan.shade s.depthBound n +
        ((rest.map (·.item)).map (plan.shade s.depthBound)).sum := by
    intro n rest takes
    obtain ⟨key, hfront⟩ := takes.front
    rw [load, Frontier.items_of_front hfront, List.map_cons, List.sum_cons]
  cases hturn with
  | skipped n rest takes _ hfrontier =>
      rw [hload n _ takes, load, hfrontier, takes.depthBound]
      exact Nat.lt_add_of_pos_left (treeSize_pos _ _)
  | expanded n rest takes hwithin _ _ hqueue =>
      have hperm := (Plan.queue?_perm hqueue).map (plan.shade s.depthBound)
      rw [hload n _ takes, load, takes.depthBound, hperm.sum_nat, List.map_append, List.sum_append]
      exact Nat.add_lt_add_right (Plan.sum_shade_offspring_lt hwithin) _

section Ending

variable {bound : Int} (hpriced : plan.problem.IsPriced)
  (hqueue : ∀ s, Pass plan bound s → ∀ e rest, s.frontier.popFront? = some (e, rest) →
    plan.problem.Grows e.item → ∃ f, plan.queue? rest (plan.problem.offspring e.item) = some f)

include hpriced hqueue

/-- A pass takes no more turns than its load and a last one, where expansions are not counted, every
rule that applies asks a price, and children can always be queued. -/
theorem Pass.ended_of_load_lt (hs : Pass plan bound s) (hallowance : s.allowance = none)
    {turns : Nat} (hlt : load plan s < turns) :
    ∃ t, Progress.after (Search.turn plan) turns (.running s) = .ended t := by
  induction turns generalizing s with
  | zero => omega
  | succ turns ih =>
      have hnext : (∃ t, s.turn plan = .running t) ∨ ∃ t, s.turn plan = .ended t := by
        refine turn_unbroken hallowance fun e rest hfront => ?_
        have hgrows := hs.ledger.waiting e.item
          (Frontier.mem_items_of_front (Frontier.toList_of_popFront? hfront))
        exact ⟨hpriced e.item.state hgrows.reaches, hqueue s hs e rest hfront hgrows⟩
      rw [Progress.after]
      rcases hnext with ⟨t, hturn⟩ | ⟨t, hturn⟩
      · have htaken := turn_of_running hturn
        obtain ⟨n, rest, takes⟩ := htaken.exists_takes
        have hless := htaken.load_lt
        rw [hturn]
        exact ih (hs.turn hturn) (takes.allowance hallowance) (by omega)
      · rw [hturn]
        exact ⟨t, by cases turns <;> rfl⟩

theorem Pass.exists_ended (hs : Pass plan bound s) (hallowance : s.allowance = none) :
    ∃ turns t, Progress.after (Search.turn plan) turns (.running s) = .ended t :=
  ⟨_, hs.ended_of_load_lt hpriced hqueue hallowance (Nat.lt_succ_self _)⟩

end Ending

/-- None of these turns breaks the run off. -/
def Unbroken (plan : Plan σ Int) (start : Search σ Int) : Prop :=
  ∀ s, Run plan start s → (∃ t, s.turn plan = .running t) ∨ ∃ t, s.turn plan = .ended t

theorem Unbroken.ne_broken (hunbroken : Unbroken plan start) (turns : Nat) {fault : Fault σ} :
    start.run plan turns ≠ .broken t fault := by
  intro hbroken
  obtain ⟨s, hs, hturn⟩ := exists_run_of_broken hbroken
  rcases hunbroken s hs with ⟨u, hu⟩ | ⟨u, hu⟩
  · simp [hturn] at hu
  · simp [hturn] at hu

theorem Run.exists_end (hunbroken : Unbroken plan start) (hs : Run plan start s) :
    ∃ u t, Run plan start u ∧ u.passes = s.passes ∧ u.turn plan = .ended t := by
  induction hload : load plan s using Nat.strong_induction_on generalizing s with
  | _ size ih =>
      rcases hunbroken s hs with ⟨t, hturn⟩ | ⟨t, hturn⟩
      · have htaken := turn_of_running hturn
        obtain ⟨n, rest, takes⟩ := htaken.exists_takes
        obtain ⟨u, v, hu, hpasses, hend⟩ :=
          ih (load plan t) (hload ▸ htaken.load_lt) (hs.turn hturn) rfl
        exact ⟨u, v, hu, hpasses.trans takes.passes, hend⟩
      · exact ⟨s, t, hs, rfl, hturn⟩

/-! ### The end of a run -/

theorem Run.allowance (hallowance : start.allowance = none) (hs : Run plan start s) :
    s.allowance = none := by
  induction hs with
  | start => exact hallowance
  | turn hs hturn ih =>
      obtain ⟨n, rest, takes⟩ := (turn_of_running hturn).exists_takes
      exact takes.allowance ih
  | next hs hturn hopen ih =>
      obtain ⟨-, rfl⟩ := drained_of_open hturn hopen
      exact ih

/-- A run is not broken off where expansions are not counted, every rule that applies asks a price,
and children can always be queued. -/
theorem unbroken_of_front (hallowance : start.allowance = none) (hpriced : plan.problem.IsPriced)
    (hqueue : ∀ s, Run plan start s → ∀ e rest, s.frontier.popFront? = some (e, rest) →
      plan.problem.Grows e.item → ∃ f, plan.queue? rest (plan.problem.offspring e.item) = some f) :
    Unbroken plan start := by
  intro s hs
  obtain ⟨before, -, hpass⟩ := hs.exists_pass
  refine turn_unbroken (hs.allowance hallowance) fun e rest hfront => ?_
  have hgrows : plan.problem.Grows e.item :=
    hpass.ledger.waiting e.item
      (Frontier.mem_items_of_front (Frontier.toList_of_popFront? hfront))
  exact ⟨hpriced e.item.state hgrows.reaches, hqueue s hs e rest hfront hgrows⟩

theorem unbroken_of_queue (hallowance : start.allowance = none) (hpriced : plan.problem.IsPriced)
    (hqueue : ∀ n, plan.problem.Grows n → ∀ f : Frontier (Node σ Int) Int,
      ∃ f', plan.queue? f (plan.problem.offspring n) = some f') :
    Unbroken plan start :=
  unbroken_of_front hallowance hpriced fun _ _ e rest _ hgrows => hqueue e.item hgrows rest

/-- Estimated children can be queued, by any strategy and under either ordering. -/
theorem Pass.exists_queue {bound : Int} (hestimated : plan.problem.IsEstimated)
    (hs : Pass plan bound s) {e : Entry (Node σ Int) Int} {rest : Frontier (Node σ Int) Int}
    (hfront : s.frontier.popFront? = some (e, rest)) (hgrows : plan.problem.Grows e.item) :
    ∃ f, plan.queue? rest (plan.problem.offspring e.item) = some f := by
  have hinformed : plan.strategy = .astar ∨ plan.strategy = .greedy →
      ∃ f, plan.queue? rest (plan.problem.offspring e.item) = some f := by
    intro hinformed
    have heval : ∀ m ∈ plan.problem.offspring e.item, plan.evaluate m = .ok (plan.score m) := by
      intro m hm
      obtain ⟨position, hchild⟩ := Problem.mem_offspring_iff.mp hm
      exact Plan.evaluate_of_isEstimated hestimated (hgrows.child hchild)
    suffices harrange : ∃ f, plan.arrange? rest
        ((plan.ranked (plan.problem.offspring e.item)).map plan.keyed) = some f by
      obtain ⟨f, hf⟩ := harrange
      exact ⟨f, (Plan.queue?_informed hinformed).mpr ⟨heval, hf⟩⟩
    cases hdiscipline : plan.discipline with
    | batch => exact ⟨_, by rw [Plan.arrange?, hdiscipline]⟩
    | global =>
        obtain ⟨items, ranked⟩ :=
          hs.ranked_rest hinformed hdiscipline (Frontier.toList_of_popFront? hfront)
        obtain ⟨f, hf, -⟩ := Plan.foldlM_insertOrdered?_keyed ranked.entries ranked.sorted
          (plan.ranked (plan.problem.offspring e.item))
        exact ⟨f, by rw [Plan.arrange?, hdiscipline, hf]⟩
  cases hstrategy : plan.strategy with
  | bfs =>
      obtain ⟨f, hf, -⟩ := Plan.queue?_bfs hstrategy rest (plan.problem.offspring e.item)
      exact ⟨f, hf⟩
  | dfs =>
      obtain ⟨f, hf, -⟩ := Plan.queue?_dfs (Or.inl hstrategy) rest (plan.problem.offspring e.item)
      exact ⟨f, hf⟩
  | iddfs =>
      obtain ⟨f, hf, -⟩ := Plan.queue?_dfs (Or.inr hstrategy) rest (plan.problem.offspring e.item)
      exact ⟨f, hf⟩
  | astar => exact hinformed (Or.inl hstrategy)
  | greedy => exact hinformed (Or.inr hstrategy)

theorem unbroken_of_estimated (hallowance : start.allowance = none)
    (hpriced : plan.problem.IsPriced) (hestimated : plan.problem.IsEstimated) :
    Unbroken plan start := by
  refine unbroken_of_front hallowance hpriced fun s hs e rest hfront hgrows => ?_
  obtain ⟨before, -, hpass⟩ := hs.exists_pass
  exact hpass.exists_queue hestimated hfront hgrows

/-- A drained pass has seen every goal up to one step beyond its bound, if a node is answered for by
none that is deeper. -/
theorem Run.passes_lt_depth {le : Node σ Int → Node σ Int → Prop}
    (grading : plan.problem.Grading le)
    (hdepth : ∀ a b, plan.problem.Grows a → plan.problem.Grows b → le a b → a.depth ≤ b.depth)
    (covering : Covering plan le s) (hs : Run plan start s) (hempty : s.frontier.toList = [])
    (hm : plan.problem.Grows m) (hgoal : plan.problem.isGoal m.state = true) :
    s.passes < m.depth := by
  obtain ⟨before, hpasses, hpass⟩ := hs.exists_pass
  have ledger := hpass.ledger
  obtain ⟨a, hagrows, word, cost, hpositions, -, -, hlater⟩ :=
    covering.walk_of_goal grading ledger hm hgoal
  rcases hlater with ⟨k, hk, -⟩ | ⟨⟨k, hk, hbeyond, -, hle⟩, hword⟩
  · exact absurd hk (Frontier.not_mem_items hempty k)
  · have hlength := hm.depth_eq_add hagrows hpositions
    have hpos := List.length_pos_iff.mpr hword
    have hka := hdepth k a (ledger.tested k hk).1 hagrows hle
    have hbefore := plan.le_boundAfter before
    rw [ledger.depthBound] at hbeyond
    omega

/-- Where some word solves the problem, a pass is drained only if its bound cut something off. -/
theorem Run.boundHit_of_drained (hsolvable : ∃ word cost, plan.problem.Solves word cost)
    (hs : Run plan start s) (hempty : s.frontier.toList = []) : s.boundHit = true := by
  obtain ⟨word, cost, goal, hfollow, hgoal⟩ := hsolvable
  obtain ⟨before, -, hpass⟩ := hs.exists_pass
  cases hhit : s.boundHit with
  | true => rfl
  | false =>
      rw [hpass.notGoal_of_drained hempty hhit ⟨word, cost, hfollow⟩] at hgoal
      cases hgoal

/-- Where some word solves the problem, a run never reports a failure. -/
theorem Moment.isFailed_eq_false (hsolvable : ∃ word cost, plan.problem.Solves word cost)
    {p : Progress σ Int} (hmoment : Moment plan start p) : p.search.isFailed = false := by
  cases hmoment with
  | running hs => exact hs.no_verdict.2.2
  | ended hs hturn =>
      cases ends_of_ended hturn with
      | drained hempty hresult =>
          subst hresult
          exact hs.drain_verdict.2.trans (by rw [hs.boundHit_of_drained hsolvable hempty]; rfl)
      | goal n key rest hfront hgoal hresult =>
          subst hresult
          exact hs.no_verdict.2.2
  | broken hs hturn =>
      obtain ⟨n, rest, takes⟩ := (visit_of_broken hturn).exists_takes
      exact takes.isFailed.trans hs.no_verdict.2.2

/-- An unbroken run goes on forever if a drained pass always cut something off and no goal ever
waits. -/
theorem running_of_boundHit (hunbroken : Unbroken plan start)
    (hhit : ∀ s, Run plan start s → s.frontier.toList = [] → s.boundHit = true)
    (hgoalless : ∀ s, Run plan start s → ∀ n ∈ s.frontier.items,
      plan.problem.isGoal n.state = false) (turns : Nat) :
    ∃ s, start.run plan turns = .running s := by
  have hmoment := moment_run plan start turns
  generalize start.run plan turns = p at hmoment
  cases hmoment with
  | running hs => exact ⟨_, rfl⟩
  | ended hs hturn hfinished =>
      cases ends_of_ended hturn with
      | drained hempty hresult =>
          subst hresult
          rw [hs.drain_verdict.1, hhit _ hs hempty] at hfinished
          cases hfinished
      | goal n key rest hfront hgoal hresult =>
          rw [hgoalless _ hs n (Frontier.mem_items_of_front hfront)] at hgoal
          cases hgoal
  | broken hs hturn =>
      rcases hunbroken _ hs with ⟨u, hu⟩ | ⟨u, hu⟩
      · rw [hturn] at hu
        cases hu
      · rw [hturn] at hu
        cases hu

/-- An unbroken run goes on forever if some word solves the problem but no goal ever waits. -/
theorem running_of_goalless (hunbroken : Unbroken plan start)
    (hsolvable : ∃ word cost, plan.problem.Solves word cost)
    (hgoalless : ∀ s, Run plan start s → ∀ n ∈ s.frontier.items,
      plan.problem.isGoal n.state = false) (turns : Nat) :
    ∃ s, start.run plan turns = .running s :=
  running_of_boundHit hunbroken
    (fun _ hs hempty => hs.boundHit_of_drained hsolvable hempty) hgoalless turns

/-- Where the number of passes is limited, some pass of the run ends it. -/
theorem Run.exists_verdict {limit : Nat} (hlimit : ∀ s, Run plan start s → s.passes ≤ limit)
    (hunbroken : Unbroken plan start) (hs : Run plan start s) :
    ∃ u t, Run plan start u ∧ u.turn plan = .ended t ∧ t.isFinished = true := by
  induction hleft : limit - s.passes using Nat.strong_induction_on generalizing s with
  | _ left ih =>
      obtain ⟨u, t, hu, hpasses, hturn⟩ := hs.exists_end hunbroken
      cases hfinished : t.isFinished with
      | true => exact ⟨u, t, hu, hturn, hfinished⟩
      | false =>
          have hnext := hu.next hturn hfinished
          have hle := hlimit _ hnext
          have hone : (t.beginPass plan (plan.boundAfter t.passes)).passes = s.passes + 1 := by
            obtain ⟨-, rfl⟩ := drained_of_open hturn hfinished
            exact congrArg (· + 1) hpasses
          exact ih _ (by omega) hnext rfl

section Limit

variable {limit : Nat}
  (hdrained : ∀ s, Run plan start s → s.frontier.toList = [] → s.passes < limit)

include hdrained

theorem Run.passes_le (hs : Run plan start s) : s.passes ≤ max 1 limit := by
  induction hs with
  | start => exact le_max_left 1 _
  | turn hs hturn ih =>
      obtain ⟨n, rest, takes⟩ := (turn_of_running hturn).exists_takes
      rwa [takes.passes]
  | next hs hturn hopen ih =>
      obtain ⟨hempty, rfl⟩ := drained_of_open hturn hopen
      have hlt := hdrained _ hs hempty
      exact le_max_of_le_right hlt

/-- An unbroken run finds a solution if there is one and only so many passes of it are drained. -/
theorem exists_solution_of_limit (hunbroken : Unbroken plan start)
    (hsolvable : ∃ word cost, plan.problem.Solves word cost) :
    ∃ s n key rest turns, Run plan start s ∧ s.frontier.toList = ⟨n, key⟩ :: rest.toList ∧
      plan.problem.isGoal n.state = true ∧
      start.run plan turns =
        .ended ((s.take plan n (decide (s.depthBound < n.depth)) rest).succeed n).conclude := by
  obtain ⟨s, t, hs, hturn, hfinished⟩ := Run.start.exists_verdict
    (fun s hs => hs.passes_le hdrained) hunbroken
  obtain ⟨turns, hrun⟩ := hs.exists_ended hturn hfinished
  cases ends_of_ended hturn with
  | drained hempty hresult =>
      subst hresult
      rw [hs.drain_verdict.1, hs.boundHit_of_drained hsolvable hempty] at hfinished
      cases hfinished
  | goal n key rest hfront hfound hresult =>
      subst hresult
      exact ⟨s, n, key, rest, turns, hs, hfront, hfound, hrun⟩

end Limit

section Deepening

variable (hdrained : ∀ s, Run plan start s → s.frontier.toList = [] → ∀ m, plan.problem.Grows m →
  plan.problem.isGoal m.state = true → s.passes < m.depth)

include hdrained

theorem Run.passes_le_depth (hs : Run plan start s) (hm : plan.problem.Grows m)
    (hgoal : plan.problem.isGoal m.state = true) : s.passes ≤ max 1 m.depth :=
  hs.passes_le fun s hs hempty => hdrained s hs hempty m hm hgoal

/-- An unbroken run finds a solution if there is one and drained passes have seen all goals that are
no deeper than the number of passes. -/
theorem exists_solution (hunbroken : Unbroken plan start)
    (hsolvable : ∃ word cost, plan.problem.Solves word cost) :
    ∃ s n key rest turns, Run plan start s ∧ s.frontier.toList = ⟨n, key⟩ :: rest.toList ∧
      plan.problem.isGoal n.state = true ∧
      start.run plan turns =
        .ended ((s.take plan n (decide (s.depthBound < n.depth)) rest).succeed n).conclude := by
  obtain ⟨word, cost, goal, hfollow, hgoal⟩ := hsolvable
  obtain ⟨m, hm, -, rfl, -⟩ := Problem.exists_grows_of_follow? hfollow
  exact exists_solution_of_limit (fun s hs hempty => hdrained s hs hempty m hm hgoal) hunbroken
    ⟨word, cost, m.state, hfollow, hgoal⟩

end Deepening

end Search

end StateSpace
