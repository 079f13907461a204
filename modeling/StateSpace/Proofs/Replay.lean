import StateSpace.Outcome
import StateSpace.Proofs.Ancestry

/-!
# Solutions replay

The way to a node starts at the root, every node on it grows from the one before by a rule of the
problem, and all nodes before the last were tested and expanded. So the path, the actions and the
cost that are reported of a solution fit together: the rules of these names, applied one after
another from the initial state, lead along the path to a goal, and their prices add up to the cost.
-/
namespace StateSpace

namespace Problem

variable {σ κ : Type}

/-- Rules of these names lead from one of the states to the next, at this price in all. -/
inductive Replays (p : Problem σ κ) : List σ → List Value → Nat → Prop where
  | here (s : σ) : p.Replays [s] [] 0
  | step {s t : σ} {path : List σ} {actions : List Value} {cost price : Nat} {rule : Rule σ}
      {asked : Value} (hrule : rule ∈ p.rules) (happly : rule.apply s = .leads t asked)
      (hasked : asked.toPrice? = some price) (hlater : p.Replays (t :: path) actions cost) :
      p.Replays (s :: t :: path) (rule.name :: actions) (price + cost)

theorem Replays.concat {p : Problem σ κ} {s t : σ} {path : List σ} {actions : List Value}
    {cost price : Nat} {rule : Rule σ} {asked : Value} (hpath : p.Replays path actions cost)
    (hlast : path.getLast? = some s) (hrule : rule ∈ p.rules)
    (happly : rule.apply s = .leads t asked) (hasked : asked.toPrice? = some price) :
    p.Replays (path ++ [t]) (actions ++ [rule.name]) (cost + price) := by
  induction hpath with
  | here x =>
      obtain rfl : x = s := Option.some.inj hlast
      rw [Nat.add_comm]
      exact .step hrule happly hasked (.here t)
  | step hrule' happly' hasked' hlater ih =>
      rw [Nat.add_assoc]
      exact .step hrule' happly' hasked' (ih hlast)

/-- A node grows from its parent by a rule that applies there, at the price it asks. -/
def Extends (p : Problem σ Int) (parent n : Node σ Int) : Prop :=
  ∃ rule ∈ p.rules, ∃ position t asked, ∃ price : Nat,
    rule.apply parent.state = .leads t asked ∧ asked.toPrice? = some price ∧
      n = .child parent (some ⟨position, rule⟩) t (parent.cost + price)

variable {p : Problem σ Int} {n m : Node σ Int}

theorem extends_of_child? {position : Nat} (hchild : p.child? n position = some m) :
    p.Extends n m := by
  obtain ⟨rule, t, price, hrule, hstep, rfl⟩ := child?_eq_some_iff.mp hchild
  obtain ⟨rule', asked, hrule', happly, hasked⟩ := step?_eq_some_iff.mp hstep
  obtain rfl : rule = rule' := Option.some.inj (hrule.symm.trans hrule')
  exact ⟨rule, List.mem_of_getElem? hrule, position, t, asked, price, happly, hasked, rfl⟩

theorem Grows.head?_path (hn : p.Grows n) : n.path.head? = some (.root p.initial 0) := by
  induction hn with
  | root => rfl
  | child hn hchild ih => rw [path_of_child? hchild, List.head?_append, ih, Option.some_or]

theorem Grows.isChain_path (hn : p.Grows n) : n.path.IsChain p.Extends := by
  induction hn with
  | root => exact List.isChain_singleton _
  | @child n m position hn hchild ih =>
      rw [path_of_child? hchild, List.isChain_append]
      refine ⟨ih, List.isChain_singleton m, ?_⟩
      intro a ha b hb
      rw [n.path_eq_concat, List.getLast?_concat, Option.mem_some_iff] at ha
      rw [List.head?_cons, Option.mem_some_iff] at hb
      subst ha hb
      exact extends_of_child? hchild

theorem Grows.replays (hn : p.Grows n) :
    ∃ cost : Nat, n.cost = cost ∧ p.Replays n.states n.actions cost := by
  induction hn with
  | root => exact ⟨0, rfl, .here p.initial⟩
  | @child n m position hn hchild ih =>
      obtain ⟨cost, hcost, hreplays⟩ := ih
      obtain ⟨rule, hrule, position, t, asked, price, happly, hasked, rfl⟩ :=
        extends_of_child? hchild
      have hlast : n.states.getLast? = some n.state := by
        rw [Node.states, n.path_eq_concat, List.map_append, List.map_singleton,
          List.getLast?_concat]
      refine ⟨cost + price, ?_, ?_⟩
      · show n.cost + price = ((cost + price : Nat) : Int)
        rw [hcost, Nat.cast_add]
      · have hnext := hreplays.concat hlast hrule happly hasked
        simpa [Node.states, Node.actions, Node.action?, Node.state] using hnext

end Problem

namespace Search

variable {σ : Type} [DecidableEq σ] [Hashable σ] {plan : Plan σ Int} {bound : Int}
  {start s t : Search σ Int} {n : Node σ Int}

/-- The way to a node. -/
structure Lineage (plan : Plan σ Int) (s : Search σ Int) (n : Node σ Int) : Prop where
  root : n.path.head? = some (.root plan.problem.initial 0)
  chain : n.path.IsChain plan.problem.Extends
  ancestors : ∀ m ∈ n.path.dropLast, plan.problem.isGoal m.state = false ∧ m.state ∈ s.closed

theorem Ledger.lineage (ledger : Ledger plan bound s) (hn : n ∈ s.frontier.items)
    (hancestors : n.path.dropLast ⊆ s.expanded) : Lineage plan s n := by
  have hgrows := ledger.waiting n hn
  refine ⟨hgrows.head?_path, hgrows.isChain_path, fun m hm => ?_⟩
  have hexpanded := hancestors hm
  exact ⟨(ledger.tested m (ledger.expanded m hexpanded).1).2,
    ledger.mem_closed_iff.mpr ⟨m, hexpanded, rfl⟩⟩

theorem Run.lineage (hs : Run plan start s) (hn : n ∈ s.frontier.items) : Lineage plan s n := by
  obtain ⟨before, -, hpass⟩ := hs.exists_pass
  exact hpass.ledger.lineage hn (hpass.ancestors_expanded n hn)

theorem Lineage.of_closed (lineage : Lineage plan s n) (hclosed : t.closed = s.closed) :
    Lineage plan t n :=
  ⟨lineage.root, lineage.chain, hclosed ▸ lineage.ancestors⟩

theorem Run.lineage_of_broken {fault : Fault σ} (hs : Run plan start s)
    (hturn : s.turn plan = .broken t fault) (hn : n ∈ t.frontier.items) : Lineage plan t n := by
  obtain ⟨before, -, hpass⟩ := hs.exists_pass
  have hvisit := visit_of_broken hturn
  exact (hpass.ledger.visit hvisit).lineage hn
    (hvisit.ancestors_expanded hpass.ancestors_expanded n hn)

theorem Moment.lineage {p : Progress σ Int} (hmoment : Moment plan start p)
    (hn : n ∈ p.search.frontier.items) : Lineage plan p.search n := by
  cases hmoment with
  | running hs => exact hs.lineage hn
  | @ended s t hs hturn =>
      cases ends_of_ended hturn with
      | drained hempty hresult =>
          subst hresult
          exact (hs.lineage (s := s) hn).of_closed rfl
      | goal m key rest hfront hgoal hresult =>
          subst hresult
          refine (hs.lineage (s := s) ?_).of_closed rfl
          rw [Frontier.items_of_front hfront]
          exact List.mem_cons_of_mem m hn
  | broken hs hturn => exact hs.lineage_of_broken hturn hn

theorem Moment.lineage_of_solution {p : Progress σ Int} (hmoment : Moment plan start p)
    (hsolution : p.search.solution = some n) :
    Lineage plan p.search n ∧ plan.problem.Grows n ∧ plan.problem.isGoal n.state = true := by
  obtain ⟨s, key, rest, hs, hfront, hgoal, heq⟩ := hmoment.exists_front hsolution
  obtain ⟨before, -, hpass⟩ := hs.exists_pass
  have hn := Frontier.mem_items_of_front hfront
  rw [heq]
  exact ⟨(hs.lineage hn).of_closed rfl, hpass.ledger.waiting n hn, hgoal⟩

theorem exists_solution_of_solve {name : Value} {turns : Nat} {o : Outcome σ}
    (hsolve : solve plan name start turns = .ok o) (hsuccess : o.isSuccess = true) :
    ∃ n, (start.run plan turns).search.solution = some n ∧ o.actions = n.actions ∧
      o.cost = .int n.cost ∧ o.path = n.states := by
  unfold solve at hsolve
  split at hsolve
  · next t hrun =>
    obtain rfl := Except.ok.inj hsolve
    rw [hrun, Progress.search]
    unfold outcome at hsuccess ⊢
    cases hfailed : t.isFailed <;> cases hsolution : t.solution <;>
      simp [hfailed, hsolution] at hsuccess ⊢
    rfl
  · cases hsolve
  · cases hsolve

/-- **Solutions replay.** At every moment of a run the way to each node that waits, and to the
solution, starts at the root, goes on by rules of the problem at the prices they ask, and leads
there over closed states that are no goals. A reported solution leads along its path by its actions
and at its cost from the initial state to its only goal. -/
theorem replays_of_run (plan : Plan σ Int) (start : Search σ Int) (turns : Nat) :
    (∀ n ∈ (start.run plan turns).search.frontier.items,
        Lineage plan (start.run plan turns).search n) ∧
      (∀ n, (start.run plan turns).search.solution = some n →
        Lineage plan (start.run plan turns).search n ∧ plan.problem.isGoal n.state = true) ∧
      ∀ name o, solve plan name start turns = .ok o → o.isSuccess = true →
        ∃ n, ∃ cost : Nat, (start.run plan turns).search.solution = some n ∧
          o.path.head? = some plan.problem.initial ∧
          (∃ goal, o.path.getLast? = some goal ∧ plan.problem.isGoal goal = true) ∧
          (∀ x ∈ o.path.dropLast, plan.problem.isGoal x = false) ∧
          o.actions.length = o.steps ∧ o.path.length = o.steps + 1 ∧ n.depth = o.steps ∧
          o.cost = .int cost ∧ plan.problem.Replays o.path o.actions cost := by
  have hmoment := moment_run plan start turns
  refine ⟨fun n hn => hmoment.lineage hn, fun n hn => ?_, fun name o hsolve hsuccess => ?_⟩
  · obtain ⟨lineage, -, hgoal⟩ := hmoment.lineage_of_solution hn
    exact ⟨lineage, hgoal⟩
  · obtain ⟨n, hsolution, hactions, hcost, hpath⟩ := exists_solution_of_solve hsolve hsuccess
    obtain ⟨lineage, hgrows, hgoal⟩ := hmoment.lineage_of_solution hsolution
    obtain ⟨cost, hncost, hreplays⟩ := hgrows.replays
    have hsteps : o.steps = n.depth := by
      rw [Outcome.steps, hactions, n.length_actions]
    refine ⟨n, cost, hsolution, ?_, ⟨n.state, ?_, hgoal⟩, ?_, rfl, ?_, hsteps.symm, ?_, ?_⟩
    · rw [hpath, Node.states, List.head?_map, lineage.root]
      rfl
    · rw [hpath, Node.states, n.path_eq_concat, List.map_append, List.map_singleton,
        List.getLast?_concat]
    · intro x hx
      rw [hpath, Node.states, ← List.map_dropLast] at hx
      obtain ⟨m, hm, rfl⟩ := List.mem_map.mp hx
      exact (lineage.ancestors m hm).1
    · rw [hpath, Node.states, List.length_map, n.length_path, hsteps]
    · rw [hcost, hncost]
    · rw [hpath, hactions]
      exact hreplays

/-- From 1 to 2 by a step of one. -/
theorem replays_increment :
    ∃ o, solve ⟨Doubling.problem 1 2 none, .bfs, .batch⟩ .null (fresh : Search Int Int) 2 = .ok o ∧
      o.isSuccess = true ∧ o.path.head? = some 1 ∧
      (∀ x ∈ o.path.dropLast, (Doubling.problem 1 2 none).isGoal x = false) ∧
      o.path.length = o.steps + 1 ∧ ∃ cost : Nat, o.cost = .int cost ∧
        (Doubling.problem 1 2 none).Replays o.path o.actions cost := by
  obtain ⟨o, hsolve, hsuccess⟩ : ∃ o,
      solve ⟨Doubling.problem 1 2 none, .bfs, .batch⟩ .null (fresh : Search Int Int) 2 = .ok o ∧
        o.isSuccess = true := by
    simp [solve, outcome, run, beginRun, reset, fresh, beginPass, Plan.askInitial, Plan.boundAfter,
      Strategy.isIterative, unbounded, Progress.after, advance, turn, isBeyond?_int, isWithin_int,
      pop, record, Plan.askGoal, explode, admits, expand, close, count, pay?, Closed.put_eq_insert,
      enqueue, succeed, conclude, Plan.askRules, Plan.childrenFrom, Frontier.popFront?,
      Frontier.pushBack, Frontier.empty, Frontier.ofList, Node.depth, Node.state, Node.cost,
      Value.toPrice?, Rule.unit, Rule.fixed, Doubling.problem, Doubling.rules, Doubling.within]
  obtain ⟨-, -, hreplays⟩ := replays_of_run ⟨Doubling.problem 1 2 none, .bfs, .batch⟩ fresh 2
  obtain ⟨n, cost, -, hhead, -, hgoals, -, hlength, -, hcost, hpath⟩ :=
    hreplays .null o hsolve hsuccess
  exact ⟨o, hsolve, hsuccess, hhead, hgoals, hlength, cost, hcost, hpath⟩

end Search

end StateSpace
