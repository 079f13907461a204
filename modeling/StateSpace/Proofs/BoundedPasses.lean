import StateSpace.Proofs.FiniteSpace
import Mathlib.Algebra.BigOperators.Ring.Finset

/-!
# What a bounded pass may cost

Within its bound a pass takes its nodes from one tree, in which every node has at most one child for
each rule. The nodes that were taken, together with the largest trees that may grow from those that
wait, are never more than the whole tree holds: a node that is taken leaves room for one tree less,
and its children need less than it did, at whatever place they are queued. The tree has one level
more than the bound, since children of nodes at the bound are made and looked at, but not expanded.
-/
namespace StateSpace

open scoped BigOperators

theorem treeSize_eq_sum (children height : Nat) :
    treeSize children height = ∑ level ∈ Finset.range (height + 1), children ^ level := by
  induction height with
  | zero => simp [treeSize]
  | succ height ih =>
      calc treeSize children (height + 1) =
            1 + ∑ level ∈ Finset.range (height + 1), children ^ (level + 1) := by
            rw [treeSize, ih, Finset.mul_sum]
            simp only [pow_succ']
        _ = ∑ level ∈ Finset.range (height + 1 + 1), children ^ level := by
            rw [Finset.sum_range_succ' _ (height + 1), pow_zero, Nat.add_comm]

namespace Search

variable {σ : Type} [DecidableEq σ] [Hashable σ] {plan : Plan σ Int} {bound : Int}
  {start s t : Search σ Int} {n : Node σ Int}

/-! ### How many nodes are taken -/

theorem load_pos_of_front {key : Option Int} {rest : List (Entry (Node σ Int) Int)}
    (hfront : s.frontier.toList = ⟨n, key⟩ :: rest) : 0 < load plan s := by
  rw [load, Frontier.items_of_front hfront, List.map_cons, List.sum_cons]
  exact Nat.add_pos_left (treeSize_pos _ _) _

/-- The nodes taken and the trees that may still grow are no more than one tree holds. -/
theorem Pass.tested_add_load_le (hs : Pass plan bound s) :
    s.tested.length + load plan s ≤
      treeSize plan.problem.rules.length (bound + 1).toNat := by
  induction hs with
  | start s =>
      have hitems : (s.beginPass plan bound).frontier.items = [.root plan.problem.initial 0] := rfl
      have htested : (s.beginPass plan bound).tested = [] := rfl
      have hbound : (s.beginPass plan bound).depthBound = bound := rfl
      rw [htested, load, hitems, hbound]
      simp [Plan.shade, Node.depth]
  | turn hs hturn ih =>
      have htaken := turn_of_running hturn
      obtain ⟨n, rest, takes⟩ := htaken.exists_takes
      have hless := htaken.load_lt
      rw [takes.tested, List.length_cons]
      omega

theorem Stage.length_tested_le {p : Progress σ Int} (hstage : Stage plan bound p) :
    p.search.tested.length ≤ treeSize plan.problem.rules.length (bound + 1).toNat := by
  cases hstage with
  | running hs => exact (Nat.le_add_right _ _).trans hs.tested_add_load_le
  | @ended s t hs hturn =>
      have hsize := hs.tested_add_load_le
      cases ends_of_ended hturn with
      | drained hempty hresult =>
          subst hresult
          exact (Nat.le_add_right _ _).trans hsize
      | goal n key rest hfront hgoal hresult =>
          subst hresult
          have hpos : 0 < load plan s := load_pos_of_front hfront
          show s.tested.length + 1 ≤ _
          omega
  | @broken s t fault hs hturn =>
      have hsize := hs.tested_add_load_le
      obtain ⟨n, rest, takes⟩ := (visit_of_broken hturn).exists_takes
      obtain ⟨key, hfront⟩ := takes.front
      have hpos : 0 < load plan s := load_pos_of_front hfront
      rw [Progress.search, takes.tested, List.length_cons]
      omega

/-! ### How deep nodes are made -/

theorem Stage.depth_le_of_expanded {p : Progress σ Int} (hstage : Stage plan bound p) :
    ∀ n ∈ p.search.expanded, (n.depth : Int) ≤ bound := by
  refine hstage.expanded_induction (P := fun nodes => ∀ n ∈ nodes, (n.depth : Int) ≤ bound)
    (by simp) fun u n key rest hu hexpanded _ hwithin _ => ?_
  exact List.forall_mem_cons.mpr ⟨hu.ledger.depthBound ▸ hwithin, hexpanded⟩

theorem Stage.depth_le_of_made (hbound : 0 ≤ bound) {p : Progress σ Int}
    (hstage : Stage plan bound p) : ∀ n ∈ made plan p.search, (n.depth : Int) ≤ bound + 1 := by
  intro n hn
  rcases List.mem_cons.mp hn with rfl | hn
  · rw [Node.depth]
    omega
  · obtain ⟨m, hm, hn⟩ := List.mem_flatMap.mp hn
    obtain ⟨position, hchild⟩ := Problem.mem_offspring_iff.mp hn
    have hwithin := hstage.depth_le_of_expanded m (List.mem_reverse.mp hm)
    rw [Problem.depth_of_child? hchild]
    push_cast
    omega

/-! ### The end of a bounded pass -/

/-- **Every bounded pass ends.** Whatever the strategy, the order of the frontier and the search that
the pass sets out from, it never takes more nodes than a tree holds in which every node has one child
for each rule and which is one level higher than the bound, and it makes no node below that level.
Where expansions are not counted, rules are priced and states are estimated, it ends, with one turn
more than it took nodes at most. -/
theorem ended_of_bounded_pass (plan : Plan σ Int) (start : Search σ Int) (bound : Nat) :
    let size := ∑ level ∈ Finset.range (bound + 2), plan.problem.rules.length ^ level
    (∀ turns, (start.explore plan bound turns).search.tested.length ≤ size ∧
      ∀ n ∈ made plan (start.explore plan bound turns).search, n.depth ≤ bound + 1) ∧
    (start.allowance = none → plan.problem.IsPriced → plan.problem.IsEstimated →
      ∃ t, start.explore plan bound (size + 1) = .ended t) := by
  intro size
  have hsize : treeSize plan.problem.rules.length ((bound : Int) + 1).toNat = size :=
    treeSize_eq_sum _ (bound + 1)
  constructor
  · intro turns
    have hstage := stage_explore plan bound start turns
    refine ⟨hsize ▸ hstage.length_tested_le, fun n hn => ?_⟩
    have hdepth := hstage.depth_le_of_made (Int.natCast_nonneg bound) n hn
    omega
  · intro hallowance hpriced hestimated
    have hstart : Pass plan bound (start.beginPass plan bound) := .start start
    have hload := hstart.tested_add_load_le
    refine hstart.ended_of_load_lt hpriced (fun s hs e rest => hs.exists_queue hestimated)
      hallowance ?_
    omega

/-- Without an admission test a pass goes round in a circle, and takes one node at each level. -/
theorem ended_of_bounded_seesaw :
    (fresh : Search Bool Int).allowance = none ∧ seesaw.IsPriced ∧ seesaw.IsEstimated ∧
      ∃ t, (fresh : Search Bool Int).explore ⟨seesaw, .greedy, .global⟩ (3 : Nat) 6 = .ended t ∧
        t.tested.length ≤ 5 ∧ ∀ n ∈ made ⟨seesaw, .greedy, .global⟩ t, n.depth ≤ 4 := by
  have hpriced : seesaw.IsPriced := by
    refine Problem.isPriced_of_fixed fun rule hrule => ?_
    rw [List.mem_singleton.mp hrule]
    exact ⟨"turn", _, 0, rfl⟩
  have hestimated : seesaw.IsEstimated := fun _ _ => ⟨_, rfl⟩
  obtain ⟨hwithin, hends⟩ := ended_of_bounded_pass ⟨seesaw, .greedy, .global⟩ fresh 3
  obtain ⟨t, ht⟩ := hends rfl hpriced hestimated
  have hfive : ∑ level ∈ Finset.range (3 + 2), seesaw.rules.length ^ level = 5 := by decide
  rw [hfive] at ht
  have ⟨hsize, hdepth⟩ := hwithin 6
  rw [ht, hfive] at hsize
  rw [ht] at hdepth
  exact ⟨rfl, hpriced, hestimated, t, ht, hsize, hdepth⟩

end Search

end StateSpace
