import StateSpace.Proofs.Termination

/-!
# Solutions under a batch ordering

Under a batch ordering an informed strategy sorts the children of one node and queues them behind
all that waits. So estimates only permute siblings: nodes are taken level by level, and a node is
refused only where its state was expanded no deeper. The solution has as few steps as possible,
whatever the estimates and the costs are.
-/
namespace StateSpace

theorem Problem.grading_depth {σ : Type} (p : Problem σ Int) :
    p.Grading fun a b => a.depth ≤ b.depth where
  refl n := le_refl n.depth
  trans := le_trans
  child := by
    intro a b a' b' position _ _ _ hle ha hb
    rw [depth_of_child? ha, depth_of_child? hb]
    exact Nat.succ_le_succ hle

theorem Plan.queue?_batch {σ : Type} {plan : Plan σ Int} {f f' : Frontier (Node σ Int) Int}
    {nodes : List (Node σ Int)} (hinformed : plan.strategy = .astar ∨ plan.strategy = .greedy)
    (hdiscipline : plan.discipline = .batch) (hqueue : plan.queue? f nodes = some f') :
    f'.items = f.items ++ plan.ranked nodes := by
  obtain ⟨-, harrange⟩ := (queue?_informed hinformed).mp hqueue
  rw [arrange?, hdiscipline] at harrange
  obtain rfl := Option.some.inj harrange
  rw [Frontier.items, Frontier.toList_foldl_pushBack, List.map_append, items_keyed]
  rfl

theorem Plan.depth_of_mem_ranked {σ : Type} {plan : Plan σ Int} {n m : Node σ Int}
    (hm : m ∈ plan.ranked (plan.problem.offspring n)) : m.depth = n.depth + 1 := by
  obtain ⟨position, hchild⟩ := Problem.mem_offspring_iff.mp ((ranked_perm _).mem_iff.mp hm)
  exact Problem.depth_of_child? hchild

namespace Search

variable {σ : Type} [DecidableEq σ] [Hashable σ] {plan : Plan σ Int} {bound : Int}
  {start s t : Search σ Int} {n m : Node σ Int}

/-- Nodes wait in the order of their depths, behind all that were taken, and on two levels at
most. -/
structure Levelled (s : Search σ Int) : Prop where
  tested : ∀ n ∈ s.tested, ∀ m ∈ s.frontier.items, n.depth ≤ m.depth
  waiting : s.frontier.items.Pairwise fun a b => a.depth ≤ b.depth
  band : ∀ n ∈ s.frontier.items, ∀ m ∈ s.frontier.items, m.depth ≤ n.depth + 1

theorem levelled_beginPass (plan : Plan σ Int) (bound : Int) (s : Search σ Int) :
    Levelled (s.beginPass plan bound) where
  tested := by
    intro n hn
    cases hn
  waiting := List.pairwise_singleton _ _
  band := by
    intro n hn m hm
    rw [items_beginPass hn, items_beginPass hm]
    exact Nat.le_succ _

section Takes

variable {rest : List (Entry (Node σ Int) Int)} (levelled : Levelled s)
  (takes : Takes plan s n rest t)

include levelled takes

theorem Levelled.depth_le_rest : ∀ m ∈ rest.map (·.item), n.depth ≤ m.depth := by
  obtain ⟨key, hfront⟩ := takes.front
  exact (Frontier.pairwise_of_front hfront levelled.waiting).1

theorem Levelled.pairwise_rest :
    (rest.map (·.item)).Pairwise fun a b => a.depth ≤ b.depth := by
  obtain ⟨key, hfront⟩ := takes.front
  exact (Frontier.pairwise_of_front hfront levelled.waiting).2

theorem Levelled.tested_le_rest :
    ∀ k ∈ t.tested, k.depth ≤ n.depth ∧ ∀ m ∈ rest.map (·.item), k.depth ≤ m.depth := by
  intro k hk
  rw [takes.tested] at hk
  rcases List.mem_cons.mp hk with rfl | hk
  · exact ⟨le_refl _, levelled.depth_le_rest takes⟩
  · have hkn := levelled.tested k hk n takes.mem_items.1
    exact ⟨hkn, fun m hm => hkn.trans (levelled.depth_le_rest takes m hm)⟩

end Takes

section Batch

variable (hinformed : plan.strategy = .astar ∨ plan.strategy = .greedy)
  (hdiscipline : plan.discipline = .batch)

include hinformed hdiscipline

theorem Levelled.turn (levelled : Levelled s) (hturn : Turn plan s t) : Levelled t := by
  cases hturn with
  | skipped n rest takes _ hfrontier =>
      refine ⟨?_, ?_, ?_⟩
      · rw [hfrontier]
        exact fun k hk => (levelled.tested_le_rest takes k hk).2
      · rw [hfrontier]
        exact levelled.pairwise_rest takes
      · rw [hfrontier]
        intro a ha b hb
        exact levelled.band a (takes.mem_items.2 a ha) b (takes.mem_items.2 b hb)
  | expanded n rest takes _ _ _ hqueue =>
      have hitems := Plan.queue?_batch hinformed hdiscipline hqueue
      have hfirst := levelled.depth_le_rest takes
      have hlast : ∀ m ∈ rest.items, m.depth ≤ n.depth + 1 := fun m hm =>
        levelled.band n takes.mem_items.1 m (takes.mem_items.2 m hm)
      have hchildren : ∀ m ∈ plan.ranked (plan.problem.offspring n), m.depth = n.depth + 1 :=
        fun m hm => Plan.depth_of_mem_ranked hm
      refine ⟨?_, ?_, ?_⟩
      · intro k hk m hm
        obtain ⟨hkn, hkrest⟩ := levelled.tested_le_rest takes k hk
        rw [hitems] at hm
        rcases List.mem_append.mp hm with hm | hm
        · exact hkrest m hm
        · rw [hchildren m hm]
          exact hkn.trans (Nat.le_succ _)
      · rw [hitems, List.pairwise_append]
        refine ⟨levelled.pairwise_rest takes, ?_, ?_⟩
        · refine List.pairwise_of_forall_mem_list fun a ha b hb => ?_
          rw [hchildren a ha, hchildren b hb]
        · intro a ha b hb
          rw [hchildren b hb]
          exact hlast a ha
      · -- All that waits lies on the level of the node taken or on the next one.
        have hlevel : ∀ m ∈ t.frontier.items, n.depth ≤ m.depth ∧ m.depth ≤ n.depth + 1 := by
          intro m hm
          rw [hitems] at hm
          rcases List.mem_append.mp hm with hm | hm
          · exact ⟨hfirst m hm, hlast m hm⟩
          · rw [hchildren m hm]
            exact ⟨Nat.le_succ _, le_refl _⟩
        intro a ha b hb
        exact (hlevel b hb).2.trans (Nat.succ_le_succ (hlevel a ha).1)

theorem Pass.levelled (hs : Pass plan bound s) : Levelled s := by
  induction hs with
  | start s => exact levelled_beginPass plan bound s
  | turn hs hturn ih => exact ih.turn hinformed hdiscipline (turn_of_running hturn)

/-- A node is refused only where its state was expanded no deeper. -/
theorem Pass.covering_depth (hs : Pass plan bound s) :
    Covering plan (fun a b => a.depth ≤ b.depth) s := by
  refine hs.covering plan.problem.grading_depth fun u hu k hk hrefused => ?_
  obtain ⟨g, hg, hstate, -⟩ := hu.exists_expanded_of_refused hrefused
  have hgtested := (hu.ledger.expanded g hg).1
  exact ⟨g, hg, hstate, (hu.levelled hinformed hdiscipline).tested g hgtested k hk⟩

/-- No goal has fewer steps than the node at the front. -/
theorem Pass.front_depth_le (hbound : 0 ≤ bound) (hs : Pass plan bound s) {key : Option Int}
    {rest : List (Entry (Node σ Int) Int)} (hfront : s.frontier.toList = ⟨n, key⟩ :: rest)
    (hm : plan.problem.Grows m) (hgoal : plan.problem.isGoal m.state = true) :
    n.depth ≤ m.depth := by
  have ledger := hs.ledger
  have hn := Frontier.mem_items_of_front hfront
  have hfirst : ∀ k ∈ s.frontier.items, n.depth ≤ k.depth := by
    intro k hk
    have hlevels := (hs.levelled hinformed hdiscipline).waiting
    rcases Frontier.eq_or_of_front hfront hlevels k hk with rfl | hlater
    · exact le_refl _
    · exact hlater
  obtain ⟨a, hagrows, word, cost, hpositions, -, -, hlater⟩ :=
    (hs.covering_depth hinformed hdiscipline).walk_of_goal plan.problem.grading_depth ledger hm
      hgoal
  have hlength := hm.depth_eq_add hagrows hpositions
  rcases hlater with ⟨k, hk, -, hle⟩ | ⟨⟨k, hk, hbeyond, -, hle⟩, hword⟩
  · calc n.depth ≤ k.depth := hfirst k hk
      _ ≤ a.depth := hle
      _ ≤ m.depth := by omega
  · have hdepth := (hs.depth_le hbound).1 n hn
    have hpos := List.length_pos_iff.mpr hword
    rw [ledger.depthBound] at hbeyond
    omega

/-- **Fewest steps under a batch ordering.** Where some word solves the problem, a run of an
informed strategy under a batch ordering ends with a solution, and no word that solves the problem
is shorter. Where all rules ask the same price, none costs less either. -/
theorem exists_shortest_of_batch (hallowance : start.allowance = none)
    (hpriced : plan.problem.IsPriced) (hestimated : plan.problem.IsEstimated)
    (hsolvable : ∃ word cost, plan.problem.Solves word cost) :
    ∃ turns t n, start.run plan turns = .ended t ∧ t.isFailed = false ∧ t.solution = some n ∧
      (∃ cost : Nat, n.cost = cost ∧ plan.problem.Solves n.positions cost) ∧
      IsLeast {length | ∃ word cost, plan.problem.Solves word cost ∧ word.length = length}
        n.depth ∧
      ∀ price, plan.problem.HasPrice price →
        ∀ word cost, plan.problem.Solves word cost → n.cost ≤ cost := by
  have hunbroken := unbroken_of_estimated hallowance hpriced hestimated
  have hdrained : ∀ s, Run plan start s → s.frontier.toList = [] → ∀ m, plan.problem.Grows m →
      plan.problem.isGoal m.state = true → s.passes < m.depth := by
    intro s hs hempty m hm hgoal
    obtain ⟨before, -, hpass⟩ := hs.exists_pass
    exact hs.passes_lt_depth plan.problem.grading_depth (fun _ _ _ _ hle => hle)
      (hpass.covering_depth hinformed hdiscipline) hempty hm hgoal
  obtain ⟨s, n, key, rest, turns, hs, hfront, hgoal, hrun⟩ :=
    exists_solution hdrained hunbroken hsolvable
  obtain ⟨before, -, hpass⟩ := hs.exists_pass
  have hbound : 0 ≤ plan.boundAfter before :=
    (Int.natCast_nonneg before).trans (plan.le_boundAfter before)
  have hgrows := hpass.ledger.waiting n (Frontier.mem_items_of_front hfront)
  obtain ⟨cost, hcost, hfollow⟩ := hgrows.follow?
  have hsolves : plan.problem.Solves n.positions cost := ⟨n.state, hfollow, hgoal⟩
  refine ⟨turns, _, n, hrun, hs.no_verdict.2.2, rfl, ⟨cost, hcost, hsolves⟩, ⟨?_, ?_⟩, ?_⟩
  · exact ⟨n.positions, cost, hsolves, hgrows.length_positions⟩
  · rintro length ⟨word, cost, ⟨goal, hfollow, hsolved⟩, rfl⟩
    obtain ⟨m, hm, rfl, rfl, -⟩ := Problem.exists_grows_of_follow? hfollow
    rw [hm.length_positions]
    exact hpass.front_depth_le hinformed hdiscipline hbound hfront hm hsolved
  · rintro price hprice word cost ⟨goal, hfollow, hsolved⟩
    obtain ⟨m, hm, rfl, rfl, hmcost⟩ := Problem.exists_grows_of_follow? hfollow
    have hle := hpass.front_depth_le hinformed hdiscipline hbound hfront hm hsolved
    calc n.cost = price * n.depth := hgrows.cost_eq hprice
      _ ≤ price * m.depth := by exact_mod_cast Nat.mul_le_mul_left price hle
      _ = m.cost := (hm.cost_eq hprice).symm
      _ = cost := hmcost

end Batch

/-- From 1 to 4 by steps of one and doublings, among all numbers, by the doublings that are left. -/
theorem exists_shortest_doubling :
    ∃ turns t n, (fresh : Search Int Int).run ⟨Doubling.problem 1 4 none, .greedy, .batch⟩ turns =
        .ended t ∧ t.solution = some n ∧
      IsLeast {length | ∃ word cost, (Doubling.problem 1 4 none).Solves word cost ∧
        word.length = length} n.depth ∧
      n.cost ≤ 2 := by
  have hprice := Problem.hasPrice_doubling 1 4 none
  have hestimated : (Doubling.problem 1 4 none).IsEstimated := fun s _ => ⟨_, rfl⟩
  have hdouble : (Doubling.problem 1 4 none).Solves [1, 1] 2 := ⟨4, rfl, rfl⟩
  obtain ⟨turns, t, n, hrun, -, hsolution, -, hshortest, hcheapest⟩ :=
    @exists_shortest_of_batch Int _ _ ⟨Doubling.problem 1 4 none, .greedy, .batch⟩ fresh
      (Or.inr rfl) rfl rfl hprice.isPriced hestimated ⟨[1, 1], 2, hdouble⟩
  exact ⟨turns, t, n, hrun, hsolution, hshortest, hcheapest 1 hprice [1, 1] 2 hdouble⟩

end Search

end StateSpace
