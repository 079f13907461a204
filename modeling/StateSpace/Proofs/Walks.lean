import StateSpace.Proofs.Consistency
import StateSpace.Proofs.FiniteSpace
import StateSpace.Proofs.Heralds

/-!
# Greedy search walks the whole tree

A node is made by its parent alone, and a parent is expanded once, so that no node is seen twice in
a pass. Greedy search refuses none of them. So a pass that is drained with nothing cut off has
expanded one node for every word that leads somewhere: the words are finitely many, and their number
is that of the expansions. Where no goal is within reach, a run can end in no other way. If the words
are infinitely many, as where some way leads back to a state within reach, it goes on forever.
-/
namespace StateSpace

namespace Problem

/-! ### Walks -/

section Walks

variable {σ κ : Type} {p : Problem σ κ} {s : σ} {word : List Nat} {cost : Nat}

/-- The words that lead somewhere from the initial state. -/
def walks (p : Problem σ κ) : Set (List Nat) :=
  {word | ∃ s cost, p.follow? p.initial word = some (s, cost)}

theorem follow?_flatten_replicate (hword : p.follow? s word = some (s, cost)) (times : Nat) :
    p.follow? s (List.replicate times word).flatten = some (s, times * cost) := by
  induction times with
  | zero => simp
  | succ times ih =>
      rw [List.replicate_succ, List.flatten_cons]
      exact follow?_append_eq_some_iff.mpr ⟨s, cost, times * cost, hword, ih, by ring⟩

/-- A way back to a state within reach can be taken any number of times. -/
theorem infinite_walks_of_cycle (hs : p.Reaches s) (hne : word ≠ [])
    (hword : p.follow? s word = some (s, cost)) : p.walks.Infinite := by
  obtain ⟨front, spent, hfront⟩ := hs
  have hlength : 0 < word.length := List.length_pos_iff.mpr hne
  refine Set.infinite_of_injective_forall_mem
    (f := fun times => front ++ (List.replicate times word).flatten) ?_ ?_
  · intro i j heq
    have hsame := congrArg List.length (List.append_cancel_left heq)
    simp only [List.length_flatten, List.map_replicate, List.sum_replicate_nat] at hsame
    exact Nat.eq_of_mul_eq_mul_right hlength hsame
  · intro times
    exact ⟨s, spent + times * cost, follow?_append_eq_some_iff.mpr
      ⟨s, spent, times * cost, hfront, follow?_flatten_replicate hword times, rfl⟩⟩

end Walks

variable {σ : Type} {p : Problem σ Int} {n m : Node σ Int}

theorem mem_walks_iff {word : List Nat} : word ∈ p.walks ↔ ∃ n, p.Grows n ∧ n.positions = word := by
  constructor
  · rintro ⟨s, cost, hfollow⟩
    obtain ⟨n, hn, hpositions, -, -⟩ := exists_grows_of_follow? hfollow
    exact ⟨n, hn, hpositions⟩
  · rintro ⟨n, hn, rfl⟩
    obtain ⟨cost, -, hfollow⟩ := hn.follow?
    exact ⟨n.state, cost, hfollow⟩

/-- A node of the search tree is known by its word. -/
theorem Grows.eq_of_positions (hn : p.Grows n) (hm : p.Grows m)
    (hpositions : n.positions = m.positions) : n = m := by
  induction hn generalizing m with
  | root =>
      cases hm with
      | root => rfl
      | child hk hchild =>
          rw [positions_of_child? hchild] at hpositions
          simp [Node.positions, Node.move?] at hpositions
  | child hn hchild ih =>
      rw [positions_of_child? hchild] at hpositions
      cases hm with
      | root => simp [Node.positions, Node.move?] at hpositions
      | child hk hchild' =>
          rw [positions_of_child? hchild'] at hpositions
          obtain ⟨hfront, hlast⟩ := List.append_inj' hpositions rfl
          obtain rfl := ih hk hfront
          obtain rfl := List.singleton_inj.mp hlast
          exact Option.some.inj (hchild.symm.trans hchild')

theorem nodup_offspring (p : Problem σ Int) (n : Node σ Int) : (p.offspring n).Nodup := by
  refine (pairwise_offspring p n).imp fun {a b} hsiblings heq => ?_
  obtain ⟨i, j, hlt, ha, hb⟩ := hsiblings
  have hpositions := congrArg Node.positions heq
  rw [positions_of_child? ha, positions_of_child? hb] at hpositions
  have hsame := List.singleton_inj.mp (List.append_cancel_left hpositions)
  omega

end Problem

namespace Search

variable {σ : Type} [DecidableEq σ] [Hashable σ] {plan : Plan σ Int} {bound : Int}
  {start s t : Search σ Int} {n m : Node σ Int}

/-! ### No node is seen twice -/

/-- A child of a node that waits was not seen before. -/
theorem Pass.fresh_of_child (hs : Pass plan bound s)
    (hnodup : (s.tested ++ s.frontier.items).Nodup) (hn : n ∈ s.frontier.items)
    (hm : m ∈ plan.problem.offspring n) : m ∉ s.tested ++ s.frontier.items := by
  intro hseen
  obtain ⟨position, hchild⟩ := Problem.mem_offspring_iff.mp hm
  have hparent : n ∈ m.path.dropLast := by
    rw [Problem.dropLast_path_of_child? hchild]
    exact Problem.mem_path_self n
  -- Its parent would have been expanded, and so would not wait any more.
  have hexpanded : n ∈ s.expanded := by
    rcases List.mem_append.mp hseen with hm | hm
    · exact hs.ancestors_of_tested m hm hparent
    · exact hs.ancestors_expanded m hm hparent
  exact List.disjoint_of_nodup_append hnodup (hs.ledger.expanded n hexpanded).1 hn

theorem Takes.seen_perm {rest : List (Entry (Node σ Int) Int)} (takes : Takes plan s n rest t) :
    (t.tested ++ rest.map (·.item)).Perm (s.tested ++ s.frontier.items) := by
  obtain ⟨key, hfront⟩ := takes.front
  rw [takes.tested, Frontier.items_of_front hfront]
  exact List.perm_middle.symm

theorem Pass.nodup_seen (hs : Pass plan bound s) : (s.tested ++ s.frontier.items).Nodup := by
  induction hs with
  | start s => exact List.nodup_singleton _
  | @turn s t hs hturn ih =>
      cases turn_of_running hturn with
      | skipped n rest takes _ hfrontier =>
          rw [hfrontier]
          exact takes.seen_perm.nodup_iff.mpr ih
      | expanded n rest takes _ _ _ hqueue =>
          have hperm := ((Plan.queue?_perm hqueue).append_left t.tested).trans
            (List.perm_append_comm_assoc _ _ _)
          refine hperm.nodup_iff.mpr (List.Nodup.append (plan.problem.nodup_offspring n)
            (takes.seen_perm.nodup_iff.mpr ih) fun m hm hold => ?_)
          exact hs.fresh_of_child ih takes.mem_items.1 hm (takes.seen_perm.mem_iff.mp hold)

theorem Pass.expanded_sublist (hs : Pass plan bound s) : s.expanded.Sublist s.tested := by
  induction hs with
  | start s => exact List.Sublist.refl _
  | turn hs hturn ih =>
      cases turn_of_running hturn with
      | skipped n rest takes _ _ _ hexpanded =>
          rw [hexpanded, takes.tested]
          exact ih.cons n
      | expanded n rest takes _ _ _ _ _ hexpanded =>
          rw [hexpanded, takes.tested]
          exact ih.cons_cons n

theorem Pass.nodup_positions (hs : Pass plan bound s) : (s.expanded.map Node.positions).Nodup := by
  have hnodup : s.expanded.Nodup :=
    hs.expanded_sublist.nodup (List.Nodup.of_append_left hs.nodup_seen)
  refine List.Nodup.map_on (fun n hn m hm hsame => ?_) hnodup
  have ledger := hs.ledger
  exact (ledger.grows_of_expanded hn).eq_of_positions (ledger.grows_of_expanded hm) hsame

theorem Run.grows_of_popped (hs : Run plan start s) : ∀ n ∈ s.popped, plan.problem.Grows n := by
  induction hs with
  | start =>
      intro n hn
      cases hn
  | turn hs hturn ih =>
      obtain ⟨before, -, hpass⟩ := hs.exists_pass
      obtain ⟨n, rest, takes⟩ := (turn_of_running hturn).exists_takes
      rw [takes.popped]
      exact List.forall_mem_cons.mpr ⟨hpass.ledger.waiting n takes.mem_items.1, ih⟩
  | next hs hturn hopen ih =>
      obtain ⟨-, rfl⟩ := drained_of_open hturn hopen
      exact ih

theorem Moment.grows_of_popped {p : Progress σ Int} (hmoment : Moment plan start p) :
    ∀ n ∈ p.search.popped, plan.problem.Grows n := by
  cases hmoment with
  | running hs => exact hs.grows_of_popped
  | ended hs hturn =>
      cases ends_of_ended hturn with
      | drained hempty hresult =>
          subst hresult
          exact hs.grows_of_popped
      | goal n key rest hfront hgoal hresult =>
          subst hresult
          obtain ⟨before, -, hpass⟩ := hs.exists_pass
          have hn := hpass.ledger.waiting n (Frontier.mem_items_of_front hfront)
          exact List.forall_mem_cons.mpr ⟨hn, hs.grows_of_popped⟩
  | broken hs hturn =>
      obtain ⟨before, -, hpass⟩ := hs.exists_pass
      obtain ⟨n, rest, takes⟩ := (visit_of_broken hturn).exists_takes
      rw [Progress.search, takes.popped]
      exact List.forall_mem_cons.mpr
        ⟨hpass.ledger.waiting n takes.mem_items.1, hs.grows_of_popped⟩

theorem Moment.grows_of_waiting {p : Progress σ Int} (hmoment : Moment plan start p) :
    ∀ n ∈ p.search.frontier.items, plan.problem.Grows n := by
  intro m hm
  cases hmoment with
  | running hs =>
      obtain ⟨before, -, hpass⟩ := hs.exists_pass
      exact hpass.ledger.waiting m hm
  | ended hs hturn =>
      obtain ⟨before, -, hpass⟩ := hs.exists_pass
      cases ends_of_ended hturn with
      | drained hempty hresult =>
          subst hresult
          exact hpass.ledger.waiting m hm
      | goal n key rest hfront hgoal hresult =>
          subst hresult
          apply hpass.ledger.waiting
          rw [Frontier.items_of_front hfront]
          exact List.mem_cons_of_mem n hm
  | broken hs hturn =>
      obtain ⟨before, -, hpass⟩ := hs.exists_pass
      exact (hpass.ledger.visit (visit_of_broken hturn)).waiting m hm

section Greedy

variable (hgreedy : plan.strategy = .greedy)

include hgreedy

/-- A pass that is drained with nothing cut off has expanded one node for every walk. -/
theorem Pass.walks_eq (hs : Pass plan bound s) (hempty : s.frontier.toList = [])
    (hhit : s.boundHit = false) :
    plan.problem.walks = (s.expanded.map Node.positions).toFinset := by
  have ledger := hs.ledger
  ext word
  rw [Problem.mem_walks_iff, Finset.mem_coe, List.mem_toFinset, List.mem_map]
  constructor
  · rintro ⟨n, hn, rfl⟩
    obtain ⟨k, hk, -, rfl⟩ := (hs.covering_eq hgreedy).expands_of_drained
      plan.problem.grading_eq ledger hempty hhit hn
    exact ⟨k, hk, rfl⟩
  · rintro ⟨n, hn, rfl⟩
    exact ⟨n, ledger.grows_of_expanded hn, rfl⟩

theorem Pass.ncard_walks (hs : Pass plan bound s) (hempty : s.frontier.toList = [])
    (hhit : s.boundHit = false) : plan.problem.walks.ncard = s.expanded.length := by
  rw [hs.walks_eq hgreedy hempty hhit, Set.ncard_coe_finset,
    List.toFinset_card_of_nodup hs.nodup_positions, List.length_map]

/-- Where no walk is longer than the unbounded depth, a run is in its first pass. -/
theorem Run.first_of_short (hshort : ∀ word ∈ plan.problem.walks, word.length ≤ unbounded)
    (hs : Run plan start s) : Pass plan unbounded s ∧ Tallied s ∧ s.passes = 1 := by
  have hiterative : plan.strategy.isIterative = false := by
    rw [hgreedy]
    rfl
  obtain ⟨hpass, tallied⟩ := hs.first_pass hiterative fun m hm => by
    have hgrows := hs.grows_of_popped m hm
    rw [← hgrows.length_positions]
    exact hshort m.positions (Problem.mem_walks_iff.mpr ⟨m, hgrows, rfl⟩)
  obtain ⟨before, hpasses, hpass'⟩ := hs.exists_pass
  have hbound : plan.boundAfter before = unbounded :=
    hpass'.ledger.depthBound.symm.trans hpass.ledger.depthBound
  have hbefore : before = 0 := by simpa [Plan.boundAfter, hiterative] using hbound
  exact ⟨hpass, tallied, by rw [hpasses, hbefore]⟩

end Greedy

/-- **Greedy search where no goal is within reach.** If the words that lead somewhere are finitely
many and none is too long, a greedy run fails after one pass, and the number of its expansions is
that of these words. If they are infinitely many, the run is not finished after any number of turns.
They are if some way leads from a state within reach back to it. -/
theorem greedy_of_goalless (hgreedy : plan.strategy = .greedy) (hallowance : start.allowance = none)
    (hpriced : plan.problem.IsPriced) (hestimated : plan.problem.IsEstimated)
    (hgoalless : ∀ x, plan.problem.Reaches x → plan.problem.isGoal x = false) :
    (plan.problem.walks.Finite → (∀ word ∈ plan.problem.walks, word.length ≤ unbounded) →
      ∃ turns t, start.run plan turns = .ended t ∧ t.isFailed = true ∧ t.solution = none ∧
        t.passes = 1 ∧ t.expansions = plan.problem.walks.ncard) ∧
    (plan.problem.walks.Infinite →
      ∀ turns, ∃ s, start.run plan turns = .running s ∧ s.isFinished = false) ∧
    ∀ x word cost, plan.problem.Reaches x → word ≠ [] →
      plan.problem.follow? x word = some (x, cost) → plan.problem.walks.Infinite := by
  have hunbroken : Unbroken plan start := unbroken_of_estimated hallowance hpriced hestimated
  have hwaiting : ∀ s, Run plan start s → ∀ n ∈ s.frontier.items,
      plan.problem.isGoal n.state = false := by
    intro s hs n hn
    obtain ⟨before, -, hpass⟩ := hs.exists_pass
    exact hgoalless n.state (hpass.ledger.waiting n hn).reaches
  refine ⟨?_, ?_, fun x word cost hx hne hword => Problem.infinite_walks_of_cycle hx hne hword⟩
  · intro _ hshort
    obtain ⟨s, t, hs, hturn, hfinished⟩ := Run.start.exists_verdict
      (fun s hs => (hs.first_of_short hgreedy hshort).2.2.le) hunbroken
    obtain ⟨turns, hrun⟩ := hs.exists_ended hturn hfinished
    obtain ⟨hpass, tallied, hpasses⟩ := hs.first_of_short hgreedy hshort
    cases ends_of_ended hturn with
    | drained hempty hresult =>
        subst hresult
        rw [hs.drain_verdict.1, Bool.not_eq_true'] at hfinished
        have hfailed : s.drain.isFailed = true := by rw [hs.drain_verdict.2, hfinished]; rfl
        refine ⟨turns, _, hrun, hfailed, hs.no_verdict.1, hpasses, ?_⟩
        rw [hpass.ncard_walks hgreedy hempty hfinished]
        exact tallied.expansions
    | goal n key rest hfront hgoal hresult =>
        rw [hwaiting s hs n (Frontier.mem_items_of_front hfront)] at hgoal
        cases hgoal
  · intro hinfinite turns
    have hhit : ∀ s, Run plan start s → s.frontier.toList = [] → s.boundHit = true := by
      intro s hs hempty
      by_contra huncut
      obtain ⟨before, -, hpass⟩ := hs.exists_pass
      rw [hpass.walks_eq hgreedy hempty (Bool.eq_false_iff.mpr huncut)] at hinfinite
      exact hinfinite (Finset.finite_toSet _)
    obtain ⟨s, hrun⟩ := running_of_boundHit hunbroken hhit hwaiting turns
    have hmoment := moment_run plan start turns
    rw [hrun] at hmoment
    cases hmoment with
    | running hs => exact ⟨s, hrun, hs.no_verdict.2.1⟩

/-- From 1 only a doubling leads on, to 2, and nothing leads on from there. -/
theorem walks_evens : (Doubling.evens 1 5 2).walks = {[], [1]} := by
  have hdead : ∀ position, (Doubling.evens 1 5 2).step? 2 position = none := by
    rintro (_ | _ | position) <;> rfl
  ext word
  constructor
  · rintro ⟨s, cost, hfollow⟩
    match word with
    | [] => exact Or.inl rfl
    | [0] => cases hfollow
    | [1] => exact Or.inr rfl
    | [i + 2] => cases hfollow
    | i :: j :: word =>
        obtain ⟨t, price, rest, hstep, hrest, -⟩ := Problem.follow?_cons_eq_some_iff.mp hfollow
        obtain ⟨u, price', rest', hstep', -⟩ := Problem.follow?_cons_eq_some_iff.mp hrest
        match i with
        | 0 => cases hstep
        | 1 =>
            obtain ⟨rfl, -⟩ := Prod.mk.inj (Option.some.inj hstep)
            cases (hdead j).symm.trans hstep'
        | i + 2 => cases hstep
  · rintro (rfl | rfl)
    · exact ⟨1, 0, rfl⟩
    · exact ⟨2, 1, rfl⟩

theorem greedy_evens_seesaw :
    (∃ turns t, (fresh : Search Int Int).run ⟨Doubling.evens 1 5 2, .greedy, .batch⟩ turns =
      .ended t ∧ t.isFailed = true ∧ t.passes = 1 ∧ t.expansions = 2) ∧
    ∀ turns, ∃ s, (fresh : Search Bool Int).run ⟨seesaw, .greedy, .global⟩ turns = .running s ∧
      s.isFinished = false := by
  constructor
  · have hprice : (Doubling.evens 1 5 2).HasPrice 1 := Problem.hasPrice_of_evenRules rfl
    have hgoalless : ∀ x, (Doubling.evens 1 5 2).Reaches x →
        (Doubling.evens 1 5 2).isGoal x = false := by
      rintro x ⟨word, cost, hfollow⟩
      have hword : word ∈ (Doubling.evens 1 5 2).walks := ⟨x, cost, hfollow⟩
      rw [walks_evens] at hword
      rcases hword with rfl | rfl
      · cases hfollow
        rfl
      · cases hfollow
        rfl
    have hfinite : (Doubling.evens 1 5 2).walks.Finite := by
      rw [walks_evens]
      exact Set.toFinite _
    have hshort : ∀ word ∈ (Doubling.evens 1 5 2).walks, word.length ≤ unbounded := by
      rw [walks_evens]
      rintro word (rfl | rfl) <;> decide
    obtain ⟨turns, t, hrun, hfailed, -, hpasses, hexpansions⟩ :=
      (@greedy_of_goalless Int _ _ ⟨Doubling.evens 1 5 2, .greedy, .batch⟩ fresh rfl rfl
        hprice.isPriced (fun _ _ => ⟨_, rfl⟩) hgoalless).1 hfinite hshort
    rw [walks_evens, Set.ncard_pair (by decide)] at hexpansions
    exact ⟨turns, t, hrun, hfailed, hpasses, hexpansions⟩
  · have hpriced : seesaw.IsPriced := by
      refine Problem.isPriced_of_fixed fun rule hrule => ?_
      rw [List.mem_singleton.mp hrule]
      exact ⟨"turn", _, 0, rfl⟩
    have hgoalless : ∀ x, seesaw.Reaches x → seesaw.isGoal x = false := fun _ _ => rfl
    obtain ⟨-, hendless, hcycle⟩ :=
      @greedy_of_goalless Bool _ _ ⟨seesaw, .greedy, .global⟩ fresh rfl rfl hpriced
        (fun _ _ => ⟨_, rfl⟩) hgoalless
    exact hendless (hcycle false [0, 0] 0 ⟨[], 0, rfl⟩ (by decide) rfl)

end Search

end StateSpace
