import StateSpace.Proofs.Queueing

/-!
# Visits

A turn that takes a node which is no goal visits it, whether the turn goes on or is broken off. In
the latter case only some of the children may have been queued. What a pass knows of the nodes it
has seen holds after a visit of either kind.
-/
namespace StateSpace.Search

variable {σ : Type} [DecidableEq σ] [Hashable σ] {plan : Plan σ Int} {s t : Search σ Int}
  {n : Node σ Int} {fault : Fault σ}

/-- The node taken is skipped, or it is expanded and children of it are queued. -/
inductive Visit (plan : Plan σ Int) (s t : Search σ Int) : Prop where
  | skipped (n : Node σ Int) (rest : Frontier (Node σ Int) Int)
      (takes : Takes plan s n rest.toList t) (frontier : t.frontier = rest)
      (closed : t.closed = s.closed) (expanded : t.expanded = s.expanded)
      (expansions : t.expansions = s.expansions)
  | expanded (n : Node σ Int) (rest : Frontier (Node σ Int) Int)
      (takes : Takes plan s n rest.toList t) (within : n.depth ≤ s.depthBound)
      (admitted : s.isAdmitted plan.strategy n = true)
      (waiting : ∀ m ∈ t.frontier.items, m ∈ rest.items ∨ m ∈ plan.problem.offspring n)
      (closed : ∀ x, t.closed[x]? = if n.state = x then some n.cost else s.closed[x]?)
      (expanded : t.expanded = n :: s.expanded)
      (expansions : t.expansions = s.expansions + 1)

theorem Turn.visit (hturn : Turn plan s t) : Visit plan s t := by
  cases hturn with
  | skipped n rest takes _ hfrontier hclosed hexpanded hexpansions =>
      exact .skipped n rest takes hfrontier hclosed hexpanded hexpansions
  | expanded n rest takes hwithin hadmitted _ hqueue hclosed hexpanded hexpansions =>
      refine .expanded n rest takes hwithin hadmitted ?_ hclosed hexpanded hexpansions
      intro m hm
      exact (List.mem_append.mp ((Plan.queue?_perm hqueue).mem_iff.mp hm)).symm

/-! ### Turns that are broken off -/

theorem exists_frontier_of_insertAll {entries : List (Entry (Node σ Int) Int)}
    (hinsert : s.insertAll entries = .broken t fault) :
    ∃ f, t = { s with frontier := f } ∧
      ∀ m ∈ f.items, m ∈ s.frontier.items ∨ m ∈ entries.map (·.item) := by
  induction entries generalizing s with
  | nil => simp [insertAll] at hinsert
  | cons e rest ih =>
      rw [insertAll] at hinsert
      split at hinsert
      · obtain ⟨rfl, -⟩ := Progress.broken.inj hinsert
        exact ⟨s.frontier, rfl, fun m hm => Or.inl hm⟩
      · next g hg =>
        obtain ⟨f, rfl, hitems⟩ := ih hinsert
        refine ⟨f, rfl, fun m hm => ?_⟩
        rw [List.map_cons, List.mem_cons]
        rcases hitems m hm with hold | hnew
        · have hmem := ((Frontier.insertOrdered?_perm hg).map (·.item)).mem_iff.mp hold
          rcases List.mem_cons.mp hmem with rfl | hmem
          · exact Or.inr (Or.inl rfl)
          · exact Or.inl hmem
        · exact Or.inr (Or.inr hnew)

theorem exists_frontier_of_enqueue {nodes : List (Node σ Int)}
    (henqueue : s.enqueue plan nodes = .broken t fault) :
    ∃ f, t = { s with frontier := f, history := (plan.inquiries nodes).reverse ++ s.history } ∧
      ∀ m ∈ f.items, m ∈ s.frontier.items ∨ m ∈ nodes := by
  unfold enqueue at henqueue
  split at henqueue
  · cases henqueue
  · cases henqueue
  · cases henqueue
  all_goals
    simp only [Plan.record_askBatch] at henqueue
    split at henqueue
    · obtain ⟨rfl, -⟩ := Progress.broken.inj henqueue
      exact ⟨s.frontier, rfl, fun m hm => Or.inl hm⟩
    · cases henqueue
    · next entries hbatch _ =>
      obtain ⟨-, rfl⟩ := Plan.askBatch_eq_ok_iff.mp hbatch
      obtain ⟨f, rfl, hitems⟩ := exists_frontier_of_insertAll henqueue
      rw [Plan.items_keyed] at hitems
      refine ⟨f, rfl, fun m hm => ?_⟩
      exact (hitems m hm).imp_right (Plan.ranked_perm nodes).mem_iff.mp

theorem exists_queued_of_expand (hexpand : s.expand plan n = .broken t fault) :
    ∃ allowance f nodes, t = queued plan s n allowance f nodes ∧
      (s.allowance = none → allowance = none) ∧
      ∀ m ∈ f.items, m ∈ s.frontier.items ∨ m ∈ plan.problem.offspring n := by
  rw [expand_eq] at hexpand
  -- Where no children were made, none were evaluated or queued.
  split at hexpand
  · obtain ⟨rfl, -⟩ := Progress.broken.inj hexpand
    exact ⟨s.allowance, s.frontier, [], rfl, id, fun m hm => Or.inl hm⟩
  · next paid hpaid =>
    obtain ⟨allowance, rfl, hnone⟩ := eq_of_pay? hpaid
    split at hexpand
    · obtain ⟨rfl, -⟩ := Progress.broken.inj hexpand
      exact ⟨allowance, s.frontier, [], rfl, hnone, fun m hm => Or.inl hm⟩
    · next nodes hchildren =>
      obtain ⟨-, rfl⟩ := Plan.children_eq_ok_iff.mp hchildren
      obtain ⟨f, rfl, hitems⟩ := exists_frontier_of_enqueue hexpand
      exact ⟨allowance, f, plan.problem.offspring n, rfl, hnone, hitems⟩

theorem visit_of_broken (hturn : s.turn plan = .broken t fault) : Visit plan s t := by
  cases hfront : s.frontier.popFront? with
  | none => simp [turn, hfront] at hturn
  | some pair =>
      obtain ⟨e, rest⟩ := pair
      rw [turn_eq hfront] at hturn
      simp only at hturn
      split at hturn
      · cases hturn
      · next hgoal =>
        have hgoal := Bool.eq_false_iff.mpr hgoal
        split at hturn
        · next hwithin =>
          rw [explode_eq] at hturn
          split at hturn
          · next hadmitted =>
            obtain ⟨allowance, f, nodes, rfl, hnone, hitems⟩ := exists_queued_of_expand hturn
            exact .expanded e.item rest (takes_queued hfront hgoal hnone) hwithin hadmitted hitems
              (getElem?_commit _ e.item) expanded_queued rfl
          · cases hturn
        · cases hturn

/-! ### What a visit leaves -/

theorem Takes.mem_items {rest : List (Entry (Node σ Int) Int)} (takes : Takes plan s n rest t) :
    n ∈ s.frontier.items ∧ ∀ m ∈ rest.map (·.item), m ∈ s.frontier.items := by
  obtain ⟨key, hfront⟩ := takes.front
  rw [Frontier.items_of_front hfront]
  exact ⟨List.mem_cons_self, fun m hm => List.mem_cons_of_mem n hm⟩

theorem Visit.exists_takes (hvisit : Visit plan s t) : ∃ n rest, Takes plan s n rest t := by
  cases hvisit with
  | skipped n rest takes => exact ⟨n, rest.toList, takes⟩
  | expanded n rest takes => exact ⟨n, rest.toList, takes⟩

theorem Visit.exists_taken (hvisit : Visit plan s t) :
    ∃ n rest, Takes plan s n rest t ∧
      ∀ m ∈ t.frontier.items, m ∈ s.frontier.items ∨ m ∈ plan.problem.offspring n := by
  cases hvisit with
  | skipped n rest takes hfrontier =>
      refine ⟨n, rest.toList, takes, fun m hm => Or.inl ?_⟩
      exact takes.mem_items.2 m (hfrontier ▸ hm)
  | expanded n rest takes _ _ hwaiting =>
      exact ⟨n, rest.toList, takes, fun m hm => (hwaiting m hm).imp_left (takes.mem_items.2 m)⟩

/-- A node that waits after a visit waited before it, or is a child of the node that it expanded. -/
theorem Visit.mem_items (hvisit : Visit plan s t) {m : Node σ Int} (hm : m ∈ t.frontier.items) :
    m ∈ s.frontier.items ∨
      ∃ n ∈ s.frontier.items, n ∈ t.expanded ∧ n.depth ≤ s.depthBound ∧
        m ∈ plan.problem.offspring n := by
  cases hvisit with
  | skipped n rest takes hfrontier =>
      rw [hfrontier] at hm
      exact Or.inl (takes.mem_items.2 m hm)
  | expanded n rest takes hwithin _ hwaiting _ hexpanded =>
      rcases hwaiting m hm with hm | hchild
      · exact Or.inl (takes.mem_items.2 m hm)
      · exact Or.inr ⟨n, takes.mem_items.1, hexpanded ▸ List.mem_cons_self, hwithin, hchild⟩

theorem Visit.mem_tested (hvisit : Visit plan s t) {m : Node σ Int} (hm : m ∈ t.tested) :
    m ∈ s.tested ∨ m ∈ s.frontier.items ∧ plan.problem.isGoal m.state = false := by
  obtain ⟨n, rest, takes⟩ := hvisit.exists_takes
  rw [takes.tested] at hm
  rcases List.mem_cons.mp hm with rfl | hm
  · exact Or.inr ⟨takes.mem_items.1, takes.notGoal⟩
  · exact Or.inl hm

theorem Visit.expanded_subset (hvisit : Visit plan s t) : s.expanded ⊆ t.expanded := by
  cases hvisit with
  | skipped n rest takes _ _ hexpanded => exact hexpanded ▸ List.Subset.refl _
  | expanded n rest takes _ _ _ _ hexpanded => exact hexpanded ▸ List.subset_cons_self n _

/-- A visit expands nothing, or the node at the front, which is admitted. -/
theorem Visit.expanded_cases (hvisit : Visit plan s t) :
    t.expanded = s.expanded ∨
      ∃ n key rest, s.frontier.toList = ⟨n, key⟩ :: rest ∧ n.depth ≤ s.depthBound ∧
        s.isAdmitted plan.strategy n = true ∧ t.expanded = n :: s.expanded := by
  cases hvisit with
  | skipped n rest takes _ _ hexpanded => exact Or.inl hexpanded
  | expanded n rest takes hwithin hadmitted _ _ hexpanded =>
      obtain ⟨key, hfront⟩ := takes.front
      exact Or.inr ⟨n, key, rest.toList, hfront, hwithin, hadmitted, hexpanded⟩

end StateSpace.Search
