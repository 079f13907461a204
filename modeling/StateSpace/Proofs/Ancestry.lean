import StateSpace.Proofs.Exhaustion
import Mathlib.Data.Set.Card

/-!
# Ancestors

Every proper ancestor of a node that waits was expanded in the same pass, and closed at a cost that
is no higher. So where there is an admission test, no node is expanded whose state stands on its own
path already, and on finitely many states paths are short.
-/
namespace StateSpace

namespace Node

variable {σ κ : Type}

theorem path_eq_concat (n : Node σ κ) : n.path = n.path.dropLast ++ [n] := by
  cases n with
  | root s c => rfl
  | child parent via s c => simp

theorem length_dropLast_path (n : Node σ κ) : n.path.dropLast.length = n.depth := by
  rw [List.length_dropLast, n.length_path, Nat.add_sub_cancel]

theorem nodup_states_iff (n : Node σ κ) :
    n.states.Nodup ↔
      (∀ a ∈ n.path.dropLast, a.state ≠ n.state) ∧ (n.path.dropLast.map state).Nodup := by
  have hstates : n.states = (n.path.dropLast.map state).concat n.state := by
    rw [states, n.path_eq_concat, List.map_append, List.map_singleton, List.concat_eq_append,
      List.dropLast_concat]
  rw [hstates, List.nodup_concat]
  simp only [List.mem_map, not_exists, not_and, ne_eq]

theorem path_prefix_of_mem {n m : Node σ κ} (hn : n ∈ m.path) : n.path <+: m.path := by
  induction m with
  | root s c =>
      obtain rfl := List.mem_singleton.mp hn
      exact List.prefix_refl _
  | child parent via s c ih =>
      rw [path_child, List.mem_append, List.mem_singleton] at hn
      rcases hn with hn | rfl
      · rw [path_child]
        exact (ih hn).trans (List.prefix_append _ _)
      · exact List.prefix_refl _

theorem depth_le_of_mem_path {n a : Node σ κ} (ha : a ∈ n.path) : a.depth ≤ n.depth := by
  have hlength := (path_prefix_of_mem ha).length_le
  rw [a.length_path, n.length_path] at hlength
  exact Nat.le_of_succ_le_succ hlength

end Node

theorem Problem.dropLast_path_of_child? {σ : Type} {p : Problem σ Int} {n m : Node σ Int}
    {position : Nat} (hchild : p.child? n position = some m) : m.path.dropLast = n.path := by
  rw [path_of_child? hchild, List.dropLast_concat]

namespace Search

variable {σ : Type} [DecidableEq σ] [Hashable σ] {plan : Plan σ Int} {bound : Int}
  {s t : Search σ Int} {n m : Node σ Int}

theorem Visit.ancestors_expanded (hvisit : Visit plan s t)
    (hancestors : ∀ n ∈ s.frontier.items, n.path.dropLast ⊆ s.expanded) :
    ∀ n ∈ t.frontier.items, n.path.dropLast ⊆ t.expanded := by
  intro m hm
  rcases hvisit.mem_items hm with hm | ⟨n, hn, hexpanded, -, hchild⟩
  · exact List.Subset.trans (hancestors m hm) hvisit.expanded_subset
  · obtain ⟨position, hchild⟩ := Problem.mem_offspring_iff.mp hchild
    have hold := List.Subset.trans (hancestors n hn) hvisit.expanded_subset
    rw [Problem.dropLast_path_of_child? hchild, n.path_eq_concat]
    exact List.append_subset.mpr ⟨hold, List.cons_subset.mpr ⟨hexpanded, List.nil_subset _⟩⟩

theorem Pass.ancestors_expanded (hs : Pass plan bound s) :
    ∀ n ∈ s.frontier.items, n.path.dropLast ⊆ s.expanded := by
  induction hs with
  | start s =>
      intro n hn
      rw [items_beginPass hn]
      exact List.nil_subset _
  | turn hs hturn ih => exact (turn_of_running hturn).visit.ancestors_expanded ih

theorem Pass.ancestors_of_tested (hs : Pass plan bound s) :
    ∀ n ∈ s.tested, n.path.dropLast ⊆ s.expanded := by
  induction hs with
  | start s =>
      intro n hn
      cases hn
  | turn hs hturn ih =>
      have hvisit := (turn_of_running hturn).visit
      intro n hn
      rcases hvisit.mem_tested hn with hn | ⟨hn, -⟩
      · exact List.Subset.trans (ih n hn) hvisit.expanded_subset
      · exact List.Subset.trans (hs.ancestors_expanded n hn) hvisit.expanded_subset

/-- What holds of all nodes that wait at some time in a pass holds of those that were taken. -/
theorem Pass.forall_tested {P : Node σ Int → Prop}
    (hwaiting : ∀ u, Pass plan bound u → ∀ n ∈ u.frontier.items, P n) (hs : Pass plan bound s) :
    ∀ n ∈ s.tested, P n := by
  induction hs with
  | start s =>
      intro n hn
      cases hn
  | turn hs hturn ih =>
      intro n hn
      rcases (turn_of_running hturn).visit.mem_tested hn with hn | ⟨hn, -⟩
      · exact ih n hn
      · exact hwaiting _ hs n hn

/-! ### Paths without repetition -/

section Admission

variable (hgreedy : plan.strategy ≠ .greedy)

include hgreedy

theorem Pass.ne_of_admitted (hs : Pass plan bound s) (hn : n ∈ s.frontier.items)
    (hadmitted : s.isAdmitted plan.strategy n = true) (hm : m ∈ n.path.dropLast) :
    m.state ≠ n.state := by
  intro hstate
  have hexpanded := hs.ancestors_expanded n hn hm
  have hlt := hs.cost_lt_of_admitted hgreedy hadmitted hexpanded hstate
  obtain ⟨-, word, cost, -, hcost, -⟩ :=
    (hs.ledger.waiting n hn).of_mem_path (List.dropLast_subset _ hm)
  omega

/-- The proper ancestors of a node that waits have different states. -/
theorem Pass.nodup_ancestors (hs : Pass plan bound s) :
    ∀ n ∈ s.frontier.items, (n.path.dropLast.map Node.state).Nodup := by
  induction hs with
  | start s =>
      intro n hn
      rw [items_beginPass hn]
      exact List.nodup_nil
  | turn hs hturn ih =>
      intro m hm
      cases turn_of_running hturn with
      | skipped n rest takes _ hfrontier =>
          rw [hfrontier] at hm
          exact ih m (takes.mem_items.2 m hm)
      | expanded n rest takes _ hadmitted _ hqueue =>
          have hn := takes.mem_items.1
          rcases List.mem_append.mp ((Plan.queue?_perm hqueue).mem_iff.mp hm) with hchild | hm
          · obtain ⟨position, hchild⟩ := Problem.mem_offspring_iff.mp hchild
            have hfirst : ∀ k ∈ n.path.dropLast, k.state ≠ n.state :=
              fun k hk => hs.ne_of_admitted hgreedy hn hadmitted hk
            rw [Problem.dropLast_path_of_child? hchild]
            exact n.nodup_states_iff.mpr ⟨hfirst, ih n hn⟩
          · exact ih m (takes.mem_items.2 m hm)

/-- No path is longer than there are states. -/
theorem Pass.depth_le_ncard (hfinite : {x | plan.problem.Reaches x}.Finite)
    (hs : Pass plan bound s) :
    ∀ n ∈ s.frontier.items, n.depth ≤ {x | plan.problem.Reaches x}.ncard := by
  intro n hn
  have hgrows := hs.ledger.waiting n hn
  have hnodup := hs.nodup_ancestors hgreedy n hn
  have hreached : (n.path.dropLast.map Node.state).toFinset ⊆ hfinite.toFinset := by
    intro x hx
    obtain ⟨m, hm, rfl⟩ := List.mem_map.mp (List.mem_toFinset.mp hx)
    rw [Set.Finite.mem_toFinset]
    exact (hgrows.of_mem_path (List.dropLast_subset _ hm)).1.reaches
  calc n.depth = (n.path.dropLast.map Node.state).length := by
        rw [List.length_map, n.length_dropLast_path]
    _ = (n.path.dropLast.map Node.state).toFinset.card :=
        (List.toFinset_card_of_nodup hnodup).symm
    _ ≤ hfinite.toFinset.card := Finset.card_le_card hreached
    _ = {x | plan.problem.Reaches x}.ncard := (Set.ncard_eq_toFinset_card _ hfinite).symm

end Admission

end Search

end StateSpace
