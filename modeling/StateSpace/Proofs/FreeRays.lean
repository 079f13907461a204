import StateSpace.Proofs.Replay
import Mathlib.Data.Set.Finite.Lattice
import Mathlib.Order.WellFounded

/-!
# Rays that cost nothing

A ray goes on forever and visits no state twice. Every node has finitely many children, so where
there were infinitely many nodes within a budget that repeat no state on their way, some of their
ways would be the beginnings of one that never ends. Its costs stay within the budget, so they stop
rising somewhere, and from there on it is a free ray. Where no ray is free, such nodes are therefore
finitely many, and their depths have a limit.
-/
namespace StateSpace

namespace Problem

/-- From a state that is reached within the budget a way goes on forever at no cost and visits no
state twice. -/
def HasFreeRay {σ κ : Type} (p : Problem σ κ) (budget : Nat) : Prop :=
  ∃ ray : Nat → σ, (∃ word cost, p.follow? p.initial word = some (ray 0, cost) ∧ cost ≤ budget) ∧
    Function.Injective ray ∧ ∀ i, ∃ position, p.step? (ray i) position = some (ray (i + 1), 0)

variable {σ : Type} {p : Problem σ Int} {budget : Nat} {n m : Node σ Int}

/-- A node within the budget with no repeated state on its way. -/
structure Frugal (p : Problem σ Int) (budget : Nat) (n : Node σ Int) : Prop where
  grows : p.Grows n
  nodup : n.states.Nodup
  cost_le : n.cost ≤ budget

theorem Frugal.of_mem_path (frugal : p.Frugal budget m) (hn : n ∈ m.path) :
    p.Frugal budget n := by
  obtain ⟨hgrows, word, cost, -, hcost, -⟩ := frugal.grows.of_mem_path hn
  have hle := frugal.cost_le
  refine ⟨hgrows, ?_, by omega⟩
  exact frugal.nodup.sublist ((Node.path_prefix_of_mem hn).sublist.map Node.state)

/-- Below a node on the way to another one, a child of it leads there. -/
theorem Grows.exists_child_of_mem_path (hm : p.Grows m) (hn : n ∈ m.path) :
    m = n ∨ ∃ k ∈ p.offspring n, k ∈ m.path := by
  induction hm with
  | root => exact Or.inl (List.mem_singleton.mp hn).symm
  | @child k m position hk hchild ih =>
      have hpath := path_of_child? hchild
      rw [hpath, List.mem_append, List.mem_singleton] at hn
      rcases hn with hn | rfl
      · rcases ih hn with rfl | ⟨l, hl, hmem⟩
        · exact Or.inr ⟨m, mem_offspring_iff.mpr ⟨position, hchild⟩, mem_path_self m⟩
        · exact Or.inr ⟨l, hl, hpath ▸ List.mem_append_left [m] hmem⟩
      · exact Or.inl rfl

section Chain

variable (chain : Nat → Node σ Int) (hfrugal : ∀ i, p.Frugal budget (chain i))
  (hchild : ∀ i, chain (i + 1) ∈ p.offspring (chain i))

include hchild

theorem mem_dropLast_path_of_lt {i j : Nat} (hlt : i < j) :
    chain i ∈ (chain j).path.dropLast := by
  induction j with
  | zero => omega
  | succ j ih =>
      obtain ⟨position, hposition⟩ := mem_offspring_iff.mp (hchild j)
      rw [dropLast_path_of_child? hposition, (chain j).path_eq_concat, List.mem_append]
      rcases Nat.lt_succ_iff_lt_or_eq.mp hlt with hlt | rfl
      · exact Or.inl (ih hlt)
      · exact Or.inr (List.mem_singleton_self _)

include hfrugal

/-- A chain of children that stays within a budget goes on for free from somewhere. -/
theorem hasFreeRay_of_chain : p.HasFreeRay budget := by
  have hmono : Monotone fun i => (chain i).cost.toNat := by
    refine monotone_nat_of_le_succ fun i => ?_
    obtain ⟨position, hposition⟩ := mem_offspring_iff.mp (hchild i)
    obtain ⟨price, -, hcost⟩ := step?_of_child? hposition
    exact Int.toNat_le_toNat (by omega)
  obtain ⟨cost, first, hconst⟩ := converges_of_monotone_of_bounded hmono
    fun i => Int.toNat_le.mpr (hfrugal i).cost_le
  refine ⟨fun i => (chain (first + i)).state, ?_, ?_, fun i => ?_⟩
  · obtain ⟨spent, hspent, hfollow⟩ := (hfrugal first).grows.follow?
    have hle := (hfrugal first).cost_le
    exact ⟨_, spent, hfollow, by omega⟩
  · refine Function.Injective.of_lt_imp_ne fun i j hlt hstate => ?_
    have hnodup := (hfrugal (first + j)).nodup
    have hmem := mem_dropLast_path_of_lt chain hchild (Nat.add_lt_add_left hlt first)
    exact ((chain (first + j)).nodup_states_iff.mp hnodup).1 _ hmem hstate
  · obtain ⟨position, hposition⟩ := mem_offspring_iff.mp (hchild (first + i))
    obtain ⟨price, hstep, hcost⟩ := step?_of_child? hposition
    -- Both costs are the one that the chain came to.
    have hsame : (chain (first + i)).cost.toNat = (chain (first + i + 1)).cost.toNat :=
      (hconst (first + i) (Nat.le_add_right first i)).trans
        (hconst (first + i + 1) (by omega)).symm
    have hnonneg := (hfrugal (first + i)).grows.cost_nonneg
    obtain rfl : price = 0 := by
      omega
    exact ⟨position, hstep⟩

end Chain

/-- Where no ray is free within a budget, finitely many nodes within it have no repeated state on
their way. -/
theorem finite_frugal (hray : ¬p.HasFreeRay budget) : {n | p.Frugal budget n}.Finite := by
  have hwellFounded : WellFounded fun m n => p.Frugal budget m ∧ m ∈ p.offspring n := by
    rw [wellFounded_iff_isEmpty_descending_chain]
    refine ⟨fun ⟨chain, hchain⟩ => hray ?_⟩
    exact hasFreeRay_of_chain (fun i => chain (i + 1)) (fun i => (hchain i).1)
      fun i => (hchain (i + 1)).2
  have hbelow : ∀ n, {m | p.Frugal budget m ∧ n ∈ m.path}.Finite := by
    intro n
    induction n using hwellFounded.induction with
    | _ n ih =>
        have hchildren : {k | p.Frugal budget k ∧ k ∈ p.offspring n}.Finite :=
          (p.offspring n).finite_toSet.subset fun k hk => hk.2
        refine ((Set.finite_singleton n).union (hchildren.biUnion fun k hk => ih k hk)).subset ?_
        rintro m ⟨hm, hmem⟩
        rcases hm.grows.exists_child_of_mem_path hmem with rfl | ⟨k, hk, hkmem⟩
        · exact Or.inl rfl
        · exact Or.inr (Set.mem_biUnion ⟨hm.of_mem_path hkmem, hk⟩ ⟨hm, hkmem⟩)
  refine (hbelow (.root p.initial 0)).subset fun m hm => ⟨hm, ?_⟩
  exact List.mem_of_head? hm.grows.head?_path

theorem exists_depth_le_of_frugal (hray : ¬p.HasFreeRay budget) :
    ∃ limit, ∀ n, p.Frugal budget n → n.depth ≤ limit := by
  obtain ⟨limit, hlimit⟩ := ((finite_frugal hray).image Node.depth).bddAbove
  exact ⟨limit, fun n hn => hlimit (Set.mem_image_of_mem _ hn)⟩

end Problem

end StateSpace
