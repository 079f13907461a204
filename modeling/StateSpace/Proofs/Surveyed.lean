import StateSpace.Proofs.Inspected
import StateSpace.Proofs.Violations
import Mathlib.Data.ENat.Lattice
import Mathlib.Data.Set.Card

/-!
# How many states an inspection visits

The walk of an inspection looks at one new state after another and passes over those that it has
seen. Where the rules are priced it stops at its limit or when nothing is left, so that it visits as
many states as its limit allows or as there are, whichever is less. Otherwise it stops at the first
rule that is not priced.
-/
namespace StateSpace

theorem Frontier.exists_popFront {α κ : Type} {f : Frontier α κ} {e : Entry α κ}
    {tail : List (Entry α κ)} (hlist : f.toList = e :: tail) :
    ∃ rest, f.popFront? = some (e, rest) ∧ rest.toList = tail := by
  cases hpop : f.popFront? with
  | none =>
      rw [popFront?_eq_none.mp hpop] at hlist
      cases hlist
  | some pair =>
      obtain ⟨rfl, rfl⟩ := List.cons.inj (hlist.symm.trans (toList_of_popFront? hpop))
      exact ⟨pair.2, rfl, rfl⟩

namespace Problem

variable {σ κ : Type}

section Successors

variable {rules : List (Rule σ)} {rule : Rule σ} {asked : Value} {s t : σ}

/-- The first rule that is not priced is the one found. -/
theorem successors_of_firstUnpriced (hfirst : FirstUnpriced rules s rule asked)
    (happly : rule.apply s = .leads t asked) :
    successors s rules = .error (.unsound rule.name asked s t) := by
  obtain ⟨before, later, t', rfl, hbefore, happly', hasked⟩ := hfirst
  rw [happly'] at happly
  cases happly
  induction before with
  | nil => simp [successors, happly', hasked]
  | cons r before ih =>
      obtain ⟨hr, hbefore⟩ := List.forall_mem_cons.mp hbefore
      rw [List.cons_append, successors]
      rcases hr with hblocked | ⟨u, price, hleads, hprice⟩
      · rw [hblocked]
        exact ih hbefore
      · simp only [hleads, hprice, if_true, ih hbefore]

/-- The states that the rules lead to are those of the children of a node, in the same order. -/
theorem successors_of_childrenFrom {n : Node σ Int} {position : Nat} {nodes : List (Node σ Int)}
    (hchildren : Plan.childrenFrom n position rules = .ok nodes) :
    successors n.state rules = .ok (nodes.map Node.state) := by
  induction rules generalizing position nodes with
  | nil =>
      obtain rfl := Except.ok.inj hchildren
      rfl
  | cons r rest ih =>
      rw [Plan.childrenFrom] at hchildren
      rw [successors]
      cases happly : r.apply n.state with
      | blocked =>
          rw [happly] at hchildren
          exact ih hchildren
      | broken d =>
          rw [happly] at hchildren
          cases hchildren
      | leads t asked =>
          simp only [happly] at hchildren ⊢
          cases hasked : asked.toPrice? with
          | none => simp [hasked] at hchildren
          | some price =>
              simp only [hasked, Quantity.add_int] at hchildren
              have hprice : asked.isPrice = true := by simp [Value.isPrice, hasked]
              split at hchildren
              · cases hchildren
              · next later hlater =>
                obtain rfl := Except.ok.inj hchildren
                rw [if_pos hprice, ih hlater]
                rfl

theorem exists_successors (hpriced : ∀ rule ∈ rules, rule.IsPricedAt s) :
    ∃ targets, successors s rules = .ok targets := by
  induction rules with
  | nil => exact ⟨[], rfl⟩
  | cons r rest ih =>
      obtain ⟨hr, hrest⟩ := List.forall_mem_cons.mp hpriced
      obtain ⟨targets, hok⟩ := ih hrest
      rw [successors]
      rcases hr with hblocked | ⟨t, asked, hleads, hprice⟩
      · exact ⟨targets, by rw [hblocked]; exact hok⟩
      · exact ⟨t :: targets, by simp only [hleads, hprice, if_true, hok]⟩

theorem exists_rule_of_successors {targets : List σ} (hok : successors s rules = .ok targets)
    (ht : t ∈ targets) :
    ∃ rule ∈ rules, ∃ asked, rule.apply s = .leads t asked ∧ asked.isPrice = true := by
  induction rules generalizing targets with
  | nil =>
      obtain rfl := Except.ok.inj hok
      cases ht
  | cons r rest ih =>
      rw [successors] at hok
      split at hok
      · obtain ⟨rule, hrule, hasked⟩ := ih hok ht
        exact ⟨rule, List.mem_cons_of_mem r hrule, hasked⟩
      · cases hok
      · next target asked happly =>
        split at hok
        · next hprice =>
          split at hok
          · cases hok
          · next later hlater =>
            obtain rfl := Except.ok.inj hok
            rcases List.mem_cons.mp ht with rfl | ht
            · exact ⟨r, List.mem_cons_self, asked, happly, hprice⟩
            · obtain ⟨rule, hrule, hasked⟩ := ih hlater ht
              exact ⟨rule, List.mem_cons_of_mem r hrule, hasked⟩
        · cases hok

theorem Reaches.of_successors {p : Problem σ κ} (hs : p.Reaches s) {targets : List σ}
    (hok : successors s p.rules = .ok targets) (ht : t ∈ targets) : p.Reaches t := by
  obtain ⟨rule, hrule, asked, happly, hprice⟩ := exists_rule_of_successors hok ht
  obtain ⟨position, hposition⟩ := List.getElem?_of_mem hrule
  obtain ⟨price, hprice⟩ := Option.isSome_iff_exists.mp hprice
  exact hs.step? (step?_eq_some_iff.mpr ⟨rule, asked, hposition, happly, hprice⟩)

end Successors

section Surveyed

variable {p : Problem σ κ} {visited : List σ}

/-- States within reach, each of them once. -/
structure Surveyed (p : Problem σ κ) (visited : List σ) : Prop where
  nodup : visited.Nodup
  reaches : ∀ s ∈ visited, p.Reaches s

theorem Surveyed.reverse (surveyed : p.Surveyed visited) : p.Surveyed visited.reverse :=
  ⟨List.nodup_reverse.mpr surveyed.nodup, by simpa using surveyed.reaches⟩

theorem Surveyed.cons {s : σ} (surveyed : p.Surveyed visited) (hs : p.Reaches s)
    (hnew : s ∉ visited) : p.Surveyed (s :: visited) :=
  ⟨List.nodup_cons.mpr ⟨hnew, surveyed.nodup⟩, List.forall_mem_cons.mpr ⟨hs, surveyed.reaches⟩⟩

theorem encard_of_nodup {xs : List σ} (hnodup : xs.Nodup) :
    {x | x ∈ xs}.encard = xs.length := by
  classical
  have hset : {x | x ∈ xs} = (xs.toFinset : Set σ) := by
    ext x
    simp
  rw [hset, Set.encard_coe_eq_coe_finsetCard, List.toFinset_card_of_nodup hnodup]

end Surveyed

variable [DecidableEq σ] [Hashable σ] {p : Problem σ κ} {queue rest : Frontier σ κ}
  {seen : Std.HashSet σ} {visited : List σ} {e : Entry σ κ} {left : Nat}

/-! ### One look -/

theorem inspectFrom_zero (p : Problem σ κ) (queue : Frontier σ κ) (seen : Std.HashSet σ)
    (visited : List σ) : p.inspectFrom queue seen visited none 0 = .sound visited.reverse := by
  rw [inspectFrom]

theorem inspectFrom_empty (hempty : queue.toList = []) :
    p.inspectFrom queue seen visited none left = .sound visited.reverse := by
  cases left with
  | zero => exact p.inspectFrom_zero queue seen visited
  | succ more =>
      rw [inspectFrom]
      split
      · rfl
      · next e rest hpop =>
        rw [Frontier.popFront?_eq_none.mpr hempty] at hpop
        cases hpop

/-- A state that was seen is passed over. -/
theorem inspectFrom_seen (hpop : queue.popFront? = some (e, rest)) (hseen : e.item ∈ seen) :
    p.inspectFrom queue seen visited none left = p.inspectFrom rest seen visited none left := by
  cases left with
  | zero => rw [inspectFrom_zero, inspectFrom_zero]
  | succ more =>
      rw [inspectFrom]
      split
      · next hnone =>
        rw [hpop] at hnone
        cases hnone
      · next e' rest' hpop' =>
        rw [hpop] at hpop'
        cases hpop'
        simp [hseen]

theorem inspectFrom_new (hpop : queue.popFront? = some (e, rest)) (hnew : e.item ∉ seen) :
    p.inspectFrom queue seen visited none (left + 1) =
      match successors e.item p.rules with
      | .error finding => finding
      | .ok next =>
          p.inspectFrom (next.foldl (fun q s => q.pushBack ⟨s, none⟩) rest) (seen.insert e.item)
            (e.item :: visited) none left := by
  rw [inspectFrom]
  split
  · next hnone =>
    rw [hpop] at hnone
    cases hnone
  · next e' rest' hpop' =>
    rw [hpop] at hpop'
    cases hpop'
    cases successors e.item p.rules <;> simp [hnew]

/-! ### The number of states -/

/-- A walk among priced rules finds no fault, and visits no more states than it was allowed. -/
theorem exists_sound_of_isPriced (hpriced : p.IsPriced) (hseen : ∀ s, s ∈ seen ↔ s ∈ visited)
    (surveyed : p.Surveyed visited) (hqueue : ∀ s ∈ queue.items, p.Reaches s) :
    ∃ result, p.inspectFrom queue seen visited none left = .sound result ∧ p.Surveyed result ∧
      result.length ≤ visited.length + left := by
  induction left generalizing queue seen visited with
  | zero => exact ⟨_, p.inspectFrom_zero queue seen visited, surveyed.reverse, by simp⟩
  | succ more ih =>
      induction hlist : queue.toList generalizing queue with
      | nil => exact ⟨_, inspectFrom_empty hlist, surveyed.reverse, by simp⟩
      | cons first tail ihqueue =>
          obtain ⟨rest, hpop, rfl⟩ := Frontier.exists_popFront hlist
          rw [Frontier.items_of_front hlist, List.forall_mem_cons] at hqueue
          obtain ⟨hitem, hrest⟩ := hqueue
          by_cases hmem : first.item ∈ seen
          · rw [inspectFrom_seen hpop hmem]
            exact ihqueue hrest rfl
          · obtain ⟨targets, hok⟩ := exists_successors (hpriced first.item hitem)
            have hnew : first.item ∉ visited := fun hold => hmem ((hseen first.item).mpr hold)
            have hseen' : ∀ s, s ∈ seen.insert first.item ↔ s ∈ first.item :: visited := by
              intro s
              rw [Std.HashSet.mem_insert, hseen, List.mem_cons, beq_iff_eq, eq_comm]
            have hqueue' : ∀ s ∈ (targets.foldl (fun q s => q.pushBack ⟨s, none⟩) rest).items,
                p.Reaches s := by
              rw [items_foldl_pushBack, List.forall_mem_append]
              exact ⟨hrest, fun s hs => hitem.of_successors hok hs⟩
            obtain ⟨result, hresult, hsurveyed, hle⟩ :=
              ih hseen' (surveyed.cons hitem hnew) hqueue'
            rw [inspectFrom_new hpop hmem, hok]
            refine ⟨result, hresult, hsurveyed, hle.trans ?_⟩
            rw [List.length_cons]
            omega

/-- Where the rules are priced, an inspection visits as many states as it is allowed, or all within
reach where these are fewer. -/
theorem length_inspect_of_isPriced (hpriced : p.IsPriced) (limit : Int) :
    ∃ visited, p.inspect limit none = .sound visited ∧
      (visited.length : ℕ∞) = min (limit.toNat : ℕ∞) {s | p.Reaches s}.encard := by
  have hroot : ∀ s ∈ (Frontier.empty.pushBack ⟨p.initial, none⟩ : Frontier σ κ).items,
      p.Reaches s := by
    intro s hs
    obtain rfl : s = p.initial := List.mem_singleton.mp hs
    exact ⟨[], 0, rfl⟩
  have hnone : p.Surveyed [] := ⟨List.nodup_nil, by simp⟩
  have hseen : ∀ s, s ∈ (∅ : Std.HashSet σ) ↔ s ∈ [] := by simp
  obtain ⟨visited, hsound, surveyed, hle⟩ : ∃ visited, p.inspect limit none = .sound visited ∧
      p.Surveyed visited ∧ visited.length ≤ [].length + limit.toNat :=
    exists_sound_of_isPriced hpriced hseen hnone hroot
  have hcard := encard_of_nodup surveyed.nodup
  have hsubset : {x | x ∈ visited} ⊆ {s | p.Reaches s} := surveyed.reaches
  refine ⟨visited, hsound, ?_⟩
  rw [List.length_nil, Nat.zero_add] at hle
  rcases hle.lt_or_eq with hlt | heq
  · obtain ⟨hall, -⟩ := of_inspect_eq_sound hsound (by omega)
    have hset : {s | p.Reaches s} = {x | x ∈ visited} := Set.Subset.antisymm hall hsubset
    rw [hset, hcard, min_eq_right (by exact_mod_cast hlt.le)]
  · rw [← heq, ← hcard, min_eq_left (Set.encard_le_encard hsubset)]

end Problem

end StateSpace
