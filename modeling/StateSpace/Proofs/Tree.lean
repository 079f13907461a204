import StateSpace.Search
import StateSpace.Proofs.Words
import Mathlib.Tactic.Ring

/-!
# The search tree of a problem

The nodes that a search may create form one tree, whatever the strategy: the root at cost zero, and
below every node one child for each rule that applies to its state. A node of this tree is a word
that leads somewhere, so that what holds of all words may be proved along the nodes of a path.
-/
namespace StateSpace

namespace Problem

variable {σ : Type} {p : Problem σ Int} {n m : Node σ Int}

/-- The child of a node by the rule at a position. -/
def child? (p : Problem σ Int) (n : Node σ Int) (position : Nat) : Option (Node σ Int) :=
  match p.rules[position]?, p.step? n.state position with
  | some rule, some (t, price) => some (.child n (some ⟨position, rule⟩) t (n.cost + price))
  | _, _ => none

/-- The children of a node, in the order of the rules. -/
def offspring (p : Problem σ Int) (n : Node σ Int) : List (Node σ Int) :=
  (List.range p.rules.length).filterMap (p.child? n)

/-- The nodes of the search tree. -/
inductive Grows (p : Problem σ Int) : Node σ Int → Prop where
  | root : p.Grows (.root p.initial 0)
  | child {n m : Node σ Int} {position : Nat} (hn : p.Grows n)
      (hchild : p.child? n position = some m) : p.Grows m

theorem child?_eq_some_iff {position : Nat} :
    p.child? n position = some m ↔
      ∃ rule t price, p.rules[position]? = some rule ∧ p.step? n.state position = some (t, price) ∧
        m = .child n (some ⟨position, rule⟩) t (n.cost + (price : Nat)) := by
  unfold child?
  constructor
  · intro hchild
    split at hchild
    · next rule t price hrule hstep =>
      exact ⟨rule, t, price, hrule, hstep, (Option.some.inj hchild).symm⟩
    · simp at hchild
  · rintro ⟨rule, t, price, hrule, hstep, rfl⟩
    simp [hrule, hstep]

theorem child?_isSome_of_step? {position price : Nat} {t : σ}
    (hstep : p.step? n.state position = some (t, price)) :
    ∃ m, p.child? n position = some m ∧ m.state = t ∧ m.cost = n.cost + price := by
  obtain ⟨rule, asked, hrule, -, -⟩ := step?_eq_some_iff.mp hstep
  exact ⟨_, child?_eq_some_iff.mpr ⟨rule, t, price, hrule, hstep, rfl⟩, rfl, rfl⟩

theorem mem_offspring_iff : m ∈ p.offspring n ↔ ∃ position, p.child? n position = some m := by
  unfold offspring
  rw [List.mem_filterMap]
  constructor
  · rintro ⟨position, -, hchild⟩
    exact ⟨position, hchild⟩
  · rintro ⟨position, hchild⟩
    obtain ⟨rule, t, price, hrule, -, -⟩ := child?_eq_some_iff.mp hchild
    exact ⟨position, List.mem_range.mpr (List.getElem?_eq_some_iff.mp hrule).1, hchild⟩

theorem length_offspring_le : (p.offspring n).length ≤ p.rules.length := by
  simpa [offspring] using List.length_filterMap_le (p.child? n) (List.range p.rules.length)

/-- Later rules make later children. -/
theorem pairwise_offspring (p : Problem σ Int) (n : Node σ Int) :
    (p.offspring n).Pairwise fun a b =>
      ∃ i j, i < j ∧ p.child? n i = some a ∧ p.child? n j = some b := by
  refine List.pairwise_filterMap.mpr (List.pairwise_lt_range.imp ?_)
  intro i j hlt a ha b hb
  exact ⟨i, j, hlt, ha, hb⟩

section Child

variable {position : Nat} (hchild : p.child? n position = some m)

include hchild

theorem step?_of_child? :
    ∃ price : Nat, p.step? n.state position = some (m.state, price) ∧ m.cost = n.cost + price := by
  obtain ⟨rule, t, price, -, hstep, rfl⟩ := child?_eq_some_iff.mp hchild
  exact ⟨price, hstep, rfl⟩

theorem depth_of_child? : m.depth = n.depth + 1 := by
  obtain ⟨rule, t, price, -, -, rfl⟩ := child?_eq_some_iff.mp hchild
  rfl

theorem positions_of_child? : m.positions = n.positions ++ [position] := by
  obtain ⟨rule, t, price, -, -, rfl⟩ := child?_eq_some_iff.mp hchild
  simp [Node.positions, Node.move?]

theorem path_of_child? : m.path = n.path ++ [m] := by
  obtain ⟨rule, t, price, -, -, rfl⟩ := child?_eq_some_iff.mp hchild
  exact Node.path_child n _ t _

end Child

theorem positions_of_mem_offspring (hm : m ∈ p.offspring n) :
    ∃ position, m.positions = n.positions ++ [position] := by
  obtain ⟨position, hchild⟩ := mem_offspring_iff.mp hm
  exact ⟨position, positions_of_child? hchild⟩

/-! ### Nodes and words -/

/-- A node lies where its word leads, at the cost of its word. -/
theorem Grows.follow? (hn : p.Grows n) :
    ∃ cost : Nat, n.cost = cost ∧ p.follow? p.initial n.positions = some (n.state, cost) := by
  induction hn with
  | root => exact ⟨0, rfl, rfl⟩
  | child hn hchild ih =>
      obtain ⟨spent, hspent, hword⟩ := ih
      obtain ⟨price, hstep, hcost⟩ := step?_of_child? hchild
      refine ⟨spent + price, by omega, ?_⟩
      rw [positions_of_child? hchild]
      exact follow?_concat_eq_some_iff.mpr ⟨_, spent, price, hword, hstep, rfl⟩

theorem exists_grows_of_follow? {word : List Nat} {s : σ} {cost : Nat}
    (hfollow : p.follow? p.initial word = some (s, cost)) :
    ∃ n, p.Grows n ∧ n.positions = word ∧ n.state = s ∧ n.cost = cost := by
  induction word using List.reverseRecOn generalizing s cost with
  | nil =>
      obtain ⟨rfl, rfl⟩ := Prod.mk.inj (Option.some.inj hfollow)
      exact ⟨_, Grows.root, rfl, rfl, rfl⟩
  | append_singleton word position ih =>
      obtain ⟨t, spent, price, hword, hstep, rfl⟩ := follow?_concat_eq_some_iff.mp hfollow
      obtain ⟨n, hn, rfl, rfl, hspent⟩ := ih hword
      obtain ⟨m, hchild, hstate, hcost⟩ := child?_isSome_of_step? hstep
      exact ⟨m, hn.child hchild, positions_of_child? hchild, hstate, by push_cast; omega⟩

theorem Grows.reaches (hn : p.Grows n) : p.Reaches n.state := by
  obtain ⟨cost, -, hfollow⟩ := hn.follow?
  exact ⟨n.positions, cost, hfollow⟩

theorem Grows.cost_nonneg (hn : p.Grows n) : 0 ≤ n.cost := by
  obtain ⟨cost, hcost, -⟩ := hn.follow?
  omega

theorem Grows.length_positions (hn : p.Grows n) : n.positions.length = n.depth := by
  induction hn with
  | root => rfl
  | child hn hchild ih =>
      rw [positions_of_child? hchild, depth_of_child? hchild, List.length_append, ih]
      rfl

theorem Grows.depth_le_cost (hn : p.Grows n) (hpositive : p.HasPositivePrices) :
    n.depth ≤ n.cost := by
  obtain ⟨cost, hcost, hfollow⟩ := hn.follow?
  have hlength := hpositive.length_le ⟨[], 0, rfl⟩ hfollow
  rw [hn.length_positions] at hlength
  omega

theorem Grows.solves (hn : p.Grows n) (hgoal : p.isGoal n.state = true) :
    ∃ cost : Nat, n.cost = cost ∧ p.Solves n.positions cost := by
  obtain ⟨cost, hcost, hfollow⟩ := hn.follow?
  exact ⟨cost, hcost, n.state, hfollow, hgoal⟩

theorem Grows.cost_eq {price : Nat} (hprice : p.HasPrice price) (hn : p.Grows n) :
    n.cost = price * n.depth := by
  induction hn with
  | root => simp [Node.cost, Node.depth]
  | child hn hchild ih =>
      obtain ⟨cost, hstep, hcost⟩ := step?_of_child? hchild
      rw [hcost, ih, hprice.eq_of_step? hn.reaches hstep, depth_of_child? hchild]
      push_cast
      ring

theorem Grows.cost_le_iff {price : Nat} (hn : p.Grows n) (hm : p.Grows m)
    (hprice : p.HasPrice price) (hpositive : 1 ≤ price) : n.cost ≤ m.cost ↔ n.depth ≤ m.depth := by
  rw [hn.cost_eq hprice, hm.cost_eq hprice]
  norm_cast
  exact Nat.mul_le_mul_left_iff hpositive

theorem Grows.depth_eq_add {word : List Nat} (hn : p.Grows n) (hm : p.Grows m)
    (hpositions : n.positions = m.positions ++ word) : n.depth = m.depth + word.length := by
  rw [← hn.length_positions, ← hm.length_positions, hpositions, List.length_append]

/-- A node of a path, and the word that leads from it to the path's end. -/
theorem Grows.of_mem_path (hn : p.Grows n) (hm : m ∈ n.path) :
    p.Grows m ∧ ∃ word, ∃ cost : Nat, n.positions = m.positions ++ word ∧
      n.cost = m.cost + cost ∧ p.follow? m.state word = some (n.state, cost) := by
  induction hn with
  | root =>
      obtain rfl : m = _ := by simpa using hm
      exact ⟨Grows.root, [], 0, by simp, by simp, rfl⟩
  | @child n k position hn hchild ih =>
      rw [path_of_child? hchild, List.mem_append, List.mem_singleton] at hm
      rcases hm with hm | rfl
      · obtain ⟨hgrows, word, cost, hword, hcost, hfollow⟩ := ih hm
        obtain ⟨price, hstep, hprice⟩ := step?_of_child? hchild
        refine ⟨hgrows, word ++ [position], cost + price, ?_, by push_cast; omega, ?_⟩
        · rw [positions_of_child? hchild, hword, List.append_assoc]
        · exact follow?_concat_eq_some_iff.mpr ⟨_, cost, price, hfollow, hstep, rfl⟩
      · exact ⟨hn.child hchild, [], 0, by simp, by simp, rfl⟩

theorem mem_path_self (n : Node σ Int) : n ∈ n.path := by
  cases n with
  | root s c => simp
  | child parent via s c => simp

end Problem

/-! ### The children that a search makes -/

namespace Plan

/-- The children of a node by all rules, unless one of them is not priced or breaks. -/
def children {σ κ : Type} [Quantity κ] (plan : Plan σ κ) (n : Node σ κ) :
    Except (Fault σ) (List (Node σ κ)) :=
  childrenFrom n 0 (plan.askRules n).value

variable {σ : Type} {n : Node σ Int}

theorem child?_eq_of_apply {p : Problem σ Int} {rule : Rule σ} {position : Nat}
    (hrule : p.rules[position]? = some rule) :
    p.child? n position =
      match rule.apply n.state with
      | .leads t asked => asked.toPrice?.map fun price =>
          .child n (some ⟨position, rule⟩) t (n.cost + (price : Nat))
      | _ => none := by
  unfold Problem.child? Problem.step?
  cases happly : rule.apply n.state with
  | blocked => simp [hrule, happly]
  | broken d => simp [hrule, happly]
  | leads t asked => cases hasked : asked.toPrice? <;> simp [hrule, happly, hasked]

/-- The rules from a position on make the children from there on, if all of them are priced. -/
theorem childrenFrom_eq_ok_iff {p : Problem σ Int} {rules : List (Rule σ)} {position : Nat}
    (hrules : ∀ i, rules[i]? = p.rules[position + i]?) {nodes : List (Node σ Int)} :
    childrenFrom n position rules = .ok nodes ↔
      (∀ rule ∈ rules, rule.IsPricedAt n.state) ∧
        nodes = (List.range' position rules.length).filterMap (p.child? n) := by
  induction rules generalizing position nodes with
  | nil => simp [childrenFrom, eq_comm]
  | cons rule rest ih =>
      have hrule : p.rules[position]? = some rule := by simpa using (hrules 0).symm
      -- The rules that are left start one position later.
      have hrest : ∀ i, rest[i]? = p.rules[position + 1 + i]? := by
        intro i
        have := hrules (i + 1)
        rwa [List.getElem?_cons_succ, ← Nat.add_assoc, Nat.add_right_comm] at this
      have hchild := child?_eq_of_apply (n := n) hrule
      rw [List.length_cons, List.range'_succ, List.filterMap_cons, List.forall_mem_cons, hchild]
      cases happly : rule.apply n.state with
      | blocked =>
          have hpriced : rule.IsPricedAt n.state := Or.inl happly
          simp only [childrenFrom, happly, hpriced, true_and]
          exact ih hrest
      | broken d =>
          have hpriced : ¬rule.IsPricedAt n.state := by simp [Rule.IsPricedAt, happly]
          simp [childrenFrom, happly, hpriced]
      | leads t asked =>
          cases hasked : asked.toPrice? with
          | none =>
              have hpriced : ¬rule.IsPricedAt n.state := by
                simp [Rule.IsPricedAt, happly, Value.isPrice, hasked]
              simp [childrenFrom, happly, hasked, hpriced]
          | some price =>
              have hpriced : rule.IsPricedAt n.state :=
                Or.inr ⟨t, asked, happly, by rw [Value.isPrice, hasked]; rfl⟩
              simp only [childrenFrom, happly, hasked, hpriced, true_and, Quantity.add_int,
                Quantity.ofInt_int, Option.map_some]
              constructor
              · intro hnodes
                split at hnodes
                · simp at hnodes
                · next later hlater =>
                  obtain ⟨hpriced, rfl⟩ := (ih hrest).mp hlater
                  exact ⟨hpriced, (Except.ok.inj hnodes).symm⟩
              · rintro ⟨hpriced, rfl⟩
                rw [(ih hrest).mpr ⟨hpriced, rfl⟩]

theorem children_eq_ok_iff {plan : Plan σ Int} {nodes : List (Node σ Int)} :
    plan.children n = .ok nodes ↔
      (∀ rule ∈ plan.problem.rules, rule.IsPricedAt n.state) ∧
        nodes = plan.problem.offspring n := by
  rw [children, childrenFrom_eq_ok_iff (p := plan.problem) (by simp [askRules]), Problem.offspring,
    List.range_eq_range']
  rfl

end Plan

end StateSpace
