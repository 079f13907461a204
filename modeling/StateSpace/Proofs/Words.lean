import StateSpace.Node
import StateSpace.Problems.Doubling
import Mathlib.Data.List.Induction
import Mathlib.Order.Bounds.Basic

/-!
# Words of rule positions

A word is a list of positions in the rule list. From a state it leads along the rules at these
positions, as long as each of them applies and asks a price. Words are what solutions are compared
by: a problem is solved by the words that lead from its initial state to a goal.
-/
namespace StateSpace

namespace Rule

variable {σ : Type} {rule : Rule σ} {s : σ} {price : Nat}

/-- At this state the rule is blocked or leads on at a price. -/
def IsPricedAt (rule : Rule σ) (s : σ) : Prop :=
  rule.apply s = .blocked ∨ ∃ t asked, rule.apply s = .leads t asked ∧ asked.isPrice = true

theorem isPricedAt_of_price (hprice : rule.apply s = .blocked ∨
    ∃ t asked, rule.apply s = .leads t asked ∧ asked.toPrice? = some price) :
    rule.IsPricedAt s := by
  rcases hprice with hblocked | ⟨t, asked, happly, hasked⟩
  · exact Or.inl hblocked
  · exact Or.inr ⟨t, asked, happly, by rw [Value.isPrice, hasked]; rfl⟩

theorem apply_fixed (name : String) (price : Nat) (next : σ → Option σ) (s : σ) :
    (fixed name (.int price) next).apply s = .blocked ∨
      ∃ t asked, (fixed name (.int price) next).apply s = .leads t asked ∧
        asked.toPrice? = some price := by
  cases hnext : next s with
  | none => exact Or.inl (by simp only [fixed, hnext])
  | some t =>
      refine Or.inr ⟨t, .int price, by simp only [fixed, hnext], ?_⟩
      simp [Value.toPrice?]

end Rule

namespace Problem

variable {σ κ : Type} {p : Problem σ κ} {s t u : σ}

/-- Where the rule at a position leads from a state, and at what price. -/
def step? (p : Problem σ κ) (s : σ) (position : Nat) : Option (σ × Nat) :=
  match p.rules[position]? with
  | none => none
  | some rule =>
      match rule.apply s with
      | .leads t asked => asked.toPrice?.map fun price => (t, price)
      | _ => none

/-- Where a word leads from a state, and at what total cost. -/
def follow? (p : Problem σ κ) (s : σ) : List Nat → Option (σ × Nat)
  | [] => some (s, 0)
  | i :: word =>
      match p.step? s i with
      | none => none
      | some (t, price) => (p.follow? t word).map fun (u, cost) => (u, price + cost)

/-- Some word leads from the initial state to this one. -/
def Reaches (p : Problem σ κ) (s : σ) : Prop :=
  ∃ word cost, p.follow? p.initial word = some (s, cost)

/-- A word leads from the initial state to a goal, at this total cost. -/
def Solves (p : Problem σ κ) (word : List Nat) (cost : Nat) : Prop :=
  ∃ goal, p.follow? p.initial word = some (goal, cost) ∧ p.isGoal goal = true

/-- Some word leads from the initial state to this one at this cost, and none at a lower cost. -/
abbrev LeastCost (p : Problem σ κ) (s : σ) (best : Nat) : Prop :=
  IsLeast {cost | ∃ word, p.follow? p.initial word = some (s, cost)} best

/-- Some word of this length leads from the initial state to this one, and no shorter word does. -/
abbrev LeastSteps (p : Problem σ κ) (s : σ) (steps : Nat) : Prop :=
  IsLeast {length | ∃ word cost, p.follow? p.initial word = some (s, cost) ∧ word.length = length}
    steps

/-- Within reach every rule that applies asks a price. -/
def IsPriced (p : Problem σ κ) : Prop :=
  ∀ s, p.Reaches s → ∀ rule ∈ p.rules, rule.IsPricedAt s

/-- Within reach no step is free. -/
def HasPositivePrices (p : Problem σ κ) : Prop :=
  ∀ s t position price, p.Reaches s → p.step? s position = some (t, price) → 0 < price

/-- Within reach every rule that applies asks the same price. -/
def HasPrice (p : Problem σ κ) (price : Nat) : Prop :=
  ∀ s, p.Reaches s → ∀ rule ∈ p.rules,
    rule.apply s = .blocked ∨
      ∃ t asked, rule.apply s = .leads t asked ∧ asked.toPrice? = some price

theorem HasPrice.isPriced {price : Nat} (hprice : p.HasPrice price) : p.IsPriced :=
  fun s hs rule hrule => Rule.isPricedAt_of_price (hprice s hs rule hrule)

theorem isPriced_of_fixed
    (hfixed : ∀ rule ∈ p.rules, ∃ name next, ∃ price : Nat,
      rule = Rule.fixed name (.int price) next) : p.IsPriced := by
  intro s _ rule hrule
  obtain ⟨name, next, price, rfl⟩ := hfixed rule hrule
  exact Rule.isPricedAt_of_price (Rule.apply_fixed name price next s)

theorem hasPrice_of_fixed {price : Nat}
    (hfixed : ∀ rule ∈ p.rules, ∃ name next, rule = Rule.fixed name (.int price) next) :
    p.HasPrice price := by
  intro s _ rule hrule
  obtain ⟨name, next, rfl⟩ := hfixed rule hrule
  exact Rule.apply_fixed name price next s

theorem hasPrice_of_rules {p : Problem Int κ} {limit : Option Int}
    (hrules : p.rules = Doubling.rules limit) : p.HasPrice 1 := by
  refine hasPrice_of_fixed fun rule hrule => ?_
  simp only [hrules, Doubling.rules, List.mem_cons, List.not_mem_nil, or_false] at hrule
  rcases hrule with rfl | rfl
  · exact ⟨"increment", _, rfl⟩
  · exact ⟨"double", _, rfl⟩

theorem hasPrice_doubling (start goal : Int) (limit : Option Int) :
    (Doubling.problem start goal limit).HasPrice 1 := hasPrice_of_rules rfl

theorem hasPrice_of_evenRules {p : Problem Int κ} {limit : Int}
    (hrules : p.rules = Doubling.evenRules limit) : p.HasPrice 1 := by
  refine hasPrice_of_fixed fun rule hrule => ?_
  simp only [hrules, Doubling.evenRules, List.mem_cons, List.not_mem_nil, or_false] at hrule
  rcases hrule with rfl | rfl
  · exact ⟨"add_two", _, rfl⟩
  · exact ⟨"double", _, rfl⟩

theorem step?_eq_some_iff {position price : Nat} :
    p.step? s position = some (t, price) ↔
      ∃ rule asked, p.rules[position]? = some rule ∧ rule.apply s = .leads t asked ∧
        asked.toPrice? = some price := by
  unfold step?
  constructor
  · intro hstep
    split at hstep
    · simp at hstep
    · next rule hrule =>
      split at hstep
      · next t' asked happly =>
        obtain ⟨price', hasked, heq⟩ := Option.map_eq_some_iff.mp hstep
        obtain ⟨rfl, rfl⟩ := Prod.mk.inj heq
        exact ⟨rule, asked, hrule, happly, hasked⟩
      · simp at hstep
  · rintro ⟨rule, asked, hrule, happly, hasked⟩
    simp [hrule, happly, hasked]

theorem step?_of_fixed {position : Nat} {name : String} {next : σ → Option σ} (price : Nat)
    (hrule : p.rules[position]? = some (Rule.fixed name (.int price) next)) (s : σ) :
    p.step? s position = (next s).map fun t => (t, price) := by
  cases hnext : next s <;> simp [step?, hrule, Rule.fixed, hnext, Value.toPrice?]

theorem HasPrice.eq_of_step? {price position cost : Nat} (hprice : p.HasPrice price)
    (hs : p.Reaches s) (hstep : p.step? s position = some (t, cost)) : cost = price := by
  obtain ⟨rule, asked, hrule, happly, hasked⟩ := step?_eq_some_iff.mp hstep
  rcases hprice s hs rule (List.mem_of_getElem? hrule) with
    hblocked | ⟨t', asked', happly', hasked'⟩
  · rw [happly] at hblocked
    cases hblocked
  · rw [happly] at happly'
    cases happly'
    rw [hasked] at hasked'
    exact Option.some.inj hasked'

@[simp]
theorem follow?_nil : p.follow? s [] = some (s, 0) := rfl

theorem follow?_cons_eq_some_iff {position cost : Nat} {word : List Nat} :
    p.follow? s (position :: word) = some (u, cost) ↔
      ∃ t price rest, p.step? s position = some (t, price) ∧ p.follow? t word = some (u, rest) ∧
        cost = price + rest := by
  simp only [follow?]
  constructor
  · intro hfollow
    split at hfollow
    · simp at hfollow
    · next t price hstep =>
      obtain ⟨⟨u', rest⟩, hrest, heq⟩ := Option.map_eq_some_iff.mp hfollow
      obtain ⟨rfl, rfl⟩ := Prod.mk.inj heq
      exact ⟨t, price, rest, hstep, hrest, rfl⟩
  · rintro ⟨t, price, rest, hstep, hrest, rfl⟩
    simp [hstep, hrest]

/-- A word in two parts leads where its second part leads from the end of its first. -/
theorem follow?_append_eq_some_iff {cost : Nat} {front back : List Nat} :
    p.follow? s (front ++ back) = some (u, cost) ↔
      ∃ t spent rest, p.follow? s front = some (t, spent) ∧ p.follow? t back = some (u, rest) ∧
        cost = spent + rest := by
  induction front generalizing s cost with
  | nil => simp
  | cons position front ih =>
      rw [List.cons_append, follow?_cons_eq_some_iff]
      constructor
      · rintro ⟨t, price, later, hstep, hlater, rfl⟩
        obtain ⟨v, spent, rest, hfront, hback, rfl⟩ := ih.mp hlater
        refine ⟨v, price + spent, rest, ?_, hback, by omega⟩
        exact follow?_cons_eq_some_iff.mpr ⟨t, price, spent, hstep, hfront, rfl⟩
      · rintro ⟨v, cost', rest, hfront, hback, rfl⟩
        obtain ⟨t, price, spent, hstep, hspent, rfl⟩ := follow?_cons_eq_some_iff.mp hfront
        refine ⟨t, price, spent + rest, hstep, ?_, by omega⟩
        exact ih.mpr ⟨v, spent, rest, hspent, hback, rfl⟩

theorem follow?_concat_eq_some_iff {position cost : Nat} {word : List Nat} :
    p.follow? s (word ++ [position]) = some (u, cost) ↔
      ∃ t spent price, p.follow? s word = some (t, spent) ∧ p.step? t position = some (u, price) ∧
        cost = spent + price := by
  simp only [follow?_append_eq_some_iff, follow?_cons_eq_some_iff, follow?_nil, Option.some.injEq,
    Prod.mk.injEq]
  constructor
  · rintro ⟨t, spent, later, hword, ⟨v, price, rest, hstep, ⟨rfl, rfl⟩, hlater⟩, rfl⟩
    exact ⟨t, spent, price, hword, hstep, by omega⟩
  · rintro ⟨t, spent, price, hword, hstep, rfl⟩
    exact ⟨t, spent, price, hword, ⟨u, price, 0, hstep, ⟨rfl, rfl⟩, rfl⟩, rfl⟩

theorem Reaches.step? {position price : Nat} (hs : p.Reaches s)
    (hstep : p.step? s position = some (t, price)) : p.Reaches t := by
  obtain ⟨word, cost, hword⟩ := hs
  exact ⟨word ++ [position], cost + price,
    follow?_concat_eq_some_iff.mpr ⟨s, cost, price, hword, hstep, rfl⟩⟩

/-- What holds at the initial state and is kept by every step holds within reach. -/
theorem Reaches.induction {P : σ → Prop} (hinitial : P p.initial)
    (hstep : ∀ s t position price, P s → p.step? s position = some (t, price) → P t)
    (hs : p.Reaches s) : P s := by
  obtain ⟨word, cost, hword⟩ := hs
  induction word using List.reverseRecOn generalizing s cost with
  | nil =>
      obtain ⟨rfl, -⟩ := Prod.mk.inj (Option.some.inj hword)
      exact hinitial
  | append_singleton word position ih =>
      obtain ⟨t, spent, price, hfront, hlast, -⟩ := follow?_concat_eq_some_iff.mp hword
      exact hstep t s position price (ih spent hfront) hlast

theorem hasPositivePrices_of_fixed
    (hfixed : ∀ rule ∈ p.rules, ∃ name next, ∃ price : Nat,
      rule = Rule.fixed name (.int price) next ∧ 0 < price) : p.HasPositivePrices := by
  intro s t position cost _ hstep
  obtain ⟨rule, asked, hrule, -, -⟩ := step?_eq_some_iff.mp hstep
  obtain ⟨name, next, price, rfl, hprice⟩ := hfixed rule (List.mem_of_getElem? hrule)
  rw [step?_of_fixed price hrule] at hstep
  obtain ⟨u, -, heq⟩ := Option.map_eq_some_iff.mp hstep
  obtain ⟨-, rfl⟩ := Prod.mk.inj heq
  exact hprice

theorem HasPrice.hasPositivePrices {price : Nat} (hprice : p.HasPrice price) (hpos : 0 < price) :
    p.HasPositivePrices := by
  intro s t position cost hs hstep
  rwa [hprice.eq_of_step? hs hstep]

theorem HasPositivePrices.length_le (hpositive : p.HasPositivePrices) {word : List Nat}
    {cost : Nat} (hs : p.Reaches s) (hfollow : p.follow? s word = some (t, cost)) :
    word.length ≤ cost := by
  induction word generalizing s cost with
  | nil => exact Nat.zero_le cost
  | cons position word ih =>
      obtain ⟨u, price, later, hstep, hlater, rfl⟩ := follow?_cons_eq_some_iff.mp hfollow
      have hprice := hpositive s u position price hs hstep
      have hlength := ih (hs.step? hstep) hlater
      rw [List.length_cons]
      omega

/-- What falls by one at most along each step falls by no more than the length of a word. -/
theorem le_length_add_of_follow? {f : σ → Int}
    (hstep : ∀ s t position price, p.step? s position = some (t, price) → f s ≤ 1 + f t)
    {word : List Nat} {cost : Nat} (hfollow : p.follow? s word = some (t, cost)) :
    f s ≤ word.length + f t := by
  induction word generalizing s cost with
  | nil =>
      obtain ⟨rfl, -⟩ := Prod.mk.inj (Option.some.inj hfollow)
      simp
  | cons position word ih =>
      obtain ⟨u, price, later, hfirst, hlater, -⟩ := follow?_cons_eq_some_iff.mp hfollow
      calc f s ≤ 1 + f u := hstep s u position price hfirst
        _ ≤ 1 + (word.length + f t) := Int.add_le_add_left (ih hlater) 1
        _ = (position :: word).length + f t := by
          rw [List.length_cons]
          omega

end Problem

end StateSpace
