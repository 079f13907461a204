import StateSpace.Proofs.Passes

/-!
# The order of the stack

Depth first, children go to the front, the one of the last rule foremost. So what waits is taken
in one fixed order of words: a word comes before those that go on from it, and where two words part,
the one that takes the later rule comes first.
-/
namespace StateSpace

/-! ### The order of words -/

/-- The words part somewhere, and there the first one takes the later rule. -/
inductive Overtakes : List Nat → List Nat → Prop where
  | here {i j : Nat} (hlater : j < i) (u v : List Nat) : Overtakes (i :: u) (j :: v)
  | deeper (i : Nat) {u v : List Nat} (hdeeper : Overtakes u v) : Overtakes (i :: u) (i :: v)

/-- A stack takes the first word no later than the second one. -/
def Precedes (u v : List Nat) : Prop := u <+: v ∨ Overtakes u v

section Words

variable {u v w : List Nat} {i j : Nat}

theorem Overtakes.trans (huv : Overtakes u v) (hvw : Overtakes v w) : Overtakes u w := by
  induction huv generalizing w with
  | here hlater u v =>
      cases hvw with
      | here hlater' => exact .here (hlater'.trans hlater) u _
      | deeper => exact .here hlater u _
  | deeper i _ ih =>
      cases hvw with
      | here hlater => exact .here hlater _ _
      | deeper _ hvw => exact .deeper i (ih hvw)

theorem Overtakes.append (huv : Overtakes u v) (back back' : List Nat) :
    Overtakes (u ++ back) (v ++ back') := by
  induction huv with
  | here hlater u v => exact .here hlater _ _
  | deeper i _ ih => exact .deeper i ih

theorem overtakes_siblings (hlater : j < i) (u : List Nat) :
    Overtakes (u ++ [i]) (u ++ [j]) := by
  induction u with
  | nil => exact .here hlater [] []
  | cons k u ih => exact .deeper k ih

theorem Overtakes.lex (huv : Overtakes u v) : List.Lex (· < ·) v u := by
  induction huv with
  | here hlater u v => exact .rel hlater
  | deeper i _ ih => exact .cons ih

/-- A word that overtakes another was overtaking it, or on the way to it, when it was shorter. -/
theorem Overtakes.of_append {back : List Nat} (h : Overtakes (u ++ back) w) : Precedes u w := by
  induction u generalizing w with
  | nil => exact Or.inl List.nil_prefix
  | cons i u ih =>
      cases h with
      | here hlater => exact Or.inr (.here hlater u _)
      | deeper _ hdeeper =>
          rcases ih hdeeper with hprefix | hovertakes
          · exact Or.inl (List.cons_prefix_cons.mpr ⟨rfl, hprefix⟩)
          · exact Or.inr (.deeper i hovertakes)

theorem Precedes.refl (u : List Nat) : Precedes u u := Or.inl (List.prefix_refl u)

theorem Precedes.append (huv : Precedes u v) (back : List Nat) : Precedes u (v ++ back) := by
  rcases huv with huv | huv
  · exact Or.inl (huv.trans (List.prefix_append v back))
  · exact Or.inr (by simpa using huv.append [] back)

theorem Precedes.trans (huv : Precedes u v) (hvw : Precedes v w) : Precedes u w := by
  rcases hvw with ⟨back, rfl⟩ | hvw
  · exact huv.append back
  · rcases huv with ⟨back, rfl⟩ | huv
    · exact hvw.of_append
    · exact Or.inr (huv.trans hvw)

theorem Precedes.eq_or_overtakes (huv : Precedes u v) (hlength : u.length = v.length) :
    u = v ∨ Overtakes u v := by
  rcases huv with huv | huv
  · exact Or.inl (huv.eq_of_length hlength)
  · exact Or.inr huv

theorem Precedes.eq_nil (hu : Precedes u []) : u = [] := by
  rcases hu with hu | hu
  · exact List.prefix_nil.mp hu
  · cases hu

end Words

namespace Search

variable {σ : Type} [DecidableEq σ] [Hashable σ] {plan : Plan σ Int} {bound : Int}
  {s t : Search σ Int}

/-! ### The order of what waits -/

/-- The nodes that were taken precede those that wait, which stand in order. -/
structure StackOrder (s : Search σ Int) : Prop where
  tested : ∀ n ∈ s.tested, ∀ m ∈ s.frontier.items, Precedes n.positions m.positions
  waiting : s.frontier.items.Pairwise fun a b => Overtakes a.positions b.positions

/-- The node that is taken comes between those taken before it and those that still wait. -/
theorem StackOrder.of_takes {n : Node σ Int} {rest : List (Entry (Node σ Int) Int)}
    (order : StackOrder s) (takes : Takes plan s n rest t) :
    (∀ k ∈ s.tested, Precedes k.positions n.positions) ∧
      (∀ m ∈ rest.map (·.item), Overtakes n.positions m.positions) ∧
      (∀ k ∈ t.tested, ∀ m ∈ rest.map (·.item), Precedes k.positions m.positions) ∧
      (rest.map (·.item)).Pairwise fun a b => Overtakes a.positions b.positions := by
  obtain ⟨key, hfront⟩ := takes.front
  obtain ⟨hfirst, hsorted⟩ := Frontier.pairwise_of_front hfront order.waiting
  refine ⟨fun k hk => order.tested k hk n takes.mem_items.1, hfirst, ?_, hsorted⟩
  intro k hk m hm
  rw [takes.tested] at hk
  rcases List.mem_cons.mp hk with rfl | hk
  · exact Or.inr (hfirst m hm)
  · exact order.tested k hk m (takes.mem_items.2 m hm)

theorem StackOrder.turn (hstrategy : plan.strategy = .dfs ∨ plan.strategy = .iddfs)
    (order : StackOrder s) (hturn : Turn plan s t) : StackOrder t := by
  cases hturn with
  | skipped n rest takes _ hfrontier =>
      obtain ⟨-, -, hrest, hsorted⟩ := order.of_takes takes
      refine ⟨?_, ?_⟩
      · rw [hfrontier]
        exact hrest
      · rw [hfrontier]
        exact hsorted
  | expanded n rest takes _ _ _ hqueue =>
      obtain ⟨htaken, hfirst, hrest, hsorted⟩ := order.of_takes takes
      obtain ⟨f, hf, hitems⟩ := Plan.queue?_dfs hstrategy rest (plan.problem.offspring n)
      obtain rfl := Option.some.inj (hf.symm.trans hqueue)
      refine ⟨?_, ?_⟩
      · intro k hk m hm
        rw [hitems] at hm
        rcases List.mem_append.mp hm with hm | hm
        · obtain ⟨i, hword⟩ := Problem.positions_of_mem_offspring (List.mem_reverse.mp hm)
          rw [hword]
          rw [takes.tested] at hk
          rcases List.mem_cons.mp hk with rfl | hk
          · exact (Precedes.refl _).append [i]
          · exact (htaken k hk).append [i]
        · exact hrest k hk m hm
      · rw [hitems, List.pairwise_append, List.pairwise_reverse]
        refine ⟨(plan.problem.pairwise_offspring n).imp ?_, hsorted, ?_⟩
        · rintro a b ⟨i, j, hlt, ha, hb⟩
          rw [Problem.positions_of_child? ha, Problem.positions_of_child? hb]
          exact overtakes_siblings hlt n.positions
        · intro c hc m hm
          obtain ⟨i, hword⟩ := Problem.positions_of_mem_offspring (List.mem_reverse.mp hc)
          rw [hword]
          simpa using (hfirst m hm).append [i] []

theorem Pass.stackOrder (hstrategy : plan.strategy = .dfs ∨ plan.strategy = .iddfs)
    (hs : Pass plan bound s) : StackOrder s := by
  induction hs with
  | start s =>
      refine ⟨?_, List.pairwise_singleton _ _⟩
      intro n hn
      cases hn
  | turn hs hturn ih => exact ih.turn hstrategy (turn_of_running hturn)

theorem StackOrder.front {n : Node σ Int} {key : Option Int}
    {rest : List (Entry (Node σ Int) Int)} (order : StackOrder s)
    (hfront : s.frontier.toList = ⟨n, key⟩ :: rest) :
    ∀ m ∈ s.frontier.items, Precedes n.positions m.positions := by
  intro m hm
  rcases Frontier.eq_or_of_front hfront order.waiting m hm with rfl | hovertakes
  · exact Precedes.refl _
  · exact Or.inr hovertakes

end Search

end StateSpace
