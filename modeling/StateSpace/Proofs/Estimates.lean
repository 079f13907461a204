import StateSpace.Proofs.Queueing

/-!
# Estimates along the way

Estimates are consistent where they fall by no more than the price of a step and are zero at goals.
Then they fall by no more than the cost of a word, and the scores of an A* search, which add the cost
of a node to its estimate, do not fall along a path.
-/
namespace StateSpace

namespace Problem

variable {σ : Type} {p : Problem σ Int} {s t : σ}

/-- Within reach no estimate breaks. -/
def IsEstimated (p : Problem σ Int) : Prop := ∀ s, p.Reaches s → ∃ h, p.estimate s = .ok h

/-- Within reach estimates do not break, fall by no more than the price of a step, and are zero at
goals. -/
structure IsConsistent (p : Problem σ Int) : Prop where
  estimated : p.IsEstimated
  step : ∀ s t position, ∀ price : Nat, ∀ h h', p.Reaches s →
    p.step? s position = some (t, price) → p.estimate s = .ok h → p.estimate t = .ok h' →
    h ≤ price + h'
  goal : ∀ s, p.Reaches s → p.isGoal s = true → p.estimate s = .ok 0

/-- It is enough that the estimates are those of a function which falls in this way. -/
theorem isConsistent_of_estimate {f : σ → Int} (hestimate : ∀ s, p.estimate s = .ok (f s))
    (hstep : ∀ s t position, ∀ price : Nat, p.step? s position = some (t, price) →
      f s ≤ price + f t)
    (hgoal : ∀ s, p.isGoal s = true → f s = 0) : p.IsConsistent where
  estimated s _ := ⟨f s, hestimate s⟩
  step := by
    intro s t position price h h' _ hfollows hs ht
    rw [hestimate] at hs ht
    obtain rfl := Except.ok.inj hs
    obtain rfl := Except.ok.inj ht
    exact hstep s t position price hfollows
  goal := by
    intro s _ hfound
    rw [hestimate, hgoal s hfound]

theorem IsConsistent.le_of_follow? (hconsistent : p.IsConsistent) {word : List Nat} {cost : Nat}
    {h h' : Int} (hs : p.Reaches s) (hfollow : p.follow? s word = some (t, cost))
    (hestimate : p.estimate s = .ok h) (hestimate' : p.estimate t = .ok h') : h ≤ cost + h' := by
  induction word generalizing s cost h with
  | nil =>
      obtain ⟨rfl, rfl⟩ := Prod.mk.inj (Option.some.inj hfollow)
      rw [hestimate] at hestimate'
      have := Except.ok.inj hestimate'
      omega
  | cons position word ih =>
      obtain ⟨u, price, later, hstep, hlater, rfl⟩ := follow?_cons_eq_some_iff.mp hfollow
      have hu := hs.step? hstep
      obtain ⟨h'', hestimate''⟩ := hconsistent.estimated u hu
      have hfirst := hconsistent.step s u position price h h'' hs hstep hestimate hestimate''
      have hrest := ih hu hlater hestimate''
      push_cast
      omega

end Problem

namespace Plan

variable {σ : Type} {plan : Plan σ Int} {n m a : Node σ Int} {h : Int}

theorem score_astar (hstrategy : plan.strategy = .astar)
    (hestimate : plan.problem.estimate n.state = .ok h) : plan.score n = n.cost + h := by
  simp [score, evaluate_eq, hstrategy, hestimate, bind, Except.bind]

theorem evaluate_of_isEstimated (hestimated : plan.problem.IsEstimated)
    (hn : plan.problem.Grows n) : plan.evaluate n = .ok (plan.score n) := by
  obtain ⟨h, hestimate⟩ := hestimated n.state hn.reaches
  cases hstrategy : plan.strategy <;>
    simp [score, evaluate_eq, hstrategy, hestimate, bind, Except.bind]

section Astar

variable (hstrategy : plan.strategy = .astar)

include hstrategy

theorem score_le_iff (hestimated : plan.problem.IsEstimated) (hn : plan.problem.Grows n)
    (hstate : m.state = n.state) : plan.score m ≤ plan.score n ↔ m.cost ≤ n.cost := by
  obtain ⟨h, hestimate⟩ := hestimated n.state hn.reaches
  rw [score_astar hstrategy hestimate, score_astar hstrategy (hstate ▸ hestimate)]
  omega

/-- Scores do not fall along a path. -/
theorem score_le_of_mem_path (hconsistent : plan.problem.IsConsistent)
    (hn : plan.problem.Grows n) (ha : a ∈ n.path) : plan.score a ≤ plan.score n := by
  obtain ⟨hagrows, word, cost, -, hcost, hfollow⟩ := hn.of_mem_path ha
  obtain ⟨h, hestimate⟩ := hconsistent.estimated a.state hagrows.reaches
  obtain ⟨h', hestimate'⟩ := hconsistent.estimated n.state hn.reaches
  have hle := hconsistent.le_of_follow? hagrows.reaches hfollow hestimate hestimate'
  calc plan.score a = a.cost + h := score_astar hstrategy hestimate
    _ ≤ a.cost + (cost + h') := by omega
    _ = n.cost + h' := by omega
    _ = plan.score n := (score_astar hstrategy hestimate').symm

theorem score_le_of_mem_offspring (hconsistent : plan.problem.IsConsistent)
    (hn : plan.problem.Grows n) (hm : m ∈ plan.problem.offspring n) :
    plan.score n ≤ plan.score m := by
  obtain ⟨position, hchild⟩ := Problem.mem_offspring_iff.mp hm
  apply score_le_of_mem_path hstrategy hconsistent (hn.child hchild)
  rw [Problem.path_of_child? hchild]
  exact List.mem_append_left _ (Problem.mem_path_self n)

end Astar

end Plan

end StateSpace
