import StateSpace.Proofs.Agreement
import StateSpace.Proofs.Doublings
import StateSpace.Proofs.FiniteSpace
import Mathlib.Algebra.Group.Int.Even
import Mathlib.Algebra.Ring.Parity

/-!
# An odd goal among even numbers

Steps of two and doublings keep a number even, so from an even start no run finds an odd goal. From
two up each of these moves leads up by two at least. There the limit leaves only so many levels of
the search tree as it leaves even numbers above the start, and every run fails, also one without an
admission test: it has closed the start and the even numbers between it and the limit, and
breadth-first search has expanded each of them once.
-/
namespace StateSpace.Doubling

variable {start goal limit n m : Int}

/-! ### Moves -/

theorem step?_evens_iff {position price : Nat} :
    (evens start goal limit).step? n position = some (m, price) ↔
      (position = 0 ∧ m = n + 2 ∨ position = 1 ∧ m = n * 2) ∧ m ≤ limit ∧ price = 1 := by
  have hsteps := @step?_of_moves n m (some limit) Int (evens start goal limit) "add_two" "double"
    (· + 2) (· * 2) rfl position price
  simpa using hsteps

theorem isGoal_evens_iff : (evens start goal limit).isGoal n = true ↔ n = goal := beq_iff_eq

theorem ifAtMost_int (move : Int → Int) {moveOver : Value → Except Defect Value}
    (hmove : moveOver (.int n) = .ok (.int (move n))) :
    ifAtMost (.int limit) moveOver (.int n) =
      .ok ((within (some limit) (move n)).map .int) := by
  simp only [ifAtMost, hmove, within, bind, Except.bind, Value.isAtMost_int]
  by_cases habove : limit < move n
  · simp [habove]
  · simp [habove, not_lt.mp habove]

/-- At integers the variant over values is the same. -/
theorem evensOver_int (start goal limit n : Int) :
    let p := evensOver (.int start) (.int goal) (.int limit)
    p.initial = .int start ∧ p.isGoal (.int n) = (evens start goal limit).isGoal n ∧
      p.heuristic = none ∧ (evens start goal limit).heuristic = none ∧
      ∀ position, p.step? (.int n) position =
        ((evens start goal limit).step? n position).map fun (m, price) => (.int m, price) := by
  refine ⟨rfl, (Bool.and_true _).trans (Value.sameSize_int n goal), rfl, rfl, fun position => ?_⟩
  match position with
  | 0 => exact step?_checked rfl rfl (ifAtMost_int (· + 2) rfl)
  | 1 => exact step?_checked rfl rfl (ifAtMost_int (· * 2) rfl)
  | position + 2 => rfl

/-! ### What is within reach -/

theorem even_of_reaches (heven : Even start) (hn : (evens start goal limit).Reaches n) :
    Even n := by
  refine Problem.Reaches.induction (P := Even) heven (fun n m position price hn hstep => ?_) hn
  obtain ⟨hmove, -, -⟩ := step?_evens_iff.mp hstep
  rcases hmove with ⟨-, rfl⟩ | ⟨-, rfl⟩
  · exact hn.add even_two
  · exact even_two.mul_left n

/-- No number within reach of an even one is an odd goal. -/
theorem notGoal_of_reaches (heven : Even start) (hodd : Odd goal)
    (hn : (evens start goal limit).Reaches n) : (evens start goal limit).isGoal n = false := by
  refine Bool.eq_false_iff.mpr fun hgoal => ?_
  have hn := even_of_reaches heven hn
  rw [isGoal_evens_iff.mp hgoal] at hn
  exact Int.not_even_iff_odd.mpr hodd hn

/-- Steps of two lead to all even numbers up to the limit. -/
theorem reaches_add_two_mul (k : Nat) (hle : start + 2 * k ≤ max start limit) :
    (evens start goal limit).Reaches (start + 2 * k) := by
  induction k with
  | zero =>
      rw [Nat.cast_zero, mul_zero, add_zero]
      exact ⟨[], 0, rfl⟩
  | succ k ih =>
      have hlimit : start + 2 * k + 2 ≤ limit := by omega
      have hnext : start + 2 * ((k + 1 : Nat) : Int) = start + 2 * k + 2 := by push_cast; ring
      rw [hnext]
      exact (ih (by omega)).step?
        (step?_evens_iff.mpr ⟨Or.inl ⟨rfl, rfl⟩, hlimit, rfl⟩)

theorem reaches_evens_iff (heven : Even start) (htwo : 2 ≤ start) :
    (evens start goal limit).Reaches n ↔ n = start ∨ Even n ∧ start < n ∧ n ≤ limit := by
  constructor
  · intro hn
    have hrange : n = start ∨ start < n ∧ n ≤ limit := by
      refine Problem.Reaches.induction (P := fun n => n = start ∨ start < n ∧ n ≤ limit)
        (Or.inl rfl) (fun n m position price hn hstep => ?_) hn
      obtain ⟨hmove, hlimit, -⟩ := step?_evens_iff.mp hstep
      omega
    exact hrange.imp_right fun habove => ⟨even_of_reaches heven hn, habove⟩
  · rintro (rfl | ⟨hn, habove, hle⟩)
    · exact ⟨[], 0, rfl⟩
    · obtain ⟨half, hhalf⟩ := hn.sub heven
      obtain ⟨k, rfl⟩ := Int.eq_ofNat_of_zero_le (show 0 ≤ half by omega)
      have hsum : n = start + 2 * k := by omega
      rw [hsum]
      exact reaches_add_two_mul k (by omega)

/-- How many steps of two lead up from the start before the limit. -/
def room (start limit : Int) : Nat := ((limit - start) / 2).toNat

theorem setOf_reaches_evens (heven : Even start) (htwo : 2 ≤ start) :
    {n | (evens start goal limit).Reaches n} =
      ((Finset.range (room start limit + 1)).image fun k : Nat => start + 2 * k : Finset Int) := by
  ext n
  rw [Set.mem_ofPred_eq, reaches_evens_iff heven htwo, Finset.coe_image, Set.mem_image]
  simp only [Finset.coe_range, Set.mem_Iio, room]
  constructor
  · rintro (rfl | ⟨hn, habove, hle⟩)
    · exact ⟨0, by omega, by simp⟩
    · obtain ⟨half, hhalf⟩ := hn.sub heven
      exact ⟨half.toNat, by omega, by omega⟩
  · rintro ⟨k, hk, rfl⟩
    rcases Nat.eq_zero_or_pos k with rfl | hpos
    · exact Or.inl (by simp)
    · exact Or.inr ⟨heven.add (even_two_mul _), by omega, by omega⟩

theorem encard_reaches_evens (heven : Even start) (htwo : 2 ≤ start) :
    {n | (evens start goal limit).Reaches n}.encard = (room start limit + 1 : Nat) := by
  have hinjective : Function.Injective fun k : Nat => start + 2 * (k : Int) := by
    intro j k heq
    simp only at heq
    omega
  rw [setOf_reaches_evens heven htwo, Set.encard_coe_eq_coe_finsetCard,
    Finset.card_image_of_injective _ hinjective, Finset.card_range]

/-- From two up each move leads up by two at least. -/
theorem depth_le_room (htwo : 2 ≤ start) {k : Node Int Int}
    (hk : (evens start goal limit).Grows k) : k.depth ≤ room start limit := by
  have hheight : start + 2 * k.depth ≤ k.state ∧ (k.depth = 0 ∨ k.state ≤ limit) := by
    induction hk with
    | root => exact ⟨by simp [Node.depth, Node.state, evens], Or.inl rfl⟩
    | child hk hchild ih =>
        obtain ⟨price, hstep, -⟩ := Problem.step?_of_child? hchild
        obtain ⟨hmove, hlimit, -⟩ := step?_evens_iff.mp hstep
        rw [Problem.depth_of_child? hchild]
        push_cast
        omega
  unfold room
  omega

/-! ### Runs -/

theorem isEstimated_evens (start goal limit : Int) : (evens start goal limit).IsEstimated :=
  fun _ _ => ⟨0, rfl⟩

theorem solution_evens (strategy : Strategy) (discipline : Discipline) (engine : Search Int Int)
    (heven : Even start) (hodd : Odd goal) (turns : Nat) :
    (engine.run ⟨evens start goal limit, strategy, discipline⟩ turns).search.solution = none := by
  have hmoment := Search.moment_run ⟨evens start goal limit, strategy, discipline⟩ engine turns
  refine Option.eq_none_iff_forall_ne_some.mpr fun n hsolution => ?_
  obtain ⟨s, key, rest, hs, hfront, hgoal, -⟩ := hmoment.exists_front hsolution
  obtain ⟨before, -, hpass⟩ := hs.exists_pass
  have hn := hpass.ledger.waiting n (Frontier.mem_items_of_front hfront)
  rw [notGoal_of_reaches heven hodd hn.reaches] at hgoal
  cases hgoal

/-- **An odd goal among even numbers is never found.** From an even start no run under any strategy
and ordering ever has a solution. From an even start of two or more every run ends with a failure. It
has closed the start and the even numbers above it up to the limit and no others; and breadth-first
search, if it takes no node too deep, has expanded each of them once. -/
theorem failed_of_odd_goal (start goal limit : Int) (strategy : Strategy)
    (discipline : Discipline) (engine : Search Int Int) (heven : Even start) (hodd : Odd goal) :
    let plan : Plan Int Int := ⟨evens start goal limit, strategy, discipline⟩
    (∀ turns, (engine.run plan turns).search.solution = none) ∧
    (2 ≤ start → engine.allowance = none → ∃ turns t, engine.run plan turns = .ended t ∧
      t.isFailed = true ∧
      (∀ n, n ∈ t.closed ↔ n = start ∨ Even n ∧ start < n ∧ n ≤ limit) ∧
      (strategy = .bfs → (∀ n ∈ t.popped, (n.depth : Int) ≤ unbounded) →
        (t.expansions : Int) = 1 + max 0 ((limit - start) / 2))) := by
  intro plan
  refine ⟨solution_evens strategy discipline engine heven hodd, fun htwo hallowance => ?_⟩
  have hpriced : plan.problem.IsPriced :=
    (Problem.hasPrice_of_evenRules (p := evens start goal limit) rfl).isPriced
  obtain ⟨turns, t, hrun, -, hverdict, -⟩ :=
    @Search.decides_of_depth_le Int _ _ plan engine (room start limit)
      (fun k hk => depth_le_room htwo hk) hallowance hpriced (isEstimated_evens start goal limit)
  have hfailed : t.isFailed = true := by
    rw [← Bool.not_eq_false, hverdict]
    rintro ⟨n, hn⟩
    have hnone : (engine.run plan turns).search.solution = none :=
      solution_evens strategy discipline engine heven hodd turns
    rw [hrun, Progress.search, hn] at hnone
    cases hnone
  obtain ⟨s, hs, hempty, hhit, rfl⟩ := Search.exists_drained_of_failed hrun hfailed
  obtain ⟨before, -, hpass⟩ := hs.exists_pass
  refine ⟨turns, _, hrun, hfailed, fun n => ?_, ?_⟩
  · exact (hpass.mem_closed_iff hempty hhit n).trans (reaches_evens_iff heven htwo)
  · rintro rfl hpopped
    have hcount := Search.expansions_of_failed hpriced hrun hfailed hpopped
    rw [encard_reaches_evens heven htwo, Nat.cast_inj] at hcount
    rw [← hcount, room]
    push_cast
    omega

/-- Greedy search for 7 from 4 under the odd limit 9 ends, and has closed 4, 6 and 8. Under a limit
below the start breadth-first search expands nothing but the start. -/
theorem failed_of_odd_goal_seven :
    (∃ turns t, (Search.fresh : Search Int Int).run ⟨evens 4 7 9, .greedy, .global⟩ turns =
      .ended t ∧ t.isFailed = true ∧ 8 ∈ t.closed ∧ 10 ∉ t.closed ∧ 7 ∉ t.closed) ∧
    ∃ turns t, (Search.fresh : Search Int Int).run ⟨evens 4 7 1, .bfs, .batch⟩ turns = .ended t ∧
      ((∀ n ∈ t.popped, (n.depth : Int) ≤ unbounded) → t.expansions = 1) := by
  obtain ⟨-, hgreedy⟩ :=
    failed_of_odd_goal 4 7 9 .greedy .global Search.fresh (by decide) (by decide)
  obtain ⟨-, hbreadth⟩ := failed_of_odd_goal 4 7 1 .bfs .batch Search.fresh (by decide) (by decide)
  obtain ⟨turns, t, hrun, hfailed, hclosed, -⟩ := hgreedy (by decide) rfl
  obtain ⟨turns', u, hrun', -, -, hcount⟩ := hbreadth (by decide) rfl
  refine ⟨⟨turns, t, hrun, hfailed, ?_, ?_, ?_⟩, turns', u, hrun', fun hpopped => ?_⟩
  · exact (hclosed 8).mpr (by decide)
  · exact fun hmem => absurd ((hclosed 10).mp hmem) (by decide)
  · exact fun hmem => absurd ((hclosed 7).mp hmem) (by decide)
  · have hone : (1 : Int) + max 0 ((1 - 4) / 2) = 1 := by decide
    exact_mod_cast (hcount rfl hpopped).trans hone

end StateSpace.Doubling
