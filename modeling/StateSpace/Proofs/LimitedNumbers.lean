import StateSpace.Proofs.Doublings
import StateSpace.Proofs.UniformPrice
import Mathlib.Data.Int.Interval
import Mathlib.Order.Interval.Set.Infinite

/-!
# Numbers below a limit

From zero up no move leads down, so a limit leaves finitely many numbers within reach: those between
the start and the limit. It holds from above only. Below zero a doubling leads down, and where the
first of them is below the limit, so are all that follow. Then every number up to the limit is
within reach, and a run that finds no goal among them never ends. A limit so far down that the first
doubling is above it blocks every move.
-/
namespace StateSpace.Doubling

variable {start goal top n m : Int}

theorem reaches_succ (hn : (problem start goal (some top)).Reaches n) (hle : n + 1 ≤ top) :
    (problem start goal (some top)).Reaches (n + 1) :=
  hn.step? (step?_increment fun _ htop => Option.some.inj htop ▸ hle)

theorem reaches_double (hn : (problem start goal (some top)).Reaches n) (hle : n * 2 ≤ top) :
    (problem start goal (some top)).Reaches (n * 2) :=
  hn.step? (step?_double fun _ htop => Option.some.inj htop ▸ hle)

theorem reaches_start (start goal top : Int) : (problem start goal (some top)).Reaches start :=
  ⟨[], 0, rfl⟩

/-- Steps of one lead to every number from here up to the limit. -/
theorem reaches_of_le (hn : (problem start goal (some top)).Reaches n) (hle : n ≤ m)
    (htop : m ≤ top) : (problem start goal (some top)).Reaches m := by
  induction m, hle using Int.leInduction with
  | base => exact hn
  | succ m hle ih => exact reaches_succ (ih (by omega)) htop

/-- Below zero each doubling leads further down. -/
theorem reaches_pow (hnegative : start < 0) (hdouble : start * 2 ≤ top) (doublings : Nat) :
    (problem start goal (some top)).Reaches (start * 2 ^ doublings) := by
  induction doublings with
  | zero => simpa using reaches_start start goal top
  | succ doublings ih =>
      have hdown : start * 2 ^ doublings ≤ start * 1 :=
        mul_le_mul_of_nonpos_left (one_le_pow₀ one_le_two) hnegative.le
      rw [pow_succ, ← mul_assoc]
      exact reaches_double ih (by omega)

/-- What is within reach under a limit. -/
theorem reaches_iff : (problem start goal (some top)).Reaches n ↔
    n = start ∨ n ≤ top ∧ (start < n ∨ start < 0 ∧ start * 2 ≤ top) := by
  constructor
  · intro hn
    refine Problem.Reaches.induction
      (P := fun n => n = start ∨ n ≤ top ∧ (start < n ∨ start < 0 ∧ start * 2 ≤ top))
      (Or.inl rfl) (fun n m position price hn hstep => ?_) hn
    obtain ⟨hmove, hlimit, -⟩ := step?_problem_iff.mp hstep
    have hle := hlimit top rfl
    omega
  · rintro (rfl | ⟨hle, habove | ⟨hnegative, hdouble⟩⟩)
    · exact reaches_start n goal top
    · exact reaches_of_le (reaches_start start goal top) habove.le hle
    · -- So many doublings lead below `n`, and from there on steps of one lead up to it.
      have hdown : start * 2 ^ n.natAbs ≤ n := by
        have hpower : (n.natAbs : Int) < 2 ^ n.natAbs := by
          exact_mod_cast Nat.lt_two_pow_self
        calc start * 2 ^ n.natAbs ≤ -1 * 2 ^ n.natAbs :=
              mul_le_mul_of_nonneg_right (by omega) (pow_nonneg zero_le_two _)
          _ ≤ n := by omega
      exact reaches_of_le (reaches_pow hnegative hdouble n.natAbs) hdown hle

theorem finite_reaches_iff :
    {n | (problem start goal (some top)).Reaches n}.Finite ↔ 0 ≤ start ∨ top < start * 2 := by
  simp only [reaches_iff]
  constructor
  · intro hfinite
    by_contra hdown
    refine Set.Iic_infinite top (hfinite.subset fun n hn => Or.inr ⟨hn, Or.inr ?_⟩)
    omega
  · intro hbounded
    refine ((Set.finite_Ioc start top).insert start).subset ?_
    rintro n (rfl | ⟨hle, hn⟩)
    · exact Set.mem_insert n _
    · exact Set.mem_insert_of_mem start ⟨by omega, hle⟩

theorem exists_solves_iff : (∃ word cost, (problem start goal (some top)).Solves word cost) ↔
    (problem start goal (some top)).Reaches goal := by
  simp only [Problem.Solves, Problem.Reaches, isGoal_iff, exists_eq_right]

/-- Where the numbers within reach go down without end and the goal is above the limit, so does the
run. -/
theorem running_of_unbounded (strategy : Strategy) (discipline : Discipline)
    {engine : Search Int Int} (hallowance : engine.allowance = none)
    (hdown : ¬(0 ≤ start ∨ top < start * 2))
    (hout : ¬(problem start goal (some top)).Reaches goal) (turns : Nat) :
    ∃ s, engine.run ⟨problem start goal (some top), strategy, discipline⟩ turns = .running s := by
  have hconsistent := isConsistent_problem start goal (some top)
  refine Search.running_of_infinite
    (Search.unbroken_of_estimated hallowance
      (Problem.hasPrice_doubling start goal (some top)).isPriced hconsistent.estimated)
    (fun hfinite => hdown (finite_reaches_iff.mp hfinite)) (fun n hn => ?_) turns
  exact Bool.eq_false_iff.mpr fun hfound => hout (isGoal_iff.mp hfound ▸ hn)

/-- **A limit bounds numbers from above.** Within reach of the start under a limit are the numbers
above it up to the limit; from below zero, where the first doubling is not blocked, all numbers up
to the limit. So they are finitely many just where the start is not below zero or the first doubling
is blocked. There a run with an admission test ends, with success if and only if the goal is within
reach. Elsewhere a run of any strategy succeeds if the goal is within reach, and goes on forever if
it is not. -/
theorem decides_of_limit (start goal top : Int) (strategy : Strategy) (discipline : Discipline)
    {engine : Search Int Int} (hallowance : engine.allowance = none) :
    let p := problem start goal (some top)
    let plan : Plan Int Int := ⟨p, strategy, discipline⟩
    (∀ n, p.Reaches n ↔ n = start ∨ n ≤ top ∧ (start < n ∨ start < 0 ∧ start * 2 ≤ top)) ∧
    ({n | p.Reaches n}.Finite ↔ 0 ≤ start ∨ top < start * 2) ∧
    ((0 ≤ start ∨ top < start * 2) → strategy ≠ .greedy → ∃ turns t,
      engine.run plan turns = .ended t ∧ ((∃ n, t.solution = some n) ↔ p.Reaches goal) ∧
        (t.isFailed = false ↔ p.Reaches goal)) ∧
    (p.Reaches goal → ∃ turns t n,
      engine.run plan turns = .ended t ∧ t.isFailed = false ∧ t.solution = some n) ∧
    (¬(0 ≤ start ∨ top < start * 2) → ¬p.Reaches goal → ∀ turns, ∃ s,
      engine.run plan turns = .running s) := by
  intro p plan
  have hprice : p.HasPrice 1 := Problem.hasPrice_doubling start goal (some top)
  have hconsistent : p.IsConsistent := isConsistent_problem start goal (some top)
  refine ⟨fun n => reaches_iff, finite_reaches_iff, fun hbounded hgreedy => ?_, fun hgoal => ?_,
    fun hdown hout => running_of_unbounded strategy discipline hallowance hdown hout⟩
  · have hfound : (∃ n, p.Reaches n ∧ p.isGoal n = true) ↔ p.Reaches goal := by
      simp only [p, isGoal_iff, exists_eq_right]
    obtain ⟨turns, t, hrun, hsolved, hfailed, -⟩ :=
      @Search.exists_fewest_of_price Int _ _ plan engine 1 hprice le_rfl hconsistent hgreedy
        (finite_reaches_iff.mpr hbounded) hallowance
    exact ⟨turns, t, hrun, hsolved.trans hfound, hfailed.trans (hsolved.trans hfound)⟩
  · obtain ⟨turns, t, n, hrun, hfailed, hsolution, -⟩ :=
      @Search.exists_fewest_of_solvable Int _ _ plan engine 1 hprice le_rfl hconsistent hallowance
        (exists_solves_iff.mpr hgoal)
    exact ⟨turns, t, n, hrun, hfailed, hsolution⟩

/-- From 0 all numbers up to 5 are within reach, 3 among them. From -3 all below it are and 0 is
not, so a search for 0 goes on forever. -/
theorem decides_of_limit_five :
    (Search.fresh : Search Int Int).allowance = none ∧
      (∃ turns t, (Search.fresh : Search Int Int).run ⟨problem 0 3 (some 5), .dfs, .batch⟩ turns =
        .ended t ∧ t.isFailed = false) ∧
      ∀ turns, ∃ s, (Search.fresh : Search Int Int).run
        ⟨problem (-3) 0 (some (-4)), .astar, .global⟩ turns = .running s := by
  obtain ⟨hreach, -, hends, -⟩ := decides_of_limit 0 3 5 .dfs .batch
    (rfl : (Search.fresh : Search Int Int).allowance = none)
  obtain ⟨turns, t, hrun, -, hfailed⟩ := hends (by decide) (by decide)
  obtain ⟨hbelow, -, -, -, hforever⟩ := decides_of_limit (-3) 0 (-4) .astar .global
    (rfl : (Search.fresh : Search Int Int).allowance = none)
  exact ⟨rfl, ⟨turns, t, hrun, hfailed.mpr ((hreach 3).mpr (by decide))⟩,
    hforever (by decide) fun hgoal => absurd ((hbelow 0).mp hgoal) (by decide)⟩

/-- From -1 the doublings -2, -4, ... stay below the limit 2, so it keeps nothing finite there, and
the dive for 3 never ends. -/
theorem unbounded_below :
    ¬{n | (problem (-1) 3 (some 2)).Reaches n}.Finite ∧
      ∀ turns, ∃ s, (Search.fresh : Search Int Int).run ⟨problem (-1) 3 (some 2), .dfs, .batch⟩
        turns = .running s :=
  ⟨fun hfinite => absurd (finite_reaches_iff.mp hfinite) (by decide),
    running_of_unbounded .dfs .batch rfl (by decide) fun hgoal =>
      absurd (reaches_iff.mp hgoal) (by decide)⟩

end StateSpace.Doubling
