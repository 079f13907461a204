import StateSpace.Problems.Doubling
import StateSpace.Proofs.Estimates
import Mathlib.Algebra.Order.Ring.Int
import Mathlib.Computability.StateTransition

/-!
# Estimating by doublings

A loop doubles a number as long as it stays below the goal. It always ends, and it counts the power
of two that takes the number just short of the goal. No move more than doubles a positive number, so
a move undoes one doubling at most, and no way to the goal is shorter than this count. Zero and
numbers below it, or from the goal up, are not estimated and count as zero.
-/
namespace StateSpace.Doubling

variable {start goal n m : Int} {limit : Option Int}

/-! ### Moves -/

theorem within_eq_some_iff :
    within limit n = some m ↔ m = n ∧ ∀ top, limit = some top → n ≤ top := by
  cases limit with
  | none => simp [within, eq_comm]
  | some top => by_cases habove : n > top <;> simp [within, habove, eq_comm, not_lt.mp]

section Moves

variable {κ : Type} {p : Problem Int κ} {name name' : String}

/-- Where the rules are two moves under a limit, a step takes the move at its position. -/
theorem step?_of_moves (move move' : Int → Int)
    (hrules : p.rules =
      [Rule.unit name fun n => within limit (move n),
        Rule.unit name' fun n => within limit (move' n)]) {position price : Nat} :
    p.step? n position = some (m, price) ↔
      (position = 0 ∧ m = move n ∨ position = 1 ∧ m = move' n) ∧
        (∀ top, limit = some top → m ≤ top) ∧ price = 1 := by
  have hmove : ∀ move : Int → Int,
      (within limit (move n)).map (fun t => (t, 1)) = some (m, price) ↔
        m = move n ∧ (∀ top, limit = some top → m ≤ top) ∧ price = 1 := by
    intro move
    simp only [Option.map_eq_some_iff, within_eq_some_iff, Prod.mk.injEq]
    constructor
    · rintro ⟨t, ⟨rfl, hwithin⟩, rfl, rfl⟩
      exact ⟨rfl, hwithin, rfl⟩
    · rintro ⟨rfl, hwithin, rfl⟩
      exact ⟨_, ⟨rfl, hwithin⟩, rfl, rfl⟩
  match position with
  | 0 =>
      rw [Problem.step?_of_fixed (p := p) 1 (by rw [hrules]; rfl)]
      simpa using hmove move
  | 1 =>
      rw [Problem.step?_of_fixed (p := p) 1 (by rw [hrules]; rfl)]
      simpa using hmove move'
  | position + 2 =>
      have hnone : p.rules[position + 2]? = none := by
        rw [hrules]
        rfl
      simp [Problem.step?, hnone]

end Moves

theorem step?_problem_iff {position price : Nat} :
    (problem start goal limit).step? n position = some (m, price) ↔
      (position = 0 ∧ m = n + 1 ∨ position = 1 ∧ m = n * 2) ∧ (∀ top, limit = some top → m ≤ top) ∧
        price = 1 :=
  step?_of_moves (· + 1) (· * 2) rfl

theorem step?_increment (hlimit : ∀ top, limit = some top → n + 1 ≤ top) :
    (problem start goal limit).step? n 0 = some (n + 1, 1) :=
  step?_problem_iff.mpr ⟨Or.inl ⟨rfl, rfl⟩, hlimit, rfl⟩

theorem step?_double (hlimit : ∀ top, limit = some top → n * 2 ≤ top) :
    (problem start goal limit).step? n 1 = some (n * 2, 1) :=
  step?_problem_iff.mpr ⟨Or.inr ⟨rfl, rfl⟩, hlimit, rfl⟩

/-! ### The loop -/

/-- One round of the loop, on the count and the number reached: it goes on where the double stays
below the goal. -/
def round? (goal : Int) : Int × Int → Option (Int × Int)
  | (count, reach) => if reach * 2 < goal then some (count + 1, reach * 2) else none

/-- From a positive number the loop ends, and it has counted the doublings. -/
theorem exists_mem_eval_round {reach : Int} (hpositive : 0 < reach) (goal count : Int) :
    ∃ last, (count + doublings goal reach, last) ∈
      StateTransition.eval (round? goal) (count, reach) := by
  fun_induction doublings goal reach generalizing count with
  | case1 reach hbelow ih =>
      have hround : round? goal (count, reach) = some (count + 1, reach * 2) := if_pos hbelow.2
      obtain ⟨last, hlast⟩ := ih (by omega) (count + 1)
      refine ⟨last, ?_⟩
      rw [StateTransition.reaches_eval (.single hround), Int.add_comm (doublings goal (reach * 2)),
        ← Int.add_assoc]
      exact hlast
  | case2 reach hstop =>
      have hround : round? goal (count, reach) = none :=
        if_neg fun hbelow => hstop ⟨hpositive, hbelow⟩
      rw [Int.add_zero]
      exact ⟨reach, StateTransition.mem_eval.mpr ⟨.refl, hround⟩⟩

/-! ### The estimate -/

theorem doublings_nonneg (goal reach : Int) : 0 ≤ doublings goal reach := by
  fun_induction doublings goal reach with
  | case1 reach hbelow ih => omega
  | case2 reach hstop => exact le_rfl

/-- So many doublings and one more stay below the goal just where the loop counts them all. -/
theorem succ_le_doublings_iff {reach : Int} (hpositive : 0 < reach) (k : Nat) :
    k + 1 ≤ doublings goal reach ↔ reach * 2 ^ (k + 1) < goal := by
  induction k generalizing reach with
  | zero =>
      rw [doublings]
      have hnonneg := doublings_nonneg goal (reach * 2)
      by_cases hbelow : reach * 2 < goal
      · rw [if_pos ⟨hpositive, hbelow⟩]
        simp
        omega
      · rw [if_neg fun h => hbelow h.2]
        simp
        omega
  | succ k ih =>
      have hpower : reach * 2 ^ (k + 1 + 1) = reach * 2 * 2 ^ (k + 1) := by ring
      rw [doublings]
      by_cases hbelow : reach * 2 < goal
      · rw [if_pos ⟨hpositive, hbelow⟩, hpower, ← ih (by omega)]
        push_cast
        omega
      · have hlarge : reach * 2 ≤ reach * 2 * 2 ^ (k + 1) :=
          le_mul_of_one_le_right (by omega) (one_le_pow₀ (by omega))
        rw [if_neg fun h => hbelow h.2, hpower]
        push_cast
        omega

/-- The estimate, zero where there is none. -/
abbrev count (goal n : Int) : Int := (estimate goal n).getD 0

theorem estimate_problem (start goal n : Int) (limit : Option Int) :
    (problem start goal limit).estimate n = .ok (count goal n) := rfl

theorem count_nonneg (goal n : Int) : 0 ≤ count goal n := by
  unfold count estimate
  split
  · exact le_rfl
  · exact doublings_nonneg goal n

/-- At every number the estimate counts the doublings that stay below the goal. -/
theorem succ_le_count_iff (k : Nat) :
    k + 1 ≤ count goal n ↔ 0 < n ∧ n * 2 ^ (k + 1) < goal := by
  unfold count estimate
  split
  · next hout =>
    have hlarge : 0 < n → n ≤ n * 2 ^ (k + 1) :=
      fun hpositive => le_mul_of_one_le_right hpositive.le (one_le_pow₀ (by omega))
    simp only [Option.getD_none]
    omega
  · next hin =>
    rw [Option.getD_some, succ_le_doublings_iff (by omega)]
    have hpositive : 0 < n := by omega
    simp [hpositive]

theorem count_le_of_step? {position price : Nat}
    (hstep : (problem start goal limit).step? n position = some (m, price)) :
    count goal n ≤ 1 + count goal m := by
  obtain ⟨hmove, -, -⟩ := step?_problem_iff.mp hstep
  by_contra hmore
  obtain ⟨k, hk⟩ := Int.eq_ofNat_of_zero_le (count_nonneg goal m)
  -- Two doublings more than at `m` are left at `n`, and the move took one of them at most.
  have hleft : ((k + 1 : Nat) : Int) + 1 ≤ count goal n := by omega
  obtain ⟨hpositive, hbelow⟩ := (succ_le_count_iff (k + 1)).mp hleft
  have hle : m ≤ n * 2 := by omega
  have hagain : (k : Int) + 1 ≤ count goal m := by
    refine (succ_le_count_iff k).mpr ⟨by omega, ?_⟩
    calc m * 2 ^ (k + 1) ≤ n * 2 * 2 ^ (k + 1) :=
          mul_le_mul_of_nonneg_right hle (pow_nonneg zero_le_two _)
      _ = n * 2 ^ (k + 1 + 1) := by ring
      _ < goal := hbelow
  omega

theorem isGoal_iff : (problem start goal limit).isGoal n = true ↔ n = goal := beq_iff_eq

theorem count_goal (goal : Int) : count goal goal = 0 := by
  simp [count, estimate]

theorem isConsistent_problem (start goal : Int) (limit : Option Int) :
    (problem start goal limit).IsConsistent := by
  refine Problem.isConsistent_of_estimate (fun n => estimate_problem start goal n limit)
    (fun n m position price hstep => ?_) (fun n hgoal => ?_)
  · obtain ⟨-, -, rfl⟩ := step?_problem_iff.mp hstep
    exact count_le_of_step? hstep
  · rw [isGoal_iff.mp hgoal, count_goal]

theorem count_le_length {word : List Nat} {cost : Nat}
    (hfollow : (problem start goal limit).follow? n word = some (goal, cost)) :
    count goal n ≤ word.length := by
  have hle := Problem.le_length_add_of_follow? (f := count goal)
    (fun _ _ _ _ hstep => count_le_of_step? hstep) hfollow
  rwa [count_goal, Int.add_zero] at hle

/-! ### Over values -/

/-- Where the fuel lasts, the doublings of integers are counted alike. -/
theorem doublingsOver_int {reach : Int} {fuel : Nat} (hpositive : 0 < reach)
    (hfuel : doublings goal reach ≤ fuel) :
    (doublingsOver (.int goal) (.int reach) fuel : Int) = doublings goal reach := by
  induction fuel generalizing reach with
  | zero => exact le_antisymm (doublings_nonneg goal reach) hfuel
  | succ fuel ih =>
      have hnext : (Number.int reach).mul? (.int 2) = some (.int (reach * 2)) := rfl
      rw [doublings] at hfuel ⊢
      simp only [doublingsOver, hnext, Number.less, decide_eq_true_eq]
      by_cases hbelow : reach * 2 < goal
      · rw [if_pos ⟨hpositive, hbelow⟩] at hfuel
        rw [if_pos hbelow, if_pos ⟨hpositive, hbelow⟩, Int.natCast_add,
          ih (by omega) (by push_cast at hfuel; omega)]
        rfl
      · rw [if_neg hbelow, if_neg fun h => hbelow h.2]
        rfl

/-- The fuel lasts, as the goal has so many binary digits. -/
theorem doublings_le_fuel {reach : Int} (hpositive : 0 < reach) :
    doublings goal reach ≤ doublingFuel (.int goal) := by
  obtain ⟨k, hk⟩ := Int.eq_ofNat_of_zero_le (doublings_nonneg goal reach)
  rw [hk]
  cases k with
  | zero => exact Int.natCast_nonneg _
  | succ k =>
      have hpower : (2 : Int) ^ (k + 1) < goal := by
        calc (2 : Int) ^ (k + 1) ≤ reach * 2 ^ (k + 1) :=
              le_mul_of_one_le_left (pow_nonneg zero_le_two _) hpositive
          _ < goal := (succ_le_doublings_iff hpositive k).mp (by rw [hk]; push_cast; exact le_rfl)
      have hle : 2 ^ (k + 1) ≤ goal.natAbs := by
        have hcast : ((2 ^ (k + 1) : Nat) : Int) = 2 ^ (k + 1) := by push_cast; rfl
        omega
      have hdigits : k + 1 ≤ goal.natAbs.log2 :=
        (Nat.le_log2 (Nat.ne_of_gt ((Nat.two_pow_pos _).trans_le hle))).mpr hle
      exact_mod_cast hdigits.trans (Nat.le_add_left _ _)

theorem estimateOver_int (goal n : Int) :
    estimateOver (.int goal) (.int n) = .ok ((estimate goal n).map .int) := by
  simp only [estimateOver, Value.isAtMost_int, bind, Except.bind, Number.ofValue?, estimate,
    decide_eq_true_eq, ge_iff_le]
  by_cases hgoal : goal ≤ n
  · simp [hgoal]
  by_cases hpositive : n ≤ 0
  · simp [hpositive]
  rw [if_neg hgoal, if_neg hpositive, if_neg (by omega),
    doublingsOver_int (by omega) (doublings_le_fuel (by omega))]
  rfl

theorem unlessAbove_int (move : Int → Int) {moveOver : Value → Except Defect Value}
    (hmove : moveOver (.int n) = .ok (.int (move n))) :
    unlessAbove (limit.map .int) moveOver (.int n) =
      .ok ((within limit (move n)).map .int) := by
  cases limit with
  | none => simp [unlessAbove, hmove, within, bind, Except.bind]
  | some top =>
      simp only [unlessAbove, hmove, within, bind, Except.bind, Option.map_some, Value.isBelow_int]
      by_cases habove : top < move n <;> simp [habove]

theorem step?_checked {κ μ : Type} {p : Problem Value κ} {q : Problem Int μ} {position : Nat}
    {name : String} {next : Int → Option Int} {nextOver : Value → Except Defect (Option Value)}
    (hrule : p.rules[position]? = some (Rule.checked (.text name) (.int 1) nextOver))
    (hrule' : q.rules[position]? = some (Rule.unit name next))
    (hnext : nextOver (.int n) = .ok ((next n).map .int)) :
    p.step? (.int n) position = (q.step? n position).map fun (m, price) => (.int m, price) := by
  rw [Problem.step?_of_fixed 1 hrule']
  simp only [Problem.step?, hrule, Rule.checked, hnext]
  cases next n <;> rfl

/-- At integers the problem over values is the same. -/
theorem problemOver_int (start goal n : Int) (limit : Option Int) :
    let p := problemOver (.int start) (.int goal) ((limit.map Value.int).getD .null)
    p.initial = .int start ∧ p.isGoal (.int n) = (problem start goal limit).isGoal n ∧
      p.heuristic.map (· (.int n)) = some (.ok ((estimate goal n).map .int)) ∧
      ∀ position, p.step? (.int n) position =
        ((problem start goal limit).step? n position).map fun (m, price) => (.int m, price) := by
  have hlimit : (if (limit.map Value.int).getD .null = .null then none
      else some ((limit.map Value.int).getD .null)) = limit.map Value.int := by
    cases limit <;> simp
  refine ⟨rfl, ?_, ?_, fun position => ?_⟩
  · exact (Bool.and_true _).trans (Value.sameSize_int n goal)
  · exact congrArg some (estimateOver_int goal n)
  · unfold problemOver
    rw [hlimit]
    match position with
    | 0 => exact step?_checked rfl rfl (unlessAbove_int (· + 1) rfl)
    | 1 => exact step?_checked rfl rfl (unlessAbove_int (· * 2) rfl)
    | position + 2 => rfl

/-! ### What the estimate says -/

/-- **Doublings as an estimate.** Below the goal, the loop ends with the number of doublings that
take a positive number just short of it, and this is the estimate. Everywhere else there is none,
and it counts as zero. A move from any number to another lowers it by one at most, and no word that
leads to the goal is shorter than it. -/
theorem estimate_eq_doublings (start goal n : Int) (limit : Option Int) :
    (0 < n ∧ n < goal → ∃ k : Nat, ∃ last,
      ((k : Int), last) ∈ StateTransition.eval (round? goal) (0, n) ∧
      estimate goal n = some (k : Int) ∧ n * 2 ^ k < goal ∧ goal ≤ n * 2 ^ (k + 1)) ∧
    (¬(0 < n ∧ n < goal) → estimate goal n = none) ∧
    (problem start goal limit).estimate n = .ok ((estimate goal n).getD 0) ∧
    (∀ m position price, (problem start goal limit).step? n position = some (m, price) →
      (estimate goal n).getD 0 ≤ 1 + (estimate goal m).getD 0) ∧
    ∀ word cost, (problem start goal limit).follow? n word = some (goal, cost) →
      (estimate goal n).getD 0 ≤ word.length := by
  refine ⟨?_, fun hout => if_pos (by omega), estimate_problem start goal n limit,
    fun m position price => count_le_of_step?, fun word cost => count_le_length⟩
  rintro ⟨hpositive, hbelow⟩
  have hestimate : estimate goal n = some (doublings goal n) := if_neg (by omega)
  obtain ⟨last, hlast⟩ := exists_mem_eval_round hpositive goal 0
  obtain ⟨k, hk⟩ := Int.eq_ofNat_of_zero_le (doublings_nonneg goal n)
  rw [Int.zero_add, hk] at hlast
  refine ⟨k, last, hlast, hk ▸ hestimate, ?_, ?_⟩
  · cases k with
    | zero => simpa using hbelow
    | succ k => exact (succ_le_doublings_iff hpositive k).mp (by rw [hk]; push_cast; exact le_rfl)
  · by_contra hmore
    have hle := (succ_le_doublings_iff hpositive k).mpr (not_le.mp hmore)
    omega

/-- Twice 3 doubled is just short of 13, and one step more leads there. -/
theorem estimate_three :
    (∃ last, (2, last) ∈ StateTransition.eval (round? 13) (0, 3)) ∧
      (problem 1 13 none).step? 3 0 = some (4, 1) ∧
      (estimate 13 3).getD 0 ≤ 1 + (estimate 13 4).getD 0 ∧
      (problem 1 13 none).follow? 3 [1, 1, 0] = some (13, 3) ∧ (estimate 13 3).getD 0 ≤ 3 ∧
      estimate 13 (-3) = none := by
  obtain ⟨hloop, -, -, hsteps, hwords⟩ := estimate_eq_doublings 1 13 3 none
  obtain ⟨k, last, hlast, hestimate, -⟩ := hloop (by decide)
  have htwo : estimate 13 3 = some 2 := by simp [estimate, doublings]
  rw [Option.some.inj (hestimate.symm.trans htwo)] at hlast
  exact ⟨⟨last, hlast⟩, rfl, hsteps 4 0 1 rfl, rfl, hwords [1, 1, 0] 3 rfl,
    (estimate_eq_doublings 1 13 (-3) none).2.1 (by decide)⟩

end StateSpace.Doubling
