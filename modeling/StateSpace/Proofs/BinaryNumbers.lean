import StateSpace.Proofs.Doublings
import StateSpace.Proofs.UniformPrice
import Mathlib.Data.Nat.Bits
import Mathlib.Data.Nat.Log

/-!
# Numbers written in binary

Written digit by digit, a number takes a doubling for each digit after the first and an increment
for each further digit that is one. No way is shorter: where an increment carries, ones turn to
zeros, so neither move adds more than one to the count of digits and ones. Hence the number of steps
from 1 that a search takes, if its solutions are shortest.
-/
namespace StateSpace.Doubling

variable {start goal : Int} {limit : Option Int} {n : Nat}

/-! ### Digits and ones -/

/-- How many binary digits follow the first one, together with how many digits are one. -/
def weight (n : Nat) : Nat :=
  Nat.log 2 n + n.bits.count true

@[simp]
theorem weight_zero : weight 0 = 0 := by
  simp [weight]

@[simp]
theorem weight_one : weight 1 = 1 := by
  simp [weight]

theorem weight_bit (digit : Bool) (hn : n ≠ 0) :
    weight (Nat.bit digit n) = weight n + 1 + digit.toNat := by
  rw [weight, weight, Nat.log_two_bit hn, Nat.bits_append_bit n digit fun h => absurd h hn,
    List.count_cons]
  cases digit <;> simp <;> omega

theorem weight_double_le (n : Nat) : weight (n * 2) ≤ weight n + 1 := by
  by_cases hn : n = 0
  · simp [hn]
  · have hbit := weight_bit false hn
    rw [Nat.bit_val, Bool.toNat_false, Nat.mul_comm] at hbit
    exact hbit.le

theorem weight_succ_le (n : Nat) : weight (n + 1) ≤ weight n + 1 := by
  induction n using Nat.binaryRecFromOne with
  | zero => simp
  | one => exact weight_double_le 1
  | bit digit n hn ih =>
      cases digit with
      | false =>
          have hsucc : Nat.bit false n + 1 = Nat.bit true n := by simp [Nat.bit_val]
          rw [hsucc, weight_bit true hn, weight_bit false hn]
          exact le_rfl
      | true =>
          -- The carry goes on to the digits in front.
          have hsucc : Nat.bit true n + 1 = Nat.bit false (n + 1) := by
            rw [Nat.bit_val, Nat.bit_val, Bool.toNat_true, Bool.toNat_false]
            omega
          rw [hsucc, weight_bit false n.add_one_ne_zero, weight_bit true hn, Bool.toNat_false,
            Bool.toNat_true]
          omega

/-- A number below zero counts as zero. From there a move leads to zero at most. -/
theorem weight_le_of_step? {s t : Int} {position price : Nat}
    (hstep : (problem start goal limit).step? s position = some (t, price)) :
    weight t.toNat ≤ weight s.toNat + 1 := by
  obtain ⟨⟨-, rfl⟩ | ⟨-, rfl⟩, -⟩ := step?_problem_iff.mp hstep
  · by_cases hs : 0 ≤ s
    · rw [show (s + 1).toNat = s.toNat + 1 by omega]
      exact weight_succ_le s.toNat
    · rw [show (s + 1).toNat = 0 by omega, weight_zero]
      exact Nat.zero_le _
  · rw [show (s * 2).toNat = s.toNat * 2 by omega]
    exact weight_double_le s.toNat

/-- No way from 1 is shorter than what the digits take. -/
theorem weight_le_length {word : List Nat} {cost : Nat}
    (hfollow : (problem start goal limit).follow? 1 word = some ((n : Int), cost)) :
    weight n ≤ word.length + 1 := by
  have hle := Problem.le_length_add_of_follow? (f := fun s => -(weight s.toNat : Int))
    (fun s t position price hstep => by
      have hweight := weight_le_of_step? hstep
      omega) hfollow
  simp only [Int.toNat_one, Int.toNat_natCast, weight_one] at hle
  omega

/-! ### The way digit by digit -/

/-- The moves that write a number from its first digit on. -/
def digitMoves : Nat → List Nat :=
  Nat.binaryRecFromOne [] [] fun digit _ _ moves => moves ++ 1 :: if digit then [0] else []

@[simp]
theorem digitMoves_one : digitMoves 1 = [] := by
  simp [digitMoves]

theorem digitMoves_bit (digit : Bool) (hn : n ≠ 0) :
    digitMoves (Nat.bit digit n) = digitMoves n ++ 1 :: if digit then [0] else [] := by
  unfold digitMoves
  rw [Nat.binaryRecFromOne_eq digit n hn]

theorem length_digitMoves (hn : n ≠ 0) : (digitMoves n).length + 1 = weight n := by
  induction n using Nat.binaryRecFromOne with
  | zero => exact absurd rfl hn
  | one => simp
  | bit digit n hn' ih =>
      rw [digitMoves_bit digit hn', weight_bit digit hn', ← ih hn']
      cases digit <;> simp

/-- The digits of a number up to the limit lead there, through the numbers that their front parts
write. -/
theorem follow?_digitMoves (hn : n ≠ 0) (hlimit : ∀ top, limit = some top → (n : Int) ≤ top) :
    ∃ cost, (problem start goal limit).follow? 1 (digitMoves n) = some ((n : Int), cost) := by
  induction n using Nat.binaryRecFromOne with
  | zero => exact absurd rfl hn
  | one => exact ⟨0, by rw [digitMoves_one]; rfl⟩
  | bit digit n hn' ih =>
      have hvalue : ((Nat.bit digit n : Nat) : Int) = n * 2 + digit.toNat := by
        rw [Nat.bit_val]
        omega
      rw [hvalue] at hlimit ⊢
      have hfit : ∀ top, limit = some top → (n : Int) * 2 ≤ top := fun top htop =>
        (Int.le_add_of_nonneg_right (Int.natCast_nonneg _)).trans (hlimit top htop)
      obtain ⟨cost, hfollow⟩ := ih hn' fun top htop => by
        have hle := hfit top htop
        omega
      have hdouble : (problem start goal limit).follow? 1 (digitMoves n ++ [1]) =
          some ((n : Int) * 2, cost + 1) :=
        Problem.follow?_concat_eq_some_iff.mpr ⟨n, cost, 1, hfollow, step?_double hfit, rfl⟩
      rw [digitMoves_bit digit hn', List.append_cons]
      cases digit with
      | false => exact ⟨cost + 1, by simpa using hdouble⟩
      | true =>
          exact ⟨cost + 1 + 1, Problem.follow?_concat_eq_some_iff.mpr
            ⟨n * 2, cost + 1, 1, hdouble, step?_increment hlimit, rfl⟩⟩

/-! ### What the searches find -/

/-- **Shortest ways to a number.** From 1 every number up to the limit takes as many steps as its
binary digits and ones count together, less two. No word is shorter, and the solution of every
breadth-first, deepening and A* run is so long and costs as much. -/
theorem steps_eq_binary (n : Nat) (hn : 1 ≤ n) (limit : Option Int)
    (hlimit : ∀ top, limit = some top → (n : Int) ≤ top) (strategy : Strategy)
    (hgreedy : strategy ≠ .greedy) (hdfs : strategy ≠ .dfs) (discipline : Discipline)
    {engine : Search Int Int} (hallowance : engine.allowance = none) :
    (∃ word cost, (problem 1 n limit).Solves word cost ∧
      word.length = Nat.log 2 n + n.bits.count true - 1) ∧
    (∀ word cost, (problem 1 n limit).Solves word cost →
      Nat.log 2 n + n.bits.count true - 1 ≤ word.length) ∧
    ∃ turns t m, engine.run ⟨problem 1 n limit, strategy, discipline⟩ turns = .ended t ∧
      t.isFailed = false ∧ t.solution = some m ∧ m.state = n ∧
      m.depth = Nat.log 2 n + n.bits.count true - 1 ∧
      m.cost = (Nat.log 2 n + n.bits.count true - 1 : Nat) := by
  have hne : n ≠ 0 := by omega
  have hlength := length_digitMoves hne
  obtain ⟨cost, hfollow⟩ := @follow?_digitMoves 1 n limit n hne hlimit
  have hsolves : (problem 1 n limit).Solves (digitMoves n) cost := ⟨n, hfollow, isGoal_iff.mpr rfl⟩
  have hshortest : ∀ word cost, (problem 1 n limit).Solves word cost →
      weight n - 1 ≤ word.length := by
    rintro word cost ⟨m, hword, hgoal⟩
    rw [isGoal_iff.mp hgoal] at hword
    have hle := weight_le_length hword
    omega
  refine ⟨⟨digitMoves n, cost, hsolves, Nat.eq_sub_of_add_eq hlength⟩, hshortest, ?_⟩
  have hprice := Problem.hasPrice_doubling 1 n limit
  obtain ⟨turns, t, m, hrun, hfailed, hsolution, hgrows, hgoal, hfewest⟩ :=
    @Search.exists_fewest_of_solvable Int _ _ ⟨problem 1 n limit, strategy, discipline⟩ engine 1
      hprice le_rfl (isConsistent_problem 1 n limit) hallowance ⟨digitMoves n, cost, hsolves⟩
  have hupper := hfewest hgreedy hdfs (digitMoves n) cost hsolves
  obtain ⟨spent, -, hfound⟩ := hgrows.solves hgoal
  have hlower := hshortest m.positions spent hfound
  rw [hgrows.length_positions] at hlower
  have hdepth : m.depth = weight n - 1 := by omega
  refine ⟨turns, t, m, hrun, hfailed, hsolution, isGoal_iff.mp hgoal, hdepth, ?_⟩
  rw [hgrows.cost_eq hprice, hdepth, Int.natCast_one, Int.one_mul]
  rfl

/-- Ten is 1010 in binary: three doublings and one increment, and room for no more than ten. -/
theorem steps_eq_binary_ten :
    1 ≤ 10 ∧ ∃ turns t m, (Search.fresh : Search Int Int).run
      ⟨problem 1 10 (some 10), .astar, .global⟩ turns = .ended t ∧
      t.solution = some m ∧ m.depth = 4 ∧ m.cost = 4 := by
  obtain ⟨-, -, turns, t, m, hrun, -, hsolution, -, hdepth, hcost⟩ :=
    steps_eq_binary 10 (by decide) (some 10) (by simp) .astar (by decide) (by decide) .global
      (rfl : (Search.fresh : Search Int Int).allowance = none)
  have hfour : Nat.log 2 10 + (Nat.bits 10).count true - 1 = 4 := by
    decide
  rw [hfour] at hdepth hcost
  exact ⟨by decide, turns, t, m, hrun, hsolution, hdepth, hcost⟩

end StateSpace.Doubling
