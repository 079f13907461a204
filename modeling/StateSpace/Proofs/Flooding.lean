import StateSpace.Problems.Flood.Game
import StateSpace.Proofs.Island
import StateSpace.Proofs.Walks
import Mathlib.Data.Set.Card

/-!
# Flooding is decided by the colours outside

Every step of the game joins a cell more to the island, so no path is longer than the number of
cells outside, and every strategy decides the game. Cells outside keep their colours, and what a step
joins had a colour of the game: so whether all colours outside belong to the game is the same along
every path. Where they do, a border always offers a step, and where they do not, no step ever joins
the last cells.
-/
namespace StateSpace.Flood

namespace Board

variable {b : Board} {color colors : Int}

/-! ### The cells outside -/

/-- The cells that are not joined to the top-left one. -/
def outside (b : Board) : Set Cell := {c | b.OnBoard c ∧ ¬b.Joined c}

theorem finite_onBoard (b : Board) : {c | b.OnBoard c}.Finite :=
  (List.finite_toSet b.allCells).subset fun _ hc => mem_allCells_iff.mpr hc

theorem ncard_onBoard_le (b : Board) : {c | b.OnBoard c}.ncard ≤ b.rows * b.cols := by
  have hcells : {c | b.OnBoard c} = (b.allCells.toFinset : Set Cell) := by
    ext c
    simp [mem_allCells_iff]
  calc {c | b.OnBoard c}.ncard = b.allCells.toFinset.card := by rw [hcells, Set.ncard_coe_finset]
    _ ≤ b.allCells.length := List.toFinset_card_le _
    _ = b.rows * b.cols := by rw [length_allCells, b.size_eq]

theorem ncard_outside_lt (b : Board) : b.outside.ncard < b.rows * b.cols := by
  have hstrict : b.outside ⊂ {c | b.OnBoard c} := by
    refine ⟨fun c hc => hc.1, fun hsubset => ?_⟩
    exact (hsubset b.onBoard_origin).2 .origin
  exact (Set.ncard_lt_ncard hstrict b.finite_onBoard).trans_le b.ncard_onBoard_le

theorem ncard_outside_paint_lt (hborder : color ∈ b.borderColors) :
    (b.paint color).outside.ncard < b.outside.ncard := by
  obtain ⟨d, hout, hd⟩ := exists_joined_paint hborder
  have hstrict : (b.paint color).outside ⊂ b.outside := by
    refine ⟨fun c hc => ⟨hc.1, fun hjoined => hc.2 (hjoined.paint color)⟩, fun hsubset => ?_⟩
    exact (hsubset ⟨hd.onBoard, hout⟩).2 hd
  exact Set.ncard_lt_ncard hstrict (b.finite_onBoard.subset fun c hc => hc.1)

/-- The colours outside the island belong to the game. -/
def IsPaintable (b : Board) (colors : Int) : Prop :=
  ∀ c ∈ b.outside, 0 ≤ b.colorAt c ∧ b.colorAt c < colors

theorem isPaintable_paint_iff (hcolor : 0 ≤ color ∧ color < colors) :
    (b.paint color).IsPaintable colors ↔ b.IsPaintable colors := by
  constructor
  · rintro hpaintable c ⟨hc, hout⟩
    by_cases hjoined : (b.paint color).Joined c
    · rwa [colorAt_of_joined_paint hjoined hout]
    · rw [← colorAt_paint_of_not_joined color hc hout]
      exact hpaintable c ⟨hc, hjoined⟩
  · rintro hpaintable c ⟨hc, hout⟩
    have hbefore : ¬b.Joined c := fun hjoined => hout (hjoined.paint color)
    rw [colorAt_paint_of_not_joined (b := b) color hc hbefore]
    exact hpaintable c ⟨hc, hbefore⟩

theorem isPaintable_of_isUniform (huniform : b.isUniform = true) : b.IsPaintable colors :=
  fun c hc => absurd (isUniform_iff.mp huniform c hc.1) hc.2

end Board

/-! ### The steps of the game -/

open Board

variable {board b t : Board} {colors : Int} {n : Node Board Int}

theorem rule_problem {position : Nat} (hposition : position < colors.toNat) :
    (problem board colors).rules[position]? = some (paintRule position) := by
  simp [problem, hposition]

/-- A step paints the island in a colour of the game that stands on the border. -/
theorem step?_problem_iff {position price : Nat} :
    (problem board colors).step? b position = some (t, price) ↔
      position < colors.toNat ∧ (position : Int) ∈ b.borderColors ∧ t = b.paint position ∧
        price = 1 := by
  by_cases hposition : position < colors.toNat
  · rw [Problem.step?_of_fixed 1 (rule_problem hposition)]
    by_cases hborder : (position : Int) ∈ b.borderColors
    · have hcolor : (position : Int) ≠ b.color := by
        intro hsame
        rw [hsame] at hborder
        exact b.color_not_mem_borderColors hborder
      simp [hposition, hborder, hcolor, eq_comm]
    · simp [hborder]
  · have hnone : (problem board colors).rules[position]? = none := by
      simpa [problem] using hposition
    simp [Problem.step?, hnone, hposition]

theorem hasPrice_problem (board : Board) (colors : Int) : (problem board colors).HasPrice 1 := by
  refine Problem.hasPrice_of_fixed fun rule hrule => ?_
  obtain ⟨color, -, rfl⟩ := List.mem_map.mp hrule
  exact ⟨_, _, rfl⟩

theorem exists_step_of_child? {m : Node Board Int} {position : Nat}
    (hchild : (problem board colors).child? n position = some m) :
    position < colors.toNat ∧ (position : Int) ∈ n.state.borderColors ∧
      m.state = n.state.paint position := by
  obtain ⟨price, hstep, -⟩ := Problem.step?_of_child? hchild
  obtain ⟨hposition, hborder, hstate, -⟩ := step?_problem_iff.mp hstep
  exact ⟨hposition, hborder, hstate⟩

/-- A step deeper there is a cell less outside. -/
theorem depth_add_ncard_outside_le (hn : (problem board colors).Grows n) :
    n.depth + n.state.outside.ncard ≤ board.outside.ncard := by
  induction hn with
  | root => exact (Nat.zero_add _).le
  | child hn hchild ih =>
      obtain ⟨-, hborder, hstate⟩ := exists_step_of_child? hchild
      have hless := ncard_outside_paint_lt hborder
      rw [Problem.depth_of_child? hchild, hstate]
      omega

theorem depth_lt (hn : (problem board colors).Grows n) : n.depth < board.rows * board.cols := by
  have hle := depth_add_ncard_outside_le hn
  have hlt := board.ncard_outside_lt
  omega

theorem isPaintable_iff_of_grows (hn : (problem board colors).Grows n) :
    n.state.IsPaintable colors ↔ board.IsPaintable colors := by
  induction hn with
  | root => rfl
  | child hn hchild ih =>
      obtain ⟨hposition, -, hstate⟩ := exists_step_of_child? hchild
      rw [hstate, isPaintable_paint_iff (by omega), ih]

/-- Where the colours outside belong to the game, some border leads on until none is left. -/
theorem exists_goal_of_isPaintable (hb : (problem board colors).Reaches b)
    (hpaintable : b.IsPaintable colors) :
    ∃ x, (problem board colors).Reaches x ∧ (problem board colors).isGoal x = true := by
  induction hcount : b.outside.ncard using Nat.strong_induction_on generalizing b with
  | _ count ih =>
      cases huniform : b.isUniform with
      | true => exact ⟨b, hb, huniform⟩
      | false =>
          obtain ⟨c, d, hc, hd, hout⟩ := exists_border huniform
          have hdboard := ((mem_neighbours_iff hc.onBoard).mp hd).1
          obtain ⟨hzero, hlt⟩ := hpaintable d ⟨hdboard, hout⟩
          obtain ⟨position, hposition⟩ := Int.eq_ofNat_of_zero_le hzero
          have hborder : (position : Int) ∈ b.borderColors :=
            mem_borderColors_iff.mpr ⟨c, d, hc, hd, hout, hposition⟩
          have hstep : (problem board colors).step? b position = some (b.paint position, 1) :=
            step?_problem_iff.mpr ⟨by omega, hborder, rfl, rfl⟩
          exact ih _ (hcount ▸ ncard_outside_paint_lt hborder) (hb.step? hstep)
            ((isPaintable_paint_iff (by omega)).mpr hpaintable) rfl

theorem exists_goal_iff :
    (∃ x, (problem board colors).Reaches x ∧ (problem board colors).isGoal x = true) ↔
      board.IsPaintable colors := by
  constructor
  · rintro ⟨x, ⟨word, cost, hfollow⟩, hgoal⟩
    obtain ⟨n, hn, -, rfl, -⟩ := Problem.exists_grows_of_follow? hfollow
    exact (isPaintable_iff_of_grows hn).mp (isPaintable_of_isUniform hgoal)
  · exact exists_goal_of_isPaintable ⟨[], 0, rfl⟩

theorem isPaintable_iff : b.IsPaintable colors ↔
    ∀ c ∈ b.allCells, b.inMask b.island c = false → 0 ≤ b.colorAt c ∧ b.colorAt c < colors := by
  have hout : ∀ c, c ∈ b.outside ↔ c ∈ b.allCells ∧ b.inMask b.island c = false := by
    intro c
    rw [mem_allCells_iff, ← Bool.not_eq_true]
    exact and_congr_right fun hc => not_congr (inMask_island hc).symm
  simp [IsPaintable, hout]

/-- **Flooding is decided by the colours outside.** Whatever the strategy and the ordering, a run on
a board ends, and it ends with a solution just where every cell outside the island has a colour of
the game. All nodes that it makes are less deep than the board has cells. -/
theorem solves_iff_paintable (board : Board) (colors : Int) (strategy : Strategy)
    (discipline : Discipline) {start : Search Board Int} (hallowance : start.allowance = none) :
    (∃ turns t, start.run ⟨problem board colors, strategy, discipline⟩ turns = .ended t ∧
      ((∃ n, t.solution = some n) ↔ ∀ c ∈ board.allCells, board.inMask board.island c = false →
        0 ≤ board.colorAt c ∧ board.colorAt c < colors) ∧
      (t.isFailed = false ↔ ∃ n, t.solution = some n)) ∧
    ∀ turns n, n ∈ (start.run ⟨problem board colors, strategy, discipline⟩
          turns).search.frontier.items ∨
        n ∈ (start.run ⟨problem board colors, strategy, discipline⟩ turns).search.popped →
      n.depth ≤ board.rows * board.cols - 1 := by
  have hdepth : ∀ n, (problem board colors).Grows n → n.depth ≤ board.rows * board.cols - 1 :=
    fun n hn => Nat.le_sub_one_of_lt (depth_lt hn)
  constructor
  · obtain ⟨turns, t, hrun, hsolved, hfailed, -⟩ :=
      @Search.decides_of_depth_le Board _ _ ⟨problem board colors, strategy, discipline⟩ start _
        hdepth hallowance (hasPrice_problem board colors).isPriced fun _ _ => ⟨_, rfl⟩
    exact ⟨turns, t, hrun, hsolved.trans (exists_goal_iff.trans isPaintable_iff), hfailed⟩
  · intro turns n hn
    have hmoment := Search.moment_run ⟨problem board colors, strategy, discipline⟩ start turns
    rcases hn with hn | hn
    · exact hdepth n (hmoment.grows_of_waiting n hn)
    · exact hdepth n (hmoment.grows_of_popped n hn)

/-- Two rows of two cells. With three colours the board is flooded, and with two it is not. -/
def quartered : Board := ⟨2, 2, #[0, 1, 2, 1], rfl, by decide, by decide⟩

theorem solves_quartered :
    (∃ turns t, (Search.fresh : Search Board Int).run ⟨problem quartered 3, .greedy, .global⟩ turns =
      .ended t ∧ ∃ n, t.solution = some n) ∧
    ∃ turns t, (Search.fresh : Search Board Int).run ⟨problem quartered 2, .iddfs, .batch⟩ turns =
      .ended t ∧ t.isFailed = true := by
  obtain ⟨⟨turns, t, hrun, hsolved, -⟩, -⟩ :=
    @solves_iff_paintable quartered 3 .greedy .global Search.fresh rfl
  obtain ⟨⟨turns', t', hrun', hsolved', hfailed'⟩, -⟩ :=
    @solves_iff_paintable quartered 2 .iddfs .batch Search.fresh rfl
  have hnone : ¬∃ n, t'.solution = some n := by
    rw [hsolved']
    decide
  rw [← hfailed', Bool.not_eq_false] at hnone
  exact ⟨⟨turns, t, hrun, hsolved.mpr (by decide)⟩, turns', t', hrun', hnone⟩

end StateSpace.Flood
