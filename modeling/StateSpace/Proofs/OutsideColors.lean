import StateSpace.Proofs.Estimates
import StateSpace.Proofs.Flooding
import Mathlib.Data.List.Nodup

/-!
# Colours outside the island

A step of the game recolours the island and joins cells of one colour to it. The cells that stay
outside keep their colours, so the colours outside are those from before, with or without the one
that was painted. That their number falls by one at most makes it an estimate which no way to a goal
undercuts; it is zero where nothing is outside, which is on boards of one colour alone. The colour
of the island plays no part in this, and may stand outside as well.
-/
namespace StateSpace.Flood

namespace Board

variable {b : Board} {color : Int}

/-- The colours of the cells outside the island. -/
def shades (b : Board) : Set Int := b.colorAt '' b.outside

theorem finite_shades (b : Board) : b.shades.Finite :=
  (b.finite_onBoard.subset fun _ hc => hc.1).image b.colorAt

/-- Painting brings no colour out. -/
theorem shades_paint_subset (b : Board) (color : Int) : (b.paint color).shades ⊆ b.shades := by
  rintro shade ⟨c, ⟨hc, hout⟩, rfl⟩
  have hbefore : ¬b.Joined c := fun hjoined => hout (hjoined.paint color)
  exact ⟨c, ⟨hc, hbefore⟩, (colorAt_paint_of_not_joined (b := b) color hc hbefore).symm⟩

/-- Painting takes at most its own colour in. -/
theorem shades_subset_insert (b : Board) (color : Int) :
    b.shades ⊆ insert color (b.paint color).shades := by
  rintro shade ⟨c, ⟨hc, hout⟩, rfl⟩
  by_cases hjoined : (b.paint color).Joined c
  · exact Or.inl (colorAt_of_joined_paint hjoined hout)
  · exact Or.inr ⟨c, ⟨hc, hjoined⟩, colorAt_paint_of_not_joined (b := b) color hc hout⟩

theorem shades_eq_empty_iff : b.shades = ∅ ↔ b.isUniform = true := by
  rw [shades, Set.image_eq_empty, isUniform_iff, Set.eq_empty_iff_forall_notMem]
  simp only [outside, Set.mem_ofPred_eq, not_and, not_not]

/-! ### Their number -/

theorem nodup_eraseDups (colors : List Int) : colors.eraseDups.Nodup := by
  match colors with
  | [] => exact List.nodup_nil
  | color :: rest =>
      rw [List.eraseDups_cons, List.nodup_cons]
      exact ⟨by simp, nodup_eraseDups _⟩
  termination_by colors.length
  decreasing_by exact Nat.lt_succ_of_le (List.length_filter_le _ _)

/-- The estimate counts each colour outside once. -/
theorem outsideColors_eq (b : Board) : b.outsideColors = b.shades.ncard := by
  have hshades : b.shades = (((b.allCells.filter fun c => !b.inMask b.island c).map
      b.colorAt).eraseDups.toFinset : Set Int) := by
    ext shade
    simp only [shades, outside, Set.mem_image, Set.mem_ofPred_eq, List.coe_toFinset,
      List.mem_eraseDups, List.mem_map, List.mem_filter, mem_allCells_iff, Bool.not_eq_true',
      ← Bool.not_eq_true]
    refine exists_congr fun c => and_congr_left fun _ => and_congr_right fun hc => ?_
    exact not_congr (inMask_island hc).symm
  rw [hshades, Set.ncard_coe_finset, List.toFinset_card_of_nodup (nodup_eraseDups _)]
  rfl

theorem outsideColors_eq_zero_iff : b.outsideColors = 0 ↔ b.isUniform = true := by
  rw [outsideColors_eq, Set.ncard_eq_zero b.finite_shades, shades_eq_empty_iff]

theorem outsideColors_paint_le (b : Board) (color : Int) :
    (b.paint color).outsideColors ≤ b.outsideColors := by
  rw [outsideColors_eq, outsideColors_eq]
  exact Set.ncard_le_ncard (b.shades_paint_subset color) b.finite_shades

theorem outsideColors_le_paint (b : Board) (color : Int) :
    b.outsideColors ≤ 1 + (b.paint color).outsideColors := by
  rw [outsideColors_eq, outsideColors_eq]
  calc b.shades.ncard
      ≤ (insert color (b.paint color).shades).ncard :=
        Set.ncard_le_ncard (b.shades_subset_insert color)
          ((b.paint color).finite_shades.insert color)
    _ ≤ (b.paint color).shades.ncard + 1 := Set.ncard_insert_le _ _
    _ = 1 + (b.paint color).shades.ncard := Nat.add_comm _ _

end Board

/-! ### Along the steps of the game -/

variable {board b t : Board} {colors : Int}

theorem estimate_problem (board b : Board) (colors : Int) :
    (problem board colors).estimate b = .ok (b.outsideColors : Int) := rfl

theorem outsideColors_of_step? {position price : Nat}
    (hstep : (problem board colors).step? b position = some (t, price)) :
    b.outsideColors ≤ 1 + t.outsideColors ∧ t.outsideColors ≤ b.outsideColors := by
  obtain ⟨-, -, rfl, -⟩ := step?_problem_iff.mp hstep
  exact ⟨b.outsideColors_le_paint position, b.outsideColors_paint_le position⟩

theorem isConsistent_problem (board : Board) (colors : Int) :
    (problem board colors).IsConsistent := by
  refine Problem.isConsistent_of_estimate (fun b => estimate_problem board b colors)
    (fun b t position price hstep => ?_) (fun b hgoal => ?_)
  · obtain ⟨-, -, -, rfl⟩ := step?_problem_iff.mp hstep
    exact_mod_cast (outsideColors_of_step? hstep).1
  · rw [Board.outsideColors_eq_zero_iff.mpr hgoal]
    rfl

/-- No way to a board of one colour has fewer steps than there are colours outside. -/
theorem outsideColors_le_length {word : List Nat} {cost : Nat}
    (hfollow : (problem board colors).follow? b word = some (t, cost))
    (huniform : t.isUniform = true) : b.outsideColors ≤ word.length := by
  have hle := Problem.le_length_add_of_follow? (f := fun b => (b.outsideColors : Int))
    (fun _ _ _ _ hstep => by exact_mod_cast (outsideColors_of_step? hstep).1) hfollow
  have hzero : t.outsideColors = 0 := Board.outsideColors_eq_zero_iff.mpr huniform
  rw [hzero] at hle
  exact_mod_cast hle

/-- **The colours outside are a consistent estimate.** What the game estimates at a board, whatever
board it began with, is the number of colours outside the island. It is zero exactly on boards of
one colour, a step of the game lowers it by at most one and never raises it, and no word that leads
to a board of one colour is shorter. -/
theorem estimate_le_length (board b : Board) (colors : Int) :
    (problem board colors).estimate b = .ok (b.outsideColors : Int) ∧
    b.outsideColors = (b.colorAt '' b.outside).ncard ∧
    (b.outsideColors = 0 ↔ b.isUniform = true) ∧
    (∀ t position price, (problem board colors).step? b position = some (t, price) →
      price = 1 ∧ b.outsideColors ≤ 1 + t.outsideColors ∧ t.outsideColors ≤ b.outsideColors) ∧
    (problem board colors).IsConsistent ∧
    ∀ t word cost, (problem board colors).follow? b word = some (t, cost) → t.isUniform = true →
      b.outsideColors ≤ word.length := by
  refine ⟨estimate_problem board b colors, b.outsideColors_eq, Board.outsideColors_eq_zero_iff,
    fun t position price hstep => ?_, isConsistent_problem board colors,
    fun t word cost => outsideColors_le_length⟩
  obtain ⟨-, -, -, hprice⟩ := step?_problem_iff.mp hstep
  exact ⟨hprice, outsideColors_of_step? hstep⟩

/-- The colour of the island stands outside as well. Three colours do, but three paints are not
enough. -/
def striped : Board := ⟨1, 5, #[0, 1, 0, 2, 0], rfl, by decide, by decide⟩

theorem estimate_striped :
    striped.outsideColors = 3 ∧ striped.outsideColors ≤ 1 + (striped.paint 1).outsideColors ∧
      ∃ t, (problem striped 3).follow? striped [1, 0, 2, 0] = some (t, 4) ∧ t.isUniform = true ∧
        striped.outsideColors ≤ 4 := by
  obtain ⟨-, -, -, hsteps, -, hwords⟩ := estimate_le_length striped striped 3
  have hstep : (problem striped 3).step? striped 1 = some (striped.paint 1, 1) :=
    step?_problem_iff.mpr (by decide)
  have hword : (problem striped 3).follow? striped [1, 0, 2, 0] =
      some ((((striped.paint 1).paint 0).paint 2).paint 0, 4) := by decide
  have huniform : ((((striped.paint 1).paint 0).paint 2).paint 0).isUniform = true :=
    Board.outsideColors_eq_zero_iff.mp (by decide)
  exact ⟨by decide, (hsteps _ 1 1 hstep).2.1, _, hword, huniform, hwords _ _ _ hword huniform⟩

end StateSpace.Flood
