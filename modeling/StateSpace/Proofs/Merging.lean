import StateSpace.Proofs.Island
import Mathlib.Data.Set.Lattice
import Mathlib.Logic.Relation
import Mathlib.Order.CompletePartialOrder

/-!
# What painting merges

The islands of a board are its cells up to paths of one colour, and the mask shows the island of the
top-left cell. Once this is painted, the islands of the new colour that touch it belong to it, and no
others do: a path that leaves the painted cells enters such an island and goes on inside it. All are
merged at once, and there is one exactly if the colour stands on the border.
-/
namespace StateSpace.Flood.Board

variable {b : Board} {color : Int} {c d seed : Cell} {A : Set Cell}

/-! ### Islands -/

/-- Cells of one colour next to each other. -/
structure Bond (b : Board) (c d : Cell) : Prop where
  left : b.OnBoard c
  right : b.OnBoard d
  adjacent : Adjacent c d
  colorAt_eq : b.colorAt c = b.colorAt d

theorem Adjacent.symm (hadjacent : Adjacent c d) : Adjacent d c := by
  unfold Adjacent at hadjacent ⊢
  omega

instance (b : Board) : Std.Symm b.Bond :=
  ⟨fun _ _ hbond => ⟨hbond.right, hbond.left, hbond.adjacent.symm, hbond.colorAt_eq.symm⟩⟩

/-- The cells that paths of one colour lead to. -/
def islandOf (b : Board) (c : Cell) : Set Cell := {d | Relation.ReflTransGen b.Bond c d}

/-- The islands of a colour. -/
def islands (b : Board) (color : Int) : Set (Set Cell) :=
  {A | ∃ seed, b.OnBoard seed ∧ b.colorAt seed = color ∧ A = b.islandOf seed}

theorem mem_islandOf_self (b : Board) (c : Cell) : c ∈ b.islandOf c := .refl

theorem mem_islandOf_comm : d ∈ b.islandOf c ↔ c ∈ b.islandOf d :=
  ⟨fun h => symm_of (Relation.ReflTransGen b.Bond) h,
    fun h => symm_of (Relation.ReflTransGen b.Bond) h⟩

/-- Different islands share no cell. -/
theorem islandOf_eq_of_mem (hd : d ∈ b.islandOf c) : b.islandOf d = b.islandOf c := by
  ext e
  exact ⟨fun he => Relation.ReflTransGen.trans hd he,
    fun he => Relation.ReflTransGen.trans (mem_islandOf_comm.mp hd) he⟩

theorem onBoard_and_colorAt_of_mem_islandOf (hc : b.OnBoard c) (hd : d ∈ b.islandOf c) :
    b.OnBoard d ∧ b.colorAt d = b.colorAt c := by
  induction hd with
  | refl => exact ⟨hc, rfl⟩
  | tail hpath hbond ih => exact ⟨hbond.right, hbond.colorAt_eq.symm.trans ih.2⟩

/-- Any cell of an island stands for it. -/
theorem eq_islandOf_of_mem (hA : A ∈ b.islands color) (hc : c ∈ A) :
    A = b.islandOf c ∧ b.OnBoard c ∧ b.colorAt c = color := by
  obtain ⟨seed, hseed, rfl, rfl⟩ := hA
  exact ⟨(islandOf_eq_of_mem hc).symm, onBoard_and_colorAt_of_mem_islandOf hseed hc⟩

/-! ### The mask -/

/-- The cells that the mask shows row by row. -/
def flooded (b : Board) : Set Cell :=
  {c | (b.islandRows[c.1]?.bind fun row => row[c.2]?) = some true}

theorem mem_flooded_iff : c ∈ b.flooded ↔ b.Joined c := by
  have hshown : c ∈ b.flooded ↔ b.OnBoard c ∧ b.inMask b.island c = true := by
    obtain ⟨row, column⟩ := c
    simp only [flooded, islandRows, OnBoard, Set.mem_ofPred_eq]
    by_cases hrow : row < b.rows <;> by_cases hcolumn : column < b.cols <;> simp [hrow, hcolumn]
  rw [hshown]
  exact ⟨fun h => (inMask_island h.1).mp h.2,
    fun hjoined => ⟨hjoined.onBoard, (inMask_island hjoined.onBoard).mpr hjoined⟩⟩

theorem flooded_eq_islandOf (b : Board) : b.flooded = b.islandOf (0, 0) := by
  ext c
  rw [mem_flooded_iff]
  constructor
  · intro hjoined
    induction hjoined with
    | origin => exact b.mem_islandOf_self (0, 0)
    | step hc hd hcolor ih =>
        obtain ⟨hboard, hadjacent⟩ := (mem_neighbours_iff hc.onBoard).mp hd
        exact Relation.ReflTransGen.tail ih
          ⟨hc.onBoard, hboard, hadjacent, hc.colorAt_eq.trans hcolor.symm⟩
  · intro hpath
    induction hpath with
    | refl => exact .origin
    | tail hpath hbond ih =>
        exact ih.step ((mem_neighbours_iff hbond.left).mpr ⟨hbond.right, hbond.adjacent⟩)
          (hbond.colorAt_eq.symm.trans ih.colorAt_eq)

theorem mem_borderColors_iff_adjacent :
    color ∈ b.borderColors ↔
      ∃ c ∈ b.flooded, ∃ d ∉ b.flooded, b.OnBoard d ∧ Adjacent c d ∧ b.colorAt d = color := by
  rw [mem_borderColors_iff]
  simp only [mem_flooded_iff]
  constructor
  · rintro ⟨c, d, hc, hd, hout, hcolor⟩
    obtain ⟨hboard, hadjacent⟩ := (mem_neighbours_iff hc.onBoard).mp hd
    exact ⟨c, hc, d, hout, hboard, hadjacent, hcolor⟩
  · rintro ⟨c, hc, d, hout, hboard, hadjacent, hcolor⟩
    exact ⟨c, d, hc, (mem_neighbours_iff hc.onBoard).mpr ⟨hboard, hadjacent⟩, hout, hcolor⟩

/-! ### Touching islands -/

/-- The islands of a colour that lie outside and next to the island of the top-left cell. -/
def touching (b : Board) (color : Int) : Set (Set Cell) :=
  {A | A ∈ b.islands color ∧ Disjoint A b.flooded ∧ ∃ c ∈ b.flooded, ∃ d ∈ A, Adjacent c d}

/-- An island with a cell outside lies outside. -/
theorem disjoint_flooded (hd : d ∉ b.flooded) : Disjoint (b.islandOf d) b.flooded := by
  rw [Set.disjoint_left]
  intro e he hin
  rw [flooded_eq_islandOf] at hd hin
  have hsame : b.islandOf d = b.islandOf (0, 0) :=
    (islandOf_eq_of_mem he).symm.trans (islandOf_eq_of_mem hin)
  exact hd (hsame ▸ b.mem_islandOf_self d)

theorem islandOf_mem_touching (hc : c ∈ b.flooded) (hd : d ∉ b.flooded) (hboard : b.OnBoard d)
    (hadjacent : Adjacent c d) (hcolor : b.colorAt d = color) :
    b.islandOf d ∈ b.touching color :=
  ⟨⟨d, hboard, hcolor, rfl⟩, disjoint_flooded hd, c, hc, d, b.mem_islandOf_self d, hadjacent⟩

theorem touching_nonempty_iff : (b.touching color).Nonempty ↔ color ∈ b.borderColors := by
  rw [mem_borderColors_iff_adjacent]
  constructor
  · rintro ⟨A, hA, houtside, c, hc, d, hd, hadjacent⟩
    obtain ⟨-, hboard, hcolor⟩ := eq_islandOf_of_mem hA hd
    exact ⟨c, hc, d, Set.disjoint_left.mp houtside hd, hboard, hadjacent, hcolor⟩
  · rintro ⟨c, hc, d, hd, hboard, hadjacent, hcolor⟩
    exact ⟨_, islandOf_mem_touching hc hd hboard hadjacent hcolor⟩

/-! ### Merging -/

/-- A path from the top-left cell after painting stays inside the painted cells, or it has entered a
touching island. -/
theorem mem_of_joined_paint (hjoined : (b.paint color).Joined c) :
    c ∈ b.flooded ∪ ⋃₀ b.touching color := by
  induction hjoined with
  | origin => exact .inl (mem_flooded_iff.mpr .origin)
  | @step c d hc hd hcolor ih =>
      by_cases hin : d ∈ b.flooded
      · exact .inl hin
      have hout : ¬b.Joined d := fun h => hin (mem_flooded_iff.mpr h)
      obtain ⟨hboard, hadjacent⟩ : b.OnBoard d ∧ Adjacent c d :=
        (mem_neighbours_iff hc.onBoard).mp hd
      have hold : b.colorAt d = color := colorAt_of_joined_paint (hc.step hd hcolor) hout
      refine .inr ?_
      obtain hflooded | ⟨A, hA, hmem⟩ := ih
      · exact ⟨_, islandOf_mem_touching hflooded hin hboard hadjacent hold, b.mem_islandOf_self d⟩
      · obtain ⟨rfl, hleft, hsame⟩ := eq_islandOf_of_mem hA.1 hmem
        exact ⟨_, hA, .single ⟨hleft, hboard, hadjacent, hsame.trans hold.symm⟩⟩

/-- The colour of an island outside stays, so a cell next to the painted ones joins all of it. -/
theorem joined_paint_of_mem_touching (hA : A ∈ b.touching color) (hc : c ∈ A) :
    (b.paint color).Joined c := by
  obtain ⟨hisland, houtside, f, hf, d, hd, hadjacent⟩ := hA
  have hpainted : ∀ e ∈ A, (b.paint color).colorAt e = (b.paint color).color := by
    intro e he
    obtain ⟨-, hboard, hcolor⟩ := eq_islandOf_of_mem hisland he
    have hout : ¬b.Joined e := fun h => Set.disjoint_left.mp houtside he (mem_flooded_iff.mpr h)
    rw [color_paint, colorAt_paint_of_not_joined color hboard hout, hcolor]
  have hjoins : ∀ {e e' : Cell}, (b.paint color).Joined e → Adjacent e e' → e' ∈ A →
      (b.paint color).Joined e' := by
    intro e e' he hnext he'
    obtain ⟨-, hboard, -⟩ := eq_islandOf_of_mem hisland he'
    exact he.step ((mem_neighbours_iff he.onBoard).mpr ⟨hboard, hnext⟩) (hpainted e' he')
  obtain ⟨rfl, -, -⟩ := eq_islandOf_of_mem hisland hd
  induction hc with
  | refl => exact hjoins ((mem_flooded_iff.mp hf).paint color) hadjacent hd
  | tail hpath hbond ih => exact hjoins ih hbond.adjacent (hpath.tail hbond)

theorem flooded_paint (b : Board) (color : Int) :
    (b.paint color).flooded = b.flooded ∪ ⋃₀ b.touching color := by
  ext c
  rw [mem_flooded_iff]
  constructor
  · exact mem_of_joined_paint
  · rintro (hc | ⟨A, hA, hc⟩)
    · exact (mem_flooded_iff.mp hc).paint color
    · exact joined_paint_of_mem_touching hA hc

theorem flooded_paint_eq (hborder : color ∉ b.borderColors) :
    (b.paint color).flooded = b.flooded := by
  have hnone : b.touching color = ∅ :=
    Set.not_nonempty_iff_eq_empty.mp fun h => hborder (touching_nonempty_iff.mp h)
  rw [flooded_paint, hnone, Set.sUnion_empty, Set.union_empty]

theorem flooded_ssubset_flooded_paint (hborder : color ∈ b.borderColors) :
    b.flooded ⊂ (b.paint color).flooded := by
  obtain ⟨A, hA⟩ := touching_nonempty_iff.mpr hborder
  obtain ⟨houtside, -, -, d, hd, -⟩ := hA.2
  rw [flooded_paint]
  refine Set.ssubset_iff_exists.mpr ⟨Set.subset_union_left, d, .inr ⟨A, hA, hd⟩, ?_⟩
  exact Set.disjoint_left.mp houtside hd

/-- Painting recolours the island of the top-left cell and nothing else, and merges with it exactly
the islands of the new colour that touch it. -/
theorem paint_merges_touching (b : Board) (color : Int) :
    b.flooded = b.islandOf (0, 0) ∧
    (∀ shade, shade ∈ b.borderColors ↔
      ∃ c ∈ b.flooded, ∃ d ∉ b.flooded, b.OnBoard d ∧ Adjacent c d ∧ b.colorAt d = shade) ∧
    b.color ∉ b.borderColors ∧
    ((b.paint color).rows = b.rows ∧ (b.paint color).cols = b.cols ∧
      (∀ c ∈ b.flooded, (b.paint color).colorAt c = color) ∧
      ∀ c ∉ b.flooded, b.OnBoard c → (b.paint color).colorAt c = b.colorAt c) ∧
    (b.paint color).flooded = b.flooded ∪ ⋃₀ b.touching color ∧
    (color ∉ b.borderColors → (b.paint color).flooded = b.flooded) ∧
    (color ∈ b.borderColors → b.flooded ⊂ (b.paint color).flooded) := by
  refine ⟨b.flooded_eq_islandOf, fun shade => mem_borderColors_iff_adjacent,
    b.color_not_mem_borderColors, ⟨rfl, rfl, fun c hc => ?_, fun c hout hc => ?_⟩,
    b.flooded_paint color, flooded_paint_eq, flooded_ssubset_flooded_paint⟩
  · exact colorAt_paint_of_joined color (mem_flooded_iff.mp hc)
  · exact colorAt_paint_of_not_joined color hc fun h => hout (mem_flooded_iff.mpr h)

/-- Two islands of one colour touch the top-left cell, and the rest touches only these. -/
def corner : Board := ⟨3, 3, #[0, 1, 2, 1, 2, 2, 2, 2, 2], rfl, by decide, by decide⟩

theorem corner_merges :
    (corner.paint 1).islandRows =
        [[true, true, false], [true, false, false], [false, false, false]] ∧
      corner.flooded ⊂ (corner.paint 1).flooded ∧ (corner.paint 2).flooded = corner.flooded :=
  ⟨by decide, (paint_merges_touching corner 1).2.2.2.2.2.2 (by decide),
    (paint_merges_touching corner 2).2.2.2.2.2.1 (by decide)⟩

end StateSpace.Flood.Board
