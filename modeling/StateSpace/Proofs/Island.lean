import StateSpace.Problems.Flood.Board
import Mathlib.Data.List.Perm.Subperm

/-!
# The island of a board

A cell is joined to the top-left one if neighbours of the island's colour lead there. The island that
a board spreads is the set of these cells: each turn settles one waiting cell, no cell waits twice,
and there are no more turns needed than cells. Painting the island keeps all cells joined, and a
colour of the border joins more; a board with no border is joined as a whole, since neighbours lead
from the top-left cell to every other.
-/
namespace StateSpace.Flood.Board

variable {b : Board} {c d : Cell}

/-! ### Cells -/

def OnBoard (b : Board) (c : Cell) : Prop := c.1 < b.rows ∧ c.2 < b.cols

/-- Two cells next to each other in a row or in a column. -/
def Adjacent (c d : Cell) : Prop :=
  (c.1 = d.1 ∧ (c.2 + 1 = d.2 ∨ d.2 + 1 = c.2)) ∨ c.2 = d.2 ∧ (c.1 + 1 = d.1 ∨ d.1 + 1 = c.1)

theorem onBoard_origin (b : Board) : b.OnBoard (0, 0) := ⟨b.rows_pos, b.cols_pos⟩

theorem mem_allCells_iff : c ∈ b.allCells ↔ b.OnBoard c := by
  obtain ⟨r, k⟩ := c
  simp [allCells, OnBoard]

theorem length_allCells (b : Board) : b.allCells.length = b.cells.size := by
  simp [allCells, b.size_eq, List.length_flatMap]

theorem mem_neighbours_iff (hc : b.OnBoard c) :
    d ∈ b.neighbours c ↔ b.OnBoard d ∧ Adjacent c d := by
  obtain ⟨r, k⟩ := c
  obtain ⟨r', k'⟩ := d
  unfold OnBoard at hc
  simp only [neighbours, OnBoard, Adjacent, List.mem_append, List.mem_ite_nil_right,
    List.mem_singleton, Prod.mk.injEq]
  omega

theorem index_lt (hc : b.OnBoard c) : b.index c < b.cells.size := by
  calc b.index c < c.1 * b.cols + b.cols := Nat.add_lt_add_left hc.2 _
    _ = (c.1 + 1) * b.cols := (Nat.succ_mul _ _).symm
    _ ≤ b.rows * b.cols := Nat.mul_le_mul_right _ hc.1
    _ = b.cells.size := b.size_eq.symm

theorem index_inj (hc : b.OnBoard c) (hd : b.OnBoard d) :
    b.index c = b.index d ↔ c = d := by
  constructor
  · intro hindex
    have hrow : ∀ e : Cell, b.OnBoard e → b.index e / b.cols = e.1 := by
      intro e he
      rw [index, Nat.mul_comm, Nat.mul_add_div b.cols_pos, Nat.div_eq_of_lt he.2, Nat.add_zero]
    have hcol : ∀ e : Cell, b.OnBoard e → b.index e % b.cols = e.2 := by
      intro e he
      rw [index, Nat.mul_comm, Nat.mul_add_mod, Nat.mod_eq_of_lt he.2]
    exact Prod.ext (by rw [← hrow c hc, hindex, hrow d hd])
      (by rw [← hcol c hc, hindex, hcol d hd])
  · rintro rfl
    rfl

theorem exists_index_eq {i : Nat} (hi : i < b.cells.size) : ∃ c, b.OnBoard c ∧ b.index c = i := by
  refine ⟨(i / b.cols, i % b.cols), ⟨?_, Nat.mod_lt i b.cols_pos⟩, ?_⟩
  · rw [b.size_eq, Nat.mul_comm] at hi
    exact Nat.div_lt_of_lt_mul hi
  · rw [index, Nat.mul_comm, Nat.div_add_mod]

/-- Neighbours lead from the top-left cell to every other. -/
theorem OnBoard.of_neighbours {P : Cell → Prop} (horigin : P (0, 0))
    (hstep : ∀ c d, P c → d ∈ b.neighbours c → P d) (hc : b.OnBoard c) : P c := by
  have hrow : ∀ k, k < b.cols → P (0, k) := by
    intro k hk
    induction k with
    | zero => exact horigin
    | succ k ih =>
        refine hstep (0, k) (0, k + 1) (ih (by omega)) ?_
        exact (mem_neighbours_iff ⟨b.rows_pos, by simp; omega⟩).mpr
          ⟨⟨b.rows_pos, hk⟩, by simp [Adjacent]⟩
  obtain ⟨r, k⟩ := c
  obtain ⟨hr, hk⟩ := hc
  induction r with
  | zero => exact hrow k hk
  | succ r ih =>
      simp only at hr hk
      refine hstep (r, k) (r + 1, k) (ih (by omega) hk) ?_
      exact (mem_neighbours_iff ⟨by simp; omega, hk⟩).mpr ⟨⟨hr, hk⟩, by simp [Adjacent]⟩

/-! ### The cells joined to the top-left one -/

inductive Joined (b : Board) : Cell → Prop where
  | origin : Joined b (0, 0)
  | step {c d : Cell} (hc : Joined b c) (hd : d ∈ b.neighbours c) (hcolor : b.colorAt d = b.color) :
      Joined b d

theorem Joined.onBoard (hc : b.Joined c) : b.OnBoard c := by
  induction hc with
  | origin => exact b.onBoard_origin
  | step hc hd hcolor ih => exact ((mem_neighbours_iff ih).mp hd).1

theorem Joined.colorAt_eq (hc : b.Joined c) : b.colorAt c = b.color := by
  cases hc with
  | origin => rfl
  | step hc hd hcolor => exact hcolor

/-! ### Spreading -/

section Spread

variable {mask : Mask} {seen cells done waiting : List Cell}

/-- The mask holds the cells seen so far, each of them seen once. -/
structure Marks (b : Board) (mask : Mask) (seen : List Cell) : Prop where
  size : mask.size = b.cells.size
  nodup : seen.Nodup
  onBoard : ∀ c ∈ seen, b.OnBoard c
  inMask : ∀ c, b.OnBoard c → (b.inMask mask c = true ↔ c ∈ seen)

theorem Marks.length_le (marks : Marks b mask seen) : seen.length ≤ b.cells.size := by
  rw [← b.length_allCells]
  exact (marks.nodup.subperm fun c hc => mem_allCells_iff.mpr (marks.onBoard c hc)).length_le

theorem Marks.concat (marks : Marks b mask seen) (hc : b.OnBoard c) (hnew : c ∉ seen) :
    Marks b (mask.setIfInBounds (b.index c) true) (seen ++ [c]) where
  size := by rw [Array.size_setIfInBounds, marks.size]
  nodup :=
    (List.perm_append_singleton c seen).nodup_iff.mpr (List.nodup_cons.mpr ⟨hnew, marks.nodup⟩)
  onBoard := by
    rw [List.forall_mem_append]
    exact ⟨marks.onBoard, by simpa using hc⟩
  inMask := by
    intro d hd
    have hsize : b.index c < mask.size := marks.size ▸ index_lt hc
    rw [List.mem_append, List.mem_singleton, ← marks.inMask d hd]
    by_cases hsame : d = c
    · subst hsame
      simp [Board.inMask, hsize]
    · have hindex : b.index c ≠ b.index d := fun h => hsame ((index_inj hc hd).mp h).symm
      simp [Board.inMask, hindex, hsame]

/-- The cells added are those of the colour that were not seen yet. -/
theorem Marks.mark (marks : Marks b mask seen) (hcells : ∀ c ∈ cells, b.OnBoard c) (color : Int) :
    Marks b (b.mark color cells mask).2 (seen ++ (b.mark color cells mask).1) ∧
      (∀ c ∈ (b.mark color cells mask).1, c ∈ cells ∧ b.colorAt c = color) ∧
      ∀ c ∈ cells, b.colorAt c = color → c ∈ seen ++ (b.mark color cells mask).1 := by
  induction cells generalizing mask seen with
  | nil => simpa [Board.mark] using marks
  | cons c rest ih =>
      obtain ⟨hc, hrest⟩ := List.forall_mem_cons.mp hcells
      rw [Board.mark]
      split
      · next hadd =>
        simp only [Bool.and_eq_true, Bool.not_eq_true', beq_iff_eq] at hadd
        obtain ⟨hout, hcolor⟩ := hadd
        have hnew : c ∉ seen := by
          rw [← marks.inMask c hc, hout]
          simp
        obtain ⟨hmarks, hadded, hall⟩ := ih (marks.concat hc hnew) hrest
        rw [List.append_assoc, List.singleton_append] at hmarks hall
        refine ⟨hmarks, ?_, ?_⟩
        · rw [List.forall_mem_cons]
          exact ⟨⟨List.mem_cons_self, hcolor⟩,
            fun d hd => ⟨List.mem_cons_of_mem c (hadded d hd).1, (hadded d hd).2⟩⟩
        · rw [List.forall_mem_cons]
          exact ⟨fun _ => by simp, hall⟩
      · next hskip =>
        obtain ⟨hmarks, hadded, hall⟩ := ih marks hrest
        refine ⟨hmarks, fun d hd => ⟨List.mem_cons_of_mem c (hadded d hd).1, (hadded d hd).2⟩, ?_⟩
        rw [List.forall_mem_cons]
        refine ⟨fun hcolor => List.mem_append_left _ ?_, hall⟩
        rw [← marks.inMask c hc]
        simpa [hcolor] using hskip

/-- Cells are done or wait. All are joined to the origin, which is one of them, and the neighbours
of a cell that is done were seen if they have the island's colour. -/
structure Spreading (b : Board) (mask : Mask) (done waiting : List Cell) : Prop where
  marks : Marks b mask (done ++ waiting)
  origin : (0, 0) ∈ done ++ waiting
  joined : ∀ c ∈ done ++ waiting, b.Joined c
  closed : ∀ c ∈ done, ∀ d ∈ b.neighbours c, b.colorAt d = b.color → d ∈ done ++ waiting

theorem Spreading.turn (spreading : Spreading b mask done (c :: waiting)) :
    Spreading b (b.mark b.color (b.neighbours c) mask).2 (done ++ [c])
      (waiting ++ (b.mark b.color (b.neighbours c) mask).1) := by
  have hc : b.Joined c := spreading.joined c (by simp)
  have hcells : ∀ d ∈ b.neighbours c, b.OnBoard d :=
    fun d hd => ((mem_neighbours_iff hc.onBoard).mp hd).1
  obtain ⟨hmarks, hadded, hall⟩ := spreading.marks.mark hcells b.color
  have hseen : ∀ added : List Cell,
      done ++ [c] ++ (waiting ++ added) = done ++ c :: waiting ++ added := by simp
  refine ⟨?_, ?_, ?_, ?_⟩
  · rwa [hseen]
  · rw [hseen]
    exact List.mem_append_left _ spreading.origin
  · rw [hseen, List.forall_mem_append]
    exact ⟨spreading.joined, fun d hd => hc.step (hadded d hd).1 (hadded d hd).2⟩
  · rw [hseen, List.forall_mem_append]
    refine ⟨fun d hd e he hcolor => List.mem_append_left _ (spreading.closed d hd e he hcolor), ?_⟩
    simpa using hall

/-- As many turns as there are cells suffice. -/
theorem Spreading.exists_of_spread {turns : Nat} (spreading : Spreading b mask done waiting)
    (hturns : b.cells.size ≤ done.length + turns) :
    ∃ seen, Spreading b (b.spread b.color turns waiting mask) seen [] := by
  induction turns generalizing mask done waiting with
  | zero =>
      have hlength := spreading.marks.length_le
      rw [List.length_append] at hlength
      have hnone : waiting = [] := List.eq_nil_of_length_eq_zero (by omega)
      subst hnone
      exact ⟨done, spreading⟩
  | succ turns ih =>
      cases waiting with
      | nil => exact ⟨done, spreading⟩
      | cons c waiting =>
          rw [spread]
          exact ih spreading.turn (by rw [List.length_append, List.length_singleton]; omega)

theorem Spreading.mem_of_joined (spreading : Spreading b mask seen []) (hc : b.Joined c) :
    c ∈ seen := by
  induction hc with
  | origin => simpa using spreading.origin
  | step hc hd hcolor ih => simpa using spreading.closed _ ih _ hd hcolor

end Spread

/-- The island is what is joined to the top-left cell. -/
theorem inMask_island (hc : b.OnBoard c) : b.inMask b.island c = true ↔ b.Joined c := by
  have hempty : Marks b (Array.replicate b.cells.size false) [] := by
    refine ⟨Array.size_replicate, List.nodup_nil, by simp, fun d hd => ?_⟩
    simp [inMask, index_lt hd]
  have hstart : Spreading b
      ((Array.replicate b.cells.size false).setIfInBounds (b.index (0, 0)) true) [] [(0, 0)] := by
    refine ⟨hempty.concat b.onBoard_origin List.not_mem_nil, by simp, ?_, by simp⟩
    simpa using Joined.origin
  obtain ⟨seen, spreading⟩ : ∃ seen, Spreading b b.island seen [] :=
    hstart.exists_of_spread (Nat.le_add_left b.cells.size 0)
  have hseen := spreading.marks.inMask c hc
  rw [List.append_nil] at hseen
  exact hseen.trans ⟨fun hmem => spreading.joined c (by simpa using hmem), spreading.mem_of_joined⟩

/-! ### Painting -/

section Paint

variable {color : Int}

theorem colorAt_paint (color : Int) (hc : b.OnBoard c) :
    (b.paint color).colorAt c = if b.inMask b.island c then color else b.colorAt c := by
  have hindex : (b.paint color).index c = b.index c := rfl
  rw [colorAt, hindex]
  simp [paint, inMask, colorAt, index_lt hc]

theorem colorAt_paint_of_joined (color : Int) (hc : b.Joined c) :
    (b.paint color).colorAt c = color := by
  rw [colorAt_paint color hc.onBoard, if_pos ((inMask_island hc.onBoard).mpr hc)]

theorem colorAt_paint_of_not_joined (color : Int) (hc : b.OnBoard c) (hout : ¬b.Joined c) :
    (b.paint color).colorAt c = b.colorAt c := by
  rw [colorAt_paint color hc, if_neg fun h => hout ((inMask_island hc).mp h)]

theorem color_paint (b : Board) (color : Int) : (b.paint color).color = color :=
  colorAt_paint_of_joined color .origin

theorem Joined.paint (hc : b.Joined c) (color : Int) : (b.paint color).Joined c := by
  induction hc with
  | origin => exact .origin
  | step hc hd hcolor ih =>
      refine ih.step hd ?_
      rw [color_paint, colorAt_paint_of_joined color (hc.step hd hcolor)]

/-- What painting joins had the colour already. -/
theorem colorAt_of_joined_paint (hc : (b.paint color).Joined c) (hout : ¬b.Joined c) :
    b.colorAt c = color := by
  calc b.colorAt c = (b.paint color).colorAt c :=
        (colorAt_paint_of_not_joined (b := b) color hc.onBoard hout).symm
    _ = color := by rw [hc.colorAt_eq, color_paint]

theorem mem_borderColors_iff :
    color ∈ b.borderColors ↔
      ∃ c d, b.Joined c ∧ d ∈ b.neighbours c ∧ ¬b.Joined d ∧ b.colorAt d = color := by
  unfold borderColors
  simp only [List.mem_eraseDups, List.mem_map, List.mem_flatMap, List.mem_filter, mem_allCells_iff,
    Bool.not_eq_true', ← Bool.not_eq_true]
  constructor
  · rintro ⟨d, ⟨c, ⟨hc, hin⟩, hd, hout⟩, hcolor⟩
    have hdboard := ((mem_neighbours_iff hc).mp hd).1
    exact ⟨c, d, (inMask_island hc).mp hin, hd, fun h => hout ((inMask_island hdboard).mpr h),
      hcolor⟩
  · rintro ⟨c, d, hc, hd, hout, hcolor⟩
    have hdboard := ((mem_neighbours_iff hc.onBoard).mp hd).1
    exact ⟨d, ⟨c, ⟨hc.onBoard, (inMask_island hc.onBoard).mpr hc⟩, hd,
      fun h => hout ((inMask_island hdboard).mp h)⟩, hcolor⟩

theorem color_not_mem_borderColors (b : Board) : b.color ∉ b.borderColors := by
  rw [mem_borderColors_iff]
  rintro ⟨c, d, hc, hd, hout, hcolor⟩
  exact hout (hc.step hd hcolor)

/-- Painting in a colour of the border joins a cell more. -/
theorem exists_joined_paint (hborder : color ∈ b.borderColors) :
    ∃ d, ¬b.Joined d ∧ (b.paint color).Joined d := by
  obtain ⟨c, d, hc, hd, hout, hcolor⟩ := mem_borderColors_iff.mp hborder
  refine ⟨d, hout, (hc.paint color).step hd ?_⟩
  have hdboard := ((mem_neighbours_iff hc.onBoard).mp hd).1
  rw [color_paint, colorAt_paint_of_not_joined color hdboard hout, hcolor]

end Paint

/-! ### Boards of one colour -/

theorem isUniform_iff : b.isUniform = true ↔ ∀ c, b.OnBoard c → b.Joined c := by
  have hcolors : b.isUniform = true ↔ ∀ c, b.OnBoard c → b.colorAt c = b.color := by
    simp only [isUniform, Array.all_eq_true, beq_iff_eq]
    constructor
    · intro hall c hc
      rw [← hall (b.index c) (index_lt hc)]
      simp [colorAt, index_lt hc]
    · intro hall i hi
      obtain ⟨c, hc, rfl⟩ := exists_index_eq hi
      rw [← hall c hc]
      simp [colorAt, hi]
  rw [hcolors]
  constructor
  · intro hall c hc
    refine hc.of_neighbours .origin fun d e hd he => ?_
    exact hd.step he (hall e ((mem_neighbours_iff hd.onBoard).mp he).1)
  · exact fun hall c hc => (hall c hc).colorAt_eq

/-- A board of more than one colour has a border. -/
theorem exists_border (huniform : b.isUniform = false) :
    ∃ c d, b.Joined c ∧ d ∈ b.neighbours c ∧ ¬b.Joined d := by
  by_contra hnone
  push Not at hnone
  have hjoined : b.isUniform = true :=
    isUniform_iff.mpr fun c hc => hc.of_neighbours .origin fun d e hd he => hnone d e hd he
  rw [huniform] at hjoined
  cases hjoined

end StateSpace.Flood.Board
