import StateSpace.Problems.Grid
import StateSpace.Proofs.UniformPrice
import Mathlib.Data.Int.Interval

/-!
# Routes on a grid

A route goes from cell to cell by steps to one of the four neighbours, each onto a cell of the map
that is no wall; where it starts does not matter. Words of the problem and routes are the same, at
one unit of cost for each step, and no step changes the distance to the target by more than one. So
the estimates are consistent around all walls and from outside of the map as well. Where states may
be any values, the problem is the same at cells.
-/
namespace StateSpace.Grid

/-- The cells share a side. -/
def Adjacent (a b : Cell) : Prop :=
  a.1 = b.1 ∧ (a.2 - b.2).natAbs = 1 ∨ a.2 = b.2 ∧ (a.1 - b.1).natAbs = 1

instance (a b : Cell) : Decidable (Adjacent a b) := inferInstanceAs (Decidable (_ ∨ _))

/-- The cell lies on the map and is no wall. -/
structure Map.IsFree (m : Map) (c : Cell) : Prop where
  row : 0 ≤ c.1 ∧ c.1 < m.rows
  col : 0 ≤ c.2 ∧ c.2 < m.cols
  noWall : c ∉ m.walls

/-- So many steps lead from a cell to another one. -/
inductive Map.Route (m : Map) (source : Cell) : Nat → Cell → Prop where
  | here : m.Route source 0 source
  | step {steps : Nat} {a b : Cell} (ha : m.Route source steps a) (hadjacent : Adjacent a b)
      (hfree : m.IsFree b) : m.Route source (steps + 1) b

variable {m : Map} {source target a b c : Cell} {steps : Nat}

/-! ### Distances -/

theorem distance_self (a : Cell) : distance a a = 0 := by
  simp [distance]

theorem distance_le_of_adjacent (hadjacent : Adjacent a b) (c : Cell) :
    distance a c ≤ 1 + distance b c := by
  unfold distance
  rcases hadjacent with ⟨hrow, hcol⟩ | ⟨hcol, hrow⟩ <;> omega

theorem distance_comm (a b : Cell) : distance a b = distance b a := by
  unfold distance
  omega

theorem Map.Route.distance_le (hroute : m.Route source steps b) : distance source b ≤ steps := by
  induction hroute with
  | here => exact (distance_self source).le
  | @step steps a b ha hadjacent hfree ih =>
      rw [distance_comm] at ih ⊢
      have hadjacent' : Adjacent b a := by
        unfold Adjacent at hadjacent ⊢
        omega
      have hstep := distance_le_of_adjacent hadjacent' source
      push_cast
      omega

/-! ### Steps -/

theorem isOpen_iff : m.isOpen c = true ↔ m.IsFree c := by
  simp only [Map.isOpen, Bool.and_eq_true, decide_eq_true_eq, Bool.not_eq_true',
    List.contains_eq_mem, decide_eq_false_iff_not]
  constructor
  · rintro ⟨⟨⟨⟨hrow, hrows⟩, hcol⟩, hcols⟩, hwall⟩
    exact ⟨⟨hrow, hrows⟩, ⟨hcol, hcols⟩, hwall⟩
  · rintro ⟨⟨hrow, hrows⟩, ⟨hcol, hcols⟩, hwall⟩
    exact ⟨⟨⟨⟨hrow, hrows⟩, hcol⟩, hcols⟩, hwall⟩

instance (m : Map) (c : Cell) : Decidable (m.IsFree c) := decidable_of_iff _ isOpen_iff

theorem step_eq_some_iff {offset : Cell} :
    m.step offset a = some b ↔ b = (a.1 + offset.1, a.2 + offset.2) ∧ m.IsFree b := by
  unfold Map.step
  simp only [Option.ite_none_right_eq_some, Option.some.injEq, isOpen_iff]
  constructor
  · rintro ⟨hfree, rfl⟩
    exact ⟨rfl, hfree⟩
  · rintro ⟨rfl, hfree⟩
    exact ⟨hfree, rfl⟩

theorem step?_problem {name : String} {offset : Cell} {position : Nat}
    (hdirection : directions[position]? = some (name, offset)) (a : Cell) :
    (problem m source target).step? a position = (m.step offset a).map fun b => (b, 1) := by
  have hrule : (problem m source target).rules[position]? =
      some (Rule.unit name (m.step offset)) := by
    simp [problem, Map.rules, hdirection]
  exact Problem.step?_of_fixed 1 hrule a

theorem adjacent_iff :
    Adjacent a b ↔ ∃ direction ∈ directions,
      b = (a.1 + direction.2.1, a.2 + direction.2.2) := by
  simp only [directions, List.mem_cons, List.not_mem_nil, or_false, exists_eq_or_imp,
    exists_eq_left]
  simp only [Adjacent, Prod.ext_iff]
  omega

theorem exists_step?_iff {price : Nat} :
    (∃ position, (problem m source target).step? a position = some (b, price)) ↔
      Adjacent a b ∧ m.IsFree b ∧ price = 1 := by
  rw [adjacent_iff]
  constructor
  · rintro ⟨position, hstep⟩
    obtain ⟨rule, asked, hrule, -, -⟩ := Problem.step?_eq_some_iff.mp hstep
    have hrules : (problem m source target).rules = m.rules := rfl
    rw [hrules, Map.rules, List.getElem?_map] at hrule
    obtain ⟨⟨name, offset⟩, hdirection, -⟩ := Option.map_eq_some_iff.mp hrule
    rw [step?_problem hdirection] at hstep
    obtain ⟨c, hc, heq⟩ := Option.map_eq_some_iff.mp hstep
    obtain ⟨rfl, rfl⟩ := Prod.mk.inj heq
    obtain ⟨hmove, hfree⟩ := step_eq_some_iff.mp hc
    exact ⟨⟨(name, offset), List.mem_of_getElem? hdirection, hmove⟩, hfree, rfl⟩
  · rintro ⟨⟨⟨name, offset⟩, hdirection, hmove⟩, hfree, rfl⟩
    obtain ⟨position, hposition⟩ := List.mem_iff_getElem?.mp hdirection
    refine ⟨position, ?_⟩
    rw [step?_problem hposition, step_eq_some_iff.mpr ⟨hmove, hfree⟩]
    rfl

/-! ### Words and routes -/

theorem route_of_follow? {word : List Nat} {cost : Nat}
    (hfollow : (problem m source target).follow? source word = some (b, cost)) :
    m.Route source word.length b ∧ cost = word.length := by
  induction word using List.reverseRecOn generalizing b cost with
  | nil =>
      obtain ⟨rfl, rfl⟩ := Prod.mk.inj (Option.some.inj hfollow)
      exact ⟨.here, rfl⟩
  | append_singleton word position ih =>
      obtain ⟨a, spent, price, hword, hstep, rfl⟩ := Problem.follow?_concat_eq_some_iff.mp hfollow
      obtain ⟨hroute, rfl⟩ := ih hword
      obtain ⟨hadjacent, hfree, rfl⟩ := exists_step?_iff.mp ⟨position, hstep⟩
      rw [List.length_append, List.length_singleton]
      exact ⟨hroute.step hadjacent hfree, rfl⟩

theorem Map.Route.exists_word (target : Cell) (hroute : m.Route source steps b) :
    ∃ word, word.length = steps ∧
      (problem m source target).follow? source word = some (b, steps) := by
  induction hroute with
  | here => exact ⟨[], rfl, rfl⟩
  | @step steps a b ha hadjacent hfree ih =>
      obtain ⟨word, hlength, hword⟩ := ih
      obtain ⟨position, hstep⟩ := exists_step?_iff.mpr ⟨hadjacent, hfree, rfl⟩
      refine ⟨word ++ [position], by rw [List.length_append, hlength]; rfl, ?_⟩
      exact Problem.follow?_concat_eq_some_iff.mpr ⟨a, steps, 1, hword, hstep, rfl⟩

theorem reaches_iff : (problem m source target).Reaches b ↔ ∃ steps, m.Route source steps b := by
  constructor
  · rintro ⟨word, cost, hfollow⟩
    exact ⟨word.length, (route_of_follow? hfollow).1⟩
  · rintro ⟨steps, hroute⟩
    obtain ⟨word, -, hword⟩ := hroute.exists_word target
    exact ⟨word, steps, hword⟩

theorem isGoal_iff : (problem m source target).isGoal c = true ↔ c = target := beq_iff_eq

theorem exists_goal_iff :
    (∃ c, (problem m source target).Reaches c ∧ (problem m source target).isGoal c = true) ↔
      ∃ steps, m.Route source steps target := by
  simp only [isGoal_iff, exists_eq_right, reaches_iff]

theorem Map.Route.exists_solves (hroute : m.Route source steps target) :
    ∃ word, word.length = steps ∧ (problem m source target).Solves word steps := by
  obtain ⟨word, hlength, hword⟩ := hroute.exists_word target
  exact ⟨word, hlength, target, hword, isGoal_iff.mpr rfl⟩

theorem finite_reaches (m : Map) (source target : Cell) :
    {c | (problem m source target).Reaches c}.Finite := by
  have hmap : (Set.Ico 0 m.rows ×ˢ Set.Ico 0 m.cols).Finite :=
    (Set.finite_Ico 0 m.rows).prod (Set.finite_Ico 0 m.cols)
  refine (hmap.insert source).subset fun c hc => ?_
  obtain ⟨steps, hroute⟩ := reaches_iff.mp hc
  -- Apart from its start a route stays on the map.
  cases hroute with
  | here => exact Set.mem_insert source _
  | step ha hadjacent hfree => exact Set.mem_insert_of_mem source ⟨hfree.row, hfree.col⟩

/-! ### Prices and estimates -/

theorem hasPrice_problem (m : Map) (source target : Cell) :
    (problem m source target).HasPrice 1 := by
  refine Problem.hasPrice_of_fixed fun rule hrule => ?_
  obtain ⟨⟨name, offset⟩, -, rfl⟩ := List.mem_map.mp hrule
  exact ⟨name, m.step offset, rfl⟩

theorem estimate_problem (m : Map) (source target c : Cell) :
    (problem m source target).estimate c = .ok (distance c target) := rfl

theorem isConsistent_problem (m : Map) (source target : Cell) :
    (problem m source target).IsConsistent := by
  refine Problem.isConsistent_of_estimate (estimate_problem m source target)
    (fun a b position price hstep => ?_) (fun c hgoal => ?_)
  · obtain ⟨hadjacent, -, rfl⟩ := exists_step?_iff.mp ⟨position, hstep⟩
    exact distance_le_of_adjacent hadjacent target
  · rw [isGoal_iff.mp hgoal, distance_self]

/-! ### Over values -/

theorem sameSize_toValue (a b : Cell) : a.toValue.sameSize b.toValue = (a == b) := by
  rw [Cell.toValue, Cell.toValue, Value.sameSize, Value.sameItems, Value.sameItems, Value.sameItems,
    Value.sameSize_int, Value.sameSize_int, Bool.and_true]
  rfl

theorem any_sameSize_toValue (walls : List Cell) (c : Cell) :
    (walls.map Cell.toValue).any c.toValue.sameSize = walls.contains c := by
  induction walls with
  | nil => rfl
  | cons wall walls ih =>
      rw [List.map_cons, List.any_cons, ih, sameSize_toValue, List.contains_cons]

theorem isWithin_int (extent a : Int) :
    isWithin (.int extent) (.int a) = .ok (decide (0 ≤ a) && decide (a < extent)) := by
  unfold isWithin
  rw [Value.isAtMost_int, Value.isBelow_int]
  cases decide (0 ≤ a) <;> rfl

theorem stepOver_toValue (m : Map) (offset c : Cell) :
    stepOver (.int m.rows) (.int m.cols) (m.walls.map Cell.toValue) offset c.toValue =
      .ok ((m.step offset c).map Cell.toValue) := by
  have hsource : coordinatesOf c.toValue = .ok (.int c.1, .int c.2) := rfl
  have hwalls := any_sameSize_toValue m.walls (c.1 + offset.1, c.2 + offset.2)
  rw [Cell.toValue] at hwalls
  simp only [stepOver, hsource, Value.plus_int, isWithin_int, bind, Except.bind, hwalls, Map.step,
    Map.isOpen]
  by_cases hrow : 0 ≤ c.1 + offset.1 ∧ c.1 + offset.1 < m.rows
  · by_cases hcol : 0 ≤ c.2 + offset.2 ∧ c.2 + offset.2 < m.cols
    · by_cases hwall : (c.1 + offset.1, c.2 + offset.2) ∈ m.walls <;>
        simp [hrow, hcol, hwall, Cell.toValue]
    · simp [hrow, ← Bool.decide_and, hcol]
  · simp [← Bool.decide_and, hrow]

/-- At cells, as pairs of integers, the problem over values is the same. -/
theorem exists_problemOver (m : Map) (source target : Cell) :
    ∃ p, problemOver (.int m.rows) (.int m.cols) (m.walls.map Cell.toValue) source.toValue
        target.toValue = .ok p ∧
      p.initial = source.toValue ∧
      ∀ c : Cell, p.isGoal c.toValue = (problem m source target).isGoal c ∧
        p.heuristic.map (· c.toValue) = some (.ok (some (.int (distance c target)))) ∧
        ∀ position, p.step? c.toValue position =
          ((problem m source target).step? c position).map fun (b, price) => (b.toValue, price) := by
  have hkeys : (m.walls.map Cell.toValue).all Value.isKey = true := by
    rw [List.all_map, List.all_eq_true]
    exact fun _ _ => rfl
  unfold problemOver
  rw [if_pos hkeys]
  refine ⟨_, rfl, rfl, fun c => ⟨?_, rfl, fun position => ?_⟩⟩
  · exact (Bool.and_true _).trans (sameSize_toValue c target)
  · cases hdirection : directions[position]? with
    | none => simp [Problem.step?, problem, Map.rules, hdirection]
    | some direction =>
        rw [step?_problem hdirection]
        simp only [Problem.step?, List.getElem?_map, hdirection, Option.map_some, Rule.checked,
          stepOver_toValue]
        cases m.step direction.2 c <;> rfl

/-! ### Runs -/

/-- **All strategies agree on a grid.** On every map and from every cell to every other one, a run of
each strategy but the greedy one ends, and it succeeds if and only if there is a route. All of them
but the depth-first one find a shortest route, whose length is the cost and at least the distance.
Under a global ordering A* expands no cell twice in a pass. -/
theorem shortest_routes (m : Map) (source target : Cell) {start : Search Cell Int}
    (hallowance : start.allowance = none) :
    (∀ strategy discipline, strategy ≠ .greedy → ∃ turns t,
      start.run ⟨problem m source target, strategy, discipline⟩ turns = .ended t ∧
        (t.isFailed = false ↔ ∃ steps, m.Route source steps target) ∧
        ((∃ n, t.solution = some n) ↔ ∃ steps, m.Route source steps target) ∧
        ∀ n, t.solution = some n → strategy ≠ .dfs →
          ∃ steps : Nat, n.cost = steps ∧ IsLeast {steps | m.Route source steps target} steps ∧
            distance source target ≤ steps) ∧
      (∀ turns, ((start.run ⟨problem m source target, .astar, .global⟩
        turns).search.expanded.map Node.state).Nodup) ∧
      ∀ bound turns, ((start.explore ⟨problem m source target, .astar, .global⟩ bound
        turns).search.expanded.map Node.state).Nodup := by
  have hprice := hasPrice_problem m source target
  have hconsistent := isConsistent_problem m source target
  refine ⟨fun strategy discipline hgreedy => ?_, fun turns => ?_, fun bound turns => ?_⟩
  · obtain ⟨turns, t, hrun, hsolved, hfailed, hfewest⟩ :=
      @Search.exists_fewest_of_price Cell _ _ ⟨problem m source target, strategy, discipline⟩ start 1
        hprice le_rfl hconsistent hgreedy (finite_reaches m source target) hallowance
    rw [exists_goal_iff] at hsolved
    refine ⟨turns, t, hrun, hfailed.trans hsolved, hsolved, fun n hsolution hdfs => ?_⟩
    obtain ⟨hgrows, hgoal, hleast⟩ := hfewest n hsolution
    obtain ⟨cost, hcost, hfollow⟩ := hgrows.follow?
    obtain ⟨hroute, rfl⟩ := route_of_follow? hfollow
    rw [isGoal_iff.mp hgoal] at hroute
    refine ⟨n.positions.length, hcost, ⟨hroute, fun steps hother => ?_⟩, hroute.distance_le⟩
    obtain ⟨word, rfl, hsolves⟩ := Map.Route.exists_solves hother
    rw [hgrows.length_positions]
    exact hleast hdfs word _ hsolves
  · obtain ⟨bound, q, hstage, hexpanded⟩ := (Search.moment_run _ start turns).exists_stage
    rw [hexpanded]
    exact (hstage.settled_of_price hprice le_rfl hconsistent rfl rfl).once
  · exact ((Search.stage_explore _ bound start turns).settled_of_price hprice le_rfl hconsistent rfl
      rfl).once

/-- Two rows of three cells, the middle of the upper one a wall. -/
def bend : Map := { rows := 2, cols := 3, walls := [(0, 1)] }

theorem route_bend : bend.Route (0, 0) 4 (0, 2) := by
  have hdown : bend.Route (0, 0) 1 (1, 0) := Map.Route.here.step (by decide) (by decide)
  have hmiddle : bend.Route (0, 0) 2 (1, 1) := hdown.step (by decide) (by decide)
  have hright : bend.Route (0, 0) 3 (1, 2) := hmiddle.step (by decide) (by decide)
  exact hright.step (by decide) (by decide)

/-- Around the wall breadth-first search and A* go at the same cost, of two to four steps. -/
theorem shortest_routes_bend :
    ∃ turns turns' t t' n n',
      (Search.fresh : Search Cell Int).run ⟨problem bend (0, 0) (0, 2), .bfs, .batch⟩ turns =
          .ended t ∧
        (Search.fresh : Search Cell Int).run ⟨problem bend (0, 0) (0, 2), .astar, .global⟩ turns' =
          .ended t' ∧
        t.solution = some n ∧ t'.solution = some n' ∧ n.cost = n'.cost ∧ 2 ≤ n.cost ∧
        n.cost ≤ 4 := by
  obtain ⟨hruns, -, -⟩ :=
    shortest_routes bend (0, 0) (0, 2) (rfl : (Search.fresh : Search Cell Int).allowance = none)
  obtain ⟨turns, t, hrun, -, hsolved, hshortest⟩ := hruns .bfs .batch (by simp)
  obtain ⟨turns', t', hrun', -, hsolved', hshortest'⟩ := hruns .astar .global (by simp)
  obtain ⟨n, hsolution⟩ := hsolved.mpr ⟨4, route_bend⟩
  obtain ⟨n', hsolution'⟩ := hsolved'.mpr ⟨4, route_bend⟩
  obtain ⟨steps, hcost, hleast, hdistance⟩ := hshortest n hsolution (by simp)
  obtain ⟨steps', hcost', hleast', -⟩ := hshortest' n' hsolution' (by simp)
  have hsame : steps = steps' := hleast.unique hleast'
  have hle : steps ≤ 4 := hleast.2 route_bend
  have hvalue : distance (0, 0) (0, 2) = 2 := by decide
  exact ⟨turns, turns', t, t', n, n', hrun, hrun', hsolution, hsolution', by omega, by omega,
    by omega⟩

end StateSpace.Grid
