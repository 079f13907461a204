import StateSpace.Proofs.FreeRays
import StateSpace.Proofs.Termination

/-!
# Deepening under mixed prices

Admission goes by cost and the bound by depth. So a node may be refused for one of its state that is
cheaper but deeper, and a pass may miss a goal that lies within its bound. It then has cut off a
node from which a goal would be reached at no higher cost. Where all prices are positive, depths are
no greater than costs, and the cost of the cheapest solution limits the passes. Where some prices
are zero, that node still repeats no state on its way, so that the passes are limited if no ray is
free within the cost of a solution. Along a free ray a run may deepen forever.
-/
namespace StateSpace

namespace Search

variable {σ : Type} [DecidableEq σ] [Hashable σ] {plan : Plan σ Int} {bound : Int}
  {start s t : Search σ Int} {n : Node σ Int}

section Deepening

variable (hstrategy : plan.strategy = .iddfs)

include hstrategy

/-! ### What limits the passes -/

/-- A drained pass cut off a node that repeats no state before itself, and from which some word
leads to a goal, at no higher cost in all than that of any solution. -/
theorem Run.exists_cut {word : List Nat} {cost : Nat} (hsolves : plan.problem.Solves word cost)
    (hs : Run plan start s) (hempty : s.frontier.toList = []) :
    ∃ k, plan.problem.Grows k ∧ (k.path.dropLast.map Node.state).Nodup ∧ s.passes ≤ k.depth ∧
      ∃ back goal, ∃ rest : Nat, back ≠ [] ∧
        plan.problem.follow? k.state back = some (goal, rest) ∧ k.cost + rest ≤ cost := by
  obtain ⟨before, hpasses, hpass⟩ := hs.exists_pass
  have ledger := hpass.ledger
  have hbfs : plan.strategy ≠ .bfs := by
    rw [hstrategy]
    simp
  have hgreedy : plan.strategy ≠ .greedy := by
    rw [hstrategy]
    simp
  obtain ⟨goal, hfollow, hgoal⟩ := hsolves
  obtain ⟨m, hm, -, rfl, hcost⟩ := Problem.exists_grows_of_follow? hfollow
  obtain ⟨a, -, back, rest, -, hrest, hback, hlater⟩ :=
    (hpass.covering_cost hbfs).walk_of_goal plan.problem.grading_cost ledger hm hgoal
  rcases hlater with ⟨k, hk, -⟩ | ⟨⟨k, hk, hbeyond, hstate, hle⟩, hnonempty⟩
  · exact absurd hk (Frontier.not_mem_items hempty k)
  · have hnodup := hpass.forall_tested (fun u hu => hu.nodup_ancestors hgreedy) k hk
    have hbefore := plan.le_boundAfter before
    rw [ledger.depthBound] at hbeyond
    exact ⟨k, (ledger.tested k hk).1, hnodup, by omega, back, m.state, rest, hnonempty,
      hstate ▸ hback, by omega⟩

theorem Run.passes_lt_cost (hpositive : plan.problem.HasPositivePrices) {word : List Nat}
    {cost : Nat} (hsolves : plan.problem.Solves word cost) (hs : Run plan start s)
    (hempty : s.frontier.toList = []) : s.passes < cost := by
  obtain ⟨k, hk, -, hpasses, back, goal, rest, hnonempty, hback, hle⟩ :=
    hs.exists_cut hstrategy hsolves hempty
  have hdepth := hk.depth_le_cost hpositive
  have hlength := hpositive.length_le hk.reaches hback
  have hpos := List.length_pos_iff.mpr hnonempty
  omega

theorem Run.passes_lt_of_frugal {word : List Nat} {cost limit : Nat}
    (hsolves : plan.problem.Solves word cost)
    (hlimit : ∀ n, plan.problem.Frugal cost n → n.depth ≤ limit) (hs : Run plan start s)
    (hempty : s.frontier.toList = []) : s.passes < limit + 2 := by
  obtain ⟨k, hk, hnodup, hpasses, back, goal, rest, -, -, hle⟩ :=
    hs.exists_cut hstrategy hsolves hempty
  cases hk with
  | root =>
      rw [Node.depth] at hpasses
      omega
  | @child n k position hn hchild =>
      -- The parent of the node that was cut off is frugal.
      obtain ⟨price, -, hcost⟩ := Problem.step?_of_child? hchild
      rw [Problem.dropLast_path_of_child? hchild] at hnodup
      have hdepth := hlimit n ⟨hn, hnodup, by omega⟩
      rw [Problem.depth_of_child? hchild] at hpasses
      omega

variable (hallowance : start.allowance = none) (hpriced : plan.problem.IsPriced)

include hallowance hpriced

theorem unbroken_of_iddfs : Unbroken plan start :=
  unbroken_of_queue hallowance hpriced fun n _ f => by
    obtain ⟨f', hqueue, -⟩ := Plan.queue?_dfs (Or.inr hstrategy) f (plan.problem.offspring n)
    exact ⟨f', hqueue⟩

/-- Where only so many passes are drained, deepening finds a solution in the next one. -/
theorem exists_solution_of_iddfs {limit : Nat}
    (hsolvable : ∃ word cost, plan.problem.Solves word cost)
    (hdrained : ∀ s, Run plan start s → s.frontier.toList = [] → s.passes < limit) :
    ∃ turns t n, start.run plan turns = .ended t ∧ t.isFailed = false ∧ t.solution = some n ∧
      (∃ cost : Nat, n.cost = cost ∧ plan.problem.Solves n.positions cost) ∧
      t.passes ≤ max 1 limit := by
  obtain ⟨s, n, key, rest, turns, hs, hfront, hgoal, hrun⟩ := exists_solution_of_limit hdrained
    (unbroken_of_iddfs hstrategy hallowance hpriced) hsolvable
  obtain ⟨before, -, hpass⟩ := hs.exists_pass
  have hgrows := hpass.ledger.waiting n (Frontier.mem_items_of_front hfront)
  have hpasses : s.passes ≤ max 1 limit := hs.passes_le hdrained
  exact ⟨turns, _, n, hrun, hs.no_verdict.2.2, rfl, hgrows.solves hgoal, hpasses⟩

end Deepening

/-! ### Positive prices -/

/-- **Deepening is limited by cost.** Where every rule that applies asks a positive price, a
deepening run ends with a solution, after at most as many passes as the cheapest solution costs or
in the first one, and it has failed at no time before. -/
theorem exists_solution_within_cost (hstrategy : plan.strategy = .iddfs)
    (hallowance : start.allowance = none) (hpriced : plan.problem.IsPriced)
    (hpositive : plan.problem.HasPositivePrices) {least : Nat}
    (hleast : IsLeast {cost | ∃ word, plan.problem.Solves word cost} least) :
    ∃ turns t n, start.run plan turns = .ended t ∧ t.isFailed = false ∧ t.solution = some n ∧
      (∃ cost : Nat, n.cost = cost ∧ plan.problem.Solves n.positions cost) ∧
      t.passes ≤ max 1 least ∧ ∀ earlier, (start.run plan earlier).search.isFailed = false := by
  obtain ⟨⟨word, hsolves⟩, -⟩ := hleast
  have hsolvable : ∃ word cost, plan.problem.Solves word cost := ⟨word, least, hsolves⟩
  obtain ⟨turns, t, n, hrun, hfailed, hsolution, hfound, hpasses⟩ :=
    exists_solution_of_iddfs hstrategy hallowance hpriced hsolvable
      fun s hs hempty => hs.passes_lt_cost hstrategy hpositive hsolves hempty
  exact ⟨turns, t, n, hrun, hfailed, hsolution, hfound, hpasses,
    fun earlier => (moment_run plan start earlier).isFailed_eq_false hsolvable⟩

/-- From 0 to 1 across at a price of 3, or around by way of 2 at a price of 1 for each step. -/
def bypass : Problem Int Int where
  initial := 0
  isGoal n := n == 1
  rules :=
    [ Rule.fixed "across" (.int 3) fun n => if n = 0 then some 1 else none,
      Rule.fixed "around" (.int 1) fun n =>
        if n = 0 then some 2 else if n = 2 then some 1 else none ]
  heuristic := none

theorem isPriced_bypass : bypass.IsPriced := by
  refine Problem.isPriced_of_fixed fun rule hrule => ?_
  simp only [bypass, List.mem_cons, List.not_mem_nil, or_false] at hrule
  rcases hrule with rfl | rfl
  · exact ⟨"across", _, 3, rfl⟩
  · exact ⟨"around", _, 1, rfl⟩

theorem hasPositivePrices_bypass : bypass.HasPositivePrices := by
  refine Problem.hasPositivePrices_of_fixed fun rule hrule => ?_
  simp only [bypass, List.mem_cons, List.not_mem_nil, or_false] at hrule
  rcases hrule with rfl | rfl
  · exact ⟨"across", _, 3, rfl, Nat.succ_pos 2⟩
  · exact ⟨"around", _, 1, rfl, Nat.one_pos⟩

/-- Around costs less than across, and no word costs less. -/
theorem isLeast_bypass : IsLeast {cost | ∃ word, bypass.Solves word cost} 2 := by
  refine ⟨⟨[1, 1], 1, rfl, rfl⟩, ?_⟩
  rintro cost ⟨word, goal, hfollow, hgoal⟩
  match word with
  | [] =>
      obtain ⟨rfl, -⟩ := Prod.mk.inj (Option.some.inj hfollow)
      cases hgoal
  | [0] =>
      obtain ⟨-, rfl⟩ := Prod.mk.inj (Option.some.inj hfollow)
      exact Nat.le_succ 2
  | [1] =>
      obtain ⟨rfl, -⟩ := Prod.mk.inj (Option.some.inj hfollow)
      cases hgoal
  | [i + 2] => cases hfollow
  | i :: j :: word =>
      have hlength := hasPositivePrices_bypass.length_le ⟨[], 0, rfl⟩ hfollow
      exact (Nat.le_add_left 2 word.length).trans hlength

theorem exists_solution_bypass :
    bypass.HasPositivePrices ∧ IsLeast {cost | ∃ word, bypass.Solves word cost} 2 ∧
      ∃ turns t n, (fresh : Search Int Int).run ⟨bypass, .iddfs, .batch⟩ turns = .ended t ∧
        t.solution = some n ∧ (∃ cost : Nat, n.cost = cost ∧ bypass.Solves n.positions cost) ∧
        t.passes ≤ 2 := by
  obtain ⟨turns, t, n, hrun, -, hsolution, hfound, hpasses, -⟩ :=
    @exists_solution_within_cost Int _ _ ⟨bypass, .iddfs, .batch⟩ fresh rfl rfl isPriced_bypass
      hasPositivePrices_bypass 2 isLeast_bypass
  exact ⟨hasPositivePrices_bypass, isLeast_bypass, turns, t, n, hrun, hsolution, hfound, hpasses⟩

/-! ### Prices that may be zero -/

/-- **Deepening is complete where no ray is free.** If some word solves the problem, and from no
state that is reached at its cost or less a way goes on forever at no cost and without a repeated
state, a deepening run ends with a solution. -/
theorem exists_solution_of_not_hasFreeRay (hstrategy : plan.strategy = .iddfs)
    (hallowance : start.allowance = none) (hpriced : plan.problem.IsPriced) {word : List Nat}
    {cost : Nat} (hsolves : plan.problem.Solves word cost)
    (hray : ¬plan.problem.HasFreeRay cost) :
    ∃ turns t n, start.run plan turns = .ended t ∧ t.isFailed = false ∧ t.solution = some n ∧
      ∃ cost : Nat, n.cost = cost ∧ plan.problem.Solves n.positions cost := by
  obtain ⟨limit, hlimit⟩ := Problem.exists_depth_le_of_frugal hray
  obtain ⟨turns, t, n, hrun, hfailed, hsolution, hfound, -⟩ :=
    exists_solution_of_iddfs hstrategy hallowance hpriced ⟨word, cost, hsolves⟩
      fun s hs hempty => hs.passes_lt_of_frugal hstrategy hsolves hlimit hempty
  exact ⟨turns, t, n, hrun, hfailed, hsolution, hfound⟩

/-- Up by twos at a toll, from 0 to 5, where a free way leads aside from every even number to 1. -/
def detour (toll : Nat) : Problem Int Int where
  initial := 0
  isGoal n := n == 5
  rules :=
    [ Rule.fixed "aside" (.int 0) fun n => if n % 2 = 0 then some 1 else none,
      Rule.fixed "on" (.int toll) fun n => some (n + 2) ]
  heuristic := none

theorem step?_detour_aside (toll : Nat) (n : Int) :
    (detour toll).step? n 0 = (if n % 2 = 0 then some 1 else none).map fun t => (t, 0) := by
  rw [Problem.step?_of_fixed 0 rfl]

theorem step?_detour_on (toll : Nat) (n : Int) :
    (detour toll).step? n 1 = some (n + 2, toll) := by
  rw [Problem.step?_of_fixed toll rfl, Option.map_some]

theorem isPriced_detour (toll : Nat) : (detour toll).IsPriced := by
  refine Problem.isPriced_of_fixed fun rule hrule => ?_
  simp only [detour, List.mem_cons, List.not_mem_nil, or_false] at hrule
  rcases hrule with rfl | rfl
  · exact ⟨"aside", _, 0, rfl⟩
  · exact ⟨"on", _, toll, rfl⟩

/-- At a positive toll only the ways aside are free, and none goes on from 1. -/
theorem not_hasFreeRay_detour {toll : Nat} (htoll : 0 < toll) (budget : Nat) :
    ¬(detour toll).HasFreeRay budget := by
  rintro ⟨ray, -, -, hfree⟩
  have haside : ∀ i, ray i % 2 = 0 ∧ ray (i + 1) = 1 := by
    intro i
    obtain ⟨position, hstep⟩ := hfree i
    match position with
    | 0 =>
        rw [step?_detour_aside] at hstep
        obtain ⟨t, ht, heq⟩ := Option.map_eq_some_iff.mp hstep
        obtain ⟨rfl, -⟩ := Prod.mk.inj heq
        split at ht
        · next heven => exact ⟨heven, (Option.some.inj ht).symm⟩
        · cases ht
    | 1 =>
        rw [step?_detour_on] at hstep
        obtain ⟨-, rfl⟩ := Prod.mk.inj (Option.some.inj hstep)
        exact absurd htoll (Nat.lt_irrefl 0)
    | i + 2 => cases hstep
  have hone := (haside 0).2
  have heven := (haside 1).1
  rw [hone] at heven
  cases heven

theorem exists_solution_detour :
    (detour 1).Solves [0, 1, 1] 2 ∧ ¬(detour 1).HasFreeRay 2 ∧
      ∃ turns t n, (fresh : Search Int Int).run ⟨detour 1, .iddfs, .batch⟩ turns = .ended t ∧
        t.solution = some n ∧ ∃ cost : Nat, n.cost = cost ∧ (detour 1).Solves n.positions cost := by
  have hsolves : (detour 1).Solves [0, 1, 1] 2 := ⟨5, rfl, rfl⟩
  have hray := not_hasFreeRay_detour Nat.one_pos 2
  obtain ⟨turns, t, n, hrun, -, hsolution, hfound⟩ :=
    @exists_solution_of_not_hasFreeRay Int _ _ ⟨detour 1, .iddfs, .batch⟩ fresh rfl rfl
      (isPriced_detour 1) [0, 1, 1] 2 hsolves hray
  exact ⟨hsolves, hray, turns, t, n, hrun, hsolution, hfound⟩

/-! ### A run along a free ray -/

/-- Where nothing costs anything a node is refused if its state was closed at all. -/
theorem Pass.isAdmitted_iff_of_free (hgreedy : plan.strategy ≠ .greedy)
    (hfree : plan.problem.HasPrice 0) (hs : Pass plan bound s) (hn : n ∈ s.frontier.items) :
    s.isAdmitted plan.strategy n = true ↔ n.state ∉ s.closed := by
  have hcost : ∀ m, plan.problem.Grows m → m.cost = 0 := fun m hm => by
    rw [hm.cost_eq hfree]
    simp
  constructor
  · intro hadmitted hclosed
    obtain ⟨g, hg, hstate⟩ := hs.ledger.mem_closed_iff.mp hclosed
    have hlt := hs.cost_lt_of_admitted hgreedy hadmitted hg hstate
    rw [hcost n (hs.ledger.waiting n hn), hcost g (hs.ledger.grows_of_expanded hg)] at hlt
    exact lt_irrefl 0 hlt
  · intro hclosed
    by_contra hrefused
    obtain ⟨g, hg, hstate, -⟩ := hs.exists_expanded_of_refused (Bool.eq_false_iff.mpr hrefused)
    exact hclosed (hs.ledger.mem_closed_iff.mpr ⟨g, hg, hstate⟩)

theorem Turn.mem_closed_iff (hs : Pass plan bound s) (hturn : Turn plan s t)
    (hexpanded : t.expanded = n :: s.expanded) (x : σ) :
    x ∈ t.closed ↔ n.state = x ∨ x ∈ s.closed := by
  rw [(hs.ledger.visit hturn.visit).mem_closed_iff, hs.ledger.mem_closed_iff, hexpanded]
  simp

end Search

/-- The state and the depth of a node. -/
def Node.outline {σ κ : Type} (n : Node σ κ) : σ × Nat := (n.state, n.depth)

theorem Problem.map_outline_offspring {σ : Type} (p : Problem σ Int) (n : Node σ Int) :
    (p.offspring n).map Node.outline = (List.range p.rules.length).filterMap fun position =>
      (p.step? n.state position).map fun step => (step.1, n.depth + 1) := by
  rw [offspring, List.map_filterMap]
  refine List.filterMap_congr fun position _ => ?_
  cases hstep : p.step? n.state position with
  | none => simp [child?, hstep]
  | some step =>
      obtain ⟨m, hm, hstate, -⟩ := child?_isSome_of_step? hstep
      simp [hm, Node.outline, hstate, depth_of_child? hm]

namespace Search

/-- What the children of a state at a depth look like where the toll is zero. -/
def branches (x : Int) (depth : Nat) : List (Int × Nat) :=
  if x % 2 = 0 then [(1, depth + 1), (x + 2, depth + 1)] else [(x + 2, depth + 1)]

theorem map_outline_offspring_detour (n : Node Int Int) :
    ((detour 0).offspring n).map Node.outline = branches n.state n.depth := by
  have hrules : List.range (detour 0).rules.length = [0, 1] := rfl
  rw [Problem.map_outline_offspring, hrules, branches]
  by_cases heven : n.state % 2 = 0 <;> simp [step?_detour_aside, step?_detour_on, heven]

/-- The ways aside down to a depth, the deepest first. -/
def asides : Nat → List (Int × Nat)
  | 0 => []
  | depth + 1 => (1, depth + 1) :: asides depth

theorem fst_of_mem_asides {depth : Nat} {x : Int × Nat} (hx : x ∈ asides depth) : x.1 = 1 := by
  induction depth with
  | zero => cases hx
  | succ depth ih =>
      rcases List.mem_cons.mp hx with rfl | hx
      · rfl
      · exact ih hx

/-- A pass goes up by twos until the bound stops it and comes back to the deepest way aside. There
it closes 1, with the bound too near to go on to 5, and so every other way aside is refused. -/
inductive Strays (bound : Int) (closed : Int → Prop) (waiting : List (Int × Nat)) : Prop where
  | ahead (depth : Nat) (hwaiting : waiting = (2 * (depth : Int), depth) :: asides depth)
      (hclosed : ∀ x, closed x → ∃ i < depth, x = 2 * (i : Int))
  | back (depth : Nat) (hwaiting : waiting = asides depth) (hclosed : ¬closed 1)
      (hreached : bound ≤ depth)
  | shut (hwaiting : ∀ x ∈ waiting, x.1 = 1 ∨ x.1 = 3 ∧ bound < x.2) (hclosed : closed 1)

section Strays

variable {closed : Int → Prop} {waiting later : List (Int × Nat)} {x : Int} {depth : Nat}

theorem Strays.ne_goal (strays : Strays bound closed waiting) (hx : (x, depth) ∈ waiting) :
    x ≠ 5 := by
  cases strays with
  | ahead top hwaiting =>
      rw [hwaiting] at hx
      rcases List.mem_cons.mp hx with heq | hx
      · obtain ⟨rfl, -⟩ := Prod.mk.inj heq
        omega
      · have hone : x = 1 := fst_of_mem_asides hx
        omega
  | back top hwaiting =>
      rw [hwaiting] at hx
      have hone : x = 1 := fst_of_mem_asides hx
      omega
  | shut hwaiting =>
      have hseen : x = 1 ∨ x = 3 ∧ bound < depth := hwaiting _ hx
      omega

theorem Strays.skip (strays : Strays bound closed ((x, depth) :: later))
    (hreason : bound < depth ∨ closed x) : Strays bound closed later := by
  cases strays with
  | ahead top hwaiting hclosed =>
      obtain ⟨heq, rfl⟩ := List.cons.inj hwaiting
      obtain ⟨rfl, rfl⟩ := Prod.mk.inj heq
      refine .back depth rfl ?_ ?_
      · intro hone
        obtain ⟨i, -, hodd⟩ := hclosed 1 hone
        omega
      · rcases hreason with hbeyond | hx
        · omega
        · obtain ⟨i, hlt, hsame⟩ := hclosed _ hx
          omega
  | back top hwaiting hclosed hreached =>
      cases top with
      | zero => cases hwaiting
      | succ top =>
          obtain ⟨heq, rfl⟩ := List.cons.inj hwaiting
          obtain ⟨rfl, rfl⟩ := Prod.mk.inj heq
          have hbeyond := hreason.resolve_right hclosed
          exact .back top rfl hclosed (by omega)
  | shut hwaiting hclosed =>
      exact .shut (fun y hy => hwaiting y (List.mem_cons_of_mem _ hy)) hclosed

theorem Strays.expand (strays : Strays bound closed ((x, depth) :: later)) (hwithin : depth ≤ bound)
    (hopen : ¬closed x) :
    Strays bound (fun y => x = y ∨ closed y) ((branches x depth).reverse ++ later) := by
  cases strays with
  | ahead top hwaiting hclosed =>
      obtain ⟨heq, rfl⟩ := List.cons.inj hwaiting
      obtain ⟨rfl, rfl⟩ := Prod.mk.inj heq
      refine .ahead (depth + 1) ?_ ?_
      · have heven : 2 * (depth : Int) % 2 = 0 := by omega
        have hnext : 2 * (depth : Int) + 2 = 2 * ((depth + 1 : Nat) : Int) := by omega
        simp only [branches, if_pos heven, hnext]
        rfl
      · rintro y (rfl | hy)
        · exact ⟨depth, Nat.lt_succ_self depth, rfl⟩
        · obtain ⟨i, hlt, hsame⟩ := hclosed y hy
          exact ⟨i, Nat.lt_succ_of_lt hlt, hsame⟩
  | back top hwaiting hclosed hreached =>
      cases top with
      | zero => cases hwaiting
      | succ top =>
          obtain ⟨heq, rfl⟩ := List.cons.inj hwaiting
          obtain ⟨rfl, rfl⟩ := Prod.mk.inj heq
          -- The bound is the depth of this node, and 3 lies beyond it.
          refine .shut ?_ (Or.inl rfl)
          intro y hy
          rcases List.mem_append.mp hy with hy | hy
          · obtain rfl : y = (3, top + 2) := by simpa [branches] using hy
            exact Or.inr ⟨rfl, by push_cast; omega⟩
          · exact Or.inl (fst_of_mem_asides hy)
  | shut hwaiting hclosed =>
      rcases hwaiting _ List.mem_cons_self with rfl | ⟨-, hbeyond⟩
      · exact absurd hclosed hopen
      · exact absurd hwithin (not_le.mpr hbeyond)

end Strays

/-- Deepening where the toll is zero. -/
abbrev straying : Plan Int Int := ⟨detour 0, .iddfs, .batch⟩

theorem hasPrice_detour : (detour 0).HasPrice 0 := by
  refine Problem.hasPrice_of_fixed fun rule hrule => ?_
  simp only [detour, List.mem_cons, List.not_mem_nil, or_false] at hrule
  rcases hrule with rfl | rfl
  · exact ⟨"aside", _, rfl⟩
  · exact ⟨"on", _, rfl⟩

theorem Turn.strays {s t : Search Int Int} (hs : Pass straying bound s) (hturn : Turn straying s t)
    (strays : Strays bound (· ∈ s.closed) (s.frontier.items.map Node.outline)) :
    Strays bound (· ∈ t.closed) (t.frontier.items.map Node.outline) := by
  have hadmitted : ∀ n ∈ s.frontier.items, s.isAdmitted .iddfs n = true ↔ n.state ∉ s.closed :=
    fun n hn => hs.isAdmitted_iff_of_free (by simp) hasPrice_detour hn
  have hwaiting : ∀ n rest, Takes straying s n rest t → s.frontier.items.map Node.outline =
      (n.state, n.depth) :: (rest.map (·.item)).map Node.outline := by
    intro n rest takes
    obtain ⟨key, hfront⟩ := takes.front
    rw [Frontier.items_of_front hfront]
    rfl
  have hmem := fun n hexpanded => hturn.mem_closed_iff (n := n) hs hexpanded
  have hbound := hs.ledger.depthBound
  cases hturn with
  | skipped n rest takes hreason hfrontier hclosed =>
      rw [hwaiting n _ takes] at strays
      rw [hclosed, hfrontier]
      refine strays.skip ?_
      rcases hreason with hbeyond | ⟨-, hrefused⟩
      · exact Or.inl (hbound ▸ hbeyond)
      · by_contra hnot
        have hopen := (hadmitted n takes.mem_items.1).mpr fun hn => hnot (Or.inr hn)
        rw [hrefused] at hopen
        cases hopen
  | expanded n rest takes hwithin hadmit _ hqueue _ hexpanded =>
      obtain ⟨f, hf, hitems⟩ :=
        @Plan.queue?_dfs Int straying (Or.inr rfl) rest ((detour 0).offspring n)
      obtain rfl := Option.some.inj (hf.symm.trans hqueue)
      have hclosed : (· ∈ t.closed) = fun y => n.state = y ∨ y ∈ s.closed :=
        funext fun y => propext (hmem n hexpanded y)
      rw [hwaiting n _ takes] at strays
      rw [hclosed, hitems, List.map_append, List.map_reverse, map_outline_offspring_detour]
      exact strays.expand (hbound ▸ hwithin) ((hadmitted n takes.mem_items.1).mp hadmit)

theorem Pass.strays {s : Search Int Int} (hs : Pass straying bound s) :
    Strays bound (· ∈ s.closed) (s.frontier.items.map Node.outline) := by
  induction hs with
  | start s =>
      refine .ahead 0 rfl fun x hx => ?_
      simp [beginPass] at hx
  | turn hs hturn ih => exact (turn_of_running hturn).strays hs ih

/-- Where the toll is zero, two steps on from the first way aside solve the problem at no cost, but
deepening never comes to an end. -/
theorem running_detour :
    (detour 0).IsPriced ∧ (detour 0).Solves [0, 1, 1] 0 ∧
      ∀ turns, ∃ s, (fresh : Search Int Int).run ⟨detour 0, .iddfs, .batch⟩ turns = .running s := by
  have hsolves : (detour 0).Solves [0, 1, 1] 0 := ⟨5, rfl, rfl⟩
  have hunbroken : Unbroken straying fresh := unbroken_of_iddfs rfl rfl (isPriced_detour 0)
  refine ⟨isPriced_detour 0, hsolves, running_of_goalless hunbroken ⟨_, _, hsolves⟩ ?_⟩
  intro s hs n hn
  obtain ⟨before, -, hpass⟩ := hs.exists_pass
  exact beq_eq_false_iff_ne.mpr (hpass.strays.ne_goal (List.mem_map_of_mem hn))

end Search

end StateSpace
