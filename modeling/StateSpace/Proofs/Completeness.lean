import StateSpace.Proofs.Consistency
import StateSpace.Proofs.Termination

/-!
# A* finds a goal under any estimates

Estimates that are not negative may still be far too high, or fall by more than a step costs. Then
the way to a goal is put off, and states are expanded again. But where all prices are positive, no
node scores less than its depth. Until a goal is taken, some node that waits stands for a node of the
way to it, and what is taken scores no more than that. So the highest score on one way to a goal
limits the depth of all nodes that are taken, and a tree has only so many nodes of such a depth.
-/
namespace StateSpace

/-- Within reach no estimate breaks or is negative. -/
def Problem.IsNonneg {σ : Type} (p : Problem σ Int) : Prop :=
  ∀ s, p.Reaches s → ∃ h, p.estimate s = .ok h ∧ 0 ≤ h

theorem Problem.IsNonneg.isEstimated {σ : Type} {p : Problem σ Int} (hnonneg : p.IsNonneg) :
    p.IsEstimated := by
  intro s hs
  obtain ⟨h, hestimate, -⟩ := hnonneg s hs
  exact ⟨h, hestimate⟩

namespace Plan

variable {σ : Type} {plan : Plan σ Int} {n m : Node σ Int} {limit : Nat}

/-- A node is a goal, and no node on the way to it scores more than this. -/
structure LeadsWithin (plan : Plan σ Int) (limit : Nat) (m : Node σ Int) : Prop where
  grows : plan.problem.Grows m
  isGoal : plan.problem.isGoal m.state = true
  score_le : ∀ a ∈ m.path, plan.score a ≤ limit

section Nonneg

variable (hstrategy : plan.strategy = .astar) (hnonneg : plan.problem.IsNonneg)

include hstrategy hnonneg

theorem cost_le_score (hn : plan.problem.Grows n) : n.cost ≤ plan.score n := by
  obtain ⟨h, hestimate, hh⟩ := hnonneg n.state hn.reaches
  calc n.cost ≤ n.cost + h := by omega
    _ = plan.score n := (score_astar hstrategy hestimate).symm

theorem depth_le_score (hpositive : plan.problem.HasPositivePrices)
    (hn : plan.problem.Grows n) : n.depth ≤ plan.score n :=
  (hn.depth_le_cost hpositive).trans (cost_le_score hstrategy hnonneg hn)

theorem LeadsWithin.cost_le (hleads : plan.LeadsWithin limit m) : m.cost ≤ limit :=
  (cost_le_score hstrategy hnonneg hleads.grows).trans
    (hleads.score_le m (Problem.mem_path_self m))

end Nonneg

end Plan

namespace Search

variable {σ : Type} [DecidableEq σ] [Hashable σ] {plan : Plan σ Int} {bound : Int}
  {start s t : Search σ Int} {n m : Node σ Int} {limit : Nat}

/-! ### What waits on the way to a goal -/

section Waiting

variable (hbfs : plan.strategy ≠ .bfs) (hpositive : plan.problem.HasPositivePrices)

include hbfs hpositive

/-- Until a goal is taken, some node waits that stands for one of the way to it, if the way costs no
more than the bound. -/
theorem Pass.exists_waits (hs : Pass plan bound s) (hm : plan.problem.Grows m)
    (hgoal : plan.problem.isGoal m.state = true) (hcost : m.cost ≤ bound) :
    ∃ a ∈ m.path, Waits (fun a b => a.cost ≤ b.cost) s a := by
  have ledger := hs.ledger
  rcases (hs.covering_cost hbfs).walk plan.problem.grading_cost ledger hm with
    ⟨g, hg, hstate, -⟩ | ⟨a, ha, hwaits | ⟨k, hk, hbeyond, -, hle⟩⟩
  · exact absurd hstate (ledger.state_ne_of_goal (ledger.expanded g hg).1 hgoal)
  · exact ⟨a, ha, hwaits⟩
  · -- A node that was cut off costs more than the bound, and so would the way to the goal.
    obtain ⟨-, -, later, -, hlater, -⟩ := hm.of_mem_path ha
    have hdepth := (ledger.tested k hk).1.depth_le_cost hpositive
    rw [ledger.depthBound] at hbeyond
    omega

theorem Run.passes_le_cost {word : List Nat} {cost : Nat}
    (hsolves : plan.problem.Solves word cost) (hs : Run plan start s)
    (hempty : s.frontier.toList = []) : s.passes < cost + 1 := by
  obtain ⟨goal, hfollow, hgoal⟩ := hsolves
  obtain ⟨m, hm, -, rfl, hcost⟩ := Problem.exists_grows_of_follow? hfollow
  obtain ⟨before, hpasses, hpass⟩ := hs.exists_pass
  by_contra hmany
  have hbefore := plan.le_boundAfter before
  obtain ⟨a, -, k, hk, -⟩ := hpass.exists_waits hbfs hpositive hm hgoal (by omega)
  exact Frontier.not_mem_items hempty k hk

end Waiting

/-! ### Searches that stay within a score -/

/-- All nodes that were taken score no more than this. Together with the largest trees that may grow
within it from what waits, they are no more than one such tree holds. -/
structure Contained (plan : Plan σ Int) (limit : Nat) (s : Search σ Int) : Prop where
  popped : ∀ k ∈ s.popped, plan.score k ≤ limit
  size : s.popped.length + (s.frontier.items.map (plan.shade limit)).sum ≤
    treeSize plan.problem.rules.length (limit + 1)

theorem contained_beginRun (plan : Plan σ Int) (limit : Nat) (start : Search σ Int) :
    Contained plan limit (start.beginRun plan) where
  popped := by
    intro k hk
    cases hk
  size := by
    have hroot : plan.shade limit (.root plan.problem.initial 0) =
        treeSize plan.problem.rules.length (limit + 1) := by
      simp [Plan.shade, Node.depth]
    have hitems : (start.beginRun plan).frontier.items = [.root plan.problem.initial 0] := rfl
    have hpopped : (start.beginRun plan).popped = [] := rfl
    rw [hitems, hpopped, List.map_singleton, List.sum_singleton, hroot, List.length_nil,
      Nat.zero_add]

theorem Contained.turn (contained : Contained plan limit s) (hturn : Turn plan s t)
    (hfront : ∀ n rest, Takes plan s n rest t →
      n.depth ≤ plan.score n ∧ plan.score n ≤ limit) : Contained plan limit t := by
  have hpopped : ∀ n rest, Takes plan s n rest t → ∀ k ∈ t.popped, plan.score k ≤ limit := by
    intro n rest takes
    rw [takes.popped]
    exact List.forall_mem_cons.mpr ⟨(hfront n rest takes).2, contained.popped⟩
  have hsize : ∀ n rest, Takes plan s n rest t →
      s.popped.length + (plan.shade limit n + ((rest.map (·.item)).map (plan.shade limit)).sum) ≤
        treeSize plan.problem.rules.length (limit + 1) := by
    intro n rest takes
    obtain ⟨key, hfront⟩ := takes.front
    have hsize := contained.size
    rwa [Frontier.items_of_front hfront, List.map_cons, List.sum_cons] at hsize
  cases hturn with
  | skipped n rest takes _ hfrontier =>
      refine ⟨hpopped n _ takes, le_trans ?_ (hsize n _ takes)⟩
      have hpos : 0 < plan.shade limit n := treeSize_pos _ _
      rw [takes.popped, List.length_cons, hfrontier, Frontier.items]
      omega
  | expanded n rest takes _ _ _ hqueue =>
      refine ⟨hpopped n _ takes, le_trans ?_ (hsize n _ takes)⟩
      obtain ⟨hdepth, hscore⟩ := hfront n _ takes
      have hless := @Plan.sum_shade_offspring_lt σ plan limit n (hdepth.trans hscore)
      have hperm := (Plan.queue?_perm hqueue).map (plan.shade limit)
      rw [takes.popped, List.length_cons, hperm.sum_nat, List.map_append, List.sum_append,
        Frontier.items]
      omega

section Nonneg

variable (hstrategy : plan.strategy = .astar) (hdiscipline : plan.discipline = .global)
  (hpositive : plan.problem.HasPositivePrices) (hnonneg : plan.problem.IsNonneg)
  (hleads : plan.LeadsWithin limit m)

include hstrategy hpositive hnonneg hleads

/-- Until a goal is taken, some node that waits scores no more than the way to it does. -/
theorem Pass.exists_score_le (hbound : limit ≤ bound) (hs : Pass plan bound s) :
    ∃ k ∈ s.frontier.items, plan.score k ≤ limit := by
  have hbfs : plan.strategy ≠ .bfs := by
    rw [hstrategy]
    simp
  have hcost := (hleads.cost_le hstrategy hnonneg).trans hbound
  obtain ⟨a, ha, k, hk, hstate, hle⟩ :=
    hs.exists_waits hbfs hpositive hleads.grows hleads.isGoal hcost
  have hagrows := (hleads.grows.of_mem_path ha).1
  refine ⟨k, hk, ?_⟩
  calc plan.score k ≤ plan.score a :=
        (Plan.score_le_iff hstrategy hnonneg.isEstimated hagrows hstate).mpr hle
    _ ≤ limit := hleads.score_le a ha

include hdiscipline

theorem Pass.score_le_of_front (hbound : limit ≤ bound) (hs : Pass plan bound s)
    {key : Option Int} {rest : List (Entry (Node σ Int) Int)}
    (hfront : s.frontier.toList = ⟨n, key⟩ :: rest) : plan.score n ≤ limit := by
  obtain ⟨k, hk, hle⟩ := hs.exists_score_le hstrategy hpositive hnonneg hleads hbound
  exact (hs.score_front_le (Or.inl hstrategy) hdiscipline hfront k hk).trans hle

/-- A run stays in its first pass, and within the highest score on the way to a goal. -/
theorem Run.contained (hlimit : limit ≤ unbounded) (hs : Run plan start s) :
    Pass plan unbounded s ∧ s.passes = 1 ∧ Contained plan limit s := by
  induction hs with
  | start =>
      have hbound : plan.boundAfter 0 = unbounded := by
        simp [Plan.boundAfter, hstrategy, Strategy.isIterative]
      exact ⟨hbound ▸ .start start.reset, rfl, contained_beginRun plan limit start⟩
  | turn hs hturn ih =>
      obtain ⟨hpass, hpasses, contained⟩ := ih
      have hstep := turn_of_running hturn
      obtain ⟨n, rest, takes⟩ := hstep.exists_takes
      refine ⟨hpass.turn hturn, takes.passes.trans hpasses, contained.turn hstep ?_⟩
      intro n rest takes
      obtain ⟨key, hfront⟩ := takes.front
      have hn := hpass.ledger.waiting n (Frontier.mem_items_of_front hfront)
      exact ⟨Plan.depth_le_score hstrategy hnonneg hpositive hn,
        hpass.score_le_of_front hstrategy hdiscipline hpositive hnonneg hleads hlimit hfront⟩
  | next hs hturn hopen ih =>
      obtain ⟨hpass, -, -⟩ := ih
      obtain ⟨k, hk, -⟩ := hpass.exists_score_le hstrategy hpositive hnonneg hleads hlimit
      exact absurd hk (Frontier.not_mem_items (drained_of_open hturn hopen).1 k)

end Nonneg

/-- **A\* is complete under any estimates that are not negative.** Where every rule that applies
asks a positive price and some word solves the problem, an A* run under a global ordering ends with a
solution. If no node on the way to some goal scores more than a limit, then no node is taken that
does, and those that are taken are no more than a tree holds that is one level higher. -/
theorem exists_solution_of_nonneg (hstrategy : plan.strategy = .astar)
    (hdiscipline : plan.discipline = .global) (hallowance : start.allowance = none)
    (hpriced : plan.problem.IsPriced) (hpositive : plan.problem.HasPositivePrices)
    (hnonneg : plan.problem.IsNonneg) (hsolvable : ∃ word cost, plan.problem.Solves word cost) :
    ∃ turns t n, start.run plan turns = .ended t ∧ t.isFailed = false ∧ t.solution = some n ∧
      (∃ cost : Nat, n.cost = cost ∧ plan.problem.Solves n.positions cost) ∧
      ∀ m limit, plan.LeadsWithin limit m → limit ≤ unbounded →
        t.passes = 1 ∧ (∀ k ∈ t.popped, plan.score k ≤ limit) ∧
          t.popped.length ≤ treeSize plan.problem.rules.length (limit + 1) := by
  have hbfs : plan.strategy ≠ .bfs := by
    rw [hstrategy]
    simp
  obtain ⟨word, cost, hsolves⟩ := hsolvable
  obtain ⟨s, n, key, rest, turns, hs, hfront, hgoal, hrun⟩ :=
    exists_solution_of_limit (fun s hs hempty => hs.passes_le_cost hbfs hpositive hsolves hempty)
      (unbroken_of_estimated hallowance hpriced hnonneg.isEstimated) ⟨word, cost, hsolves⟩
  obtain ⟨before, -, hpass⟩ := hs.exists_pass
  have hgrows := hpass.ledger.waiting n (Frontier.mem_items_of_front hfront)
  refine ⟨turns, _, n, hrun, hs.no_verdict.2.2, rfl, hgrows.solves hgoal, ?_⟩
  intro m limit hleads hlimit
  obtain ⟨hpass, hpasses, contained⟩ :=
    hs.contained hstrategy hdiscipline hpositive hnonneg hleads hlimit
  have hscore :=
    hpass.score_le_of_front hstrategy hdiscipline hpositive hnonneg hleads hlimit hfront
  refine ⟨hpasses, List.forall_mem_cons.mpr ⟨hscore, contained.popped⟩, ?_⟩
  have hsize := contained.size
  have hpos : 0 < plan.shade limit n := treeSize_pos _ _
  rw [Frontier.items_of_front hfront, List.map_cons, List.sum_cons] at hsize
  show s.popped.length + 1 ≤ _
  omega

/-- From 1 to 4 by steps of one and doublings, where the goal seems a hundred steps away from 2. -/
def mirage : Problem Int Int :=
  { Doubling.problem 1 4 none with
    heuristic := some fun n => .ok (if n = 2 then some 100 else none) }

theorem isNonneg_mirage : mirage.IsNonneg := by
  intro n _
  by_cases htwo : n = 2
  · exact ⟨100, by simp [Problem.estimate, mirage, htwo, Except.map], by omega⟩
  · exact ⟨0, by simp [Problem.estimate, mirage, htwo, Except.map], le_refl 0⟩

/-- The way from 1 to 4 by way of 2 seems longest at 2. -/
theorem leadsWithin_mirage : ∃ m, Plan.LeadsWithin ⟨mirage, .astar, .global⟩ 101 m := by
  have hscore : ∀ (a : Node Int Int) (x : Int), a.state = x →
      Plan.score ⟨mirage, .astar, .global⟩ a = a.cost + if x = 2 then 100 else 0 := by
    rintro a x rfl
    refine Plan.score_astar rfl ?_
    by_cases htwo : a.state = 2 <;> simp [Problem.estimate, mirage, htwo, Except.map]
  obtain ⟨k, hk, hkstate, hkcost⟩ := @Problem.child?_isSome_of_step? Int mirage
    (.root mirage.initial 0) 1 1 2 rfl
  obtain ⟨m, hm, hmstate, hmcost⟩ := @Problem.child?_isSome_of_step? Int mirage k 1 1 4
    (by rw [hkstate]; rfl)
  refine ⟨m, (Problem.Grows.root.child hk).child hm, by rw [hmstate]; rfl, fun a ha => ?_⟩
  rw [Problem.path_of_child? hm, Problem.path_of_child? hk, Node.path_root] at ha
  rw [Node.cost] at hkcost
  simp only [List.cons_append, List.nil_append, List.mem_cons, List.not_mem_nil, or_false] at ha
  rcases ha with rfl | rfl | rfl
  · rw [hscore (.root mirage.initial 0) 1 rfl, Node.cost, if_neg (by omega)]
    omega
  · rw [hscore _ 2 hkstate, if_pos rfl]
    omega
  · rw [hscore _ 4 hmstate, if_neg (by omega)]
    omega

theorem exists_solution_mirage :
    mirage.IsPriced ∧ mirage.HasPositivePrices ∧ mirage.IsNonneg ∧
      ∃ turns t n, (fresh : Search Int Int).run ⟨mirage, .astar, .global⟩ turns = .ended t ∧
        t.solution = some n ∧ t.passes = 1 ∧ t.popped.length ≤ treeSize 2 102 := by
  have hprice : mirage.HasPrice 1 := Problem.hasPrice_of_rules rfl
  have hpositive := hprice.hasPositivePrices Nat.one_pos
  obtain ⟨turns, t, n, hrun, -, hsolution, -, hwithin⟩ :=
    @exists_solution_of_nonneg Int _ _ ⟨mirage, .astar, .global⟩ fresh rfl rfl rfl hprice.isPriced
      hpositive isNonneg_mirage ⟨[1, 1], 2, 4, rfl, rfl⟩
  obtain ⟨m, hleads⟩ := leadsWithin_mirage
  obtain ⟨hpasses, -, hsize⟩ := hwithin m 101 hleads (by unfold unbounded; omega)
  exact ⟨hprice.isPriced, hpositive, isNonneg_mirage, turns, t, n, hrun, hsolution, hpasses, hsize⟩

end Search

end StateSpace
