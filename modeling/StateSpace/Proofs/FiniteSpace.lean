import StateSpace.Proofs.Ancestry
import StateSpace.Proofs.Termination

/-!
# Finite spaces are decided

Where finitely many states lie within reach, no path of a search with an admission test is longer
than their number. So a pass whose bound is that number is not cut, and one of the passes up to it
ends the run: with a solution if some state within reach is a goal, and else with a failure. Where
the search tree itself has a limited height, this needs no admission test. Where infinitely many
states lie within reach and none of them is a goal, every pass is cut, and the run goes on forever.
-/
namespace StateSpace.Search

variable {σ : Type} [DecidableEq σ] [Hashable σ] {plan : Plan σ Int} {bound : Int}
  {start s t : Search σ Int} {n : Node σ Int}

/-- Where only bounds below a limit cut something off, there is at most one pass more. -/
theorem Run.passes_le_of_hit {limit : Nat}
    (hlimit : ∀ bound u, Pass plan bound u → u.boundHit = true → bound < limit)
    (hs : Run plan start s) : s.passes ≤ limit + 1 := by
  induction hs with
  | start => exact Nat.le_add_left 1 _
  | turn hs hturn ih =>
      obtain ⟨n, rest, takes⟩ := (turn_of_running hturn).exists_takes
      rwa [takes.passes]
  | @next s t hs hturn hopen ih =>
      have hhit := hs.boundHit_of_open hturn hopen
      obtain ⟨-, rfl⟩ := drained_of_open hturn hopen
      obtain ⟨before, hpasses, hpass⟩ := hs.exists_pass
      have hlt := hlimit _ s hpass hhit
      have hbefore := plan.le_boundAfter before
      show s.passes + 1 ≤ _
      omega

/-- An unbroken run with a limited number of passes ends, with a solution if some state within reach
is a goal, and else with a failure. -/
theorem decides_of_passes_le {limit : Nat} (hlimit : ∀ s, Run plan start s → s.passes ≤ limit)
    (hunbroken : Unbroken plan start) :
    ∃ turns t, start.run plan turns = .ended t ∧
      ((∃ n, t.solution = some n) ↔
        ∃ x, plan.problem.Reaches x ∧ plan.problem.isGoal x = true) ∧
      (t.isFailed = false ↔ ∃ n, t.solution = some n) ∧
      (∀ n, t.solution = some n → plan.problem.isGoal n.state = true) ∧ t.passes ≤ limit := by
  obtain ⟨s, t, hs, hturn, hfinished⟩ := Run.start.exists_verdict hlimit hunbroken
  obtain ⟨turns, hrun⟩ := hs.exists_ended hturn hfinished
  have hpasses := hlimit s hs
  obtain ⟨hsolution, -, hfailed⟩ := hs.no_verdict
  obtain ⟨before, -, hpass⟩ := hs.exists_pass
  cases ends_of_ended hturn with
  | drained hempty hresult =>
      subst hresult
      rw [hs.drain_verdict.1, Bool.not_eq_true'] at hfinished
      have hnone : s.drain.conclude.solution = none := hsolution
      have hfailure : s.drain.conclude.isFailed = true := by
        show s.drain.isFailed = true
        rw [hs.drain_verdict.2, hfinished]
        rfl
      refine ⟨turns, _, hrun, ?_, ?_, ?_, hpasses⟩
      · rw [hnone]
        constructor
        · rintro ⟨n, hn⟩
          cases hn
        · rintro ⟨x, hx, hgoal⟩
          rw [hpass.notGoal_of_drained hempty hfinished hx] at hgoal
          cases hgoal
      · rw [hnone, hfailure]
        simp
      · rw [hnone]
        intro n hn
        cases hn
  | goal n key rest hfront hgoal hresult =>
      subst hresult
      have hgrows := hpass.ledger.waiting n (Frontier.mem_items_of_front hfront)
      refine ⟨turns, _, hrun, ⟨fun _ => ⟨n.state, hgrows.reaches, hgoal⟩, fun _ => ⟨n, rfl⟩⟩,
        ⟨fun _ => ⟨n, rfl⟩, fun _ => hfailed⟩, ?_, hpasses⟩
      intro m hm
      obtain rfl : n = m := Option.some.inj hm
      exact hgoal

/-- Where the search tree has a limited height, every strategy decides. -/
theorem decides_of_depth_le {height : Nat} (hdepth : ∀ n, plan.problem.Grows n → n.depth ≤ height)
    (hallowance : start.allowance = none) (hpriced : plan.problem.IsPriced)
    (hestimated : plan.problem.IsEstimated) :
    ∃ turns t, start.run plan turns = .ended t ∧
      ((∃ n, t.solution = some n) ↔
        ∃ x, plan.problem.Reaches x ∧ plan.problem.isGoal x = true) ∧
      (t.isFailed = false ↔ ∃ n, t.solution = some n) ∧
      (∀ n, t.solution = some n → plan.problem.isGoal n.state = true) ∧ t.passes ≤ height + 1 := by
  have hlimit : ∀ bound s, Pass plan bound s → s.boundHit = true → bound < height := by
    intro bound s hpass hhit
    obtain ⟨n, hn, hbeyond⟩ := hpass.ledger.boundHit.mp hhit
    have hle := hdepth n (hpass.ledger.tested n hn).1
    omega
  exact decides_of_passes_le (fun s hs => hs.passes_le_of_hit hlimit)
    (unbroken_of_estimated hallowance hpriced hestimated)

/-- Where infinitely many states lie within reach and none of them is a goal, a run goes on
forever. -/
theorem running_of_infinite (hunbroken : Unbroken plan start)
    (hinfinite : {x | plan.problem.Reaches x}.Infinite)
    (hgoalless : ∀ x, plan.problem.Reaches x → plan.problem.isGoal x = false) (turns : Nat) :
    ∃ s, start.run plan turns = .running s := by
  refine running_of_boundHit hunbroken (fun s hs hempty => ?_) (fun s hs n hn => ?_) turns
  · by_contra huncut
    obtain ⟨before, -, hpass⟩ := hs.exists_pass
    have hclosed : {x | plan.problem.Reaches x} ⊆ {x | x ∈ s.closed.keys} := fun x hx =>
      Std.HashMap.mem_keys.mpr
        ((hpass.mem_closed_iff hempty (Bool.eq_false_iff.mpr huncut) x).mpr hx)
    exact hinfinite (s.closed.keys.finite_toSet.subset hclosed)
  · obtain ⟨before, -, hpass⟩ := hs.exists_pass
    exact hgoalless n.state (hpass.ledger.waiting n hn).reaches

section Finite

variable (hgreedy : plan.strategy ≠ .greedy) (hfinite : {x | plan.problem.Reaches x}.Finite)

include hgreedy hfinite

/-- Only a bound below the number of states cuts something off. -/
theorem Pass.bound_lt_of_hit (hs : Pass plan bound s) (hhit : s.boundHit = true) :
    bound < {x | plan.problem.Reaches x}.ncard := by
  obtain ⟨n, hn, hbeyond⟩ := hs.ledger.boundHit.mp hhit
  have hdepth : n.depth ≤ {x | plan.problem.Reaches x}.ncard :=
    hs.forall_tested (fun u hu => hu.depth_le_ncard hgreedy hfinite) n hn
  omega

/-- **Finite spaces are decided.** Where finitely many states lie within reach, a run with an
admission test ends. It ends with a solution if some state within reach is a goal, and fails
otherwise, after at most one pass more than there are such states. -/
theorem decides_of_finite (hallowance : start.allowance = none)
    (hpriced : plan.problem.IsPriced) (hestimated : plan.problem.IsEstimated) :
    ∃ turns t, start.run plan turns = .ended t ∧
      ((∃ n, t.solution = some n) ↔
        ∃ x, plan.problem.Reaches x ∧ plan.problem.isGoal x = true) ∧
      (t.isFailed = false ↔ ∃ n, t.solution = some n) ∧
      (∀ n, t.solution = some n → plan.problem.isGoal n.state = true) ∧
      t.passes ≤ {x | plan.problem.Reaches x}.ncard + 1 :=
  decides_of_passes_le
    (fun _ hs => hs.passes_le_of_hit fun _ _ hpass => hpass.bound_lt_of_hit hgreedy hfinite)
    (unbroken_of_estimated hallowance hpriced hestimated)

end Finite

/-- Two states in a circle at no cost and without a goal, with estimates below zero. -/
def seesaw : Problem Bool Int where
  initial := false
  isGoal _ := false
  rules := [Rule.fixed "turn" (.int 0) fun side => some !side]
  heuristic := some fun _ => .ok (some (-1))

theorem decides_seesaw :
    {x | seesaw.Reaches x}.Finite ∧
      ∃ turns t, (fresh : Search Bool Int).run ⟨seesaw, .iddfs, .batch⟩ turns = .ended t ∧
        t.isFailed = true ∧ t.passes ≤ 3 := by
  have hfinite : {x | seesaw.Reaches x}.Finite := Set.toFinite _
  have hprice : seesaw.HasPrice 0 := by
    refine Problem.hasPrice_of_fixed fun rule hrule => ?_
    rw [List.mem_singleton.mp hrule]
    exact ⟨"turn", _, rfl⟩
  obtain ⟨turns, t, hrun, hsolved, hfailed, -, hpasses⟩ :=
    @decides_of_finite Bool _ _ ⟨seesaw, .iddfs, .batch⟩ fresh (by simp) hfinite rfl
      hprice.isPriced
      fun s _ => ⟨_, rfl⟩
  have hnone : ¬∃ n, t.solution = some n := by
    rw [hsolved]
    rintro ⟨x, -, hgoal⟩
    cases hgoal
  have hcard : {x | seesaw.Reaches x}.ncard ≤ 2 := by
    calc {x | seesaw.Reaches x}.ncard ≤ (Set.univ : Set Bool).ncard :=
          Set.ncard_le_ncard (Set.subset_univ _)
      _ = 2 := by simp
  refine ⟨hfinite, turns, t, hrun, ?_, hpasses.trans (Nat.succ_le_succ hcard)⟩
  rw [← hfailed, Bool.not_eq_false] at hnone
  exact hnone

end StateSpace.Search
