import StateSpace.Proofs.Visits

/-!
# Passes and runs

The searches at the head of the loop, in one pass and in a whole run, and what holds of all of them:
nodes belong to the search tree, the nodes taken so far were no goals, and the closed map speaks of
the nodes that this pass expanded.
-/
namespace StateSpace.Search

variable {σ : Type} [DecidableEq σ] [Hashable σ] {plan : Plan σ Int} {bound : Int}
  {start s t : Search σ Int} {n : Node σ Int}

/-- The searches at the head of the loop in a pass with this bound. -/
inductive Pass (plan : Plan σ Int) (bound : Int) : Search σ Int → Prop where
  | start (s : Search σ Int) : Pass plan bound (s.beginPass plan bound)
  | turn {s t : Search σ Int} (hs : Pass plan bound s) (hturn : s.turn plan = .running t) :
      Pass plan bound t

/-- The searches at the head of the loop in a run. -/
inductive Run (plan : Plan σ Int) (start : Search σ Int) : Search σ Int → Prop where
  | start : Run plan start (start.beginRun plan)
  | turn {s t : Search σ Int} (hs : Run plan start s) (hturn : s.turn plan = .running t) :
      Run plan start t
  | next {s t : Search σ Int} (hs : Run plan start s) (hturn : s.turn plan = .ended t)
      (hopen : t.isFinished = false) :
      Run plan start (t.beginPass plan (plan.boundAfter t.passes))

/-- How a run stands after some turns: it goes on, or a pass of it came to a verdict, or a turn of it
was broken off. -/
inductive Moment (plan : Plan σ Int) (start : Search σ Int) : Progress σ Int → Prop where
  | running {s : Search σ Int} (hs : Run plan start s) : Moment plan start (.running s)
  | ended {s t : Search σ Int} (hs : Run plan start s) (hturn : s.turn plan = .ended t)
      (hfinished : t.isFinished = true) : Moment plan start (.ended t.conclude)
  | broken {s t : Search σ Int} {fault : Fault σ} (hs : Run plan start s)
      (hturn : s.turn plan = .broken t fault) : Moment plan start (.broken t fault)

/-- How a pass stands after some turns: it goes on, or a turn ended it or broke it off. -/
inductive Stage (plan : Plan σ Int) (bound : Int) : Progress σ Int → Prop where
  | running {s : Search σ Int} (hs : Pass plan bound s) : Stage plan bound (.running s)
  | ended {s t : Search σ Int} (hs : Pass plan bound s) (hturn : s.turn plan = .ended t) :
      Stage plan bound (.ended t)
  | broken {s t : Search σ Int} {fault : Fault σ} (hs : Pass plan bound s)
      (hturn : s.turn plan = .broken t fault) : Stage plan bound (.broken t fault)

/-! ### Runs and turns -/

theorem advance_of_running (hturn : s.turn plan = .running t) : s.advance plan = .running t := by
  rw [advance, hturn]

theorem advance_of_open (hturn : s.turn plan = .ended t) (hopen : t.isFinished = false) :
    s.advance plan = .running (t.beginPass plan (plan.boundAfter t.passes)) := by
  rw [advance, hturn]
  simp [hopen]

theorem advance_of_finished (hturn : s.turn plan = .ended t) (hfinished : t.isFinished = true) :
    s.advance plan = .ended t.conclude := by
  rw [advance, hturn]
  simp [hfinished]

theorem after_succ {step : Search σ Int → Progress σ Int} {turns : Nat} {p : Progress σ Int}
    (hrunning : Progress.after step turns p = .running s) :
    Progress.after step (turns + 1) p = step s := by
  induction turns generalizing p with
  | zero =>
      rw [Progress.after] at hrunning
      subst hrunning
      rfl
  | succ turns ih =>
      cases p with
      | running u => exact ih hrunning
      | ended u => simp [Progress.after] at hrunning
      | broken u fault => simp [Progress.after] at hrunning

theorem exists_of_after_succ {step : Search σ Int → Progress σ Int} {p : Progress σ Int}
    {turns : Nat} (hrun : Progress.after step (turns + 1) p = .running t) :
    ∃ s, Progress.after step turns p = .running s ∧ step s = .running t := by
  induction turns generalizing p with
  | zero =>
      cases p with
      | running s => exact ⟨s, rfl, hrun⟩
      | ended s => cases hrun
      | broken s fault => cases hrun
  | succ turns ih =>
      cases p with
      | running s => exact ih hrun
      | ended s => cases hrun
      | broken s fault => cases hrun

theorem Run.exists_running (hs : Run plan start s) :
    ∃ turns, start.run plan turns = .running s := by
  induction hs with
  | start => exact ⟨0, rfl⟩
  | turn hs hturn ih =>
      obtain ⟨turns, hrun⟩ := ih
      exact ⟨turns + 1, (after_succ hrun).trans (advance_of_running hturn)⟩
  | next hs hturn hopen ih =>
      obtain ⟨turns, hrun⟩ := ih
      exact ⟨turns + 1, (after_succ hrun).trans (advance_of_open hturn hopen)⟩

theorem Run.exists_ended (hs : Run plan start s) (hturn : s.turn plan = .ended t)
    (hfinished : t.isFinished = true) :
    ∃ turns, start.run plan turns = .ended t.conclude := by
  obtain ⟨turns, hrun⟩ := hs.exists_running
  exact ⟨turns + 1, (after_succ hrun).trans (advance_of_finished hturn hfinished)⟩

theorem advance_of_broken {fault : Fault σ} (hturn : s.turn plan = .broken t fault) :
    s.advance plan = .broken t fault := by
  rw [advance, hturn]

theorem Run.moment (hs : Run plan start s) (turns : Nat) :
    Moment plan start (Progress.after (advance plan) turns (.running s)) := by
  induction turns generalizing s with
  | zero => exact .running hs
  | succ turns ih =>
      rw [Progress.after]
      cases hturn : s.turn plan with
      | running u =>
          rw [advance_of_running hturn]
          exact ih (hs.turn hturn)
      | ended u =>
          cases hfinished : u.isFinished with
          | false =>
              rw [advance_of_open hturn hfinished]
              exact ih (hs.next hturn hfinished)
          | true =>
              rw [advance_of_finished hturn hfinished]
              cases turns <;> exact .ended hs hturn hfinished
      | broken u fault =>
          rw [advance_of_broken hturn]
          cases turns <;> exact .broken hs hturn

theorem moment_run (plan : Plan σ Int) (start : Search σ Int) (turns : Nat) :
    Moment plan start (start.run plan turns) :=
  Run.start.moment turns

theorem Pass.stage (hs : Pass plan bound s) (turns : Nat) :
    Stage plan bound (Progress.after (Search.turn plan) turns (.running s)) := by
  induction turns generalizing s with
  | zero => exact .running hs
  | succ turns ih =>
      rw [Progress.after]
      cases hturn : s.turn plan with
      | running u => exact ih (hs.turn hturn)
      | ended u => cases turns <;> exact .ended hs hturn
      | broken u fault => cases turns <;> exact .broken hs hturn

theorem stage_explore (plan : Plan σ Int) (bound : Int) (start : Search σ Int) (turns : Nat) :
    Stage plan bound (start.explore plan bound turns) :=
  (Pass.start start).stage turns

theorem run_of_running {turns : Nat} (hrun : start.run plan turns = .running s) :
    Run plan start s := by
  have hmoment := moment_run plan start turns
  rw [hrun] at hmoment
  cases hmoment with
  | running hs => exact hs

theorem exists_run_of_broken {turns : Nat} {fault : Fault σ}
    (hrun : start.run plan turns = .broken t fault) :
    ∃ s, Run plan start s ∧ s.turn plan = .broken t fault := by
  have hmoment := moment_run plan start turns
  rw [hrun] at hmoment
  cases hmoment with
  | broken hs hturn => exact ⟨_, hs, hturn⟩

/-- The end of a run is the end of a pass of it that came to a verdict. -/
theorem exists_run_of_ended {turns : Nat} (hrun : start.run plan turns = .ended t) :
    ∃ s u, Run plan start s ∧ s.turn plan = .ended u ∧ u.isFinished = true ∧ t = u.conclude := by
  have hmoment := moment_run plan start turns
  rw [hrun] at hmoment
  cases hmoment with
  | ended hs hturn hfinished => exact ⟨_, _, hs, hturn, hfinished, rfl⟩

/-- Every search of a run is a search of its pass, whose bound goes by the passes before it. -/
theorem Run.exists_pass (hs : Run plan start s) :
    ∃ before, s.passes = before + 1 ∧ Pass plan (plan.boundAfter before) s := by
  induction hs with
  | start => exact ⟨0, rfl, .start _⟩
  | turn hs hturn ih =>
      obtain ⟨before, hpasses, hpass⟩ := ih
      obtain ⟨n, rest, takes⟩ := (turn_of_running hturn).exists_takes
      exact ⟨before, takes.passes.trans hpasses, hpass.turn hturn⟩
  | @next s t hs hturn hopen ih => exact ⟨t.passes, rfl, .start _⟩

/-- What a run has expanded was expanded by a pass. -/
theorem Moment.exists_stage {p : Progress σ Int} (hmoment : Moment plan start p) :
    ∃ bound q, Stage plan bound q ∧ p.search.expanded = q.search.expanded := by
  cases hmoment with
  | running hs =>
      obtain ⟨before, -, hpass⟩ := hs.exists_pass
      exact ⟨_, _, .running hpass, rfl⟩
  | ended hs hturn =>
      obtain ⟨before, -, hpass⟩ := hs.exists_pass
      exact ⟨_, _, .ended hpass hturn, rfl⟩
  | broken hs hturn =>
      obtain ⟨before, -, hpass⟩ := hs.exists_pass
      exact ⟨_, _, .broken hpass hturn, rfl⟩

/-- A pass that leaves its run open was drained. -/
theorem drained_of_open (hturn : s.turn plan = .ended t) (hopen : t.isFinished = false) :
    s.frontier.toList = [] ∧ t = s.drain := by
  cases ends_of_ended hturn with
  | drained hempty hresult => exact ⟨hempty, hresult⟩
  | goal n key rest hfront hgoal hresult =>
      subst hresult
      simp [succeed] at hopen

/-- While a run goes on it has no verdict. -/
theorem Run.no_verdict (hs : Run plan start s) :
    s.solution = none ∧ s.isFinished = false ∧ s.isFailed = false := by
  induction hs with
  | start => exact ⟨rfl, rfl, rfl⟩
  | turn hs hturn ih =>
      obtain ⟨n, rest, takes⟩ := (turn_of_running hturn).exists_takes
      rwa [takes.solution, takes.isFinished, takes.isFailed]
  | next hs hturn hopen ih =>
      obtain ⟨hsolution, hfinished, hfailed⟩ := ih
      obtain ⟨-, rfl⟩ := drained_of_open hturn hopen
      simp only [drain, hfinished, Bool.false_or] at hopen
      simp [beginPass, drain, hsolution, hfinished, hfailed, hopen]

/-! ### Verdicts -/

/-- A drained pass is the end of its run, without a solution, unless something was cut off. -/
theorem Run.drain_verdict (hs : Run plan start s) :
    s.drain.isFinished = !s.boundHit ∧ s.drain.isFailed = !s.boundHit := by
  obtain ⟨-, hfinished, hfailed⟩ := hs.no_verdict
  constructor
  · rw [drain, hfinished, Bool.false_or]
  · rw [drain, hfailed, Bool.false_or]

/-- A pass that leaves its run open has cut something off. -/
theorem Run.boundHit_of_open (hs : Run plan start s) (hturn : s.turn plan = .ended t)
    (hopen : t.isFinished = false) : s.boundHit = true := by
  obtain ⟨-, rfl⟩ := drained_of_open hturn hopen
  rwa [hs.drain_verdict.1, Bool.not_eq_false'] at hopen

/-- A run that ends without a solution drained a pass in which nothing was cut off. -/
theorem exists_drained_of_failed {turns : Nat} (hrun : start.run plan turns = .ended t)
    (hfailed : t.isFailed = true) :
    ∃ s, Run plan start s ∧ s.frontier.toList = [] ∧ s.boundHit = false ∧
      t = s.drain.conclude := by
  obtain ⟨s, u, hs, hturn, -, rfl⟩ := exists_run_of_ended hrun
  have hrunning : s.isFailed = false := hs.no_verdict.2.2
  cases ends_of_ended hturn with
  | drained hempty hresult =>
      subst hresult
      have hverdict : s.drain.isFailed = true := hfailed
      rw [hs.drain_verdict.2, Bool.not_eq_true'] at hverdict
      exact ⟨s, hs, hempty, hverdict, rfl⟩
  | goal n key rest hfront hgoal hresult =>
      subst hresult
      have : s.isFailed = true := hfailed
      rw [hrunning] at this
      cases this

/-- A solution was taken from the front of the frontier, by the last turn of the run. -/
theorem Moment.exists_front {p : Progress σ Int} (hmoment : Moment plan start p)
    (hsolution : p.search.solution = some n) :
    ∃ s key rest, Run plan start s ∧ s.frontier.toList = ⟨n, key⟩ :: rest.toList ∧
      plan.problem.isGoal n.state = true ∧
      p.search =
        ((s.take plan n (decide (s.depthBound < n.depth)) rest).succeed n).conclude := by
  cases hmoment with
  | running hs =>
      rw [Progress.search, hs.no_verdict.1] at hsolution
      cases hsolution
  | @ended s t hs hturn =>
      cases ends_of_ended hturn with
      | drained hempty hresult =>
          subst hresult
          have : s.solution = some n := hsolution
          rw [hs.no_verdict.1] at this
          cases this
      | goal m key rest hfront hgoal hresult =>
          subst hresult
          obtain rfl : m = n := Option.some.inj hsolution
          exact ⟨s, key, rest, hs, hfront, hgoal, rfl⟩
  | broken hs hturn =>
      obtain ⟨m, rest, takes⟩ := (visit_of_broken hturn).exists_takes
      rw [Progress.search, takes.solution, hs.no_verdict.1] at hsolution
      cases hsolution

theorem exists_front_of_solution {turns : Nat} (hrun : start.run plan turns = .ended t)
    (hsolution : t.solution = some n) :
    ∃ s key rest, Run plan start s ∧ s.frontier.toList = ⟨n, key⟩ :: rest.toList ∧
      plan.problem.isGoal n.state = true ∧
      t = ((s.take plan n (decide (s.depthBound < n.depth)) rest).succeed n).conclude := by
  have hmoment := moment_run plan start turns
  rw [hrun] at hmoment
  exact hmoment.exists_front hsolution

/-! ### What holds at every turn -/

/-- A node that waited before a turn waits after it, or was cut off, refused or expanded by it. -/
theorem Turn.of_mem_items (hturn : Turn plan s t) {m : Node σ Int} (hm : m ∈ s.frontier.items) :
    m ∈ t.frontier.items ∨ (m ∈ t.tested ∧ s.depthBound < m.depth) ∨
      s.isAdmitted plan.strategy m = false ∨ m ∈ t.expanded := by
  cases hturn with
  | skipped n rest takes hreason hfrontier =>
      obtain ⟨key, hfront⟩ := takes.front
      rw [Frontier.items_of_front hfront] at hm
      rcases List.mem_cons.mp hm with rfl | hm
      · rcases hreason with hbeyond | ⟨-, hrefused⟩
        · exact Or.inr (Or.inl ⟨takes.tested ▸ List.mem_cons_self, hbeyond⟩)
        · exact Or.inr (Or.inr (Or.inl hrefused))
      · rw [hfrontier]
        exact Or.inl hm
  | expanded n rest takes _ _ _ hqueue _ hexpanded =>
      obtain ⟨key, hfront⟩ := takes.front
      rw [Frontier.items_of_front hfront] at hm
      rcases List.mem_cons.mp hm with rfl | hm
      · exact Or.inr (Or.inr (Or.inr (hexpanded ▸ List.mem_cons_self)))
      · exact Or.inl ((Plan.queue?_perm hqueue).mem_iff.mpr (List.mem_append_right _ hm))

theorem items_beginPass (hn : n ∈ (s.beginPass plan bound).frontier.items) :
    n = .root plan.problem.initial 0 := by
  simpa [beginPass, Plan.askInitial, Frontier.items] using hn

/-- What a pass knows of the nodes it has seen. -/
structure Ledger (plan : Plan σ Int) (bound : Int) (s : Search σ Int) : Prop where
  depthBound : s.depthBound = bound
  waiting : ∀ n ∈ s.frontier.items, plan.problem.Grows n
  tested : ∀ n ∈ s.tested, plan.problem.Grows n ∧ plan.problem.isGoal n.state = false
  expanded : ∀ n ∈ s.expanded, n ∈ s.tested ∧ n.depth ≤ bound
  boundHit : s.boundHit = true ↔ ∃ n ∈ s.tested, bound < n.depth
  closed_of_expanded : ∀ n ∈ s.expanded, ∃ cost, s.closed[n.state]? = some cost
  expanded_of_closed : ∀ x cost, s.closed[x]? = some cost →
    ∃ n ∈ s.expanded, n.state = x ∧ n.cost = cost

theorem ledger_beginPass (plan : Plan σ Int) (bound : Int) (s : Search σ Int) :
    Ledger plan bound (s.beginPass plan bound) where
  depthBound := rfl
  waiting := by
    intro n hn
    rw [items_beginPass hn]
    exact .root
  tested := by
    intro n hn
    cases hn
  expanded := by
    intro n hn
    cases hn
  boundHit := by
    constructor
    · intro hhit
      cases hhit
    · rintro ⟨n, hn, -⟩
      cases hn
  closed_of_expanded := by
    intro n hn
    cases hn
  expanded_of_closed := by
    intro x cost hcost
    simp [beginPass] at hcost

theorem Takes.boundHit_iff {rest : List (Entry (Node σ Int) Int)}
    (takes : Takes plan s n rest t) (ledger : Ledger plan bound s) :
    t.boundHit = true ↔ ∃ m ∈ t.tested, bound < m.depth := by
  rw [takes.boundHit, takes.tested, ledger.depthBound, Bool.or_eq_true, decide_eq_true_iff,
    ledger.boundHit]
  simp only [List.mem_cons, exists_eq_or_imp]
  exact or_comm

theorem Ledger.visit (ledger : Ledger plan bound s) (hvisit : Visit plan s t) :
    Ledger plan bound t := by
  have hwaiting : ∀ m ∈ t.frontier.items, plan.problem.Grows m := by
    intro m hm
    rcases hvisit.mem_items hm with hm | ⟨n, hn, -, -, hchild⟩
    · exact ledger.waiting m hm
    · obtain ⟨position, hchild⟩ := Problem.mem_offspring_iff.mp hchild
      exact (ledger.waiting n hn).child hchild
  have htested : ∀ m ∈ t.tested, plan.problem.Grows m ∧ plan.problem.isGoal m.state = false := by
    intro m hm
    rcases hvisit.mem_tested hm with hm | ⟨hm, hgoal⟩
    · exact ledger.tested m hm
    · exact ⟨ledger.waiting m hm, hgoal⟩
  cases hvisit with
  | skipped n rest takes _ hclosed hexpanded =>
      refine ⟨takes.depthBound.trans ledger.depthBound, hwaiting, htested, ?_,
        takes.boundHit_iff ledger, ?_, ?_⟩
      · intro m hm
        rw [hexpanded] at hm
        rw [takes.tested]
        exact ⟨List.mem_cons_of_mem n (ledger.expanded m hm).1, (ledger.expanded m hm).2⟩
      · rw [hexpanded, hclosed]
        exact ledger.closed_of_expanded
      · rw [hexpanded, hclosed]
        exact ledger.expanded_of_closed
  | expanded n rest takes hwithin _ _ hclosed hexpanded =>
      refine ⟨takes.depthBound.trans ledger.depthBound, hwaiting, htested, ?_,
        takes.boundHit_iff ledger, ?_, ?_⟩
      · intro m hm
        rw [hexpanded] at hm
        rw [takes.tested]
        rcases List.mem_cons.mp hm with rfl | hm
        · exact ⟨List.mem_cons_self, ledger.depthBound ▸ hwithin⟩
        · exact ⟨List.mem_cons_of_mem n (ledger.expanded m hm).1, (ledger.expanded m hm).2⟩
      · intro m hm
        rw [hclosed]
        rw [hexpanded] at hm
        by_cases hstate : n.state = m.state
        · exact ⟨n.cost, if_pos hstate⟩
        · rw [if_neg hstate]
          rcases List.mem_cons.mp hm with rfl | hm
          · exact absurd rfl hstate
          · exact ledger.closed_of_expanded m hm
      · intro x cost hcost
        rw [hclosed] at hcost
        rw [hexpanded]
        split at hcost
        · next hstate => exact ⟨n, List.mem_cons_self, hstate, Option.some.inj hcost⟩
        · obtain ⟨m, hm, hstate, hcost⟩ := ledger.expanded_of_closed x cost hcost
          exact ⟨m, List.mem_cons_of_mem n hm, hstate, hcost⟩

theorem Pass.ledger (hs : Pass plan bound s) : Ledger plan bound s := by
  induction hs with
  | start s => exact ledger_beginPass plan bound s
  | turn hs hturn ih => exact ih.visit (turn_of_running hturn).visit

theorem Ledger.mem_closed_iff (ledger : Ledger plan bound s) {x : σ} :
    x ∈ s.closed ↔ ∃ n ∈ s.expanded, n.state = x := by
  rw [Std.HashMap.mem_iff_isSome_getElem?, Option.isSome_iff_exists]
  constructor
  · rintro ⟨cost, hcost⟩
    obtain ⟨n, hn, hstate, -⟩ := ledger.expanded_of_closed x cost hcost
    exact ⟨n, hn, hstate⟩
  · rintro ⟨n, hn, rfl⟩
    exact ledger.closed_of_expanded n hn

theorem Ledger.grows_of_expanded (ledger : Ledger plan bound s) (hn : n ∈ s.expanded) :
    plan.problem.Grows n :=
  (ledger.tested n (ledger.expanded n hn).1).1

theorem Ledger.state_ne_of_goal (ledger : Ledger plan bound s) (hn : n ∈ s.tested)
    {m : Node σ Int} (hgoal : plan.problem.isGoal m.state = true) : n.state ≠ m.state := by
  intro hstate
  have hnot := (ledger.tested n hn).2
  rw [hstate, hgoal] at hnot
  cases hnot

/-- The nodes that the pass under way has made: the root, and the children of the nodes that were
expanded, in the order of the expansions and of the rules. -/
def made {σ : Type} [Keyed σ] (plan : Plan σ Int) (s : Search σ Int) : List (Node σ Int) :=
  .root plan.problem.initial 0 :: s.expanded.reverse.flatMap plan.problem.offspring

section Expansion

variable {P : List (Node σ Int) → Prop} (hnil : P [])
  (hcons : ∀ u n key rest, Pass plan bound u → P u.expanded →
    u.frontier.toList = ⟨n, key⟩ :: rest → n.depth ≤ u.depthBound →
    u.isAdmitted plan.strategy n = true → P (n :: u.expanded))

include hcons

theorem Pass.expanded_visit (hs : Pass plan bound s) (hexpanded : P s.expanded)
    (hvisit : Visit plan s t) : P t.expanded := by
  rcases hvisit.expanded_cases with hsame | ⟨n, key, rest, hfront, hwithin, hadmitted, hmore⟩
  · exact hsame ▸ hexpanded
  · exact hmore ▸ hcons s n key rest hs hexpanded hfront hwithin hadmitted

include hnil

/-- What is kept whenever the front is expanded holds of the nodes that a pass has expanded. -/
theorem Pass.expanded_induction (hs : Pass plan bound s) : P s.expanded := by
  induction hs with
  | start s => exact hnil
  | turn hs hturn ih => exact hs.expanded_visit hcons ih (turn_of_running hturn).visit

theorem Stage.expanded_induction {p : Progress σ Int} (hstage : Stage plan bound p) :
    P p.search.expanded := by
  cases hstage with
  | running hs => exact hs.expanded_induction hnil hcons
  | ended hs hturn =>
      have hexpanded := hs.expanded_induction hnil hcons
      cases ends_of_ended hturn with
      | drained hempty hresult => exact hresult ▸ hexpanded
      | goal n key rest hfront hgoal hresult => exact hresult ▸ hexpanded
  | broken hs hturn =>
      exact hs.expanded_visit hcons (hs.expanded_induction hnil hcons) (visit_of_broken hturn)

end Expansion

theorem Visit.depth_le (ledger : Ledger plan bound s) (hvisit : Visit plan s t)
    (hdepth : (∀ n ∈ s.frontier.items, (n.depth : Int) ≤ bound + 1) ∧
      ∀ n ∈ s.tested, (n.depth : Int) ≤ bound + 1) :
    (∀ n ∈ t.frontier.items, (n.depth : Int) ≤ bound + 1) ∧
      ∀ n ∈ t.tested, (n.depth : Int) ≤ bound + 1 := by
  obtain ⟨hwaiting, htested⟩ := hdepth
  constructor
  · intro m hm
    rcases hvisit.mem_items hm with hm | ⟨n, hn, -, hwithin, hchild⟩
    · exact hwaiting m hm
    · obtain ⟨position, hchild⟩ := Problem.mem_offspring_iff.mp hchild
      rw [ledger.depthBound] at hwithin
      rw [Problem.depth_of_child? hchild]
      push_cast
      omega
  · intro m hm
    rcases hvisit.mem_tested hm with hm | ⟨hm, -⟩
    · exact htested m hm
    · exact hwaiting m hm

/-- A pass makes no node that lies more than one step beyond its bound. -/
theorem Pass.depth_le (hbound : 0 ≤ bound) (hs : Pass plan bound s) :
    (∀ n ∈ s.frontier.items, (n.depth : Int) ≤ bound + 1) ∧
      ∀ n ∈ s.tested, (n.depth : Int) ≤ bound + 1 := by
  induction hs with
  | start s =>
      constructor
      · intro n hn
        rw [items_beginPass hn, Node.depth]
        omega
      · intro n hn
        cases hn
  | turn hs hturn ih => exact (turn_of_running hturn).visit.depth_le hs.ledger ih

end StateSpace.Search
