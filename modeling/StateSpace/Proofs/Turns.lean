import StateSpace.Proofs.Tree

/-!
# What a turn does

A turn of a pass ends it, breaks it off, or takes one node from the front of the frontier and goes
on. This module says once what each turn can do, guards included; invariants of passes are proved
from that alone. The nodes that a pass took and expanded are read off the record of the search.
-/
namespace StateSpace

namespace Event

variable {σ κ : Type}

def tested? : Event σ κ → Option (Node σ κ)
  | .tested n _ => some n
  | _ => none

def expanded? : Event σ κ → Option (Node σ κ)
  | .expanded n => some n
  | _ => none

/-- Whether a pass starts here. -/
def isStart : Event σ κ → Bool
  | .began _ => true
  | _ => false

end Event

namespace Search

section Record

variable {σ κ : Type} [Keyed σ]

/-- What happened in the pass under way, latest first. -/
def recent (s : Search σ κ) : List (Event σ κ) := s.history.takeWhile fun e => !e.isStart

/-- The nodes that were taken from the frontier in the pass under way, latest first. -/
def tested (s : Search σ κ) : List (Node σ κ) := s.recent.filterMap Event.tested?

/-- The nodes that were expanded in the pass under way, latest first. -/
def expanded (s : Search σ κ) : List (Node σ κ) := s.recent.filterMap Event.expanded?

/-- The nodes that were taken from the frontier in the whole run, latest first. -/
def popped (s : Search σ κ) : List (Node σ κ) := s.history.filterMap Event.tested?

theorem tested_subset_popped (s : Search σ κ) : s.tested ⊆ s.popped :=
  (List.Sublist.filterMap Event.tested? (List.takeWhile_sublist _)).subset

end Record

/-! ### Admission -/

section Admission

variable {σ : Type} [DecidableEq σ] [Hashable σ]

/-- Whether the strategy lets a node be expanded: always, or when its state was not expanded in this
pass, or when it was but only at a higher cost. -/
def isAdmitted (s : Search σ Int) (strategy : Strategy) (n : Node σ Int) : Bool :=
  match strategy, s.closed[n.state]? with
  | .greedy, _ | _, none => true
  | .bfs, some _ => false
  | _, some best => decide (n.cost < best)

theorem admits_eq (s : Search σ Int) (strategy : Strategy) (n : Node σ Int) :
    s.admits strategy n = .ok (s.isAdmitted strategy n) := by
  cases strategy <;>
    cases hbest : s.closed[n.state]? <;>
      simp [admits, isAdmitted, isBest_int, hbest, Std.HashMap.contains_eq_isSome_getElem?]

end Admission

end Search

/-! ### Questions -/

namespace Plan

section Asking

variable {σ κ : Type} [Quantity κ] {plan : Plan σ κ}

/-- What a node is queued by, apart from the record of the question. -/
def evaluate (plan : Plan σ κ) (n : Node σ κ) : Except Defect κ := (plan.askEvaluation n).value

/-- The record of the evaluation of children. -/
def inquiries (plan : Plan σ κ) (nodes : List (Node σ κ)) : List (Event σ κ) :=
  (plan.askEvaluations nodes).record

theorem value_askEstimate (plan : Plan σ κ) (s : σ) :
    (plan.askEstimate s).value = plan.problem.estimate s := by
  unfold askEstimate Problem.estimate
  cases plan.problem.heuristic with
  | none => rfl
  | some h => cases hs : h s <;> simp [hs, Except.map]

theorem evaluate_eq (plan : Plan σ κ) (n : Node σ κ) :
    plan.evaluate n =
      match plan.strategy with
      | .astar => do Quantity.add n.cost (← plan.problem.estimate n.state)
      | .greedy => plan.problem.estimate n.state
      | _ => .ok n.cost := by
  unfold evaluate askEvaluation
  cases plan.strategy <;> simp only [value_askEstimate]

/-- An estimate is the only question of an evaluation. -/
theorem eq_estimated_of_mem_askEvaluation {n : Node σ κ} {event : Event σ κ}
    (hevent : event ∈ (plan.askEvaluation n).record) :
    ∃ estimate, event = .estimated n.state estimate := by
  have hestimate : event ∈ (plan.askEstimate n.state).record := by
    unfold askEvaluation at hevent
    cases hstrategy : plan.strategy <;> simp_all
  unfold askEstimate at hestimate
  split at hestimate
  · simp at hestimate
  · split at hestimate
    · simp at hestimate
    · exact ⟨_, List.mem_singleton.mp hestimate⟩

theorem eq_estimated_of_mem_inquiries {nodes : List (Node σ κ)} {event : Event σ κ}
    (hevent : event ∈ plan.inquiries nodes) : ∃ s estimate, event = .estimated s estimate := by
  induction nodes with
  | nil => simp [inquiries, askEvaluations] at hevent
  | cons n rest ih =>
      have hfirst : event ∈ (plan.askEvaluation n).record →
          ∃ s estimate, event = .estimated s estimate :=
        fun hmem => ⟨n.state, eq_estimated_of_mem_askEvaluation hmem⟩
      simp only [inquiries, askEvaluations] at hevent
      split at hevent
      · exact hfirst hevent
      · exact (List.mem_append.mp hevent).elim hfirst ih

theorem record_askBatch (plan : Plan σ κ) (nodes : List (Node σ κ)) :
    (plan.askBatch nodes).record = plan.inquiries nodes := by
  simp only [askBatch]
  split <;> rfl

theorem inquiries_eq_nil (hblind : plan.strategy.isInformed = false) (nodes : List (Node σ κ)) :
    plan.inquiries nodes = [] := by
  have hnone : ∀ n, plan.askEvaluation n = ⟨.ok n.cost, []⟩ := by
    intro n
    unfold askEvaluation
    cases hstrategy : plan.strategy <;> simp_all [Strategy.isInformed]
  induction nodes with
  | nil => rfl
  | cons n rest ih => simpa [inquiries, askEvaluations, hnone] using ih

end Asking

end Plan

/-! ### Queueing -/

namespace Plan

variable {σ : Type} {plan : Plan σ Int}

/-- The frontier after a ranked batch is queued. -/
def arrange? (plan : Plan σ Int) (f : Frontier (Node σ Int) Int)
    (entries : List (Entry (Node σ Int) Int)) : Option (Frontier (Node σ Int) Int) :=
  match plan.discipline with
  | .batch => some (entries.foldl .pushBack f)
  | .global => entries.foldlM Frontier.insertOrdered? f

/-- The frontier after children are queued the way the strategy does; none where this breaks. -/
def queue? (plan : Plan σ Int) (f : Frontier (Node σ Int) Int) (nodes : List (Node σ Int)) :
    Option (Frontier (Node σ Int) Int) :=
  match plan.strategy with
  | .bfs => some (nodes.foldl (fun f n => f.pushBack ⟨n, none⟩) f)
  | .dfs | .iddfs => some (nodes.foldl (fun f n => f.pushFront ⟨n, none⟩) f)
  | .astar | .greedy =>
      match (plan.askBatch nodes).value with
      | .error _ => none
      | .ok entries => plan.arrange? f entries

theorem filterMap_inquiries {f : Event σ Int → Option (Node σ Int)}
    (hf : ∀ x estimate, f (.estimated x estimate) = none) (nodes : List (Node σ Int)) :
    (plan.inquiries nodes).reverse.filterMap f = [] := by
  rw [List.filterMap_eq_nil_iff]
  intro event hevent
  obtain ⟨x, estimate, rfl⟩ := eq_estimated_of_mem_inquiries (List.mem_reverse.mp hevent)
  exact hf x estimate

theorem takeWhile_inquiries (nodes : List (Node σ Int)) (history : List (Event σ Int)) :
    ((plan.inquiries nodes).reverse ++ history).takeWhile (fun e => !e.isStart) =
      (plan.inquiries nodes).reverse ++ history.takeWhile (fun e => !e.isStart) := by
  apply List.takeWhile_append_of_pos
  intro event hevent
  obtain ⟨x, estimate, rfl⟩ := eq_estimated_of_mem_inquiries (List.mem_reverse.mp hevent)
  rfl

end Plan

namespace Search

variable {σ : Type} [DecidableEq σ] [Hashable σ] {plan : Plan σ Int} {s t : Search σ Int}
  {n : Node σ Int}

theorem insertAll_eq_running_iff {entries : List (Entry (Node σ Int) Int)} :
    s.insertAll entries = .running t ↔
      ∃ f, entries.foldlM Frontier.insertOrdered? s.frontier = some f ∧
        t = { s with frontier := f } := by
  induction entries generalizing s with
  | nil => simp [insertAll, eq_comm]
  | cons e rest ih =>
      rw [insertAll, List.foldlM_cons]
      cases hinsert : s.frontier.insertOrdered? e with
      | none => simp
      | some f => exact ih

theorem insertAll_ne_ended {entries : List (Entry (Node σ Int) Int)} :
    s.insertAll entries ≠ .ended t := by
  induction entries generalizing s with
  | nil => simp [insertAll]
  | cons e rest ih =>
      rw [insertAll]
      split
      · simp
      · exact ih

theorem enqueue_eq_running_iff {nodes : List (Node σ Int)} :
    s.enqueue plan nodes = .running t ↔
      ∃ f, plan.queue? s.frontier nodes = some f ∧
        t = { s with frontier := f, history := (plan.inquiries nodes).reverse ++ s.history } := by
  have hblind := fun h => plan.inquiries_eq_nil h nodes
  unfold enqueue Plan.queue?
  cases hstrategy : plan.strategy with
  | bfs => simp [hblind (by rw [hstrategy]; rfl), eq_comm]
  | dfs => simp [hblind (by rw [hstrategy]; rfl), eq_comm]
  | iddfs => simp [hblind (by rw [hstrategy]; rfl), eq_comm]
  | astar | greedy =>
      simp only [Plan.record_askBatch]
      cases hbatch : (plan.askBatch nodes).value with
      | error fault => simp
      | ok entries =>
          cases hdiscipline : plan.discipline with
          | batch => simp [Plan.arrange?, hdiscipline, record, eq_comm]
          | global => simp [Plan.arrange?, hdiscipline, insertAll_eq_running_iff, record]

theorem enqueue_ne_ended {nodes : List (Node σ Int)} : s.enqueue plan nodes ≠ .ended t := by
  unfold enqueue
  split
  · simp
  · simp
  · simp
  all_goals
    simp only
    split
    · simp
    · simp
    · exact insertAll_ne_ended

/-! ### Expansion -/

/-- The search that has committed itself to expanding a node: the node is counted and closed, and
the rules are asked for. -/
def commit (s : Search σ Int) (n : Node σ Int) : Search σ Int := (s.close n).record [.expanded n]

theorem getElem?_commit (s : Search σ Int) (n : Node σ Int) (x : σ) :
    (s.commit n).closed[x]? = if n.state = x then some n.cost else s.closed[x]? := by
  unfold commit close record
  simp only [Closed.put_eq_insert]
  rw [Std.HashMap.getElem?_insert]
  simp

theorem expand_eq (plan : Plan σ Int) (s : Search σ Int) (n : Node σ Int) :
    s.expand plan n =
      match (s.commit n).pay? with
      | none => .broken (s.commit n) .exhausted
      | some paid =>
          match plan.children n with
          | .error fault => .broken paid fault
          | .ok nodes => paid.enqueue plan nodes := by
  unfold expand
  have hcommit : (s.close n).record (plan.askRules n).record = s.commit n := rfl
  have hchildren : Plan.childrenFrom n 0 (plan.askRules n).value = plan.children n := rfl
  simp only [Keyed.isKey_eq_true, Bool.not_true, Bool.false_eq_true, if_false, hcommit, hchildren]
  cases (s.commit n).pay? with
  | none => rfl
  | some paid => cases plan.children n <;> rfl

theorem expand_eq_running_iff :
    s.expand plan n = .running t ↔
      ∃ paid f, (s.commit n).pay? = some paid ∧
        (∀ rule ∈ plan.problem.rules, rule.IsPricedAt n.state) ∧
        plan.queue? paid.frontier (plan.problem.offspring n) = some f ∧
        t = { paid with
          frontier := f
          history := (plan.inquiries (plan.problem.offspring n)).reverse ++ paid.history } := by
  rw [expand_eq]
  cases hpaid : (s.commit n).pay? with
  | none => simp
  | some paid =>
      cases hchildren : plan.children n with
      | error fault =>
          simp only [reduceCtorEq, Option.some.injEq, false_iff, not_exists, not_and]
          rintro _ f rfl hpriced
          rw [Plan.children_eq_ok_iff.mpr ⟨hpriced, rfl⟩] at hchildren
          simp at hchildren
      | ok nodes =>
          obtain ⟨hpriced, rfl⟩ := Plan.children_eq_ok_iff.mp hchildren
          simp only [enqueue_eq_running_iff, Option.some.injEq]
          constructor
          · rintro ⟨f, hqueue, rfl⟩
            exact ⟨paid, f, rfl, hpriced, hqueue, rfl⟩
          · rintro ⟨_, f, rfl, -, hqueue, rfl⟩
            exact ⟨f, hqueue, rfl⟩

theorem expand_ne_ended : s.expand plan n ≠ .ended t := by
  rw [expand_eq]
  split
  · simp
  · split
    · simp
    · exact enqueue_ne_ended

theorem explode_eq (plan : Plan σ Int) (s : Search σ Int) (n : Node σ Int) :
    s.explode plan n =
      if s.isAdmitted plan.strategy n = true then s.expand plan n else .running s := by
  unfold explode
  rw [admits_eq]
  cases s.isAdmitted plan.strategy n <;> rfl

/-! ### Turns -/

/-- The search that took a node off its frontier and tested it for the goal. -/
def take (plan : Plan σ Int) (s : Search σ Int) (n : Node σ Int) (isBeyond : Bool)
    (rest : Frontier (Node σ Int) Int) : Search σ Int :=
  (s.pop isBeyond rest).record (plan.askGoal n).record

/-- What is left by a turn that takes a node from the front and goes on, whatever becomes of the
node: it was no goal, and what belongs to the pass as a whole stays as it was. -/
structure Takes (plan : Plan σ Int) (s : Search σ Int) (n : Node σ Int)
    (rest : List (Entry (Node σ Int) Int)) (t : Search σ Int) : Prop where
  front : ∃ key, s.frontier.toList = ⟨n, key⟩ :: rest
  notGoal : plan.problem.isGoal n.state = false
  tested : t.tested = n :: s.tested
  popped : t.popped = n :: s.popped
  depthBound : t.depthBound = s.depthBound
  boundHit : t.boundHit = (s.boundHit || decide (s.depthBound < n.depth))
  passes : t.passes = s.passes
  solution : t.solution = s.solution
  isFinished : t.isFinished = s.isFinished
  isFailed : t.isFailed = s.isFailed
  allowance : s.allowance = none → t.allowance = none

/-- The turns that go on: the node taken is skipped, since it lies beyond the bound or is not
admitted, or it is expanded. -/
inductive Turn (plan : Plan σ Int) (s t : Search σ Int) : Prop where
  | skipped (n : Node σ Int) (rest : Frontier (Node σ Int) Int)
      (takes : Takes plan s n rest.toList t)
      (reason : s.depthBound < n.depth ∨
        n.depth ≤ s.depthBound ∧ s.isAdmitted plan.strategy n = false)
      (frontier : t.frontier = rest) (closed : t.closed = s.closed)
      (expanded : t.expanded = s.expanded) (expansions : t.expansions = s.expansions)
  | expanded (n : Node σ Int) (rest : Frontier (Node σ Int) Int)
      (takes : Takes plan s n rest.toList t) (within : n.depth ≤ s.depthBound)
      (admitted : s.isAdmitted plan.strategy n = true)
      (priced : ∀ rule ∈ plan.problem.rules, rule.IsPricedAt n.state)
      (frontier : plan.queue? rest (plan.problem.offspring n) = some t.frontier)
      (closed : ∀ x, t.closed[x]? = if n.state = x then some n.cost else s.closed[x]?)
      (expanded : t.expanded = n :: s.expanded)
      (expansions : t.expansions = s.expansions + 1)

theorem Turn.exists_takes (hturn : Turn plan s t) : ∃ n rest, Takes plan s n rest t := by
  cases hturn with
  | skipped n rest takes => exact ⟨n, rest.toList, takes⟩
  | expanded n rest takes => exact ⟨n, rest.toList, takes⟩

/-- The turns that end a pass: the frontier is empty, or its front is a goal. -/
inductive Ends (plan : Plan σ Int) (s t : Search σ Int) : Prop where
  | drained (empty : s.frontier.toList = []) (result : t = s.drain)
  | goal (n : Node σ Int) (key : Option Int) (rest : Frontier (Node σ Int) Int)
      (front : s.frontier.toList = ⟨n, key⟩ :: rest.toList)
      (isGoal : plan.problem.isGoal n.state = true)
      (result : t = (s.take plan n (decide (s.depthBound < n.depth)) rest).succeed n)

section Turn

variable {e : Entry (Node σ Int) Int} {rest : Frontier (Node σ Int) Int}

theorem turn_eq (hfront : s.frontier.popFront? = some (e, rest)) :
    s.turn plan =
      let taken := s.take plan e.item (decide (s.depthBound < e.item.depth)) rest
      if plan.problem.isGoal e.item.state = true then .ended (taken.succeed e.item)
      else if e.item.depth ≤ s.depthBound then taken.explode plan e.item
      else .running taken := by
  unfold turn
  simp only [hfront, isBeyond?_int, isWithin_int, decide_eq_true_eq]
  rfl

theorem takes_take (plan : Plan σ Int) (hfront : s.frontier.popFront? = some (e, rest))
    (hgoal : plan.problem.isGoal e.item.state = false) :
    Takes plan s e.item rest.toList
      (s.take plan e.item (decide (s.depthBound < e.item.depth)) rest) where
  front := ⟨e.key, Frontier.toList_of_popFront? hfront⟩
  notGoal := hgoal
  tested := rfl
  popped := rfl
  depthBound := rfl
  boundHit := rfl
  passes := rfl
  solution := rfl
  isFinished := rfl
  isFailed := rfl
  allowance := id

theorem expanded_take (s : Search σ Int) (n : Node σ Int) (isBeyond : Bool) :
    (s.take plan n isBeyond rest).expanded = s.expanded := rfl

theorem pay?_of_allowance (hallowance : s.allowance = none) : s.pay? = some s := by
  rw [pay?, hallowance]

theorem eq_of_pay? {paid : Search σ Int} (hpaid : s.pay? = some paid) :
    ∃ allowance, paid = { s with allowance } ∧ (s.allowance = none → allowance = none) := by
  unfold pay? at hpaid
  split at hpaid
  · obtain rfl := Option.some.inj hpaid
    exact ⟨s.allowance, rfl, id⟩
  · simp at hpaid
  · next left hleft =>
    obtain rfl := Option.some.inj hpaid
    exact ⟨some left, rfl, fun hnone => by simp [hnone] at hleft⟩

section Expansion

variable {f : Frontier (Node σ Int) Int} {allowance : Option Nat} {nodes : List (Node σ Int)}
  {isBeyond : Bool}

/-- The search in which a node was closed and some nodes were evaluated and queued. -/
abbrev queued (plan : Plan σ Int) (s : Search σ Int) (n : Node σ Int) (allowance : Option Nat)
    (f : Frontier (Node σ Int) Int) (nodes : List (Node σ Int)) : Search σ Int :=
  { s.commit n with
    allowance
    frontier := f
    history := (plan.inquiries nodes).reverse ++ (s.commit n).history }

theorem takes_queued (hfront : s.frontier.popFront? = some (e, rest))
    (hgoal : plan.problem.isGoal e.item.state = false)
    (hnone : s.allowance = none → allowance = none) :
    Takes plan s e.item rest.toList
      (queued plan (s.take plan e.item (decide (s.depthBound < e.item.depth)) rest) e.item allowance
        f nodes) := by
  have htakes := takes_take plan hfront hgoal
  refine ⟨htakes.front, hgoal, ?_, ?_, rfl, rfl, rfl, rfl, rfl, rfl, hnone⟩
  · simp only [Search.tested, recent, Plan.takeWhile_inquiries, List.filterMap_append,
      Plan.filterMap_inquiries (f := Event.tested?) fun _ _ => rfl, List.nil_append]
    rfl
  · simp only [Search.popped, List.filterMap_append,
      Plan.filterMap_inquiries (f := Event.tested?) fun _ _ => rfl, List.nil_append]
    rfl

theorem expanded_queued :
    (queued plan (s.take plan n isBeyond rest) n allowance f nodes).expanded =
      n :: s.expanded := by
  simp only [Search.expanded, recent, Plan.takeWhile_inquiries, List.filterMap_append,
    Plan.filterMap_inquiries (f := Event.expanded?) fun _ _ => rfl, List.nil_append]
  rfl

end Expansion

theorem turn_of_expand (hfront : s.frontier.popFront? = some (e, rest))
    (hgoal : plan.problem.isGoal e.item.state = false) (hwithin : e.item.depth ≤ s.depthBound)
    (hadmitted : s.isAdmitted plan.strategy e.item = true)
    (hexpand : (s.take plan e.item (decide (s.depthBound < e.item.depth)) rest).expand plan e.item =
      .running t) : Turn plan s t := by
  obtain ⟨paid, f, hpaid, hpriced, hqueue, rfl⟩ := expand_eq_running_iff.mp hexpand
  obtain ⟨allowance, rfl, hnone⟩ := eq_of_pay? hpaid
  exact .expanded e.item rest (takes_queued hfront hgoal hnone) hwithin hadmitted hpriced hqueue
    (getElem?_commit _ e.item) expanded_queued rfl

end Turn

/-- A turn that goes on takes a node that is no goal from the front, and leaves it or expands it. -/
theorem exists_of_turn_running (hturn : s.turn plan = .running t) :
    ∃ e rest, s.frontier.popFront? = some (e, rest) ∧ plan.problem.isGoal e.item.state = false ∧
      ((t = s.take plan e.item (decide (s.depthBound < e.item.depth)) rest ∧
          (s.depthBound < e.item.depth ∨
            e.item.depth ≤ s.depthBound ∧ s.isAdmitted plan.strategy e.item = false)) ∨
        (e.item.depth ≤ s.depthBound ∧ s.isAdmitted plan.strategy e.item = true ∧
          (s.take plan e.item (decide (s.depthBound < e.item.depth)) rest).expand plan e.item =
            .running t)) := by
  cases hfront : s.frontier.popFront? with
  | none => simp [turn, hfront] at hturn
  | some pair =>
      obtain ⟨e, rest⟩ := pair
      rw [turn_eq hfront] at hturn
      simp only at hturn
      split at hturn
      · simp at hturn
      · next hgoal =>
        refine ⟨e, rest, rfl, Bool.eq_false_iff.mpr hgoal, ?_⟩
        split at hturn
        · next hwithin =>
          rw [explode_eq] at hturn
          split at hturn
          · next hadmitted => exact Or.inr ⟨hwithin, hadmitted, hturn⟩
          · next hrefused =>
            exact Or.inl ⟨(Progress.running.inj hturn).symm,
              Or.inr ⟨hwithin, Bool.eq_false_iff.mpr hrefused⟩⟩
        · next hbeyond =>
          exact Or.inl ⟨(Progress.running.inj hturn).symm, Or.inl (not_le.mp hbeyond)⟩

theorem turn_of_running (hturn : s.turn plan = .running t) : Turn plan s t := by
  obtain ⟨e, rest, hfront, hgoal, ⟨rfl, hreason⟩ | ⟨hwithin, hadmitted, hexpand⟩⟩ :=
    exists_of_turn_running hturn
  · exact .skipped e.item rest (takes_take plan hfront hgoal) hreason rfl rfl
      (expanded_take s e.item _) rfl
  · exact turn_of_expand hfront hgoal hwithin hadmitted hexpand

theorem ends_of_ended (hturn : s.turn plan = .ended t) : Ends plan s t := by
  cases hfront : s.frontier.popFront? with
  | none =>
      simp only [turn, hfront, Progress.ended.injEq] at hturn
      exact .drained (Frontier.popFront?_eq_none.mp hfront) hturn.symm
  | some pair =>
      obtain ⟨e, rest⟩ := pair
      rw [turn_eq hfront] at hturn
      simp only at hturn
      split at hturn
      · next hgoal =>
        exact .goal e.item e.key rest (Frontier.toList_of_popFront? hfront) hgoal
          (Progress.ended.inj hturn).symm
      · split at hturn
        · rw [explode_eq] at hturn
          split at hturn
          · exact absurd hturn expand_ne_ended
          · simp at hturn
        · simp at hturn

/-- A turn breaks a pass off only where expansions are counted, a rule at the front is not priced,
or the children cannot be queued. -/
theorem turn_unbroken (hallowance : s.allowance = none)
    (hexpand : ∀ e rest, s.frontier.popFront? = some (e, rest) →
      (∀ rule ∈ plan.problem.rules, rule.IsPricedAt e.item.state) ∧
        ∃ f, plan.queue? rest (plan.problem.offspring e.item) = some f) :
    (∃ t, s.turn plan = .running t) ∨ ∃ t, s.turn plan = .ended t := by
  cases hfront : s.frontier.popFront? with
  | none => exact Or.inr ⟨s.drain, by simp [turn, hfront]⟩
  | some pair =>
      obtain ⟨e, rest⟩ := pair
      obtain ⟨hpriced, f, hqueue⟩ := hexpand e rest hfront
      rw [turn_eq hfront]
      simp only
      split
      · exact Or.inr ⟨_, rfl⟩
      · split
        · rw [explode_eq]
          split
          · exact Or.inl ⟨_, expand_eq_running_iff.mpr
              ⟨_, f, pay?_of_allowance hallowance, hpriced, hqueue, rfl⟩⟩
          · exact Or.inl ⟨_, rfl⟩
        · exact Or.inl ⟨_, rfl⟩

end Search

end StateSpace
