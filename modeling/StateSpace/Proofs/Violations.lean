import StateSpace.Proofs.Messages
import StateSpace.Proofs.Termination

/-!
# Rules that ask no price

A rule may ask anything. A search is broken off where it expands a node at which some rule asks what
is no price, and nowhere else: where all rules are priced the children have their estimates, and a
frontier under a global ordering holds no node without a key once the root is taken. What is left is
the search just after the node was taken, with the node counted and closed; a run from there, as
from any search that was used before, is a run from a fresh one.
-/
namespace StateSpace

/-! ### The first rule that is not priced -/

namespace Problem

variable {σ : Type} {rules rest : List (Rule σ)} {r rule : Rule σ} {s : σ} {asked : Value}

/-- Within reach no rule breaks, whatever it asks. -/
def IsTotal {κ : Type} (p : Problem σ κ) : Prop :=
  ∀ s, p.Reaches s → ∀ rule ∈ p.rules, ∀ d, rule.apply s ≠ .broken d

/-- The rule applies here and asks what is no price; all rules before it are priced. -/
def FirstUnpriced (rules : List (Rule σ)) (s : σ) (rule : Rule σ) (asked : Value) : Prop :=
  ∃ before later t, rules = before ++ rule :: later ∧ (∀ r ∈ before, r.IsPricedAt s) ∧
    rule.apply s = .leads t asked ∧ asked.isPrice = false

theorem not_isPricedAt {t : σ} (happly : r.apply s = .leads t asked)
    (hasked : asked.isPrice = false) : ¬r.IsPricedAt s := by
  simp [Rule.IsPricedAt, happly, hasked]

theorem not_firstUnpriced_nil : ¬FirstUnpriced [] s rule asked := by
  rintro ⟨before, later, t, hsplit, -⟩
  simp at hsplit

theorem firstUnpriced_cons_of_priced (hpriced : r.IsPricedAt s) :
    FirstUnpriced (r :: rest) s rule asked ↔ FirstUnpriced rest s rule asked := by
  constructor
  · rintro ⟨before, later, t, hsplit, hbefore, happly, hasked⟩
    cases before with
    | nil =>
        obtain ⟨rfl, rfl⟩ := List.cons.inj hsplit
        exact absurd hpriced (not_isPricedAt happly hasked)
    | cons first before =>
        obtain ⟨rfl, rfl⟩ := List.cons.inj hsplit
        exact ⟨before, later, t, rfl, (List.forall_mem_cons.mp hbefore).2, happly, hasked⟩
  · rintro ⟨before, later, t, rfl, hbefore, happly, hasked⟩
    exact ⟨r :: before, later, t, rfl, List.forall_mem_cons.mpr ⟨hpriced, hbefore⟩, happly, hasked⟩

theorem firstUnpriced_cons_of_leads {t : σ} {bad : Value} (happly : r.apply s = .leads t bad)
    (hbad : bad.isPrice = false) :
    FirstUnpriced (r :: rest) s rule asked ↔ rule = r ∧ asked = bad := by
  constructor
  · rintro ⟨before, later, t', hsplit, hbefore, happly', -⟩
    cases before with
    | nil =>
        obtain ⟨rfl, rfl⟩ := List.cons.inj hsplit
        rw [happly] at happly'
        cases happly'
        exact ⟨rfl, rfl⟩
    | cons first before =>
        obtain ⟨rfl, rfl⟩ := List.cons.inj hsplit
        exact absurd (hbefore r List.mem_cons_self) (not_isPricedAt happly hbad)
  · rintro ⟨rfl, rfl⟩
    exact ⟨[], rest, t, rfl, by simp, happly, hbad⟩

end Problem

namespace Plan

variable {σ : Type} {n : Node σ Int} {rules : List (Rule σ)} {position : Nat} {fault : Fault σ}

open Problem

/-- Where no rule breaks, no children are made just where some rule is not priced. -/
theorem childrenFrom_eq_error_iff (htotal : ∀ rule ∈ rules, ∀ d, rule.apply n.state ≠ .broken d) :
    childrenFrom n position rules = .error fault ↔
      ∃ rule asked, FirstUnpriced rules n.state rule asked ∧
        fault = .price rule.name asked n.state := by
  induction rules generalizing position with
  | nil => simp [childrenFrom, not_firstUnpriced_nil]
  | cons r rest ih =>
      obtain ⟨hr, hrest⟩ := List.forall_mem_cons.mp htotal
      rw [childrenFrom]
      cases happly : r.apply n.state with
      | blocked =>
          simp only [firstUnpriced_cons_of_priced (Or.inl happly)]
          exact ih hrest
      | broken d => exact absurd happly (hr d)
      | leads t asked =>
          cases hasked : asked.toPrice? with
          | none =>
              have hbad : asked.isPrice = false := by simp [Value.isPrice, hasked]
              simp [hasked, firstUnpriced_cons_of_leads happly hbad, eq_comm]
          | some price =>
              have hpriced : r.IsPricedAt n.state :=
                Or.inr ⟨t, asked, happly, by simp [Value.isPrice, hasked]⟩
              simp only [firstUnpriced_cons_of_priced hpriced, Quantity.add_int]
              have hlater : childrenFrom n (position + 1) rest = .error fault ↔ _ := ih hrest
              rw [← hlater]
              cases childrenFrom n (position + 1) rest <;> simp [hasked]

end Plan

namespace Search

variable {σ : Type} [DecidableEq σ] [Hashable σ] {plan : Plan σ Int} {start s t : Search σ Int}
  {n : Node σ Int} {fault : Fault σ}

open Problem

/-! ### Where a turn is broken off -/

/-- The next turn takes this node from the front and expands it: it is no goal, it lies within the
bound, and it is admitted. -/
structure Expanding (plan : Plan σ Int) (s : Search σ Int) (n : Node σ Int)
    (rest : Frontier (Node σ Int) Int) : Prop where
  front : ∃ key, s.frontier.popFront? = some (⟨n, key⟩, rest)
  notGoal : plan.problem.isGoal n.state = false
  within : n.depth ≤ s.depthBound
  admitted : s.isAdmitted plan.strategy n = true

theorem expand_eq_broken_iff (hallowance : s.allowance = none)
    (htotal : ∀ rule ∈ plan.problem.rules, ∀ d, rule.apply n.state ≠ .broken d)
    (hqueue : ∃ f, plan.queue? s.frontier (plan.problem.offspring n) = some f) :
    s.expand plan n = .broken t fault ↔
      ∃ rule asked, FirstUnpriced plan.problem.rules n.state rule asked ∧
        fault = .price rule.name asked n.state ∧ t = s.commit n := by
  have hpay : (s.commit n).pay? = some (s.commit n) := pay?_of_allowance hallowance
  have herror : plan.children n = .error fault ↔ _ := Plan.childrenFrom_eq_error_iff htotal
  rw [expand_eq, hpay]
  simp only
  cases hchildren : plan.children n with
  | error other =>
      rw [hchildren, Except.error.injEq] at herror
      constructor
      · intro hbroken
        obtain ⟨rfl, rfl⟩ := Progress.broken.inj hbroken
        obtain ⟨rule, asked, hfirst, hfault⟩ := herror.mp rfl
        exact ⟨rule, asked, hfirst, hfault, rfl⟩
      · rintro ⟨rule, asked, hfirst, hfault, rfl⟩
        rw [herror.mpr ⟨rule, asked, hfirst, hfault⟩]
  | ok nodes =>
      obtain ⟨-, rfl⟩ := Plan.children_eq_ok_iff.mp hchildren
      obtain ⟨f, hf⟩ := hqueue
      have hrunning := enqueue_eq_running_iff (s := s.commit n).mpr ⟨f, hf, rfl⟩
      simp only [hrunning, reduceCtorEq, false_iff]
      rintro ⟨rule, asked, hfirst, hfault, -⟩
      rw [herror.mpr ⟨rule, asked, hfirst, hfault⟩] at hchildren
      cases hchildren

/-- Where no rule breaks at the front and its children can be queued, a turn is broken off just
where it expands a node at which some rule is not priced. The first such rule is at fault, and the
node is counted and closed. -/
theorem turn_eq_broken_iff_of_front (hnone : s.allowance = none)
    (hready : ∀ e rest, s.frontier.popFront? = some (e, rest) →
      (∀ rule ∈ plan.problem.rules, ∀ d, rule.apply e.item.state ≠ .broken d) ∧
        ∃ f, plan.queue? rest (plan.problem.offspring e.item) = some f) :
    s.turn plan = .broken t fault ↔
      ∃ n rest rule asked, Expanding plan s n rest ∧
        FirstUnpriced plan.problem.rules n.state rule asked ∧
        fault = .price rule.name asked n.state ∧ t = (s.take plan n false rest).commit n := by
  cases hfront : s.frontier.popFront? with
  | none =>
      have hno : ∀ n rest, ¬Expanding plan s n rest := by
        intro n rest expanding
        obtain ⟨key, hpop⟩ := expanding.front
        simp [hfront] at hpop
      simp [Search.turn, hfront, hno]
  | some pair =>
      obtain ⟨e, rest⟩ := pair
      obtain ⟨htotal, hqueue⟩ := hready e rest hfront
      have hexpand : (s.take plan e.item false rest).expand plan e.item = .broken t fault ↔ _ :=
        expand_eq_broken_iff hnone htotal hqueue
      have honly : ∀ {n other}, Expanding plan s n other → n = e.item ∧ rest = other := by
        intro n other expanding
        obtain ⟨key, hpop⟩ := expanding.front
        rw [hfront] at hpop
        obtain ⟨rfl, rfl⟩ := Prod.mk.inj (Option.some.inj hpop)
        exact ⟨rfl, rfl⟩
      rw [turn_eq hfront]
      constructor
      · intro hbroken
        simp only at hbroken
        split at hbroken
        · cases hbroken
        · next hgoal =>
          split at hbroken
          · next hwithin =>
            rw [decide_eq_false (not_lt.mpr hwithin), explode_eq] at hbroken
            split at hbroken
            · next hadmitted =>
              obtain ⟨rule, asked, hfirst, hfault, ht⟩ := hexpand.mp hbroken
              exact ⟨e.item, rest, rule, asked,
                ⟨⟨e.key, hfront⟩, Bool.eq_false_iff.mpr hgoal, hwithin, hadmitted⟩, hfirst, hfault,
                ht⟩
            · cases hbroken
          · cases hbroken
      · rintro ⟨n, other, rule, asked, expanding, hfirst, hfault, ht⟩
        obtain ⟨rfl, rfl⟩ := honly expanding
        have hadmitted : (s.take plan e.item false rest).isAdmitted plan.strategy e.item = true :=
          expanding.admitted
        simp only [expanding.notGoal, Bool.false_eq_true, if_false, if_pos expanding.within,
          decide_eq_false (not_lt.mpr expanding.within)]
        rw [explode_eq, if_pos hadmitted]
        exact hexpand.mpr ⟨rule, asked, hfirst, hfault, ht⟩

theorem Run.turn_eq_broken_iff (hallowance : start.allowance = none)
    (htotal : plan.problem.IsTotal) (hestimated : plan.problem.IsEstimated)
    (hs : Run plan start s) :
    s.turn plan = .broken t fault ↔
      ∃ n rest rule asked, Expanding plan s n rest ∧
        FirstUnpriced plan.problem.rules n.state rule asked ∧
        fault = .price rule.name asked n.state ∧ t = (s.take plan n false rest).commit n := by
  obtain ⟨before, -, hpass⟩ := hs.exists_pass
  refine turn_eq_broken_iff_of_front (hs.allowance hallowance) fun e rest hfront => ?_
  have hgrows : plan.problem.Grows e.item :=
    hpass.ledger.waiting e.item
      (Frontier.mem_items_of_front (Frontier.toList_of_popFront? hfront))
  exact ⟨htotal e.item.state hgrows.reaches, hpass.exists_queue hestimated hfront hgrows⟩

/-- What is left where the expansion of a node is broken off: the node is counted and closed, and
the frontier is that from which it was taken. -/
structure Aborted (s : Search σ Int) (n : Node σ Int) (rest : Frontier (Node σ Int) Int)
    (t : Search σ Int) : Prop where
  frontier : t.frontier = rest
  expansions : t.expansions = s.expansions + 1
  closed : ∀ x, t.closed[x]? = if n.state = x then some n.cost else s.closed[x]?
  solution : t.solution = none
  isFinished : t.isFinished = false
  isFailed : t.isFailed = false
  passes : t.passes = s.passes
  depthBound : t.depthBound = s.depthBound

theorem Run.aborted (hs : Run plan start s) (n : Node σ Int) (rest : Frontier (Node σ Int) Int) :
    Aborted s n rest ((s.take plan n false rest).commit n) := by
  obtain ⟨hsolution, hfinished, hfailed⟩ := hs.no_verdict
  exact ⟨rfl, rfl, getElem?_commit _ n, hsolution, hfinished, hfailed, rfl, rfl⟩

/-! ### Searches that were used before -/

/-- The searches that any sequence of runs, passes, single expansions and changes of the frontier
leaves behind, whether they come to an end or are broken off. -/
inductive Session (plan : Plan σ Int) : Search σ Int → Prop where
  | fresh : Session plan fresh
  | run {s : Search σ Int} (hs : Session plan s) (turns : Nat) :
      Session plan (s.run plan turns).search
  | explore {s : Search σ Int} (hs : Session plan s) (bound : Int) (turns : Nat) :
      Session plan (s.explore plan bound turns).search
  | explode {s : Search σ Int} (hs : Session plan s) (n : Node σ Int) :
      Session plan (s.explode plan n).search
  | requeue {s : Search σ Int} (hs : Session plan s) (f : Frontier (Node σ Int) Int) :
      Session plan { s with frontier := f }

section Allowance

variable (hallowance : s.allowance = none)

include hallowance

theorem allowance_turn : (s.turn plan).search.allowance = none := by
  cases hturn : s.turn plan with
  | running t =>
      obtain ⟨n, rest, takes⟩ := (turn_of_running hturn).exists_takes
      exact takes.allowance hallowance
  | ended t =>
      cases ends_of_ended hturn with
      | drained hempty hresult =>
          subst hresult
          exact hallowance
      | goal n key rest hfront hgoal hresult =>
          subst hresult
          exact hallowance
  | broken t fault =>
      obtain ⟨n, rest, takes⟩ := (visit_of_broken hturn).exists_takes
      exact takes.allowance hallowance

theorem allowance_advance : (s.advance plan).search.allowance = none := by
  have hturn : (s.turn plan).search.allowance = none := allowance_turn hallowance
  unfold advance
  split
  · next t hended =>
    rw [hended] at hturn
    split
    · exact hturn
    · exact hturn
  · exact hturn

theorem allowance_after {step : Search σ Int → Progress σ Int}
    (hstep : ∀ s, s.allowance = none → (step s).search.allowance = none) (turns : Nat) :
    (Progress.after step turns (.running s)).search.allowance = none := by
  induction turns generalizing s with
  | zero => exact hallowance
  | succ turns ih =>
      rw [Progress.after]
      have hnext := hstep s hallowance
      cases hp : step s with
      | running t =>
          rw [hp] at hnext
          exact ih hnext
      | ended t =>
          rw [hp] at hnext
          cases turns <;> exact hnext
      | broken t fault =>
          rw [hp] at hnext
          cases turns <;> exact hnext

theorem allowance_explode : (s.explode plan n).search.allowance = none := by
  rw [explode_eq]
  split
  · cases hexpand : s.expand plan n with
    | running t =>
        obtain ⟨paid, f, hpaid, -, -, rfl⟩ := expand_eq_running_iff.mp hexpand
        rw [pay?_of_allowance (s := s.commit n) hallowance] at hpaid
        obtain rfl := Option.some.inj hpaid
        exact hallowance
    | ended t => exact absurd hexpand expand_ne_ended
    | broken t fault =>
        obtain ⟨allowance, f, nodes, rfl, hnone, -⟩ := exists_queued_of_expand hexpand
        exact hnone hallowance
  · exact hallowance

end Allowance

theorem Session.allowance (hs : Session plan s) : s.allowance = none := by
  induction hs with
  | fresh => rfl
  | @run s hs turns ih =>
      show (Progress.after (advance plan) turns (.running (s.beginRun plan))).search.allowance =
        none
      exact allowance_after (s := s.beginRun plan) ih (fun _ => allowance_advance) turns
  | @explore s hs bound turns ih =>
      show (Progress.after (turn plan) turns (.running (s.beginPass plan bound))).search.allowance =
        none
      exact allowance_after (s := s.beginPass plan bound) ih (fun _ => allowance_turn) turns
  | explode hs n ih => exact allowance_explode ih
  | requeue hs f ih => exact ih

/-- Whatever a search was used for, a run starts from a clean slate. -/
theorem Session.run_eq (hs : Session plan s) (turns : Nat) :
    s.run plan turns = Search.run plan Search.fresh turns := by
  have hreset : s.reset = (Search.fresh : Search σ Int).reset := by
    rw [reset, reset, hs.allowance]
    rfl
  rw [Search.run, Search.run, beginRun, beginRun, hreset]

/-- **Rules that ask no price.** A run is broken off just where it expands a node at which some rule
asks no price. The first such rule, what it asked and the state are at fault, and named where all of
them can be written; else the first that cannot is to blame. The node is counted and closed, and the
frontier is that from which it was taken. After that, and after any other use of a search, a run is
one from a fresh search. -/
theorem aborted_of_unpriced [Display σ] (hsession : Session plan start)
    (htotal : plan.problem.IsTotal) (hestimated : plan.problem.IsEstimated) :
    (∀ turns t fault, start.run plan turns = .broken t fault →
      ∃ s n rest rule asked, Run plan start s ∧ Expanding plan s n rest ∧
        FirstUnpriced plan.problem.rules n.state rule asked ∧
        fault = .price rule.name asked n.state ∧ Aborted s n rest t ∧
        (∀ more, t.run plan more = fresh.run plan more) ∧
        ∀ room,
          (∀ name price place, rule.name.write room = .ok name → asked.write room = .ok price →
            Display.quoted room n.state = .ok place →
            fault.message room = .ok (some ("Rule " ++ name ++ " returned cost " ++ price ++
              " for state " ++ place ++ "; rule costs must be non-negative integers."))) ∧
          ∀ u, firstObstacle? [rule.name.write room, asked.write room,
              Display.quoted room n.state] = some u → fault.message room = .error u) ∧
    (∀ s n rest rule asked, Run plan start s → Expanding plan s n rest →
      FirstUnpriced plan.problem.rules n.state rule asked →
      ∃ turns t, start.run plan turns = .broken t (.price rule.name asked n.state)) ∧
    ∀ turns, start.run plan turns = fresh.run plan turns := by
  refine ⟨fun turns t fault hbroken => ?_, fun s n rest rule asked hs expanding hfirst => ?_,
    hsession.run_eq⟩
  · have hused := hsession.run turns
    rw [hbroken] at hused
    obtain ⟨s, hs, hturn⟩ := exists_run_of_broken hbroken
    obtain ⟨n, rest, rule, asked, expanding, hfirst, rfl, rfl⟩ :=
      (hs.turn_eq_broken_iff hsession.allowance htotal hestimated).mp hturn
    refine ⟨s, n, rest, rule, asked, hs, expanding, hfirst, rfl, hs.aborted n rest,
      hused.run_eq, fun room => ⟨fun name price place => Fault.message_of_written,
        fun u => Fault.message_of_firstObstacle?⟩⟩
  · have hturn := (hs.turn_eq_broken_iff hsession.allowance htotal hestimated).mpr
      ⟨n, rest, rule, asked, expanding, hfirst, rfl, rfl⟩
    obtain ⟨turns, hrun⟩ := hs.exists_running
    exact ⟨turns + 1, _, (after_succ hrun).trans (advance_of_broken hturn)⟩

/-- Multiplies by ten; asks less than nothing for staying at an even multiple of the start. -/
def debtor (x : Int) : Problem Int Int where
  initial := x
  isGoal n := decide (n = 0)
  rules :=
    [Rule.fixed "grow" (.int 1) fun n => some (n * 10),
      Rule.fixed "owe" (.int (-1)) fun n => if 2 * x ∣ n then some n else none]
  heuristic := none

theorem isTotal_debtor (x : Int) : (debtor x).IsTotal := by
  intro n _ rule hrule d
  simp only [debtor, List.mem_cons, List.not_mem_nil, or_false] at hrule
  rcases hrule with rfl | rfl
  · simp [Rule.fixed]
  · by_cases hmultiple : 2 * x ∣ n <;> simp [Rule.fixed, hmultiple]

theorem broken_debtor {x : Int} (hx : 0 < x) :
    ∃ t, (fresh : Search Int Int).run ⟨debtor x, .bfs, .batch⟩ 2 =
      .broken t (.price (.text "owe") (.int (-1)) (x * 10)) := by
  have hstart : ¬2 * x ∣ x := by
    intro hdvd
    have hle := Int.le_of_dvd hx hdvd
    omega
  have hten : 2 * x ∣ x * 10 := ⟨5, by ring⟩
  have hnew : (x == x * 10) = false := by
    rw [beq_eq_false_iff_ne]
    omega
  simp [run, beginRun, reset, fresh, beginPass, Plan.askInitial, Plan.boundAfter,
    Strategy.isIterative, unbounded, Progress.after, advance, turn, isBeyond?_int, isWithin_int,
    pop, record, Plan.askGoal, explode, admits, expand, close, count, pay?, Closed.put_eq_insert,
    enqueue, Plan.askRules, Plan.childrenFrom, Frontier.popFront?, Frontier.pushBack,
    Frontier.empty, Frontier.ofList, Node.depth, Node.state, Node.cost, Value.toPrice?, Rule.fixed,
    debtor, hstart, hten, hnew, hx.ne']

/-- From 1 the second turn expands 10, where the second rule asks less than nothing. -/
theorem aborted_debtor :
    (debtor 1).IsTotal ∧ (debtor 1).IsEstimated ∧
      ∃ t fault, (fresh : Search Int Int).run ⟨debtor 1, .bfs, .batch⟩ 2 = .broken t fault ∧
        (∀ room, 0 < room → fault.message room = .ok (some ("Rule 'owe' returned cost -1 for " ++
          "state 10; rule costs must be non-negative integers."))) ∧
        t.isFinished = false ∧ t.isFailed = false ∧ t.solution = none ∧
        ∀ turns, t.run ⟨debtor 1, .bfs, .batch⟩ turns =
          (fresh : Search Int Int).run ⟨debtor 1, .bfs, .batch⟩ turns := by
  have htotal := isTotal_debtor 1
  have hestimated : (debtor 1).IsEstimated := fun _ _ => ⟨0, rfl⟩
  obtain ⟨t, hbroken⟩ := broken_debtor (x := 1) (by decide)
  obtain ⟨s, n, rest, rule, asked, -, -, -, hfault, aborted, hagain, hmessage⟩ :=
    (@aborted_of_unpriced Int _ _ ⟨debtor 1, .bfs, .batch⟩ fresh _ .fresh htotal hestimated).1 2 t _
      hbroken
  obtain ⟨hname, hasked, hstate⟩ := Fault.price.inj hfault
  refine ⟨htotal, hestimated, t, _, hbroken, fun room hroom => ?_, aborted.isFinished,
    aborted.isFailed, aborted.solution, hagain⟩
  rw [← hname, ← hasked, ← hstate] at hmessage
  rw [(hmessage room).1 _ _ _ (Value.write_text hroom "owe")
    (Value.write_int hroom (by decide +kernel)) (Value.write_int hroom (by decide +kernel))]
  exact congrArg (fun text => Except.ok (some text)) (by decide +kernel)

theorem broken_debtor_tenPow {digits : Nat} (hdigits : Decimal.maxDigits = digits + 1) :
    ∃ t, (fresh : Search Int Int).run ⟨debtor (tenPow digits), .bfs, .batch⟩ 2 =
      .broken t (.price (.text "owe") (.int (-1)) (tenPow Decimal.maxDigits)) := by
  have hten : (tenPow digits : Int) * 10 = tenPow Decimal.maxDigits := by
    rw [hdigits, tenPow_succ, Nat.cast_mul, Nat.cast_ofNat]
  rw [← hten]
  exact broken_debtor (Int.natCast_pos.mpr (tenPow_pos digits))

/-- Multiplies by ten and asks for something that is no price. -/
def owing (asked : Value) (x : Int) : Problem Int Int where
  initial := x
  isGoal n := decide (n = 0)
  rules := [Rule.fixed "grow" asked fun n => some (n * 10)]
  heuristic := none

theorem broken_owing {asked : Value} (hasked : asked.toPrice? = none) {x : Int} (hx : 0 < x) :
    ∃ t, (fresh : Search Int Int).run ⟨owing asked x, .bfs, .batch⟩ 1 =
      .broken t (.price (.text "grow") asked x) ∧ t.expansions = 1 := by
  simp [run, beginRun, reset, fresh, beginPass, Plan.askInitial, Plan.boundAfter,
    Strategy.isIterative, unbounded, Progress.after, advance, turn, isBeyond?_int, isWithin_int,
    pop, record, Plan.askGoal, explode, admits, expand, close, count, pay?, Closed.put_eq_insert,
    Plan.askRules, Plan.childrenFrom, Frontier.popFront?, Frontier.pushBack, Frontier.empty,
    Frontier.ofList, Node.depth, Node.state, Node.cost, Rule.fixed, owing, hasked, hx.ne']

/-- Where the state has too many digits to be written, the rule is not named; and whatever the room,
some price is nested too deep for a rule that asks it to be named. -/
theorem unnamed_faults :
    (∃ t fault, (fresh : Search Int Int).run ⟨debtor (tenPow 4299), .bfs, .batch⟩ 2 =
        .broken t fault ∧
      fault = .price (.text "owe") (.int (-1)) (tenPow Decimal.maxDigits) ∧
      ∀ room, 0 < room → fault.message room = .error .digits) ∧
    ∀ room, ∃ t fault, (fresh : Search Int Int).run ⟨owing (.nested room) 1, .bfs, .batch⟩ 1 =
        .broken t fault ∧
      fault = .price (.text "grow") (.nested room) 1 ∧ fault.message room = .error .nesting := by
  constructor
  · obtain ⟨t, hbroken⟩ := broken_debtor_tenPow (show Decimal.maxDigits = 4299 + 1 from rfl)
    refine ⟨t, _, hbroken, rfl, fun room hroom => Fault.message_of_firstObstacle? ?_⟩
    have hlong : Display.quoted room (tenPow Decimal.maxDigits : Int) = .error .digits :=
      Value.write_int_of_long hroom Decimal.isWritable_tenPow_maxDigits
    rw [Value.write_text hroom, Value.write_int hroom (by decide +kernel), hlong]
    rfl
  · intro room
    obtain ⟨t, hbroken, -⟩ := broken_owing (Value.toPrice?_nested room) (x := 1) (by decide)
    refine ⟨t, _, hbroken, rfl, Fault.message_of_firstObstacle? ?_⟩
    rw [Value.write_nested]
    rcases room.eq_zero_or_pos with rfl | hroom
    · rfl
    · rw [Value.write_text hroom]
      rfl

end Search

end StateSpace
