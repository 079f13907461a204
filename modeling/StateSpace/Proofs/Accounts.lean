import StateSpace.Proofs.Comparison
import StateSpace.Proofs.Walks

/-!
# Nothing is lost, made twice or asked twice

What a search asks of its problem is read off its record, to which each answer adds its question;
which node a turn picked from the front, in which pass, and whether the turn expanded it, is read
off the searches before and after it. The two agree call by call. In the pass under way the nodes
made so far, the root and all children of nodes that were expanded, are those picked together with
those that wait.
-/
namespace StateSpace

/-- What a search asks of its problem. -/
inductive Call (σ : Type) where
  | initial
  | isGoal (s : σ)
  | rules
  | estimate (s : σ)

def Event.call? {σ κ : Type} : Event σ κ → Option (Call σ)
  | .began _ => some .initial
  | .tested n _ => some (.isGoal n.state)
  | .expanded _ => some .rules
  | .estimated s _ => some (.estimate s)
  | _ => none

/-- A node that a turn of some pass picked from the front, and whether its expansion was counted. -/
structure Pick (σ : Type) where
  pass : Nat
  node : Node σ Int
  isExpanded : Bool

namespace Plan

variable {σ : Type}

/-- The calls for the estimates of some children. -/
def estimateCalls (plan : Plan σ Int) (nodes : List (Node σ Int)) : List (Call σ) :=
  if plan.strategy.isInformed && plan.problem.heuristic.isSome then
    nodes.map fun m => .estimate m.state
  else []

def callsAt (plan : Plan σ Int) (pick : Pick σ) : List (Call σ) :=
  .isGoal pick.node.state ::
    if pick.isExpanded then .rules :: plan.estimateCalls (plan.problem.offspring pick.node) else []

def callsOfPass (plan : Plan σ Int) (picks : List (Pick σ)) : List (Call σ) :=
  .initial :: picks.flatMap plan.callsAt

/-- The children that were made where a node was picked. -/
def madeBy (plan : Plan σ Int) (pick : Pick σ) : List (Node σ Int) :=
  if pick.isExpanded then plan.problem.offspring pick.node else []

/-- The nodes that a pass has made: the root and the children of the nodes that were expanded. -/
def madeIn (plan : Plan σ Int) (picks : List (Pick σ)) : List (Node σ Int) :=
  .root plan.problem.initial 0 :: picks.flatMap plan.madeBy

variable {plan : Plan σ Int} {n : Node σ Int} {nodes : List (Node σ Int)}

/-- Of a problem with estimates an evaluation that does not break asks for one. -/
theorem calls_askEvaluation {k : Int} (hstrategy : plan.strategy = .astar ∨ plan.strategy = .greedy)
    (heval : plan.evaluate n = .ok k) :
    (plan.askEvaluation n).record.filterMap Event.call? =
      if plan.problem.heuristic.isSome then [.estimate n.state] else [] := by
  have hrecord : (plan.askEvaluation n).record = (plan.askEstimate n.state).record := by
    rcases hstrategy with hstrategy | hstrategy <;> simp [askEvaluation, hstrategy]
  have hbroken : ∀ d, (plan.askEstimate n.state).value ≠ .error d := by
    intro d hd
    rw [value_askEstimate] at hd
    rw [evaluate_eq, hd] at heval
    rcases hstrategy with hstrategy | hstrategy <;> simp [hstrategy, bind, Except.bind] at heval
  rw [hrecord]
  cases hheuristic : plan.problem.heuristic with
  | none => simp [askEstimate, hheuristic]
  | some h =>
      cases hstate : h n.state with
      | ok estimate => simp [askEstimate, hheuristic, hstate, Event.call?]
      | error d => exact absurd (by simp [askEstimate, hheuristic, hstate]) (hbroken d)

/-- Where children are queued, each of them is asked for its estimate once, in their order. -/
theorem calls_inquiries {f f' : Frontier (Node σ Int) Int}
    (hqueue : plan.queue? f nodes = some f') :
    (plan.inquiries nodes).filterMap Event.call? = plan.estimateCalls nodes := by
  cases hinformed : plan.strategy.isInformed with
  | false => simp [inquiries_eq_nil hinformed, estimateCalls, hinformed]
  | true =>
      have hstrategy : plan.strategy = .astar ∨ plan.strategy = .greedy := by
        cases hstrategy : plan.strategy <;> simp [hstrategy, Strategy.isInformed] at hinformed ⊢
      obtain ⟨heval, -⟩ := (Plan.queue?_informed hstrategy).mp hqueue
      have hcalls : ∀ n ∈ nodes, (plan.askEvaluation n).record.filterMap Event.call? =
          if plan.problem.heuristic.isSome then [.estimate n.state] else [] :=
        fun n hn => calls_askEvaluation hstrategy (heval n hn)
      rw [inquiries_of_evaluate heval, List.filterMap_flatMap, List.flatMap_congr hcalls,
        estimateCalls, hinformed, Bool.true_and]
      cases plan.problem.heuristic.isSome with
      | false => simp
      | true => exact List.map_eq_flatMap.symm

end Plan

namespace Pick

variable {σ : Type} {picks : List (Pick σ)} {pick : Pick σ} {pass : Nat}

/-- The picks of one pass. -/
def ofPass (picks : List (Pick σ)) (pass : Nat) : List (Pick σ) :=
  picks.filter fun pick => pick.pass == pass

theorem ofPass_concat (hpass : pick.pass = pass) :
    ofPass (picks ++ [pick]) pass = ofPass picks pass ++ [pick] := by
  simp [ofPass, hpass]

theorem ofPass_concat_of_ne (hpass : pick.pass ≠ pass) :
    ofPass (picks ++ [pick]) pass = ofPass picks pass := by
  simp [ofPass, hpass]

theorem ofPass_eq_nil (hpicks : ∀ pick ∈ picks, pick.pass < pass) : ofPass picks pass = [] := by
  rw [ofPass, List.filter_eq_nil_iff]
  intro pick hpick
  simpa using (hpicks pick hpick).ne

end Pick

theorem Plan.flatMap_callsOfPass_concat {σ : Type} {plan : Plan σ Int} {picks : List (Pick σ)}
    {pick : Pick σ} (hpass : 0 < pick.pass) :
    ((List.range pick.pass).flatMap fun k =>
        plan.callsOfPass (Pick.ofPass (picks ++ [pick]) (k + 1))) =
      ((List.range pick.pass).flatMap fun k => plan.callsOfPass (Pick.ofPass picks (k + 1))) ++
        plan.callsAt pick := by
  obtain ⟨before, hbefore⟩ := Nat.exists_eq_succ_of_ne_zero hpass.ne'
  -- Only the last pass has one more pick.
  have hsame : ∀ k ∈ List.range before,
      plan.callsOfPass (Pick.ofPass (picks ++ [pick]) (k + 1)) =
        plan.callsOfPass (Pick.ofPass picks (k + 1)) := by
    intro k hk
    have hlt := List.mem_range.mp hk
    rw [Pick.ofPass_concat_of_ne (by omega)]
  rw [hbefore, List.range_succ, List.flatMap_append, List.flatMap_append, List.flatMap_congr hsame,
    List.append_assoc, List.flatMap_singleton, List.flatMap_singleton, Pick.ofPass_concat hbefore]
  simp [callsOfPass]

namespace Search

section Defs

variable {σ : Type} [Keyed σ]

/-- What a search has asked so far, first things first. -/
def calls (s : Search σ Int) : List (Call σ) := s.history.reverse.filterMap Event.call?

/-- The node that is picked on the way from one search to the next; none where the frontier is
empty. -/
def pickBetween (s t : Search σ Int) : Option (Pick σ) :=
  s.frontier.popFront?.map fun (e, _) =>
    { pass := s.passes, node := e.item, isExpanded := decide (s.expansions < t.expansions) }

/-- The node that a turn of a run picks and goes on from. -/
def pick? (plan : Plan σ Int) (start : Search σ Int) (turn : Nat) : Option (Pick σ) :=
  match start.run plan turn, start.run plan (turn + 1) with
  | .running s, .running t => pickBetween s t
  | _, _ => none

/-- The nodes picked in so many turns of a run. -/
def picked (plan : Plan σ Int) (start : Search σ Int) (turns : Nat) : List (Pick σ) :=
  (List.range turns).filterMap (pick? plan start)

/-- The accounts of a run: its calls pass by pass, its expansions, and what it picked and made in
its last pass. -/
structure Accounts (plan : Plan σ Int) (picks : List (Pick σ)) (s : Search σ Int) : Prop where
  calls : s.calls =
    (List.range s.passes).flatMap fun k => plan.callsOfPass (Pick.ofPass picks (k + 1))
  expansions : s.expansions = picks.countP (·.isExpanded)
  children : ∀ pick ∈ picks, pick.isExpanded = true →
    plan.children pick.node = .ok (plan.problem.offspring pick.node)
  passes : ∀ pick ∈ picks, pick.pass ≤ s.passes
  tested : s.tested = ((Pick.ofPass picks s.passes).map (·.node)).reverse
  made : (plan.madeIn (Pick.ofPass picks s.passes)).Perm
    ((Pick.ofPass picks s.passes).map (·.node) ++ s.frontier.items)

end Defs

variable {σ : Type} [DecidableEq σ] [Hashable σ] {plan : Plan σ Int} {start s t : Search σ Int}
  {n : Node σ Int} {picks : List (Pick σ)} {pick : Pick σ} {turns : Nat}

/-! ### One turn -/

/-- One more pick of the pass under way, and what the turn leaves. -/
theorem Accounts.concat (accounts : Accounts plan picks s) (hpass : pick.pass = s.passes)
    (hpos : 0 < s.passes) (hpasses : t.passes = s.passes)
    (hcalls : t.calls = s.calls ++ plan.callsAt pick)
    (hexpansions : t.expansions = s.expansions + [pick].countP (·.isExpanded))
    (hchildren : pick.isExpanded = true →
      plan.children pick.node = .ok (plan.problem.offspring pick.node))
    (htested : t.tested = pick.node :: s.tested)
    (hmade : (s.frontier.items ++ plan.madeBy pick).Perm (pick.node :: t.frontier.items)) :
    Accounts plan (picks ++ [pick]) t where
  calls := by
    rw [hcalls, accounts.calls, hpasses, ← hpass, Plan.flatMap_callsOfPass_concat (by omega)]
  expansions := by
    rw [hexpansions, accounts.expansions, List.countP_append]
  children := by
    rw [List.forall_mem_append]
    exact ⟨accounts.children, by simpa using hchildren⟩
  passes := by
    rw [List.forall_mem_append, hpasses]
    exact ⟨accounts.passes, by simpa using hpass.le⟩
  tested := by
    rw [htested, accounts.tested, hpasses, Pick.ofPass_concat hpass]
    simp
  made := by
    rw [hpasses, Pick.ofPass_concat hpass]
    have hsame : plan.madeIn (Pick.ofPass picks s.passes ++ [pick]) =
        plan.madeIn (Pick.ofPass picks s.passes) ++ plan.madeBy pick := by
      simp [Plan.madeIn]
    rw [hsame, List.map_append, List.map_singleton, List.append_assoc]
    refine (accounts.made.append_right _).trans ?_
    rw [List.append_assoc]
    exact hmade.append_left _

theorem calls_take {isBeyond : Bool} {rest : Frontier (Node σ Int) Int} :
    (s.take plan n isBeyond rest).calls = s.calls ++ [.isGoal n.state] := by
  simp [calls, take, pop, record, Plan.askGoal, Event.call?]

theorem calls_queued {allowance : Option Nat} {f : Frontier (Node σ Int) Int}
    {nodes : List (Node σ Int)} :
    (queued plan s n allowance f nodes).calls =
      s.calls ++ .rules :: (plan.inquiries nodes).filterMap Event.call? := by
  simp [calls, commit, close, count, record, Event.call?]

theorem calls_drain : s.drain.calls = s.calls := by
  simp [calls, drain, Event.call?]

theorem calls_beginPass {bound : Int} : (s.beginPass plan bound).calls = s.calls ++ [.initial] := by
  simp [calls, beginPass, Plan.askInitial]
  rfl

theorem accounts_beginRun (plan : Plan σ Int) (start : Search σ Int) :
    Accounts plan [] (start.beginRun plan) where
  calls := calls_beginPass
  expansions := rfl
  children := by simp
  passes := by simp
  tested := rfl
  made := .refl _

section Turn

variable {e : Entry (Node σ Int) Int} {rest : Frontier (Node σ Int) Int}

/-- A node that is left where it was picked is a goal test and nothing more. -/
theorem Accounts.skip (accounts : Accounts plan picks s) (hpos : 0 < s.passes)
    (hfront : s.frontier.popFront? = some (e, rest)) (isBeyond : Bool) :
    Accounts plan (picks ++ [⟨s.passes, e.item, false⟩]) (s.take plan e.item isBeyond rest) := by
  refine accounts.concat rfl hpos rfl calls_take rfl ?_ rfl ?_
  · intro hexpanded
    cases hexpanded
  · rw [Frontier.items_of_front (Frontier.toList_of_popFront? hfront)]
    exact .of_eq (List.append_nil _)

theorem Accounts.expand (accounts : Accounts plan picks s) (hpos : 0 < s.passes)
    (hfront : s.frontier.popFront? = some (e, rest))
    (hpriced : ∀ rule ∈ plan.problem.rules, rule.IsPricedAt e.item.state)
    {f : Frontier (Node σ Int) Int}
    (hqueue : plan.queue? rest (plan.problem.offspring e.item) = some f) (allowance : Option Nat)
    (isBeyond : Bool) :
    Accounts plan (picks ++ [⟨s.passes, e.item, true⟩])
      (queued plan (s.take plan e.item isBeyond rest) e.item allowance f
        (plan.problem.offspring e.item)) := by
  refine accounts.concat rfl hpos rfl ?_ rfl ?_ ?_ ?_
  · rw [calls_queued, calls_take, Plan.calls_inquiries hqueue]
    simp [Plan.callsAt]
  · exact fun _ => Plan.children_eq_ok_iff.mpr ⟨hpriced, rfl⟩
  · simp only [Search.tested, recent, Plan.takeWhile_inquiries, List.filterMap_append,
      Plan.filterMap_inquiries (f := Event.tested?) fun _ _ => rfl, List.nil_append]
    rfl
  · rw [Frontier.items_of_front (Frontier.toList_of_popFront? hfront), List.cons_append]
    exact (List.perm_append_comm.trans (Plan.queue?_perm hqueue).symm).cons e.item

/-- A new pass asks for the initial state and starts from the root again. -/
theorem Accounts.next (accounts : Accounts plan picks s) (bound : Int) :
    Accounts plan picks (s.drain.beginPass plan bound) := by
  have hnone : Pick.ofPass picks (s.passes + 1) = [] :=
    Pick.ofPass_eq_nil fun pick hpick => Nat.lt_succ_of_le (accounts.passes pick hpick)
  constructor
  · show _ = (List.range (s.passes + 1)).flatMap _
    rw [calls_beginPass, calls_drain, accounts.calls, List.range_succ, List.flatMap_append,
      List.flatMap_singleton, hnone]
    rfl
  · exact accounts.expansions
  · exact accounts.children
  · exact fun pick hpick => Nat.le_succ_of_le (accounts.passes pick hpick)
  · show _ = ((Pick.ofPass picks (s.passes + 1)).map _).reverse
    rw [hnone]
    rfl
  · show (plan.madeIn (Pick.ofPass picks (s.passes + 1))).Perm
      ((Pick.ofPass picks (s.passes + 1)).map _ ++ _)
    rw [hnone]
    exact .refl _

end Turn

/-! ### Runs -/

theorem pick?_of_running (hs : start.run plan turns = .running s)
    (ht : start.run plan (turns + 1) = .running t) : pick? plan start turns = pickBetween s t := by
  rw [pick?, hs, ht]

theorem picked_succ (plan : Plan σ Int) (start : Search σ Int) (turns : Nat) :
    picked plan start (turns + 1) = picked plan start turns ++ (pick? plan start turns).toList := by
  rw [picked, List.range_succ, List.filterMap_append]
  cases hpick : pick? plan start turns <;> simp [picked, hpick]

theorem Accounts.turn (accounts : Accounts plan picks s) (hpos : 0 < s.passes)
    (hturn : s.turn plan = .running t) :
    Accounts plan (picks ++ (pickBetween s t).toList) t := by
  obtain ⟨e, rest, hfront, -, ⟨rfl, -⟩ | ⟨-, -, hexpand⟩⟩ := exists_of_turn_running hturn
  · have hpick : pickBetween s (s.take plan e.item (decide (s.depthBound < e.item.depth)) rest) =
        some ⟨s.passes, e.item, false⟩ := by
      simp [pickBetween, hfront, take, pop, record]
    rw [hpick]
    exact accounts.skip hpos hfront _
  · obtain ⟨paid, f, hpaid, hpriced, hqueue, rfl⟩ := expand_eq_running_iff.mp hexpand
    obtain ⟨allowance, rfl, -⟩ := eq_of_pay? hpaid
    have hpick : pickBetween s (queued plan (s.take plan e.item (decide (s.depthBound <
        e.item.depth)) rest) e.item allowance f (plan.problem.offspring e.item)) =
          some ⟨s.passes, e.item, true⟩ := by
      simp [pickBetween, hfront, take, pop, commit, close, count, record]
    rw [hpick]
    exact accounts.expand hpos hfront hpriced hqueue allowance _

theorem Accounts.advance (accounts : Accounts plan picks s) (hpos : 0 < s.passes)
    (hadvance : s.advance plan = .running t) :
    Accounts plan (picks ++ (pickBetween s t).toList) t := by
  cases hturn : s.turn plan with
  | running u =>
      rw [advance_of_running hturn] at hadvance
      obtain rfl := Progress.running.inj hadvance
      exact accounts.turn hpos hturn
  | ended u =>
      cases hfinished : u.isFinished with
      | true =>
          rw [advance_of_finished hturn hfinished] at hadvance
          cases hadvance
      | false =>
          rw [advance_of_open hturn hfinished] at hadvance
          obtain rfl := Progress.running.inj hadvance
          obtain ⟨hempty, rfl⟩ := drained_of_open hturn hfinished
          rw [pickBetween, Frontier.popFront?_eq_none.mpr hempty, Option.map_none,
            Option.toList_none, List.append_nil]
          exact accounts.next _
  | broken u fault =>
      rw [advance_of_broken hturn] at hadvance
      cases hadvance

/-- **Nothing is lost, made twice or asked twice.** At every head of the loop of a run, its calls
are those of its passes one after another, with one goal test for each node picked, one look at the
rules for each expansion that was counted, and one estimate for each child, right after it, where
the strategy and the problem have estimates. The nodes made in the pass under way are those picked
together with those that wait, each once. -/
theorem accounts_of_running (hrun : start.run plan turns = .running s) :
    Accounts plan (picked plan start turns) s ∧
      ((Pick.ofPass (picked plan start turns) s.passes).map (·.node) ++
        s.frontier.items).Nodup := by
  have accounts : Accounts plan (picked plan start turns) s := by
    induction turns generalizing s with
    | zero =>
        obtain rfl := Progress.running.inj hrun
        exact accounts_beginRun plan start
    | succ turns ih =>
        obtain ⟨u, hu, hadvance⟩ := exists_of_after_succ hrun
        obtain ⟨before, hpasses, -⟩ := (run_of_running hu).exists_pass
        rw [picked_succ, pick?_of_running hu hrun]
        exact (ih hu).advance (by omega) hadvance
  refine ⟨accounts, ?_⟩
  obtain ⟨before, -, hpass⟩ := (run_of_running hrun).exists_pass
  have hnodup := hpass.nodup_seen
  rw [accounts.tested] at hnodup
  exact ((List.reverse_perm _).append_right _).nodup_iff.mp hnodup

/-- The first turn expands 1, whose children are 3 and 2. -/
theorem accounts_signposted :
    ∃ s, (fresh : Search Int Int).run ⟨signposted, .astar, .batch⟩ 1 = .running s ∧
      s.calls = [.initial, .isGoal 1, .rules, .estimate 3, .estimate 2] ∧
      Accounts ⟨signposted, .astar, .batch⟩ (picked ⟨signposted, .astar, .batch⟩ fresh 1) s ∧
      ((Pick.ofPass (picked ⟨signposted, .astar, .batch⟩ fresh 1) s.passes).map (·.node) ++
        s.frontier.items).Nodup := by
  obtain ⟨s, hrun, hcalls⟩ :
      ∃ s, (fresh : Search Int Int).run ⟨signposted, .astar, .batch⟩ 1 = .running s ∧
        s.calls = [.initial, .isGoal 1, .rules, .estimate 3, .estimate 2] := by
    simp [run, beginRun, reset, fresh, beginPass, Plan.askInitial, signposted, Plan.boundAfter,
      Strategy.isIterative, unbounded, Progress.after, advance, turn, isBeyond?_int, isWithin_int,
      pop, record, Plan.askGoal, explode, admits, isBest_int, expand, close, count, pay?,
      Closed.put_eq_insert, enqueue, calls, Plan.askRules, Plan.childrenFrom, Plan.askBatch,
      Plan.entries?, Plan.askEvaluations, Plan.askEvaluation, Plan.askEstimate, Except.map, bind,
      Except.bind, stableSort, insertBehind, Frontier.popFront?, Frontier.pushBack, Frontier.empty,
      Frontier.ofList, Node.depth, Node.state, Node.cost, Value.toPrice?, Rule.unit, Rule.fixed,
      Doubling.evens, Doubling.evenRules, Doubling.within]
    rfl
  exact ⟨s, hrun, hcalls, accounts_of_running hrun⟩

end Search

end StateSpace
