import StateSpace.Proofs.Consistency
import StateSpace.Proofs.Surveyed

/-!
# An inspection and breadth-first search agree

Both walk the states within reach breadth first. A search tests for goals and keeps nodes, an
inspection keeps states and a limit; but as long as no node lies too deep, each expansion of the one
is a look of the other, at the same state, with the same queue and the same states behind. So they
come upon the same rule that is not priced, unless the search ends at a goal before.
-/
namespace StateSpace

namespace Frontier

variable {α κ : Type} {f : Frontier α κ} {a : α} {tail : List α}

theorem exists_popFront_of_items (hitems : f.items = a :: tail) :
    ∃ key rest, f.popFront? = some (⟨a, key⟩, rest) ∧ rest.items = tail := by
  obtain ⟨⟨item, key⟩, entries, hlist, hitem, rfl⟩ := List.map_eq_cons_iff.mp hitems
  obtain rfl : item = a := hitem
  obtain ⟨rest, hpop, rfl⟩ := exists_popFront hlist
  exact ⟨key, rest, hpop, rfl⟩

end Frontier

namespace Search

variable {σ : Type} [DecidableEq σ] [Hashable σ] {plan : Plan σ Int} {bound : Int}
  {start s t : Search σ Int} {queue : Frontier σ Int} {seen : Std.HashSet σ} {fault : Fault σ}

open Problem

/-- A walk that has looked at what a search has expanded, and has the same before it. -/
structure Abreast (plan : Plan σ Int) (s : Search σ Int) (queue : Frontier σ Int)
    (seen : Std.HashSet σ) : Prop where
  items : queue.items = s.frontier.items.map Node.state
  closed : ∀ x, x ∈ seen ↔ x ∈ s.closed
  walk : ∀ left : Nat, plan.problem.inspect (s.expanded.length + left : Nat) none =
    plan.problem.inspectFrom queue seen (s.expanded.map Node.state) none left

theorem inspect_toNat (p : Problem σ Int) (limit : Int) (allowance : Option Nat) :
    p.inspect limit.toNat allowance = p.inspect limit allowance := by
  rw [Problem.inspect, Problem.inspect, Int.toNat_natCast]

/-! ### One turn -/

section Turn

variable {n : Node σ Int} {rest : Frontier (Node σ Int) Int}

theorem abreast_beginPass (plan : Plan σ Int) (bound : Int) (s : Search σ Int) :
    Abreast plan (s.beginPass plan bound)
      (Frontier.empty.pushBack ⟨plan.problem.initial, none⟩) ∅ where
  items := rfl
  closed := by simp [beginPass]
  walk := by
    intro left
    simp [Problem.inspect, beginPass, Plan.askInitial, expanded, recent, Event.isStart]

theorem Abreast.skip (abreast : Abreast plan s queue seen) (takes : Takes plan s n rest.toList t)
    (hmem : n.state ∈ s.closed) (hfrontier : t.frontier = rest) (hclosed : t.closed = s.closed)
    (hexpanded : t.expanded = s.expanded) : ∃ queue seen, Abreast plan t queue seen := by
  obtain ⟨key, hfront⟩ := takes.front
  have hitems := abreast.items
  rw [Frontier.items_of_front hfront, List.map_cons] at hitems
  obtain ⟨key', queue', hpop, hrest⟩ := Frontier.exists_popFront_of_items hitems
  refine ⟨queue', seen, by rw [hrest, hfrontier]; rfl, by rw [hclosed]; exact abreast.closed,
    fun left => ?_⟩
  rw [hexpanded, abreast.walk, inspectFrom_seen hpop ((abreast.closed _).mpr hmem)]

theorem Abreast.expand (abreast : Abreast plan s queue seen)
    (takes : Takes plan s n rest.toList t) (hnew : n.state ∉ s.closed)
    (hpriced : ∀ rule ∈ plan.problem.rules, rule.IsPricedAt n.state)
    (hitems : t.frontier.items = rest.items ++ plan.problem.offspring n)
    (hclosed : ∀ x, x ∈ t.closed ↔ n.state = x ∨ x ∈ s.closed)
    (hexpanded : t.expanded = n :: s.expanded) : ∃ queue seen, Abreast plan t queue seen := by
  obtain ⟨key, hfront⟩ := takes.front
  have hqueue := abreast.items
  rw [Frontier.items_of_front hfront, List.map_cons] at hqueue
  obtain ⟨key', queue', hpop, hrest⟩ := Frontier.exists_popFront_of_items hqueue
  have hok : successors n.state plan.problem.rules =
      .ok ((plan.problem.offspring n).map Node.state) :=
    successors_of_childrenFrom (Plan.children_eq_ok_iff.mpr ⟨hpriced, rfl⟩)
  let added := (plan.problem.offspring n).map Node.state
  refine ⟨added.foldl (fun q s => q.pushBack ⟨s, none⟩) queue', seen.insert n.state, ?_,
    fun x => ?_, fun left => ?_⟩
  · rw [items_foldl_pushBack, hrest, hitems, List.map_append]
    rfl
  · rw [Std.HashSet.mem_insert, abreast.closed, hclosed, beq_iff_eq]
  · have hlook := abreast.walk (left + 1)
    rw [inspectFrom_new hpop (fun hmem => hnew ((abreast.closed _).mp hmem)), hok] at hlook
    rw [hexpanded, List.length_cons, Nat.add_right_comm, Nat.add_assoc]
    exact hlook

end Turn

section Bfs

variable (hbfs : plan.strategy = .bfs)

include hbfs

theorem isAdmitted_iff_of_bfs {n : Node σ Int} :
    s.isAdmitted plan.strategy n = true ↔ n.state ∉ s.closed := by
  rw [hbfs, Std.HashMap.mem_iff_isSome_getElem?]
  cases hbest : s.closed[n.state]? <;> simp [isAdmitted, hbest]

theorem Pass.exists_abreast (hs : Pass plan bound s)
    (hcut : ∀ k ∈ s.tested, (k.depth : Int) ≤ bound) : ∃ queue seen, Abreast plan s queue seen := by
  induction hs with
  | start s => exact ⟨_, _, abreast_beginPass plan bound s⟩
  | @turn s t hs hturn ih =>
      have htaken := turn_of_running hturn
      obtain ⟨n, rest, takes⟩ := htaken.exists_takes
      obtain ⟨queue, seen, abreast⟩ :=
        ih fun k hk => hcut k (takes.tested ▸ List.mem_cons_of_mem n hk)
      cases htaken with
      | skipped n rest takes hreason hfrontier hclosed hexpanded =>
          have hwithin := hcut n (takes.tested ▸ List.mem_cons_self)
          rw [← hs.ledger.depthBound] at hwithin
          have hrefused : s.isAdmitted plan.strategy n = false := by
            rcases hreason with hbeyond | ⟨-, hrefused⟩
            · exact absurd hbeyond (not_lt.mpr hwithin)
            · exact hrefused
          have hmem : n.state ∈ s.closed := by
            by_contra hnew
            rw [(isAdmitted_iff_of_bfs hbfs).mpr hnew] at hrefused
            cases hrefused
          exact abreast.skip takes hmem hfrontier hclosed hexpanded
      | expanded n rest takes hwithin hadmitted hpriced hqueue hclosed hexpanded =>
          obtain ⟨f, hf, hitems⟩ := Plan.queue?_bfs hbfs rest (plan.problem.offspring n)
          obtain rfl := Option.some.inj (hf.symm.trans hqueue)
          refine abreast.expand takes ((isAdmitted_iff_of_bfs hbfs).mp hadmitted) hpriced hitems
            (fun x => ?_) hexpanded
          rw [Std.HashMap.mem_iff_isSome_getElem?, Std.HashMap.mem_iff_isSome_getElem?, hclosed]
          split <;> simp_all

/-! ### What an inspection finds -/

/-- An inspection with a limit up to the number of expansions finds no fault. -/
theorem Pass.sound_of_le (hs : Pass plan bound s) (hcut : ∀ k ∈ s.tested, (k.depth : Int) ≤ bound)
    {limit : Nat} (hle : limit ≤ s.expanded.length) :
    ∃ visited, plan.problem.inspect limit none = .sound visited ∧ visited.length = limit := by
  induction hs with
  | start s =>
      obtain rfl := Nat.le_zero.mp hle
      exact ⟨_, inspectFrom_zero _ _ _ _, rfl⟩
  | @turn s t hs hturn ih =>
      obtain ⟨queue, seen, abreast⟩ := (hs.turn hturn).exists_abreast hbfs hcut
      rcases hle.lt_or_eq with hlt | rfl
      · have htaken := turn_of_running hturn
        obtain ⟨n, rest, takes⟩ := htaken.exists_takes
        have hgrown : t.expanded.length ≤ s.expanded.length + 1 := by
          cases htaken with
          | skipped _ _ _ _ _ _ hexpanded => simp [hexpanded]
          | expanded _ _ _ _ _ _ _ _ hexpanded => simp [hexpanded]
        exact ih (fun k hk => hcut k (takes.tested ▸ List.mem_cons_of_mem n hk)) (by omega)
      · exact ⟨_, (abreast.walk 0).trans (inspectFrom_zero _ _ _ _), by simp⟩

section Ends

variable (hs : Pass plan bound s) (hcut : ∀ k ∈ s.tested, (k.depth : Int) ≤ bound)

include hs hcut

/-- An inspection with a higher limit than the expansions of a drained pass finds no fault. -/
theorem Pass.sound_of_drained (hempty : s.frontier.toList = []) (left : Nat) :
    plan.problem.inspect (s.expanded.length + left : Nat) none =
      .sound (s.expanded.map Node.state).reverse := by
  obtain ⟨queue, seen, abreast⟩ := hs.exists_abreast hbfs hcut
  have hqueue : queue.toList = [] := by
    have hitems := abreast.items
    rw [Frontier.items, Frontier.items, hempty] at hitems
    exact List.map_eq_nil_iff.mp hitems
  exact (abreast.walk left).trans (inspectFrom_empty hqueue)

/-- Where an expansion is broken off, an inspection with a limit that high comes upon the same
rule. -/
theorem Pass.unsound_of_broken (hallowance : s.allowance = none) (htotal : plan.problem.IsTotal)
    (hturn : s.turn plan = .broken t fault) :
    ∃ rule asked x y, FirstUnpriced plan.problem.rules x rule asked ∧
      rule.apply x = .leads y asked ∧ fault = .price rule.name asked x ∧
      t.expansions = s.expansions + 1 ∧
      ∀ left : Nat, plan.problem.inspect (s.expanded.length + (left + 1) : Nat) none =
        .unsound rule.name asked x y := by
  have hready : ∀ e rest, s.frontier.popFront? = some (e, rest) →
      (∀ rule ∈ plan.problem.rules, ∀ d, rule.apply e.item.state ≠ .broken d) ∧
        ∃ f, plan.queue? rest (plan.problem.offspring e.item) = some f := by
    intro e rest hfront
    have hgrows : plan.problem.Grows e.item :=
      hs.ledger.waiting e.item
        (Frontier.mem_items_of_front (Frontier.toList_of_popFront? hfront))
    obtain ⟨f, hf, -⟩ := Plan.queue?_bfs hbfs rest (plan.problem.offspring e.item)
    exact ⟨htotal e.item.state hgrows.reaches, f, hf⟩
  obtain ⟨n, rest, rule, asked, expanding, hfirst, rfl, rfl⟩ :=
    (turn_eq_broken_iff_of_front hallowance hready).mp hturn
  obtain ⟨-, -, y, -, -, happly, -⟩ := id hfirst
  obtain ⟨queue, seen, abreast⟩ := hs.exists_abreast hbfs hcut
  obtain ⟨key, hpop⟩ := expanding.front
  have hqueue := abreast.items
  rw [Frontier.items_of_front (Frontier.toList_of_popFront? hpop), List.map_cons] at hqueue
  obtain ⟨key', queue', hpop', -⟩ := Frontier.exists_popFront_of_items hqueue
  have hnew : n.state ∉ seen := fun hmem =>
    (isAdmitted_iff_of_bfs hbfs).mp expanding.admitted ((abreast.closed _).mp hmem)
  refine ⟨rule, asked, n.state, y, hfirst, happly, rfl, rfl, fun left => ?_⟩
  rw [abreast.walk, inspectFrom_new hpop' hnew, successors_of_firstUnpriced hfirst happly]

end Ends

end Bfs

/-! ### Runs -/

/-- Every run comes to a turn that does not go on, since a pass gets smaller with each turn. -/
theorem Run.exists_last (hs : Run plan start s) :
    ∃ u, Run plan start u ∧ ∀ t, u.turn plan ≠ .running t := by
  induction hload : load plan s using Nat.strong_induction_on generalizing s with
  | _ size ih =>
      by_cases hgoes : ∃ t, s.turn plan = .running t
      · obtain ⟨t, hturn⟩ := hgoes
        exact ih (load plan t) (hload ▸ (turn_of_running hturn).load_lt) (hs.turn hturn) rfl
      · exact ⟨s, hs, fun t hturn => hgoes ⟨t, hturn⟩⟩

section Agreement

variable {p : Problem σ Int} {d : Discipline} (hallowance : start.allowance = none)
  (htotal : p.IsTotal)

include hallowance htotal

theorem inspect_of_broken {turns : Nat} (hrun : start.run ⟨p, .bfs, d⟩ turns = .broken t fault)
    (hpopped : ∀ n ∈ t.popped, (n.depth : Int) ≤ unbounded) :
    ∃ rule asked x y, FirstUnpriced p.rules x rule asked ∧ rule.apply x = .leads y asked ∧
      fault = .price rule.name asked x ∧
      (∀ limit : Int, t.expansions ≤ limit →
        p.inspect limit none = .unsound rule.name asked x y) ∧
      ∀ limit : Int, limit < t.expansions →
        ∃ visited, p.inspect limit none = .sound visited ∧ visited.length = limit.toNat := by
  obtain ⟨s, hs, hturn⟩ := exists_run_of_broken hrun
  obtain ⟨n, rest, takes⟩ := (visit_of_broken hturn).exists_takes
  have hearlier : ∀ m ∈ s.popped, (m.depth : Int) ≤ unbounded :=
    fun m hm => hpopped m (takes.popped ▸ List.mem_cons_of_mem n hm)
  obtain ⟨hpass, tallied⟩ := hs.first_pass rfl hearlier
  have hcut := tallied.popped ▸ hearlier
  obtain ⟨rule, asked, x, y, hfirst, happly, hfault, hexpansions, hunsound⟩ :=
    hpass.unsound_of_broken rfl hcut (hs.allowance hallowance) htotal hturn
  rw [tallied.expansions] at hexpansions
  refine ⟨rule, asked, x, y, hfirst, happly, hfault, fun limit hle => ?_, fun limit hlt => ?_⟩
  · obtain ⟨left, hleft⟩ := Nat.le.dest (show s.expanded.length + 1 ≤ limit.toNat by omega)
    rw [← inspect_toNat, ← hleft, Nat.add_assoc, Nat.add_comm 1]
    exact hunsound left
  · rw [← inspect_toNat]
    exact hpass.sound_of_le rfl hcut (by omega)

theorem run_of_unsound {limit : Int} {name asked : Value} {x y : σ}
    (hunsound : p.inspect limit none = .unsound name asked x y)
    (hpopped : ∀ turns, ∀ n ∈ (start.run ⟨p, .bfs, d⟩ turns).search.popped,
      (n.depth : Int) ≤ unbounded) :
    ∃ turns t, (start.run ⟨p, .bfs, d⟩ turns = .ended t ∧ t.isFailed = false ∧
        ∃ n, t.solution = some n ∧ p.isGoal n.state = true) ∨
      start.run ⟨p, .bfs, d⟩ turns = .broken t (.price name asked x) := by
  obtain ⟨s, hs, hlast⟩ := (Run.start : Run ⟨p, .bfs, d⟩ start _).exists_last
  obtain ⟨turns, hrun⟩ := hs.exists_running
  have hearlier : ∀ m ∈ s.popped, (m.depth : Int) ≤ unbounded := by
    have hall := hpopped turns
    rwa [hrun] at hall
  obtain ⟨hpass, tallied⟩ := hs.first_pass rfl hearlier
  have hcut := tallied.popped ▸ hearlier
  have hbeyond : s.expanded.length < limit.toNat := by
    by_contra hle
    obtain ⟨visited, hsound, -⟩ := hpass.sound_of_le rfl hcut (not_lt.mp hle)
    rw [inspect_toNat, hunsound] at hsound
    cases hsound
  obtain ⟨left, hleft⟩ := Nat.le.dest (Nat.succ_le_of_lt hbeyond)
  have hsplit : s.expanded.length + (left + 1) = limit.toNat := by omega
  rw [← inspect_toNat, ← hsplit] at hunsound
  cases hturn : s.turn ⟨p, .bfs, d⟩ with
  | running t => exact absurd hturn (hlast t)
  | broken t fault =>
      obtain ⟨rule, asked', x', y', -, -, rfl, -, hfound⟩ :=
        hpass.unsound_of_broken rfl hcut (hs.allowance hallowance) htotal hturn
      obtain ⟨rfl, rfl, rfl, -⟩ := Finding.unsound.inj ((hfound left).symm.trans hunsound)
      exact ⟨turns + 1, t, Or.inr ((after_succ hrun).trans (advance_of_broken hturn))⟩
  | ended t =>
      cases ends_of_ended hturn with
      | drained hempty hresult =>
          cases (hpass.sound_of_drained rfl hcut hempty (left + 1)).symm.trans hunsound
      | goal n key rest hfront hgoal hresult =>
          subst hresult
          obtain ⟨turns, hended⟩ := hs.exists_ended hturn rfl
          exact ⟨turns, _, Or.inl ⟨hended, hs.no_verdict.2.2, n, rfl, hgoal⟩⟩

end Agreement

/-- A failed run among priced rules has expanded every state within reach once. -/
theorem expansions_of_failed {p : Problem σ Int} {d : Discipline} (hpriced : p.IsPriced)
    {turns : Nat} (hrun : start.run ⟨p, .bfs, d⟩ turns = .ended t) (hfailed : t.isFailed = true)
    (hpopped : ∀ n ∈ t.popped, (n.depth : Int) ≤ unbounded) :
    {x | p.Reaches x}.encard = t.expansions := by
  obtain ⟨s, hs, hempty, -, rfl⟩ := exists_drained_of_failed hrun hfailed
  obtain ⟨hpass, tallied⟩ := hs.first_pass rfl hpopped
  have hsound := hpass.sound_of_drained rfl (tallied.popped ▸ hpopped) hempty 1
  obtain ⟨visited, hvisited, hlength⟩ :=
    length_inspect_of_isPriced hpriced (s.expanded.length + 1 : Nat)
  obtain rfl := Finding.sound.inj (hvisited.symm.trans hsound)
  rw [List.length_reverse, List.length_map, Int.toNat_natCast] at hlength
  rcases min_choice ((s.expanded.length + 1 : Nat) : ℕ∞) {x | p.Reaches x}.encard with hmin | hmin
  · rw [hmin] at hlength
    have habsurd : s.expanded.length = s.expanded.length + 1 := by exact_mod_cast hlength
    omega
  · rw [← hmin, ← hlength]
    exact congrArg Nat.cast tallied.expansions.symm

/-- **An inspection and breadth-first search agree.** Where a run that takes no node beyond the
unbounded depth is broken off in an expansion, every inspection with a limit of at least that many
states finds the same rule, price and state, and every other one finds no fault in as many states as
it is allowed. The finding names them and the state that the rule leads to where all of them can be
written; else the first that cannot is to blame. If an inspection finds a fault, a run that takes no
node too deep ends at a goal or is broken off by it. Where all rules are priced, an inspection visits
as many states as it is allowed or as there are, whichever is less, and a failed run has expanded
that many if the limit leaves none out. -/
theorem inspection_agrees [Display σ] {p : Problem σ Int} (d : Discipline)
    (hallowance : start.allowance = none) (htotal : p.IsTotal) :
    (∀ turns t fault, start.run ⟨p, .bfs, d⟩ turns = .broken t fault →
      (∀ n ∈ t.popped, (n.depth : Int) ≤ unbounded) →
      ∃ rule asked x y, FirstUnpriced p.rules x rule asked ∧ rule.apply x = .leads y asked ∧
        fault = .price rule.name asked x ∧
        (∀ limit : Int, t.expansions ≤ limit →
          p.inspect limit none = .unsound rule.name asked x y ∧
          ∀ room,
            (∀ name price source target, rule.name.writePlain room = .ok name →
              asked.write room = .ok price → Display.plain room x = .ok source →
              Display.plain room y = .ok target →
              (p.inspect limit none).message room = .ok (some ("rule " ++ name ++ " gave cost " ++
                price ++ " for (s=" ++ source ++ ", s\x27=" ++ target ++ ")"))) ∧
            ∀ u, firstObstacle? [rule.name.writePlain room, asked.write room,
                Display.plain room x, Display.plain room y] = some u →
              (p.inspect limit none).message room = .error u) ∧
        ∀ limit : Int, limit < t.expansions →
          ∃ visited, p.inspect limit none = .sound visited ∧ visited.length = limit.toNat) ∧
    (∀ limit name asked x y, p.inspect limit none = .unsound name asked x y →
      (∀ turns, ∀ n ∈ (start.run ⟨p, .bfs, d⟩ turns).search.popped,
        (n.depth : Int) ≤ unbounded) →
      ∃ turns t, (start.run ⟨p, .bfs, d⟩ turns = .ended t ∧ t.isFailed = false ∧
          ∃ n, t.solution = some n ∧ p.isGoal n.state = true) ∨
        start.run ⟨p, .bfs, d⟩ turns = .broken t (.price name asked x)) ∧
    (p.IsPriced → ∀ limit, ∃ visited, p.inspect limit none = .sound visited ∧
      (visited.length : ℕ∞) = min (limit.toNat : ℕ∞) {x | p.Reaches x}.encard ∧
      ∀ turns t, start.run ⟨p, .bfs, d⟩ turns = .ended t → t.isFailed = true →
        (∀ n ∈ t.popped, (n.depth : Int) ≤ unbounded) →
        {x | p.Reaches x}.encard ≤ (limit.toNat : ℕ∞) → t.expansions = visited.length) := by
  refine ⟨fun turns t fault hrun hpopped => ?_, fun limit name asked x y hunsound hpopped =>
    run_of_unsound hallowance htotal hunsound hpopped, fun hpriced limit => ?_⟩
  · obtain ⟨rule, asked, x, y, hfirst, happly, hfault, hunsound, hsound⟩ :=
      inspect_of_broken hallowance htotal hrun hpopped
    refine ⟨rule, asked, x, y, hfirst, happly, hfault, fun limit hle => ?_, hsound⟩
    rw [hunsound limit hle]
    exact ⟨rfl, fun room => ⟨fun name price source target => Finding.message_of_written,
      fun u => Finding.message_of_firstObstacle?⟩⟩
  · obtain ⟨visited, hsound, hlength⟩ := length_inspect_of_isPriced hpriced limit
    refine ⟨visited, hsound, hlength, fun turns t hrun hfailed hpopped hle => ?_⟩
    rw [min_eq_right hle, expansions_of_failed hpriced hrun hfailed hpopped] at hlength
    exact_mod_cast hlength.symm

/-- The second expansion, of 10, is broken off; a limit of one state does not get there. -/
theorem agrees_debtor :
    (debtor 1).IsTotal ∧
      ∃ t, (fresh : Search Int Int).run ⟨debtor 1, .bfs, .batch⟩ 2 =
        .broken t (.price (.text "owe") (.int (-1)) 10) ∧ t.expansions = 2 ∧
        (∃ y, ∀ limit : Int, 2 ≤ limit →
          (debtor 1).inspect limit none = .unsound (.text "owe") (.int (-1)) 10 y) ∧
        ∀ limit : Int, limit < 2 →
          ∃ visited, (debtor 1).inspect limit none = .sound visited ∧
            visited.length = limit.toNat := by
  obtain ⟨t, hrun, hcount, hdepths⟩ :
      ∃ t, (fresh : Search Int Int).run ⟨debtor 1, .bfs, .batch⟩ 2 =
        .broken t (.price (.text "owe") (.int (-1)) 10) ∧ t.expansions = 2 ∧
        t.popped.map Node.depth = [1, 0] := by
    simp [run, beginRun, reset, fresh, beginPass, Plan.askInitial, Plan.boundAfter,
      Strategy.isIterative, unbounded, Progress.after, advance, turn, isBeyond?_int, isWithin_int,
      pop, record, Plan.askGoal, explode, admits, expand, close, count, pay?, Closed.put_eq_insert,
      enqueue, popped, Plan.askRules, Plan.childrenFrom, Frontier.popFront?, Frontier.pushBack,
      Frontier.empty, Frontier.ofList, Node.depth, Node.state, Node.cost, Value.toPrice?,
      Rule.fixed, debtor]
    rfl
  have hpopped : ∀ n ∈ t.popped, (n.depth : Int) ≤ unbounded := by
    intro n hn
    have hdepth := List.mem_map_of_mem (f := Node.depth) hn
    rw [hdepths] at hdepth
    unfold unbounded
    simp at hdepth
    omega
  obtain ⟨rule, asked, x, y, -, -, hfault, hunsound, hsound⟩ :=
    (@inspection_agrees Int _ _ fresh _ (debtor 1) .batch rfl (isTotal_debtor 1)).1 2 t _ hrun
      hpopped
  obtain ⟨hname, rfl, rfl⟩ := Fault.price.inj hfault
  rw [hcount] at hunsound hsound
  rw [hname]
  exact ⟨isTotal_debtor 1, t, by rw [hrun, hname], hcount,
    ⟨y, fun limit hle => (hunsound limit hle).1⟩, hsound⟩

theorem inspect_owing {asked : Value} (hasked : asked.toPrice? = none) (x : Int) :
    (owing asked x).inspect 1 none = .unsound (.text "grow") asked x (x * 10) := by
  have hpop : (Frontier.empty.pushBack ⟨(owing asked x).initial, none⟩ :
      Frontier Int Int).popFront? = some (⟨x, none⟩, .empty) := rfl
  have hfound : successors x (owing asked x).rules =
      .error (.unsound (.text "grow") asked x (x * 10)) := by
    simp [successors, owing, Rule.fixed, Value.isPrice, hasked]
  show (owing asked x).inspectFrom _ ∅ [] none (0 + 1) = _
  rw [inspectFrom_new hpop Std.HashSet.not_mem_empty, hfound]

/-- Where the state that a rule leads to has too many digits to be written, an inspection does not
name the rule, though the run that was broken off names it; and whatever the room, some price is
nested too deep for a rule that asks it to be named. -/
theorem unnamed_owing :
    (∃ t fault, (fresh : Search Int Int).run ⟨owing (.int (-1)) (tenPow 4299), .bfs, .batch⟩ 1 =
        .broken t fault ∧ t.expansions = 1 ∧
      fault = .price (.text "grow") (.int (-1)) (tenPow 4299) ∧
      (owing (.int (-1)) (tenPow 4299)).inspect 1 none =
        .unsound (.text "grow") (.int (-1)) (tenPow 4299) (tenPow 4300) ∧
      ∀ room, 0 < room →
        fault.message room = .ok (some ("Rule 'grow' returned cost -1 for state " ++
          toString (tenPow 4299 : Int) ++ "; rule costs must be non-negative integers.")) ∧
        ((owing (.int (-1)) (tenPow 4299)).inspect 1 none).message room = .error .digits) ∧
    ∀ room, (owing (.nested room) 1).inspect 1 none =
        .unsound (.text "grow") (.nested room) 1 10 ∧
      ((owing (.nested room) 1).inspect 1 none).message room = .error .nesting := by
  constructor
  · have hdebt : (Value.int (-1)).toPrice? = none := rfl
    obtain ⟨t, hrun, hcount⟩ :=
      broken_owing hdebt (x := tenPow 4299) (by exact_mod_cast tenPow_pos 4299)
    have hten : (tenPow 4299 : Int) * 10 = tenPow 4300 := by
      rw [tenPow_succ 4299, Nat.cast_mul, Nat.cast_ofNat]
    have hinspect := inspect_owing hdebt (tenPow 4299)
    rw [hten] at hinspect
    refine ⟨t, _, hrun, hcount, rfl, hinspect, fun room hroom => ?_⟩
    have hprice : (Value.int (-1)).write room = .ok "-1" :=
      Value.write_int hroom (by decide +kernel)
    have hstate : (Value.int (tenPow 4299)).write room = .ok (toString (tenPow 4299 : Int)) :=
      Value.write_int hroom (Decimal.isWritable_tenPow.mpr (by decide))
    constructor
    · rw [Fault.message_of_written (Value.write_text hroom "grow") hprice hstate]
      exact congrArg (fun text => Except.ok (some (text ++ _ ++ _))) (by decide +kernel)
    · rw [hinspect]
      refine Finding.message_of_firstObstacle? ?_
      have hsource : Display.plain room (tenPow 4299 : Int) = .ok (toString (tenPow 4299 : Int)) :=
        hstate
      have htarget : Display.plain room (tenPow 4300 : Int) = .error .digits :=
        Value.write_int_of_long hroom Decimal.isWritable_tenPow_maxDigits
      rw [hprice, hsource, htarget]
      rfl
  · intro room
    have hinspect := inspect_owing (Value.toPrice?_nested room) 1
    refine ⟨hinspect, ?_⟩
    rw [hinspect]
    refine Finding.message_of_firstObstacle? ?_
    rw [Value.write_nested]
    rfl

end Search

end StateSpace
