import StateSpace.Proofs.Comparison
import StateSpace.Proofs.StableOrder
import StateSpace.Proofs.Walks

/-!
# A global ordering serves the least

The nodes that a pass makes are numbered by the list of them: the root, and the children of each node
that was expanded, in the order of the expansions and of the rules. Under a global ordering they wait
by their evaluations, and by this list where these are equal. A child was made after all that wait, so
that inserting a sorted batch of children is the same as sorting all of them anew.
-/
namespace StateSpace

/-! ### Places in a list -/

section StandsBefore

variable {α : Type} {a b : α} {xs ys : List α}

/-- One item stands somewhere before another. -/
def StandsBefore (xs : List α) (a b : α) : Prop := [a, b].Sublist xs

theorem StandsBefore.append (hab : StandsBefore xs a b) (ys : List α) :
    StandsBefore (xs ++ ys) a b :=
  hab.trans (List.sublist_append_left xs ys)

theorem standsBefore_append (ha : a ∈ xs) (hb : b ∈ ys) : StandsBefore (xs ++ ys) a b :=
  (List.singleton_sublist.mpr ha).append (List.singleton_sublist.mpr hb)

theorem pairwise_standsBefore (xs ys : List α) : ys.Pairwise (StandsBefore (xs ++ ys)) :=
  List.pairwise_iff_forall_sublist.mpr fun hab => hab.trans (List.sublist_append_right xs ys)

theorem StandsBefore.asymm (hnodup : xs.Nodup) (hab : StandsBefore xs a b) :
    ¬StandsBefore xs b a := by
  intro hba
  induction xs with
  | nil => cases hab
  | cons c xs ih =>
      obtain ⟨hc, hnodup⟩ := List.nodup_cons.mp hnodup
      rcases List.cons_sublist_cons'.mp hab with hlater | ⟨rfl, hb⟩
      · rcases List.cons_sublist_cons'.mp hba with hlater' | ⟨rfl, -⟩
        · exact ih hnodup hlater hlater'
        · exact hc (hlater.subset (List.mem_cons_of_mem a List.mem_cons_self))
      · rcases List.cons_sublist_cons'.mp hba with hlater | ⟨rfl, -⟩
        · exact hc (hlater.subset (List.mem_cons_of_mem b List.mem_cons_self))
        · exact hc (List.singleton_sublist.mp hb)

end StandsBefore

namespace Search

/-- One node has a lower evaluation than another, or the same and was made before it. -/
abbrev Sooner {σ : Type} (plan : Plan σ Int) (nodes : List (Node σ Int)) :
    Node σ Int → Node σ Int → Prop :=
  Ahead plan.score (StandsBefore nodes)

/-! ### Inserting a batch -/

section Insertion

variable {σ : Type} {plan : Plan σ Int} {f g : Frontier (Node σ Int) Int}
  {items old nodes : List (Node σ Int)}

/-- The children of a node in their order of creation are put behind what was made before them. -/
theorem pairwise_sooner_insert (hitems : items.Pairwise (Sooner plan old)) (hold : items ⊆ old) :
    ((plan.ranked nodes).foldl (fun sorted n => insertBehind (belowBy plan.score) n sorted)
      items).Pairwise (Sooner plan (old ++ nodes)) := by
  have hranked : (plan.ranked nodes).Pairwise (Sooner plan (old ++ nodes)) :=
    pairwise_ahead_stableSort (pairwise_of_key_eq (pairwise_standsBefore old nodes))
  refine pairwise_ahead_foldl (hitems.imp fun hab => hab.imp fun hbefore => hbefore.append nodes)
    (hranked.imp Ahead.of_key_eq) fun x hx y hy _ => ?_
  exact standsBefore_append (hold hx) ((Plan.ranked_perm nodes).mem_iff.mp hy)

/-- Inserting a sorted batch is sorting all, where the batch was made after the rest. -/
theorem foldl_ranked_eq_stableSort (hitems : items.Pairwise (Sooner plan old)) (hold : items ⊆ old)
    (hnodup : (old ++ nodes).Nodup) :
    (plan.ranked nodes).foldl (fun sorted n => insertBehind (belowBy plan.score) n sorted) items =
      stableSort (belowBy plan.score) (items ++ nodes) := by
  refine eq_stableSort_of_pairwise_ahead (fun a b => StandsBefore.asymm hnodup)
    (pairwise_sooner_insert hitems hold) ?_ ?_
  · exact List.pairwise_append.mpr ⟨hitems.imp fun hab heq => (hab.of_key_eq heq).append nodes,
      pairwise_of_key_eq (pairwise_standsBefore old nodes),
      fun a ha b hb _ => standsBefore_append (hold ha) hb⟩
  · exact (foldl_insertBehind_perm _ _ _).trans ((Plan.ranked_perm nodes).append_left items)

/-- A batch of nodes is evaluated and goes into a frontier entry by entry, each time among keys none
of which is missing, and all are in order after that. -/
structure Inserts (plan : Plan σ Int) (f : Frontier (Node σ Int) Int) (nodes : List (Node σ Int))
    (g : Frontier (Node σ Int) Int) : Prop where
  batch : ∃ entries, (plan.askBatch nodes).value = .ok entries ∧
    entries.foldlM Frontier.insertOrdered? f = some g ∧
    ∀ front back, entries = front ++ back →
      ∃ h, front.foldlM Frontier.insertOrdered? f = some h ∧ ∀ d ∈ h.toList, d.key ≠ none
  sorted : g.toList = (stableSort (belowBy plan.score) (f.items ++ nodes)).map plan.keyed

theorem Ranked.items_eq (ranked : Ranked plan f.toList items) : items = f.items := by
  rw [Frontier.items, ranked.entries, Plan.items_keyed]

theorem Ranked.toList_of_queue? (ranked : Ranked plan f.toList f.items)
    (hinformed : plan.strategy = .astar ∨ plan.strategy = .greedy)
    (hdiscipline : plan.discipline = .global) (hqueue : plan.queue? f nodes = some g) :
    g.toList = ((plan.ranked nodes).foldl
      (fun sorted n => insertBehind (belowBy plan.score) n sorted) f.items).map plan.keyed := by
  obtain ⟨-, harrange⟩ := (Plan.queue?_informed hinformed).mp hqueue
  rw [Plan.arrange?, hdiscipline] at harrange
  obtain ⟨h, hh, hlist⟩ :=
    Plan.foldlM_insertOrdered?_keyed ranked.entries ranked.sorted (plan.ranked nodes)
  obtain rfl := Option.some.inj (hh.symm.trans harrange)
  exact hlist

theorem Ranked.exists_inserts (ranked : Ranked plan f.toList f.items)
    (hitems : f.items.Pairwise (Sooner plan old)) (hold : f.items ⊆ old)
    (hnodup : (old ++ nodes).Nodup)
    (heval : ∀ n ∈ nodes, plan.evaluate n = .ok (plan.score n)) : ∃ g, Inserts plan f nodes g := by
  obtain ⟨g, hg, hlist⟩ :=
    Plan.foldlM_insertOrdered?_keyed ranked.entries ranked.sorted (plan.ranked nodes)
  refine ⟨g, ⟨_, Plan.askBatch_eq_ok_iff.mpr ⟨heval, rfl⟩, hg, fun front back hsplit => ?_⟩, ?_⟩
  · obtain ⟨first, -, -, rfl, -⟩ := List.map_eq_append_iff.mp hsplit
    obtain ⟨h, hh, hhlist⟩ := Plan.foldlM_insertOrdered?_keyed ranked.entries ranked.sorted first
    refine ⟨h, hh, fun e he => ?_⟩
    rw [hhlist] at he
    obtain ⟨m, -, rfl⟩ := List.mem_map.mp he
    exact Option.some_ne_none _
  · rw [hlist, foldl_ranked_eq_stableSort hitems hold hnodup]

/-- What an informed strategy queues under a global ordering is what the insertion leaves. -/
theorem Inserts.eq_of_queue? (inserts : Inserts plan f nodes g)
    (hinformed : plan.strategy = .astar ∨ plan.strategy = .greedy)
    (hdiscipline : plan.discipline = .global) {h : Frontier (Node σ Int) Int}
    (hqueue : plan.queue? f nodes = some h) : h = g := by
  obtain ⟨-, harrange⟩ := (Plan.queue?_informed hinformed).mp hqueue
  rw [Plan.arrange?, hdiscipline] at harrange
  obtain ⟨entries, hbatch, hinsert, -⟩ := inserts.batch
  obtain ⟨-, rfl⟩ := Plan.askBatch_eq_ok_iff.mp hbatch
  exact Option.some.inj (harrange.symm.trans hinsert)

end Insertion

/-! ### The frontier of a pass -/

variable {σ : Type} [DecidableEq σ] [Hashable σ] {plan : Plan σ Int} {bound : Int}
  {start s t : Search σ Int} {n : Node σ Int}

theorem made_of_expanded (hexpanded : t.expanded = n :: s.expanded) :
    made plan t = made plan s ++ plan.problem.offspring n := by
  simp [made, hexpanded]

theorem Pass.made_perm (hs : Pass plan bound s) :
    (made plan s).Perm (s.tested ++ s.frontier.items) := by
  induction hs with
  | start s => exact .refl _
  | turn hs hturn ih =>
      cases turn_of_running hturn with
      | skipped n rest takes _ hfrontier _ hexpanded =>
          rw [made, hexpanded, hfrontier]
          exact ih.trans takes.seen_perm.symm
      | expanded n rest takes _ _ _ hqueue _ hexpanded =>
          rw [made_of_expanded hexpanded]
          refine ((ih.trans takes.seen_perm.symm).append_right _).trans ?_
          rw [List.append_assoc]
          exact (List.perm_append_comm.trans (Plan.queue?_perm hqueue).symm).append_left _

theorem Pass.nodup_made (hs : Pass plan bound s) : (made plan s).Nodup :=
  hs.made_perm.nodup_iff.mpr hs.nodup_seen

theorem Pass.mem_made (hs : Pass plan bound s) (hn : n ∈ s.frontier.items) : n ∈ made plan s :=
  hs.made_perm.mem_iff.mpr (List.mem_append_right _ hn)

theorem Pass.nodup_made_append (hs : Pass plan bound s) (hn : n ∈ s.frontier.items) :
    (made plan s ++ plan.problem.offspring n).Nodup :=
  hs.nodup_made.append (plan.problem.nodup_offspring n) fun _ hold hm =>
    hs.fresh_of_child hs.nodup_seen hn hm (hs.made_perm.mem_iff.mp hold)

section Global

variable (hinformed : plan.strategy = .astar ∨ plan.strategy = .greedy)
  (hdiscipline : plan.discipline = .global)

include hinformed hdiscipline

theorem Pass.ranked_items (hs : Pass plan bound s) {e : Entry (Node σ Int) Int}
    {rest : Frontier (Node σ Int) Int} (hfront : s.frontier.toList = e :: rest.toList) :
    Ranked plan rest.toList rest.items := by
  obtain ⟨items, ranked⟩ := hs.ranked_rest hinformed hdiscipline hfront
  exact ranked.items_eq ▸ ranked

/-- In a pass under a global ordering the nodes wait by their evaluations, and by their creation
where these are equal. -/
theorem Pass.pairwise_sooner (hs : Pass plan bound s) :
    s.frontier.items.Pairwise (Sooner plan (made plan s)) := by
  induction hs with
  | start s => exact List.pairwise_singleton _ _
  | @turn s t hs hturn ih =>
      have htail : ∀ n (rest : Frontier (Node σ Int) Int), Takes plan s n rest.toList t →
          rest.items.Pairwise (Sooner plan (made plan s)) := by
        intro n rest takes
        obtain ⟨key, hfront⟩ := takes.front
        exact (Frontier.pairwise_of_front hfront ih).2
      cases turn_of_running hturn with
      | skipped n rest takes _ hfrontier _ hexpanded =>
          rw [hfrontier, made, hexpanded]
          exact htail n rest takes
      | expanded n rest takes _ _ _ hqueue _ hexpanded =>
          obtain ⟨key, hfront⟩ := takes.front
          have hlist := (hs.ranked_items hinformed hdiscipline hfront).toList_of_queue? hinformed
            hdiscipline hqueue
          rw [Frontier.items, hlist, Plan.items_keyed, made_of_expanded hexpanded]
          exact pairwise_sooner_insert (htail n rest takes)
            fun m hm => hs.mem_made (takes.mem_items.2 m hm)

theorem Pass.ranked_of_tested (hs : Pass plan bound s) (htested : s.tested ≠ []) :
    Ranked plan s.frontier.toList s.frontier.items := by
  cases hs with
  | start s => exact absurd rfl htested
  | turn hs hturn =>
      cases turn_of_running hturn with
      | skipped n rest takes _ hfrontier =>
          obtain ⟨key, hfront⟩ := takes.front
          rw [hfrontier]
          exact hs.ranked_items hinformed hdiscipline hfront
      | expanded n rest takes _ _ _ hqueue =>
          obtain ⟨key, hfront⟩ := takes.front
          obtain ⟨items, ranked⟩ :=
            (hs.ranked_items hinformed hdiscipline hfront).queue hinformed hdiscipline hqueue
          exact ranked.items_eq ▸ ranked

/-- Once the root is taken, every node waits beside its evaluation; a higher one, or the same and a
later creation, waits behind. -/
theorem Pass.keyed_sooner (hs : Pass plan bound s) (htested : s.tested ≠ []) :
    (∀ e ∈ s.frontier.toList, ∃ k, plan.evaluate e.item = .ok k ∧ e.key = some k) ∧
      s.frontier.toList.Pairwise fun d e => ∃ k l, d.key = some k ∧ e.key = some l ∧
        (k < l ∨ k = l ∧ StandsBefore (made plan s) d.item e.item) := by
  have ranked := hs.ranked_of_tested hinformed hdiscipline htested
  rw [ranked.entries]
  constructor
  · intro e he
    obtain ⟨m, hm, rfl⟩ := List.mem_map.mp he
    exact ⟨plan.score m, ranked.evaluate m hm, rfl⟩
  · rw [List.pairwise_map]
    refine (hs.pairwise_sooner hinformed hdiscipline).imp ?_
    exact fun hab => ⟨_, _, rfl, rfl, hab⟩

/-- The node at the front has the least evaluation, and of those that share it was made first. -/
theorem Pass.front_sooner (hestimated : plan.problem.IsEstimated) (hs : Pass plan bound s)
    {e : Entry (Node σ Int) Int} {rest : Frontier (Node σ Int) Int}
    (hfront : s.frontier.toList = e :: rest.toList) :
    ∀ m ∈ rest.items, ∃ k l, plan.evaluate e.item = .ok k ∧ plan.evaluate m = .ok l ∧
      (k < l ∨ k = l ∧ StandsBefore (made plan s) e.item m) := by
  intro m hm
  have hwaiting := hs.ledger.waiting
  rw [Frontier.items_of_front hfront] at hwaiting
  have hfirst := (Frontier.pairwise_of_front hfront (hs.pairwise_sooner hinformed hdiscipline)).1
  exact ⟨plan.score e.item, plan.score m,
    Plan.evaluate_of_isEstimated hestimated (hwaiting e.item List.mem_cons_self),
    Plan.evaluate_of_isEstimated hestimated (hwaiting m (List.mem_cons_of_mem _ hm)),
    hfirst m hm⟩

/-- The children of the front find their places among what is left, whether or not the turn goes
on to queue them. -/
theorem Pass.exists_inserts (hestimated : plan.problem.IsEstimated) (hs : Pass plan bound s)
    {e : Entry (Node σ Int) Int} {rest : Frontier (Node σ Int) Int}
    (hfront : s.frontier.toList = e :: rest.toList) :
    ∃ f, Inserts plan rest (plan.problem.offspring e.item) f := by
  have hitem : e.item ∈ s.frontier.items := Frontier.mem_items_of_front hfront
  refine (hs.ranked_items hinformed hdiscipline hfront).exists_inserts
    (Frontier.pairwise_of_front hfront (hs.pairwise_sooner hinformed hdiscipline)).2
    (fun m hm => ?_) (hs.nodup_made_append hitem) fun m hm => ?_
  · apply hs.mem_made
    rw [Frontier.items_of_front hfront]
    exact List.mem_cons_of_mem _ hm
  · obtain ⟨position, hchild⟩ := Problem.mem_offspring_iff.mp hm
    exact Plan.evaluate_of_isEstimated hestimated ((hs.ledger.waiting e.item hitem).child hchild)

end Global

/-- **A global ordering is a priority queue.** At every head of the loop of an informed run the nodes
that wait were made in the pass under way, each once. Once the root is taken each waits beside its
evaluation, in the order of these, and of creation where they are equal; so the front is the node of
least evaluation that was made first. The sorted batch of its children finds a key wherever it looks
for one, and what waits after its insertion is what a stable sort makes of the old frontier followed
by the children in the order of the rules. -/
theorem serves_least_of_global (hinformed : plan.strategy = .astar ∨ plan.strategy = .greedy)
    (hdiscipline : plan.discipline = .global) (hallowance : start.allowance = none)
    (hpriced : plan.problem.IsPriced) (hestimated : plan.problem.IsEstimated) (turns : Nat) :
    (∀ t fault, start.run plan turns ≠ .broken t fault) ∧
    ∀ s, start.run plan turns = .running s →
      (made plan s).Nodup ∧ (∀ n ∈ s.frontier.items, n ∈ made plan s) ∧
      (s.tested ≠ [] →
        (∀ e ∈ s.frontier.toList, ∃ k, plan.evaluate e.item = .ok k ∧ e.key = some k) ∧
        s.frontier.toList.Pairwise fun d e => ∃ k l, d.key = some k ∧ e.key = some l ∧
          (k < l ∨ k = l ∧ StandsBefore (made plan s) d.item e.item)) ∧
      ∀ e rest, s.frontier.popFront? = some (e, rest) →
        (∀ m ∈ rest.items, ∃ k l, plan.evaluate e.item = .ok k ∧ plan.evaluate m = .ok l ∧
          (k < l ∨ k = l ∧ StandsBefore (made plan s) e.item m)) ∧
        ∃ f, Inserts plan rest (plan.problem.offspring e.item) f ∧
          ∀ t, s.turn plan = .running t →
            t.expanded = s.expanded ∧ t.frontier = rest ∨
              t.expanded = e.item :: s.expanded ∧ t.frontier = f := by
  refine ⟨fun t fault => (unbroken_of_estimated hallowance hpriced hestimated).ne_broken turns,
    fun s hrun => ?_⟩
  obtain ⟨before, -, hs⟩ := (run_of_running hrun).exists_pass
  refine ⟨hs.nodup_made, fun n hn => hs.mem_made hn, hs.keyed_sooner hinformed hdiscipline,
    fun e rest hpop => ?_⟩
  have hfront := Frontier.toList_of_popFront? hpop
  obtain ⟨f, inserts⟩ := hs.exists_inserts hinformed hdiscipline hestimated hfront
  refine ⟨hs.front_sooner hinformed hdiscipline hestimated hfront, f, inserts, fun t hturn => ?_⟩
  obtain ⟨e', rest', hpop', -, hends⟩ := exists_of_turn_running hturn
  obtain ⟨rfl, rfl⟩ := Prod.mk.inj (Option.some.inj (hpop'.symm.trans hpop))
  rcases hends with ⟨rfl, -⟩ | ⟨-, -, hexpand⟩
  · exact Or.inl ⟨rfl, rfl⟩
  · obtain ⟨paid, g, hpaid, -, hqueue, rfl⟩ := expand_eq_running_iff.mp hexpand
    obtain ⟨allowance, rfl, -⟩ := eq_of_pay? hpaid
    exact Or.inr ⟨expanded_queued, inserts.eq_of_queue? hinformed hdiscipline hqueue⟩

/-- After 1 is expanded, 2 waits before 3, which was made first but is said to be farther away. -/
theorem serves_least_signposted :
    ∃ s e rest, (fresh : Search Int Int).run ⟨signposted, .astar, .global⟩ 1 = .running s ∧
      s.frontier.popFront? = some (e, rest) ∧ s.tested ≠ [] ∧
      s.frontier.items.map Node.state = [2, 3] ∧
      (made ⟨signposted, .astar, .global⟩ s).map Node.state = [1, 3, 2] ∧
      s.frontier.toList.Pairwise (fun d e => ∃ k l, d.key = some k ∧ e.key = some l ∧
        (k < l ∨ k = l ∧ StandsBefore (made ⟨signposted, .astar, .global⟩ s) d.item e.item)) ∧
      ∃ f, Inserts ⟨signposted, .astar, .global⟩ rest (signposted.offspring e.item) f := by
  obtain ⟨s, e, rest, hrun, hpop, htested, hitems, hmade⟩ :
      ∃ s e rest, (fresh : Search Int Int).run ⟨signposted, .astar, .global⟩ 1 = .running s ∧
        s.frontier.popFront? = some (e, rest) ∧ s.tested ≠ [] ∧
        s.frontier.items.map Node.state = [2, 3] ∧
        (made ⟨signposted, .astar, .global⟩ s).map Node.state = [1, 3, 2] := by
    simp [run, beginRun, reset, fresh, beginPass, Plan.askInitial, signposted, Plan.boundAfter,
      Strategy.isIterative, unbounded, Progress.after, advance, turn, isBeyond?_int, isWithin_int,
      pop, record, Plan.askGoal, explode, admits, isBest_int, expand, close, count, pay?,
      Closed.put_eq_insert, enqueue, insertAll, made, tested, expanded, recent, Event.isStart,
      Event.tested?, Event.expanded?, Plan.askRules, Plan.childrenFrom, Plan.askBatch,
      Plan.entries?, Plan.askEvaluations, Plan.askEvaluation, Plan.askEstimate, Except.map, bind,
      Except.bind, stableSort, insertBehind, Sorting.halve?, Frontier.notAbove,
      Frontier.insertOrdered?, Frontier.popFront?, Frontier.items, Frontier.pushBack,
      Frontier.empty, Frontier.ofList, Frontier.toList, Node.depth, Node.state, Node.cost,
      Value.toPrice?, Rule.unit, Rule.fixed, Doubling.evens, Doubling.evenRules, Doubling.within]
    rfl
  have hprice : signposted.HasPrice 1 := Problem.hasPrice_of_evenRules rfl
  obtain ⟨-, hheads⟩ := @serves_least_of_global Int _ _ ⟨signposted, .astar, .global⟩ fresh
    (Or.inl rfl) rfl rfl hprice.isPriced isConsistent_signposted.estimated 1
  obtain ⟨-, -, hkeyed, hserves⟩ := hheads s hrun
  obtain ⟨-, f, inserts, -⟩ := hserves e rest hpop
  exact ⟨s, e, rest, hrun, hpop, htested, hitems, hmade, (hkeyed htested).2, f, inserts⟩

end Search

end StateSpace
