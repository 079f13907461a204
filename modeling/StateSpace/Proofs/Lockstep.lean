import StateSpace.Proofs.Breadth
import StateSpace.Proofs.MixedPrices

/-!
# A* without information

Where every step asks one price and every estimate is one number, scores go by depth alone. The
frontier of a breadth-first pass is ordered by depth, so a batch of children is sorted as it stands
and belongs behind all that waits; and no node is cheaper than one of its state that was expanded
before it. So an A* search, under either ordering, takes the same nodes as a breadth-first one and
queues the same children in the same places. The two differ only in the keys beside the nodes and in
the estimates on record.
-/
namespace StateSpace

/-! ### Sorting what is sorted -/

section Sorting

variable {α : Type} {key : α → Int} {x : α} {xs ys : List α}

theorem insertBehind_eq_concat (hle : ∀ y ∈ xs, key y ≤ key x) :
    insertBehind (belowBy key) x xs = xs ++ [x] := by
  induction xs with
  | nil => rfl
  | cons y ys ih =>
      obtain ⟨hy, hys⟩ := List.forall_mem_cons.mp hle
      have hless : belowBy key x y = false := decide_eq_false (not_lt.mpr hy)
      rw [insertBehind, hless, ih hys]
      rfl

theorem foldl_insertBehind_eq_append (hsorted : (xs ++ ys).Pairwise fun a b => key a ≤ key b) :
    ys.foldl (fun sorted y => insertBehind (belowBy key) y sorted) xs = xs ++ ys := by
  induction ys generalizing xs with
  | nil => rw [List.foldl_nil, List.append_nil]
  | cons y ys ih =>
      have hy : ∀ x ∈ xs, key x ≤ key y :=
        fun x hx => (List.pairwise_append.mp hsorted).2.2 x hx y List.mem_cons_self
      rw [List.append_cons] at hsorted ⊢
      rw [List.foldl_cons, insertBehind_eq_concat hy, ih hsorted]

theorem stableSort_eq_self (hsorted : xs.Pairwise fun a b => key a ≤ key b) :
    stableSort (belowBy key) xs = xs :=
  @foldl_insertBehind_eq_append α key [] xs hsorted

end Sorting

namespace Frontier

variable {α κ : Type} {f g : Frontier α κ}

theorem size_eq_of_items (hitems : f.items = g.items) : f.size = g.size := by
  have hlength := congrArg List.length hitems
  rwa [items, items, List.length_map, List.length_map, length_toList, length_toList] at hlength

/-- Frontiers of the same items are both empty, or have the same item in front of the same ones. -/
theorem popFront?_of_items (hitems : f.items = g.items) :
    (f.popFront? = none ∧ g.popFront? = none) ∨
      ∃ e f' e' g', f.popFront? = some (e, f') ∧ g.popFront? = some (e', g') ∧
        e.item = e'.item ∧ f'.items = g'.items := by
  cases hf : f.popFront? with
  | none =>
      have hg : g.items = [] := by
        rw [← hitems, items, popFront?_eq_none.mp hf]
        rfl
      exact Or.inl ⟨rfl, popFront?_eq_none.mpr (List.map_eq_nil_iff.mp hg)⟩
  | some pair =>
      obtain ⟨e, f'⟩ := pair
      rw [items, toList_of_popFront? hf] at hitems
      cases hg : g.popFront? with
      | none =>
          rw [items, popFront?_eq_none.mp hg] at hitems
          cases hitems
      | some pair' =>
          obtain ⟨e', g'⟩ := pair'
          rw [items, toList_of_popFront? hg] at hitems
          obtain ⟨hitem, hrest⟩ := List.cons.inj hitems
          exact Or.inr ⟨e, f', e', g', rfl, rfl, hitem, hrest⟩

end Frontier

/-- Within reach all estimates are one number. -/
def Problem.IsUninformed {σ : Type} (p : Problem σ Int) : Prop :=
  ∃ h, ∀ s, p.Reaches s → p.estimate s = .ok h

theorem Problem.isUninformed_of_heuristic {σ : Type} {p : Problem σ Int}
    (hheuristic : p.heuristic = none ∨ p.heuristic = some (fun _ => .ok none) ∨
      ∃ h, p.heuristic = some fun _ => .ok (some h)) : p.IsUninformed := by
  rcases hheuristic with hnone | hnone | ⟨h, hsome⟩
  · exact ⟨0, fun s _ => by rw [estimate, hnone]; rfl⟩
  · exact ⟨0, fun s _ => by rw [estimate, hnone]; rfl⟩
  · exact ⟨h, fun s _ => by rw [estimate, hsome]; rfl⟩

namespace Plan

variable {σ : Type} {plan : Plan σ Int}

/-- Where what waits and the nodes behind it stand in the order of their scores, the nodes are
queued behind it as they stand. -/
theorem queue?_of_ascending (hinformed : plan.strategy = .astar ∨ plan.strategy = .greedy)
    {f : Frontier (Node σ Int) Int} {nodes : List (Node σ Int)}
    (hranked : plan.discipline = .global → ∃ items, Search.Ranked plan f.toList items)
    (heval : ∀ n ∈ nodes, plan.evaluate n = .ok (plan.score n))
    (hascending : (f.items ++ nodes).Pairwise fun a b => plan.score a ≤ plan.score b) :
    ∃ f', plan.queue? f nodes = some f' ∧ f'.items = f.items ++ nodes := by
  have hself : plan.ranked nodes = nodes :=
    stableSort_eq_self (List.pairwise_append.mp hascending).2.1
  suffices harrange : ∃ f', plan.arrange? f (nodes.map plan.keyed) = some f' ∧
      f'.items = f.items ++ nodes by
    obtain ⟨f', hf', hitems⟩ := harrange
    exact ⟨f', (queue?_informed hinformed).mpr ⟨heval, by rw [hself, hf']⟩, hitems⟩
  cases hdiscipline : plan.discipline with
  | batch =>
      refine ⟨_, by rw [arrange?, hdiscipline], ?_⟩
      rw [Frontier.items, Frontier.toList_foldl_pushBack, List.map_append, items_keyed]
      rfl
  | global =>
      obtain ⟨items, ranked⟩ := hranked hdiscipline
      obtain ⟨f', hf', hlist⟩ := foldlM_insertOrdered?_keyed ranked.entries ranked.sorted nodes
      refine ⟨f', by rw [arrange?, hdiscipline, hf'], ?_⟩
      have hitems : f.items = items := by rw [Frontier.items, ranked.entries, items_keyed]
      rw [hitems] at hascending ⊢
      rw [Frontier.items, hlist, items_keyed, foldl_insertBehind_eq_append hascending]

/-- Under one price and without information a deeper node does not score less. -/
theorem score_le_of_depth_le {price : Nat} {h : Int} {a b : Node σ Int}
    (hstrategy : plan.strategy = .astar) (hprice : plan.problem.HasPrice price)
    (hestimate : ∀ s, plan.problem.Reaches s → plan.problem.estimate s = .ok h)
    (ha : plan.problem.Grows a) (hb : plan.problem.Grows b) (hle : a.depth ≤ b.depth) :
    plan.score a ≤ plan.score b := by
  rw [score_astar hstrategy (hestimate a.state ha.reaches),
    score_astar hstrategy (hestimate b.state hb.reaches), ha.cost_eq hprice, hb.cost_eq hprice]
  have hmul : (price : Int) * a.depth ≤ price * b.depth := by
    exact_mod_cast Nat.mul_le_mul_left price hle
  omega

end Plan

namespace Search

variable {σ : Type} [DecidableEq σ] [Hashable σ] {plan plan' : Plan σ Int} {bound : Int}
  {start s t : Search σ Int} {n m : Node σ Int}

/-! ### Searches that differ in keys alone -/

/-- Two searches took the same nodes, wait for the same nodes in the same order, and agree on all
that they keep but for the keys of what waits and the estimates on record. -/
structure Alike (s t : Search σ Int) : Prop where
  frontier : s.frontier.items = t.frontier.items
  closed : s.closed = t.closed
  popped : s.popped = t.popped
  expansions : s.expansions = t.expansions
  solution : s.solution = t.solution
  isFinished : s.isFinished = t.isFinished
  isFailed : s.isFailed = t.isFailed
  passes : s.passes = t.passes
  depthBound : s.depthBound = t.depthBound
  boundHit : s.boundHit = t.boundHit
  peak : s.peak = t.peak
  allowance : s.allowance = t.allowance

/-- Both runs go on, or both have ended, or both were broken off for the same reason, with searches
that differ in keys alone. -/
inductive InStep : Progress σ Int → Progress σ Int → Prop where
  | running {s t : Search σ Int} (alike : Alike s t) : InStep (.running s) (.running t)
  | ended {s t : Search σ Int} (alike : Alike s t) : InStep (.ended s) (.ended t)
  | broken {s t : Search σ Int} (fault : Fault σ) (alike : Alike s t) :
      InStep (.broken s fault) (.broken t fault)

theorem InStep.alike {q r : Progress σ Int} (hstep : InStep q r) : Alike q.search r.search := by
  cases hstep with
  | running alike => exact alike
  | ended alike => exact alike
  | broken fault alike => exact alike

theorem Alike.refl (s : Search σ Int) : Alike s s :=
  ⟨rfl, rfl, rfl, rfl, rfl, rfl, rfl, rfl, rfl, rfl, rfl, rfl⟩

section Operations

variable (alike : Alike s t)

include alike

theorem Alike.beginPass (hproblem : plan'.problem = plan.problem) :
    Alike (s.beginPass plan bound) (t.beginPass plan' bound) := by
  refine
    { alike with
      frontier := ?_
      closed := rfl
      passes := ?_
      depthBound := rfl
      boundHit := rfl
      peak := rfl }
  · simp [Search.beginPass, Plan.askInitial, Frontier.items, hproblem]
  · exact congrArg (· + 1) alike.passes

theorem Alike.drain : Alike s.drain t.drain := by
  refine { alike with isFinished := ?_, isFailed := ?_ }
  · show (s.isFinished || !s.boundHit) = (t.isFinished || !t.boundHit)
    rw [alike.isFinished, alike.boundHit]
  · show (s.isFailed || !s.boundHit) = (t.isFailed || !t.boundHit)
    rw [alike.isFailed, alike.boundHit]

theorem Alike.conclude : Alike s.conclude t.conclude := { alike with }

theorem Alike.succeed (n : Node σ Int) : Alike (s.succeed n) (t.succeed n) :=
  { alike with solution := rfl, isFinished := rfl }

theorem Alike.commit (n : Node σ Int) : Alike (s.commit n) (t.commit n) where
  frontier := alike.frontier
  closed := congrArg (Closed.put · n.state n.cost) alike.closed
  popped := alike.popped
  expansions := congrArg (· + 1) alike.expansions
  solution := alike.solution
  isFinished := alike.isFinished
  isFailed := alike.isFailed
  passes := alike.passes
  depthBound := alike.depthBound
  boundHit := alike.boundHit
  peak := alike.peak
  allowance := alike.allowance

theorem Alike.take (n : Node σ Int) (isBeyond : Bool) {rest rest' : Frontier (Node σ Int) Int}
    (hrest : rest.items = rest'.items) :
    Alike (s.take plan n isBeyond rest) (t.take plan' n isBeyond rest') := by
  refine { alike with frontier := hrest, popped := ?_, boundHit := ?_, peak := ?_ }
  · exact congrArg (n :: ·) alike.popped
  · exact congrArg (· || isBeyond) alike.boundHit
  · exact congrArg₂ max alike.peak (Frontier.size_eq_of_items alike.frontier)

theorem Alike.pay? :
    (s.pay? = none ∧ t.pay? = none) ∨
      ∃ u v, s.pay? = some u ∧ t.pay? = some v ∧ Alike u v ∧ u.frontier = s.frontier ∧
        v.frontier = t.frontier := by
  unfold Search.pay?
  rw [← alike.allowance]
  match s.allowance with
  | none => exact Or.inr ⟨s, t, rfl, rfl, alike, rfl, rfl⟩
  | some 0 => exact Or.inl ⟨rfl, rfl⟩
  | some (left + 1) => exact Or.inr ⟨_, _, rfl, rfl, { alike with allowance := rfl }, rfl, rfl⟩

theorem Alike.enqueue {nodes : List (Node σ Int)} {f f' : Frontier (Node σ Int) Int}
    (hqueue : plan.queue? s.frontier nodes = some f)
    (hqueue' : plan'.queue? t.frontier nodes = some f') (hitems : f.items = f'.items) :
    InStep (s.enqueue plan nodes) (t.enqueue plan' nodes) := by
  rw [enqueue_eq_running_iff.mpr ⟨f, hqueue, rfl⟩, enqueue_eq_running_iff.mpr ⟨f', hqueue', rfl⟩]
  refine .running { alike with frontier := hitems, popped := ?_ }
  simp only [Search.popped, List.filterMap_append,
    Plan.filterMap_inquiries (f := Event.tested?) fun _ _ => rfl, List.nil_append]
  exact alike.popped

/-- Both searches can queue these nodes, and then wait for the same nodes in the same order. -/
def QueuesAlike (plan plan' : Plan σ Int) (f f' : Frontier (Node σ Int) Int)
    (nodes : List (Node σ Int)) : Prop :=
  ∃ g g', plan.queue? f nodes = some g ∧ plan'.queue? f' nodes = some g' ∧ g.items = g'.items

variable (hproblem : plan'.problem = plan.problem)

include hproblem

theorem Alike.expand
    (hqueue : QueuesAlike plan plan' s.frontier t.frontier (plan.problem.offspring n)) :
    InStep (s.expand plan n) (t.expand plan' n) := by
  have hchildren : plan'.children n = plan.children n := by
    rw [Plan.children, Plan.children, Plan.askRules, Plan.askRules, hproblem]
  rw [expand_eq, expand_eq]
  rcases (alike.commit n).pay? with ⟨hnone, hnone'⟩ | ⟨u, v, hu, hv, hpaid, hfrontier, hfrontier'⟩
  · rw [hnone, hnone']
    exact .broken .exhausted (alike.commit n)
  · rw [hu, hv, hchildren]
    cases hnodes : plan.children n with
    | error fault => exact .broken fault hpaid
    | ok nodes =>
        obtain ⟨-, rfl⟩ := Plan.children_eq_ok_iff.mp hnodes
        obtain ⟨f, f', hf, hf', hitems⟩ := hqueue
        refine hpaid.enqueue ?_ ?_ hitems
        · rw [hfrontier]
          exact hf
        · rw [hfrontier']
          exact hf'

/-- Turns of two searches are in step if both admit the front alike and can queue its children
alike. -/
theorem Alike.turn
    (hfront : ∀ e rest e' rest', s.frontier.popFront? = some (e, rest) →
      t.frontier.popFront? = some (e', rest') → e.item = e'.item →
      plan.problem.isGoal e.item.state = false →
        s.isAdmitted plan.strategy e.item = t.isAdmitted plan'.strategy e.item ∧
          QueuesAlike plan plan' rest rest' (plan.problem.offspring e.item)) :
    InStep (s.turn plan) (t.turn plan') := by
  rcases Frontier.popFront?_of_items alike.frontier with
    ⟨hnone, hnone'⟩ | ⟨e, rest, e', rest', hpop, hpop', hitem, hrest⟩
  · rw [Search.turn, Search.turn, hnone, hnone']
    exact .ended alike.drain
  · have htaken : Alike (s.take plan e.item (decide (s.depthBound < e.item.depth)) rest)
        (t.take plan' e.item (decide (s.depthBound < e.item.depth)) rest') :=
      alike.take e.item _ hrest
    rw [turn_eq hpop, turn_eq hpop', ← hitem, ← alike.depthBound, hproblem]
    simp only
    split
    · exact .ended (htaken.succeed e.item)
    · next hgoal =>
      obtain ⟨hadmitted, hqueue⟩ :=
        hfront e rest e' rest' hpop hpop' hitem (Bool.eq_false_iff.mpr hgoal)
      split
      · rw [explode_eq, explode_eq]
        -- Taking a node leaves the closed map as it is, so admission does not change.
        change InStep (if s.isAdmitted plan.strategy e.item = true then _ else _)
          (if t.isAdmitted plan'.strategy e.item = true then _ else _)
        rw [← hadmitted]
        split
        · exact htaken.expand hproblem hqueue
        · exact .running htaken
      · exact .running htaken

end Operations

/-! ### Runs in step -/

theorem InStep.advance (hproblem : plan'.problem = plan.problem)
    (hbound : ∀ passes, plan'.boundAfter passes = plan.boundAfter passes)
    (hturn : InStep (s.turn plan) (t.turn plan')) :
    InStep (s.advance plan) (t.advance plan') := by
  rw [Search.advance, Search.advance]
  revert hturn
  generalize s.turn plan = q
  generalize t.turn plan' = r
  intro hturn
  cases hturn with
  | running alike => exact .running alike
  | broken fault alike => exact .broken fault alike
  | @ended u v alike =>
      simp only [← alike.isFinished]
      split
      · exact .ended alike.conclude
      · rw [hbound, ← alike.passes]
        exact .running (alike.beginPass hproblem)

theorem Run.advance (hs : Run plan start s) (hadvance : s.advance plan = .running t) :
    Run plan start t := by
  have hmoment := hs.moment 1
  rw [Progress.after, Progress.after, hadvance] at hmoment
  cases hmoment with
  | running ht => exact ht

/-- Two runs stay in step if any two turns of them are in step where they are. -/
theorem inStep_run (hproblem : plan'.problem = plan.problem)
    (hbound : ∀ passes, plan'.boundAfter passes = plan.boundAfter passes)
    (hturn : ∀ s t, Run plan start s → Run plan' start t → Alike s t →
      InStep (s.turn plan) (t.turn plan')) (turns : Nat) :
    InStep (start.run plan turns) (start.run plan' turns) := by
  suffices hafter : ∀ s t, Run plan start s → Run plan' start t → Alike s t →
      InStep (Progress.after (advance plan) turns (.running s))
        (Progress.after (advance plan') turns (.running t)) by
    refine hafter _ _ .start .start ?_
    rw [beginRun, beginRun, hbound]
    exact (Alike.refl _).beginPass hproblem
  induction turns with
  | zero =>
      intro s t _ _ alike
      exact .running alike
  | succ turns ih =>
      intro s t hs ht alike
      rw [Progress.after, Progress.after]
      have hadvance := (hturn s t hs ht alike).advance hproblem hbound
      generalize hq : s.advance plan = q at hadvance
      generalize hr : t.advance plan' = r at hadvance
      cases hadvance with
      | running alike => exact ih _ _ (hs.advance hq) (ht.advance hr) alike
      | ended alike => cases turns <;> exact .ended alike
      | broken fault alike => cases turns <;> exact .broken fault alike

/-! ### Breadth first -/

section Breadth

variable (hstrategy : plan.strategy = .bfs)

include hstrategy

/-- Breadth first a node waits no deeper than those behind it and the children of the front. -/
theorem Pass.pairwise_depth (hs : Pass plan bound s) {rest : List (Entry (Node σ Int) Int)}
    (takes : Takes plan s n rest t) :
    (rest.map (·.item) ++ plan.problem.offspring n).Pairwise fun a b => a.depth ≤ b.depth := by
  have order := hs.levelOrder hstrategy
  have hn := hs.ledger.waiting n takes.mem_items.1
  have hrest : ∀ m ∈ rest.map (·.item), plan.problem.Grows m :=
    fun m hm => hs.ledger.waiting m (takes.mem_items.2 m hm)
  have hchild : ∀ m ∈ plan.problem.offspring n, m.depth = n.depth + 1 := by
    intro m hm
    obtain ⟨position, hchild⟩ := Problem.mem_offspring_iff.mp hm
    exact Problem.depth_of_child? hchild
  obtain ⟨-, -, hsorted⟩ := order.of_takes takes
  rw [List.pairwise_append]
  refine ⟨hsorted.imp_of_mem fun {a b} ha hb hword => ?_, ?_, ?_⟩
  · exact Problem.depth_le_of_word (hrest a ha) (hrest b hb) (Or.inr hword)
  · refine List.pairwise_of_forall_mem_list fun a ha b hb => ?_
    rw [hchild a ha, hchild b hb]
  · intro a ha b hb
    obtain ⟨position, hb⟩ := Problem.mem_offspring_iff.mp hb
    have hword := order.before_children hs.ledger takes ha position
    rw [← Problem.positions_of_child? hb] at hword
    exact Problem.depth_le_of_word (hrest a ha) (hn.child hb) (Or.inr hword)

/-- Breadth first under one price, no node is cheaper than one of its state that was expanded. -/
theorem Pass.closed_le_cost {price : Nat} (hprice : plan.problem.HasPrice price)
    (hs : Pass plan bound s) (hn : n ∈ s.frontier.items) {best : Int}
    (hbest : s.closed[n.state]? = some best) : best ≤ n.cost := by
  obtain ⟨g, hg, -, rfl⟩ := hs.ledger.expanded_of_closed _ best hbest
  have hggrows := hs.ledger.grows_of_expanded hg
  have hngrows := hs.ledger.waiting n hn
  have hword := (hs.levelOrder hstrategy).tested g (hs.ledger.expanded g hg).1 n hn
  have hdepth := Problem.depth_le_of_word hggrows hngrows (Or.inr hword)
  rw [hggrows.cost_eq hprice, hngrows.cost_eq hprice]
  exact_mod_cast Nat.mul_le_mul_left price hdepth

end Breadth

/-- A* admits a node that is no cheaper than what is closed just where breadth-first search does. -/
theorem isAdmitted_astar_eq (hclosed : s.closed = t.closed)
    (hle : ∀ best, s.closed[n.state]? = some best → best ≤ n.cost) :
    s.isAdmitted .bfs n = t.isAdmitted .astar n := by
  unfold isAdmitted
  rw [← hclosed]
  cases hbest : s.closed[n.state]? with
  | none => rfl
  | some best => exact (decide_eq_false (not_lt.mpr (hle best hbest))).symm

/-- **Without information A\* is breadth-first search.** Where every step asks one price and every
estimate is one number, a breadth-first run and an A* run under either ordering are in step after
any number of turns, and lead to the same solution. -/
theorem inStep_of_isUninformed {p : Problem σ Int} {price : Nat} (hprice : p.HasPrice price)
    (huninformed : p.IsUninformed) (d d' : Discipline) (start : Search σ Int) (turns : Nat) :
    InStep (start.run ⟨p, .bfs, d⟩ turns) (start.run ⟨p, .astar, d'⟩ turns) ∧
      (start.run ⟨p, .bfs, d⟩ turns).search.solutionPath =
        (start.run ⟨p, .astar, d'⟩ turns).search.solutionPath := by
  obtain ⟨h, hestimate⟩ := huninformed
  have hestimated : p.IsEstimated := fun x hx => ⟨h, hestimate x hx⟩
  have hstep : InStep (start.run ⟨p, .bfs, d⟩ turns) (start.run ⟨p, .astar, d'⟩ turns) := by
    refine @inStep_run σ _ _ ⟨p, .bfs, d⟩ ⟨p, .astar, d'⟩ start rfl (fun _ => rfl)
      (fun s t hs ht alike => ?_) turns
    obtain ⟨before, -, hpass⟩ := hs.exists_pass
    obtain ⟨before', -, hpass'⟩ := ht.exists_pass
    refine alike.turn rfl fun e rest e' rest' hpop hpop' _ hgoal => ?_
    have takes := takes_take ⟨p, .bfs, d⟩ hpop hgoal
    have hn := takes.mem_items.1
    refine ⟨isAdmitted_astar_eq alike.closed
      fun best hbest => hpass.closed_le_cost rfl hprice hn hbest, ?_⟩
    have hgrows := hpass.ledger.waiting e.item hn
    have hchildren : ∀ m ∈ p.offspring e.item, p.Grows m := by
      intro m hm
      obtain ⟨position, hchild⟩ := Problem.mem_offspring_iff.mp hm
      exact hgrows.child hchild
    have hitems : rest.items = rest'.items := by
      have hsame := alike.frontier
      rw [Frontier.items, Frontier.items, Frontier.toList_of_popFront? hpop,
        Frontier.toList_of_popFront? hpop'] at hsame
      exact (List.cons.inj hsame).2
    have hascending : (rest'.items ++ p.offspring e.item).Pairwise fun a b =>
        Plan.score ⟨p, .astar, d'⟩ a ≤ Plan.score ⟨p, .astar, d'⟩ b := by
      rw [← hitems]
      refine (hpass.pairwise_depth rfl takes).imp_of_mem fun {a b} ha hb hle => ?_
      have hall : ∀ m ∈ rest.items ++ p.offspring e.item, p.Grows m := by
        intro m hm
        rcases List.mem_append.mp hm with hm | hm
        · exact hpass.ledger.waiting m (takes.mem_items.2 m hm)
        · exact hchildren m hm
      exact Plan.score_le_of_depth_le rfl hprice hestimate (hall a ha) (hall b hb) hle
    obtain ⟨f, hf, hfitems⟩ := @Plan.queue?_bfs σ ⟨p, .bfs, d⟩ rfl rest (p.offspring e.item)
    obtain ⟨f', hf', hfitems'⟩ := @Plan.queue?_of_ascending σ ⟨p, .astar, d'⟩ (Or.inl rfl)
      rest' (p.offspring e.item)
      (fun hdiscipline => hpass'.ranked_rest (Or.inl rfl) hdiscipline
        (Frontier.toList_of_popFront? hpop'))
      (fun m hm => Plan.evaluate_of_isEstimated hestimated (hchildren m hm)) hascending
    exact ⟨f, f', hf, hf', by rw [hfitems, hfitems', hitems]⟩
  refine ⟨hstep, ?_⟩
  rw [solutionPath, solutionPath, hstep.alike.solution]

theorem inStep_detour :
    (detour 0).HasPrice 0 ∧ (detour 0).IsUninformed ∧
      ∀ turns, InStep ((fresh : Search Int Int).run ⟨detour 0, .bfs, .batch⟩ turns)
        ((fresh : Search Int Int).run ⟨detour 0, .astar, .global⟩ turns) := by
  have huninformed : (detour 0).IsUninformed := Problem.isUninformed_of_heuristic (Or.inl rfl)
  exact ⟨hasPrice_detour, huninformed,
    fun turns => (inStep_of_isUninformed hasPrice_detour huninformed .batch .global fresh turns).1⟩

end Search

end StateSpace
