import StateSpace.Proofs.Passes

/-!
# The frontier under a global ordering

Once the root is taken, every node waits beside its own score and no node waits before one that
scores less. So the node that is taken is one of least score.
-/
namespace StateSpace.Search

section Ranked

variable {σ : Type} {plan : Plan σ Int} {e : Entry (Node σ Int) Int}
  {rest : List (Entry (Node σ Int) Int)} {items : List (Node σ Int)}

/-- These nodes are keyed by their scores and sorted by them; no evaluation of them breaks. -/
structure Ranked (plan : Plan σ Int) (entries : List (Entry (Node σ Int) Int))
    (items : List (Node σ Int)) : Prop where
  entries : entries = items.map plan.keyed
  sorted : items.Pairwise fun a b => plan.score a ≤ plan.score b
  evaluate : ∀ n ∈ items, plan.evaluate n = .ok (plan.score n)

theorem Ranked.tail (ranked : Ranked plan (e :: rest) items) :
    ∃ later, items = e.item :: later ∧ Ranked plan rest later := by
  cases items with
  | nil =>
      have := ranked.entries
      simp at this
  | cons m later =>
      obtain ⟨rfl, hrest⟩ := List.cons.inj ranked.entries
      refine ⟨later, rfl, hrest, (List.pairwise_cons.mp ranked.sorted).2, fun n hn => ?_⟩
      exact ranked.evaluate n (List.mem_cons_of_mem _ hn)

/-- No node scores less than the one that stands in front of a ranked frontier. -/
theorem Ranked.score_le (ranked : Ranked plan (e :: rest) items) :
    ∀ m ∈ items, plan.score e.item ≤ plan.score m := by
  obtain ⟨later, rfl, -⟩ := ranked.tail
  intro m hm
  rcases List.mem_cons.mp hm with rfl | hm
  · exact le_refl _
  · exact (List.pairwise_cons.mp ranked.sorted).1 m hm

/-- What waits behind the root alone, or in a ranked frontier, is ranked. -/
theorem ranked_of_cons {root : Node σ Int}
    (hentries : (e :: rest).map (·.item) = [root] ∨ ∃ items, Ranked plan (e :: rest) items) :
    ∃ items, Ranked plan rest items := by
  rcases hentries with hroot | ⟨items, ranked⟩
  · obtain rfl : rest = [] := List.map_eq_nil_iff.mp (List.cons.inj hroot).2
    exact ⟨[], rfl, List.Pairwise.nil, fun n hn => by cases hn⟩
  · obtain ⟨later, -, hlater⟩ := ranked.tail
    exact ⟨later, hlater⟩

/-- Queueing children keeps a frontier ranked. -/
theorem Ranked.queue {f f' : Frontier (Node σ Int) Int} {nodes : List (Node σ Int)}
    (hinformed : plan.strategy = .astar ∨ plan.strategy = .greedy)
    (hdiscipline : plan.discipline = .global) (ranked : Ranked plan f.toList items)
    (hqueue : plan.queue? f nodes = some f') :
    ∃ later, Ranked plan f'.toList later := by
  obtain ⟨heval, harrange⟩ := (Plan.queue?_informed hinformed).mp hqueue
  rw [Plan.arrange?, hdiscipline] at harrange
  obtain ⟨g, hg, hlist⟩ := Plan.foldlM_insertOrdered?_keyed ranked.entries ranked.sorted
    (plan.ranked nodes)
  obtain rfl := Option.some.inj (hg.symm.trans harrange)
  refine ⟨_, hlist, pairwise_foldl_insertBehind ranked.sorted, fun n hn => ?_⟩
  have hperm := foldl_insertBehind_perm (belowBy plan.score) (plan.ranked nodes) items
  rcases List.mem_append.mp (hperm.mem_iff.mp hn) with hold | hnew
  · exact ranked.evaluate n hold
  · exact heval n ((Plan.ranked_perm nodes).mem_iff.mp hnew)

end Ranked

variable {σ : Type} [DecidableEq σ] [Hashable σ] {plan : Plan σ Int} {bound : Int}
  {s : Search σ Int}

/-- In a pass under a global ordering the root waits alone, or the frontier is ranked. -/
theorem Pass.ranked (hinformed : plan.strategy = .astar ∨ plan.strategy = .greedy)
    (hdiscipline : plan.discipline = .global) (hs : Pass plan bound s) :
    s.frontier.items = [.root plan.problem.initial 0] ∨
      ∃ items, Ranked plan s.frontier.toList items := by
  induction hs with
  | start s => exact Or.inl rfl
  | @turn s t hs hturn ih =>
      have htail : ∀ n rest, Takes plan s n rest t → ∃ items, Ranked plan rest items := by
        intro n rest takes
        obtain ⟨key, hfront⟩ := takes.front
        rw [Frontier.items, hfront] at ih
        exact ranked_of_cons ih
      cases turn_of_running hturn with
      | skipped n rest takes _ hfrontier =>
          rw [hfrontier]
          exact Or.inr (htail n _ takes)
      | expanded n rest takes _ _ _ hqueue =>
          obtain ⟨items, ranked⟩ := htail n _ takes
          exact Or.inr (ranked.queue hinformed hdiscipline hqueue)

theorem Pass.ranked_rest (hinformed : plan.strategy = .astar ∨ plan.strategy = .greedy)
    (hdiscipline : plan.discipline = .global) (hs : Pass plan bound s)
    {e : Entry (Node σ Int) Int} {rest : List (Entry (Node σ Int) Int)}
    (hfront : s.frontier.toList = e :: rest) : ∃ items, Ranked plan rest items := by
  have hranked := hs.ranked hinformed hdiscipline
  rw [Frontier.items, hfront] at hranked
  exact ranked_of_cons hranked

/-- No node that waits scores less than the one at the front. -/
theorem Pass.score_front_le (hinformed : plan.strategy = .astar ∨ plan.strategy = .greedy)
    (hdiscipline : plan.discipline = .global) (hs : Pass plan bound s) {n : Node σ Int}
    {key : Option Int} {rest : List (Entry (Node σ Int) Int)}
    (hfront : s.frontier.toList = ⟨n, key⟩ :: rest) :
    ∀ m ∈ s.frontier.items, plan.score n ≤ plan.score m := by
  intro m hm
  rcases hs.ranked hinformed hdiscipline with hroot | ⟨items, ranked⟩
  · have hn := Frontier.mem_items_of_front hfront
    rw [hroot] at hn hm
    rw [List.mem_singleton.mp hn, List.mem_singleton.mp hm]
  · rw [Frontier.items, ranked.entries, Plan.items_keyed] at hm
    rw [hfront] at ranked
    exact ranked.score_le m hm

end StateSpace.Search
