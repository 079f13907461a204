import StateSpace.Proofs.BatchOrdering
import StateSpace.Proofs.Replay

/-!
# No solution visits a state twice

Where there is an admission test, the way to a solution has no repeated state because a state is not
expanded again on its own way. Greedy search has no such test. There a node whose state returns
further down its way heralds the node where it returns, and whatever grows below the later node
grows below the earlier one too. Scores go by states alone and the frontier keeps the order of
equals, so that a node is taken only after all its heralds: a goal is taken before any goal that it
heralds.
-/
namespace StateSpace

/-! ### Heralds -/

namespace Problem

variable {σ : Type} {p : Problem σ Int} {a b n m : Node σ Int} {position : Nat}

/-- The first node comes before the second on its way and has its state, or both are the same child
of such nodes. -/
inductive Heralds (p : Problem σ Int) : Node σ Int → Node σ Int → Prop where
  | here {a n : Node σ Int} (hmem : a ∈ n.path.dropLast) (hstate : a.state = n.state) :
      p.Heralds a n
  | both {a n b m : Node σ Int} {position : Nat} (hheralds : p.Heralds a n)
      (hb : p.child? a position = some b) (hm : p.child? n position = some m) : p.Heralds b m

theorem state_eq_of_child? (hstate : a.state = n.state) (hb : p.child? a position = some b)
    (hm : p.child? n position = some m) : b.state = m.state := by
  obtain ⟨price, hstep, -⟩ := step?_of_child? hb
  obtain ⟨price', hstep', -⟩ := step?_of_child? hm
  rw [hstate, hstep'] at hstep
  exact (Prod.mk.inj (Option.some.inj hstep)).1.symm

theorem Heralds.state_eq (hheralds : p.Heralds a n) : a.state = n.state := by
  induction hheralds with
  | here hmem hstate => exact hstate
  | both hheralds hb hm ih => exact state_eq_of_child? ih hb hm

theorem Heralds.depth_lt (hheralds : p.Heralds a n) : a.depth < n.depth := by
  induction hheralds with
  | @here a n hmem hstate =>
      cases n with
      | root s c => simp at hmem
      | child parent via s c =>
          rw [Node.path_child, List.dropLast_concat] at hmem
          exact Nat.lt_succ_of_le (Node.depth_le_of_mem_path hmem)
  | both hheralds hb hm ih =>
      rw [depth_of_child? hb, depth_of_child? hm]
      exact Nat.succ_lt_succ ih

/-- What heralds a child lies on the way to its parent, or is a child of what heralds the parent. -/
theorem Heralds.of_child (hheralds : p.Heralds b m) (hm : p.child? n position = some m) :
    b ∈ n.path ∨ ∃ a, p.Heralds a n ∧ p.child? a position = some b := by
  cases hheralds with
  | here hmem hstate => exact Or.inl (dropLast_path_of_child? hm ▸ hmem)
  | @both a k _ _ i hheralds hb hm' =>
      obtain ⟨rule, t, price, -, -, rfl⟩ := child?_eq_some_iff.mp hm
      obtain ⟨rule', t', price', -, -, heq⟩ := child?_eq_some_iff.mp hm'
      simp only [Node.child.injEq, Option.some.injEq, Move.mk.injEq] at heq
      obtain ⟨rfl, ⟨rfl, -⟩, -⟩ := heq
      exact Or.inr ⟨a, hheralds, hb⟩

theorem Heralds.exists_both (hheralds : p.Heralds a n) (hm : p.child? n position = some m) :
    ∃ b, p.Heralds b m := by
  obtain ⟨price, hstep, -⟩ := step?_of_child? hm
  rw [← hheralds.state_eq] at hstep
  obtain ⟨b, hb, -, -⟩ := child?_isSome_of_step? hstep
  exact ⟨b, hheralds.both hb hm⟩

/-- On the way to a node without heralds no state stands twice. -/
theorem Grows.nodup_states (hn : p.Grows n) (hfirst : ∀ a, ¬p.Heralds a n) : n.states.Nodup := by
  induction hn with
  | root => exact List.nodup_singleton _
  | @child n m position hn hm ih =>
      refine m.nodup_states_iff.mpr ⟨fun a ha hstate => hfirst a (.here ha hstate), ?_⟩
      rw [dropLast_path_of_child? hm]
      refine ih fun a ha => ?_
      obtain ⟨b, hb⟩ := ha.exists_both hm
      exact hfirst b hb

/-! ### Heralded lists -/

/-- Each of these nodes stands behind all its heralds, but for those that were seen before. -/
def Heralded (p : Problem σ Int) : List (Node σ Int) → List (Node σ Int) → Prop
  | _, [] => True
  | seen, n :: later => (∀ a, p.Heralds a n → a ∈ seen) ∧ p.Heralded (n :: seen) later

variable {seen seen' front back items nodes : List (Node σ Int)}

theorem Heralded.mono (hsubset : seen ⊆ seen') (heralded : p.Heralded seen items) :
    p.Heralded seen' items := by
  induction items generalizing seen seen' with
  | nil => exact trivial
  | cons n later ih =>
      exact ⟨fun a ha => hsubset (heralded.1 a ha),
        ih (List.cons_subset_cons n hsubset) heralded.2⟩

theorem Heralded.insert (heralded : p.Heralded seen (front ++ back))
    (hn : ∀ a, p.Heralds a n → a ∈ seen ∨ a ∈ front) : p.Heralded seen (front ++ n :: back) := by
  induction front generalizing seen with
  | nil =>
      refine ⟨fun a ha => ?_, heralded.mono (List.subset_cons_self n seen)⟩
      exact (hn a ha).resolve_right List.not_mem_nil
  | cons m front ih =>
      refine ⟨heralded.1, ih heralded.2 fun a ha => ?_⟩
      rcases hn a ha with hseen | hfront
      · exact Or.inl (List.mem_cons_of_mem m hseen)
      · rcases List.mem_cons.mp hfront with rfl | hfront
        · exact Or.inl List.mem_cons_self
        · exact Or.inr hfront

theorem Heralded.append (heralded : p.Heralded seen items)
    (hnodes : ∀ n ∈ nodes, ∀ a, p.Heralds a n → a ∈ seen ∨ a ∈ items) :
    p.Heralded seen (items ++ nodes) := by
  induction nodes generalizing items with
  | nil => rwa [List.append_nil]
  | cons n nodes ih =>
      rw [List.append_cons]
      refine ih ?_ fun m hm a ha => ?_
      · rw [← List.append_nil items] at heralded
        exact heralded.insert (hnodes n List.mem_cons_self)
      · exact (hnodes m (List.mem_cons_of_mem n hm) a ha).imp_right (List.mem_append_left [n])

section Sorted

variable {key : Node σ Int → Int} (hkey : ∀ a n, p.Heralds a n → key a = key n)

include hkey

theorem Heralded.insertBehind (heralded : p.Heralded seen items)
    (hsorted : items.Pairwise fun a b => key a ≤ key b)
    (hn : ∀ a, p.Heralds a n → a ∈ seen ∨ a ∈ items) :
    p.Heralded seen (insertBehind (belowBy key) n items) := by
  rw [insertBehind_eq_append]
  rw [← List.takeWhile_append_dropWhile (p := fun m => !belowBy key n m) (l := items)] at heralded
  refine heralded.insert fun a ha => (hn a ha).imp_right fun hmem => ?_
  rw [← List.takeWhile_append_dropWhile (p := fun m => !belowBy key n m) (l := items),
    List.mem_append] at hmem
  -- A herald has the key of the node, and behind the place all keys are greater.
  refine hmem.resolve_right fun hback => ?_
  have hlt := lt_of_mem_dropWhile hsorted a hback
  rw [hkey a n ha] at hlt
  exact lt_irrefl _ hlt

theorem Heralded.foldl_insertBehind (heralded : p.Heralded seen items)
    (hsorted : items.Pairwise fun a b => key a ≤ key b)
    (hnodes : ∀ n ∈ nodes, ∀ a, p.Heralds a n → a ∈ seen ∨ a ∈ items) :
    p.Heralded seen
      (nodes.foldl (fun sorted n => StateSpace.insertBehind (belowBy key) n sorted) items) := by
  induction nodes generalizing items with
  | nil => exact heralded
  | cons n nodes ih =>
      refine ih (heralded.insertBehind hkey hsorted (hnodes n List.mem_cons_self))
        (pairwise_insertBehind hsorted) fun m hm a ha => ?_
      refine (hnodes m (List.mem_cons_of_mem n hm) a ha).imp_right fun hmem => ?_
      exact (insertBehind_perm _ n items).mem_iff.mpr (List.mem_cons_of_mem n hmem)

end Sorted

theorem grading_eq (p : Problem σ Int) : p.Grading (· = ·) where
  refl _ := rfl
  trans := Eq.trans
  child := by
    rintro a b a' b' position - - - rfl ha hb
    exact Option.some.inj (ha.symm.trans hb)

end Problem

/-! ### Greedy search -/

namespace Plan

variable {σ : Type} {plan : Plan σ Int}

theorem score_greedy {a n : Node σ Int} (hgreedy : plan.strategy = .greedy)
    (hstate : a.state = n.state) : plan.score a = plan.score n := by
  simp [score, evaluate_eq, hgreedy, hstate]

/-- Queueing keeps a frontier heralded, if all heralds of the children were seen or wait. -/
theorem heralded_queue (hgreedy : plan.strategy = .greedy) {seen nodes : List (Node σ Int)}
    {f f' : Frontier (Node σ Int) Int}
    (hranked : plan.discipline = .global → ∃ items, Search.Ranked plan f.toList items)
    (heralded : plan.problem.Heralded seen f.items)
    (hnodes : ∀ n ∈ nodes, ∀ a, plan.problem.Heralds a n → a ∈ seen ∨ a ∈ f.items)
    (hqueue : plan.queue? f nodes = some f') : plan.problem.Heralded seen f'.items := by
  have hkey : ∀ a n, plan.problem.Heralds a n → plan.score a = plan.score n :=
    fun a n ha => score_greedy hgreedy ha.state_eq
  have hsorted : ∀ n ∈ plan.ranked nodes, ∀ a, plan.problem.Heralds a n →
      a ∈ seen ∨ a ∈ f.items :=
    fun n hn => hnodes n ((ranked_perm nodes).mem_iff.mp hn)
  cases hdiscipline : plan.discipline with
  | batch =>
      rw [queue?_batch (Or.inr hgreedy) hdiscipline hqueue]
      exact heralded.append hsorted
  | global =>
      obtain ⟨items, ranked⟩ := hranked hdiscipline
      obtain ⟨-, harrange⟩ := (queue?_informed (Or.inr hgreedy)).mp hqueue
      rw [arrange?, hdiscipline] at harrange
      obtain ⟨g, hg, hlist⟩ := foldlM_insertOrdered?_keyed ranked.entries ranked.sorted
        (plan.ranked nodes)
      obtain rfl := Option.some.inj (hg.symm.trans harrange)
      rw [Frontier.items, ranked.entries, items_keyed] at heralded hsorted
      rw [Frontier.items, hlist, items_keyed]
      exact heralded.foldl_insertBehind hkey ranked.sorted hsorted

end Plan

namespace Search

variable {σ : Type} [DecidableEq σ] [Hashable σ] {plan : Plan σ Int} {bound : Int}
  {start s t : Search σ Int} {n m : Node σ Int}

section Greedy

variable (hgreedy : plan.strategy = .greedy)

include hgreedy

theorem admitted_of_greedy (s : Search σ Int) (n : Node σ Int) :
    s.isAdmitted plan.strategy n = true := by
  simp [isAdmitted, hgreedy]

theorem Pass.expanded_of_tested (hs : Pass plan bound s) :
    ∀ n ∈ s.tested, n.depth ≤ bound → n ∈ s.expanded := by
  induction hs with
  | start s =>
      intro n hn
      cases hn
  | turn hs hturn ih =>
      intro m hm hwithin
      cases turn_of_running hturn with
      | skipped n rest takes hreason _ _ hexpanded =>
          rw [takes.tested] at hm
          rw [hexpanded]
          rcases List.mem_cons.mp hm with rfl | hm
          · rw [hs.ledger.depthBound, admitted_of_greedy hgreedy] at hreason
            rcases hreason with hbeyond | ⟨-, hrefused⟩
            · omega
            · cases hrefused
          · exact ih m hm hwithin
      | expanded n rest takes _ _ _ _ _ hexpanded =>
          rw [takes.tested] at hm
          rw [hexpanded]
          rcases List.mem_cons.mp hm with rfl | hm
          · exact List.mem_cons_self
          · exact List.mem_cons_of_mem n (ih m hm hwithin)

/-- Every node answers for itself, since none is refused. -/
theorem Pass.covering_eq (hs : Pass plan bound s) : Covering plan (fun a b => a = b) s :=
  hs.covering plan.problem.grading_eq fun u _ k _ hrefused => by
    rw [admitted_of_greedy hgreedy] at hrefused
    cases hrefused

/-- All children of what was expanded were taken or still wait. -/
theorem Pass.seen_of_expanded (hs : Pass plan bound s) :
    ∀ n ∈ s.expanded, ∀ m ∈ plan.problem.offspring n, m ∈ s.tested ∨ m ∈ s.frontier.items := by
  intro n hn m hm
  rcases (hs.covering_eq hgreedy).children n hn m hm with
    ⟨k, hk, -, rfl⟩ | ⟨k, hk, -, rfl⟩ | ⟨k, hk, -, -, rfl⟩
  · exact Or.inl (hs.ledger.expanded k hk).1
  · exact Or.inr hk
  · exact Or.inl hk

/-- All heralds of a child were seen, or wait, when its parent is taken. -/
theorem Pass.herald_seen (hs : Pass plan bound s) {rest : Frontier (Node σ Int) Int}
    (takes : Takes plan s n rest.toList t) (hwithin : n.depth ≤ s.depthBound)
    (hheralds : ∀ a, plan.problem.Heralds a n → a ∈ s.tested)
    (hm : m ∈ plan.problem.offspring n) {b : Node σ Int} (hb : plan.problem.Heralds b m) :
    b ∈ t.tested ∨ b ∈ rest.items := by
  have hn := takes.mem_items.1
  have hbefore : b ∈ s.tested → b ∈ t.tested := fun hb =>
    takes.tested ▸ List.mem_cons_of_mem n hb
  obtain ⟨position, hchild⟩ := Problem.mem_offspring_iff.mp hm
  rcases hb.of_child hchild with hmem | ⟨a, ha, hchild⟩
  · rw [n.path_eq_concat, List.mem_append, List.mem_singleton] at hmem
    rcases hmem with hmem | rfl
    · exact Or.inl (hbefore (hs.ledger.expanded b (hs.ancestors_expanded n hn hmem)).1)
    · exact Or.inl (takes.tested ▸ List.mem_cons_self)
  · -- The herald of the parent is less deep, so it was expanded when it was taken.
    have hdepth : a.depth ≤ bound := by
      have hlt := ha.depth_lt
      rw [hs.ledger.depthBound] at hwithin
      omega
    have hexpanded := hs.expanded_of_tested hgreedy a (hheralds a ha) hdepth
    have hoffspring := Problem.mem_offspring_iff.mpr ⟨position, hchild⟩
    rcases hs.seen_of_expanded hgreedy a hexpanded b hoffspring with htested | hwaits
    · exact Or.inl (hbefore htested)
    · obtain ⟨key, hfront⟩ := takes.front
      rw [Frontier.items_of_front hfront] at hwaits
      rcases List.mem_cons.mp hwaits with rfl | hwaits
      · exact Or.inl (takes.tested ▸ List.mem_cons_self)
      · exact Or.inr hwaits

/-- Greedy search takes no node before one that heralds it. -/
theorem Pass.heralded (hs : Pass plan bound s) :
    plan.problem.Heralded s.tested s.frontier.items := by
  induction hs with
  | start s =>
      refine ⟨fun a ha => ?_, trivial⟩
      have hlt := ha.depth_lt
      simp [Node.depth] at hlt
  | @turn s t hs hturn ih =>
      cases turn_of_running hturn with
      | skipped n rest takes _ hfrontier =>
          obtain ⟨key, hfront⟩ := takes.front
          rw [Frontier.items_of_front hfront] at ih
          rw [hfrontier, takes.tested]
          exact ih.2
      | expanded n rest takes hwithin _ _ hqueue =>
          obtain ⟨key, hfront⟩ := takes.front
          rw [Frontier.items_of_front hfront] at ih
          refine Plan.heralded_queue hgreedy (fun hdiscipline => ?_) (takes.tested ▸ ih.2) ?_ hqueue
          · exact hs.ranked_rest (Or.inr hgreedy) hdiscipline hfront
          · exact fun m hm b hb => hs.herald_seen hgreedy takes hwithin ih.1 hm hb

end Greedy

/-- On the way to a goal that is taken no state stands twice. -/
theorem Pass.nodup_states_of_goal (hs : Pass plan bound s) {key : Option Int}
    {rest : List (Entry (Node σ Int) Int)} (hfront : s.frontier.toList = ⟨n, key⟩ :: rest)
    (hgoal : plan.problem.isGoal n.state = true) : n.states.Nodup := by
  have hn := Frontier.mem_items_of_front hfront
  by_cases hgreedy : plan.strategy = .greedy
  · have heralded := hs.heralded hgreedy
    rw [Frontier.items_of_front hfront] at heralded
    refine (hs.ledger.waiting n hn).nodup_states fun a ha => ?_
    exact hs.ledger.state_ne_of_goal (heralded.1 a ha) hgoal ha.state_eq
  · refine n.nodup_states_iff.mpr ⟨fun a ha => ?_, hs.nodup_ancestors hgreedy n hn⟩
    have htested := (hs.ledger.expanded a (hs.ancestors_expanded n hn ha)).1
    exact hs.ledger.state_ne_of_goal htested hgoal

/-- **No solution visits a state twice.** Whatever the strategy, the ordering, the costs and the
estimates are, the states along the solution of a run are distinct. -/
theorem nodup_solutionPath (plan : Plan σ Int) (start : Search σ Int) (turns : Nat) :
    (start.run plan turns).search.solutionPath.Nodup := by
  cases hsolution : (start.run plan turns).search.solution with
  | none =>
      rw [solutionPath, hsolution]
      exact List.nodup_nil
  | some n =>
      obtain ⟨s, key, rest, hs, hfront, hgoal, -⟩ :=
        (moment_run plan start turns).exists_front hsolution
      obtain ⟨before, -, hpass⟩ := hs.exists_pass
      rw [solutionPath, hsolution]
      exact hpass.nodup_states_of_goal hfront hgoal

end Search

end StateSpace
