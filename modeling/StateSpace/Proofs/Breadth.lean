import StateSpace.Proofs.Termination
import Mathlib.Data.List.Shortlex

/-!
# Breadth-first solutions

Breadth first, nodes are taken in the order of their words: shorter words first, and words of one
length by the rules they take. A node is only refused where its state was expanded under an earlier
word, so that the least word that solves the problem is never lost, whatever the rules cost. The
runs here have no allowance, which is a limit on expansions that a caller may set.
-/
namespace StateSpace

/-! ### The order of words -/

/-- A word is shorter than another, or as long, and takes an earlier rule where they part. -/
abbrev Earlier : List Nat → List Nat → Prop := List.Shortlex (· < ·)

section Earlier

variable {u v w : List Nat} {i j : Nat}

theorem Earlier.trans (huv : Earlier u v) (hvw : Earlier v w) : Earlier u w := by
  rcases List.shortlex_def.mp huv with huv | ⟨huv, hlex⟩
  · rcases List.shortlex_def.mp hvw with hvw | ⟨hvw, -⟩
    · exact List.Shortlex.of_length_lt (huv.trans hvw)
    · exact List.Shortlex.of_length_lt (hvw ▸ huv)
  · rcases List.shortlex_def.mp hvw with hvw | ⟨hvw, hlex'⟩
    · exact List.Shortlex.of_length_lt (huv ▸ hvw)
    · exact List.Shortlex.of_lex (huv.trans hvw) (List.lex_trans Nat.lt_trans hlex hlex')

theorem Earlier.length_le (huv : Earlier u v) : u.length ≤ v.length := by
  rcases List.shortlex_def.mp huv with huv | ⟨huv, -⟩
  · exact huv.le
  · exact huv.le

theorem lex_append_of_length_eq (hlex : List.Lex (· < ·) u v) (hlength : u.length = v.length)
    (back back' : List Nat) : List.Lex (· < ·) (u ++ back) (v ++ back') := by
  induction hlex with
  | nil => simp at hlength
  | rel hlt => exact .rel hlt
  | cons _ ih => exact .cons (ih (Nat.succ.inj hlength))

theorem Earlier.concat (huv : Earlier u v) (i j : Nat) : Earlier (u ++ [i]) (v ++ [j]) := by
  rcases List.shortlex_def.mp huv with huv | ⟨huv, hlex⟩
  · refine List.Shortlex.of_length_lt ?_
    rw [List.length_append, List.length_append]
    exact Nat.add_lt_add_right huv 1
  · refine List.Shortlex.of_lex ?_ (lex_append_of_length_eq hlex huv _ _)
    rw [List.length_append, List.length_append, huv]
    rfl

theorem earlier_concat_self (u : List Nat) (i : Nat) : Earlier u (u ++ [i]) := by
  refine List.Shortlex.of_length_lt ?_
  rw [List.length_append]
  exact Nat.lt_add_one _

theorem earlier_siblings (hlt : i < j) (u : List Nat) : Earlier (u ++ [i]) (u ++ [j]) :=
  List.Shortlex.append_left ((List.shortlex_singleton_iff i j).mpr hlt) u

theorem eq_or_earlier_append (u w : List Nat) : u = u ++ w ∨ Earlier u (u ++ w) := by
  by_cases hw : w = []
  · exact Or.inl (by rw [hw, List.append_nil])
  · refine Or.inr (List.Shortlex.of_length_lt ?_)
    rw [List.length_append]
    exact Nat.lt_add_of_pos_right (List.length_pos_iff.mpr hw)

end Earlier

/-- A node may stand for those of its state whose words are not earlier. -/
theorem Problem.grading_word {σ : Type} (p : Problem σ Int) :
    p.Grading fun a b => a.positions = b.positions ∨ Earlier a.positions b.positions where
  refl n := Or.inl rfl
  trans := by
    rintro a b c (hab | hab) (hbc | hbc)
    · exact Or.inl (hab.trans hbc)
    · exact Or.inr (hab ▸ hbc)
    · exact Or.inr (hbc ▸ hab)
    · exact Or.inr (hab.trans hbc)
  child := by
    intro a b a' b' position _ _ _ hle ha hb
    rw [positions_of_child? ha, positions_of_child? hb]
    rcases hle with hle | hle
    · exact Or.inl (by rw [hle])
    · exact Or.inr (hle.concat position position)

theorem Problem.depth_le_of_word {σ : Type} {p : Problem σ Int} {a b : Node σ Int}
    (ha : p.Grows a) (hb : p.Grows b)
    (hle : a.positions = b.positions ∨ Earlier a.positions b.positions) : a.depth ≤ b.depth := by
  rw [← ha.length_positions, ← hb.length_positions]
  rcases hle with hle | hle
  · exact (congrArg List.length hle).le
  · exact hle.length_le

namespace Search

variable {σ : Type} [DecidableEq σ] [Hashable σ] {plan : Plan σ Int} {bound : Int}
  {start s t : Search σ Int} {n m : Node σ Int}

/-! ### The order of the queue -/

/-- The nodes that were taken come before those that wait; and those stand in order and have grown
from nodes that were expanded. -/
structure LevelOrder (s : Search σ Int) : Prop where
  tested : ∀ n ∈ s.tested, ∀ m ∈ s.frontier.items, Earlier n.positions m.positions
  waiting : s.frontier.items.Pairwise fun a b => Earlier a.positions b.positions
  origin : ∀ m ∈ s.frontier.items, m.positions = [] ∨
    ∃ g ∈ s.expanded, ∃ i, m.positions = g.positions ++ [i]

theorem levelOrder_beginPass (plan : Plan σ Int) (bound : Int) (s : Search σ Int) :
    LevelOrder (s.beginPass plan bound) where
  tested := by
    intro n hn
    cases hn
  waiting := List.pairwise_singleton _ _
  origin := by
    intro m hm
    rw [items_beginPass hm]
    exact Or.inl rfl

theorem LevelOrder.of_takes {rest : List (Entry (Node σ Int) Int)} (order : LevelOrder s)
    (takes : Takes plan s n rest t) :
    (∀ k ∈ s.tested, Earlier k.positions n.positions) ∧
      (∀ k ∈ t.tested, ∀ m ∈ rest.map (·.item), Earlier k.positions m.positions) ∧
      (rest.map (·.item)).Pairwise fun a b => Earlier a.positions b.positions := by
  obtain ⟨key, hfront⟩ := takes.front
  obtain ⟨hfirst, hsorted⟩ := Frontier.pairwise_of_front hfront order.waiting
  refine ⟨fun k hk => order.tested k hk n takes.mem_items.1, ?_, hsorted⟩
  intro k hk m hm
  rw [takes.tested] at hk
  rcases List.mem_cons.mp hk with rfl | hk
  · exact hfirst m hm
  · exact order.tested k hk m (takes.mem_items.2 m hm)

/-- What waits comes before all children of the node that is taken. -/
theorem LevelOrder.before_children {rest : List (Entry (Node σ Int) Int)} (order : LevelOrder s)
    (ledger : Ledger plan bound s) (takes : Takes plan s n rest t) (hm : m ∈ rest.map (·.item))
    (i : Nat) : Earlier m.positions (n.positions ++ [i]) := by
  obtain ⟨htaken, hrest, -⟩ := order.of_takes takes
  -- What waits has grown from a node that was taken before `n`.
  rcases order.origin m (takes.mem_items.2 m hm) with hroot | ⟨g, hg, j, hword⟩
  · have hlt := hrest n (takes.tested ▸ List.mem_cons_self) m hm
    rw [hroot] at hlt
    exact absurd hlt List.not_shortlex_nil_right
  · rw [hword]
    exact (htaken g (ledger.expanded g hg).1).concat j i

theorem LevelOrder.turn (hstrategy : plan.strategy = .bfs) (order : LevelOrder s)
    (ledger : Ledger plan bound s) (hturn : Turn plan s t) : LevelOrder t := by
  cases hturn with
  | skipped n rest takes _ hfrontier _ hexpanded =>
      obtain ⟨-, hrest, hsorted⟩ := order.of_takes takes
      refine ⟨?_, ?_, ?_⟩
      · rw [hfrontier]
        exact hrest
      · rw [hfrontier]
        exact hsorted
      · rw [hfrontier, hexpanded]
        exact fun m hm => order.origin m (takes.mem_items.2 m hm)
  | expanded n rest takes _ _ _ hqueue _ hexpanded =>
      obtain ⟨htaken, hrest, hsorted⟩ := order.of_takes takes
      obtain ⟨f, hf, hitems⟩ := Plan.queue?_bfs hstrategy rest (plan.problem.offspring n)
      obtain rfl := Option.some.inj (hf.symm.trans hqueue)
      refine ⟨?_, ?_, ?_⟩
      · intro k hk m hm
        rw [hitems] at hm
        rcases List.mem_append.mp hm with hm | hm
        · exact hrest k hk m hm
        · obtain ⟨i, hword⟩ := Problem.positions_of_mem_offspring hm
          rw [hword]
          rw [takes.tested] at hk
          rcases List.mem_cons.mp hk with rfl | hk
          · exact earlier_concat_self _ i
          · exact (htaken k hk).trans (earlier_concat_self _ i)
      · rw [hitems, List.pairwise_append]
        refine ⟨hsorted, (plan.problem.pairwise_offspring n).imp ?_, ?_⟩
        · rintro a b ⟨i, j, hlt, ha, hb⟩
          rw [Problem.positions_of_child? ha, Problem.positions_of_child? hb]
          exact earlier_siblings hlt n.positions
        · intro m hm c hc
          obtain ⟨i, hword⟩ := Problem.positions_of_mem_offspring hc
          rw [hword]
          exact order.before_children ledger takes hm i
      · intro m hm
        rw [hitems] at hm
        rw [hexpanded]
        rcases List.mem_append.mp hm with hm | hm
        · rcases order.origin m (takes.mem_items.2 m hm) with hroot | ⟨g, hg, i, hword⟩
          · exact Or.inl hroot
          · exact Or.inr ⟨g, List.mem_cons_of_mem n hg, i, hword⟩
        · obtain ⟨i, hword⟩ := Problem.positions_of_mem_offspring hm
          exact Or.inr ⟨n, List.mem_cons_self, i, hword⟩

theorem LevelOrder.front {key : Option Int} {rest : List (Entry (Node σ Int) Int)}
    (order : LevelOrder s) (hfront : s.frontier.toList = ⟨n, key⟩ :: rest) :
    ∀ m ∈ s.frontier.items, n.positions = m.positions ∨ Earlier n.positions m.positions := by
  intro m hm
  rcases Frontier.eq_or_of_front hfront order.waiting m hm with rfl | hearlier
  · exact Or.inl rfl
  · exact Or.inr hearlier

section Breadth

variable (hstrategy : plan.strategy = .bfs)

include hstrategy

theorem Pass.levelOrder (hs : Pass plan bound s) : LevelOrder s := by
  induction hs with
  | start s => exact levelOrder_beginPass plan bound s
  | turn hs hturn ih => exact ih.turn hstrategy hs.ledger (turn_of_running hturn)

theorem Pass.expands_word_of_refused (hs : Pass plan bound s) (hn : n ∈ s.frontier.items)
    (hrefused : s.isAdmitted plan.strategy n = false) :
    Expands (fun a b => a.positions = b.positions ∨ Earlier a.positions b.positions) s n := by
  obtain ⟨g, hg, hstate, -⟩ := hs.exists_expanded_of_refused hrefused
  have hearlier := (hs.levelOrder hstrategy).tested g (hs.ledger.expanded g hg).1 n hn
  exact ⟨g, hg, hstate, Or.inr hearlier⟩

/-- A node is refused only where its state was expanded under an earlier word, so no least word is
lost. -/
theorem Pass.covering_word (hs : Pass plan bound s) :
    Covering plan (fun a b => a.positions = b.positions ∨ Earlier a.positions b.positions) s :=
  hs.covering plan.problem.grading_word fun _ hu _ hk => hu.expands_word_of_refused hstrategy hk

/-- Of every node of the search tree the state was closed, or its word is not earlier than that of
the front, or something was cut off. -/
theorem Pass.mem_closed_or_front_le (hs : Pass plan bound s) {key : Option Int}
    {rest : List (Entry (Node σ Int) Int)} (hfront : s.frontier.toList = ⟨n, key⟩ :: rest)
    (hm : plan.problem.Grows m) :
    m.state ∈ s.closed ∨ (n.positions = m.positions ∨ Earlier n.positions m.positions) ∨
      ∃ k ∈ s.tested, s.depthBound < k.depth := by
  have grading := plan.problem.grading_word
  rcases (hs.covering_word hstrategy).walk grading hs.ledger hm with
    ⟨g, hg, hstate, -⟩ | ⟨a, ha, ⟨k, hk, -, hle⟩ | ⟨k, hk, hbeyond, -⟩⟩
  · exact Or.inl (hs.ledger.mem_closed_iff.mpr ⟨g, hg, hstate⟩)
  · obtain ⟨-, word, cost, hpositions, -, -⟩ := hm.of_mem_path ha
    have hfirst := (hs.levelOrder hstrategy).front hfront k hk
    refine Or.inr (Or.inl (grading.trans hfirst (grading.trans hle ?_)))
    rw [hpositions]
    exact eq_or_earlier_append a.positions word
  · exact Or.inr (Or.inr ⟨k, hk, hbeyond⟩)

/-- No word that solves the problem is earlier than that of a goal at the front. -/
theorem Pass.front_earliest (hbound : 0 ≤ bound) (hs : Pass plan bound s) {key : Option Int}
    {rest : List (Entry (Node σ Int) Int)} (hfront : s.frontier.toList = ⟨n, key⟩ :: rest)
    (hm : plan.problem.Grows m) (hgoal : plan.problem.isGoal m.state = true) :
    n.positions = m.positions ∨ Earlier n.positions m.positions := by
  have ledger := hs.ledger
  have hn := Frontier.mem_items_of_front hfront
  have hfirst := (hs.levelOrder hstrategy).front hfront
  have grading := plan.problem.grading_word
  obtain ⟨a, hagrows, word, cost, hpositions, -, -, hlater⟩ :=
    (hs.covering_word hstrategy).walk_of_goal grading ledger hm hgoal
  rcases hlater with ⟨k, hk, -, hle⟩ | ⟨⟨k, hk, hbeyond, -, hle⟩, hword⟩
  · refine grading.trans (hfirst k hk) (grading.trans hle ?_)
    rw [hpositions]
    exact eq_or_earlier_append a.positions word
  · -- The front lies no deeper than what was cut off, which stands for a node short of the goal.
    have hdepth := (hs.depth_le hbound).1 n hn
    have hka := Problem.depth_le_of_word (ledger.tested k hk).1 hagrows hle
    have hpos := List.length_pos_iff.mpr hword
    rw [ledger.depthBound] at hbeyond
    refine Or.inr (List.Shortlex.of_length_lt ?_)
    rw [hpositions, List.length_append, (ledger.waiting n hn).length_positions,
      hagrows.length_positions]
    omega

end Breadth

/-- **Breadth-first solutions.** Where some word solves the problem, a breadth-first run ends with a
solution, and of all words that solve the problem its own is the least: none is shorter, and none of
its length comes before it. -/
theorem exists_earliest_of_bfs (hstrategy : plan.strategy = .bfs)
    (hallowance : start.allowance = none) (hpriced : plan.problem.IsPriced)
    (hsolvable : ∃ word cost, plan.problem.Solves word cost) :
    ∃ turns t n, start.run plan turns = .ended t ∧ t.isFailed = false ∧ t.solution = some n ∧
      (∃ cost : Nat, n.cost = cost ∧ plan.problem.Solves n.positions cost) ∧
      (∀ word cost, plan.problem.Solves word cost →
        n.positions = word ∨ List.Shortlex (· < ·) n.positions word) ∧
      ∀ word cost, plan.problem.Solves word cost → n.depth ≤ word.length := by
  have hunbroken : Unbroken plan start :=
    unbroken_of_queue hallowance hpriced fun n _ f => by
      obtain ⟨f', hqueue, -⟩ := Plan.queue?_bfs hstrategy f (plan.problem.offspring n)
      exact ⟨f', hqueue⟩
  have hdrained : ∀ s, Run plan start s → s.frontier.toList = [] → ∀ m, plan.problem.Grows m →
      plan.problem.isGoal m.state = true → s.passes < m.depth := by
    intro s hs hempty m hm hgoal
    obtain ⟨before, -, hpass⟩ := hs.exists_pass
    exact hs.passes_lt_depth plan.problem.grading_word (fun _ _ => Problem.depth_le_of_word)
      (hpass.covering_word hstrategy) hempty hm hgoal
  obtain ⟨s, n, key, rest, turns, hs, hfront, hgoal, hrun⟩ :=
    exists_solution hdrained hunbroken hsolvable
  obtain ⟨before, -, hpass⟩ := hs.exists_pass
  have hbound : 0 ≤ plan.boundAfter before :=
    (Int.natCast_nonneg before).trans (plan.le_boundAfter before)
  have hgrows := hpass.ledger.waiting n (Frontier.mem_items_of_front hfront)
  have hleast : ∀ word cost, plan.problem.Solves word cost →
      n.positions = word ∨ Earlier n.positions word := by
    rintro word cost ⟨goal, hfollow, hsolved⟩
    obtain ⟨m, hm, rfl, rfl, -⟩ := Problem.exists_grows_of_follow? hfollow
    exact hpass.front_earliest hstrategy hbound hfront hm hsolved
  obtain ⟨cost, hcost, hfollow⟩ := hgrows.follow?
  refine ⟨turns, _, n, hrun, hs.no_verdict.2.2, rfl, ⟨cost, hcost, n.state, hfollow, hgoal⟩, hleast,
    ?_⟩
  intro word cost hsolves
  rw [← hgrows.length_positions]
  rcases hleast word cost hsolves with hword | hword
  · exact (congrArg List.length hword).le
  · exact hword.length_le

/-- From 1 to 4 by steps of one and doublings, among all numbers. -/
theorem exists_earliest_doubling :
    ∃ turns t n, (fresh : Search Int Int).run ⟨Doubling.problem 1 4 none, .bfs, .batch⟩ turns =
        .ended t ∧ t.solution = some n ∧
      ∀ word cost, (Doubling.problem 1 4 none).Solves word cost →
        n.positions = word ∨ List.Shortlex (· < ·) n.positions word := by
  obtain ⟨turns, t, n, hrun, -, hsolution, -, hleast, -⟩ :=
    @exists_earliest_of_bfs Int _ _ ⟨Doubling.problem 1 4 none, .bfs, .batch⟩ fresh rfl rfl
      (Problem.hasPrice_doubling 1 4 none).isPriced ⟨[0, 1], 2, 4, rfl, rfl⟩
  exact ⟨turns, t, n, hrun, hsolution, hleast⟩

end Search

end StateSpace
