import StateSpace.Proofs.Comparison

/-!
# First words

Of all words that lead to a state one comes first in the order of breadth-first search. Breadth first
a state is expanded when its first word is taken, and by no other word: duplicates that wait are
later and will be refused. So the states are expanded in the order of their first words, and when a
goal is taken those expanded are the states whose first words are earlier than its own.
-/
namespace StateSpace

theorem Earlier.asymm {u v : List Nat} (huv : Earlier u v) : ¬Earlier v u :=
  Std.Asymm.asymm u v huv

namespace Problem

variable {σ κ : Type} {p : Problem σ κ} {x : σ} {u v : List Nat} {cost spent : Nat}

/-- The word leads to the state at this cost, and no other word that leads there is earlier. -/
structure IsFirstWord (p : Problem σ κ) (x : σ) (word : List Nat) (cost : Nat) : Prop where
  leads : p.follow? p.initial word = some (x, cost)
  least : ∀ other spent, p.follow? p.initial other = some (x, spent) →
    word = other ∨ Earlier word other

theorem IsFirstWord.unique (hu : p.IsFirstWord x u cost) (hv : p.IsFirstWord x v spent) :
    u = v := by
  rcases hu.least v spent hv.leads with hsame | hearlier
  · exact hsame
  · rcases hv.least u cost hu.leads with hsame | hlater
    · exact hsame.symm
    · exact absurd hlater hearlier.asymm

theorem Reaches.exists_isFirstWord (hx : p.Reaches x) : ∃ word cost, p.IsFirstWord x word cost := by
  obtain ⟨word, ⟨cost, hfollow⟩, hmin⟩ := (List.Shortlex.wf Nat.lt_wfRel.wf).has_min
    {word | ∃ cost, p.follow? p.initial word = some (x, cost)} hx
  refine ⟨word, cost, hfollow, fun other spent hother => ?_⟩
  have hnot : ¬Earlier other word := hmin other ⟨spent, hother⟩
  by_contra hne
  obtain ⟨hne, hlater⟩ := not_or.mp hne
  exact hne (Std.Trichotomous.trichotomous (r := Earlier) word other hlater hnot)

theorem existsUnique_isFirstWord (hx : p.Reaches x) :
    ∃! word, ∃ cost, p.IsFirstWord x word cost := by
  obtain ⟨word, cost, hword⟩ := hx.exists_isFirstWord
  refine ⟨word, ⟨cost, hword⟩, ?_⟩
  rintro other ⟨spent, hother⟩
  exact hother.unique hword

end Problem

namespace Search

section Nodes

variable {σ : Type} {plan : Plan σ Int} {nodes : List (Node σ Int)} {n : Node σ Int}

/-- These nodes of the search tree, latest first, stand in the order of their words, each of which is
the first one of its state. -/
structure FirstSeen (plan : Plan σ Int) (nodes : List (Node σ Int)) : Prop where
  grows : ∀ n ∈ nodes, plan.problem.Grows n
  least : ∀ n ∈ nodes, ∀ m, plan.problem.Grows m → m.state = n.state →
    n.positions = m.positions ∨ Earlier n.positions m.positions
  order : nodes.Pairwise fun a b => Earlier b.positions a.positions

theorem FirstSeen.isFirstWord (seen : FirstSeen plan nodes) (hn : n ∈ nodes) :
    ∃ cost : Nat, n.cost = cost ∧ plan.problem.IsFirstWord n.state n.positions cost := by
  obtain ⟨cost, hcost, hfollow⟩ := (seen.grows n hn).follow?
  refine ⟨cost, hcost, hfollow, fun other spent hother => ?_⟩
  obtain ⟨m, hm, rfl, hstate, -⟩ := Problem.exists_grows_of_follow? hother
  exact seen.least n hn m hm hstate

theorem FirstSeen.nodup (seen : FirstSeen plan nodes) : (nodes.map Node.state).Nodup := by
  refine List.pairwise_map.mpr (seen.order.imp_of_mem fun {a b} ha hb hearlier hstate => ?_)
  rcases seen.least a ha b (seen.grows b hb) hstate.symm with hsame | hlater
  · rw [hsame] at hearlier
    exact hearlier.asymm hearlier
  · exact hlater.asymm hearlier

end Nodes

section Breadth

variable {σ : Type} [DecidableEq σ] [Hashable σ] {plan : Plan σ Int} {bound : Int}
  {start s t : Search σ Int} {n : Node σ Int} (hstrategy : plan.strategy = .bfs)

include hstrategy

theorem Pass.firstSeen_cons (hs : Pass plan bound s) (seen : FirstSeen plan s.expanded)
    {key : Option Int} {rest : List (Entry (Node σ Int) Int)}
    (hfront : s.frontier.toList = ⟨n, key⟩ :: rest) (hwithin : n.depth ≤ s.depthBound)
    (hadmitted : s.isAdmitted plan.strategy n = true) : FirstSeen plan (n :: s.expanded) := by
  have hn := Frontier.mem_items_of_front hfront
  have hgrows := hs.ledger.waiting n hn
  have order := hs.levelOrder hstrategy
  refine ⟨List.forall_mem_cons.mpr ⟨hgrows, seen.grows⟩,
    List.forall_mem_cons.mpr ⟨fun m hm hstate => ?_, seen.least⟩,
    List.pairwise_cons.mpr ⟨fun g hg => ?_, seen.order⟩⟩
  · rcases hs.mem_closed_or_front_le hstrategy hfront hm with hclosed | hle | ⟨k, hk, hbeyond⟩
    · rw [hstate, Std.HashMap.mem_iff_isSome_getElem?, Option.isSome_iff_exists] at hclosed
      obtain ⟨cost, hcost⟩ := hclosed
      simp [isAdmitted, hstrategy, hcost] at hadmitted
    · exact hle
    · -- What was cut off was taken before, so it lies no deeper than the front.
      have hearlier := (order.tested k hk n hn).length_le
      rw [(hs.ledger.tested k hk).1.length_positions, hgrows.length_positions] at hearlier
      omega
  · exact order.tested g (hs.ledger.expanded g hg).1 n hn

theorem Stage.firstSeen {p : Progress σ Int} (hstage : Stage plan bound p) :
    FirstSeen plan p.search.expanded := by
  have hnil : FirstSeen plan [] :=
    ⟨(fun n hn => by cases hn), (fun n hn => by cases hn), List.Pairwise.nil⟩
  exact hstage.expanded_induction hnil fun _ _ _ _ hu seen hfront hwithin hadmitted =>
    hu.firstSeen_cons hstrategy seen hfront hwithin hadmitted

/-- Where nothing was cut off, the closed states are those whose first words are earlier than that of
the front. -/
theorem Pass.mem_closed_iff_earlier (hs : Pass plan bound s)
    (hcut : ∀ k ∈ s.tested, (k.depth : Int) ≤ bound) {key : Option Int}
    {rest : List (Entry (Node σ Int) Int)} (hfront : s.frontier.toList = ⟨n, key⟩ :: rest) (x : σ) :
    x ∈ s.closed ↔
      ∃ word cost, plan.problem.IsFirstWord x word cost ∧ Earlier word n.positions := by
  have ledger := hs.ledger
  constructor
  · intro hx
    obtain ⟨g, hg, rfl⟩ := ledger.mem_closed_iff.mp hx
    obtain ⟨cost, -, hword⟩ := (Stage.firstSeen hstrategy (.running hs)).isFirstWord hg
    have hearlier := (hs.levelOrder hstrategy).tested g (ledger.expanded g hg).1 n
      (Frontier.mem_items_of_front hfront)
    exact ⟨g.positions, cost, hword, hearlier⟩
  · rintro ⟨word, cost, hword, hearlier⟩
    obtain ⟨m, hm, rfl, rfl, -⟩ := Problem.exists_grows_of_follow? hword.leads
    rcases hs.mem_closed_or_front_le hstrategy hfront hm with hclosed | hle | ⟨k, hk, hbeyond⟩
    · exact hclosed
    · rcases hle with hsame | hlater
      · rw [hsame] at hearlier
        exact absurd hearlier hearlier.asymm
      · exact absurd hlater hearlier.asymm
    · have hwithin := hcut k hk
      rw [ledger.depthBound] at hbeyond
      omega

/-- **Breadth first in the order of first words.** Where a breadth-first run ends and took no node
beyond the unbounded depth, it has expanded no state twice and counted each closed state once; every
state was expanded under its first word, whose cost it is closed at, and the states were expanded in
the order of these words. At a solution the closed states are those whose first words are earlier than
its own, and at a failure those within reach. -/
theorem expands_first_words {turns : Nat} (hrun : start.run plan turns = .ended t)
    (hpopped : ∀ m ∈ t.popped, (m.depth : Int) ≤ unbounded) :
    (∀ x, plan.problem.Reaches x → ∃! word, ∃ cost, plan.problem.IsFirstWord x word cost) ∧
      (t.expanded.map Node.state).Nodup ∧ t.expansions = t.closed.size ∧
      (∀ n ∈ t.expanded,
        ∃ cost : Nat, n.cost = cost ∧ plan.problem.IsFirstWord n.state n.positions cost) ∧
      (t.expanded.reverse.Pairwise fun a b => Earlier a.positions b.positions) ∧
      (∀ x, ∀ cost : Int, t.closed[x]? = some cost →
        ∃ word, ∃ spent : Nat, cost = spent ∧ plan.problem.IsFirstWord x word spent) ∧
      (∀ n, t.solution = some n → ∀ x, x ∈ t.closed ↔
        ∃ word cost, plan.problem.IsFirstWord x word cost ∧ Earlier word n.positions) ∧
      (t.isFailed = true → ∀ x, x ∈ t.closed ↔ plan.problem.Reaches x) := by
  have hiterative : plan.strategy.isIterative = false := by
    rw [hstrategy]
    rfl
  have hmoment := moment_run plan start turns
  rw [hrun] at hmoment
  obtain ⟨bound, q, hstage, hexpanded⟩ := hmoment.exists_stage
  have seen : FirstSeen plan t.expanded := hexpanded ▸ hstage.firstSeen hstrategy
  obtain ⟨s, hs, hcut, hclosed, hcount, hverdict⟩ :=
    exists_verdict_of_ended hiterative hrun hpopped
  have seen' := Stage.firstSeen hstrategy (.running hs)
  refine ⟨fun x => Problem.existsUnique_isFirstWord, seen.nodup, ?_, fun n => seen.isFirstWord,
    List.pairwise_reverse.mpr seen.order, ?_, ?_, ?_⟩
  · rw [hclosed, hcount, hs.ledger.size_closed seen'.nodup]
  · intro x cost hcost
    rw [hclosed] at hcost
    obtain ⟨n, hn, rfl, rfl⟩ := hs.ledger.expanded_of_closed x cost hcost
    obtain ⟨spent, hspent, hword⟩ := seen'.isFirstWord hn
    exact ⟨n.positions, spent, hspent, hword⟩
  · intro n hsolution x
    rw [hclosed]
    cases hverdict with
    | failed _ _ _ hnone =>
        rw [hnone] at hsolution
        cases hsolution
    | solved m key rest hfront _ _ hsome =>
        obtain rfl : m = n := Option.some.inj (hsome.symm.trans hsolution)
        exact hs.mem_closed_iff_earlier hstrategy hcut hfront x
  · intro hfailed x
    rw [hclosed]
    cases hverdict with
    | failed hempty huncut => exact hs.mem_closed_iff hempty huncut x
    | solved _ _ _ _ _ hsucceeded =>
        rw [hsucceeded] at hfailed
        cases hfailed

end Breadth

/-- From 1 to 3 both rules lead to 2, whose second node still waits when 3 is queued. -/
theorem expands_first_words_doubling :
    ∃ t n, (fresh : Search Int Int).run ⟨Doubling.problem 1 3 none, .bfs, .batch⟩ 4 = .ended t ∧
      t.solution = some n ∧ n.positions = [0, 0] ∧ t.expansions = 2 ∧ t.closed.size = 2 ∧
      ∀ x, x ∈ t.closed ↔ ∃ word cost, (Doubling.problem 1 3 none).IsFirstWord x word cost ∧
        Earlier word [0, 0] := by
  obtain ⟨t, n, hrun, hsolution, hpositions, hcount, hdepths⟩ :
      ∃ t n, (fresh : Search Int Int).run ⟨Doubling.problem 1 3 none, .bfs, .batch⟩ 4 =
          .ended t ∧ t.solution = some n ∧ n.positions = [0, 0] ∧ t.expansions = 2 ∧
        t.popped.map Node.depth = [2, 1, 1, 0] := by
    simp [run, beginRun, reset, fresh, beginPass, Plan.askInitial, Plan.boundAfter,
      Strategy.isIterative, unbounded, Progress.after, advance, turn, isBeyond?_int, isWithin_int,
      pop, record, Plan.askGoal, explode, admits, expand, close, count, pay?, Closed.put_eq_insert,
      enqueue, succeed, conclude, popped, Plan.askRules, Plan.childrenFrom, Frontier.popFront?,
      Frontier.pushBack, Frontier.empty, Frontier.ofList, Node.depth, Node.state, Node.cost,
      Node.positions, Node.move?, Value.toPrice?, Rule.unit, Rule.fixed, Doubling.problem,
      Doubling.rules, Doubling.within]
    rfl
  have hpopped : ∀ m ∈ t.popped, (m.depth : Int) ≤ unbounded := by
    intro m hm
    have hdepth := List.mem_map_of_mem (f := Node.depth) hm
    rw [hdepths] at hdepth
    simp only [List.mem_cons, List.not_mem_nil, or_false] at hdepth
    unfold unbounded
    omega
  obtain ⟨-, -, hsize, -, -, -, hclosed, -⟩ :=
    @expands_first_words Int _ _ ⟨Doubling.problem 1 3 none, .bfs, .batch⟩ fresh t rfl 4 hrun
      hpopped
  refine ⟨t, n, hrun, hsolution, hpositions, hcount, hsize ▸ hcount, fun x => ?_⟩
  rw [hclosed n hsolution x, hpositions]

end Search

end StateSpace
