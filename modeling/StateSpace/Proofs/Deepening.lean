import StateSpace.Proofs.StackOrder
import StateSpace.Proofs.Termination

/-!
# Deepening under one price

Where all rules ask the same positive price, a node is refused only if its state was expanded no
deeper, so that a bounded depth-first pass sees every state that lies within its bound. Goals are
tested one step beyond the bound. So each pass without a goal rules out one more depth, and the
pass that finds one finds the nearest, by the word that takes the latest rules. The runs here have
no allowance for expansions.
-/
namespace StateSpace

/-- A node may stand for those of its state that are deeper, or as deep and not taken earlier. -/
def Problem.Shallower {σ : Type} (a b : Node σ Int) : Prop :=
  a.depth < b.depth ∨ a.depth = b.depth ∧ Precedes a.positions b.positions

namespace Problem

variable {σ : Type} {p : Problem σ Int} {a b : Node σ Int}

theorem Shallower.depth_le (hab : Shallower a b) : a.depth ≤ b.depth := by
  rcases hab with hlt | ⟨heq, -⟩
  · exact hlt.le
  · exact heq.le

theorem Shallower.concat (ha : p.Grows a) (hb : p.Grows b) (heq : a.depth = b.depth)
    (hprecedes : Precedes a.positions b.positions) (i : Nat) :
    Precedes (a.positions ++ [i]) (b.positions ++ [i]) := by
  rw [← ha.length_positions, ← hb.length_positions] at heq
  rcases hprecedes.eq_or_overtakes heq with hword | hovertakes
  · rw [hword]
    exact Precedes.refl _
  · exact Or.inr (hovertakes.append [i] [i])

theorem grading_shallower (p : Problem σ Int) : p.Grading Shallower where
  refl n := Or.inr ⟨rfl, Precedes.refl _⟩
  trans := by
    rintro a b c (hab | ⟨hab, hab'⟩) (hbc | ⟨hbc, hbc'⟩)
    · exact Or.inl (hab.trans hbc)
    · exact Or.inl (hbc ▸ hab)
    · exact Or.inl (hab ▸ hbc)
    · exact Or.inr ⟨hab.trans hbc, hab'.trans hbc'⟩
  child := by
    intro a b a' b' position ha hb _ hle ha' hb'
    unfold Shallower
    rw [depth_of_child? ha', depth_of_child? hb', positions_of_child? ha', positions_of_child? hb']
    rcases hle with hlt | ⟨heq, hprecedes⟩
    · exact Or.inl (Nat.succ_lt_succ hlt)
    · exact Or.inr ⟨congrArg (· + 1) heq, Shallower.concat ha hb heq hprecedes position⟩

end Problem

namespace Search

variable {σ : Type} [DecidableEq σ] [Hashable σ] {plan : Plan σ Int} {bound : Int}
  {start s t : Search σ Int} {n m : Node σ Int} {price : Nat}

section Deepening

variable (hstrategy : plan.strategy = .iddfs) (hprice : plan.problem.HasPrice price)
  (hpositive : 1 ≤ price)

include hstrategy hprice hpositive

/-- Under one price a node is refused only where its state was expanded no deeper and no later. -/
theorem Pass.covering_shallower (hs : Pass plan bound s) :
    Covering plan Problem.Shallower s := by
  refine hs.covering plan.problem.grading_shallower fun u hu k hk hrefused => ?_
  have ledger := hu.ledger
  have hbfs : plan.strategy ≠ .bfs := by
    rw [hstrategy]
    simp
  obtain ⟨g, hg, hstate, hcost⟩ := hu.expands_cost_of_refused hbfs hrefused
  have hdepth := ((ledger.grows_of_expanded hg).cost_le_iff (ledger.waiting k hk) hprice
    hpositive).mp hcost
  refine ⟨g, hg, hstate, ?_⟩
  rcases hdepth.lt_or_eq with hlt | heq
  · exact Or.inl hlt
  · have horder := (hu.stackOrder (Or.inr hstrategy)).tested g (ledger.expanded g hg).1 k hk
    exact Or.inr ⟨heq, horder⟩

/-- Where no goal is nearer than this one, and it lies at most one step beyond the bound, the front
of the stack precedes it. -/
theorem Pass.front_precedes (hs : Pass plan bound s) {key : Option Int}
    {rest : List (Entry (Node σ Int) Int)} (hfront : s.frontier.toList = ⟨n, key⟩ :: rest)
    (hm : plan.problem.Grows m) (hgoal : plan.problem.isGoal m.state = true)
    (hdepth : m.depth ≤ bound + 1)
    (hnearest : ∀ word cost, plan.problem.Solves word cost → m.depth ≤ word.length) :
    Precedes n.positions m.positions := by
  have ledger := hs.ledger
  obtain ⟨a, hagrows, word, cost, hpositions, -, hfollow, hlater⟩ :=
    (hs.covering_shallower hstrategy hprice hpositive).walk_of_goal
      plan.problem.grading_shallower ledger hm hgoal
  have hlength := hm.depth_eq_add hagrows hpositions
  rcases hlater with ⟨k, hk, hstate, hle⟩ | ⟨⟨k, hk, hbeyond, -, hle⟩, hword⟩
  · have hkgrows := ledger.waiting k hk
    -- From a node that is nearer than `a` the rest of the way would lead to a nearer goal.
    have hka : a.depth ≤ k.depth := by
      obtain ⟨spent, -, hkfollow⟩ := hkgrows.follow?
      rw [hstate] at hkfollow
      have hsolves : plan.problem.Solves (k.positions ++ word) (spent + cost) :=
        ⟨m.state, Problem.follow?_append_eq_some_iff.mpr
          ⟨a.state, spent, cost, hkfollow, hfollow, rfl⟩, hgoal⟩
      have := hnearest _ _ hsolves
      rw [List.length_append, hkgrows.length_positions] at this
      omega
    rcases hle with hlt | ⟨-, hprecedes⟩
    · omega
    · rw [hpositions]
      exact (((hs.stackOrder (Or.inr hstrategy)).front hfront k hk).trans hprecedes).append word
  · have hle := hle.depth_le
    have hpos := List.length_pos_iff.mpr hword
    rw [ledger.depthBound] at hbeyond
    omega

theorem Run.passes_lt_of_drained (hs : Run plan start s) (hempty : s.frontier.toList = [])
    (hm : plan.problem.Grows m) (hgoal : plan.problem.isGoal m.state = true) :
    s.passes < m.depth := by
  obtain ⟨before, -, hpass⟩ := hs.exists_pass
  exact hs.passes_lt_depth plan.problem.grading_shallower
    (fun _ _ _ _ => Problem.Shallower.depth_le)
    (hpass.covering_shallower hstrategy hprice hpositive) hempty hm hgoal

/-- A goal that a run takes precedes every nearest goal and lies as deep, and its pass is the first
one whose goal tests reach so far. -/
theorem Run.front_nearest (hs : Run plan start s) {key : Option Int}
    {rest : List (Entry (Node σ Int) Int)} (hfront : s.frontier.toList = ⟨n, key⟩ :: rest)
    (hfound : plan.problem.isGoal n.state = true) (hm : plan.problem.Grows m)
    (hgoal : plan.problem.isGoal m.state = true)
    (hnearest : ∀ word cost, plan.problem.Solves word cost → m.depth ≤ word.length) :
    Precedes n.positions m.positions ∧ n.depth = m.depth ∧ s.passes = max 1 m.depth ∧
      s.depthBound = max 0 ((m.depth : Int) - 1) := by
  obtain ⟨before, hpasses, hpass⟩ := hs.exists_pass
  have hbound : plan.boundAfter before = before := by
    simp [Plan.boundAfter, hstrategy, Strategy.isIterative]
  rw [hbound] at hpass
  have hn := Frontier.mem_items_of_front hfront
  have hgrows := hpass.ledger.waiting n hn
  have hnle : m.depth ≤ n.depth := by
    obtain ⟨cost, -, hfollow⟩ := hgrows.follow?
    rw [← hgrows.length_positions]
    exact hnearest n.positions cost ⟨n.state, hfollow, hfound⟩
  have hndepth := (hpass.depth_le (Int.natCast_nonneg before)).1 n hn
  have hprecedes := hpass.front_precedes hstrategy hprice hpositive hfront hm hgoal (by omega)
    hnearest
  have hlimit := hs.passes_le_depth
    (fun _ hs hempty _ => hs.passes_lt_of_drained hstrategy hprice hpositive hempty) hm hgoal
  rw [hpasses] at hlimit
  have hdepth : n.depth = m.depth := by
    -- Where the root is a goal, the first pass might reach a child of it as well.
    rcases Nat.eq_zero_or_pos m.depth with hzero | hpos
    · have hroot : m.positions = [] :=
        List.eq_nil_of_length_eq_zero (hm.length_positions.trans hzero)
      rw [hroot] at hprecedes
      rw [← hgrows.length_positions, hprecedes.eq_nil, hzero]
      rfl
    · omega
  refine ⟨hprecedes, hdepth, by omega, ?_⟩
  rw [hpass.ledger.depthBound]
  omega

end Deepening

/-- **Deepening finds the nearest goal.** Where all rules ask the same positive price and the
nearest goal is `depth` steps away, a deepening run ends with a solution of that depth and its
price, in the first pass whose goal tests reach so far; of all words of that length which solve the
problem its own is the lexicographically greatest. -/
theorem exists_nearest_of_iddfs (hstrategy : plan.strategy = .iddfs)
    (hallowance : start.allowance = none) (hprice : plan.problem.HasPrice price)
    (hpositive : 1 ≤ price) {depth : Nat}
    (hnearest : IsLeast {length | ∃ word cost, plan.problem.Solves word cost ∧
      word.length = length} depth) :
    ∃ turns t n, start.run plan turns = .ended t ∧ t.isFailed = false ∧ t.solution = some n ∧
      n.depth = depth ∧ n.cost = price * depth ∧ t.passes = max 1 depth ∧
      t.depthBound = max 0 ((depth : Int) - 1) ∧ n.positions.length = depth ∧
      plan.problem.Solves n.positions (price * depth) ∧
      ∀ word cost, plan.problem.Solves word cost → word.length = depth →
        word = n.positions ∨ List.Lex (· < ·) word n.positions := by
  obtain ⟨⟨word, cost, hsolves, hlength⟩, hleast⟩ := hnearest
  have hunbroken : Unbroken plan start :=
    unbroken_of_queue hallowance hprice.isPriced fun n _ f => by
      obtain ⟨f', hqueue, -⟩ := Plan.queue?_dfs (Or.inr hstrategy) f (plan.problem.offspring n)
      exact ⟨f', hqueue⟩
  obtain ⟨s, n, key, rest, turns, hs, hfront, hgoal, hrun⟩ := exists_solution
    (fun _ hs hempty _ => hs.passes_lt_of_drained hstrategy hprice hpositive hempty) hunbroken
    ⟨word, cost, hsolves⟩
  obtain ⟨before, -, hpass⟩ := hs.exists_pass
  have hgrows := hpass.ledger.waiting n (Frontier.mem_items_of_front hfront)
  have hfirst : ∀ word cost, plan.problem.Solves word cost → word.length = depth →
      Precedes n.positions word ∧ n.depth = depth ∧ s.passes = max 1 depth ∧
        s.depthBound = max 0 ((depth : Int) - 1) := by
    rintro word cost ⟨goal, hfollow, hsolved⟩ hlength
    obtain ⟨m, hm, rfl, rfl, -⟩ := Problem.exists_grows_of_follow? hfollow
    rw [hm.length_positions] at hlength
    subst hlength
    exact hs.front_nearest hstrategy hprice hpositive hfront hgoal hm hsolved
      fun word cost hsolves => hleast ⟨word, cost, hsolves, rfl⟩
  obtain ⟨-, hdepth, hpasses, hbound⟩ := hfirst word cost hsolves hlength
  have hcost : n.cost = price * depth := by
    rw [hgrows.cost_eq hprice, hdepth]
  have hlength : n.positions.length = depth := hgrows.length_positions.trans hdepth
  have hsolution : plan.problem.Solves n.positions (price * depth) := by
    obtain ⟨spent, hspent, hfollow⟩ := hgrows.follow?
    have hsame : spent = price * depth := by
      rw [hspent] at hcost
      exact_mod_cast hcost
    exact ⟨n.state, hsame ▸ hfollow, hgoal⟩
  refine ⟨turns, _, n, hrun, hs.no_verdict.2.2, rfl, hdepth, hcost, hpasses, hbound, hlength,
    hsolution, ?_⟩
  intro other spent hsolves hother
  have hprecedes := (hfirst other spent hsolves hother).1
  rcases hprecedes.eq_or_overtakes (hlength.trans hother.symm) with heq | hovertakes
  · exact Or.inl heq.symm
  · exact Or.inr hovertakes.lex

/-- From 1 the number 4 is two steps away, and doubling twice is the last word that leads there. -/
theorem exists_nearest_doubling :
    ∃ turns t n, (fresh : Search Int Int).run ⟨Doubling.problem 1 4 none, .iddfs, .batch⟩ turns =
        .ended t ∧ t.solution = some n ∧ n.depth = 2 ∧ n.cost = 2 ∧ t.passes = 2 ∧
      t.depthBound = 1 ∧ ([1, 1] = n.positions ∨ List.Lex (· < ·) [1, 1] n.positions) := by
  have hdouble : (Doubling.problem 1 4 none).Solves [1, 1] 2 := ⟨4, rfl, rfl⟩
  have hnearest : IsLeast {length | ∃ word cost, (Doubling.problem 1 4 none).Solves word cost ∧
      word.length = length} 2 := by
    refine ⟨⟨[1, 1], 2, hdouble, rfl⟩, ?_⟩
    rintro length ⟨word, cost, ⟨goal, hfollow, hgoal⟩, rfl⟩
    match word with
    | [] =>
        obtain ⟨rfl, -⟩ := Prod.mk.inj (Option.some.inj hfollow)
        cases hgoal
    | [0] =>
        obtain ⟨rfl, -⟩ := Prod.mk.inj (Option.some.inj hfollow)
        cases hgoal
    | [1] =>
        obtain ⟨rfl, -⟩ := Prod.mk.inj (Option.some.inj hfollow)
        cases hgoal
    | [i + 2] => cases hfollow
    | i :: j :: word => exact Nat.le_add_left 2 word.length
  obtain ⟨turns, t, n, hrun, -, hsolution, hdepth, hcost, hpasses, hbound, -, -, hgreatest⟩ :=
    @exists_nearest_of_iddfs Int _ _ ⟨Doubling.problem 1 4 none, .iddfs, .batch⟩ fresh 1 rfl rfl
      (Problem.hasPrice_doubling 1 4 none) le_rfl 2 hnearest
  exact ⟨turns, t, n, hrun, hsolution, hdepth, hcost, hpasses, hbound,
    hgreatest [1, 1] 2 hdouble rfl⟩

end Search

end StateSpace
