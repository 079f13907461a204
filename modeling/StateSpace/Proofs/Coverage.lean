import StateSpace.Proofs.Passes

/-!
# No node is lost

A pass prunes nodes, but for every node of the search tree there is one of the same state that is no
worse and was not lost: it waits, or was expanded, or lies beyond the bound and was cut off there.
What counts as no worse is a parameter: anything at all, the cost, the word of the node. All that is
asked of it is that it is kept when two nodes of one state go the same step, and that a node is only
refused where one that is no worse was expanded.
-/
namespace StateSpace

/-- A comparison of nodes that is kept when two nodes of one state go the same step. -/
structure Problem.Grading {σ : Type} (p : Problem σ Int) (le : Node σ Int → Node σ Int → Prop) :
    Prop where
  refl : ∀ n, le n n
  trans : ∀ {a b c}, le a b → le b c → le a c
  child : ∀ {a b a' b' position}, p.Grows a → p.Grows b → a.state = b.state → le a b →
    p.child? a position = some a' → p.child? b position = some b' → le a' b'

namespace Search

variable {σ : Type} [DecidableEq σ] [Hashable σ] {plan : Plan σ Int} {bound : Int}
  {s t : Search σ Int} {n m : Node σ Int} {le : Node σ Int → Node σ Int → Prop}

def Waits (le : Node σ Int → Node σ Int → Prop) (s : Search σ Int) (n : Node σ Int) : Prop :=
  ∃ m ∈ s.frontier.items, m.state = n.state ∧ le m n

def Expands (le : Node σ Int → Node σ Int → Prop) (s : Search σ Int) (n : Node σ Int) : Prop :=
  ∃ m ∈ s.expanded, m.state = n.state ∧ le m n

def Cuts (le : Node σ Int → Node σ Int → Prop) (s : Search σ Int) (n : Node σ Int) : Prop :=
  ∃ m ∈ s.tested, s.depthBound < m.depth ∧ m.state = n.state ∧ le m n

/-- A node of this state that is no worse was not lost. -/
def Covers (le : Node σ Int → Node σ Int → Prop) (s : Search σ Int) (n : Node σ Int) : Prop :=
  Expands le s n ∨ Waits le s n ∨ Cuts le s n

/-- The root and the children of all nodes that were expanded are covered. -/
structure Covering (plan : Plan σ Int) (le : Node σ Int → Node σ Int → Prop) (s : Search σ Int) :
    Prop where
  root : Covers le s (.root plan.problem.initial 0)
  children : ∀ n ∈ s.expanded, ∀ m ∈ plan.problem.offspring n, Covers le s m

theorem Covers.mono (grading : plan.problem.Grading le) (hcovers : Covers le s m)
    (hstate : m.state = n.state) (hle : le m n) : Covers le s n := by
  rcases hcovers with ⟨k, hk, hkstate, hkle⟩ | ⟨k, hk, hkstate, hkle⟩ |
    ⟨k, hk, hdepth, hkstate, hkle⟩
  · exact Or.inl ⟨k, hk, hkstate.trans hstate, grading.trans hkle hle⟩
  · exact Or.inr (Or.inl ⟨k, hk, hkstate.trans hstate, grading.trans hkle hle⟩)
  · exact Or.inr (Or.inr ⟨k, hk, hdepth, hkstate.trans hstate, grading.trans hkle hle⟩)

theorem Expands.turn (hturn : Turn plan s t) (hexpands : Expands le s n) : Expands le t n := by
  obtain ⟨k, hk, hstate, hle⟩ := hexpands
  exact ⟨k, hturn.visit.expanded_subset hk, hstate, hle⟩

section Step

variable (grading : plan.problem.Grading le) (hturn : Turn plan s t)
  (hrefused : ∀ k ∈ s.frontier.items, s.isAdmitted plan.strategy k = false → Expands le s k)

include grading hturn hrefused

theorem Covers.turn (hcovers : Covers le s n) : Covers le t n := by
  obtain ⟨h, rest, takes⟩ := hturn.exists_takes
  rcases hcovers with hexpands | ⟨k, hk, hstate, hle⟩ | ⟨k, hk, hdepth, hstate, hle⟩
  · exact Or.inl (hexpands.turn hturn)
  · rcases hturn.of_mem_items hk with hk | ⟨hk, hbeyond⟩ | hrefusal | hk
    · exact Or.inr (Or.inl ⟨k, hk, hstate, hle⟩)
    · exact Or.inr (Or.inr ⟨k, hk, takes.depthBound ▸ hbeyond, hstate, hle⟩)
    · obtain ⟨g, hg, hgstate, hgle⟩ := (hrefused k hk hrefusal).turn hturn
      exact Or.inl ⟨g, hg, hgstate.trans hstate, grading.trans hgle hle⟩
    · exact Or.inl ⟨k, hk, hstate, hle⟩
  · refine Or.inr (Or.inr ⟨k, ?_, takes.depthBound ▸ hdepth, hstate, hle⟩)
    rw [takes.tested]
    exact List.mem_cons_of_mem h hk

theorem Covering.turn (covering : Covering plan le s) : Covering plan le t := by
  refine ⟨covering.root.turn grading hturn hrefused, ?_⟩
  have hold : ∀ n ∈ s.expanded, ∀ m ∈ plan.problem.offspring n, Covers le t m :=
    fun n hn m hm => (covering.children n hn m hm).turn grading hturn hrefused
  cases hturn with
  | skipped n rest takes _ _ _ hexpanded => exact hexpanded ▸ hold
  | expanded n rest takes _ _ _ hqueue _ hexpanded =>
      intro k hk m hm
      rw [hexpanded] at hk
      rcases List.mem_cons.mp hk with rfl | hk
      · refine Or.inr (Or.inl ⟨m, ?_, rfl, grading.refl m⟩)
        exact (Plan.queue?_perm hqueue).mem_iff.mpr (List.mem_append_left _ hm)
      · exact hold k hk m hm

end Step

/-- Where each node that a pass refuses is answered for by one that it expanded, no node is lost. -/
theorem Pass.covering (grading : plan.problem.Grading le)
    (hrefused : ∀ u, Pass plan bound u → ∀ k ∈ u.frontier.items,
      u.isAdmitted plan.strategy k = false → Expands le u k)
    (hs : Pass plan bound s) : Covering plan le s := by
  induction hs with
  | start s =>
      refine ⟨Or.inr (Or.inl ⟨_, ?_, rfl, grading.refl _⟩), fun n hn => by cases hn⟩
      exact List.mem_singleton_self _
  | turn hs hturn ih => exact ih.turn grading (turn_of_running hturn) (hrefused _ hs)

/-- Every node of the search tree is answered for by one that was expanded, or on the path to it a
node is answered for by one that waits or was cut off. -/
theorem Covering.walk (grading : plan.problem.Grading le) (ledger : Ledger plan bound s)
    (covering : Covering plan le s) (hn : plan.problem.Grows n) :
    Expands le s n ∨ ∃ a ∈ n.path, Waits le s a ∨ Cuts le s a := by
  -- As long as the path is answered for by nodes that were expanded, their children carry it on.
  induction hn with
  | root =>
      rcases covering.root with hexpands | hlater
      · exact Or.inl hexpands
      · exact Or.inr ⟨_, Problem.mem_path_self _, hlater⟩
  | @child n m position hn hchild ih =>
      rcases ih with ⟨g, hg, hstate, hle⟩ | ⟨a, ha, hlater⟩
      · obtain ⟨price, hstep, -⟩ := Problem.step?_of_child? hchild
        rw [← hstate] at hstep
        obtain ⟨k, hk, hkstate, -⟩ := Problem.child?_isSome_of_step? hstep
        have hgrows := ledger.grows_of_expanded hg
        have hkle := grading.child hgrows hn hstate hle hk hchild
        have hoffspring := Problem.mem_offspring_iff.mpr ⟨position, hk⟩
        have hcovers := (covering.children g hg k hoffspring).mono grading hkstate hkle
        rcases hcovers with hexpands | hlater
        · exact Or.inl hexpands
        · exact Or.inr ⟨m, Problem.mem_path_self m, hlater⟩
      · refine Or.inr ⟨a, ?_, hlater⟩
        rw [Problem.path_of_child? hchild]
        exact List.mem_append_left _ ha

/-- On the way to a goal that was not found yet a node is answered for by one that waits, or one
that was cut off stands for a node short of the goal. -/
theorem Covering.walk_of_goal (grading : plan.problem.Grading le) (ledger : Ledger plan bound s)
    (covering : Covering plan le s) (hn : plan.problem.Grows n)
    (hgoal : plan.problem.isGoal n.state = true) :
    ∃ a, plan.problem.Grows a ∧ ∃ word, ∃ cost : Nat, n.positions = a.positions ++ word ∧
      n.cost = a.cost + cost ∧ plan.problem.follow? a.state word = some (n.state, cost) ∧
      (Waits le s a ∨ Cuts le s a ∧ word ≠ []) := by
  rcases covering.walk grading ledger hn with ⟨g, hg, hstate, -⟩ | ⟨a, ha, hlater⟩
  · exact absurd hstate (ledger.state_ne_of_goal (ledger.expanded g hg).1 hgoal)
  · obtain ⟨hagrows, word, cost, hpositions, hcost, hfollow⟩ := hn.of_mem_path ha
    refine ⟨a, hagrows, word, cost, hpositions, hcost, hfollow, ?_⟩
    rcases hlater with hwaits | hcuts
    · exact Or.inl hwaits
    · refine Or.inr ⟨hcuts, ?_⟩
      rintro rfl
      obtain ⟨k, hk, -, hstate, -⟩ := hcuts
      obtain ⟨hsame, -⟩ := Prod.mk.inj (Option.some.inj hfollow)
      exact ledger.state_ne_of_goal hk hgoal (hstate.trans hsame)

end Search

end StateSpace
