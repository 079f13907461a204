import StateSpace.Proofs.Turns
import Mathlib.Data.List.TakeWhile

/-!
# How children are queued

Every strategy keeps what waits in the frontier and adds the children to it; they differ in where.
Under a global ordering the frontier stays sorted by its keys, so that halving finds the place where
a child belongs, and inserting a sorted batch is the same as inserting its members one by one.
-/
namespace StateSpace

/-! ### Sorting by a key -/

section Sorting

variable {α β : Type} {key : α → Int} {x : α} {xs : List α}

/-- Whether one item lies below another by their keys. -/
def belowBy (key : α → Int) (a b : α) : Bool := decide (key a < key b)

theorem insertBehind_eq_append (less : α → α → Bool) (x : α) (xs : List α) :
    insertBehind less x xs =
      xs.takeWhile (fun y => !less x y) ++ x :: xs.dropWhile fun y => !less x y := by
  induction xs with
  | nil => rfl
  | cons y ys ih =>
      rw [insertBehind]
      cases hless : less x y <;> simp [hless, ih]

/-- In a sorted list all items behind the first one above `x` are above it. -/
theorem lt_of_mem_dropWhile (hsorted : xs.Pairwise fun a b => key a ≤ key b) :
    ∀ y ∈ xs.dropWhile fun y => !belowBy key x y, key x < key y := by
  induction xs with
  | nil => simp
  | cons z zs ih =>
      obtain ⟨hz, hzs⟩ := List.pairwise_cons.mp hsorted
      by_cases hlt : key x < key z
      · intro y hy
        have hmem : y ∈ z :: zs := by simpa [belowBy, hlt] using hy
        rcases List.mem_cons.mp hmem with rfl | hmem
        · exact hlt
        · exact lt_of_lt_of_le hlt (hz y hmem)
      · intro y hy
        exact ih hzs y (by simpa [belowBy, hlt] using hy)

theorem le_of_mem_takeWhile :
    ∀ y ∈ xs.takeWhile fun y => !belowBy key x y, key y ≤ key x := by
  intro y hy
  simpa [belowBy] using List.mem_takeWhile_imp hy

theorem pairwise_insertBehind (hsorted : xs.Pairwise fun a b => key a ≤ key b) :
    (insertBehind (belowBy key) x xs).Pairwise fun a b => key a ≤ key b := by
  have hparts := hsorted
  rw [← List.takeWhile_append_dropWhile (p := fun y => !belowBy key x y) (l := xs),
    List.pairwise_append] at hparts
  obtain ⟨hfront, hback, hacross⟩ := hparts
  have habove := lt_of_mem_dropWhile (x := x) hsorted
  rw [insertBehind_eq_append, List.pairwise_append, List.pairwise_cons]
  refine ⟨hfront, ⟨fun y hy => (habove y hy).le, hback⟩, ?_⟩
  intro a ha b hb
  rcases List.mem_cons.mp hb with rfl | hb
  · exact le_of_mem_takeWhile a ha
  · exact hacross a ha b hb

theorem pairwise_foldl_insertBehind {ys : List α}
    (hsorted : xs.Pairwise fun a b => key a ≤ key b) :
    (ys.foldl (fun sorted y => insertBehind (belowBy key) y sorted) xs).Pairwise
      fun a b => key a ≤ key b := by
  induction ys generalizing xs with
  | nil => exact hsorted
  | cons y ys ih => exact ih (pairwise_insertBehind hsorted)

section Map

variable {less : α → α → Bool} {less' : β → β → Bool} {f : α → β}
  (hless : ∀ a b, less' (f a) (f b) = less a b)

include hless

theorem insertBehind_map :
    insertBehind less' (f x) (xs.map f) = (insertBehind less x xs).map f := by
  induction xs with
  | nil => rfl
  | cons y ys ih =>
      rw [List.map_cons, insertBehind, insertBehind, hless]
      split
      · rfl
      · rw [ih, List.map_cons]

theorem stableSort_map : stableSort less' (xs.map f) = (stableSort less xs).map f := by
  unfold stableSort
  rw [List.foldl_map, show ([] : List β) = [].map f from rfl]
  generalize ([] : List α) = sorted
  induction xs generalizing sorted with
  | nil => rfl
  | cons x xs ih => rw [List.foldl_cons, List.foldl_cons, insertBehind_map hless, ih]

end Map

end Sorting

/-! ### The two ends and the ordered insertion -/

namespace Frontier

variable {α κ : Type} {f f' : Frontier α κ} {e : Entry α κ}

theorem toList_foldl_pushBack (entries : List (Entry α κ)) (f : Frontier α κ) :
    (entries.foldl pushBack f).toList = f.toList ++ entries := by
  induction entries generalizing f with
  | nil => simp
  | cons e rest ih => rw [List.foldl_cons, ih, toList_pushBack, List.append_assoc]; rfl

theorem toList_foldl_pushFront (entries : List (Entry α κ)) (f : Frontier α κ) :
    (entries.foldl pushFront f).toList = entries.reverse ++ f.toList := by
  induction entries generalizing f with
  | nil => simp
  | cons e rest ih => rw [List.foldl_cons, ih, toList_pushFront, List.reverse_cons]; simp

theorem items_of_front {item : α} {key : Option κ} {rest : List (Entry α κ)}
    (hfront : f.toList = ⟨item, key⟩ :: rest) : f.items = item :: rest.map (·.item) := by
  rw [items, hfront, List.map_cons]

theorem mem_items_of_front {item : α} {key : Option κ} {rest : List (Entry α κ)}
    (hfront : f.toList = ⟨item, key⟩ :: rest) : item ∈ f.items := by
  rw [items_of_front hfront]
  exact List.mem_cons_self

theorem not_mem_items (hempty : f.toList = []) (item : α) : item ∉ f.items := by
  rw [items, hempty]
  exact List.not_mem_nil

theorem pairwise_of_front {item : α} {key : Option κ} {rest : List (Entry α κ)}
    {r : α → α → Prop} (hfront : f.toList = ⟨item, key⟩ :: rest) (hpairwise : f.items.Pairwise r) :
    (∀ a ∈ rest.map (·.item), r item a) ∧ (rest.map (·.item)).Pairwise r := by
  rw [items_of_front hfront] at hpairwise
  exact List.pairwise_cons.mp hpairwise

theorem eq_or_of_front {item : α} {key : Option κ} {rest : List (Entry α κ)} {r : α → α → Prop}
    (hfront : f.toList = ⟨item, key⟩ :: rest) (hpairwise : f.items.Pairwise r) :
    ∀ a ∈ f.items, a = item ∨ r item a := by
  intro a ha
  rw [items_of_front hfront, List.mem_cons] at ha
  exact ha.imp_right ((pairwise_of_front hfront hpairwise).1 a)

theorem insertOrdered?_perm [Quantity κ] (hinsert : f.insertOrdered? e = some f') :
    f'.toList.Perm (e :: f.toList) := by
  unfold insertOrdered? at hinsert
  simp only at hinsert
  split at hinsert
  · simp at hinsert
  · next place _ =>
    obtain rfl := Option.some.inj hinsert
    rw [toList_ofList]
    refine List.perm_middle.trans ?_
    rw [List.take_append_drop]

theorem foldlM_insertOrdered?_perm [Quantity κ] {entries : List (Entry α κ)}
    (hinsert : entries.foldlM insertOrdered? f = some f') :
    f'.toList.Perm (entries ++ f.toList) := by
  induction entries generalizing f with
  | nil =>
      obtain rfl := Option.some.inj hinsert
      exact .refl _
  | cons e rest ih =>
      rw [List.foldlM_cons] at hinsert
      obtain ⟨g, hg, hrest⟩ := Option.bind_eq_some_iff.mp hinsert
      exact (ih hrest).trans (((insertOrdered?_perm hg).append_left rest).trans List.perm_middle)

/-- Where the entries up to a place have keys up to the new one and all others have keys above it,
the new entry goes between them. -/
theorem insertOrdered?_of_append {f : Frontier α Int} {e : Entry α Int}
    {front back : List (Entry α Int)} {k : Int} (hlist : f.toList = front ++ back)
    (hkey : e.key = some k) (hfront : ∀ d ∈ front, ∃ m ≤ k, d.key = some m)
    (hback : ∀ d ∈ back, ∃ m, k < m ∧ d.key = some m) :
    f.insertOrdered? e = some (ofList (front ++ e :: back)) := by
  have hplace : Sorting.halve?
      (notAbove ((front ++ back).map (·.key)).toArray e.key) 0
      ((front ++ back).map (·.key)).toArray.size = some front.length := by
    -- Halving asks only about places within the list, where both answers are known.
    refine Sorting.halve?_eq_of_holds (Nat.zero_le _) (by simp) ?_
    intro n _ hn
    have hlt : n < (front ++ back).length := by simpa using hn
    have hmem : ∃ m, (front ++ back)[n].key = some m ∧ (¬k < m ↔ n < front.length) := by
      by_cases hn : n < front.length
      · rw [List.getElem_append_left hn]
        obtain ⟨m, hm, hdkey⟩ := hfront _ (List.getElem_mem hn)
        exact ⟨m, hdkey, by omega⟩
      · rw [List.getElem_append_right (by omega)]
        have hback' : n - front.length < back.length := by
          rw [List.length_append] at hlt
          omega
        obtain ⟨m, hm, hdkey⟩ := hback _ (List.getElem_mem hback')
        exact ⟨m, hdkey, by omega⟩
    obtain ⟨m, hm, hiff⟩ := hmem
    have hget : ((front ++ back).map (·.key)).toArray[n]? = some (some m) := by
      rw [List.getElem?_toArray, List.getElem?_map, List.getElem?_eq_getElem hlt, Option.map_some,
        hm]
    unfold notAbove
    rw [hkey, hget]
    show (Quantity.below? k m).map not = _
    rw [Quantity.below?_int, Option.map_some, ← decide_not, decide_eq_decide.mpr hiff]
  unfold insertOrdered?
  simp only [hlist, hplace, List.take_left, List.drop_left]

end Frontier

/-! ### Batches -/

namespace Plan

variable {σ : Type} {plan : Plan σ Int} {nodes : List (Node σ Int)}
  {f f' : Frontier (Node σ Int) Int}

/-- What a node is queued by where its evaluation does not break. -/
def score (plan : Plan σ Int) (n : Node σ Int) : Int :=
  match plan.evaluate n with
  | .ok k => k
  | .error _ => 0

def keyed (plan : Plan σ Int) (n : Node σ Int) : Entry (Node σ Int) Int :=
  ⟨n, some (plan.score n)⟩

/-- The nodes in the order of their scores, equals in the order given. -/
def ranked (plan : Plan σ Int) (nodes : List (Node σ Int)) : List (Node σ Int) :=
  stableSort (belowBy plan.score) nodes

theorem askEvaluations_eq_ok_iff {pairs : List (Int × Node σ Int)} :
    (plan.askEvaluations nodes).value = .ok pairs ↔
      (∀ n ∈ nodes, plan.evaluate n = .ok (plan.score n)) ∧
        pairs = nodes.map fun n => (plan.score n, n) := by
  induction nodes generalizing pairs with
  | nil => simp [askEvaluations, eq_comm]
  | cons n rest ih =>
      rw [List.forall_mem_cons, List.map_cons]
      cases heval : (plan.askEvaluation n).value with
      | error d => simp [askEvaluations, score, evaluate, heval]
      | ok k =>
          have hscore : plan.score n = k := by rw [score, evaluate, heval]
          cases hrest : (plan.askEvaluations rest).value with
          | error d =>
              have hno : ¬∀ n ∈ rest, plan.evaluate n = .ok (plan.score n) := by
                intro hall
                rw [ih.mpr ⟨hall, rfl⟩] at hrest
                cases hrest
              simp [askEvaluations, heval, hrest, hno, Except.map]
          | ok later =>
              obtain ⟨hall, rfl⟩ := ih.mp hrest
              simp [askEvaluations, evaluate, heval, hrest, hscore, Except.map, eq_comm]
              exact fun _ => hall

/-- Where all nodes have their evaluations, the record is that of each of them in turn. -/
theorem inquiries_of_evaluate (heval : ∀ n ∈ nodes, plan.evaluate n = .ok (plan.score n)) :
    plan.inquiries nodes = nodes.flatMap fun n => (plan.askEvaluation n).record := by
  induction nodes with
  | nil => rfl
  | cons n rest ih =>
      obtain ⟨hn, hrest⟩ := List.forall_mem_cons.mp heval
      rw [List.flatMap_cons, ← ih hrest, inquiries, askEvaluations]
      simp only [show (plan.askEvaluation n).value = .ok (plan.score n) from hn]
      rfl

theorem askBatch_eq_ok_iff {entries : List (Entry (Node σ Int) Int)} :
    (plan.askBatch nodes).value = .ok entries ↔
      (∀ n ∈ nodes, plan.evaluate n = .ok (plan.score n)) ∧
        entries = (plan.ranked nodes).map plan.keyed := by
  have hsort : (stableSort (fun a b : Int × Node σ Int => decide (a.1 < b.1))
      (nodes.map fun n => (plan.score n, n))).map
        (fun pair => (⟨pair.2, some pair.1⟩ : Entry _ _)) =
        (plan.ranked nodes).map plan.keyed := by
    have hless : ∀ a b : Node σ Int,
        decide ((plan.score a, a).1 < (plan.score b, b).1) = belowBy plan.score a b :=
      fun _ _ => rfl
    rw [stableSort_map (f := fun n => (plan.score n, n)) hless, List.map_map]
    rfl
  simp only [askBatch]
  cases hpairs : (plan.askEvaluations nodes).value with
  | error d =>
      have hno : ¬∀ n ∈ nodes, plan.evaluate n = .ok (plan.score n) := by
        intro hall
        rw [askEvaluations_eq_ok_iff.mpr ⟨hall, rfl⟩] at hpairs
        cases hpairs
      simp [hno]
  | ok pairs =>
      obtain ⟨hall, rfl⟩ := askEvaluations_eq_ok_iff.mp hpairs
      simp only [entries?, Quantity.sort?_int, Except.ok.injEq, hsort]
      exact ⟨fun heq => ⟨hall, heq.symm⟩, fun heq => heq.2.symm⟩

theorem ranked_perm (nodes : List (Node σ Int)) : (plan.ranked nodes).Perm nodes :=
  stableSort_perm _ nodes

/-! ### Queueing by strategy -/

theorem items_unkeyed (nodes : List (Node σ Int)) :
    (nodes.map fun n => (⟨n, none⟩ : Entry (Node σ Int) Int)).map (·.item) = nodes := by
  rw [List.map_map]
  exact List.map_id nodes

theorem items_keyed (nodes : List (Node σ Int)) : (nodes.map plan.keyed).map (·.item) = nodes := by
  rw [List.map_map]
  exact List.map_id nodes

theorem queue?_bfs (hstrategy : plan.strategy = .bfs) (f : Frontier (Node σ Int) Int)
    (nodes : List (Node σ Int)) :
    ∃ f', plan.queue? f nodes = some f' ∧ f'.items = f.items ++ nodes := by
  refine ⟨_, by rw [queue?, hstrategy], ?_⟩
  rw [← List.foldl_map (f := fun n => (⟨n, none⟩ : Entry (Node σ Int) Int))
      (g := Frontier.pushBack),
    Frontier.items, Frontier.toList_foldl_pushBack, List.map_append, items_unkeyed]
  rfl

theorem queue?_dfs (hstrategy : plan.strategy = .dfs ∨ plan.strategy = .iddfs)
    (f : Frontier (Node σ Int) Int) (nodes : List (Node σ Int)) :
    ∃ f', plan.queue? f nodes = some f' ∧ f'.items = nodes.reverse ++ f.items := by
  refine ⟨nodes.foldl (fun f n => f.pushFront ⟨n, none⟩) f, ?_, ?_⟩
  · rcases hstrategy with hstrategy | hstrategy <;> rw [queue?, hstrategy]
  · rw [← List.foldl_map (f := fun n => (⟨n, none⟩ : Entry (Node σ Int) Int))
        (g := Frontier.pushFront),
      Frontier.items, Frontier.toList_foldl_pushFront, List.map_append, List.map_reverse,
      items_unkeyed]
    rfl

/-- An informed strategy ranks the children, if none of their evaluations breaks, and then appends
them or inserts them one after another. -/
theorem queue?_informed (hinformed : plan.strategy = .astar ∨ plan.strategy = .greedy) :
    plan.queue? f nodes = some f' ↔
      (∀ n ∈ nodes, plan.evaluate n = .ok (plan.score n)) ∧
        plan.arrange? f ((plan.ranked nodes).map plan.keyed) = some f' := by
  have hqueue : plan.queue? f nodes =
      (plan.askBatch nodes).value.toOption.bind (plan.arrange? f) := by
    rcases hinformed with hstrategy | hstrategy
    · rw [queue?, hstrategy]
      cases (plan.askBatch nodes).value <;> rfl
    · rw [queue?, hstrategy]
      cases (plan.askBatch nodes).value <;> rfl
  rw [hqueue]
  cases hbatch : (plan.askBatch nodes).value with
  | error fault =>
      have hno : ¬∀ n ∈ nodes, plan.evaluate n = .ok (plan.score n) := by
        intro hall
        rw [askBatch_eq_ok_iff.mpr ⟨hall, rfl⟩] at hbatch
        cases hbatch
      simp [hno, Except.toOption]
  | ok entries =>
      obtain ⟨hall, rfl⟩ := askBatch_eq_ok_iff.mp hbatch
      exact ⟨fun heq => ⟨hall, heq⟩, fun heq => heq.2⟩

/-- Whatever the strategy, the children are added and nothing is lost. -/
theorem queue?_perm (hqueue : plan.queue? f nodes = some f') :
    f'.items.Perm (nodes ++ f.items) := by
  have hinformed : plan.strategy = .astar ∨ plan.strategy = .greedy →
      f'.items.Perm (nodes ++ f.items) := by
    intro hinformed
    have hentries : f'.toList.Perm ((plan.ranked nodes).map plan.keyed ++ f.toList) := by
      obtain ⟨-, hplace⟩ := (queue?_informed hinformed).mp hqueue
      cases hdiscipline : plan.discipline with
      | batch =>
          rw [arrange?, hdiscipline] at hplace
          obtain rfl := Option.some.inj hplace
          rw [Frontier.toList_foldl_pushBack]
          exact List.perm_append_comm
      | global =>
          rw [arrange?, hdiscipline] at hplace
          exact Frontier.foldlM_insertOrdered?_perm hplace
    refine (hentries.map (·.item)).trans ?_
    rw [List.map_append, items_keyed]
    exact (ranked_perm nodes).append_right _
  cases hstrategy : plan.strategy with
  | bfs =>
      obtain ⟨g, hg, hitems⟩ := queue?_bfs hstrategy f nodes
      obtain rfl := Option.some.inj (hg.symm.trans hqueue)
      rw [hitems]
      exact List.perm_append_comm
  | dfs =>
      obtain ⟨g, hg, hitems⟩ := queue?_dfs (Or.inl hstrategy) f nodes
      obtain rfl := Option.some.inj (hg.symm.trans hqueue)
      rw [hitems]
      exact (List.reverse_perm nodes).append_right _
  | iddfs =>
      obtain ⟨g, hg, hitems⟩ := queue?_dfs (Or.inr hstrategy) f nodes
      obtain rfl := Option.some.inj (hg.symm.trans hqueue)
      rw [hitems]
      exact (List.reverse_perm nodes).append_right _
  | astar => exact hinformed (Or.inl hstrategy)
  | greedy => exact hinformed (Or.inr hstrategy)

section Sorted

variable {items : List (Node σ Int)} (hlist : f.toList = items.map plan.keyed)
  (hsorted : items.Pairwise fun a b => plan.score a ≤ plan.score b)

include hlist hsorted

/-- In a keyed and sorted frontier a node goes behind all that do not score more. -/
theorem insertOrdered?_keyed (n : Node σ Int) :
    ∃ f', f.insertOrdered? (plan.keyed n) = some f' ∧
      f'.toList = (insertBehind (belowBy plan.score) n items).map plan.keyed := by
  have happend : f.toList =
      (items.takeWhile fun m => !belowBy plan.score n m).map plan.keyed ++
        (items.dropWhile fun m => !belowBy plan.score n m).map plan.keyed := by
    rw [hlist, ← List.map_append, List.takeWhile_append_dropWhile]
  refine ⟨_, Frontier.insertOrdered?_of_append happend rfl ?_ ?_, ?_⟩
  · intro d hd
    obtain ⟨m, hm, rfl⟩ := List.mem_map.mp hd
    exact ⟨plan.score m, le_of_mem_takeWhile m hm, rfl⟩
  · intro d hd
    obtain ⟨m, hm, rfl⟩ := List.mem_map.mp hd
    exact ⟨plan.score m, lt_of_mem_dropWhile hsorted m hm, rfl⟩
  · rw [Frontier.toList_ofList, insertBehind_eq_append, List.map_append, List.map_cons]

theorem foldlM_insertOrdered?_keyed (nodes : List (Node σ Int)) :
    ∃ f', (nodes.map plan.keyed).foldlM Frontier.insertOrdered? f = some f' ∧
      f'.toList = (nodes.foldl
        (fun sorted n => insertBehind (belowBy plan.score) n sorted) items).map plan.keyed := by
  induction nodes generalizing f items with
  | nil => exact ⟨f, rfl, hlist⟩
  | cons n rest ih =>
      obtain ⟨g, hg, hglist⟩ := insertOrdered?_keyed hlist hsorted n
      obtain ⟨f', hf', hf'list⟩ := ih hglist (pairwise_insertBehind hsorted)
      refine ⟨f', ?_, hf'list⟩
      rw [List.map_cons, List.foldlM_cons, hg]
      exact hf'

end Sorted

end Plan

end StateSpace
