import StateSpace.Proofs.Queueing
import Mathlib.Data.List.InsertIdx

/-!
# Items and keys in two columns

A frontier holds entries, each an item beside its key. Its items and its keys could as well stand in
two columns, each changed on its own: none of the operations lets them fall apart, and one that fails
leaves both as they were.
-/
namespace StateSpace

/-- The place that halving finds lies within its limits; just before it the answer was yes, and at it
no, unless it is a limit. -/
theorem Sorting.of_halve? {holds : Question} {place lo hi : Nat}
    (hplace : halve? holds lo hi = some place) (hle : lo ≤ hi) :
    lo ≤ place ∧ place ≤ hi ∧ (place = lo ∨ holds (place - 1) = some true) ∧
      (place = hi ∨ holds place = some false) := by
  fun_induction halve? holds lo hi with
  | case1 => cases hplace
  | case2 lo hi hlt htrue ih =>
      obtain ⟨hlo, hhi, hbefore, hat⟩ := ih hplace (by omega)
      refine ⟨by omega, hhi, Or.inr ?_, hat⟩
      rcases hbefore with rfl | hbefore
      · exact htrue
      · exact hbefore
  | case3 lo hi hlt hfalse ih =>
      obtain ⟨hlo, hhi, hbefore, hat⟩ := ih hplace (by omega)
      refine ⟨hlo, by omega, hbefore, Or.inr ?_⟩
      rcases hat with rfl | hat
      · exact hfalse
      · exact hat
  | case4 lo hi hge =>
      obtain rfl := Option.some.inj hplace
      exact ⟨le_rfl, hle, Or.inl rfl, Or.inl (by omega)⟩

theorem Sorting.exists_of_halve?_eq_none {holds : Question} {lo hi : Nat}
    (hnone : halve? holds lo hi = none) : ∃ place < hi, holds place = none := by
  fun_induction halve? holds lo hi with
  | case1 lo hi hlt hasked => exact ⟨_, by omega, hasked⟩
  | case2 lo hi hlt htrue ih => exact ih hnone
  | case3 lo hi hlt hfalse ih =>
      obtain ⟨place, hplace, hasked⟩ := ih hnone
      exact ⟨place, by omega, hasked⟩
  | case4 => cases hnone

namespace Frontier

/-! ### Operations -/

/-- What can be done to a frontier. -/
inductive Operation (α κ : Type) where
  | pushFront (e : Entry α κ)
  | pushBack (e : Entry α κ)
  | insertOrdered (e : Entry α κ)
  | popFront
  | popBack
  | peek
  | clear

/-- What an operation queues. -/
def Operation.arrival? {α κ : Type} : Operation α κ → Option (Entry α κ)
  | pushFront e | pushBack e | insertOrdered e => some e
  | _ => none

theorem popBack?_eq_none {α κ : Type} {f : Frontier α κ} : f.popBack? = none ↔ f.toList = [] := by
  obtain ⟨front, back⟩ := f
  cases back with
  | cons e rest => simp [popBack?, toList]
  | nil =>
      cases hfront : front.reverse with
      | nil => simp_all [popBack?, toList]
      | cons e rest => simp_all [popBack?, toList]

section Perform

variable {α κ : Type} [Quantity κ] {f : Frontier α κ}

/-- What an operation answers, if it answers at all, and what it leaves; none where it fails. -/
def perform? (f : Frontier α κ) : Operation α κ → Option (Option α × Frontier α κ)
  | .pushFront e => some (none, f.pushFront e)
  | .pushBack e => some (none, f.pushBack e)
  | .insertOrdered e => (f.insertOrdered? e).map (none, ·)
  | .popFront => f.popFront?.map fun (e, rest) => (some e.item, rest)
  | .popBack => f.popBack?.map fun (e, rest) => (some e.item, rest)
  | .peek => f.peek?.map fun e => (some e.item, f)
  | .clear => some (none, empty)

/-- An operation that fails leaves the frontier as it is. -/
def step (f : Frontier α κ) (op : Operation α κ) : Frontier α κ :=
  ((f.perform? op).map Prod.snd).getD f

/-- A fresh frontier after some operations. -/
def after (ops : List (Operation α κ)) : Frontier α κ := ops.foldl step empty

theorem after_concat (ops : List (Operation α κ)) (op : Operation α κ) :
    after (ops ++ [op]) = (after ops).step op := by
  rw [after, List.foldl_append]
  rfl

theorem insertOrdered?_eq (f : Frontier α κ) (e : Entry α κ) :
    f.insertOrdered? e = (Sorting.halve? (notAbove f.keys.toArray e.key) 0 f.keys.toArray.size).map
      fun place => ofList (f.toList.take place ++ e :: f.toList.drop place) := by
  rw [insertOrdered?, keys]
  cases Sorting.halve? (notAbove (f.toList.map (·.key)).toArray e.key) 0
      (f.toList.map (·.key)).toArray.size <;> rfl

theorem insertOrdered?_eq_none {e : Entry α κ} :
    f.insertOrdered? e = none ↔
      Sorting.halve? (notAbove f.keys.toArray e.key) 0 f.keys.toArray.size = none := by
  rw [insertOrdered?_eq, Option.map_eq_none_iff]

theorem toList_of_insertOrdered? {f g : Frontier α κ} {e : Entry α κ}
    (hinsert : f.insertOrdered? e = some g) :
    ∃ before behind, f.toList = before ++ behind ∧ g.toList = before ++ e :: behind ∧
      Sorting.halve? (notAbove f.keys.toArray e.key) 0 f.keys.toArray.size =
        some before.length := by
  rw [insertOrdered?_eq] at hinsert
  obtain ⟨place, hplace, rfl⟩ := Option.map_eq_some_iff.mp hinsert
  obtain ⟨-, hle, -⟩ := Sorting.of_halve? hplace (Nat.zero_le _)
  refine ⟨f.toList.take place, f.toList.drop place, (List.take_append_drop _ _).symm,
    toList_ofList _, ?_⟩
  rw [hplace, List.length_take, min_eq_left (by simpa [keys] using hle)]

end Perform

section Failure

variable {α : Type} {f : Frontier α Int}

/-- Halving fails only where it compares with a key that is missing. -/
theorem missing_of_insertOrdered?_eq_none {e : Entry α Int} (hnone : f.insertOrdered? e = none) :
    e.key = none ∨ ∃ d ∈ f.toList, d.key = none := by
  obtain ⟨place, hlt, hasked⟩ := Sorting.exists_of_halve?_eq_none (insertOrdered?_eq_none.mp hnone)
  by_contra hkeys
  rw [not_or, not_exists] at hkeys
  obtain ⟨hkey, hall⟩ := hkeys
  have hlt : place < f.toList.length := by simpa [keys] using hlt
  obtain ⟨k, hk⟩ := Option.ne_none_iff_exists'.mp hkey
  obtain ⟨m, hm⟩ := Option.ne_none_iff_exists'.mp fun hnone => hall _ ⟨List.getElem_mem hlt, hnone⟩
  have hget : f.keys.toArray[place]? = some (some m) := by simp [keys, hlt, hm]
  simp [notAbove, hk, hget] at hasked

/-- Where keys are integers or missing, an operation fails only on an empty frontier, or at a key that
is missing. -/
theorem of_perform?_eq_none {op : Operation α Int} (hnone : f.perform? op = none) :
    f.toList = [] ∧ (op = .popFront ∨ op = .popBack ∨ op = .peek) ∨
      ∃ e, op = .insertOrdered e ∧ (e.key = none ∨ ∃ d ∈ f.toList, d.key = none) := by
  cases op with
  | insertOrdered e =>
      exact Or.inr ⟨e, rfl, missing_of_insertOrdered?_eq_none (Option.map_eq_none_iff.mp hnone)⟩
  | popFront =>
      exact Or.inl ⟨popFront?_eq_none.mp (Option.map_eq_none_iff.mp hnone), Or.inl rfl⟩
  | popBack =>
      exact Or.inl ⟨popBack?_eq_none.mp (Option.map_eq_none_iff.mp hnone), Or.inr (Or.inl rfl)⟩
  | peek =>
      have hempty := List.head?_eq_none_iff.mp (Option.map_eq_none_iff.mp hnone)
      exact Or.inl ⟨hempty, Or.inr (Or.inr rfl)⟩
  | _ => cases hnone

end Failure

/-! ### Two columns -/

/-- Items and keys apart from each other. -/
structure Columns (α κ : Type) where
  items : List α
  keys : List (Option κ)

def columns {α κ : Type} (f : Frontier α κ) : Columns α κ := ⟨f.items, f.keys⟩

namespace Columns

/-- What is done to two columns; where it fails, what was done before stays done. -/
abbrev Change (α κ β : Type) := EStateM Unit (Columns α κ) β

variable {α κ : Type}

def takeFirstItem : Change α κ α := fun c =>
  match c.items with
  | [] => .error () c
  | a :: items => .ok a { c with items }

def takeFirstKey : Change α κ (Option κ) := fun c =>
  match c.keys with
  | [] => .error () c
  | key :: keys => .ok key { c with keys }

def takeLastItem : Change α κ α := fun c =>
  match c.items.getLast? with
  | none => .error () c
  | some a => .ok a { c with items := c.items.dropLast }

def takeLastKey : Change α κ (Option κ) := fun c =>
  match c.keys.getLast? with
  | none => .error () c
  | some key => .ok key { c with keys := c.keys.dropLast }

def changeItems (g : List α → List α) : Change α κ Unit :=
  modify fun c => { c with items := g c.items }

def changeKeys (g : List (Option κ) → List (Option κ)) : Change α κ Unit :=
  modify fun c => { c with keys := g c.keys }

/-- The first item, which stays where it is. -/
def firstItem : Change α κ α := fun c =>
  match c.items with
  | [] => .error () c
  | a :: _ => .ok a c

/-- The place behind the keys that are not above this one. -/
def placeOf? [Quantity κ] (key : Option κ) (c : Columns α κ) : Option Nat :=
  Sorting.halve? (notAbove c.keys.toArray key) 0 c.keys.toArray.size

/-- The operations, column by column. -/
def perform [Quantity κ] : Operation α κ → Change α κ (Option α)
  | .pushFront e => do
      changeItems (e.item :: ·)
      changeKeys (e.key :: ·)
      return none
  | .pushBack e => do
      changeItems (· ++ [e.item])
      changeKeys (· ++ [e.key])
      return none
  | .insertOrdered e => do
      let c ← get
      let some place := placeOf? e.key c | throw ()
      changeItems (·.insertIdx place e.item)
      changeKeys (·.insertIdx place e.key)
      return none
  | .popFront => do
      let _ ← takeFirstKey
      return some (← takeFirstItem)
  | .popBack => do
      let _ ← takeLastKey
      return some (← takeLastItem)
  | .peek => do
      return some (← firstItem)
  | .clear => do
      changeItems fun _ => []
      changeKeys fun _ => []
      return none

/-- What is left in the columns, whether or not the operation failed. -/
def step [Quantity κ] (c : Columns α κ) (op : Operation α κ) : Columns α κ :=
  match (perform op).run c with
  | .ok _ left => left
  | .error _ left => left

/-- Fresh columns after some operations. -/
def after [Quantity κ] (ops : List (Operation α κ)) : Columns α κ := ops.foldl step ⟨[], []⟩

theorem run_insertOrdered [Quantity κ] (e : Entry α κ) (c : Columns α κ) :
    (perform (.insertOrdered e)).run c =
      match placeOf? e.key c with
      | none => .error () c
      | some place =>
          .ok none ⟨c.items.insertIdx place e.item, c.keys.insertIdx place e.key⟩ := by
  have hread : (get : Change α κ (Columns α κ)) c = .ok c c := rfl
  simp only [perform, EStateM.run, bind, EStateM.bind, hread]
  cases placeOf? e.key c <;> rfl

theorem run_popBack [Quantity κ] (c : Columns α κ) :
    (perform .popBack).run c =
      match c.keys.getLast?, c.items.getLast? with
      | some _, some a => .ok (some a) ⟨c.items.dropLast, c.keys.dropLast⟩
      | some _, none => .error () ⟨c.items, c.keys.dropLast⟩
      | none, _ => .error () c := by
  simp only [perform, EStateM.run, bind, EStateM.bind, takeLastKey, takeLastItem]
  cases hkey : c.keys.getLast? with
  | none => rfl
  | some key =>
      simp only
      cases hitem : c.items.getLast? <;> rfl

end Columns

section Columns

variable {α κ : Type} [Quantity κ] {f : Frontier α κ}

theorem insertIdx_length_append {β : Type} (front back : List β) (b : β) :
    (front ++ back).insertIdx front.length b = front ++ b :: back := by
  induction front with
  | nil => rfl
  | cons a front ih => simp [ih]

/-- Column by column an operation answers what it does on the frontier and leaves the columns of
what it leaves there; or it fails on both and leaves the columns as they were. -/
theorem perform_columns (f : Frontier α κ) (op : Operation α κ) :
    (Columns.perform op).run f.columns =
      match f.perform? op with
      | none => .error () f.columns
      | some (answer, g) => .ok answer g.columns := by
  cases op with
  | pushFront e =>
      have hleft : (f.pushFront e).columns = ⟨e.item :: f.items, e.key :: f.keys⟩ := by
        rw [columns, items, keys, toList_pushFront]
        rfl
      exact congrArg (EStateM.Result.ok none) hleft.symm
  | pushBack e =>
      have hleft : (f.pushBack e).columns = ⟨f.items ++ [e.item], f.keys ++ [e.key]⟩ := by
        rw [columns, items, keys, toList_pushBack, List.map_append, List.map_append]
        rfl
      exact congrArg (EStateM.Result.ok none) hleft.symm
  | insertOrdered e =>
      rw [Columns.run_insertOrdered, perform?]
      cases hinsert : f.insertOrdered? e with
      | none =>
          have hplace : Columns.placeOf? e.key f.columns = none := insertOrdered?_eq_none.mp hinsert
          rw [hplace]
          rfl
      | some g =>
          obtain ⟨before, behind, hf, hg, hhalve⟩ := toList_of_insertOrdered? hinsert
          have hplace : Columns.placeOf? e.key f.columns = some before.length := hhalve
          have hitems : g.items = f.items.insertIdx before.length e.item := by
            rw [items, items, hf, hg, ← insertIdx_length_append, List.map_insertIdx]
          have hkeys : g.keys = f.keys.insertIdx before.length e.key := by
            rw [keys, keys, hf, hg, ← insertIdx_length_append, List.map_insertIdx]
          rw [hplace, Option.map_some]
          simp only
          rw [columns, columns, hitems, hkeys]
  | popFront =>
      rw [perform?]
      cases hpop : f.popFront? with
      | none =>
          rw [columns, items, keys, popFront?_eq_none.mp hpop]
          rfl
      | some pair =>
          rw [columns, items, keys, toList_of_popFront? hpop]
          rfl
  | popBack =>
      rw [perform?]
      cases hpop : f.popBack? with
      | none =>
          rw [columns, items, keys, popBack?_eq_none.mp hpop]
          rfl
      | some pair =>
          rw [Columns.run_popBack, columns, items, keys, toList_of_popBack? hpop]
          simp [columns, items, keys]
  | peek =>
      rw [perform?, peek?]
      cases hlist : f.toList with
      | nil =>
          rw [columns, items, keys, hlist]
          rfl
      | cons e rest =>
          have hleft : f.columns = ⟨e.item :: rest.map (·.item), e.key :: rest.map (·.key)⟩ := by
            rw [columns, items, keys, hlist]
            rfl
          simp only [List.head?_cons, Option.map_some]
          rw [hleft]
          rfl
  | clear => rfl

theorem after_columns (ops : List (Operation α κ)) : Columns.after ops = (after ops).columns := by
  induction ops using List.reverseRecOn with
  | nil => rfl
  | append_singleton ops op ih =>
      rw [Columns.after, List.foldl_append, ← Columns.after, ih, after_concat]
      show Columns.step (after ops).columns op = _
      rw [Columns.step, perform_columns, Frontier.step]
      cases (after ops).perform? op <;> rfl

end Columns

end Frontier

end StateSpace
