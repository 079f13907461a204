import StateSpace.Quantity

/-!
The open list of a search: one sequence with two ends, each item beside an optional key. It is held
as a front and a reversed back; `toList` is the sequence itself, and every operation has one lemma
that says what it does to that view.
-/
namespace StateSpace

structure Entry (α κ : Type) where
  item : α
  key : Option κ
  deriving DecidableEq

structure Frontier (α κ : Type) where
  front : List (Entry α κ)
  back : List (Entry α κ)

namespace Frontier

variable {α κ : Type}

def empty : Frontier α κ := ⟨[], []⟩

def ofList (entries : List (Entry α κ)) : Frontier α κ := ⟨entries, []⟩

def toList (f : Frontier α κ) : List (Entry α κ) := f.front ++ f.back.reverse

def size (f : Frontier α κ) : Nat := f.front.length + f.back.length

def items (f : Frontier α κ) : List α := f.toList.map (·.item)

def keys (f : Frontier α κ) : List (Option κ) := f.toList.map (·.key)

def pushBack (f : Frontier α κ) (e : Entry α κ) : Frontier α κ := { f with back := e :: f.back }

def pushFront (f : Frontier α κ) (e : Entry α κ) : Frontier α κ := { f with front := e :: f.front }

def popFront? (f : Frontier α κ) : Option (Entry α κ × Frontier α κ) :=
  match f.front with
  | e :: rest => some (e, { f with front := rest })
  | [] =>
      match f.back.reverse with
      | [] => none
      | e :: rest => some (e, ofList rest)

def popBack? (f : Frontier α κ) : Option (Entry α κ × Frontier α κ) :=
  match f.back with
  | e :: rest => some (e, { f with back := rest })
  | [] =>
      match f.front.reverse with
      | [] => none
      | e :: rest => some (e, ⟨[], rest⟩)

def peek? (f : Frontier α κ) : Option (Entry α κ) := f.toList.head?

/-- Whether the key at a place is not above the given one; there is no answer when either key is
missing, or the two have no order. -/
def notAbove [Quantity κ] (keys : Array (Option κ)) (key : Option κ) : Sorting.Question :=
  fun place =>
    match key, keys[place]? with
    | some k, some (some m) => (Quantity.below? k m).map not
    | _, _ => none

/-- Inserts behind the keys that are not above the new one, at the place that halving finds; none
when a comparison has no answer. -/
def insertOrdered? [Quantity κ] (f : Frontier α κ) (e : Entry α κ) : Option (Frontier α κ) :=
  let entries := f.toList
  let keys := (entries.map (·.key)).toArray
  match Sorting.halve? (notAbove keys e.key) 0 keys.size with
  | none => none
  | some place => some (ofList (entries.take place ++ e :: entries.drop place))

@[simp]
theorem toList_empty : (empty : Frontier α κ).toList = [] := rfl

@[simp]
theorem toList_ofList (entries : List (Entry α κ)) : (ofList entries).toList = entries := by
  simp [ofList, toList]

@[simp]
theorem toList_pushBack (f : Frontier α κ) (e : Entry α κ) :
    (f.pushBack e).toList = f.toList ++ [e] := by
  simp [pushBack, toList]

@[simp]
theorem toList_pushFront (f : Frontier α κ) (e : Entry α κ) :
    (f.pushFront e).toList = e :: f.toList := by
  simp [pushFront, toList]

theorem length_toList (f : Frontier α κ) : f.toList.length = f.size := by
  simp [toList, size]

theorem popFront?_eq_none {f : Frontier α κ} : f.popFront? = none ↔ f.toList = [] := by
  obtain ⟨front, back⟩ := f
  cases front with
  | cons e rest => simp [popFront?, toList]
  | nil =>
    cases h : back.reverse with
    | nil => simp [popFront?, toList, h]
    | cons e rest => simp [popFront?, toList, h]

theorem toList_of_popFront? {f rest : Frontier α κ} {e : Entry α κ}
    (h : f.popFront? = some (e, rest)) : f.toList = e :: rest.toList := by
  obtain ⟨front, back⟩ := f
  cases front with
  | cons a tail =>
    simp only [popFront?, Option.some.injEq, Prod.mk.injEq] at h
    obtain ⟨rfl, rfl⟩ := h
    simp [toList]
  | nil =>
    cases hb : back.reverse with
    | nil => simp [popFront?, hb] at h
    | cons a tail =>
      simp only [popFront?, hb, Option.some.injEq, Prod.mk.injEq] at h
      obtain ⟨rfl, rfl⟩ := h
      simp [toList, hb, ofList]

theorem size_of_popFront? {f rest : Frontier α κ} {e : Entry α κ}
    (h : f.popFront? = some (e, rest)) : f.size = rest.size + 1 := by
  rw [← length_toList, ← length_toList, toList_of_popFront? h, List.length_cons]

theorem toList_of_popBack? {f rest : Frontier α κ} {e : Entry α κ}
    (h : f.popBack? = some (e, rest)) : f.toList = rest.toList ++ [e] := by
  obtain ⟨front, back⟩ := f
  cases back with
  | cons a tail =>
    simp only [popBack?, Option.some.injEq, Prod.mk.injEq] at h
    obtain ⟨rfl, rfl⟩ := h
    simp [toList]
  | nil =>
    cases hf : front.reverse with
    | nil => simp [popBack?, hf] at h
    | cons a tail =>
      simp only [popBack?, hf, Option.some.injEq, Prod.mk.injEq] at h
      obtain ⟨rfl, rfl⟩ := h
      have : front = tail.reverse ++ [a] := by
        rw [← List.reverse_reverse front, hf]
        simp
      simp [toList, this]

end Frontier

end StateSpace
