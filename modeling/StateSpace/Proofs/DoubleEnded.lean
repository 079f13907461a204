import StateSpace.Proofs.Columns
import StateSpace.Proofs.StableOrder
import Mathlib.Data.List.Chain
import Mathlib.Data.List.Nodup
import Mathlib.Data.List.Perm.Subperm

/-!
# A stable queue with two ends

What was put in its place by halving stands in order with its neighbours, whatever else is done to a
frontier. So where all that waits was put there so, the frontier is the stable sort of what waits in
the order of arrival: the front came first of those with the least key, and the back last of those
with the greatest. Entries are told apart by serial numbers, which no operation looks at.
-/
namespace StateSpace

/-- The same key beside another item. -/
def Entry.map {α β κ : Type} (g : α → β) (e : Entry α κ) : Entry β κ := ⟨g e.item, e.key⟩

namespace Frontier

namespace Operation

variable {α β κ : Type}

def map (g : α → β) : Operation α κ → Operation β κ
  | pushFront e => pushFront (e.map g)
  | pushBack e => pushBack (e.map g)
  | insertOrdered e => insertOrdered (e.map g)
  | popFront => popFront
  | popBack => popBack
  | peek => peek
  | clear => clear

theorem arrival?_map (g : α → β) (op : Operation α κ) :
    (op.map g).arrival? = op.arrival?.map (Entry.map g) := by
  cases op <;> rfl

end Operation

/-! ### Serial numbers -/

section Serial

variable {α β κ : Type} {ops : List (Operation α κ)}

/-- The items before an entry are replaced by what they are mapped to. -/
def map (g : α → β) (f : Frontier α κ) : Frontier β κ :=
  ⟨f.front.map (Entry.map g), f.back.map (Entry.map g)⟩

theorem toList_map (g : α → β) (f : Frontier α κ) :
    (f.map g).toList = f.toList.map (Entry.map g) := by
  simp [toList, map]

theorem keys_map (g : α → β) (f : Frontier α κ) : (f.map g).keys = f.keys := by
  rw [keys, toList_map, List.map_map]
  rfl

theorem map_ofList (g : α → β) (entries : List (Entry α κ)) :
    (ofList entries).map g = ofList (entries.map (Entry.map g)) := rfl

theorem popFront?_map (g : α → β) (f : Frontier α κ) :
    (f.map g).popFront? = f.popFront?.map (Prod.map (Entry.map g) (map g)) := by
  obtain ⟨front, back⟩ := f
  cases front with
  | cons e rest => rfl
  | nil =>
      simp only [map, popFront?, List.map_nil, ← List.map_reverse]
      cases back.reverse <;> rfl

theorem popBack?_map (g : α → β) (f : Frontier α κ) :
    (f.map g).popBack? = f.popBack?.map (Prod.map (Entry.map g) (map g)) := by
  obtain ⟨front, back⟩ := f
  cases back with
  | cons e rest => rfl
  | nil =>
      simp only [map, popBack?, List.map_nil, ← List.map_reverse]
      cases front.reverse <;> rfl

/-- The operations with what they queue numbered by its place among them. -/
def numbered (ops : List (Operation α κ)) : List (Operation (Nat × α) κ) :=
  ops.zipIdx.map fun (op, serial) => op.map (serial, ·)

/-- What came in, in its order. -/
def arrivals (ops : List (Operation α κ)) : List (Entry (Nat × α) κ) :=
  (numbered ops).filterMap Operation.arrival?

/-- The number of the operation that queued an entry. -/
def serial (e : Entry (Nat × α) κ) : Nat := e.item.1

theorem numbered_concat (ops : List (Operation α κ)) (op : Operation α κ) :
    numbered (ops ++ [op]) = numbered ops ++ [op.map (ops.length, ·)] := by
  simp [numbered, List.zipIdx_append]

theorem map_numbered (ops : List (Operation α κ)) :
    (numbered ops).map (Operation.map Prod.snd) = ops := by
  have hback : ∀ pair : Operation α κ × Nat,
      (pair.1.map (pair.2, ·)).map Prod.snd = pair.1 := by
    rintro ⟨op, serial⟩
    cases op <;> rfl
  rw [numbered, List.map_map, Function.comp_def]
  simp only [hback]
  exact List.zipIdx_map_fst 0 ops

theorem mem_arrivals_iff {e : Entry (Nat × α) κ} :
    e ∈ arrivals ops ↔
      ∃ op, ops[serial e]? = some op ∧ op.arrival? = some (e.map Prod.snd) := by
  obtain ⟨⟨serial, a⟩, key⟩ := e
  simp only [arrivals, numbered, List.mem_filterMap, List.mem_map, Prod.exists,
    List.mem_zipIdx_iff_getElem?]
  constructor
  · rintro ⟨_, ⟨op, place, hop, rfl⟩, harrival⟩
    rw [Operation.arrival?_map, Option.map_eq_some_iff] at harrival
    obtain ⟨⟨b, key'⟩, harrival, heq⟩ := harrival
    obtain ⟨⟨rfl, rfl⟩, rfl⟩ := Entry.mk.inj heq |>.imp_left Prod.mk.inj
    exact ⟨op, hop, harrival⟩
  · rintro ⟨op, hop, harrival⟩
    refine ⟨_, ⟨op, serial, hop, rfl⟩, ?_⟩
    rw [Operation.arrival?_map, harrival]
    rfl

theorem eq_of_serial_eq {d e : Entry (Nat × α) κ} (hd : d ∈ arrivals ops) (he : e ∈ arrivals ops)
    (heq : serial d = serial e) : d = e := by
  obtain ⟨op, hop, harrival⟩ := mem_arrivals_iff.mp hd
  obtain ⟨op', hop', harrival'⟩ := mem_arrivals_iff.mp he
  rw [heq] at hop
  obtain rfl := Option.some.inj (hop.symm.trans hop')
  have hsame := Option.some.inj (harrival.symm.trans harrival')
  obtain ⟨⟨i, a⟩, key⟩ := d
  obtain ⟨⟨i', a'⟩, key'⟩ := e
  obtain ⟨rfl, rfl⟩ := Entry.mk.inj hsame
  obtain rfl : i = i' := heq
  rfl

theorem pairwise_serial_arrivals (ops : List (Operation α κ)) :
    (arrivals ops).Pairwise fun d e => serial d < serial e := by
  have hzip : ops.zipIdx.Pairwise fun a b => a.2 < b.2 := by
    rw [← List.pairwise_map (f := Prod.snd) (R := (· < ·)), List.zipIdx_map_snd]
    exact List.pairwise_lt_range' 1
  rw [arrivals, numbered, List.filterMap_map, List.pairwise_filterMap]
  refine hzip.imp fun {a b} hlt d hd e he => ?_
  simp only [Function.comp_apply, Operation.arrival?_map, Option.map_eq_some_iff] at hd he
  obtain ⟨-, -, rfl⟩ := hd
  obtain ⟨-, -, rfl⟩ := he
  exact hlt

variable [Quantity κ] {f : Frontier α κ} {op : Operation α κ}

theorem insertOrdered?_map (g : α → β) (f : Frontier α κ) (e : Entry α κ) :
    (f.map g).insertOrdered? (e.map g) = (f.insertOrdered? e).map (map g) := by
  rw [insertOrdered?_eq, insertOrdered?_eq, keys_map, Option.map_map, toList_map]
  show Option.map _ (Sorting.halve? (notAbove f.keys.toArray e.key) 0 f.keys.toArray.size) = _
  simp [Function.comp_def, map_ofList]

/-- What is done depends on the keys alone. -/
theorem step_map (g : α → β) (f : Frontier α κ) (op : Operation α κ) :
    (f.map g).step (op.map g) = (f.step op).map g := by
  cases op with
  | pushFront e => rfl
  | pushBack e => rfl
  | insertOrdered e =>
      simp only [step, perform?, Operation.map, insertOrdered?_map]
      cases f.insertOrdered? e <;> rfl
  | popFront =>
      simp only [step, perform?, Operation.map, popFront?_map]
      cases f.popFront? <;> rfl
  | popBack =>
      simp only [step, perform?, Operation.map, popBack?_map]
      cases f.popBack? <;> rfl
  | peek =>
      simp only [step, perform?, Operation.map, Option.map_map]
      cases f.peek? <;> cases (f.map g).peek? <;> rfl
  | clear => rfl

theorem after_map (g : α → β) (ops : List (Operation α κ)) :
    after (ops.map (Operation.map g)) = (after ops).map g := by
  induction ops using List.reverseRecOn with
  | nil => rfl
  | append_singleton ops op ih =>
      rw [List.map_append, List.map_singleton, after_concat, after_concat, ih, step_map]

/-- What waits after some operations, with its serial numbers. -/
def waiting (ops : List (Operation α κ)) : List (Entry (Nat × α) κ) := (after (numbered ops)).toList

theorem waiting_concat (ops : List (Operation α κ)) (op : Operation α κ) :
    waiting (ops ++ [op]) = ((after (numbered ops)).step (op.map (ops.length, ·))).toList := by
  rw [waiting, numbered_concat, after_concat]

theorem toList_after (ops : List (Operation α κ)) :
    (after ops).toList = (waiting ops).map (Entry.map Prod.snd) := by
  rw [waiting, ← toList_map, ← after_map, map_numbered]

/-- What an operation does to the entries: one is put in front, behind, or between at a place found
by halving, or what is left is a part of what was there. -/
inductive Stepped (f : Frontier α κ) : Operation α κ → List (Entry α κ) → Prop where
  | front (e : Entry α κ) : Stepped f (.pushFront e) (e :: f.toList)
  | back (e : Entry α κ) : Stepped f (.pushBack e) (f.toList ++ [e])
  | between (e : Entry α κ) (before behind : List (Entry α κ))
      (toList : f.toList = before ++ behind)
      (place : Sorting.halve? (notAbove f.keys.toArray e.key) 0 f.keys.toArray.size =
        some before.length) :
      Stepped f (.insertOrdered e) (before ++ e :: behind)
  | part (op : Operation α κ) (left : List (Entry α κ)) (within : left <:+: f.toList) :
      Stepped f op left

theorem stepped (f : Frontier α κ) (op : Operation α κ) : Stepped f op (f.step op).toList := by
  have hself : f.toList <:+: f.toList := List.infix_rfl
  cases op with
  | pushFront e =>
      show Stepped f _ (f.pushFront e).toList
      rw [toList_pushFront]
      exact .front e
  | pushBack e =>
      show Stepped f _ (f.pushBack e).toList
      rw [toList_pushBack]
      exact .back e
  | insertOrdered e =>
      rw [step, perform?]
      cases hinsert : f.insertOrdered? e with
      | none => exact .part _ _ hself
      | some g =>
          obtain ⟨before, behind, hf, hg, hplace⟩ := toList_of_insertOrdered? hinsert
          show Stepped f _ g.toList
          rw [hg]
          exact .between e before behind hf hplace
  | popFront =>
      rw [step, perform?]
      cases hpop : f.popFront? with
      | none => exact .part _ _ hself
      | some pair =>
          refine .part _ _ ?_
          rw [toList_of_popFront? hpop]
          exact (List.suffix_cons _ _).isInfix
  | popBack =>
      rw [step, perform?]
      cases hpop : f.popBack? with
      | none => exact .part _ _ hself
      | some pair =>
          refine .part _ _ ?_
          rw [toList_of_popBack? hpop]
          exact (List.prefix_append _ _).isInfix
  | peek =>
      rw [step, perform?]
      cases f.peek? <;> exact .part _ _ hself
  | clear => exact .part _ _ List.nil_infix

/-- Nothing waits after an operation that did not wait before or was queued by it. -/
theorem Stepped.subperm {left : List (Entry α κ)} (hstepped : Stepped f op left) :
    left.Subperm (f.toList ++ op.arrival?.toList) := by
  cases hstepped with
  | front e => exact (List.perm_append_singleton e f.toList).symm.subperm
  | back e => exact List.Subperm.refl _
  | between e before behind hf =>
      rw [hf]
      exact (List.perm_middle.trans (List.perm_append_singleton e _).symm).subperm
  | part op left hpart =>
      exact (hpart.sublist.trans (List.sublist_append_left _ _)).subperm

theorem waiting_subperm (ops : List (Operation α κ)) : (waiting ops).Subperm (arrivals ops) := by
  suffices hafter : ∀ ops : List (Operation (Nat × α) κ),
      (after ops).toList.Subperm (ops.filterMap Operation.arrival?) from hafter (numbered ops)
  intro ops
  induction ops using List.reverseRecOn with
  | nil => exact List.nil_subperm
  | append_singleton ops op ih =>
      rw [after_concat, List.filterMap_append]
      refine (stepped _ op).subperm.trans ?_
      cases harrival : op.arrival? with
      | none => simpa [harrival] using ih
      | some e => simpa [harrival] using (List.subperm_append_right [e]).mpr ih

theorem nodup_serial_waiting (ops : List (Operation α κ)) : ((waiting ops).map serial).Nodup := by
  have harrivals : ((arrivals ops).map serial).Nodup :=
    List.pairwise_map.mpr ((pairwise_serial_arrivals ops).imp fun hlt => hlt.ne)
  obtain ⟨some, hperm, hsublist⟩ := waiting_subperm ops
  exact ((hperm.map serial).nodup_iff).mp (harrivals.sublist (hsublist.map serial))

/-- What came in and waits still, in the order of arrival. -/
def present (ops : List (Operation α κ)) : List (Entry (Nat × α) κ) :=
  (arrivals ops).filter fun e => decide (serial e ∈ (waiting ops).map serial)

theorem waiting_perm_present (ops : List (Operation α κ)) : (waiting ops).Perm (present ops) := by
  have hpresent : (present ops).Nodup :=
    ((pairwise_serial_arrivals ops).filter _).imp fun hlt heq => hlt.ne (congrArg serial heq)
  refine (List.perm_ext_iff_of_nodup (nodup_serial_waiting ops).of_map hpresent).mpr fun e => ?_
  rw [present, List.mem_filter, decide_eq_true_eq, List.mem_map]
  constructor
  · exact fun he => ⟨(waiting_subperm ops).subset he, e, he, rfl⟩
  · rintro ⟨he, d, hd, heq⟩
    exact eq_of_serial_eq ((waiting_subperm ops).subset hd) he heq ▸ hd

end Serial

/-! ### Order -/

section Order

variable {α : Type} {f : Frontier α Int} {e : Entry α Int} {before behind : List (Entry α Int)}
  (hlist : f.toList = before ++ behind)
  (hplace : Sorting.halve? (notAbove f.keys.toArray e.key) 0 f.keys.toArray.size =
    some before.length)

include hlist hplace

/-- Halving asks about the last key before the place that it finds. -/
theorem le_of_mem_getLast? {d : Entry α Int} {k m : Int} (hd : d ∈ before.getLast?)
    (hk : e.key = some k) (hm : d.key = some m) : m ≤ k := by
  obtain ⟨init, rfl⟩ := List.getLast?_eq_some_iff.mp hd
  obtain ⟨-, -, hbefore, -⟩ := Sorting.of_halve? hplace (Nat.zero_le _)
  have hasked : notAbove f.keys.toArray e.key init.length = some true := by
    simpa using hbefore
  have hkey : f.keys.toArray[init.length]? = some (some m) := by simp [keys, hlist, hm]
  simpa [notAbove, hk, hkey] using hasked

/-- Halving asks about the first key behind the place that it finds. -/
theorem lt_of_mem_head? {d : Entry α Int} {k m : Int} (hd : d ∈ behind.head?)
    (hk : e.key = some k) (hm : d.key = some m) : k < m := by
  obtain ⟨tail, rfl⟩ := List.head?_eq_some_iff.mp hd
  obtain ⟨-, -, -, hat⟩ := Sorting.of_halve? hplace (Nat.zero_le _)
  have hasked : notAbove f.keys.toArray e.key before.length = some false := by
    simpa [keys, hlist] using hat
  have hkey : f.keys.toArray[before.length]? = some (some m) := by simp [keys, hlist, hm]
  simpa [notAbove, hk, hkey] using hasked

end Order

section Order

variable {α : Type}

/-- An operation keeps neighbours in order where what is queued at an end is in order with all, and
what is inserted is so with all that its key allows on that side. -/
theorem Stepped.isChain {f : Frontier α Int} {op : Operation α Int} {left : List (Entry α Int)}
    {r : Entry α Int → Entry α Int → Prop} (hstepped : Stepped f op left)
    (hchain : f.toList.IsChain r) (hfront : ∀ e, op = .pushFront e → ∀ d, r e d)
    (hback : ∀ e, op = .pushBack e → ∀ d, r d e)
    (hbetween : ∀ e, op = .insertOrdered e → ∀ d ∈ f.toList,
      ((∀ k m, e.key = some k → d.key = some m → m ≤ k) → r d e) ∧
        ((∀ k m, e.key = some k → d.key = some m → k < m) → r e d)) :
    left.IsChain r := by
  cases hstepped with
  | front e => exact List.isChain_cons.mpr ⟨fun d _ => hfront e rfl d, hchain⟩
  | back e =>
      refine List.isChain_append.mpr ⟨hchain, List.isChain_singleton e, fun d _ d' hd' => ?_⟩
      obtain rfl : e = d' := by simpa using hd'
      exact hback e rfl d
  | between e before behind hlist hplace =>
      rw [hlist] at hchain hbetween
      obtain ⟨hbefore, hbehind, -⟩ := List.isChain_append.mp hchain
      refine List.isChain_append.mpr
        ⟨hbefore, List.isChain_cons.mpr ⟨fun d hd => ?_, hbehind⟩, fun d hd d' hd' => ?_⟩
      · have hmem : d ∈ before ++ behind := List.mem_append_right _ (List.mem_of_mem_head? hd)
        exact (hbetween e rfl d hmem).2 fun k m => lt_of_mem_head? hlist hplace hd
      · obtain rfl : e = d' := by simpa using hd'
        have hmem : d ∈ before ++ behind := List.mem_append_left _ (List.mem_of_getLast? hd)
        exact (hbetween e rfl d hmem).1 fun k m => le_of_mem_getLast? hlist hplace hd
  | part op left hpart => exact hchain.infix hpart

variable {ops before rest : List (Operation α Int)} {d e : Entry (Nat × α) Int}

/-- The key of an entry that has one. -/
def rank (e : Entry (Nat × α) Int) : Int := e.key.getD 0

/-- An entry was put in its place by an integer key. -/
def IsInserted (ops : List (Operation α Int)) (e : Entry (Nat × α) Int) : Prop :=
  ∃ a k, ops[serial e]? = some (.insertOrdered ⟨a, some k⟩)

/-- Lower keys first, and of equal keys what came in earlier. -/
abbrev Precedes : Entry (Nat × α) Int → Entry (Nat × α) Int → Prop :=
  Ahead rank fun d e => serial d < serial e

theorem key_of_isInserted (he : e ∈ waiting before) (hinserted : IsInserted (before ++ rest) e) :
    e.key = some (rank e) ∧ serial e < before.length := by
  obtain ⟨op, hop, harrival⟩ := mem_arrivals_iff.mp ((waiting_subperm before).subset he)
  obtain ⟨hlt, -⟩ := List.getElem?_eq_some_iff.mp hop
  obtain ⟨a, k, hinsert⟩ := hinserted
  rw [List.getElem?_append_left hlt, hop] at hinsert
  obtain rfl := Option.some.inj hinsert
  have hkey : e.key = some k := congrArg Entry.key (Option.some.inj harrival).symm
  exact ⟨by rw [rank, hkey]; rfl, hlt⟩

/-- Of neighbours that were put in their places by integer keys the first precedes the second. -/
theorem isChain_waiting (hops : ops = before ++ rest) :
    (waiting before).IsChain fun d e => IsInserted ops d → IsInserted ops e → Precedes d e := by
  induction before using List.reverseRecOn generalizing rest with
  | nil => exact List.isChain_nil
  | append_singleton before op ih =>
      have hat : ops[before.length]? = some op := by simp [hops]
      have hops : ops = before ++ op :: rest := by simp [hops]
      rw [waiting_concat]
      refine (stepped _ _).isChain (ih hops) (fun e he d hinserted => ?_)
        (fun e he d _ hinserted => ?_) fun e he d hd => ?_
      · -- What was pushed was not put in its place by its key.
        cases op with
        | pushFront e' =>
            obtain rfl := Operation.pushFront.inj he
            obtain ⟨a, k, hinserted⟩ := hinserted
            cases hat.symm.trans hinserted
        | _ => cases he
      · cases op with
        | pushBack e' =>
            obtain rfl := Operation.pushBack.inj he
            obtain ⟨a, k, hinserted⟩ := hinserted
            cases hat.symm.trans hinserted
        | _ => cases he
      · cases op with
        | insertOrdered e' =>
            obtain rfl := Operation.insertOrdered.inj he
            have hkey : IsInserted ops (e'.map (before.length, ·)) →
                ∃ k, e'.key = some k ∧ rank (e'.map (before.length, ·)) = k := by
              rintro ⟨a, k, hinserted⟩
              cases hat.symm.trans hinserted
              exact ⟨k, rfl, rfl⟩
            constructor
            · intro hle hdinserted hinserted
              obtain ⟨hdkey, hearlier⟩ := key_of_isInserted hd (hops ▸ hdinserted)
              obtain ⟨k, hk, hrank⟩ := hkey hinserted
              rcases (hle k (rank d) hk hdkey).lt_or_eq with hlt | heq
              · exact Or.inl (hrank ▸ hlt)
              · exact Or.inr ⟨hrank ▸ heq, hearlier⟩
            · intro hlt hinserted hdinserted
              obtain ⟨hdkey, -⟩ := key_of_isInserted hd (hops ▸ hdinserted)
              obtain ⟨k, hk, hrank⟩ := hkey hinserted
              exact Or.inl (hrank ▸ hlt k (rank d) hk hdkey)
        | _ => cases he

section Inserted

variable (hinserted : ∀ e ∈ waiting ops, IsInserted ops e)

include hinserted

theorem pairwise_waiting : (waiting ops).Pairwise Precedes := by
  have htrans : Trans (Precedes (α := α)) Precedes Precedes :=
    ⟨fun hab hbc => Ahead.trans (fun a b c => Nat.lt_trans) hab hbc⟩
  have hchain := isChain_waiting (List.append_nil ops).symm
  refine List.isChain_iff_pairwise.mp (hchain.imp_of_mem_imp fun d e hd he hde => ?_)
  exact hde (hinserted d hd) (hinserted e he)

theorem waiting_eq_stableSort : waiting ops = stableSort (belowBy rank) (present ops) := by
  exact eq_stableSort_of_pairwise_ahead (fun a b => Nat.lt_asymm) (pairwise_waiting hinserted)
    (pairwise_of_key_eq ((pairwise_serial_arrivals ops).filter _)) (waiting_perm_present ops)

/-- What is popped from the front precedes all that is left. -/
theorem exists_of_popFront {a : α} {f : Frontier α Int}
    (hpop : (after ops).perform? .popFront = some (some a, f)) :
    ∃ e, e.item.2 = a ∧ waiting ops = e :: waiting (ops ++ [.popFront]) ∧
      ∀ d ∈ waiting (ops ++ [.popFront]), Precedes e d := by
  rw [perform?, ← map_numbered ops, after_map, popFront?_map] at hpop
  cases hnumbered : (after (numbered ops)).popFront? with
  | none =>
      rw [hnumbered] at hpop
      cases hpop
  | some pair =>
      obtain ⟨e, rest⟩ := pair
      rw [hnumbered] at hpop
      cases hpop
      have hrest : waiting (ops ++ [.popFront]) = rest.toList := by
        rw [waiting_concat, Operation.map, step, perform?, hnumbered]
        rfl
      have hwaiting : waiting ops = e :: rest.toList := toList_of_popFront? hnumbered
      have hpairwise := pairwise_waiting hinserted
      rw [hwaiting] at hpairwise
      rw [hrest]
      exact ⟨e, rfl, hwaiting, (List.pairwise_cons.mp hpairwise).1⟩

/-- All that is left precedes what is popped from the back. -/
theorem exists_of_popBack {a : α} {f : Frontier α Int}
    (hpop : (after ops).perform? .popBack = some (some a, f)) :
    ∃ e, e.item.2 = a ∧ waiting ops = waiting (ops ++ [.popBack]) ++ [e] ∧
      ∀ d ∈ waiting (ops ++ [.popBack]), Precedes d e := by
  rw [perform?, ← map_numbered ops, after_map, popBack?_map] at hpop
  cases hnumbered : (after (numbered ops)).popBack? with
  | none =>
      rw [hnumbered] at hpop
      cases hpop
  | some pair =>
      obtain ⟨e, rest⟩ := pair
      rw [hnumbered] at hpop
      cases hpop
      have hrest : waiting (ops ++ [.popBack]) = rest.toList := by
        rw [waiting_concat, Operation.map, step, perform?, hnumbered]
        rfl
      have hwaiting : waiting ops = rest.toList ++ [e] := toList_of_popBack? hnumbered
      have hpairwise := pairwise_waiting hinserted
      rw [hwaiting] at hpairwise
      rw [hrest]
      refine ⟨e, rfl, hwaiting, fun d hd => ?_⟩
      exact (List.pairwise_append.mp hpairwise).2.2 d hd e List.mem_cons_self

end Inserted

/-- **A frontier is a stable queue with two ends.** After any operations its items and its keys, kept
in two columns, are those of its entries, as many of the one as of the other; an operation answers
the same there, and one that fails changes neither column, which with integer keys means that there
was nothing to take or that a key was missing. What waits are entries of some of the operations,
each of another one, with the keys that these brought. Where all of them were put in their places by
integer keys, they are the stable sort of the arrivals that wait; then the front came first of those
with the least key, and the back last of those with the greatest. -/
theorem stable_of_operations (α : Type) :
    (∀ (κ : Type) [Quantity κ] (ops : List (Operation α κ)),
      Columns.after ops = (after ops).columns ∧
      (Columns.after ops).items.length = (Columns.after ops).keys.length ∧
      (∀ op, (after ops).perform? op = none →
        (Columns.perform op).run (Columns.after ops) = .error () (Columns.after ops)) ∧
      (∀ op answer f, (after ops).perform? op = some (answer, f) →
        (Columns.perform op).run (Columns.after ops) = .ok answer f.columns) ∧
      (after ops).toList = (waiting ops).map (Entry.map Prod.snd) ∧
      ((waiting ops).map serial).Nodup ∧
      ∀ e ∈ waiting ops, ∃ op, ops[serial e]? = some op ∧ op.arrival? = some (e.map Prod.snd)) ∧
    ∀ ops : List (Operation α Int),
      (∀ op, (after ops).perform? op = none →
        (after ops).toList = [] ∧ (op = .popFront ∨ op = .popBack ∨ op = .peek) ∨
          ∃ e, op = .insertOrdered e ∧ (e.key = none ∨ ∃ d ∈ (after ops).toList, d.key = none)) ∧
      ((∀ e ∈ waiting ops, IsInserted ops e) →
        waiting ops = stableSort (belowBy rank) (present ops) ∧
        (∀ a f, (after ops).perform? .popFront = some (some a, f) →
          ∃ e, e.item.2 = a ∧ waiting ops = e :: waiting (ops ++ [.popFront]) ∧
            ∀ d ∈ waiting (ops ++ [.popFront]),
              rank e < rank d ∨ rank e = rank d ∧ serial e < serial d) ∧
        ∀ a f, (after ops).perform? .popBack = some (some a, f) →
          ∃ e, e.item.2 = a ∧ waiting ops = waiting (ops ++ [.popBack]) ++ [e] ∧
            ∀ d ∈ waiting (ops ++ [.popBack]),
              rank d < rank e ∨ rank d = rank e ∧ serial d < serial e) := by
  constructor
  · intro κ _ ops
    have hperform := perform_columns (after ops)
    rw [← after_columns] at hperform
    refine ⟨after_columns ops, ?_, fun op hnone => ?_, fun op answer f hsome => ?_,
      toList_after ops, nodup_serial_waiting ops,
      fun e he => mem_arrivals_iff.mp ((waiting_subperm ops).subset he)⟩
    · rw [after_columns, columns, items, keys, List.length_map, List.length_map]
    · rw [hperform, hnone]
    · rw [hperform, hsome]
  · exact fun ops => ⟨fun op => of_perform?_eq_none, fun hinserted =>
      ⟨waiting_eq_stableSort hinserted, fun a f => exists_of_popFront hinserted,
        fun a f => exists_of_popBack hinserted⟩⟩

/-- Four items by two keys; then one is taken from each end. -/
def exchange : List (Operation Nat Int) :=
  [.insertOrdered ⟨10, some 2⟩, .insertOrdered ⟨11, some 1⟩, .insertOrdered ⟨12, some 2⟩,
    .insertOrdered ⟨13, some 1⟩, .popFront, .popBack]

/-- The first item of the lower key and the second of the higher are gone. -/
theorem stable_exchange :
    (after exchange).items = [13, 10] ∧ (∀ e ∈ waiting exchange, IsInserted exchange e) ∧
      waiting exchange = stableSort (belowBy rank) (present exchange) := by
  have hwaiting : waiting exchange = [⟨(3, 13), some 1⟩, ⟨(0, 10), some 2⟩] := by
    simp [exchange, waiting, numbered, after, step, perform?, Operation.map, Entry.map,
      insertOrdered?, Sorting.halve?, notAbove, popFront?, popBack?, toList, ofList, empty]
  have hinserted : ∀ e ∈ waiting exchange, IsInserted exchange e := by
    rw [hwaiting]
    simp [IsInserted, exchange, serial]
  refine ⟨?_, hinserted, (((stable_of_operations Nat).2 exchange).2 hinserted).1⟩
  rw [items, toList_after, hwaiting]
  rfl

end Order

end Frontier

end StateSpace
