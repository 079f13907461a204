import StateSpace.Inspection
import StateSpace.Proofs.Walks

/-!
# An inspection guards every search

The walk of an inspection keeps two sets: the states it has looked at, where every rule was priced,
and those that wait. Together they hold the initial state and all that the rules lead to from the
first set. Where the walk stops short of its limit nothing waits, so that the first set alone is
closed under the rules, and no search leaves it.
-/
namespace StateSpace

namespace Problem

variable {σ κ : Type} {p : Problem σ κ} {s t : σ}

theorem leads_of_step? {position price : Nat} (hstep : p.step? s position = some (t, price)) :
    p.Leads s t := by
  obtain ⟨rule, asked, hrule, happly, -⟩ := step?_eq_some_iff.mp hstep
  exact ⟨rule, List.mem_of_getElem? hrule, asked, happly⟩

theorem of_successors_eq_ok {rules : List (Rule σ)} {targets : List σ}
    (hok : successors s rules = .ok targets) :
    (∀ rule ∈ rules, rule.IsPricedAt s) ∧
      ∀ rule ∈ rules, ∀ t asked, rule.apply s = .leads t asked → t ∈ targets := by
  induction rules generalizing targets with
  | nil => simp
  | cons rule rest ih =>
      rw [successors] at hok
      simp only [List.forall_mem_cons]
      split at hok
      · next hblocked =>
        obtain ⟨hpriced, htargets⟩ := ih hok
        refine ⟨⟨Or.inl hblocked, hpriced⟩, fun t asked happly => ?_, htargets⟩
        rw [hblocked] at happly
        cases happly
      · cases hok
      · next target asked happly =>
        split at hok
        · next hasked =>
          split at hok
          · cases hok
          · next later hlater =>
            obtain rfl := Except.ok.inj hok
            obtain ⟨hpriced, htargets⟩ := ih hlater
            refine ⟨⟨Or.inr ⟨target, asked, happly, hasked⟩, hpriced⟩, ?_, ?_⟩
            · intro t asked' happly'
              rw [happly] at happly'
              cases happly'
              exact List.mem_cons_self
            · intro rule' hrule' t asked' happly'
              exact List.mem_cons_of_mem target (htargets rule' hrule' t asked' happly')
        · cases hok

theorem ne_sound_of_successors {rules : List (Rule σ)} {finding : Finding σ} {visited : List σ}
    (herror : successors s rules = .error finding) : finding ≠ .sound visited := by
  induction rules with
  | nil => cases herror
  | cons rule rest ih =>
      rw [successors] at herror
      split at herror
      · exact ih herror
      · obtain rfl := Except.error.inj herror
        simp
      · split at herror
        · split at herror
          · next hlater =>
            obtain rfl := Except.error.inj herror
            exact ih hlater
          · cases herror
        · obtain rfl := Except.error.inj herror
          simp

/-- At the states looked at every rule is priced; what they lead to, and the initial state, was
looked at or waits. -/
structure Inspected (p : Problem σ κ) (seen waiting : List σ) : Prop where
  initial : p.initial ∈ seen ∨ p.initial ∈ waiting
  priced : ∀ s ∈ seen, ∀ rule ∈ p.rules, rule.IsPricedAt s
  leads : ∀ s ∈ seen, ∀ t, p.Leads s t → t ∈ seen ∨ t ∈ waiting

namespace Inspected

variable {seen waiting : List σ}

theorem reverse (inspected : p.Inspected seen waiting) : p.Inspected seen.reverse waiting := by
  constructor
  · simpa using inspected.initial
  · simpa using inspected.priced
  · simpa using inspected.leads

theorem skip (inspected : p.Inspected seen (s :: waiting)) (hs : s ∈ seen) :
    p.Inspected seen waiting := by
  have hdrop : ∀ t, t ∈ seen ∨ t ∈ s :: waiting → t ∈ seen ∨ t ∈ waiting := by
    intro t ht
    rcases ht with ht | ht
    · exact Or.inl ht
    · rcases List.mem_cons.mp ht with rfl | ht
      · exact Or.inl hs
      · exact Or.inr ht
  exact ⟨hdrop _ inspected.initial, inspected.priced,
    fun x hx t hleads => hdrop t (inspected.leads x hx t hleads)⟩

theorem look (inspected : p.Inspected seen (s :: waiting)) {targets : List σ}
    (hok : successors s p.rules = .ok targets) :
    p.Inspected (s :: seen) (waiting ++ targets) := by
  obtain ⟨hpriced, htargets⟩ := of_successors_eq_ok hok
  have hmove : ∀ t, t ∈ seen ∨ t ∈ s :: waiting → t ∈ s :: seen ∨ t ∈ waiting ++ targets := by
    intro t ht
    simp only [List.mem_cons, List.mem_append] at ht ⊢
    tauto
  refine ⟨hmove _ inspected.initial, List.forall_mem_cons.mpr ⟨hpriced, inspected.priced⟩, ?_⟩
  rw [List.forall_mem_cons]
  constructor
  · rintro t ⟨rule, hrule, asked, happly⟩
    exact Or.inr (List.mem_append_right waiting (htargets rule hrule t asked happly))
  · exact fun x hx t hleads => hmove t (inspected.leads x hx t hleads)

/-- Where nothing waits, every state within reach was looked at. -/
theorem mem_of_reaches (inspected : p.Inspected seen []) (hs : p.Reaches s) : s ∈ seen := by
  obtain ⟨word, cost, hfollow⟩ := hs
  induction word using List.reverseRecOn generalizing s cost with
  | nil =>
      obtain ⟨rfl, -⟩ := Prod.mk.inj (Option.some.inj hfollow)
      simpa using inspected.initial
  | append_singleton word position ih =>
      obtain ⟨t, spent, price, hword, hstep, -⟩ := follow?_concat_eq_some_iff.mp hfollow
      simpa using inspected.leads t (ih spent hword) s (leads_of_step? hstep)

end Inspected

section Walk

theorem items_foldl_pushBack (targets : List σ) (queue : Frontier σ κ) :
    (targets.foldl (fun q s => q.pushBack ⟨s, none⟩) queue).items = queue.items ++ targets := by
  rw [← List.foldl_map (f := fun s => (⟨s, none⟩ : Entry σ κ)) (g := Frontier.pushBack),
    Frontier.items, Frontier.toList_foldl_pushBack, List.map_append, List.map_map]
  simp [Frontier.items, Function.comp_def]

variable [DecidableEq σ] [Hashable σ] {queue : Frontier σ κ} {seen : Std.HashSet σ}
  {visited result : List σ} {allowance : Option Nat} {left : Nat}

/-- A walk that ends with fewer states than it was allowed has nothing left to look at. -/
theorem Inspected.of_walk (inspected : p.Inspected visited queue.items)
    (hseen : ∀ s, s ∈ seen ↔ s ∈ visited)
    (hsound : p.inspectFrom queue seen visited allowance left = .sound result)
    (hfewer : result.length < visited.length + left) : p.Inspected result [] := by
  fun_induction inspectFrom p queue seen visited allowance left with
  | case1 queue seen visited allowance =>
      obtain rfl := Finding.sound.inj hsound
      simp at hfewer
  | case2 queue seen visited allowance more hpop =>
      obtain rfl := Finding.sound.inj hsound
      rw [Frontier.items, Frontier.popFront?_eq_none.mp hpop] at inspected
      exact inspected.reverse
  | case3 => cases hsound
  | case4 queue seen visited allowance more e rest hpop _ _ hmem ih =>
      rw [Frontier.items, Frontier.toList_of_popFront? hpop] at inspected
      exact ih (inspected.skip ((hseen e.item).mp hmem)) hseen hsound hfewer
  | case5 => cases hsound
  | case6 queue seen visited allowance more e rest _ _ _ _ _ finding herror =>
      exact absurd hsound (ne_sound_of_successors herror)
  | case7 queue seen visited allowance more e rest hpop _ _ _ _ targets hok ih =>
      rw [Frontier.items, Frontier.toList_of_popFront? hpop] at inspected
      apply ih
      · rw [items_foldl_pushBack]
        exact inspected.look hok
      · intro s
        rw [Std.HashSet.mem_insert, hseen, List.mem_cons, beq_iff_eq, eq_comm]
      · exact hsound
      · rw [List.length_cons]
        omega

/-- An inspection that visited fewer states than it was allowed has visited all within reach, and
every rule is priced there. -/
theorem of_inspect_eq_sound {limit : Int} (hsound : p.inspect limit allowance = .sound visited)
    (hfewer : visited.length < limit) :
    (∀ s, p.Reaches s → s ∈ visited) ∧ p.IsPriced := by
  have hstart :
      p.Inspected [] (Frontier.empty.pushBack ⟨p.initial, none⟩ : Frontier σ κ).items := by
    constructor
    · exact Or.inr List.mem_cons_self
    · simp
    · simp
  have inspected : p.Inspected visited [] := hstart.of_walk (by simp) hsound (by simp; omega)
  exact ⟨fun s hs => inspected.mem_of_reaches hs,
    fun s hs => inspected.priced s (inspected.mem_of_reaches hs)⟩

end Walk

end Problem

namespace Search

variable {σ : Type} [DecidableEq σ] [Hashable σ] {p : Problem σ Int} {start : Search σ Int}

/-- **An inspection guards every search.** Where it finds no fault and visits fewer states than it
was allowed, no run on the problem is ever broken off, whatever the strategy and the ordering, and
all nodes that are taken from the frontier are of states that it visited. -/
theorem guarded_of_inspect {limit : Int} {allowance : Option Nat} {visited : List σ}
    (hsound : p.inspect limit allowance = .sound visited) (hfewer : visited.length < limit)
    (hestimated : p.IsEstimated) (hallowance : start.allowance = none) (strategy : Strategy)
    (discipline : Discipline) (turns : Nat) :
    (∀ t fault, start.run ⟨p, strategy, discipline⟩ turns ≠ .broken t fault) ∧
      ∀ n ∈ (start.run ⟨p, strategy, discipline⟩ turns).search.popped, n.state ∈ visited := by
  obtain ⟨hvisited, hpriced⟩ := Problem.of_inspect_eq_sound hsound hfewer
  have hunbroken : Unbroken ⟨p, strategy, discipline⟩ start :=
    unbroken_of_estimated hallowance hpriced hestimated
  refine ⟨fun t fault => hunbroken.ne_broken turns, fun n hn => ?_⟩
  have hgrows := (moment_run ⟨p, strategy, discipline⟩ start turns).grows_of_popped n hn
  exact hvisited n.state hgrows.reaches

/-- From 2 up to 8 by steps of two and doublings. -/
theorem guarded_evens :
    (Doubling.evens 2 5 8).inspect 10 none = .sound [2, 4, 6, 8] ∧
      ∀ strategy discipline turns,
        (∀ t fault, (fresh : Search Int Int).run ⟨Doubling.evens 2 5 8, strategy, discipline⟩
          turns ≠ .broken t fault) ∧
        ∀ n ∈ ((fresh : Search Int Int).run ⟨Doubling.evens 2 5 8, strategy, discipline⟩
          turns).search.popped, n.state ∈ [2, 4, 6, 8] := by
  have hsound : (Doubling.evens 2 5 8).inspect 10 none = .sound [2, 4, 6, 8] := by cbv
  exact ⟨hsound, fun strategy discipline turns =>
    guarded_of_inspect hsound (by decide) (fun _ _ => ⟨_, rfl⟩) rfl strategy discipline turns⟩

end Search

end StateSpace
