import StateSpace.Proofs.Bench
import Mathlib.Algebra.Ring.Int.Defs

/-!
# The trace that nested meters share

A meter that finds the tracer off turns it on and remembers to turn it off again. Meters that are
entered and left as their nesting has it share one trace: it is that of the outermost of them, and of
none of them if the tracer was on before. What a meter remembers of earlier use does no harm, since
every entry decides anew.
-/
namespace StateSpace

namespace Bench

open Meter (Action)

variable {ι τ β : Type} {b : Bench ι τ β} {active : List ι} {wasRunning : Bool}

/-- What holds of meters that are nested, the innermost first, if it is known whether the tracer was
on before them. -/
structure Nested (wasRunning : Bool) (active : List ι) (b : Bench ι τ β) : Prop where
  nodup : active.Nodup
  isActive_iff : ∀ i, (b.meters i).isActive = true ↔ i ∈ active
  isRunning_iff : b.gauges.tracer.isRunning = true ↔ wasRunning = true ∨ active ≠ []
  /-- Of the active meters just the outermost owns the trace, unless it was there before. -/
  ownsTrace_iff : ∀ i outer, i :: outer <:+ active →
    ((b.meters i).ownsTrace = true ↔ wasRunning = false ∧ outer = [])

theorem nested_of_idle (hidle : ∀ i, (b.meters i).isActive = false) :
    Nested b.gauges.tracer.isRunning [] b where
  nodup := List.nodup_nil
  isActive_iff i := by simp [hidle i]
  isRunning_iff := by simp
  ownsTrace_iff i outer hsuffix := by simp at hsuffix

/-- Where no meter is changed and the tracer is neither turned on nor off, the nesting stays. -/
theorem Nested.of_eq {after : Bench ι τ β} (nested : Nested wasRunning active b)
    (hmeters : after.meters = b.meters)
    (hrunning : after.gauges.tracer.isRunning = b.gauges.tracer.isRunning) :
    Nested wasRunning active after where
  nodup := nested.nodup
  isActive_iff := hmeters ▸ nested.isActive_iff
  isRunning_iff := hrunning ▸ nested.isRunning_iff
  ownsTrace_iff := hmeters ▸ nested.ownsTrace_iff

variable [DecidableEq ι]

/-- The active meters after an action, the innermost first, as long as they are nested: a meter that
is active is not entered, and only the innermost one is left. -/
def nest? (active : List ι) : ι × Action → Option (List ι)
  | (i, .enter) => if i ∈ active then none else some (i :: active)
  | (i, .exit _) => if active.head? = some i then some active.tail else none
  | (_, .elapsed) | (_, .peak) => some active

theorem nest?_enter_eq_some {i : ι} {active after : List ι} :
    nest? active (i, .enter) = some after ↔ i ∉ active ∧ after = i :: active := by
  by_cases hmem : i ∈ active <;> simp [nest?, hmem, eq_comm]

theorem nest?_exit_eq_some {i : ι} {isRaised : Bool} {active after : List ι} :
    nest? active (i, .exit isRaised) = some after ↔ active = i :: after := by
  cases active with
  | nil => simp [nest?]
  | cons j outer => by_cases hself : j = i <;> simp [nest?, hself]

/-- Where some actions keep to nesting, the first of them do. -/
theorem exists_nest_of_prefix {deeds past : List (ι × Action)}
    (hnest : (deeds.foldlM nest? active).isSome) (hpast : past <+: deeds) :
    ∃ last, past.foldlM nest? active = some last := by
  obtain ⟨later, rfl⟩ := hpast
  obtain ⟨final, hfinal⟩ := Option.isSome_iff_exists.mp hnest
  rw [List.foldlM_append] at hfinal
  obtain ⟨last, hlast, -⟩ := Option.bind_eq_some_iff.mp hfinal
  exact ⟨last, hlast⟩

variable [Instant τ] [Footprint β] [Sub τ] [Zero τ]

namespace Nested

variable {i : ι}

/-- The innermost meter is entered. If it finds the tracer off then nothing is outside it. -/
theorem enter (nested : Nested wasRunning active b) (hidle : i ∉ active) :
    Nested wasRunning (i :: active) (b.act (i, .enter)) where
  nodup := List.nodup_cons.mpr ⟨hidle, nested.nodup⟩
  isActive_iff j := by
    by_cases hself : j = i
    · subst hself
      rw [meters_act_self]
      exact iff_of_true rfl List.mem_cons_self
    · rw [meters_act_of_ne b .enter hself, nested.isActive_iff j]
      simp [hself]
  isRunning_iff :=
    iff_of_true ((b.meters i).isRunning_act b.gauges .enter) (Or.inr (List.cons_ne_nil i active))
  ownsTrace_iff j outer hsuffix := by
    rcases List.suffix_cons_iff.mp hsuffix with heq | hwithin
    · obtain ⟨rfl, rfl⟩ := List.cons.inj heq
      -- What the meter remembers of earlier use is overwritten here.
      have howns : ((b.act (j, .enter)).meters j).ownsTrace = !b.gauges.tracer.isRunning := by
        rw [meters_act_self]
        rfl
      rw [howns, Bool.not_eq_true', Bool.eq_false_iff, Ne, nested.isRunning_iff]
      simp
    · have hne : j ≠ i := fun hself => hidle (hself ▸ hwithin.subset List.mem_cons_self)
      rw [meters_act_of_ne b .enter hne]
      exact nested.ownsTrace_iff j outer hwithin

/-- The innermost meter is left. It turns the tracer off if it owns the trace, which it does not
while another one is outside it. -/
theorem exit {isRaised : Bool} {outer : List ι} (nested : Nested wasRunning (i :: outer) b) :
    Nested wasRunning outer (b.act (i, .exit isRaised)) := by
  obtain ⟨hleft, hnodup⟩ := List.nodup_cons.mp nested.nodup
  have hne : ∀ j ∈ outer, j ≠ i := fun j hj hself => hleft (hself ▸ hj)
  have howns := nested.ownsTrace_iff i outer List.suffix_rfl
  have hrunning : b.gauges.tracer.isRunning = true :=
    nested.isRunning_iff.mpr (Or.inr (List.cons_ne_nil i outer))
  refine ⟨hnodup, fun j => ?_, ?_, fun j further hsuffix => ?_⟩
  · by_cases hself : j = i
    · subst hself
      rw [meters_act_self]
      exact iff_of_false Bool.false_ne_true hleft
    · rw [meters_act_of_ne b _ hself, nested.isActive_iff j]
      simp [hself]
  · have hafter : (b.act (i, .exit isRaised)).gauges.tracer.isRunning =
        (b.gauges.tracer.isRunning && !(b.meters i).ownsTrace) :=
      (b.meters i).isRunning_act b.gauges (.exit isRaised)
    rw [hafter, hrunning, Bool.true_and, Bool.not_eq_true', Bool.eq_false_iff, Ne, howns]
    cases wasRunning <;> simp
  · rw [meters_act_of_ne b _ (hne j (hsuffix.subset List.mem_cons_self))]
    exact nested.ownsTrace_iff j further (hsuffix.trans (List.suffix_cons i outer))

theorem act (nested : Nested wasRunning active b) {deed : ι × Action} {after : List ι}
    (hnest : nest? active deed = some after) : Nested wasRunning after (b.act deed) := by
  obtain ⟨i, action⟩ := deed
  cases action with
  | enter =>
      obtain ⟨hidle, rfl⟩ := nest?_enter_eq_some.mp hnest
      exact nested.enter hidle
  | exit isRaised =>
      obtain rfl := nest?_exit_eq_some.mp hnest
      exact nested.exit
  | elapsed =>
      obtain rfl := Option.some.inj hnest
      exact nested.of_eq (Function.update_eq_self i b.meters)
        ((b.meters i).isRunning_act b.gauges .elapsed)
  | peak =>
      obtain rfl := Option.some.inj hnest
      exact nested.of_eq (Function.update_eq_self i b.meters)
        ((b.meters i).isRunning_act b.gauges .peak)

theorem after (nested : Nested wasRunning active b) {deeds : List (ι × Action)} {last : List ι}
    (hnest : deeds.foldlM nest? active = some last) : Nested wasRunning last (b.after deeds) := by
  induction deeds generalizing b active with
  | nil =>
      obtain rfl := Option.some.inj hnest
      exact nested
  | cons deed later ih =>
      obtain ⟨next, hdeed, hlater⟩ := Option.bind_eq_some_iff.mp hnest
      exact ih (nested.act hdeed) hlater

end Nested

/-- **Nested meters share one trace and leave it as it was.** Take meters of which none is active,
whatever they remember of earlier use, and a tracer that is on or off. The meters are entered and left
as their nesting has it, each any number of times, with exceptions or without. At every moment the
tracer is on just where it was on before or some meter is active. So it is never turned off when one
meter is left within another, and once all are left it is as it was. -/
theorem isRunning_of_nested (hidle : ∀ i, (b.meters i).isActive = false)
    {deeds past : List (ι × Action)} (hnest : (deeds.foldlM nest? []).isSome)
    (hpast : past <+: deeds) :
    let now := b.after past
    let isActive (i : ι) := (now.meters i).isActive = true
    ∃ active, past.foldlM nest? [] = some active ∧ (∀ i, isActive i ↔ i ∈ active) ∧
      (now.gauges.tracer.isRunning = true ↔
        b.gauges.tracer.isRunning = true ∨ ∃ i, isActive i) ∧
      (∀ i isRaised, past ++ [(i, .exit isRaised)] <+: deeds → ∀ outer, outer ≠ i → isActive outer →
        (now.act (i, .exit isRaised)).gauges.tracer.isRunning = true) ∧
      ((∀ i, ¬ isActive i) → now.gauges.tracer.isRunning = b.gauges.tracer.isRunning) := by
  intro now isActive
  obtain ⟨active, hactive⟩ := exists_nest_of_prefix hnest hpast
  have nested : Nested b.gauges.tracer.isRunning active now := (nested_of_idle hidle).after hactive
  have hrunning : now.gauges.tracer.isRunning = true ↔
      b.gauges.tracer.isRunning = true ∨ ∃ i, isActive i := by
    have hsome : active ≠ [] ↔ ∃ i, i ∈ active :=
      ⟨List.exists_mem_of_ne_nil active, fun ⟨_, hmem⟩ => List.ne_nil_of_mem hmem⟩
    simp only [isActive, nested.isRunning_iff, nested.isActive_iff, hsome]
  refine ⟨active, hactive, nested.isActive_iff, hrunning, ?_, fun hall => ?_⟩
  · intro i isRaised hnext outer hne houter
    have hmem : outer ∈ active := (nested.isActive_iff outer).mp houter
    obtain ⟨left, hleft⟩ := exists_nest_of_prefix hnest hnext
    have hexit : nest? active (i, .exit isRaised) = some left := by
      simpa [List.foldlM_append, hactive] using hleft
    obtain rfl := nest?_exit_eq_some.mp hexit
    have hstays : left ≠ [] := List.ne_nil_of_mem (List.mem_of_ne_of_mem hne hmem)
    exact nested.exit.isRunning_iff.mpr (Or.inr hstays)
  · rw [Bool.eq_iff_iff, hrunning]
    exact or_iff_left fun ⟨i, hi⟩ => hall i hi

/-- Two meters remember from earlier use that they own a trace. The second is entered within the first,
and its exit leaves the tracer on, also with an exception; then the second is entered alone. -/
theorem isRunning_of_nested_twice :
    let used : Meter Int Int := { Meter.new with ownsTrace := true }
    let b : Bench Nat Int Int :=
      { meters := fun _ => used
        gauges := { clock := ⟨[], 0⟩, tracer := { isRunning := false, peaks := ⟨[], 0⟩ } } }
    let within := [(1, .enter), (2, .enter), (2, .exit true)]
    let all := within ++ [(1, .exit true), (2, .enter), (2, .exit false)]
    (b.after within).gauges.tracer.isRunning = true ∧
      (b.after all).gauges.tracer.isRunning = false := by
  intro used b within all
  have hidle : ∀ i, (b.meters i).isActive = false := fun _ => rfl
  have hnest : (all.foldlM nest? []).isSome := rfl
  obtain ⟨-, -, -, hrunning, -⟩ := isRunning_of_nested hidle hnest (List.prefix_append within _)
  obtain ⟨active, hactive, hmem, -, -, hfound⟩ := isRunning_of_nested hidle hnest List.prefix_rfl
  obtain rfl : [] = active := Option.some.inj hactive
  exact ⟨hrunning.mpr (Or.inr ⟨1, rfl⟩), hfound fun i hi => List.not_mem_nil ((hmem i).mp hi)⟩

end Bench

end StateSpace
