import StateSpace.Inspection
import StateSpace.Search

/-!
# Messages about prices that are none

The message names the rule, what it asks and where, and these are written one after another. It is
put together just where all of them can be written; else all that is said is why the first that
cannot be written is not. A value can be written where everything in it lies within the room and no
integer in it has too many digits.
-/
namespace StateSpace

/-- The obstacle to the first of some texts that is not written. -/
def firstObstacle? (texts : List (Except Unwritable String)) : Option Unwritable :=
  texts.findSome? fun text =>
    match text with
    | .ok _ => none
    | .error u => some u

/-- Texts are written one after another until one of them meets an obstacle, which is what comes of
the whole. -/
theorem bind_of_firstObstacle? {α : Type} {text : Except Unwritable String}
    {rest : List (Except Unwritable String)} {next : String → Except Unwritable α} {u : Unwritable}
    (hfirst : firstObstacle? (text :: rest) = some u)
    (hnext : firstObstacle? rest = some u → ∀ written, next written = .error u) :
    (text >>= next) = .error u := by
  cases text with
  | error e =>
      obtain rfl : e = u := Option.some.inj hfirst
      rfl
  | ok written => exact hnext hfirst written

namespace Value

variable {room : Nat} {v : Value}

/-- All that a value holds lies within the room, and its integers have few enough digits. -/
def Fits (room : Nat) (v : Value) : Prop :=
  ∀ level part, (level, part) ∈ v.parts 1 →
    level ≤ room ∧ ∀ n, part = .int n → Decimal.isWritable n = true

theorem obstacleAt?_eq_none_iff {level : Nat} {part : Value} :
    obstacleAt? room (level, part) = none ↔
      level ≤ room ∧ ∀ n, part = .int n → Decimal.isWritable n = true := by
  by_cases hroom : room < level
  · simp [obstacleAt?, hroom, Nat.not_le.mpr hroom]
  · cases part <;> simp [obstacleAt?, hroom, Nat.not_lt.mp hroom]

theorem obstacle?_eq_none_iff : v.obstacle? room = none ↔ v.Fits room := by
  rw [obstacle?, List.findSome?_eq_none_iff]
  exact ⟨fun hparts level part hmem => obstacleAt?_eq_none_iff.mp (hparts _ hmem),
    fun fits part hmem => obstacleAt?_eq_none_iff.mpr (fits part.1 part.2 hmem)⟩

theorem write_eq_ok_iff {text : String} :
    v.write room = .ok text ↔ v.Fits room ∧ text = v.quoted := by
  rw [write, ← obstacle?_eq_none_iff]
  cases v.obstacle? room <;> simp [eq_comm]

example : ((list [.list [.int 7]]).write 3).toOption = some "[[7]]" := by decide +kernel

theorem write_of_obstacle? {u : Unwritable} (hobstacle : v.obstacle? room = some u) :
    v.write room = .error u := by
  rw [write, hobstacle]

section Level

variable (hroom : 0 < room)

include hroom

theorem write_text (s : String) : (text s).write room = .ok (Text.quoted s) := by
  have hfits : (text s).Fits room := by simp [Fits, parts, Nat.one_le_of_lt hroom]
  rw [write_eq_ok_iff.mpr ⟨hfits, rfl⟩, quoted]

theorem write_int {n : Int} (hshort : Decimal.isWritable n = true) :
    (int n).write room = .ok (toString n) := by
  have hfits : (int n).Fits room := by simp [Fits, parts, Nat.one_le_of_lt hroom, hshort]
  rw [write_eq_ok_iff.mpr ⟨hfits, rfl⟩, quoted]

theorem write_int_of_long {n : Int} (hlong : Decimal.isWritable n = false) :
    (int n).write room = .error .digits := by
  have hlevel : ¬room < 1 := Nat.not_lt.mpr hroom
  exact write_of_obstacle? (by simp [obstacle?, parts, obstacleAt?, hlevel, hlong])

end Level

/-- An empty list in a list, this one in another, and so on. -/
def nested : Nat → Value
  | 0 => .list []
  | depth + 1 => .list [nested depth]

theorem toPrice?_nested (depth : Nat) : (nested depth).toPrice? = none := by
  cases depth <;> rfl

theorem findSome?_nested (depth : Nat) {level : Nat} (hdeep : room < level + depth) :
    ((nested depth).parts level).findSome? (obstacleAt? room) = some .nesting := by
  induction depth generalizing level with
  | zero => simp [nested, parts, partsAmong, obstacleAt?, show room < level by omega]
  | succ depth ih =>
      by_cases hlevel : room < level
      · simp [nested, parts, obstacleAt?, hlevel]
      · have hinner := @ih (level + 1) (by omega)
        simp [nested, parts, partsAmong, obstacleAt?, hlevel, hinner]

/-- What is nested as often as there are levels is too deep. -/
theorem write_nested (room : Nat) : (nested room).write room = .error .nesting :=
  write_of_obstacle? (findSome?_nested room (by omega))

example : (list [.list [.int 7]]).obstacle? 2 = some .nesting := by decide

end Value

namespace Fault

variable {σ : Type} [Display σ] {room : Nat} {rule asked : Value} {s : σ}

theorem message_of_written {name price place : String} (hname : rule.write room = .ok name)
    (hprice : asked.write room = .ok price) (hplace : Display.quoted room s = .ok place) :
    (Fault.price rule asked s).message room =
      .ok (some ("Rule " ++ name ++ " returned cost " ++ price ++ " for state " ++ place ++
        "; rule costs must be non-negative integers.")) := by
  rw [message, hname, hprice, hplace]
  rfl

theorem message_of_firstObstacle? {u : Unwritable}
    (hfirst : firstObstacle? [rule.write room, asked.write room, Display.quoted room s] = some u) :
    (Fault.price rule asked s).message room = .error u := by
  refine bind_of_firstObstacle? hfirst fun hprice name => ?_
  refine bind_of_firstObstacle? hprice fun hplace price => ?_
  exact bind_of_firstObstacle? hplace nofun

end Fault

namespace Finding

variable {σ : Type} [Display σ] {room : Nat} {rule asked : Value} {s t : σ}

theorem message_of_written {name price source target : String}
    (hname : rule.writePlain room = .ok name) (hprice : asked.write room = .ok price)
    (hsource : Display.plain room s = .ok source) (htarget : Display.plain room t = .ok target) :
    (Finding.unsound rule asked s t).message room =
      .ok (some ("rule " ++ name ++ " gave cost " ++ price ++ " for (s=" ++ source ++ ", s\x27=" ++
        target ++ ")")) := by
  rw [message, hname, hprice, hsource, htarget]
  rfl

theorem message_of_firstObstacle? {u : Unwritable}
    (hfirst : firstObstacle? [rule.writePlain room, asked.write room, Display.plain room s,
      Display.plain room t] = some u) :
    (Finding.unsound rule asked s t).message room = .error u := by
  refine bind_of_firstObstacle? hfirst fun hprice name => ?_
  refine bind_of_firstObstacle? hprice fun hsource price => ?_
  refine bind_of_firstObstacle? hsource fun htarget source => ?_
  exact bind_of_firstObstacle? htarget nofun

end Finding

end StateSpace
