import StateSpace.Decimal.Numeral

/-!
What may go wrong where a value that stands for anything meets an operation that does not.
-/
namespace StateSpace

/-- Why a template cannot be filled: it ends within a place or within its key, names a kind that
there is not (a code point, and where it stands), or asks for more room than can be counted. -/
inductive TemplateError where
  | incomplete
  | openKey
  | unknownKind (code index : Nat)
  | tooWide
  | tooPrecise
  deriving DecidableEq

/-- Code points that stand for themselves where a kind is refused; others are shown by a mark. -/
def shownKind (code : Nat) : Char :=
  if 31 ≤ code ∧ code ≤ 126 then Char.ofNat code else '?'

def TemplateError.message : TemplateError → String
  | .incomplete => "incomplete format"
  | .openKey => "incomplete format key"
  | .unknownKind code index =>
      "unsupported format character \x27" ++ String.singleton (shownKind code) ++ "\x27 (0x" ++
        String.ofList (Nat.toDigits 16 code) ++ s!") at index {index}"
  | .tooWide => "width too big"
  | .tooPrecise => "precision too big"

/-- Why something cannot be written: an integer in it has too many digits, or its items are nested
deeper than there is room for. -/
inductive Unwritable where
  | digits
  | nesting
  deriving DecidableEq

def Unwritable.message : Unwritable → Option String
  | .digits => some Decimal.unwritable
  | .nesting => none

/-- Why a rule, an estimate or a comparison breaks: a value is not of the kind that is worked on, or
holds no fields to look into, or not the one looked for, or has too few or too many coordinates; or
there is nothing to divide by, or an integer too large to be dealt with, or something that cannot be
written, or a NaN where an integer is needed, or more items than there is room for, or a template
that cannot be filled, or no goal to aim at. -/
inductive Defect where
  | wrongKind
  | noFields
  | noField
  | tooFew (count : Nat)
  | tooMany
  | divisionByZero
  | tooLarge
  | unwritable (u : Unwritable)
  | notANumber
  | noRoom
  | template (e : TemplateError)
  | noGoal
  deriving DecidableEq

def Defect.message : Defect → Option String
  | .tooFew count => some s!"not enough values to unpack (expected 2, got {count})"
  | .tooMany => some "too many values to unpack (expected 2)"
  | .unwritable u => u.message
  | .notANumber => some "cannot convert float NaN to integer"
  | .template e => some e.message
  | _ => none

end StateSpace
