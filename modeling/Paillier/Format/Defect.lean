import Paillier.Outcome

/-!
# What can be wrong with a written key
-/

namespace Paillier

/-- Why a text or a byte string was not taken as a key. -/
inductive Defect where
  /-- It does not follow the grammar of its format. -/
  | malformed
  /-- It ends before the value does. -/
  | truncated
  /-- It is a value of the format, but not one that a key is written as. -/
  | mistyped
  /-- A number in it cannot be read, or the numbers do not make a key. -/
  | unsound (cause : Failure)
deriving DecidableEq, Repr

/-- What was read, or what is wrong. -/
abbrev Readout (α : Type) := Except Defect α

/-- Takes the failure of a number or key as a defect of the form it was read from. -/
def Outcome.readout {α : Type} (outcome : Outcome α) : Readout α := outcome.mapError .unsound

end Paillier
