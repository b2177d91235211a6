/-!
# Refusals, faults and outcomes

Two things can keep an operation from giving a value, and they are kept apart.

* A **refusal** (`Error`) is part of the scheme: a key, plaintext, ciphertext, nonce or parameter was
  examined and turned down, or the entropy source ran dry. There are eight causes; each has a name and
  a message.
* A **fault** (`Fault`) is a request the arithmetic cannot carry out: a number would outgrow its
  capacity, a modulus is even where only odd ones work, a divisor is zero, a numeral cannot be read, a
  length cannot be counted.

An `Outcome` is a value, a refusal or a fault.
-/

namespace Paillier

/-! ## Key lengths -/

/-- The shortest modulus that is accepted anywhere, in bits. It is only fit for experiments. -/
def minKeyBits : Nat := 256

/-- The shortest modulus that should carry real secrets, in bits. -/
def recommendedKeyBits : Nat := 2048

/-! ## Refusals -/

/-- The causes for which the scheme turns a request down. -/
inductive Error where
  /-- A required argument is missing, empty or of the wrong shape. -/
  | invalidParameter
  /-- A key breaks one of its structural conditions. -/
  | invalidKey
  /-- A modulus is below the minimum length. -/
  | keyTooShort
  /-- A plaintext is outside `[0, N)` or does not fit the form asked for. -/
  | invalidPlaintext
  /-- A ciphertext is outside `[0, N²)` or shares a factor with `N`. -/
  | invalidCiphertext
  /-- A nonce chosen by the caller is not a unit modulo `N`. -/
  | invalidRandomness
  /-- Scratch space could not be reserved. -/
  | outOfMemory
  /-- An arithmetic invariant failed, or the entropy source did. -/
  | internal (detail : String)
deriving DecidableEq, Repr

namespace Error

/-- The entropy source could not hand out the bytes that were asked for. -/
def entropyFailure : Error := .internal "entropy source failure"

/-- The function `L` was given a number that is not `1` modulo `N`. -/
def notOneModN : Error := .internal "L input is not 1 mod N"

/-- A ciphertext that had to be inverted has no inverse modulo `N²`. -/
def notInvertible : Error := .internal "ciphertext has no inverse mod N^2"

/-- The sentence that tells a user what was wrong. -/
def message : Error → String
  | invalidParameter => "Invalid parameter"
  | invalidKey => "Invalid key"
  | keyTooShort => s!"Key length is below the minimum of {minKeyBits} bits"
  | invalidPlaintext => "Invalid plaintext"
  | invalidCiphertext => "Invalid ciphertext"
  | invalidRandomness => "Invalid randomness, must be coprime to the modulus"
  | outOfMemory => "Out of memory"
  | internal detail => "Internal error: " ++ detail

/-- The name of the cause. -/
def name : Error → String
  | invalidParameter => "InvalidParameter"
  | invalidKey => "InvalidKey"
  | keyTooShort => "KeyTooShort"
  | invalidPlaintext => "InvalidPlaintext"
  | invalidCiphertext => "InvalidCiphertext"
  | invalidRandomness => "InvalidRandomness"
  | outOfMemory => "OutOfMemory"
  | internal _ => "InternalError"

end Error

/-! ## Faults -/

/-- The requests that the arithmetic cannot carry out. -/
inductive Fault where
  /-- A sum or product needs more bits than a number can hold. -/
  | capacityExceeded
  /-- More bytes than a number can hold were to be read as one. -/
  | oversizedBytes
  /-- A text that had to be a hexadecimal numeral is none. -/
  | malformedNumeral
  /-- A modular product or power was asked for modulo an even number. -/
  | evenModulus
  /-- A division by zero was asked for. -/
  | divisionByZero
  /-- A length is too large to be counted, or so many bytes cannot be one block. -/
  | lengthOverflow
deriving DecidableEq, Repr

/-! ## Outcomes -/

/-- Why there is no value. -/
inductive Failure where
  | refused (cause : Error)
  | fault (cause : Fault)
deriving DecidableEq, Repr

/-- A value, a refusal or a fault. -/
abbrev Outcome (α : Type) := Except Failure α

/-- Turns the request down. -/
def refuse {α : Type} (cause : Error) : Outcome α := .error (.refused cause)

/-- Gives the request up. -/
def fault {α : Type} (cause : Fault) : Outcome α := .error (.fault cause)

@[simp] theorem refuse_ne_ok {α : Type} {cause : Error} {a : α} : (refuse cause : Outcome α) ≠ .ok a := by
  intro h
  cases h

@[simp] theorem ok_ne_refuse {α : Type} {cause : Error} {a : α} : (.ok a : Outcome α) ≠ refuse cause := by
  intro h
  cases h

@[simp] theorem refuse_inj {α : Type} {cause other : Error} :
    (refuse cause : Outcome α) = refuse other ↔ cause = other := by
  simp [refuse]

/-- A value that comes out after a check for a refusal has passed it. -/
theorem ite_refuse_eq_ok {α : Type} {c : Prop} [Decidable c] {cause : Error} {x : Outcome α} {a : α} :
    (if c then refuse cause else x) = .ok a ↔ ¬ c ∧ x = .ok a := by
  by_cases h : c <;> simp [h]

/-- Two steps give a value iff the first gives one and the second gives one for it. -/
theorem bind_eq_ok {ε α β : Type} {x : Except ε α} {f : α → Except ε β} {b : β} :
    x >>= f = .ok b ↔ ∃ a, x = .ok a ∧ f a = .ok b := by
  cases x with
  | error e => exact ⟨(nomatch ·), fun ⟨_, h, _⟩ => (nomatch h)⟩
  | ok a =>
    exact ⟨fun h => ⟨a, rfl, h⟩, fun ⟨_, ha, h⟩ => by cases ha; exact h⟩

/-- A step that gives a value hands it to the next one. -/
@[simp] theorem ok_bind {ε α β : Type} (a : α) (f : α → Except ε β) : (.ok a : Except ε α) >>= f = f a := rfl

/-- A refusal ends the computation. -/
@[simp] theorem refuse_bind {α β : Type} (cause : Error) (f : α → Outcome β) :
    (refuse cause : Outcome α) >>= f = refuse cause := rfl

/-- A value that is passed through a function comes from a value. -/
theorem map_eq_ok {ε α β : Type} {x : Except ε α} {f : α → β} {b : β} :
    x.map f = .ok b ↔ ∃ a, x = .ok a ∧ f a = b := by
  cases x with
  | error e => exact ⟨(nomatch ·), fun ⟨_, h, _⟩ => (nomatch h)⟩
  | ok a =>
    exact ⟨fun h => ⟨a, rfl, Except.ok.inj h⟩, fun ⟨_, ha, h⟩ => by cases ha; rw [← h]; rfl⟩

end Paillier
