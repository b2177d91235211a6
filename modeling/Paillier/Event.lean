import Paillier.Outcome

/-!
# The log

What happens while keys are read and random numbers are drawn is recorded as a list of events, oldest first.
An event never holds a secret: it names lengths, counts and causes.
-/

namespace Paillier

/-- The two kinds of keys. -/
inductive KeyKind where
  | publicKey
  | privateKey
deriving DecidableEq, Repr

/-- The words for a kind of key. -/
def KeyKind.name : KeyKind → String
  | .publicKey => "public key"
  | .privateKey => "private key"

/-- How much attention an event deserves. -/
inductive Level where
  | trace
  | debug
  | warn
deriving DecidableEq, Repr

/-- The word for a level. -/
def Level.name : Level → String
  | .trace => "TRACE"
  | .debug => "DEBUG"
  | .warn => "WARN"

/-- The things that are recorded. -/
inductive Event where
  /-- A key pair of fewer than the recommended number of bits was asked for. -/
  | shortKeyRequested (bits : Nat)
  /-- A prime was found among random candidates. -/
  | primeFound (bits residue candidates : Nat)
  /-- A key pair was made. -/
  | keyGenerated (bits attempts : Nat)
  /-- Two primes were thrown away because `λ` and `N` have a factor in common. -/
  | totientNotCoprime
  /-- A random number was not below its bound. -/
  | valueOutOfRange
  /-- A random number below `N` shares a factor with `N`. -/
  | nonceNotUnit
  /-- The length in front of a key does not fit the bytes that follow. -/
  | lengthMismatch (kind : KeyKind) (announced payload : Nat)
  /-- The key itself was refused. -/
  | keyRefused (kind : KeyKind) (cause : Error)
deriving DecidableEq, Repr

namespace Event

/-- The level at which an event is recorded. -/
def level : Event → Level
  | shortKeyRequested _ => .warn
  | primeFound .. => .trace
  | keyGenerated .. => .debug
  | totientNotCoprime => .trace
  | valueOutOfRange => .trace
  | nonceNotUnit => .trace
  | lengthMismatch .. => .debug
  | keyRefused .. => .debug

/-- The text of an event. -/
def text : Event → String
  | shortKeyRequested bits =>
    s!"Paillier key bit length {bits} is less than the recommended {recommendedKeyBits} bits"
  | primeFound bits residue candidates =>
    s!"found {bits} bit prime = {residue} mod 8 after {candidates} candidates"
  | keyGenerated bits attempts => s!"generated {bits} bit Paillier key after {attempts} attempts"
  | totientNotCoprime => "gcd(lambda, N) != 1, drawing new primes"
  | valueOutOfRange => "random value out of range, drawing again"
  | nonceNotUnit => "nonce is not a unit mod N, drawing again"
  | lengthMismatch kind announced payload =>
    s!"rejecting {kind.name}, prefix {announced} does not match {payload} payload bytes"
  | keyRefused kind cause => s!"rejecting {kind.name}: {cause.message}"

/-- One line of the log. -/
def line (event : Event) : String := event.level.name ++ " " ++ event.text

end Event

end Paillier
