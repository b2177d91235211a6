import Paillier.Number.Residue

/-!
# Primality

`isPrime` joins two tests that fail on different numbers: the strong test to base 2 (a square root of `1`
other than `±1` betrays a composite) and the strong Lucas test with the first discriminant in
`5, -7, 9, -11, …` whose Jacobi symbol is `-1`. Every prime passes both; no composite number is
known that does, and there is none below `2 ^ 64`.

## Termination

* `oddPart` — an even number is halved.
* `jacobi` — the upper argument shrinks.
* `lucasTerm` — the index is halved.
* `squaresTo`, `doublesToZero` — the number of squarings left.
* `discriminantFrom` — the number of candidates left; one per residue is more than enough.
-/

namespace Paillier

/-! ## The strong test to base 2 -/

/-- Writes `n` as `2 ^ s * d` with `d` odd, giving `(s, d)`; zero counts as odd. -/
def oddPart (n : Nat) : Nat × Nat :=
  if n = 0 ∨ n % 2 = 1 then (0, n)
  else
    let (s, d) := oddPart (n / 2)
    (s + 1, d)
termination_by n
decreasing_by omega

/-- Whether one of `x, x², x⁴, …` (`count` numbers) is `target` modulo `n`. -/
def squaresTo (target n : Nat) : (count x : Nat) → Bool
  | 0, _ => false
  | count + 1, x => x == target || squaresTo target n count (x * x % n)

/-- The strong probable prime test of an odd `n` to the base `a`. -/
def isStrongProbablePrime (a n : Nat) : Bool :=
  let (s, d) := oddPart (n - 1)
  let x := powMod a d n
  x == 1 || squaresTo (n - 1) n s x

/-! ## The strong Lucas test -/

/-- The Jacobi symbol of `a` over an odd `n`. -/
def jacobi (a n : Nat) : Int :=
  if a = 0 then (if n = 1 then 1 else 0)
  else if a % 2 = 0 then
    (if n % 8 = 3 ∨ n % 8 = 5 then -1 else 1) * jacobi (a / 2) n
  else
    (if a % 4 = 3 ∧ n % 4 = 3 then -1 else 1) * jacobi (n % a) a
termination_by a
decreasing_by
  · omega
  · exact Nat.mod_lt _ (Nat.pos_of_ne_zero ‹_›)

/-- The `k`-th discriminant that is tried: `5, -7, 9, -11, …`. -/
def discriminant (k : Nat) : Int := if k % 2 = 0 then 2 * k + 5 else -(2 * k + 5)

/--
The first discriminant from the `k`-th on whose Jacobi symbol over `n` is `-1`. One that shares a proper
factor with `n` ends the search without a find.
-/
def discriminantFrom (n : Nat) : (left k : Nat) → Option Int
  | 0, _ => none
  | left + 1, k =>
    let residue := (discriminant k % n).toNat
    match jacobi residue n with
    | -1 => some (discriminant k)
    | 0 => if residue = 0 then discriminantFrom n left (k + 1) else none
    | _ => discriminantFrom n left (k + 1)

/-- The terms `U` and `V` of a Lucas sequence at one index, and the power `Q` of its second parameter. -/
structure LucasTerm where
  u : Nat
  v : Nat
  q : Nat

/-- Half of `a` modulo an odd `n`. -/
def halve (a n : Nat) : Nat := if a % 2 = 0 then a / 2 % n else (a + n) / 2 % n

namespace LucasTerm

/-- From the index `k` to the index `2 * k`. -/
def double (n : Nat) (t : LucasTerm) : LucasTerm where
  u := t.u * t.v % n
  v := (t.v * t.v + 2 * (n - t.q)) % n
  q := t.q * t.q % n

/-- From the index `k` to the index `k + 1`, for the first parameter `1`. -/
def next (n d q : Nat) (t : LucasTerm) : LucasTerm where
  u := halve (t.u + t.v) n
  v := halve (d * t.u + t.v) n
  q := t.q * q % n

end LucasTerm

/-- The term with index `k` modulo an odd `n`, for the discriminant `d` and the parameters `1` and `q`. -/
def lucasTerm (n d q k : Nat) : LucasTerm :=
  if k = 0 then ⟨0, 2 % n, 1 % n⟩
  else
    let even := (lucasTerm n d q (k / 2)).double n
    if k % 2 = 0 then even else even.next n d q
termination_by k
decreasing_by omega

/-- Whether `V` is zero at one of the indices `k, 2k, 4k, …` (`count` numbers), from the term at `k`. -/
def doublesToZero (n : Nat) : (count : Nat) → LucasTerm → Bool
  | 0, _ => false
  | count + 1, t => t.v == 0 || doublesToZero n count (t.double n)

/-- The strong Lucas probable prime test of an odd `n`. -/
def isStrongLucasProbablePrime (n : Nat) : Bool :=
  match discriminantFrom n n 0 with
  | none => false
  | some d =>
    let (s, k) := oddPart (n + 1)
    let t := lucasTerm n (d % n).toNat (((1 - d) / 4) % n).toNat k
    t.u == 0 || doublesToZero n s t

/-! ## Both together -/

/-- Whether `n` passes as a prime. -/
def isPrime (n : Nat) : Bool :=
  if n < 2 then false
  else if n % 2 = 0 then n == 2
  else isStrongProbablePrime 2 n && isStrongLucasProbablePrime n

end Paillier
