import Paillier.Format.Json.Value
import Paillier.Key.Private

/-!
# Keys as JSON

A number is a string: its sign and the hexadecimal digits of its bytes. A public key is its modulus; a
private key is an object with the members `p` and `q`, or an array of both. Members may come in any
order and unknown ones are passed over, but neither may be missing or come twice.

The text is read from the left and the first defect counts. A number is turned into a value as soon as
its string has been read, and a key is checked as soon as its numbers are there, before the end of the
text is looked at.

## Termination

No fuel: each member takes some of the text (`scanNextName_length`, `scanMember_length`).
-/

namespace Paillier

open Json

/-! ## Writing -/

/-- A number as a JSON string. -/
def jsonOfNumber (a : Number) : List Char := '"' :: signedHex a ++ ['"']

/-- A public key as JSON text. -/
def PublicKey.toJson (pk : PublicKey) : String := String.ofList (jsonOfNumber pk.modulus)

/-- A private key as JSON text. -/
def PrivateKey.toJson (sk : PrivateKey) : String :=
  String.ofList (['{', '"', 'p', '"', ':'] ++ jsonOfNumber sk.p ++
    [',', '"', 'q', '"', ':'] ++ jsonOfNumber sk.q ++ ['}'])

/-! ## Reading -/

namespace Json

/-- A number, which is written as a string. -/
def scanNumber (s : List Char) : Readout (Number × List Char) :=
  match skipSpace s with
  | '"' :: s => do
    let (text, rest) ← scanString false s
    let a ← (numberOfHex text).readout
    return (a, rest)
  | s => .error (wrongType s)

theorem scanNumber_length {s rest : List Char} {a : Number} (h : scanNumber s = .ok (a, rest)) :
    rest.length < s.length := by
  unfold scanNumber at h
  have hs := skipSpace_length s
  split at h
  · next t ht =>
    rw [ht, List.length_cons] at hs
    obtain ⟨⟨text, t'⟩, hx, h⟩ := bind_eq_ok.mp h
    obtain ⟨b, _, h⟩ := bind_eq_ok.mp h
    cases h
    exact Nat.lt_of_lt_of_le (scanString_length hx) (Nat.le_of_succ_le hs)
  · cases h

/-- Only white space may follow the value. -/
def expectEnd (s : List Char) : Readout Unit :=
  if (skipSpace s).isEmpty then .ok () else .error .malformed

/-- Takes one of the characters that give an array or an object its shape. -/
def expect (expected : Char) (s : List Char) : Readout (List Char) :=
  match skipSpace s with
  | [] => .error .truncated
  | c :: s => if c = expected then .ok s else .error .malformed

/-- The next number of an array that should have more numbers: the bracket that ends it comes too early. -/
def scanElement (s : List Char) : Readout (Number × List Char) :=
  match skipSpace s with
  | [] => .error .truncated
  | c :: t => if c = ']' then .error .mistyped else scanNumber (c :: t)

/-- The comma between two numbers of an array. An array that ends here is too short, not malformed. -/
def scanComma (s : List Char) : Readout (List Char) :=
  match skipSpace s with
  | [] => .error .truncated
  | c :: t =>
    if c = ']' then .error .mistyped
    else if c = ',' then
      if (skipSpace t).head? = some ']' then .error .malformed else .ok t
    else .error .malformed

/-- The two numbers of an array whose bracket has been taken. -/
def scanPair (s : List Char) : Readout ((Number × Number) × List Char) := do
  let (p, s) ← scanElement s
  let s ← scanComma s
  let (q, s) ← scanElement s
  let s ← expect ']' s
  return ((p, q), s)

/-- The numbers found so far in an object. -/
structure Members where
  p : Option Number := none
  q : Option Number := none

/-- Both numbers, if both were found. -/
def Members.both (members : Members) : Readout (Number × Number) :=
  match members.p, members.q with
  | some p, some q => .ok (p, q)
  | _, _ => .error .mistyped

/-- The value of the member `name`, whose name has been taken, added to those found so far. -/
def scanMember (name : List Char) (members : Members) (s : List Char) : Readout (Members × List Char) :=
  if name = ['p'] then
    if members.p.isSome then .error .mistyped
    else do
      let (p, s) ← scanNumber (← skipColon s)
      return ({ members with p := some p }, s)
  else if name = ['q'] then
    if members.q.isSome then .error .mistyped
    else do
      let (q, s) ← scanNumber (← skipColon s)
      return ({ members with q := some q }, s)
  else do
    let s ← skipValue (← skipColon s)
    return (members, s)

/-- The name of the next member, or nothing if the object ends; a comma stands before all but the first. -/
def scanNextName (isFirst : Bool) (s : List Char) : Readout (Option (List Char) × List Char) :=
  match skipSpace s with
  | [] => .error .truncated
  | c :: t =>
    if c = '}' then .ok (none, t)
    else if isFirst then (scanName false (c :: t)).map fun (name, rest) => (some name, rest)
    else if c = ',' then (scanName false t).map fun (name, rest) => (some name, rest)
    else .error .malformed

theorem scanMember_length {name s rest : List Char} {members members' : Members}
    (h : scanMember name members s = .ok (members', rest)) : rest.length < s.length := by
  unfold scanMember at h
  split at h
  · split at h
    · cases h
    · obtain ⟨t, hc, h⟩ := bind_eq_ok.mp h
      obtain ⟨⟨p, t'⟩, hn, h⟩ := bind_eq_ok.mp h
      cases h
      exact Nat.lt_trans (scanNumber_length hn) (skipColon_length hc)
  · split at h
    · split at h
      · cases h
      · obtain ⟨t, hc, h⟩ := bind_eq_ok.mp h
        obtain ⟨⟨q, t'⟩, hn, h⟩ := bind_eq_ok.mp h
        cases h
        exact Nat.lt_trans (scanNumber_length hn) (skipColon_length hc)
    · obtain ⟨t, hc, h⟩ := bind_eq_ok.mp h
      obtain ⟨t', hv, h⟩ := bind_eq_ok.mp h
      cases h
      exact Nat.lt_of_le_of_lt (skip_length hv) (skipColon_length hc)

theorem scanNextName_length {isFirst : Bool} {s rest : List Char} {name : Option (List Char)}
    (h : scanNextName isFirst s = .ok (name, rest)) : rest.length < s.length := by
  unfold scanNextName at h
  have hs := skipSpace_length s
  split at h
  · cases h
  · next c t ht =>
    rw [ht] at hs
    refine Nat.lt_of_lt_of_le ?_ hs
    split at h
    · cases h
      exact Nat.lt_succ_self _
    · split at h
      · obtain ⟨⟨text, t'⟩, hn, he⟩ := map_eq_ok.mp h
        cases he
        exact scanName_length hn
      · split at h
        · obtain ⟨⟨text, t'⟩, hn, he⟩ := map_eq_ok.mp h
          cases he
          exact Nat.lt_succ_of_lt (scanName_length hn)
        · cases h

/-- The members of an object, from where the scan stands to its end. -/
def scanMembers (isFirst : Bool) (members : Members) (s : List Char) :
    Readout ((Number × Number) × List Char) :=
  match _h : scanNextName isFirst s with
  | .error defect => .error defect
  | .ok (none, s) => do return (← members.both, s)
  | .ok (some name, s) =>
    match _h' : scanMember name members s with
    | .error defect => .error defect
    | .ok (members, s) => scanMembers false members s
termination_by s.length
decreasing_by
  have h₁ := scanNextName_length _h
  have h₂ := scanMember_length _h'
  omega

/-- The two numbers of a private key, as an object or as an array. -/
def scanPrimes (s : List Char) : Readout ((Number × Number) × List Char) :=
  match skipSpace s with
  | [] => .error .truncated
  | c :: t =>
    if c = '[' then scanPair t
    else if c = '{' then scanMembers true {} t
    else .error (wrongType (c :: t))

end Json

/-- Reads a public key from JSON text. -/
def PublicKey.ofJson (text : String) : Readout PublicKey := do
  let (n, rest) ← scanNumber text.toList
  let pk ← (ofModulus n).readout
  expectEnd rest
  return pk

/-- Reads a private key from JSON text. -/
def PrivateKey.ofJson (text : String) : Readout PrivateKey := do
  let ((p, q), rest) ← scanPrimes text.toList
  let sk ← (ofPrimes p q).readout
  expectEnd rest
  return sk

end Paillier
