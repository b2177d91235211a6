import Paillier.Format.Hexadecimal
import Paillier.Format.Printable
import Paillier.Key.Private

/-!
# Text for inspection

Values as a programmer wants to see them while looking for a mistake. Numbers are shown at full width, so
that their length gives nothing away, and a private key shows its modulus only. In a quoted text every
character can be told by sight.
-/

namespace Paillier

/--
How a character is written in a quoted text: quotes and backslashes take a backslash, and one that does not
show is written as its code point.
-/
def quotedChar (c : Char) : List Char :=
  if c = '"' then ['\\', '"']
  else if c = '\\' then ['\\', '\\']
  else if c = '\n' then ['\\', 'n']
  else if c = '\r' then ['\\', 'r']
  else if c = '\t' then ['\\', 't']
  else if c = '\x00' then ['\\', '0']
  else if isConcealed c then ['\\', 'u', '{'] ++ Nat.toDigits 16 c.toNat ++ ['}']
  else [c]

/-- A text in quotes. -/
def quoted (text : String) : String :=
  String.ofList ('"' :: text.toList.flatMap quotedChar ++ ['"'])

/-- The cause of a refusal, with its detail. -/
def Error.inspect : Error → String
  | .internal detail => "InternalError(" ++ quoted detail ++ ")"
  | cause => cause.name

/-- A number at full width, in upper-case digits. -/
def inspectNumber (a : Number) : String :=
  let digits := (hexOfBytes (bigEndian a.magnitude)).map Char.toUpper
  let padding := List.replicate (2 * capacityBytes - digits.length) '0'
  String.ofList ((if a.sign = .minus then ['-'] else []) ++ "Uint(0x".toList ++ padding ++ digits ++ [')'])

/-- A public key with its modulus and the square of it. -/
def PublicKey.inspect (pk : PublicKey) : String :=
  "PublicKey \x7b n: " ++ inspectNumber pk.modulus ++ ", nn: " ++ inspectNumber pk.modulusSquared ++ " \x7d"

/-- A private key without its secrets. -/
def PrivateKey.inspect (sk : PrivateKey) : String :=
  "PrivateKey \x7b n: " ++ inspectNumber sk.publicKey.modulus ++ ", .. \x7d"

end Paillier
