import Paillier.Format.KeyJson
import Paillier.Format.Postcard
import Paillier.Proofs.Format.KeyBytes

/-!
# What is read as a key

There are three forms of a key: bytes behind a length, JSON text, and the postcard format. Whatever the form, the numbers
that were found are handed to the constructor, with every check. So a key that was read is the key that the constructor
makes of the numbers in it. Only in the bytes behind a length no sign is written; there the numbers carry a plus.

## Main statements

* `PublicKey.ofModulus_of_ofJson`, `PublicKey.ofModulus_of_ofPostcard` — public keys.
* `PrivateKey.ofPrimes_of_ofJson`, `PrivateKey.ofPrimes_of_ofPostcard` — private keys.
-/

namespace Paillier

theorem readout_eq_ok {α : Type} {outcome : Outcome α} {a : α} : outcome.readout = .ok a ↔ outcome = .ok a := by
  cases outcome <;> simp [Outcome.readout, Except.mapError]

/-- If a reader gives keys made of their own parts, then what it reads with given parts is the key made of these. -/
theorem eq_ok_of_map_eq_ok {ε α β : Type} {read : Except ε α} (make : β → Outcome α) (parts : α → β) {a : α} {b : β}
    (hread : ∀ found, read = .ok found → make (parts found) = .ok found) (ha : make b = .ok a)
    (hparts : read.map parts = .ok b) : read = .ok a := by
  obtain ⟨found, hfound, rfl⟩ := map_eq_ok.mp hparts
  rw [hread found hfound] at ha
  cases ha
  exact hfound

namespace PublicKey

variable {a : Number} {pk : PublicKey} {text : String} {data : Bytes}

/-- An accepted modulus is that of the key. -/
theorem ofModulus_modulus (h : ofModulus a = .ok pk) : ofModulus pk.modulus = .ok pk := by
  obtain rfl := eq_of_ofModulus h
  exact h

theorem ofModulus_of_ofBytes (h : ofBytes data = .ok pk) : ofModulus pk.modulus = .ok pk :=
  ofModulus_modulus (ofBytes_eq_ok h).2

/-- **A public key that was read from JSON is the key of its modulus.** -/
theorem ofModulus_of_ofJson (h : ofJson text = .ok pk) : ofModulus pk.modulus = .ok pk := by
  obtain ⟨⟨n, rest⟩, -, h⟩ := bind_eq_ok.mp h
  obtain ⟨read, hread, h⟩ := bind_eq_ok.mp h
  obtain ⟨-, -, h⟩ := bind_eq_ok.mp h
  cases h
  exact ofModulus_modulus (readout_eq_ok.mp hread)

/-- **A public key that was read from the postcard format is the key of its modulus.** -/
theorem ofModulus_of_ofPostcard (h : ofPostcard data = .ok pk) : ofModulus pk.modulus = .ok pk := by
  obtain ⟨⟨n, rest⟩, -, hread⟩ := bind_eq_ok.mp h
  exact ofModulus_modulus (readout_eq_ok.mp hread)

/-- What is read as a key of a given modulus is the key that it makes. -/
theorem eq_ok_of_modulus {ε : Type} (read : Except ε PublicKey) (hpk : ofModulus a = .ok pk)
    (hread : ∀ found, read = .ok found → ofModulus found.modulus = .ok found)
    (hmodulus : read.map modulus = .ok a) : read = .ok pk :=
  eq_ok_of_map_eq_ok ofModulus modulus hread hpk hmodulus

end PublicKey

namespace PrivateKey

variable {a b : Number} {sk : PrivateKey} {text : String} {data : Bytes}

/-- Accepted numbers are those of the key. -/
theorem ofPrimes_primes (h : ofPrimes a b = .ok sk) : ofPrimes sk.p sk.q = .ok sk := by
  obtain ⟨hp, hq⟩ := primes_of_ofPrimes h
  rw [hp, hq, h]

theorem ofPrimes_of_ofBytes (h : ofBytes data = .ok sk) : ofPrimes sk.p sk.q = .ok sk :=
  ofPrimes_primes (ofBytes_eq_ok h).2

/-- **A private key that was read from JSON is the key of its primes.** -/
theorem ofPrimes_of_ofJson (h : ofJson text = .ok sk) : ofPrimes sk.p sk.q = .ok sk := by
  obtain ⟨⟨⟨p, q⟩, rest⟩, -, h⟩ := bind_eq_ok.mp h
  obtain ⟨read, hread, h⟩ := bind_eq_ok.mp h
  obtain ⟨-, -, h⟩ := bind_eq_ok.mp h
  cases h
  exact ofPrimes_primes (readout_eq_ok.mp hread)

/-- **A private key that was read from the postcard format is the key of its primes.** -/
theorem ofPrimes_of_ofPostcard (h : ofPostcard data = .ok sk) : ofPrimes sk.p sk.q = .ok sk := by
  obtain ⟨⟨p, rest⟩, -, h⟩ := bind_eq_ok.mp h
  obtain ⟨⟨q, rest'⟩, -, hread⟩ := bind_eq_ok.mp h
  exact ofPrimes_primes (readout_eq_ok.mp hread)

/-- What is read as a key of given primes is the key that they make. -/
theorem eq_ok_of_primes {ε : Type} (read : Except ε PrivateKey) (hsk : ofPrimes a b = .ok sk)
    (hread : ∀ found, read = .ok found → ofPrimes found.p found.q = .ok found)
    (hprimes : read.map (fun found => (found.p, found.q)) = .ok (a, b)) : read = .ok sk :=
  eq_ok_of_map_eq_ok (fun primes => ofPrimes primes.1 primes.2) (fun found => (found.p, found.q)) hread hsk hprimes

end PrivateKey

end Paillier
