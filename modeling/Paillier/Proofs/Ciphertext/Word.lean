import Mathlib.Algebra.Order.BigOperators.Group.List
import Mathlib.Data.List.Perm.Basic
import Paillier.Proofs.Ciphertext.Decryption
import Paillier.Proofs.Ciphertext.Fresh
import Paillier.Proofs.Number.Word

/-!
# Arithmetic on words

An accepted modulus has at least 256 bits and a word has 64. So the sum, difference or product of two words, and the
sum of up to `2 ^ 128` of them, is far from the modulus on both sides: what is below zero comes back from the top of
`[0, N)`, where no word is, and what is above the words stays there. Decryption to a word therefore gives the exact
result or refuses it, and nothing wraps around.

## Main statements

* `PrivateKey.Sound.decryptWord_of_holds` — decryption to a word checks the value that is held.
* `Summation.exists_total` — sums of ciphertexts, in any order and with any brackets.
* `PrivateKey.words_checked` — both together, under an accepted key.
-/

namespace Paillier

open Number (positive)
open Residuosity

/-! ## Checked words -/

/-- The word of that value, if there is one. -/
def checkedWord (z : Int) : Outcome UInt64 :=
  if 0 ≤ z ∧ z < (2 ^ 64 : Nat) then .ok (UInt64.ofNat z.toNat) else refuse .invalidPlaintext

/-- **A word that comes out has the value.** -/
theorem checkedWord_eq_ok_iff {z : Int} {w : UInt64} : checkedWord z = .ok w ↔ (w.toNat : Int) = z := by
  have hw := w.toNat_lt
  unfold checkedWord
  split
  · next hz =>
    have hmod : z.toNat % 2 ^ 64 = z.toNat := Nat.mod_eq_of_lt (by omega)
    rw [Except.ok.injEq, ← UInt64.toNat_inj, UInt64.toNat_ofNat', hmod]
    omega
  · next hz =>
    refine iff_of_false refuse_ne_ok ?_
    rintro rfl
    omega

namespace PrivateKey.Sound

variable {sk : PrivateKey} {c : Number} {z : Int}

theorem decryptWord_eq (h : sk.Sound) {m : Nat} (hm : m < sk.publicKey.n) (hc : sk.publicKey.Holds c m) :
    sk.decryptWord c = checkedWord m := by
  rw [decryptWord, h.decrypt_of_holds hm hc, ok_bind, (Number.denotes_ofNat m).toWord?_eq, checkedWord]
  by_cases hword : 0 ≤ (m : Int) ∧ (m : Int) < (2 ^ 64 : Nat)
  · rw [if_pos hword, if_pos hword]
    rfl
  · rw [if_neg hword, if_neg hword]

/-- **Decryption to a word checks the value that is held**, where the value is not too far from the words. -/
theorem decryptWord_of_holds (h : sk.Sound) (hlong : 2 ^ 255 ≤ sk.publicKey.n) (hc : sk.publicKey.Holds c z)
    (hlow : -2 ^ 192 ≤ z) (hhigh : z ≤ 2 ^ 192) : sk.decryptWord c = checkedWord z := by
  by_cases hneg : z < 0
  · -- below zero the modulus is added, which leaves the words far behind
    obtain ⟨m, hm⟩ := Int.eq_ofNat_of_zero_le (by omega : 0 ≤ z + sk.publicKey.n)
    have hwrapped : sk.publicKey.Holds c m := by
      refine hc.congr h.publicKey ?_
      rw [← hm]
      exact Int.add_modEq_right.symm
    rw [h.decryptWord_eq (by omega) hwrapped, checkedWord, checkedWord, if_neg (by omega), if_neg (by omega)]
  · obtain ⟨m, rfl⟩ := Int.eq_ofNat_of_zero_le (Int.not_lt.mp hneg)
    exact h.decryptWord_eq (by omega) hc

end PrivateKey.Sound

/-! ## One operation -/

namespace PrivateKey

/--
The operation with a word is `operation` with a fresh encryption of that word. Whatever the encryption is, the result is
decrypted to the exact value, or refused if that is no word.
-/
structure ChecksWord (sk : PrivateKey) (b : UInt64) (wordOperation : Sampler Number)
    (operation : Number → Outcome Number) (exact : Int) : Prop where
  runOn_eq (source : Source) : wordOperation.runOn source =
    match (sk.publicKey.encryptWord b).runOn source with
    | (.ok e, rest) => (operation e, rest)
    | (.error failure, rest) => (.error failure, rest)
  exists_eq : ∀ e ∈ (sk.publicKey.encryptWord b).outputs, ∃ d, operation e = .ok d ∧ sk.decryptWord d = checkedWord exact

/-- What is computed with the ciphertext is computed with the word, exactly or not at all. -/
structure StandsFor (sk : PrivateKey) (c : Number) (a : UInt64) : Prop where
  decryptWord_eq : sk.decryptWord c = .ok a
  addWord (b : UInt64) : sk.ChecksWord b (sk.publicKey.addWord c b) (sk.publicKey.add c) ((a.toNat : Int) + b.toNat)
  subWord (b : UInt64) : sk.ChecksWord b (sk.publicKey.subWord c b) (sk.publicKey.sub c) ((a.toNat : Int) - b.toNat)
  mulWord (b : UInt64) : ∃ e, sk.publicKey.mulWord c b = .ok e ∧
    sk.decryptWord e = checkedWord ((a.toNat : Int) * b.toNat)

/-- The word is encrypted with each nonce and with nothing else, at the price of a nonce, and the ciphertext stands for
it. -/
structure EncryptsWord (sk : PrivateKey) (a : UInt64) : Prop where
  outputs_eq : (sk.publicKey.encryptWord a).outputs =
    (fun j => (encryption sk.publicKey.n a.toNat j : Number)) '' sk.publicKey.nonces
  spends : (sk.publicKey.encryptWord a).Spends (sk.publicKey.drawNonces 1) fun c => sk.StandsFor c a

namespace Sound

variable {sk : PrivateKey} {c : Number} {a b : UInt64}

theorem toNat_lt (hlong : 2 ^ 255 ≤ sk.publicKey.n) (a : UInt64) : a.toNat < sk.publicKey.n := by
  have ha := a.toNat_lt
  omega

/-- Every word is a plaintext. -/
theorem checkPlaintext_word (h : sk.Sound) (hlong : 2 ^ 255 ≤ sk.publicKey.n) (a : UInt64) :
    sk.publicKey.checkPlaintext a.toNat = .ok () :=
  h.publicKey.checkPlaintext_eq_ok (Number.denotes_ofNat a.toNat) (toNat_lt hlong a)

theorem spends_encryptWord (h : sk.Sound) (hlong : 2 ^ 255 ≤ sk.publicKey.n) (a : UInt64) :
    (sk.publicKey.encryptWord a).Spends (sk.publicKey.drawNonces 1) fun c => sk.publicKey.Holds c a.toNat := by
  refine (h.publicKey.spends_encrypt (h.checkPlaintext_word hlong a)).mono ?_
  rintro _ ⟨r, j, hr, rfl⟩
  rw [Number.magnitude_ofNat]
  exact h.publicKey.holds_encryption hr.coprime

/-- An operation that encrypts its scalar checks it, if what it goes on with gives the exact value for all that hold the
word. -/
theorem checksWord (h : sk.Sound) (hlong : 2 ^ 255 ≤ sk.publicKey.n)
    {scalarOperation : Number → Number → Sampler Number} {operation combine : Number → Number → Outcome Number}
    (hcombines : sk.publicKey.Combines scalarOperation operation combine)
    (hc : sk.publicKey.checkCiphertext c = .ok ()) {exact : Int} (hlow : -2 ^ 192 ≤ exact) (hhigh : exact ≤ 2 ^ 192)
    (hexact : ∀ e, sk.publicKey.Holds e b.toNat → ∃ d, operation c e = .ok d ∧ sk.publicKey.Holds d exact) :
    sk.ChecksWord b (scalarOperation c b.toNat) (operation c) exact where
  runOn_eq source :=
    hcombines.runOn_eq h.publicKey hc (PublicKey.checkPlaintext_eq_ok_iff.mp (h.checkPlaintext_word hlong b)) source
  exists_eq e he := by
    obtain ⟨source, rest, hrun⟩ := he
    obtain ⟨d, hd, hholds⟩ := hexact e ((h.spends_encryptWord hlong b).of_runOn_eq_ok hrun)
    exact ⟨d, hd, h.decryptWord_of_holds hlong hholds hlow hhigh⟩

/-- **A ciphertext that holds a word stands for it.** -/
theorem standsFor (h : sk.Sound) (hlong : 2 ^ 255 ≤ sk.publicKey.n) (hc : sk.publicKey.Holds c a.toNat) :
    sk.StandsFor c a where
  decryptWord_eq := by
    have ha := a.toNat_lt
    rw [h.decryptWord_of_holds hlong hc (by omega) (by omega)]
    exact checkedWord_eq_ok_iff.mpr rfl
  addWord b := by
    have ha := a.toNat_lt
    have hb := b.toNat_lt
    exact h.checksWord hlong h.publicKey.combines_addScalar (hc.check_eq_ok h.publicKey) (by omega) (by omega)
      fun e he => hc.add h.publicKey he
  subWord b := by
    have ha := a.toNat_lt
    have hb := b.toNat_lt
    exact h.checksWord hlong h.publicKey.combines_subScalar (hc.check_eq_ok h.publicKey) (by omega) (by omega)
      fun e he => hc.sub h.publicKey he
  mulWord b := by
    have hproduct : a.toNat * b.toNat ≤ 2 ^ 64 * 2 ^ 64 :=
      Nat.mul_le_mul (Nat.le_of_lt a.toNat_lt) (Nat.le_of_lt b.toNat_lt)
    have hcast : (a.toNat : Int) * b.toNat = (a.toNat * b.toNat : Nat) := (Nat.cast_mul _ _).symm
    obtain ⟨e, heq, he⟩ := hc.mulScalar h.publicKey (h.checkPlaintext_word hlong b)
    rw [Number.magnitude_ofNat] at he
    exact ⟨e, heq, h.decryptWord_of_holds hlong he (by omega) (by omega)⟩

/-- **Every word is encrypted, and its ciphertexts stand for it.** -/
theorem encryptsWord (h : sk.Sound) (hlong : 2 ^ 255 ≤ sk.publicKey.n) (a : UInt64) : sk.EncryptsWord a where
  outputs_eq := h.publicKey.outputs_encrypt (Number.denotes_ofNat a.toNat) (toNat_lt hlong a)
  spends := (h.spends_encryptWord hlong a).mono fun _ hc => h.standsFor hlong hc

end Sound

end PrivateKey

/-! ## Sums -/

theorem sum_toNat_le {words : List UInt64} (hcount : words.length ≤ 2 ^ 128) :
    (words.map UInt64.toNat).sum ≤ 2 ^ 192 := by
  have hword : ∀ n ∈ words.map UInt64.toNat, n ≤ 2 ^ 64 := by
    intro n hn
    obtain ⟨a, -, rfl⟩ := List.mem_map.mp hn
    exact Nat.le_of_lt a.toNat_lt
  calc (words.map UInt64.toNat).sum
      ≤ (words.map UInt64.toNat).length • 2 ^ 64 := List.sum_le_card_nsmul _ _ hword
    _ = words.length * 2 ^ 64 := by rw [List.length_map, smul_eq_mul]
    _ ≤ 2 ^ 128 * 2 ^ 64 := Nat.mul_le_mul_right _ hcount
    _ = 2 ^ 192 := by decide

/-- A way to add ciphertexts up, with any order and any brackets. -/
inductive Summation where
  | term (c : Number)
  | plus (left right : Summation)

namespace Summation

/-- The ciphertexts from left to right. -/
def terms : Summation → List Number
  | term c => [c]
  | plus left right => left.terms ++ right.terms

/-- The ciphertext of the sum. -/
def total (pk : PublicKey) : Summation → Outcome Number
  | term c => .ok c
  | plus left right => do
    let c ← left.total pk
    let d ← right.total pk
    pk.add c d

/-- **The total holds the sum of what the terms hold.** The list of the values is split where the tree is. -/
theorem exists_total {pk : PublicKey} (h : pk.Sound) {s : Summation} {values : List Int}
    (hs : List.Forall₂ (fun m c => pk.Holds c m) values s.terms) :
    ∃ e, s.total pk = .ok e ∧ pk.Holds e values.sum := by
  induction s generalizing values with
  | term c =>
    obtain ⟨m, rest, hc, hrest, rfl⟩ := List.forall₂_cons_right_iff.mp hs
    rw [List.forall₂_nil_right_iff.mp hrest, List.sum_singleton]
    exact ⟨c, rfl, hc⟩
  | plus left right ihl ihr =>
    obtain ⟨c, hleft, hc⟩ := ihl (List.forall₂_take_append values left.terms right.terms hs)
    obtain ⟨d, hright, hd⟩ := ihr (List.forall₂_drop_append values left.terms right.terms hs)
    obtain ⟨e, hadd, he⟩ := hc.add h hd
    rw [← List.sum_append, List.take_append_drop] at he
    refine ⟨e, ?_, he⟩
    rw [total, hleft, ok_bind, hright, ok_bind, hadd]

end Summation

namespace PrivateKey

variable {sk : PrivateKey}

namespace Sound

/-- **Encrypted words may be added in any order**, as long as there are not too many. -/
theorem exists_total_words (h : sk.Sound) (hlong : 2 ^ 255 ≤ sk.publicKey.n) {words : List UInt64}
    {ciphertexts : List Number} (hcount : words.length ≤ 2 ^ 128)
    (hencrypt : List.Forall₂ (fun a c => c ∈ (sk.publicKey.encryptWord a).outputs) words ciphertexts)
    {s : Summation} (horder : s.terms.Perm ciphertexts) :
    ∃ e, s.total sk.publicKey = .ok e ∧ sk.decryptWord e = checkedWord (words.map UInt64.toNat).sum := by
  -- the words are put into the order of the terms
  have hboth : Relation.Comp (List.Forall₂ fun a c => c ∈ (sk.publicKey.encryptWord a).outputs) List.Perm words
      s.terms := ⟨ciphertexts, hencrypt, horder.symm⟩
  rw [List.forall₂_comp_perm_eq_perm_comp_forall₂] at hboth
  obtain ⟨ordered, hperm, hterms⟩ := hboth
  have hholds : List.Forall₂ (fun m c => sk.publicKey.Holds c m) (ordered.map fun a => (a.toNat : Int)) s.terms := by
    refine List.forall₂_map_left_iff.mpr (hterms.imp ?_)
    rintro a c ⟨source, rest, hrun⟩
    exact (h.spends_encryptWord hlong a).of_runOn_eq_ok hrun
  have hsum : (ordered.map fun a => (a.toNat : Int)).sum = (words.map UInt64.toNat).sum := by
    rw [← (hperm.map _).sum_eq, Nat.cast_list_sum, List.map_map]
    rfl
  obtain ⟨e, htotal, he⟩ := Summation.exists_total h.publicKey hholds
  have hbound := sum_toNat_le hcount
  rw [hsum] at he
  exact ⟨e, htotal, h.decryptWord_of_holds hlong he (by omega) (by omega)⟩

end Sound

/-! ## Accepted keys -/

/--
**Arithmetic on encrypted words is checked arithmetic**, whatever nonces are drawn.

A word is always encrypted, unless the entropy ends before there is a nonce, and the ciphertext stands for it. Sums,
differences and products are decrypted to the exact result if that is a word and refused if not, and so is the sum of up to
`2 ^ 128` words, added in any order. No result is wrapped.
-/
theorem words_checked {p q : Nat} (accepted : ofPrimes p q = .ok sk) (hp : ExactAt p) (hq : ExactAt q) :
    (∀ a, sk.EncryptsWord a) ∧
    ((sk.publicKey.drawNonces 1).Yields sk.publicKey.plaintextLength fun _ => True) ∧
    (∀ (words : List UInt64) (ciphertexts : List Number), words.length ≤ 2 ^ 128 →
      List.Forall₂ (fun a c => c ∈ (sk.publicKey.encryptWord a).outputs) words ciphertexts →
      ∀ s : Summation, s.terms.Perm ciphertexts →
        ∃ e, s.total sk.publicKey = .ok e ∧ sk.decryptWord e = checkedWord (words.map UInt64.toNat).sum) ∧
    ∀ (z : Int) (w : UInt64), checkedWord z = .ok w ↔ (w.toNat : Int) = z := by
  obtain ⟨hsound, -⟩ := sound_of_ofPrimes accepted hp hq
  have hlong := two_pow_le_n_of_ofPrimes accepted
  exact ⟨hsound.encryptsWord hlong, hsound.publicKey.yields_drawNonces 1,
    fun words ciphertexts hcount hencrypt s horder => hsound.exists_total_words hlong hcount hencrypt horder,
    fun z w => checkedWord_eq_ok_iff⟩

/-- A block that gives a nonce at once. -/
def oneBlock : Source := ⟨List.replicate 32 1, []⟩

/--
Under the key of the example the largest word is encrypted with one block of entropy, and so is one. The sum of the two is
refused, and the difference is one less. The product with two is refused as well, and so is the word added to itself;
multiplied by one it comes back.
-/
theorem words_checked_example :
    ExactAt exampleP ∧ ExactAt exampleQ ∧
    ∃ sk, ofPrimes exampleP exampleQ = .ok sk ∧
      ∃ c rest one left, (sk.publicKey.encryptWord 0xFFFFFFFFFFFFFFFF).runOn oneBlock = (.ok c, rest) ∧
        (sk.publicKey.encryptWord 1).runOn oneBlock = (.ok one, left) ∧
        (∃ e, (sk.publicKey.addWord c 1).runOn oneBlock = (.ok e, left) ∧
          sk.publicKey.add c one = .ok e ∧ sk.decryptWord e = refuse .invalidPlaintext) ∧
        (∃ e, (sk.publicKey.subWord c 1).runOn oneBlock = (.ok e, left) ∧
          sk.publicKey.sub c one = .ok e ∧ sk.decryptWord e = .ok 0xFFFFFFFFFFFFFFFE) ∧
        (∃ e, sk.publicKey.mulWord c 1 = .ok e ∧ sk.decryptWord e = .ok 0xFFFFFFFFFFFFFFFF) ∧
        (∃ e, sk.publicKey.mulWord c 2 = .ok e ∧ sk.decryptWord e = refuse .invalidPlaintext) ∧
        ∃ e, (Summation.plus (.term c) (.term c)).total sk.publicKey = .ok e ∧
          sk.decryptWord e = refuse .invalidPlaintext := by
  obtain ⟨sk, hsk⟩ := exists_ofPrimes_example
  obtain ⟨hsound, hn⟩ := sound_of_ofPrimes hsk exactAt_exampleP exactAt_exampleQ
  obtain ⟨hencrypt, -, hsums, -⟩ := words_checked hsk exactAt_exampleP exactAt_exampleQ
  -- one block gives a nonce, so both words are encrypted
  have hblock : ((PublicKey.drawNonces ⟨positive (exampleP * exampleQ)⟩ 1).runOn oneBlock).1 = .ok () := by decide +kernel
  rw [← hn, ← hsound.publicKey.modulus_eq] at hblock
  have hlarge := (hencrypt 0xFFFFFFFFFFFFFFFF).spends oneBlock
  have hone := (hencrypt 1).spends oneBlock
  rcases hprice : (sk.publicKey.drawNonces 1).runOn oneBlock with ⟨failure | _, rest⟩
  · rw [hprice] at hblock
    cases hblock
  rw [hprice] at hlarge hone
  obtain ⟨c, hrun, hstands⟩ := hlarge
  obtain ⟨one, hrunOne, -⟩ := hone
  have hmem : c ∈ (sk.publicKey.encryptWord 0xFFFFFFFFFFFFFFFF).outputs := ⟨_, rest, hrun⟩
  have hmemOne : one ∈ (sk.publicKey.encryptWord 1).outputs := ⟨_, rest, hrunOne⟩
  obtain ⟨sum, hsum, hsumWord⟩ := (hstands.addWord 1).exists_eq one hmemOne
  obtain ⟨difference, hdifference, hdifferenceWord⟩ := (hstands.subWord 1).exists_eq one hmemOne
  have hsumRun := (hstands.addWord 1).runOn_eq oneBlock
  have hdifferenceRun := (hstands.subWord 1).runOn_eq oneBlock
  rw [hrunOne] at hsumRun hdifferenceRun
  dsimp only at hsumRun hdifferenceRun
  obtain ⟨product, hproduct, hproductWord⟩ := hstands.mulWord 1
  obtain ⟨double, hdouble, hdoubleWord⟩ := hstands.mulWord 2
  obtain ⟨total, htotal, htotalWord⟩ := hsums [0xFFFFFFFFFFFFFFFF, 0xFFFFFFFFFFFFFFFF] [c, c] (by decide)
    (.cons hmem (.cons hmem .nil)) (.plus (.term c) (.term c)) (List.Perm.refl _)
  refine ⟨exactAt_exampleP, exactAt_exampleQ, sk, hsk, c, rest, one, rest, hrun, hrunOne, ⟨sum, ?_, hsum, ?_⟩,
    ⟨difference, ?_, hdifference, ?_⟩, ⟨product, hproduct, ?_⟩, ⟨double, hdouble, ?_⟩, total, htotal, ?_⟩
  · rw [hsumRun, hsum]
  · rw [hsumWord]
    decide +kernel
  · rw [hdifferenceRun, hdifference]
  · rw [hdifferenceWord]
    decide +kernel
  · rw [hproductWord]
    decide +kernel
  · rw [hdoubleWord]
    decide +kernel
  · rw [htotalWord]
    decide +kernel

end PrivateKey

end Paillier
