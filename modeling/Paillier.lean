import Paillier.Outcome
import Paillier.Event
import Paillier.Number.BigEndian
import Paillier.Number.Basic
import Paillier.Number.Capacity
import Paillier.Number.Double
import Paillier.Number.Residue
import Paillier.Number.Primality
import Paillier.Randomness.Entropy
import Paillier.Randomness.Sampling
import Paillier.Key.Public
import Paillier.Key.Private
import Paillier.Key.Generation
import Paillier.Ciphertext.Encryption
import Paillier.Ciphertext.Homomorphic
import Paillier.Ciphertext.Tracked
import Paillier.Format.Buffer
import Paillier.Format.KeyBytes
import Paillier.Format.Hexadecimal
import Paillier.Format.Defect
import Paillier.Format.Json.Text
import Paillier.Format.Json.Number
import Paillier.Format.Json.Value
import Paillier.Format.KeyJson
import Paillier.Format.Postcard
import Paillier.Format.Printable
import Paillier.Format.Inspect
import Paillier.Proofs.Number.Denotation
import Paillier.Proofs.Number.Residue
import Paillier.Proofs.Number.BigEndian
import Paillier.Proofs.Number.StrongTest
import Paillier.Proofs.Number.LucasTest
import Paillier.Proofs.Number.Primality
import Paillier.Proofs.Residuosity
import Paillier.Proofs.Key.PrimePair
import Paillier.Proofs.Key.Sound
import Paillier.Proofs.Key.Modulus
import Paillier.Proofs.Key.Acceptance
import Paillier.Proofs.Ciphertext.Decryption
import Paillier.Proofs.Ciphertext.Circuit
import Paillier.Proofs.Ciphertext.Closure
import Paillier.Proofs.Ciphertext.Nonce
import Paillier.Proofs.Randomness.Prime
import Paillier.Proofs.Key.Generation
import Paillier.Proofs.Format.Frame
import Paillier.Proofs.Format.KeyBytes
import Paillier.Proofs.Fault
import Paillier.Proofs.Key.Signed
import Paillier.Proofs.Format.Reading
import Paillier.Proofs.Key.WellFormed
import Paillier.Proofs.Randomness.Ending
import Paillier.Proofs.Key.Capacity
import Paillier.Proofs.Key.Blum
import Paillier.Proofs.Ciphertext.Masking
import Paillier.Proofs.Answer
import Paillier.Proofs.Key.Use
import Paillier.Proofs.Format.Numeral
import Paillier.Proofs.Format.Json
import Paillier.Proofs.Format.Postcard
import Paillier.Proofs.Format.Interchange
import Paillier.Proofs.Ciphertext.Group
import Paillier.Proofs.Ciphertext.Bytes
import Paillier.Proofs.Ciphertext.Word
import Paillier.Proofs.Ciphertext.Fresh
import Paillier.Proofs.Randomness.Block
import Paillier.Proofs.Randomness.Filter
import Paillier.Proofs.Randomness.Scratch
import Paillier.Proofs.Randomness.Count
import Paillier.Proofs.Randomness.Below
import Paillier.Proofs.Randomness.Unit
import Paillier.Proofs.Randomness.Shape
import Paillier.Proofs.Format.Buffer
import Paillier.Proofs.Key.Attempt
import Paillier.Proofs.Key.Wipe
