import Paillier.Format.KeyJson
import Paillier.Proofs.Format.Numeral

/-!
# JSON texts of keys

The text of a number is a numeral in quotes. The text of two numbers is an object, whose members may stand in either
order, or an array. Every scanner takes exactly the text it is meant for and leaves what follows, whatever that is; so a
longer text is scanned by scanning its parts one after the other.

Numbers that cannot be held have texts too. There the scan ends, and the outcome is that of reading the number back.

## Main statements

* `scanString_append` — a string without backslashes is read as it stands.
* `IsNumberText.scanNumber_append` — the text of a number.
* `IsPairText.scanPrimes_eq_ok_iff` — the text of two numbers.
-/

namespace Paillier.Json

variable {text first second : List Char} {a b : Number} {members : Members}

/-! ## Strings and numbers -/

/-- The character stands for itself in a string. -/
def IsLiteral (c : Char) : Prop := c ≠ '"' ∧ c ≠ '\\' ∧ ¬ c < ' '

instance (c : Char) : Decidable (IsLiteral c) := inferInstanceAs (Decidable (_ ∧ _))

/-- **A string of characters that stand for themselves is read as it stands.** -/
theorem scanString_append {lenient : Bool} (h : ∀ c ∈ text, IsLiteral c) (rest : List Char) :
    scanString lenient (text ++ '"' :: rest) = .ok (text, rest) := by
  induction text with
  | nil => rw [List.nil_append, scanString, if_pos rfl]
  | cons c text ih =>
    obtain ⟨hquote, hbackslash, hcontrol⟩ := h c List.mem_cons_self
    rw [List.cons_append, scanString, if_neg hquote, if_neg hbackslash, if_neg hcontrol,
      ih fun d hd => h d (List.mem_cons_of_mem c hd)]
    rfl

theorem isLiteral_of_isSome {c : Char} (h : (hexDigitValue? c).isSome = true) : IsLiteral c := by
  refine ⟨?_, ?_, fun hcontrol => ?_⟩
  · rintro rfl
    cases h
  · rintro rfl
    cases h
  · have hcode : c.toNat < 32 := hcontrol
    unfold hexDigitValue? at h
    dsimp only at h
    rw [if_neg (by omega), if_neg (by omega), if_neg (by omega)] at h
    cases h

theorem isLiteral_of_isNumeral (h : IsNumeral text a) : ∀ c ∈ text, IsLiteral c := by
  obtain ⟨digits, hdigits, rfl⟩ := h
  intro c hc
  rcases List.mem_append.mp hc with hminus | hdigit
  · split_ifs at hminus
    · rw [List.mem_singleton.mp hminus]
      decide
    · cases hminus
  · exact isLiteral_of_isSome (isSome_of_mem_of_hexValue? hdigits.value_eq hdigit)

/-- A numeral of the number, in quotes. -/
def IsNumberText (text : List Char) (a : Number) : Prop :=
  ∃ numeral, IsNumeral numeral a ∧ text = '"' :: numeral ++ ['"']

theorem isNumberText_jsonOfNumber (a : Number) : IsNumberText (jsonOfNumber a) a := ⟨_, isNumeral_signedHex a, rfl⟩

namespace IsNumberText

/-- **The text of a number is taken whole, and read back.** -/
theorem scanNumber_append (h : IsNumberText text a) (rest : List Char) :
    scanNumber (text ++ rest) = (reread a).readout >>= fun x => .ok (x, rest) := by
  obtain ⟨numeral, hnumeral, rfl⟩ := h
  rw [List.append_assoc, List.cons_append, List.singleton_append]
  show (scanString false (numeral ++ '"' :: rest) >>= _) = _
  rw [scanString_append (isLiteral_of_isNumeral hnumeral), ok_bind]
  dsimp only
  rw [hnumeral.numberOfHex_eq]
  rfl

theorem scanNumber_eq_ok_iff (h : IsNumberText text a) {x : Number} {rest : List Char} :
    scanNumber text = .ok (x, rest) ↔ reread a = .ok x ∧ rest = [] := by
  have hscan := h.scanNumber_append []
  rw [List.append_nil] at hscan
  rw [hscan]
  cases reread a <;> simp [Outcome.readout, Except.mapError, bind, Except.bind]

theorem exists_eq_cons (h : IsNumberText text a) : ∃ tail, text = '"' :: tail := by
  obtain ⟨numeral, -, rfl⟩ := h
  exact ⟨_, rfl⟩

theorem scanElement_append (h : IsNumberText text a) (rest : List Char) :
    scanElement (text ++ rest) = (reread a).readout >>= fun x => .ok (x, rest) := by
  rw [← h.scanNumber_append]
  obtain ⟨tail, rfl⟩ := h.exists_eq_cons
  rfl

theorem scanComma_cons (h : IsNumberText text a) (rest : List Char) :
    scanComma (',' :: (text ++ rest)) = .ok (text ++ rest) := by
  obtain ⟨tail, rfl⟩ := h.exists_eq_cons
  rfl

end IsNumberText

/-! ## Objects -/

/-- A member of an object. -/
def memberText (name : Char) (value : List Char) : List Char := ['"', name, '"', ':'] ++ value

/-- What stands in front of a member. -/
def separator (isFirst : Bool) : List Char := if isFirst then [] else [',']

/-- The members of an object are taken one by one. -/
theorem scanMembers_eq (isFirst : Bool) (members : Members) (s : List Char) :
    scanMembers isFirst members s = scanNextName isFirst s >>= fun
      | (none, s) => members.both >>= fun both => .ok (both, s)
      | (some name, s) => scanMember name members s >>= fun found => scanMembers false found.1 found.2 := by
  rw [scanMembers]
  -- the definition names its matches for the sake of termination, so they are not binds until they are split
  split
  · next defect hname =>
    rw [hname]
    rfl
  · next s hname =>
    rw [hname]
    rfl
  · next name s hname =>
    rw [hname, ok_bind]
    dsimp only
    split
    · next defect hmember =>
      rw [hmember]
      rfl
    · next members s hmember => rw [hmember, ok_bind]

theorem scanNextName_append {name : Char} (hname : IsLiteral name) (isFirst : Bool) (value rest : List Char) :
    scanNextName isFirst (separator isFirst ++ memberText name value ++ rest) =
      .ok (some [name], ':' :: (value ++ rest)) := by
  have hquoted : scanString false ([name] ++ '"' :: ':' :: (value ++ rest)) = .ok ([name], ':' :: (value ++ rest)) :=
    scanString_append (fun c hc => List.mem_singleton.mp hc ▸ hname) _
  -- a comma is taken before the name unless it is the first; the rest is the same
  have hnext : scanNextName isFirst (separator isFirst ++ memberText name value ++ rest) =
      (scanString false ([name] ++ '"' :: ':' :: (value ++ rest))).map fun found => (some found.1, found.2) := by
    cases isFirst <;> rfl
  rw [hnext, hquoted]
  rfl

theorem scanMembers_append {name : Char} (hname : IsLiteral name) (isFirst : Bool) (members : Members)
    (value rest : List Char) :
    scanMembers isFirst members (separator isFirst ++ memberText name value ++ rest) =
      scanMember [name] members (':' :: (value ++ rest)) >>= fun found => scanMembers false found.1 found.2 := by
  rw [scanMembers_eq, scanNextName_append hname, ok_bind]

theorem scanMembers_p (h : IsNumberText text a) (hp : members.p = none) (isFirst : Bool) (rest : List Char) :
    scanMembers isFirst members (separator isFirst ++ memberText 'p' text ++ rest) =
      (reread a).readout >>= fun x => scanMembers false { members with p := some x } rest := by
  rw [scanMembers_append (by decide), scanMember, if_pos rfl, hp, if_neg (by decide)]
  show (scanNumber (text ++ rest) >>= _) >>= _ = _
  rw [h.scanNumber_append, bind_assoc, bind_assoc]
  rfl

theorem scanMembers_q (h : IsNumberText text a) (hq : members.q = none) (isFirst : Bool) (rest : List Char) :
    scanMembers isFirst members (separator isFirst ++ memberText 'q' text ++ rest) =
      (reread a).readout >>= fun x => scanMembers false { members with q := some x } rest := by
  rw [scanMembers_append (by decide), scanMember, if_neg (by decide), if_pos rfl, hq, if_neg (by decide)]
  show (scanNumber (text ++ rest) >>= _) >>= _ = _
  rw [h.scanNumber_append, bind_assoc, bind_assoc]
  rfl

/-- An object may end once both numbers have been found. -/
theorem scanMembers_end (p q : Number) (rest : List Char) :
    scanMembers false ⟨some p, some q⟩ ('}' :: rest) = .ok ((p, q), rest) := by
  rw [scanMembers_eq]
  rfl

/-! ## Two numbers -/

/-- The texts of two numbers: an object, whose members may stand in either order, or an array. -/
inductive IsPairText (a b : Number) : List Char → Prop where
  | inOrder {first second : List Char} (ha : IsNumberText first a) (hb : IsNumberText second b) :
    IsPairText a b ('{' :: memberText 'p' first ++ (',' :: memberText 'q' second ++ ['}']))
  | swapped {first second : List Char} (ha : IsNumberText first a) (hb : IsNumberText second b) :
    IsPairText a b ('{' :: memberText 'q' second ++ (',' :: memberText 'p' first ++ ['}']))
  | array {first second : List Char} (ha : IsNumberText first a) (hb : IsNumberText second b) :
    IsPairText a b ('[' :: first ++ (',' :: (second ++ [']'])))

theorem scanPrimes_inOrder (ha : IsNumberText first a) (hb : IsNumberText second b) :
    scanPrimes ('{' :: memberText 'p' first ++ (',' :: memberText 'q' second ++ ['}'])) =
      (reread a).readout >>= fun x => (reread b).readout >>= fun y => .ok ((x, y), []) := by
  show scanMembers true {} (separator true ++ memberText 'p' first ++ _) = _
  rw [scanMembers_p ha rfl]
  refine bind_congr fun x => ?_
  show scanMembers false ⟨some x, none⟩ (separator false ++ memberText 'q' second ++ ['}']) = _
  rw [scanMembers_q hb rfl]
  exact bind_congr fun y => scanMembers_end x y []

/-- The defect of the member that comes first counts. -/
theorem scanPrimes_swapped (ha : IsNumberText first a) (hb : IsNumberText second b) :
    scanPrimes ('{' :: memberText 'q' second ++ (',' :: memberText 'p' first ++ ['}'])) =
      (reread b).readout >>= fun y => (reread a).readout >>= fun x => .ok ((x, y), []) := by
  show scanMembers true {} (separator true ++ memberText 'q' second ++ _) = _
  rw [scanMembers_q hb rfl]
  refine bind_congr fun y => ?_
  show scanMembers false ⟨none, some y⟩ (separator false ++ memberText 'p' first ++ ['}']) = _
  rw [scanMembers_p ha rfl]
  exact bind_congr fun x => scanMembers_end x y []

theorem scanPrimes_array (ha : IsNumberText first a) (hb : IsNumberText second b) :
    scanPrimes ('[' :: first ++ (',' :: (second ++ [']']))) =
      (reread a).readout >>= fun x => (reread b).readout >>= fun y => .ok ((x, y), []) := by
  show scanPair (first ++ (',' :: (second ++ [']']))) = _
  rw [scanPair, ha.scanElement_append, bind_assoc]
  refine bind_congr fun x => ?_
  rw [ok_bind]
  dsimp only
  rw [hb.scanComma_cons, ok_bind, hb.scanElement_append, bind_assoc]
  rfl

/-- **The text of two numbers is taken whole, and both are read back.** -/
theorem IsPairText.scanPrimes_eq_ok_iff (h : IsPairText a b text) {p q : Number} {rest : List Char} :
    scanPrimes text = .ok ((p, q), rest) ↔ reread a = .ok p ∧ reread b = .ok q ∧ rest = [] := by
  have hscan :
      scanPrimes text = ((reread a).readout >>= fun x => (reread b).readout >>= fun y => .ok ((x, y), [])) ∨
        scanPrimes text = ((reread b).readout >>= fun y => (reread a).readout >>= fun x => .ok ((x, y), [])) := by
    cases h with
    | inOrder ha hb => exact Or.inl (scanPrimes_inOrder ha hb)
    | swapped ha hb => exact Or.inr (scanPrimes_swapped ha hb)
    | array ha hb => exact Or.inl (scanPrimes_array ha hb)
  rcases hscan with hscan | hscan <;> rw [hscan] <;> cases reread a <;> cases reread b <;>
    simp [Outcome.readout, Except.mapError, bind, Except.bind, and_assoc]

/-- The text that is written for two numbers. -/
def jsonOfPair (a b : Number) : List Char :=
  '{' :: memberText 'p' (jsonOfNumber a) ++ (',' :: memberText 'q' (jsonOfNumber b) ++ ['}'])

theorem toList_toJson (sk : PrivateKey) : sk.toJson.toList = jsonOfPair sk.p sk.q := by
  rw [PrivateKey.toJson, String.toList_ofList, List.append_assoc, List.append_assoc]
  rfl

/-- **What is written for two numbers is a text of them.** -/
theorem isPairText_jsonOfPair (a b : Number) : IsPairText a b (jsonOfPair a b) :=
  .inOrder (isNumberText_jsonOfNumber a) (isNumberText_jsonOfNumber b)

end Paillier.Json
