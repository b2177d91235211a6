import Paillier.Format.Defect
import Paillier.Format.Hexadecimal

/-!
# Scanning JSON: space, words and strings

A scanner goes through the text once, from the left, and stops at the first defect. It distinguishes
three: the text breaks the grammar, it ends too early, or it holds a value of another type than the one
that is expected. A scanning function takes the text that is left and gives back what is left after it.

Text that nobody asked for is scanned leniently: a half of a surrogate pair may stand alone in it.

## Main statements

* `scanString_length` — a string is taken from the text.

## Termination

No fuel: the text that is left is the measure.
-/

namespace Paillier.Json

/-- The white space between the parts of a text. -/
def isSpace (c : Char) : Bool := c == ' ' || c == '\n' || c == '\t' || c == '\r'

/-- The text after the white space in front. -/
def skipSpace (s : List Char) : List Char := s.dropWhile isSpace

theorem skipSpace_length (s : List Char) : (skipSpace s).length ≤ s.length :=
  (List.dropWhile_sublist _).length_le

/-- Takes exactly these characters. -/
def skipWord : (word s : List Char) → Readout (List Char)
  | [], s => .ok s
  | _ :: _, [] => .error .truncated
  | w :: word, c :: s => if c = w then skipWord word s else .error .malformed

theorem skipWord_length {word s rest : List Char} (h : skipWord word s = .ok rest) :
    rest.length ≤ s.length := by
  induction word generalizing s with
  | nil => simp_all [skipWord]
  | cons w word ih =>
    cases s with
    | nil => simp [skipWord] at h
    | cons c s =>
      rw [skipWord] at h
      split at h
      · exact Nat.le_succ_of_le (ih h)
      · cases h

/-! ## Strings -/

/-- The characters that stand for one character after a backslash. -/
def simpleEscape? : Char → Option Char
  | '"' => some '"'
  | '\\' => some '\\'
  | '/' => some '/'
  | 'b' => some '\x08'
  | 'f' => some '\x0c'
  | 'n' => some '\n'
  | 'r' => some '\r'
  | 't' => some '\t'
  | _ => none

/-- The code unit that four hexadecimal digits stand for. Fewer than four bytes of text are too few. -/
def scanCodeUnit (s : List Char) : Readout (Nat × List Char) :=
  let digits := s.take 4
  if digits.foldl (fun bytes c => bytes + c.utf8Size) 0 < 4 then .error .truncated
  else match hexValue? digits with
    | some unit => if digits.length = 4 then .ok (unit, s.drop 4) else .error .malformed
    | none => .error .malformed

/-- Whether a code unit is the first half of a surrogate pair. -/
def isHighSurrogate (unit : Nat) : Bool := decide (0xD800 ≤ unit) && decide (unit ≤ 0xDBFF)

/-- Whether a code unit is the second half of a surrogate pair. -/
def isLowSurrogate (unit : Nat) : Bool := decide (0xDC00 ≤ unit) && decide (unit ≤ 0xDFFF)

/-- The second half of a surrogate pair, and the character of the pair. -/
def scanLowSurrogate (high : Nat) : List Char → Readout (Char × List Char)
  | [] => .error .truncated
  | ['\\'] => .error .truncated
  | '\\' :: 'u' :: s => do
    let (low, rest) ← scanCodeUnit s
    if isLowSurrogate low then
      .ok (Char.ofNat (0x10000 + (high - 0xD800) * 0x400 + (low - 0xDC00)), rest)
    else .error .malformed
  | _ => .error .malformed

/-- The character that the text after a backslash stands for. -/
def scanEscape (lenient : Bool) : List Char → Readout (Char × List Char)
  | [] => .error .truncated
  | 'u' :: s => do
    let (unit, rest) ← scanCodeUnit s
    if lenient then .ok (Char.ofNat unit, rest)
    else if isLowSurrogate unit then .error .malformed
    else if isHighSurrogate unit then scanLowSurrogate unit rest
    else .ok (Char.ofNat unit, rest)
  | c :: s => match simpleEscape? c with
    | some d => .ok (d, s)
    | none => .error .malformed

theorem scanCodeUnit_length {s rest : List Char} {unit : Nat} (h : scanCodeUnit s = .ok (unit, rest)) :
    rest.length ≤ s.length := by
  unfold scanCodeUnit at h
  dsimp only at h
  split at h
  · cases h
  · split at h
    · split at h
      · cases h
        simp
      · cases h
    · cases h

theorem scanLowSurrogate_length {high : Nat} {s rest : List Char} {c : Char}
    (h : scanLowSurrogate high s = .ok (c, rest)) : rest.length ≤ s.length := by
  unfold scanLowSurrogate at h
  split at h
  · cases h
  · cases h
  · obtain ⟨⟨low, t⟩, hu, h⟩ := bind_eq_ok.mp h
    have := scanCodeUnit_length hu
    dsimp only at h
    split at h
    · simp only [Except.ok.injEq, Prod.mk.injEq] at h
      rw [← h.2, List.length_cons, List.length_cons]
      omega
    · cases h
  · cases h

theorem scanEscape_length {lenient : Bool} {s rest : List Char} {c : Char}
    (h : scanEscape lenient s = .ok (c, rest)) : rest.length < s.length := by
  unfold scanEscape at h
  split at h
  · cases h
  · obtain ⟨⟨unit, t⟩, hu, h⟩ := bind_eq_ok.mp h
    have ht := scanCodeUnit_length hu
    refine Nat.lt_succ_of_le (Nat.le_trans ?_ ht)
    dsimp only at h
    split at h
    · cases h
      exact Nat.le_refl _
    · split at h
      · cases h
      · split at h
        · exact scanLowSurrogate_length h
        · cases h
          exact Nat.le_refl _
  · split at h
    · cases h
      exact Nat.lt_succ_self _
    · cases h

/-- Puts a character in front of a text that was scanned. -/
def consChar (c : Char) : Readout (List Char × List Char) → Readout (List Char × List Char)
  | .ok (text, rest) => .ok (c :: text, rest)
  | .error defect => .error defect

/-- The string whose opening quote has been taken. -/
def scanString (lenient : Bool) (s : List Char) : Readout (List Char × List Char) :=
  match s with
  | [] => .error .truncated
  | c :: s =>
    if c = '"' then .ok ([], s)
    else if c = '\\' then
      match _h : scanEscape lenient s with
      | .error defect => .error defect
      | .ok (d, rest) => consChar d (scanString lenient rest)
    else if c < ' ' then .error .malformed
    else consChar c (scanString lenient s)
termination_by s.length
decreasing_by
  · have := scanEscape_length _h
    simp only [List.length_cons]
    omega
  · simp

theorem consChar_eq_ok {c : Char} {scanned : Readout (List Char × List Char)} {text rest : List Char}
    (h : consChar c scanned = .ok (text, rest)) : ∃ tail, scanned = .ok (tail, rest) := by
  unfold consChar at h
  split at h
  · cases h
    exact ⟨_, rfl⟩
  · cases h

theorem scanString_length {lenient : Bool} {s text rest : List Char}
    (h : scanString lenient s = .ok (text, rest)) : rest.length < s.length := by
  induction s using scanString.induct lenient generalizing text with
  | case1 => simp [scanString] at h
  | case2 s =>
    rw [scanString] at h
    cases h
    simp
  | case3 s defect he =>
    rw [scanString] at h
    split at h
    · contradiction
    · rw [if_pos rfl] at h
      split at h <;> simp_all
  | case4 s d rest' he hq ih =>
    have hlt := scanEscape_length he
    rw [scanString, if_neg hq, if_pos rfl] at h
    split at h
    · simp_all
    · next d' rest'' he' =>
      rw [he] at he'
      cases he'
      obtain ⟨tail, ht⟩ := consChar_eq_ok h
      have := ih ht
      rw [List.length_cons]
      omega
  | case5 c s hq hb hc => simp [scanString, hq, hb, hc] at h
  | case6 c s hq hb hc ih =>
    rw [scanString, if_neg hq, if_neg hb, if_neg hc] at h
    obtain ⟨tail, ht⟩ := consChar_eq_ok h
    have := ih ht
    rw [List.length_cons]
    omega

end Paillier.Json
