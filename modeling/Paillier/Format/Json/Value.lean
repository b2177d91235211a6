import Paillier.Format.Json.Number

/-!
# Scanning JSON: whole values

Two things are done with values that do not belong to a key. Where another type was expected, the defect is
found that the text is refused with; where nobody asked for a value, it is skipped, to any depth.

## Main statements

* `skip_length` — what is skipped is taken from the text.

## Termination

The text that is left is the measure. `skip` counts it twice, so that the step from an opening bracket to
the first value, which takes nothing, counts too.
-/

namespace Paillier.Json

/-! ## Values of the wrong type -/

/-- The defect of a text whose value is of another type: a scalar is read first, and must be one. -/
def mistypedUnless {α : Type} : Readout α → Defect
  | .error defect => defect
  | .ok _ => .mistyped

/-- The defect of a text that goes on with a value of another type than the one expected. -/
def wrongType (s : List Char) : Defect :=
  match s with
  | [] => .truncated
  | c :: rest =>
    if c = 'n' then mistypedUnless (skipWord ['u', 'l', 'l'] rest)
    else if c = 't' then mistypedUnless (skipWord ['r', 'u', 'e'] rest)
    else if c = 'f' then mistypedUnless (skipWord ['a', 'l', 's', 'e'] rest)
    else if c = '-' then mistypedUnless (skipNumber false rest)
    else if c.isDigit then mistypedUnless (skipNumber false s)
    else if c = '"' then mistypedUnless (scanString false rest)
    else if c = '[' ∨ c = '{' then .mistyped
    else .malformed

/-! ## Values that nobody asked for -/

/-- Takes a scalar: a word, a number or a string. -/
def skipScalar (s : List Char) : Readout (List Char) :=
  match s with
  | [] => .error .truncated
  | c :: rest =>
    if c = 'n' then skipWord ['u', 'l', 'l'] rest
    else if c = 't' then skipWord ['r', 'u', 'e'] rest
    else if c = 'f' then skipWord ['a', 'l', 's', 'e'] rest
    else if c = '-' then skipNumber true rest
    else if c.isDigit then skipNumber true s
    else if c = '"' then (scanString true rest).map Prod.snd
    else .error .malformed

/-- The colon after the name of a member. -/
def skipColon (s : List Char) : Readout (List Char) :=
  match skipSpace s with
  | [] => .error .truncated
  | c :: s => if c = ':' then .ok s else .error .malformed

/-- The name of a member, with its quotes. -/
def scanName (lenient : Bool) (s : List Char) : Readout (List Char × List Char) :=
  match skipSpace s with
  | [] => .error .truncated
  | c :: s => if c = '"' then scanString lenient s else .error .malformed

/-- The kinds of brackets. -/
inductive Bracket where
  | square
  | curly
deriving DecidableEq

/-- The character that ends what a bracket began. -/
def Bracket.closing : Bracket → Char
  | .square => ']'
  | .curly => '}'

/-- What stands before an element: nothing in an array, a name and a colon in an object. -/
def Bracket.skipName : Bracket → List Char → Readout (List Char)
  | .square, s => .ok s
  | .curly, s => do
    let (_, s) ← scanName true s
    skipColon s

/-- Where in a value the scan stands. -/
inductive Place where
  /-- A value comes next. -/
  | value
  /-- A bracket has just been opened. -/
  | opened
  /-- A value has just ended. -/
  | ended
deriving DecidableEq

/-- What the place adds to the measure of a scan: from a bracket to its first value nothing is taken. -/
def Place.lead : Place → Nat
  | .opened => 1
  | _ => 0

theorem skipScalar_length {s rest : List Char} (h : skipScalar s = .ok rest) :
    rest.length < s.length := by
  unfold skipScalar at h
  split at h
  · cases h
  · repeat' split at h
    · exact Nat.lt_succ_of_le (skipWord_length h)
    · exact Nat.lt_succ_of_le (skipWord_length h)
    · exact Nat.lt_succ_of_le (skipWord_length h)
    · exact Nat.lt_succ_of_lt (skipNumber_length h)
    · exact skipNumber_length h
    · obtain ⟨⟨text, t⟩, hs, he⟩ := map_eq_ok.mp h
      cases he
      exact Nat.lt_succ_of_lt (scanString_length hs)
    · cases h

theorem skipColon_length {s rest : List Char} (h : skipColon s = .ok rest) :
    rest.length < s.length := by
  unfold skipColon at h
  have hs := skipSpace_length s
  split at h
  · cases h
  · next c t ht =>
    rw [ht, List.length_cons] at hs
    split at h
    · cases h
      omega
    · cases h

theorem scanName_length {lenient : Bool} {s text rest : List Char}
    (h : scanName lenient s = .ok (text, rest)) : rest.length < s.length := by
  unfold scanName at h
  have hs := skipSpace_length s
  split at h
  · cases h
  · next c t ht =>
    rw [ht, List.length_cons] at hs
    split at h
    · have := scanString_length h
      omega
    · cases h

theorem Bracket.skipName_length {bracket : Bracket} {s rest : List Char}
    (h : bracket.skipName s = .ok rest) : rest.length ≤ s.length := by
  cases bracket with
  | square =>
    cases h
    exact Nat.le_refl _
  | curly =>
    obtain ⟨⟨text, t⟩, hn, h⟩ := bind_eq_ok.mp h
    exact Nat.le_of_lt (Nat.lt_trans (skipColon_length h) (scanName_length hn))

/--
Takes the rest of a value, to any depth; `brackets` are those that are still open, the innermost
first.
-/
def skip (place : Place) (brackets : List Bracket) (s : List Char) : Readout (List Char) :=
  match place, brackets with
  | .ended, [] => .ok s
  | .ended, bracket :: outer =>
    match _h : skipSpace s with
    | [] => .error .truncated
    | c :: t =>
      if c = ',' then
        match _h' : bracket.skipName t with
        | .error defect => .error defect
        | .ok t => skip .value (bracket :: outer) t
      else if c = bracket.closing then skip .ended outer t
      else .error .malformed
  | .opened, [] => .error .malformed
  | .opened, bracket :: outer =>
    match _h : skipSpace s with
    | [] => .error .truncated
    | c :: t =>
      if c = bracket.closing then skip .ended outer t
      else
        match _h' : bracket.skipName (c :: t) with
        | .error defect => .error defect
        | .ok t => skip .value (bracket :: outer) t
  | .value, brackets =>
    match _h : skipSpace s with
    | [] => .error .truncated
    | c :: t =>
      if c = '[' then skip .opened (.square :: brackets) t
      else if c = '{' then skip .opened (.curly :: brackets) t
      else
        match _h' : skipScalar (c :: t) with
        | .error defect => .error defect
        | .ok t => skip .ended brackets t
termination_by 2 * s.length + place.lead
decreasing_by
  all_goals
    have hs := skipSpace_length s
    rw [_h, List.length_cons] at hs
    simp only [Place.lead]
  · have := Bracket.skipName_length _h'
    omega
  · omega
  · omega
  · have := Bracket.skipName_length _h'
    rw [List.length_cons] at this
    omega
  · omega
  · omega
  · have := skipScalar_length _h'
    rw [List.length_cons] at this
    omega

/-- What is left after skipping is no longer than the text, for texts whose measure is below `k`. The measure is the one by
which `skip` ends, and the induction is on `k`. -/
theorem skip_length_of_lt : ∀ (k : Nat) {place : Place} {brackets : List Bracket} {s rest : List Char},
    2 * s.length + place.lead < k → skip place brackets s = .ok rest → rest.length ≤ s.length
  | 0, _, _, _, _, hk, _ => absurd hk (Nat.not_lt_zero _)
  | k + 1, place, brackets, s, rest, hk, h => by
    have hs := skipSpace_length s
    rw [skip.eq_def] at h
    split at h
    · cases h
      exact Nat.le_refl _
    · split at h
      · cases h
      · next c t ht =>
        rw [ht, List.length_cons] at hs
        simp only [Place.lead] at hk
        split at h
        · split at h
          · cases h
          · next t' ht' =>
            have h₁ := Bracket.skipName_length ht'
            have h₂ := skip_length_of_lt k (by simp only [Place.lead]; omega) h
            omega
        · split at h
          · have := skip_length_of_lt k (by simp only [Place.lead]; omega) h
            omega
          · cases h
    · cases h
    · split at h
      · cases h
      · next c t ht =>
        rw [ht, List.length_cons] at hs
        simp only [Place.lead] at hk
        split at h
        · have := skip_length_of_lt k (by simp only [Place.lead]; omega) h
          omega
        · split at h
          · cases h
          · next t' ht' =>
            have h₁ := Bracket.skipName_length ht'
            rw [List.length_cons] at h₁
            have h₂ := skip_length_of_lt k (by simp only [Place.lead]; omega) h
            omega
    · split at h
      · cases h
      · next c t ht =>
        rw [ht, List.length_cons] at hs
        simp only [Place.lead] at hk
        split at h
        · have := skip_length_of_lt k (by simp only [Place.lead]; omega) h
          omega
        · split at h
          · have := skip_length_of_lt k (by simp only [Place.lead]; omega) h
            omega
          · split at h
            · cases h
            · next t' ht' =>
              have h₁ := skipScalar_length ht'
              rw [List.length_cons] at h₁
              have h₂ := skip_length_of_lt k (by simp only [Place.lead]; omega) h
              omega

/-- What is skipped is taken from the front. -/
theorem skip_length {place : Place} {brackets : List Bracket} {s rest : List Char}
    (h : skip place brackets s = .ok rest) : rest.length ≤ s.length :=
  skip_length_of_lt _ (Nat.lt_succ_self _) h

/-- Takes a value that nobody asked for. -/
def skipValue (s : List Char) : Readout (List Char) := skip .value [] s

end Paillier.Json
