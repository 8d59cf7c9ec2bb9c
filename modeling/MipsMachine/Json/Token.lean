import MipsMachine.Json.Literal

set_option autoImplicit false

/-!
# JSON tokens

JSON text as a row of tokens.  The same tokens are written in two ways, without any blanks
(`compact`) and with one entry to a line (`pretty`); reading skips blanks, so both give back
the tokens.  A number is kept as it is spelt, because reading has no use for its value.
-/

namespace MipsMachine.Json

/-- The smallest parts of a JSON text. -/
inductive Token where
  /-- an opening brace -/
  | openObject
  /-- a closing brace -/
  | closeObject
  /-- an opening bracket -/
  | openArray
  /-- a closing bracket -/
  | closeArray
  /-- a colon -/
  | colon
  /-- a comma -/
  | comma
  /-- `null` -/
  | null
  /-- `true` or `false` -/
  | bool (value : Bool)
  /-- a number, as it is spelt -/
  | number (spelling : List Char)
  /-- a string -/
  | string (text : Denoted)
  deriving DecidableEq, Repr, Inhabited

namespace Token

/-- The number of the given value. -/
def integer (n : Int) : Token := .number (Numeral.integer n).toList

/-- The string that denotes a text. -/
def ofText (s : String) : Token := .string (some s)

/-! ## Writing -/

/-- The spelling of a token.  A string that denotes no text is written as one half of a pair. -/
def spelling : Token → List Char
  | .openObject => ['\x7b']
  | .closeObject => ['\x7d']
  | .openArray => ['[']
  | .closeArray => [']']
  | .colon => [':']
  | .comma => [',']
  | .null => "null".toList
  | .bool true => "true".toList
  | .bool false => "false".toList
  | .number cs => cs
  | .string (some s) => quote s.toList
  | .string none => "\"\\ud800\"".toList

/-- The tokens one behind another. -/
def compact (ts : List Token) : String := String.ofList (ts.flatMap spelling)

/-- A new line, indented to the given depth by two blanks each. -/
def newLine (depth : Nat) : List Char := '\n' :: List.replicate (2 * depth) ' '

/-- The tokens with one entry to a line, inside `depth` containers; empty containers stay in
one piece. -/
def laidOut : Nat → List Token → List Char
  | _, [] => []
  | depth, .openObject :: .closeObject :: ts =>
    openObject.spelling ++ closeObject.spelling ++ laidOut depth ts
  | depth, .openArray :: .closeArray :: ts =>
    openArray.spelling ++ closeArray.spelling ++ laidOut depth ts
  | depth, .openObject :: ts =>
      openObject.spelling ++ newLine (depth + 1) ++ laidOut (depth + 1) ts
  | depth, .openArray :: ts => openArray.spelling ++ newLine (depth + 1) ++ laidOut (depth + 1) ts
  | depth, .closeObject :: ts =>
      newLine (depth - 1) ++ closeObject.spelling ++ laidOut (depth - 1) ts
  | depth, .closeArray :: ts =>
      newLine (depth - 1) ++ closeArray.spelling ++ laidOut (depth - 1) ts
  | depth, .comma :: ts => comma.spelling ++ newLine depth ++ laidOut depth ts
  | depth, .colon :: ts => colon.spelling ++ ' ' :: laidOut depth ts
  | depth, t :: ts => t.spelling ++ laidOut depth ts

/-- The tokens with one entry to a line. -/
def pretty (ts : List Token) : String := String.ofList (laidOut 0 ts)

/-! ## Reading -/

/-- Whether a character may stand between tokens: a blank, a tab, a line feed or a carriage
return. -/
def isGap (c : Char) : Bool := c == ' ' || c == '\t' || c == '\n' || c == '\r'

/-- Whether a character is a decimal digit. -/
def isDigit (c : Char) : Bool := '0' ≤ c && c ≤ '9'

/-- Read one or more digits. -/
def scanDigits (cs : List Char) : Option (List Char × List Char) :=
  match cs.takeWhile isDigit with
  | [] => none
  | ds => some (ds, cs.dropWhile isDigit)

/-- Read the part of a number before the point: 0, or digits that do not start with 0. -/
def scanWhole : List Char → Option (List Char × List Char)
  | '0' :: cs => some (['0'], cs)
  | cs => scanDigits cs

/-- Read the point and the digits behind it, if there is a point. -/
def scanFraction : List Char → Option (List Char × List Char)
  | '.' :: cs => (scanDigits cs).map fun p => ('.' :: p.1, p.2)
  | cs => some ([], cs)

/-- Read the digits of an exponent, with or without a sign. -/
def scanExponentDigits : List Char → Option (List Char × List Char)
  | '+' :: cs => (scanDigits cs).map fun p => ('+' :: p.1, p.2)
  | '-' :: cs => (scanDigits cs).map fun p => ('-' :: p.1, p.2)
  | cs => scanDigits cs

/-- Read an exponent, if there is one. -/
def scanExponent : List Char → Option (List Char × List Char)
  | 'e' :: cs => (scanExponentDigits cs).map fun p => ('e' :: p.1, p.2)
  | 'E' :: cs => (scanExponentDigits cs).map fun p => ('E' :: p.1, p.2)
  | cs => some ([], cs)

/-- Read a number without sign. -/
def scanMagnitude (cs : List Char) : Option (List Char × List Char) :=
  match scanWhole cs with
  | none => none
  | some (whole, cs) =>
    match scanFraction cs with
    | none => none
    | some (fraction, cs) =>
      (scanExponent cs).map fun p => (whole ++ fraction ++ p.1, p.2)

/-- Read a number. -/
def scanNumber : List Char → Option (List Char × List Char)
  | '-' :: cs => (scanMagnitude cs).map fun p => ('-' :: p.1, p.2)
  | cs => scanMagnitude cs

/-- Read the token at the front of a text: the token and the text behind it. -/
def scanToken : List Char → Option (Token × List Char)
  | '\x7b' :: cs => some (.openObject, cs)
  | '\x7d' :: cs => some (.closeObject, cs)
  | '[' :: cs => some (.openArray, cs)
  | ']' :: cs => some (.closeArray, cs)
  | ':' :: cs => some (.colon, cs)
  | ',' :: cs => some (.comma, cs)
  | 'n' :: 'u' :: 'l' :: 'l' :: cs => some (.null, cs)
  | 't' :: 'r' :: 'u' :: 'e' :: cs => some (.bool true, cs)
  | 'f' :: 'a' :: 'l' :: 's' :: 'e' :: cs => some (.bool false, cs)
  | '"' :: cs => (scanLiteral cs).map fun p => (.string p.1, p.2)
  | cs => (scanNumber cs).map fun p => (.number p.1, p.2)

/-! ## Reading makes progress -/

/-- A reader of this kind splits the text in two. -/
def Splits (scan : List Char → Option (List Char × List Char)) : Prop :=
  ∀ cs taken rest, scan cs = some (taken, rest) → cs = taken ++ rest

theorem splits_scanDigits : Splits scanDigits := by
  intro cs taken rest h
  unfold scanDigits at h
  split at h
  · cases h
  · cases h
    exact (List.takeWhile_append_dropWhile).symm

theorem scanDigits_ne_nil {cs taken rest : List Char} (h : scanDigits cs = some (taken, rest)) :
    taken ≠ [] := by
  unfold scanDigits at h
  split at h
  · cases h
  · next hne =>
      cases h
      exact hne

theorem splits_map_cons {scan : List Char → Option (List Char × List Char)} (hs : Splits scan)
    {c : Char} {cs taken rest : List Char}
    (h : (scan cs).map (fun p => (c :: p.1, p.2)) = some (taken, rest)) :
    c :: cs = taken ++ rest := by
  obtain ⟨p, hp, heq⟩ := Option.map_eq_some_iff.1 h
  cases heq
  simp [hs cs p.1 p.2 hp]

theorem splits_scanWhole : Splits scanWhole := by
  intro cs taken rest h
  unfold scanWhole at h
  split at h
  · cases h; rfl
  · exact splits_scanDigits _ _ _ h

theorem scanWhole_ne_nil {cs taken rest : List Char} (h : scanWhole cs = some (taken, rest)) :
    taken ≠ [] := by
  unfold scanWhole at h
  split at h
  · cases h; simp
  · exact scanDigits_ne_nil h

theorem splits_scanFraction : Splits scanFraction := by
  intro cs taken rest h
  unfold scanFraction at h
  split at h
  · exact splits_map_cons splits_scanDigits h
  · cases h; rfl

theorem splits_scanExponentDigits : Splits scanExponentDigits := by
  intro cs taken rest h
  unfold scanExponentDigits at h
  split at h
  · exact splits_map_cons splits_scanDigits h
  · exact splits_map_cons splits_scanDigits h
  · exact splits_scanDigits _ _ _ h

theorem splits_scanExponent : Splits scanExponent := by
  intro cs taken rest h
  unfold scanExponent at h
  split at h
  · exact splits_map_cons splits_scanExponentDigits h
  · exact splits_map_cons splits_scanExponentDigits h
  · cases h; rfl

theorem splits_scanMagnitude : Splits scanMagnitude := by
  intro cs taken rest h
  unfold scanMagnitude at h
  split at h
  · cases h
  · next whole cs₁ hw =>
      split at h
      · cases h
      · next fraction cs₂ hf =>
          obtain ⟨p, hp, heq⟩ := Option.map_eq_some_iff.1 h
          cases heq
          rw [splits_scanWhole _ _ _ hw, splits_scanFraction _ _ _ hf,
            splits_scanExponent _ _ _ hp]
          simp

theorem scanMagnitude_ne_nil {cs taken rest : List Char}
    (h : scanMagnitude cs = some (taken, rest)) : taken ≠ [] := by
  unfold scanMagnitude at h
  split at h
  · cases h
  · next whole cs₁ hw =>
      split at h
      · cases h
      · obtain ⟨p, _, heq⟩ := Option.map_eq_some_iff.1 h
        cases heq
        simp [scanWhole_ne_nil hw]

theorem splits_scanNumber : Splits scanNumber := by
  intro cs taken rest h
  unfold scanNumber at h
  split at h
  · exact splits_map_cons splits_scanMagnitude h
  · exact splits_scanMagnitude _ _ _ h

theorem scanNumber_ne_nil {cs taken rest : List Char} (h : scanNumber cs = some (taken, rest)) :
    taken ≠ [] := by
  unfold scanNumber at h
  split at h
  · obtain ⟨p, _, heq⟩ := Option.map_eq_some_iff.1 h
    cases heq
    simp
  · exact scanMagnitude_ne_nil h

/-- A token takes at least one character. -/
theorem length_scanToken {cs rest : List Char} {t : Token} (h : scanToken cs = some (t, rest)) :
    rest.length < cs.length := by
  unfold scanToken at h
  split at h
  case h_10 =>
    obtain ⟨p, hp, heq⟩ := Option.map_eq_some_iff.1 h
    cases heq
    have := length_scanLiteral hp
    simp only [List.length_cons]
    omega
  case h_11 =>
    obtain ⟨p, hp, heq⟩ := Option.map_eq_some_iff.1 h
    cases heq
    have hlen := congrArg List.length (splits_scanNumber _ _ _ hp)
    have hpos := List.length_pos_iff.2 (scanNumber_ne_nil hp)
    rw [List.length_append] at hlen
    omega
  all_goals
    cases h
    simp only [List.length_cons]
    omega

/-- The tokens of a text; nothing if the text does not divide into tokens. -/
def scan : List Char → Option (List Token)
  | [] => some []
  | c :: cs =>
    if isGap c then scan cs
    else
      match _h : scanToken (c :: cs) with
      | none => none
      | some (t, rest) => (scan rest).map (t :: ·)
termination_by cs => cs.length
decreasing_by
  · simp
  · exact length_scanToken ‹_›

end Token

end MipsMachine.Json
