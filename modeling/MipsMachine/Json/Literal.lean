import MipsMachine.Numeral

set_option autoImplicit false

/-!
# JSON string literals

How a text stands between quotation marks in JSON, and how it is read back.  Writing escapes
the quotation mark, the backslash and the control characters, and leaves every other character
as it is.  Reading knows all escapes of the format.  An escape may name half of a surrogate
pair: two halves that match make one character, and a literal with a half left over denotes no
text at all, although it is well formed.
-/

namespace MipsMachine.Json

/-- What a string literal denotes: nothing, if it holds half of a surrogate pair by itself. -/
abbrev Denoted := Option String

/-! ## Writing -/

/-- One character as it is written between quotation marks. -/
def escape (c : Char) : List Char :=
  if c = '"' then ['\\', '"']
  else if c = '\\' then ['\\', '\\']
  else if c.toNat = 0x08 then ['\\', 'b']
  else if c.toNat = 0x0C then ['\\', 'f']
  else if c = '\n' then ['\\', 'n']
  else if c = '\r' then ['\\', 'r']
  else if c = '\t' then ['\\', 't']
  else if c.toNat < 0x20 then ['\\', 'u'] ++ Numeral.padded 16 4 c.toNat
  else [c]

/-- The literal of a text, with its quotation marks. -/
def quote (cs : List Char) : List Char := '"' :: (cs.flatMap escape ++ ['"'])

/-! ## Reading -/

/-- One element of a literal: a character, or half of a surrogate pair named by an escape. -/
inductive Element where
  /-- a character -/
  | char (c : Char)
  /-- a code unit from U+D800 to U+DFFF -/
  | half (unit : Nat)
  deriving DecidableEq, Repr, Inhabited

/-- The element that four hexadecimal digits name. -/
def Element.ofUnit (n : Nat) : Element :=
  if 0xD800 ≤ n ∧ n ≤ 0xDFFF then .half n else .char (Char.ofNat n)

/-- The character behind a backslash that stands for the given one. -/
def unescape? (c : Char) : Option Char :=
  if c = '"' then some '"'
  else if c = '\\' then some '\\'
  else if c = '/' then some '/'
  else if c = 'b' then some (Char.ofNat 0x08)
  else if c = 'f' then some (Char.ofNat 0x0C)
  else if c = 'n' then some '\n'
  else if c = 'r' then some '\r'
  else if c = 't' then some '\t'
  else none

/-- Read a literal behind its opening quotation mark: its elements, and the text behind the
closing one. -/
def scanElements : List Char → Option (List Element × List Char)
  | [] => none
  | '"' :: cs => some ([], cs)
  | '\\' :: 'u' :: a :: b :: c :: d :: cs =>
    match Numeral.value? 16 [a, b, c, d] with
    | some n => (scanElements cs).map fun p => (.ofUnit n :: p.1, p.2)
    | none => none
  | '\\' :: c :: cs =>
    match unescape? c with
    | some e => (scanElements cs).map fun p => (.char e :: p.1, p.2)
    | none => none
  | c :: cs =>
    if c = '\\' ∨ c.toNat < 0x20 then none
    else (scanElements cs).map fun p => (.char c :: p.1, p.2)

/-- The character that a matching pair of halves makes. -/
def joinHalves? (high low : Nat) : Option Char :=
  if high < 0xDC00 ∧ 0xDC00 ≤ low then
    some (Char.ofNat (0x10000 + (high - 0xD800) * 0x400 + (low - 0xDC00)))
  else none

/-- The characters that elements make, unless a half is left over. -/
def joinElements : List Element → Option (List Char)
  | [] => some []
  | .char c :: es => (joinElements es).map (c :: ·)
  | .half high :: .half low :: es =>
    match joinHalves? high low with
    | some c => (joinElements es).map (c :: ·)
    | none => none
  | .half _ :: _ => none

/-- Read a literal behind its opening quotation mark: what it denotes, and the text behind it. -/
def scanLiteral (cs : List Char) : Option (Denoted × List Char) :=
  (scanElements cs).map fun p => ((joinElements p.1).map String.ofList, p.2)

theorem length_scanElements {cs rest : List Char} {es : List Element}
    (h : scanElements cs = some (es, rest)) : rest.length < cs.length := by
  fun_induction scanElements cs generalizing es with
  | case1 => cases h
  | case2 cs => cases h; simp
  | case3 a b c d cs n _ ih =>
      obtain ⟨p, hp, heq⟩ := Option.map_eq_some_iff.1 h
      cases heq
      have := ih hp
      simp only [List.length_cons]
      omega
  | case4 => cases h
  | case5 c cs _ e _ ih =>
      obtain ⟨p, hp, heq⟩ := Option.map_eq_some_iff.1 h
      cases heq
      have := ih hp
      simp only [List.length_cons]
      omega
  | case6 => cases h
  | case7 => cases h
  | case8 c cs _ _ _ _ ih =>
      obtain ⟨p, hp, heq⟩ := Option.map_eq_some_iff.1 h
      cases heq
      have := ih hp
      simp only [List.length_cons]
      omega

/-- Reading a literal uses up at least the closing quotation mark. -/
theorem length_scanLiteral {cs rest : List Char} {text : Denoted}
    (h : scanLiteral cs = some (text, rest)) : rest.length < cs.length := by
  obtain ⟨p, hp, heq⟩ := Option.map_eq_some_iff.1 h
  cases heq
  exact length_scanElements hp

/-! ## Reading what was written -/

theorem scanElements_escape (c : Char) (cs : List Char) :
    scanElements (escape c ++ cs) = (scanElements cs).map fun p => (.char c :: p.1, p.2) := by
  unfold escape
  split
  · next h => subst h; rfl
  split
  · next h => subst h; rfl
  split
  · next h =>
      have : c = Char.ofNat 0x08 := by rw [← h, Char.ofNat_toNat]
      subst this; rfl
  split
  · next h =>
      have : c = Char.ofNat 0x0C := by rw [← h, Char.ofNat_toNat]
      subst this; rfl
  split
  · next h => subst h; rfl
  split
  · next h => subst h; rfl
  split
  · next h => subst h; rfl
  split
  · next h =>
      have key : ∀ k : Fin 0x20, ∀ cs : List Char,
          scanElements (['\\', 'u'] ++ Numeral.padded 16 4 k.val ++ cs)
            = (scanElements cs).map fun p => (.char (Char.ofNat k.val) :: p.1, p.2) := by
        intro k cs
        have h4 : ∀ k : Fin 0x20, (Numeral.padded 16 4 k.val).length = 4 := by decide
        obtain ⟨a, b, c, d, habcd⟩ : ∃ a b c d, Numeral.padded 16 4 k.val = [a, b, c, d] := by
          have := h4 k
          match Numeral.padded 16 4 k.val, this with
          | [a, b, c, d], _ => exact ⟨a, b, c, d, rfl⟩
        have hv : Numeral.value? 16 [a, b, c, d] = some k.val := by
          rw [← habcd]; exact Numeral.value?_padded (by decide) (by decide) 4 k.val
        have hu : Element.ofUnit k.val = .char (Char.ofNat k.val) := by
          rw [Element.ofUnit, if_neg (by omega)]
        simp [habcd, scanElements, hv, hu]
      have := key ⟨c.toNat, h⟩ cs
      simpa [Char.ofNat_toNat] using this
  · next hq hb _ _ _ _ _ hc =>
      have hplain : ¬(c = '\\' ∨ c.toNat < 0x20) := by
        rintro (h | h)
        · exact hb h
        · exact hc h
      simp only [List.cons_append, List.nil_append]
      rw [scanElements.eq_def]
      split
      next h => cases h
      next h => exact absurd (List.cons.inj h).1 hq
      next h => exact absurd (List.cons.inj h).1 hb
      next h => exact absurd (List.cons.inj h).1 hb
      next h =>
        obtain ⟨rfl, rfl⟩ := List.cons.inj h
        rw [if_neg hplain]

theorem scanElements_flatMap_escape (cs rest : List Char) :
    scanElements (cs.flatMap escape ++ '"' :: rest) = some (cs.map .char, rest) := by
  induction cs with
  | nil => rfl
  | cons c cs ih =>
      rw [List.flatMap_cons, List.append_assoc, scanElements_escape, ih]
      rfl

theorem joinElements_map_char (cs : List Char) :
    joinElements (cs.map .char) = some cs := by
  induction cs with
  | nil => rfl
  | cons c cs ih => simp [joinElements, ih]

/-- A written literal reads back as its text, and reading stops behind it. -/
theorem scanLiteral_quote (cs rest : List Char) :
    scanLiteral (cs.flatMap escape ++ '"' :: rest) = some (some (String.ofList cs), rest) := by
  simp [scanLiteral, scanElements_flatMap_escape, joinElements_map_char]

end MipsMachine.Json
