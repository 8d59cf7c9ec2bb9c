import MipsMachine.Json.Literal
import MipsMachine.Proofs.Numeral

set_option autoImplicit false

/-!
# Escapes in a literal

`Escaped` says character by character what stands between the quotation marks of a literal, and
`escape` writes that and nothing else (`escaped_iff`).
-/

namespace MipsMachine.Json

/-- The characters with an escape of their own, and the letters of these escapes. -/
def shortEscapes : List (Char × Char) :=
  [('"', '"'), ('\\', '\\'), ('\x08', 'b'), ('\x0c', 'f'), ('\n', 'n'), ('\r', 'r'), ('\t', 't')]

/-- How a character is written between quotation marks: with an escape of its own, with its
number in four hexadecimal digits if it is another control character, or as it is. -/
inductive Escaped (c : Char) : List Char → Prop
  | short {letter : Char} (h : (c, letter) ∈ shortEscapes) : Escaped c ['\\', letter]
  | numbered {x y : Char} (hcontrol : c.toNat < 0x20)
      (hlong : ∀ letter, (c, letter) ∉ shortEscapes)
      (hx : Numeral.lowerDigits[c.toNat / 16]? = some x)
      (hy : Numeral.lowerDigits[c.toNat % 16]? = some y) :
      Escaped c ['\\', 'u', '0', '0', x, y]
  | raw (hplain : 0x20 ≤ c.toNat) (hlong : ∀ letter, (c, letter) ∉ shortEscapes) : Escaped c [c]

section

variable {c : Char}

theorem escape_of_mem_shortEscapes {letter : Char} (h : (c, letter) ∈ shortEscapes) :
    escape c = ['\\', letter] := by
  simp only [shortEscapes, List.mem_cons, Prod.mk.injEq, List.not_mem_nil, or_false] at h
  rcases h with ⟨rfl, rfl⟩ | ⟨rfl, rfl⟩ | ⟨rfl, rfl⟩ | ⟨rfl, rfl⟩ | ⟨rfl, rfl⟩ | ⟨rfl, rfl⟩
    | ⟨rfl, rfl⟩ <;> rfl

theorem escape_of_not_mem_shortEscapes (h : ∀ letter, (c, letter) ∉ shortEscapes) :
    escape c = if c.toNat < 0x20 then ['\\', 'u'] ++ Numeral.padded 16 4 c.toNat else [c] := by
  have hne : ∀ d letter, (d, letter) ∈ shortEscapes → c ≠ d :=
    fun d letter hd heq => h letter (heq ▸ hd)
  have hback : c.toNat ≠ 0x08 := fun heq => hne '\x08' 'b' (by decide) (Char.toNat_inj.mp heq)
  have hfeed : c.toNat ≠ 0x0C := fun heq => hne '\x0c' 'f' (by decide) (Char.toNat_inj.mp heq)
  rw [escape, if_neg (hne '"' '"' (by decide)), if_neg (hne '\\' '\\' (by decide)), if_neg hback,
    if_neg hfeed, if_neg (hne '\n' 'n' (by decide)), if_neg (hne '\r' 'r' (by decide)),
    if_neg (hne '\t' 't' (by decide))]

/-- Four hexadecimal digits are more than enough for a control character. -/
theorem padded_of_isControl {n : Nat} (h : n < 0x20) :
    (Numeral.lowerDigits[n / 16]?.bind fun x =>
      Numeral.lowerDigits[n % 16]?.map fun y => ['0', '0', x, y]) =
      some (Numeral.padded 16 4 n) := by
  have hall : ∀ k : Fin 0x20, (Numeral.lowerDigits[k.val / 16]?.bind fun x =>
      Numeral.lowerDigits[k.val % 16]?.map fun y => ['0', '0', x, y]) =
        some (Numeral.padded 16 4 k.val) := by
    decide
  exact hall ⟨n, h⟩

/-- A character is written in one way. -/
theorem escaped_iff {cs : List Char} : Escaped c cs ↔ cs = escape c := by
  constructor
  · intro h
    cases h with
    | short h => exact (escape_of_mem_shortEscapes h).symm
    | @numbered x y hcontrol hlong hx hy =>
        have hpadded := padded_of_isControl hcontrol
        rw [hx, Option.bind_some, hy, Option.map_some, Option.some.injEq] at hpadded
        rw [escape_of_not_mem_shortEscapes hlong, if_pos hcontrol, ← hpadded]
        rfl
    | raw hplain hlong => rw [escape_of_not_mem_shortEscapes hlong, if_neg (Nat.not_lt.mpr hplain)]
  · rintro rfl
    by_cases hshort : ∃ letter, (c, letter) ∈ shortEscapes
    · obtain ⟨letter, hletter⟩ := hshort
      rw [escape_of_mem_shortEscapes hletter]
      exact .short hletter
    · rw [not_exists] at hshort
      rw [escape_of_not_mem_shortEscapes hshort]
      split
      · next hcontrol =>
          obtain ⟨x, hx, hpadded⟩ := Option.bind_eq_some_iff.mp (padded_of_isControl hcontrol)
          obtain ⟨y, hy, hpadded⟩ := Option.map_eq_some_iff.mp hpadded
          rw [← hpadded]
          exact .numbered hcontrol hshort hx hy
      · next hplain => exact .raw (Nat.not_lt.mp hplain) hshort

end

end MipsMachine.Json
