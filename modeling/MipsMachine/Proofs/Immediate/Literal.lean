import MipsMachine.Instruction.Source
import MipsMachine.Proofs.Numeral

set_option autoImplicit false

/-!
# What is a literal

`IsLiteral` is the grammar of integer literals: one sign or none, then decimal digits, or
hexadecimal digits behind `0x` or `0X`.  A token of this form stands for its magnitude with its
sign, it is read if the magnitude is at most `limit`, and every other token is refused and
named in the fault (`literals_are_read_exactly`).

The readers of 64-bit integers that are common take a sign of their own.  `guarded?` reads on
top of such a reader: signs are taken off and refused where a second one could stand, and the
magnitude is negated afterwards.  It comes to the same, and the negation is exact.
-/

namespace MipsMachine.Immediate

open Numeral (Denotes)

/-! ## The grammar -/

/-- The characters stand for a magnitude. -/
inductive IsMagnitude : List Char → Nat → Prop
  | decimal {cs : List Char} {n : Nat} (h : Denotes 10 cs n) : IsMagnitude cs n
  | hexadecimal {x : Char} {cs : List Char} {n : Nat} (hx : x = 'x' ∨ x = 'X')
      (h : Denotes 16 cs n) :
      IsMagnitude ('0' :: x :: cs) n

/-- The characters are a literal: whether it has a minus sign, and its magnitude. -/
inductive IsLiteral : List Char → (negative : Bool) → Nat → Prop
  | plain {cs : List Char} {n : Nat} (h : IsMagnitude cs n) : IsLiteral cs false n
  | plus {cs : List Char} {n : Nat} (h : IsMagnitude cs n) : IsLiteral ('+' :: cs) false n
  | minus {cs : List Char} {n : Nat} (h : IsMagnitude cs n) : IsLiteral ('-' :: cs) true n

/-- A magnitude starts with a digit. -/
theorem IsMagnitude.digitValue?_head {c : Char} {cs : List Char} {n : Nat}
    (h : IsMagnitude (c :: cs) n) :
    Numeral.digitValue? c ≠ none := by
  cases h with
  | decimal h => exact fun hc => h.not_mem hc List.mem_cons_self
  | hexadecimal => decide

theorem magnitude?_eq_some_iff {cs : List Char} {n : Nat} :
    magnitude? cs = some n ↔ IsMagnitude cs n := by
  constructor
  · intro h
    unfold magnitude? at h
    split at h
    · exact .hexadecimal (.inl rfl) (Numeral.value?_eq_some_iff.mp h)
    · exact .hexadecimal (.inr rfl) (Numeral.value?_eq_some_iff.mp h)
    · exact .decimal (Numeral.value?_eq_some_iff.mp h)
  · rintro (h | ⟨rfl | rfl, h⟩)
    · unfold magnitude?
      -- the letter behind the zero is no digit, so decimal digits are not taken for the other form
      split
      · exact absurd (List.mem_cons_of_mem _ List.mem_cons_self) (h.not_mem (c := 'x') (by decide))
      · exact absurd (List.mem_cons_of_mem _ List.mem_cons_self) (h.not_mem (c := 'X') (by decide))
      · exact Numeral.value?_eq_some_iff.mpr h
    · exact Numeral.value?_eq_some_iff.mpr h
    · exact Numeral.value?_eq_some_iff.mpr h

/-- The grammar takes the sign off, if there is one, and looks at the rest. -/
theorem isLiteral_iff {cs : List Char} {negative : Bool} {n : Nat} :
    IsLiteral cs negative n ↔ (unsign cs).1 = negative ∧ IsMagnitude (unsign cs).2 n := by
  constructor
  · rintro (h | h | h)
    · have hsame : unsign cs = (false, cs) := by
        unfold unsign
        split
        · exact absurd (by decide) h.digitValue?_head
        · exact absurd (by decide) h.digitValue?_head
        · rfl
      rw [hsame]
      exact ⟨rfl, h⟩
    · exact ⟨rfl, h⟩
    · exact ⟨rfl, h⟩
  · rintro ⟨rfl, h⟩
    unfold unsign at h ⊢
    split at h
    · exact .minus h
    · exact .plus h
    · exact .plain h

theorem IsLiteral.unique {cs : List Char} {negative negative' : Bool} {n n' : Nat}
    (h : IsLiteral cs negative n) (h' : IsLiteral cs negative' n') :
    negative = negative' ∧ n = n' := by
  obtain ⟨hsign, hn⟩ := isLiteral_iff.mp h
  obtain ⟨hsign', hn'⟩ := isLiteral_iff.mp h'
  refine ⟨hsign.symm.trans hsign', Option.some.inj ?_⟩
  exact (magnitude?_eq_some_iff.mpr hn).symm.trans (magnitude?_eq_some_iff.mpr hn')

/-- Reading looks at the sign, then at the magnitude, and then at the limit. -/
theorem read?_eq_bind (s : String) :
    read? s = (magnitude? (unsign s.toList).2).bind fun n =>
      if n ≤ limit then some (signed (unsign s.toList).1 n) else none := by
  rw [read?]
  generalize unsign s.toList = parts
  obtain ⟨negative, body⟩ := parts
  simp only
  cases magnitude? body <;> rfl

theorem read?_eq_some_iff {s : String} {v : Int64} :
    read? s = some v ↔
      ∃ negative n, IsLiteral s.toList negative n ∧ n ≤ limit ∧ v = signed negative n := by
  simp only [read?_eq_bind, Option.bind_eq_some_iff, Option.ite_none_right_eq_some,
    Option.some.injEq, magnitude?_eq_some_iff, isLiteral_iff]
  constructor
  · rintro ⟨n, hn, hle, rfl⟩
    exact ⟨_, n, ⟨rfl, hn⟩, hle, rfl⟩
  · rintro ⟨_, n, ⟨rfl, hn⟩, hle, rfl⟩
    exact ⟨n, hn, hle, rfl⟩

/-- The sign and the magnitude of a literal are those of its value. -/
theorem eq_signed_iff {n : Nat} (h : n ≤ limit) {negative : Bool} {v : Int64} :
    v = signed negative n ↔ v.toInt = if negative then -(n : Int) else n := by
  rw [← Int64.toInt_inj, toInt_signed h]

/-! ## Reading on top of a reader with signs -/

/-- Read a 64-bit integer: one sign or none, then digits of the base; nothing if the value does
not fit. -/
def integer? (base : Nat) (cs : List Char) : Option Int64 :=
  match unsign cs with
  | (negative, digits) =>
    match Numeral.value? base digits with
    | some n =>
      let value : Int := if negative then -n else n
      if Int64.minValue.toInt ≤ value ∧ value ≤ Int64.maxValue.toInt then
        some (Int64.ofInt value)
      else none
    | none => none

/-- Whether the characters start with a sign. -/
def hasSign (cs : List Char) : Bool := cs.head? = some '+' || cs.head? = some '-'

/-- Read a literal behind its sign, with no other sign in it. -/
def guardedMagnitude? (body : List Char) : Option Int64 :=
  if body.isEmpty || hasSign body then none
  else
    match body with
    | '0' :: 'x' :: cs => if hasSign cs then none else integer? 16 cs
    | '0' :: 'X' :: cs => if hasSign cs then none else integer? 16 cs
    | cs => integer? 10 cs

/-- Read a literal: its magnitude first, which is negated behind a minus sign. -/
def guarded? (s : String) : Option Int64 :=
  (guardedMagnitude? (unsign s.toList).2).map fun m => if (unsign s.toList).1 then -m else m

/-- A magnitude as a 64-bit integer, if it fits. -/
def fitting? (n : Nat) : Option Int64 := if n ≤ limit then some (Int64.ofNat n) else none

theorem value?_of_hasSign {base : Nat} {cs : List Char} (h : hasSign cs = true) :
    Numeral.value? base cs = none := by
  rw [Option.eq_none_iff_forall_ne_some]
  intro n hn
  have hdigits := Numeral.value?_eq_some_iff.mp hn
  simp only [hasSign, Bool.or_eq_true, decide_eq_true_eq] at h
  rcases h with h | h
  · exact hdigits.not_mem (by decide) (List.mem_of_head? h)
  · exact hdigits.not_mem (by decide) (List.mem_of_head? h)

theorem unsign_of_not_hasSign {cs : List Char} (h : hasSign cs = false) :
    unsign cs = (false, cs) := by
  unfold unsign
  split
  · exact absurd h (by simp [hasSign])
  · exact absurd h (by simp [hasSign])
  · rfl

/-- Digits alone are read as a number that is not negative, so only the upper end of the range
matters. -/
theorem integer?_of_not_hasSign {cs : List Char} (h : hasSign cs = false) (base : Nat) :
    integer? base cs = (Numeral.value? base cs).bind fitting? := by
  simp only [integer?, unsign_of_not_hasSign h]
  cases Numeral.value? base cs with
  | none => rfl
  | some n =>
      have hrange : Int64.minValue.toInt ≤ (n : Int) ∧ (n : Int) ≤ Int64.maxValue.toInt ↔
          n ≤ limit := by
        have hmin : Int64.minValue.toInt = -9223372036854775808 := rfl
        have hmax : Int64.maxValue.toInt = 9223372036854775807 := rfl
        rw [hmin, hmax, limit]
        omega
      simp only [Bool.false_eq_true, if_false, hrange, Option.bind_some, fitting?]
      rfl

theorem integer?_unless_hasSign (base : Nat) (cs : List Char) :
    (if hasSign cs then none else integer? base cs) = (Numeral.value? base cs).bind fitting? := by
  cases h : hasSign cs with
  | true => simp [value?_of_hasSign h]
  | false => simp [integer?_of_not_hasSign h]

/-- What the guards refuse has no magnitude anyway. -/
theorem guardedMagnitude?_eq (body : List Char) :
    guardedMagnitude? body = (magnitude? body).bind fitting? := by
  unfold guardedMagnitude?
  split
  next h =>
    have hnone : magnitude? body = none := by
      rw [Option.eq_none_iff_forall_ne_some]
      intro n hn
      cases body with
      | nil => cases hn
      | cons c cs =>
          have hdigit := (magnitude?_eq_some_iff.mp hn).digitValue?_head
          simp only [List.isEmpty_cons, hasSign, List.head?_cons, Option.some.injEq, Bool.false_or,
            Bool.or_eq_true, decide_eq_true_eq] at h
          rcases h with rfl | rfl
          · exact hdigit (by decide)
          · exact hdigit (by decide)
    rw [hnone, Option.bind_none]
  next h =>
    simp only [Bool.or_eq_true, not_or, Bool.not_eq_true] at h
    split
    next cs => exact integer?_unless_hasSign 16 cs
    next cs => exact integer?_unless_hasSign 16 cs
    next hsmall hcapital =>
      rw [magnitude?]
      · exact integer?_of_not_hasSign h.2 10
      · exact hsmall
      · exact hcapital

theorem guarded?_eq_read? (s : String) : guarded? s = read? s := by
  rw [guarded?, guardedMagnitude?_eq, read?_eq_bind]
  cases magnitude? (unsign s.toList).2 with
  | none => rfl
  | some n =>
      simp only [Option.bind_some, fitting?]
      by_cases hle : n ≤ limit
      · rw [if_pos hle, if_pos hle]
        rfl
      · rw [if_neg hle, if_neg hle]
        rfl

/-- A magnitude that fits is not the one number that has no negative. -/
theorem toInt_neg_of_guardedMagnitude? {body : List Char} {m : Int64}
    (h : guardedMagnitude? body = some m) :
    (-m).toInt = -m.toInt := by
  rw [guardedMagnitude?_eq] at h
  obtain ⟨n, -, hn⟩ := Option.bind_eq_some_iff.mp h
  rw [fitting?, Option.ite_none_right_eq_some] at hn
  obtain ⟨hle, hm⟩ := hn
  obtain rfl := Option.some.inj hm
  have hminus := toInt_signed hle true
  have hplain := toInt_signed hle false
  simp only [signed, if_true, Bool.false_eq_true, if_false] at hminus hplain
  rw [hminus, hplain]

/-! ## Every token -/

/-- A token is read in the position of an immediate if it is a literal with a magnitude up to
the limit, and then it stands for the magnitude with its sign.  Every other token is refused,
and the fault names it as it stands.  A token is a literal in one way only.  Reading the
magnitude as a 64-bit integer first, with a reader that would take a sign by itself, comes to
the same, and negating that integer does not wrap. -/
theorem literals_are_read_exactly (token : String) :
    (∀ v : Int64, OperandKind.immediate.read token = .ok v ↔
      ∃ negative n, IsLiteral token.toList negative n ∧ n ≤ limit ∧
      v.toInt = if negative then -(n : Int) else n) ∧
    (∀ fault, OperandKind.immediate.read token = .error fault ↔
      (∀ negative n, IsLiteral token.toList negative n → limit < n) ∧
      fault = .badImmediate token) ∧
    (∀ negative n negative' n', IsLiteral token.toList negative n →
      IsLiteral token.toList negative' n' →
      negative = negative' ∧ n = n') ∧
    guarded? token = read? token ∧
    ∀ m, guardedMagnitude? (unsign token.toList).2 = some m → (-m).toInt = -m.toInt := by
  have hread : ∀ v : Int64, read? token = some v ↔
      ∃ negative n, IsLiteral token.toList negative n ∧ n ≤ limit ∧
        v.toInt = if negative then -(n : Int) else n := by
    intro v
    rw [read?_eq_some_iff]
    exact exists_congr fun negative => exists_congr fun n =>
      and_congr_right fun _ => and_congr_right fun hle => eq_signed_iff hle
  have hrefused : read? token = none ↔
      ∀ negative n, IsLiteral token.toList negative n → limit < n := by
    constructor
    · intro hnone negative n hliteral
      by_contra hle
      have hsome := read?_eq_some_iff.mpr ⟨negative, n, hliteral, Nat.le_of_not_lt hle, rfl⟩
      rw [hnone] at hsome
      cases hsome
    · intro hall
      rw [Option.eq_none_iff_forall_ne_some]
      intro v hv
      obtain ⟨negative, n, hliteral, hle, -⟩ := read?_eq_some_iff.mp hv
      exact absurd hle (Nat.not_le_of_lt (hall negative n hliteral))
  refine ⟨?_, ?_, fun _ _ _ _ => IsLiteral.unique, guarded?_eq_read? token,
    fun m => toInt_neg_of_guardedMagnitude?⟩
  · intro v
    rw [← hread, OperandKind.read]
    cases read? token <;> simp
  · intro fault
    rw [← hrefused, OperandKind.read]
    cases read? token <;> simp [eq_comm]

/-- Zeros in front do not count, either prefix will do, and a second sign is nowhere allowed. -/
example :
    read? "-0X00fF" = some (-255) ∧ read? "+007" = some 7 ∧ read? "0x" = none ∧
    read? "-+1" = none ∧
    read? "0x-1" = none ∧ read? "+9223372036854775808" = none := by
  decide +kernel

end MipsMachine.Immediate
