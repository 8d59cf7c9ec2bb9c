set_option autoImplicit false

/-!
# Registers

The machine has thirty-two general registers.  A register is its number, the five bits that
stand for it in an encoded instruction; in source text it goes by its conventional name.
-/

namespace MipsMachine

/-- A general register. -/
structure Register where
  /-- The number of the register, as it stands in an encoded instruction. -/
  number : BitVec 5
  deriving DecidableEq, Repr, Inhabited

namespace Register

/-- The register names, in the order of the register numbers. -/
def names : Vector String 32 := #v[
  "$zero", "$at", "$v0", "$v1", "$a0", "$a1", "$a2", "$a3",
  "$t0", "$t1", "$t2", "$t3", "$t4", "$t5", "$t6", "$t7",
  "$s0", "$s1", "$s2", "$s3", "$s4", "$s5", "$s6", "$s7",
  "$t8", "$t9", "$k0", "$k1", "$gp", "$sp", "$fp", "$ra"]

/-- The number of a register as an index below thirty-two. -/
def index (r : Register) : Fin 32 := r.number.toFin

/-- The register with the given index. -/
def ofIndex (i : Fin 32) : Register := ⟨⟨i⟩⟩

/-- The register with the given number, if there is one. -/
def ofNat? (n : Nat) : Option Register :=
  if h : n < 32 then some (ofIndex ⟨n, h⟩) else none

/-- All registers, in ascending order. -/
def all : List Register := List.ofFn ofIndex

/-- The name of a register. -/
def name (r : Register) : String := names[r.index]

/-- The register of the given name, if there is one. -/
def ofName? (s : String) : Option Register := all.find? fun r => r.name == s

/-- `$zero`, which always holds 0. -/
def zero : Register := ⟨0⟩

/-- `$t0`, where products go unless the settings name another register. -/
def t0 : Register := ⟨8⟩

/-- `$sp`, the stack pointer by convention. -/
def sp : Register := ⟨29⟩

/-- `$ra`, the return address by convention. -/
def ra : Register := ⟨31⟩

/-! ## Numbers and names -/

@[simp] theorem index_ofIndex (i : Fin 32) : (ofIndex i).index = i := rfl

@[simp] theorem ofIndex_index (r : Register) : ofIndex r.index = r := rfl

theorem index_lt (r : Register) : r.index.val < 32 := r.index.isLt

theorem index_injective {r s : Register} (h : r.index = s.index) : r = s := by
  rw [← ofIndex_index r, h, ofIndex_index]

@[simp] theorem mem_all (r : Register) : r ∈ all := by
  simp only [all, List.mem_ofFn]
  exact ⟨r.index, rfl⟩

theorem length_all : all.length = 32 := by simp [all]

/-- What holds at each of the thirty-two indices holds of every register. -/
theorem forall_of_index {p : Register → Prop} (h : ∀ i, p (ofIndex i)) (r : Register) : p r :=
  h r.index

/-- Every name leads back to its register. -/
@[simp] theorem ofName?_name (r : Register) : ofName? r.name = some r :=
  forall_of_index (p := fun r => ofName? r.name = some r) (by decide) r

/-- A name belongs to one register only, and no other text names a register. -/
theorem ofName?_eq_some_iff {s : String} {r : Register} : ofName? s = some r ↔ r.name = s := by
  constructor
  · intro h
    simpa using List.find?_some h
  · rintro rfl
    exact ofName?_name r

end Register

end MipsMachine
