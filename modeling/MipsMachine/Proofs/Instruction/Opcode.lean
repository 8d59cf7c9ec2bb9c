import Mathlib.Data.List.Nodup
import Mathlib.Data.List.Pairwise
import MipsMachine.Instruction.Encoding

set_option autoImplicit false

/-!
# Opcodes

The opcode of an encoded instruction is the one that its layout was given, whatever stands in
the other fields.  The opcodes in use are divided among the classes (`flatMap_opcodes_perm`),
so an opcode tells the class of the instruction (`opcode_encode_mem_iff`), and the instructions
of a class can be counted in a row of words.
-/

namespace MipsMachine

namespace Encoding

theorem opcode_ofRegisters (rs rt rd : Register) (shamt : BitVec 5) (funct : BitVec 6) :
    (ofRegisters rs rt rd shamt funct).word.opcode = Opcode.special := by
  simp (disch := decide) only [ofRegisters, Word.opcode, BitVec.extractLsb'_append_eq_of_le]
  exact BitVec.extractLsb'_eq_self

theorem opcode_ofFactors (rs rt : Register) : (ofFactors rs rt).word.opcode = Opcode.special := by
  simp (disch := decide) only [ofFactors, Word.opcode, BitVec.extractLsb'_append_eq_of_le]
  exact BitVec.extractLsb'_eq_self

theorem opcode_ofImmediate (opcode : BitVec 6) (rs rt : Register) (value : BitVec 16) :
    (ofImmediate opcode rs rt value).word.opcode = opcode := by
  simp (disch := decide) only [ofImmediate, Word.opcode, BitVec.extractLsb'_append_eq_of_le]
  exact BitVec.extractLsb'_eq_self

theorem opcode_ofSource (source : Register) : (ofSource source).word.opcode = Opcode.print := by
  simp (disch := decide) only [ofSource, Word.opcode, BitVec.extractLsb'_append_eq_of_le]
  exact BitVec.extractLsb'_eq_self

theorem opcode_ofOpcode (opcode : BitVec 6) : (ofOpcode opcode).word.opcode = opcode := by
  simp (disch := decide) only [ofOpcode, Word.opcode, BitVec.extractLsb'_append_eq_of_le]
  exact BitVec.extractLsb'_eq_self

end Encoding

/-- The opcodes of the instructions of a class. -/
def InstructionClass.opcodes : InstructionClass → List (BitVec 6)
  | .alu => [Opcode.special, Opcode.addi, Opcode.slti, Opcode.lui]
  | .load => [Opcode.lw]
  | .store => [Opcode.sw]
  | .branch => [Opcode.beq, Opcode.bne]
  | .output => [Opcode.print, Opcode.prints]
  | .halt => [Opcode.halt]

theorem Opcode.nodup_all : Opcode.all.Nodup := by decide

namespace InstructionClass

/-- The classes divide the opcodes in use among them. -/
theorem flatMap_opcodes_perm : (all.flatMap opcodes).Perm Opcode.all := by decide

/-- An opcode belongs to one class only. -/
theorem mem_opcodes_iff {c d : InstructionClass} {code : BitVec 6} (h : code ∈ c.opcodes) :
    code ∈ d.opcodes ↔ c = d := by
  have hnodup : (all.flatMap opcodes).Nodup := flatMap_opcodes_perm.nodup_iff.mpr Opcode.nodup_all
  have hdisjoint : all.Pairwise fun c d => c.opcodes.Disjoint d.opcodes :=
    (List.nodup_flatMap.mp hnodup).2
  have hsymm : Std.Symm fun c d : InstructionClass => c.opcodes.Disjoint d.opcodes :=
    ⟨fun _ _ h _ hd hc => h hc hd⟩
  constructor
  · intro hd
    by_contra hne
    exact hdisjoint.forall c.mem_all d.mem_all hne h hd
  · rintro rfl
    exact h

end InstructionClass

namespace Instruction

theorem opcode_encode_mem (i : Instruction) : i.encode.word.opcode ∈ i.classOf.opcodes := by
  cases i with
  | alu op rd rs rt =>
      rw [encode, Encoding.opcode_ofRegisters]
      exact List.mem_cons_self
  | shiftLeft rd rt amount =>
      rw [encode, Encoding.opcode_ofRegisters]
      exact List.mem_cons_self
  | multiply rs rt =>
      rw [encode, Encoding.opcode_ofFactors]
      exact List.mem_cons_self
  | aluImmediate op rt rs value =>
      rw [encode, Encoding.opcode_ofImmediate, classOf]
      cases op <;> decide
  | load rt offset base =>
      rw [encode, Encoding.opcode_ofImmediate]
      exact List.mem_cons_self
  | store rt offset base =>
      rw [encode, Encoding.opcode_ofImmediate]
      exact List.mem_cons_self
  | loadUpper rt value =>
      rw [encode, Encoding.opcode_ofImmediate, classOf]
      decide
  | branch test rs rt label =>
      rw [encode, Encoding.opcode_ofImmediate, classOf]
      cases test <;> decide
  | print source =>
      rw [encode, Encoding.opcode_ofSource]
      exact List.mem_cons_self
  | printString constant =>
      rw [encode, Encoding.opcode_ofOpcode, classOf]
      decide
  | halt =>
      rw [encode, Encoding.opcode_ofOpcode]
      exact List.mem_cons_self

/-- Instructions are written with no other opcodes than those in use. -/
theorem opcode_encode_mem_all (i : Instruction) : i.encode.word.opcode ∈ Opcode.all :=
  InstructionClass.flatMap_opcodes_perm.mem_iff.mp
    (List.mem_flatMap.mpr ⟨i.classOf, i.classOf.mem_all, i.opcode_encode_mem⟩)

/-- The opcode of a word tells the class of the instruction. -/
theorem opcode_encode_mem_iff (i : Instruction) (c : InstructionClass) :
    i.encode.word.opcode ∈ c.opcodes ↔ i.classOf = c :=
  InstructionClass.mem_opcodes_iff i.opcode_encode_mem

end Instruction

end MipsMachine
