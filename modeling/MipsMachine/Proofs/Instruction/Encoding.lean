import MipsMachine.Proofs.Instruction.Opcode

set_option autoImplicit false

/-!
# What a word keeps of its instruction

A word is cut into fields in one of four ways, and it is determined by its fields in each of
them.  `Fills` says what the format of an instruction puts where; there is one such word, and
the instruction is encoded as it (`fills_iff`).  Read the other way round, a word tells the
mnemonic and the registers, the low sixteen bits of an immediate and the low five bits of a
shift amount.  Nothing else is told: two instructions have the same word exactly if they agree
in that much (`words_agree_iff`).
-/

namespace MipsMachine

/-! ## Fields -/

namespace Word

/-- How many bits lie below the register of a value to print. -/
def sourceShift : Nat := 5

/-- The register of a value to print: bits 5 to 9. -/
def source (w : Word) : BitVec 5 := w.extractLsb' sourceShift 5

/-- The fields of a word that starts with the opcode for operations with function codes. -/
structure RegisterFields (w : Word) (rs rt rd shamt : BitVec 5) (funct : BitVec 6) : Prop where
  opcode : w.opcode = Opcode.special
  rs : w.rs = rs
  rt : w.rt = rt
  rd : w.rd = rd
  shamt : w.shamt = shamt
  funct : w.funct = funct

/-- The fields of a word with an immediate. -/
structure ImmediateFields (w : Word) (opcode : BitVec 6) (rs rt : BitVec 5)
    (value : BitVec 16) : Prop where
  opcode : w.opcode = opcode
  rs : w.rs = rs
  rt : w.rt = rt
  immediate : w.immediate = value

/-- The fields of a word for printing a register; the bits around the register are 0. -/
structure PrintFields (w : Word) (source : BitVec 5) : Prop where
  opcode : w.opcode = Opcode.print
  above : w.extractLsb' 10 16 = 0
  source : w.source = source
  below : w.extractLsb' 0 5 = 0

/-- An opcode with nothing but zeros behind it. -/
structure BareFields (w : Word) (opcode : BitVec 6) : Prop where
  opcode : w.opcode = opcode
  below : w.extractLsb' 0 26 = 0

/-! A word is put together of its fields, so words with the same fields are equal. -/

theorem RegisterFields.unique {v w : Word} {rs rt rd shamt : BitVec 5} {funct : BitVec 6}
    (hv : v.RegisterFields rs rt rd shamt funct) (hw : w.RegisterFields rs rt rd shamt funct) :
    v = w := by
  have happend : ∀ u : Word, u.opcode ++ u.rs ++ u.rt ++ u.rd ++ u.shamt ++ u.funct = u := by
    intro u
    simp (disch := rfl) only [Word.opcode, Word.rs, Word.rt, Word.rd, Word.shamt, Word.funct,
      opcodeShift, rsShift, rtShift, rdShift, shamtShift,
      BitVec.extractLsb'_append_extractLsb'_eq_extractLsb']
    exact BitVec.extractLsb'_eq_self
  rw [← happend v, ← happend w, hv.opcode, hv.rs, hv.rt, hv.rd, hv.shamt, hv.funct, hw.opcode,
    hw.rs, hw.rt, hw.rd, hw.shamt, hw.funct]

theorem ImmediateFields.unique {v w : Word} {opcode : BitVec 6} {rs rt : BitVec 5}
    {value : BitVec 16} (hv : v.ImmediateFields opcode rs rt value)
    (hw : w.ImmediateFields opcode rs rt value) : v = w := by
  have happend : ∀ u : Word, u.opcode ++ u.rs ++ u.rt ++ u.immediate = u := by
    intro u
    simp (disch := rfl) only [Word.opcode, Word.rs, Word.rt, Word.immediate, opcodeShift,
      rsShift, rtShift, BitVec.extractLsb'_append_extractLsb'_eq_extractLsb']
    exact BitVec.extractLsb'_eq_self
  rw [← happend v, ← happend w, hv.opcode, hv.rs, hv.rt, hv.immediate, hw.opcode, hw.rs, hw.rt,
    hw.immediate]

theorem PrintFields.unique {v w : Word} {source : BitVec 5} (hv : v.PrintFields source)
    (hw : w.PrintFields source) : v = w := by
  have happend : ∀ u : Word,
      u.opcode ++ u.extractLsb' 10 16 ++ u.source ++ u.extractLsb' 0 5 = u := by
    intro u
    simp (disch := rfl) only [Word.opcode, Word.source, opcodeShift, sourceShift,
      BitVec.extractLsb'_append_extractLsb'_eq_extractLsb']
    exact BitVec.extractLsb'_eq_self
  rw [← happend v, ← happend w, hv.opcode, hv.above, hv.source, hv.below, hw.opcode, hw.above,
    hw.source, hw.below]

theorem BareFields.unique {v w : Word} {opcode : BitVec 6} (hv : v.BareFields opcode)
    (hw : w.BareFields opcode) :
    v = w := by
  have happend : ∀ u : Word, u.opcode ++ u.extractLsb' 0 26 = u := by
    intro u
    simp (disch := rfl) only [Word.opcode, opcodeShift,
      BitVec.extractLsb'_append_extractLsb'_eq_extractLsb']
    exact BitVec.extractLsb'_eq_self
  rw [← happend v, ← happend w, hv.opcode, hv.below, hw.opcode, hw.below]

end Word

namespace Encoding

/-! What is appended in the word of a layout stands in its fields. -/

theorem fields_ofRegisters (rs rt rd : Register) (shamt : BitVec 5) (funct : BitVec 6) :
    (ofRegisters rs rt rd shamt funct).word.RegisterFields rs.number rt.number
      rd.number shamt funct := by
  refine ⟨opcode_ofRegisters rs rt rd shamt funct, ?_, ?_, ?_, ?_, ?_⟩ <;>
    simp (disch := decide) only [ofRegisters, Word.rs, Word.rt, Word.rd, Word.shamt, Word.funct,
      BitVec.extractLsb'_append_eq_of_le, BitVec.extractLsb'_append_eq_of_add_le] <;>
    exact BitVec.extractLsb'_eq_self

/-- The ten zeros of the layout `Multiply` fill the fields of a destination and a shift amount. -/
theorem fields_ofFactors (rs rt : Register) :
    (ofFactors rs rt).word.RegisterFields rs.number rt.number 0 0 FunctionCode.mult := by
  refine ⟨opcode_ofFactors rs rt, ?_, ?_, ?_, ?_, ?_⟩ <;>
    simp (disch := decide) only [ofFactors, Word.rs, Word.rt, Word.rd, Word.shamt, Word.funct,
      BitVec.extractLsb'_append_eq_of_le, BitVec.extractLsb'_append_eq_of_add_le]
  · exact BitVec.extractLsb'_eq_self
  · exact BitVec.extractLsb'_eq_self
  · rfl
  · rfl
  · rfl

theorem fields_ofImmediate (opcode : BitVec 6) (rs rt : Register) (value : BitVec 16) :
    (ofImmediate opcode rs rt value).word.ImmediateFields opcode rs.number rt.number value := by
  refine ⟨opcode_ofImmediate opcode rs rt value, ?_, ?_, ?_⟩ <;>
    simp (disch := decide) only [ofImmediate, Word.rs, Word.rt, Word.immediate,
      BitVec.extractLsb'_append_eq_of_le, BitVec.extractLsb'_append_eq_of_add_le] <;>
    exact BitVec.extractLsb'_eq_self

theorem fields_ofSource (source : Register) :
    (ofSource source).word.PrintFields source.number := by
  refine ⟨opcode_ofSource source, ?_, ?_, ?_⟩ <;>
    simp (disch := decide) only [ofSource, Word.source, BitVec.extractLsb'_append_eq_of_le,
      BitVec.extractLsb'_append_eq_of_add_le] <;>
    exact BitVec.extractLsb'_eq_self

theorem fields_ofOpcode (opcode : BitVec 6) : (ofOpcode opcode).word.BareFields opcode := by
  refine ⟨opcode_ofOpcode opcode, ?_⟩
  simp (disch := decide) only [ofOpcode, BitVec.extractLsb'_append_eq_of_add_le]
  exact BitVec.extractLsb'_eq_self

/-- The low half of an immediate is the integer in two's complement of sixteen bits. -/
theorem lowHalf_eq_ofInt (value : Int64) : lowHalf value = BitVec.ofInt 16 value.toInt :=
  (BitVec.signExtend_eq_setWidth_of_le value.toBitVec (by decide)).symm

end Encoding

/-- Integers are the same in two's complement of sixteen bits if they differ by a multiple of
`2 ^ 16`. -/
theorem ofInt_eq_ofInt_iff {a b : Int} :
    BitVec.ofInt 16 a = BitVec.ofInt 16 b ↔ a % 65536 = b % 65536 := by
  rw [← BitVec.toNat_inj, BitVec.toNat_ofInt, BitVec.toNat_ofInt]
  omega

/-- The bits that are kept of a shift amount are its remainder by 32. -/
theorem setWidth_toBitVec_eq_iff {m n : UInt32} :
    m.toBitVec.setWidth 5 = n.toBitVec.setWidth 5 ↔ m.toNat % 32 = n.toNat % 32 := by
  rw [← BitVec.toNat_inj, BitVec.toNat_setWidth, BitVec.toNat_setWidth]
  rfl

/-! ## What the format puts where -/

namespace Instruction

/-- What the format of an instruction puts into the fields of a word.  The fields of each
format cover all 32 bits; those that the instruction has no use for are 0.  Immediates stand
there in two's complement of sixteen bits. -/
def Fills (w : Word) : Instruction → Prop
  | .alu op rd rs rt => w.RegisterFields rs.number rt.number rd.number 0 op.functionCode
  | .shiftLeft rd rt amount =>
      w.RegisterFields 0 rt.number rd.number (BitVec.ofNat 5 amount.toNat) FunctionCode.sll
  | .multiply rs rt => w.RegisterFields rs.number rt.number 0 0 FunctionCode.mult
  | .aluImmediate op rt rs value =>
      w.ImmediateFields op.opcode rs.number rt.number (BitVec.ofInt 16 value.toInt)
  | .load rt offset base =>
      w.ImmediateFields Opcode.lw base.number rt.number (BitVec.ofInt 16 offset.toInt)
  | .store rt offset base =>
      w.ImmediateFields Opcode.sw base.number rt.number (BitVec.ofInt 16 offset.toInt)
  | .loadUpper rt value => w.ImmediateFields Opcode.lui 0 rt.number (BitVec.ofInt 16 value.toInt)
  | .branch test rs rt _ => w.ImmediateFields test.opcode rs.number rt.number 0
  | .print source => w.PrintFields source.number
  | .printString _ => w.BareFields Opcode.prints
  | .halt => w.BareFields Opcode.halt

theorem fills_encode (i : Instruction) : i.Fills i.encode.word := by
  cases i with
  | alu op rd rs rt => exact Encoding.fields_ofRegisters rs rt rd 0 op.functionCode
  | shiftLeft rd rt amount => exact Encoding.fields_ofRegisters .zero rt rd _ FunctionCode.sll
  | multiply rs rt => exact Encoding.fields_ofFactors rs rt
  | aluImmediate op rt rs value =>
      rw [Fills, ← Encoding.lowHalf_eq_ofInt]
      exact Encoding.fields_ofImmediate op.opcode rs rt _
  | load rt offset base =>
      rw [Fills, ← Encoding.lowHalf_eq_ofInt]
      exact Encoding.fields_ofImmediate Opcode.lw base rt _
  | store rt offset base =>
      rw [Fills, ← Encoding.lowHalf_eq_ofInt]
      exact Encoding.fields_ofImmediate Opcode.sw base rt _
  | loadUpper rt value =>
      rw [Fills, ← Encoding.lowHalf_eq_ofInt]
      exact Encoding.fields_ofImmediate Opcode.lui .zero rt _
  | branch test rs rt label => exact Encoding.fields_ofImmediate test.opcode rs rt 0
  | print source => exact Encoding.fields_ofSource source
  | printString constant => exact Encoding.fields_ofOpcode Opcode.prints
  | halt => exact Encoding.fields_ofOpcode Opcode.halt

theorem Fills.unique {i : Instruction} {v w : Word} (hv : i.Fills v) (hw : i.Fills w) : v = w := by
  cases i with
  | alu | shiftLeft | multiply => exact Word.RegisterFields.unique hv hw
  | aluImmediate | load | store | loadUpper | branch => exact Word.ImmediateFields.unique hv hw
  | print => exact Word.PrintFields.unique hv hw
  | printString | halt => exact Word.BareFields.unique hv hw

/-- The word of an instruction is the only one with the fields that the format asks for. -/
theorem fills_iff {i : Instruction} {w : Word} : i.Fills w ↔ w = i.encode.word := by
  constructor
  · intro h
    exact h.unique i.fills_encode
  · rintro rfl
    exact i.fills_encode

end Instruction

/-! ## The mnemonic of a word -/

/-- The opcode of a word, with the function code behind it if the opcode alone does not tell
the operation, else with 0. -/
def Word.codes (w : Word) : BitVec 6 × BitVec 6 :=
  (w.opcode, if w.opcode = Opcode.special then w.funct else 0)

/-- The codes of the instructions of a mnemonic. -/
def Mnemonic.codes : Mnemonic → BitVec 6 × BitVec 6
  | .add => (Opcode.special, FunctionCode.add)
  | .sub => (Opcode.special, FunctionCode.sub)
  | .and => (Opcode.special, FunctionCode.and)
  | .or => (Opcode.special, FunctionCode.or)
  | .slt => (Opcode.special, FunctionCode.slt)
  | .sll => (Opcode.special, FunctionCode.sll)
  | .mult => (Opcode.special, FunctionCode.mult)
  | .addi => (Opcode.addi, 0)
  | .slti => (Opcode.slti, 0)
  | .lw => (Opcode.lw, 0)
  | .sw => (Opcode.sw, 0)
  | .lui => (Opcode.lui, 0)
  | .beq => (Opcode.beq, 0)
  | .bne => (Opcode.bne, 0)
  | .print => (Opcode.print, 0)
  | .prints => (Opcode.prints, 0)
  | .exit | .halt => (Opcode.halt, 0)

theorem FunctionCode.nodup_all : FunctionCode.all.Nodup := by decide

namespace Mnemonic

/-- The codes of the operations are the opcodes in use, that for operations with function codes
once with each of these.  `EXIT` and `HALT` are one operation. -/
theorem map_codes_perm :
    ((all.erase .exit).map codes).Perm
      (FunctionCode.all.map (Prod.mk Opcode.special) ++
        (Opcode.all.erase Opcode.special).map fun opcode => (opcode, 0)) := by
  decide

theorem nodup_map_codes : ((all.erase .exit).map codes).Nodup := by
  rw [map_codes_perm.nodup_iff, List.nodup_append]
  refine ⟨FunctionCode.nodup_all.map fun _ _ h => congrArg Prod.snd h,
    (Opcode.nodup_all.erase _).map fun _ _ h => congrArg Prod.fst h, ?_⟩
  intro a ha b hb heq
  obtain ⟨funct, -, rfl⟩ := List.mem_map.mp ha
  obtain ⟨opcode, hopcode, rfl⟩ := List.mem_map.mp hb
  obtain ⟨rfl, -⟩ := Prod.mk.inj heq
  exact Opcode.nodup_all.not_mem_erase hopcode

/-- No two operations share their codes. -/
theorem eq_of_codes_eq {m n : Mnemonic} (h : m.codes = n.codes) (hm : m ≠ .exit) (hn : n ≠ .exit) :
    m = n :=
  List.inj_on_of_nodup_map nodup_map_codes ((List.mem_erase_of_ne hm).mpr m.mem_all)
    ((List.mem_erase_of_ne hn).mpr n.mem_all) h

end Mnemonic

theorem Word.RegisterFields.codes_eq {w : Word} {rs rt rd shamt : BitVec 5} {funct : BitVec 6}
    (h : w.RegisterFields rs rt rd shamt funct) : w.codes = (Opcode.special, funct) := by
  rw [codes, if_pos h.opcode, h.opcode, h.funct]

theorem Word.codes_eq_of_opcode_ne {w : Word} {opcode : BitVec 6} (h : w.opcode = opcode)
    (hne : opcode ≠ Opcode.special) : w.codes = (opcode, 0) := by
  rw [codes, h, if_neg hne]

namespace Instruction

theorem mnemonic_ne_exit (i : Instruction) : i.mnemonic ≠ .exit := by
  cases i with
  | alu op => cases op <;> exact Mnemonic.noConfusion
  | aluImmediate op => cases op <;> exact Mnemonic.noConfusion
  | branch test => cases test <;> exact Mnemonic.noConfusion
  | _ => exact Mnemonic.noConfusion

theorem codes_encode (i : Instruction) : i.encode.word.codes = i.mnemonic.codes := by
  have hfills := i.fills_encode
  cases i with
  | alu op => cases op <;> exact hfills.codes_eq
  | shiftLeft | multiply => exact hfills.codes_eq
  | aluImmediate op => cases op <;> exact Word.codes_eq_of_opcode_ne hfills.opcode (by decide)
  | branch test => cases test <;> exact Word.codes_eq_of_opcode_ne hfills.opcode (by decide)
  | _ => exact Word.codes_eq_of_opcode_ne hfills.opcode (by decide)

/-- Instructions are written with no other function codes than those in use. -/
theorem funct_encode_mem_all {i : Instruction} (h : i.encode.word.opcode = Opcode.special) :
    i.encode.word.funct ∈ FunctionCode.all := by
  have hmem : i.encode.word.codes ∈ (Mnemonic.all.erase .exit).map Mnemonic.codes := by
    rw [codes_encode]
    exact List.mem_map_of_mem ((List.mem_erase_of_ne i.mnemonic_ne_exit).mpr i.mnemonic.mem_all)
  rw [Mnemonic.map_codes_perm.mem_iff, Word.codes, if_pos h, h, List.mem_append] at hmem
  rcases hmem with hfunct | hopcode
  · obtain ⟨funct, hfunct, heq⟩ := List.mem_map.mp hfunct
    rwa [← (Prod.mk.inj heq).2]
  · obtain ⟨opcode, hopcode, heq⟩ := List.mem_map.mp hopcode
    rw [(Prod.mk.inj heq).1] at hopcode
    exact absurd hopcode Opcode.nodup_all.not_mem_erase

/-- A word tells the mnemonic of its instruction. -/
theorem mnemonic_eq_of_word_eq {i j : Instruction} (h : i.encode.word = j.encode.word) :
    i.mnemonic = j.mnemonic := by
  refine Mnemonic.eq_of_codes_eq ?_ i.mnemonic_ne_exit j.mnemonic_ne_exit
  rw [← codes_encode, ← codes_encode, h]

end Instruction

/-! ## What is kept -/

/-- Two operands of which a word keeps the same: registers are kept, immediates by their low
sixteen bits, shift amounts by their low five bits, and labels not at all. -/
def OperandKind.Alike : (kind : OperandKind) → kind.Value → kind.Value → Prop
  | .register, r, s => r = s
  | .immediate, v, w => v.toInt % 65536 = w.toInt % 65536
  | .amount, m, n => m.toNat % 32 = n.toNat % 32
  | .label, _, _ => True

/-- The operands are alike position by position. -/
def Operands.Alike : (kinds : List OperandKind) → Operands kinds → Operands kinds → Prop
  | [], _, _ => True
  | kind :: kinds, (v, vs), (w, ws) => kind.Alike v w ∧ Operands.Alike kinds vs ws

theorem Register.eq_of_number_eq {r s : Register} (h : r.number = s.number) : r = s :=
  congrArg Register.mk h

namespace Instruction

/-- The instructions have one mnemonic and operands that are alike. -/
def Alike (i j : Instruction) : Prop :=
  ∃ m vs ws, i = ofOperands m vs ∧ j = ofOperands m ws ∧ Operands.Alike m.operandKinds vs ws

/-- Operands that are alike leave the same in a word. -/
theorem encode_eq_of_alike {m : Mnemonic} {vs ws : Operands m.operandKinds}
    (h : Operands.Alike m.operandKinds vs ws) :
    (ofOperands m vs).encode = (ofOperands m ws).encode := by
  cases m with
  | add | sub | and | or | slt =>
      obtain ⟨rd, rs, rt, ⟨⟩⟩ := vs
      simp only [Operands.Alike, OperandKind.Alike] at h
      obtain ⟨rfl, rfl, rfl, -⟩ := h
      rfl
  | sll =>
      obtain ⟨rd, rt, amount, ⟨⟩⟩ := vs
      simp only [Operands.Alike, OperandKind.Alike] at h
      obtain ⟨rfl, rfl, hamount, -⟩ := h
      simp only [ofOperands, encode, setWidth_toBitVec_eq_iff.mpr hamount]
  | mult =>
      obtain ⟨rs, rt, ⟨⟩⟩ := vs
      simp only [Operands.Alike, OperandKind.Alike] at h
      obtain ⟨rfl, rfl, -⟩ := h
      rfl
  | addi | slti =>
      obtain ⟨rt, rs, value, ⟨⟩⟩ := vs
      simp only [Operands.Alike, OperandKind.Alike] at h
      obtain ⟨rfl, rfl, hvalue, -⟩ := h
      simp only [ofOperands, encode, Encoding.lowHalf_eq_ofInt, ofInt_eq_ofInt_iff.mpr hvalue]
  | lw | sw =>
      obtain ⟨rt, offset, base, ⟨⟩⟩ := vs
      simp only [Operands.Alike, OperandKind.Alike] at h
      obtain ⟨rfl, hoffset, rfl, -⟩ := h
      simp only [ofOperands, encode, Encoding.lowHalf_eq_ofInt, ofInt_eq_ofInt_iff.mpr hoffset]
  | lui =>
      obtain ⟨rt, value, ⟨⟩⟩ := vs
      simp only [Operands.Alike, OperandKind.Alike] at h
      obtain ⟨rfl, hvalue, -⟩ := h
      simp only [ofOperands, encode, Encoding.lowHalf_eq_ofInt, ofInt_eq_ofInt_iff.mpr hvalue]
  | beq | bne =>
      obtain ⟨rs, rt, label, ⟨⟩⟩ := vs
      simp only [Operands.Alike, OperandKind.Alike] at h
      obtain ⟨rfl, rfl, -⟩ := h
      rfl
  | print =>
      obtain ⟨source, ⟨⟩⟩ := vs
      simp only [Operands.Alike, OperandKind.Alike] at h
      obtain ⟨rfl, -⟩ := h
      rfl
  | prints | exit | halt => rfl

/-- What a word keeps of the operands is what it is filled with. -/
theorem alike_of_fills {m : Mnemonic} {vs ws : Operands m.operandKinds} {w : Word}
    (hv : (ofOperands m vs).Fills w) (hw : (ofOperands m ws).Fills w) :
    Operands.Alike m.operandKinds vs ws := by
  cases m with
  | add | sub | and | or | slt =>
      exact ⟨Register.eq_of_number_eq (hv.rd.symm.trans hw.rd),
        Register.eq_of_number_eq (hv.rs.symm.trans hw.rs),
        Register.eq_of_number_eq (hv.rt.symm.trans hw.rt), trivial⟩
  | sll =>
      exact ⟨Register.eq_of_number_eq (hv.rd.symm.trans hw.rd),
        Register.eq_of_number_eq (hv.rt.symm.trans hw.rt),
        setWidth_toBitVec_eq_iff.mp (hv.shamt.symm.trans hw.shamt), trivial⟩
  | mult =>
      exact ⟨Register.eq_of_number_eq (hv.rs.symm.trans hw.rs),
        Register.eq_of_number_eq (hv.rt.symm.trans hw.rt), trivial⟩
  | addi | slti =>
      exact ⟨Register.eq_of_number_eq (hv.rt.symm.trans hw.rt),
        Register.eq_of_number_eq (hv.rs.symm.trans hw.rs),
        ofInt_eq_ofInt_iff.mp (hv.immediate.symm.trans hw.immediate), trivial⟩
  | lw | sw =>
      exact ⟨Register.eq_of_number_eq (hv.rt.symm.trans hw.rt),
        ofInt_eq_ofInt_iff.mp (hv.immediate.symm.trans hw.immediate),
        Register.eq_of_number_eq (hv.rs.symm.trans hw.rs), trivial⟩
  | lui =>
      exact ⟨Register.eq_of_number_eq (hv.rt.symm.trans hw.rt),
        ofInt_eq_ofInt_iff.mp (hv.immediate.symm.trans hw.immediate), trivial⟩
  | beq | bne =>
      exact ⟨Register.eq_of_number_eq (hv.rs.symm.trans hw.rs),
        Register.eq_of_number_eq (hv.rt.symm.trans hw.rt), trivial, trivial⟩
  | print => exact ⟨Register.eq_of_number_eq (hv.source.symm.trans hw.source), trivial⟩
  | prints => exact ⟨trivial, trivial⟩
  | exit | halt => trivial

theorem alike_of_word_eq {i j : Instruction} (h : i.encode.word = j.encode.word) : i.Alike j := by
  obtain ⟨ws, hj⟩ : ∃ ws : Operands i.mnemonic.operandKinds, j = ofOperands i.mnemonic ws := by
    rw [mnemonic_eq_of_word_eq h]
    exact ⟨j.operands, j.ofOperands_operands.symm⟩
  refine ⟨i.mnemonic, i.operands, ws, i.ofOperands_operands.symm, hj, ?_⟩
  refine alike_of_fills (w := i.encode.word) ?_ ?_
  · rw [ofOperands_operands]
    exact i.fills_encode
  · rw [← hj, h]
    exact j.fills_encode

theorem Alike.encode_eq {i j : Instruction} (h : i.Alike j) : i.encode = j.encode := by
  obtain ⟨m, vs, ws, rfl, rfl, hoperands⟩ := h
  exact encode_eq_of_alike hoperands

/-- Two instructions have the same word exactly if they have one mnemonic and operands of which
a word keeps the same, and then their layouts are the same as well.  The word of an instruction
is the one word with everything in its fields that the format asks for. -/
theorem words_agree_iff (i j : Instruction) :
    (i.encode.word = j.encode.word ↔ i.Alike j) ∧
    (i.encode.word = j.encode.word ↔ i.encode = j.encode) ∧
    ∀ w, w = i.encode.word ↔ i.Fills w := by
  refine ⟨⟨alike_of_word_eq, fun h => congrArg Encoding.word h.encode_eq⟩,
    ⟨?_, congrArg Encoding.word⟩, ?_⟩
  · intro h
    exact (alike_of_word_eq h).encode_eq
  · intro w
    exact fills_iff.symm

end Instruction

end MipsMachine
