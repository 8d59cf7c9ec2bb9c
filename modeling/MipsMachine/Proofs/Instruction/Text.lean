import MipsMachine.Instruction.Encoding
import MipsMachine.Proofs.Immediate
import MipsMachine.Proofs.Instruction.Tokens

set_option autoImplicit false

/-!
# Reading what was written

The canonical text of an instruction is cut into its mnemonic and the tokens of its operands,
and reads back as the same instruction.  It does so for every instruction that has a text at
all: labels must be tokens and immediates must have literals (`Writable`), which holds of
whatever was read.
-/

namespace MipsMachine

open Instruction

/-! ## Operands -/

/-- The values in an operand position that can be written as a token. -/
def OperandKind.Writable : (kind : OperandKind) → kind.Value → Prop
  | .register, _ => True
  | .immediate, value => value ≠ Int64.minValue
  | .amount, _ => True
  | .label, token => IsToken token

/-- Each operand can be written as a token. -/
def Operands.Writable : (kinds : List OperandKind) → Operands kinds → Prop
  | [], _ => True
  | kind :: kinds, (value, values) => kind.Writable value ∧ Operands.Writable kinds values

theorem Instruction.not_isSeparator_of_isDigit {c : Char} (h : c.isDigit = true) :
    isSeparator c = false := by
  have hdigits : ∀ k : Fin 10, isSeparator (Char.ofNat (48 + k)) = false := by decide
  have hrange : 48 ≤ c.toNat ∧ c.toNat ≤ 57 := by
    simpa [Char.isDigit, UInt32.le_iff_toNat_le] using h
  have hc := hdigits ⟨c.toNat - 48, by omega⟩
  have hsum : 48 + (c.toNat - 48) = c.toNat := by omega
  simpa [hsum] using hc

theorem Instruction.isToken_natural (n : Nat) : IsToken (Numeral.natural n) := by
  rw [IsToken, Numeral.toList_natural]
  exact ⟨Numeral.digits_ne_nil 10 n,
    fun c hc => not_isSeparator_of_isDigit (Numeral.isDigit_of_mem_digits hc)⟩

theorem Instruction.isToken_integer (k : Int) : IsToken (Numeral.integer k) := by
  cases k with
  | ofNat n => exact isToken_natural n
  | negSucc n =>
      rw [IsToken, Numeral.toList_integer_negSucc]
      refine ⟨List.cons_ne_nil _ _, ?_⟩
      intro c hc
      rcases List.mem_cons.mp hc with rfl | hc
      · decide
      · exact (isToken_natural (n + 1)).2 c (by rwa [Numeral.toList_natural])

theorem Register.isToken_name (r : Register) : IsToken r.name :=
  forall_of_index (p := fun r => IsToken r.name) (by decide) r

theorem Mnemonic.isToken_lowerName (m : Mnemonic) : IsToken m.lowerName := by
  cases m <;> decide

/-- The name in the position of a label. -/
def OperandKind.name? : (kind : OperandKind) → kind.Value → Option String
  | .label, name => some name
  | .register, _ | .immediate, _ | .amount, _ => none

theorem OperandKind.isToken_of_mem_name? {kind : OperandKind} {value : kind.Value}
    (h : kind.Writable value) : ∀ name ∈ kind.name? value, IsToken name := by
  cases kind with
  | label =>
      intro name hname
      exact Option.some.inj hname ▸ h
  | _ => exact fun name hname => nomatch hname

/-- A name has to be a token; all other operands are written as tokens anyway. -/
theorem OperandKind.isToken_write {kind : OperandKind} {value : kind.Value}
    (h : ∀ name ∈ kind.name? value, IsToken name) : IsToken (kind.write value) := by
  cases kind with
  | register => exact Register.isToken_name value
  | immediate => exact isToken_integer value.toInt
  | amount => exact isToken_natural value.toNat
  | label => exact h value rfl

/-- A shift amount is far below the limit of literals. -/
theorem Immediate.read?_amount (n : UInt32) :
    read? (Numeral.natural n.toNat) = some (Int64.ofNat n.toNat) := by
  have hn : n.toNat ≤ limit := Nat.le_trans (Nat.le_of_lt n.toNat_lt) (by decide)
  rw [read?_natural hn]
  rfl

/-- The token that a value is written as reads back as the value. -/
theorem OperandKind.read_write {kind : OperandKind} {value : kind.Value}
    (h : kind.Writable value) : kind.read (kind.write value) = .ok value := by
  cases kind with
  | register => simp [OperandKind.read, OperandKind.write, Register.ofName]
  | immediate => simp [OperandKind.read, OperandKind.write, Immediate.read?_integer h]
  | amount =>
      have hlt : UInt32.toNat value < 4294967296 := UInt32.toNat_lt value
      have hint : (Int64.ofNat (UInt32.toNat value)).toInt = UInt32.toNat value :=
        Int64.toInt_ofNat_of_lt (Nat.lt_trans hlt (by decide))
      have hrange : (0 : Int) ≤ UInt32.toNat value ∧ (UInt32.toNat value : Int) < 4294967296 := by
        omega
      simp [OperandKind.read, OperandKind.write, Immediate.read?_amount, hint, hrange]
  | label => rfl

/-- What a token is read as can be written. -/
theorem OperandKind.writable_of_read {kind : OperandKind} {t : String} {value : kind.Value}
    (ht : IsToken t) (h : kind.read t = .ok value) : kind.Writable value := by
  cases kind with
  | register => trivial
  | immediate =>
      rw [OperandKind.read] at h
      split at h
      next v hv =>
        obtain rfl := Except.ok.inj h
        exact Immediate.ne_minValue_of_read? hv
      next => cases h
  | amount => trivial
  | label =>
      obtain rfl := Except.ok.inj h
      exact ht

theorem Operands.isToken_of_mem_write {kinds : List OperandKind} {values : Operands kinds}
    (h : Operands.Writable kinds values) : ∀ t ∈ Operands.write kinds values, IsToken t := by
  induction kinds with
  | nil =>
      intro t ht
      cases ht
  | cons kind kinds ih =>
      obtain ⟨value, values⟩ := values
      intro t ht
      rcases List.mem_cons.mp ht with rfl | ht
      · exact OperandKind.isToken_write (OperandKind.isToken_of_mem_name? h.1)
      · exact ih h.2 t ht

theorem Operands.read_write {kinds : List OperandKind} {values : Operands kinds}
    (h : Operands.Writable kinds values)
    (hlength : (Operands.write kinds values).length = kinds.length) :
    Operands.read kinds (Operands.write kinds values) hlength = .ok values := by
  induction kinds with
  | nil => rfl
  | cons kind kinds ih =>
      obtain ⟨value, values⟩ := values
      have hlast := ih h.2 (Nat.succ.inj hlength)
      simp only [Operands.write, Operands.read, OperandKind.read_write h.1, hlast]

theorem Operands.writable_of_read {kinds : List OperandKind} {ts : List String}
    {hlength : ts.length = kinds.length} {values : Operands kinds} (hts : ∀ t ∈ ts, IsToken t)
    (h : Operands.read kinds ts hlength = .ok values) : Operands.Writable kinds values := by
  induction kinds generalizing ts with
  | nil => trivial
  | cons kind kinds ih =>
      cases ts with
      | nil => cases hlength
      | cons t ts =>
          rw [Operands.read] at h
          split at h
          next => cases h
          next value hvalue =>
            split at h
            next => cases h
            next vs hvs =>
              obtain rfl := Except.ok.inj h
              exact ⟨OperandKind.writable_of_read (hts t List.mem_cons_self) hvalue,
                ih (fun u hu => hts u (List.mem_cons_of_mem t hu)) hvs⟩

/-! ## Instructions -/

namespace Instruction

/-- An instruction with a text: its labels are tokens, and its immediates have literals. -/
def Writable (i : Instruction) : Prop := Operands.Writable i.mnemonic.operandKinds i.operands

theorem writable_ofOperands {m : Mnemonic} {values : Operands m.operandKinds}
    (h : Operands.Writable m.operandKinds values) : (ofOperands m values).Writable := by
  cases m <;> exact h

/-- An instruction that was read is put together from a mnemonic and the tokens behind it. -/
theorem exists_operands_of_read {t : String} {i : Instruction} (h : read t = .ok i) :
    ∃ head rest m values, tokens t = head :: rest ∧
      (∃ hlength, Operands.read m.operandKinds rest hlength = .ok values) ∧
      i = ofOperands m values := by
  rw [read] at h
  generalize tokens t = ts at h
  cases ts with
  | nil => cases h
  | cons head rest =>
      rw [ofTokens] at h
      split at h
      next => cases h
      next m _ =>
        split at h
        next hlength =>
          split at h
          next => cases h
          next values hvalues =>
            obtain rfl := Except.ok.inj h
            exact ⟨head, rest, m, values, rfl, ⟨hlength, hvalues⟩, rfl⟩
        next => cases h

/-- Whatever was read can be written. -/
theorem writable_of_read {t : String} {i : Instruction} (h : read t = .ok i) : i.Writable := by
  obtain ⟨head, rest, m, values, htokens, ⟨_, hvalues⟩, rfl⟩ := exists_operands_of_read h
  refine writable_ofOperands (Operands.writable_of_read ?_ hvalues)
  intro u hu
  exact isToken_of_mem_tokens (htokens ▸ List.mem_cons_of_mem head hu)

/-- The text of a mnemonic and tokens behind it. -/
theorem tokens_lowerName_intercalate (m : Mnemonic) {ts : List String}
    (hts : ∀ t ∈ ts, IsToken t) :
    tokens (m.lowerName ++ " " ++ ", ".intercalate ts) = m.lowerName :: ts := by
  have hspace : IsGap " " := by decide
  have hcomma : IsGap ", " := by decide
  rw [hspace.tokens_append, m.isToken_lowerName.tokens_eq, hcomma.tokens_intercalate hts,
    List.singleton_append]

theorem tokens_memoryText (m : Mnemonic) (rt : Register) (offset : Int64) (base : Register) :
    tokens (text.memoryText m rt offset base) =
      [m.lowerName, rt.name, Numeral.integer offset.toInt, base.name] := by
  have hspace : IsGap " " := by decide
  have hcomma : IsGap ", " := by decide
  have hopen : IsGap "(" := by decide
  have hclose : IsGap ")" := by decide
  have hlast := hclose.tokens_append
    (m.lowerName ++ " " ++ rt.name ++ ", " ++ Numeral.integer offset.toInt ++ "(" ++ base.name) ""
  rw [String.append_empty] at hlast
  rw [text.memoryText, hlast, hopen.tokens_append, hcomma.tokens_append, hspace.tokens_append,
    m.isToken_lowerName.tokens_eq, rt.isToken_name.tokens_eq, base.isToken_name.tokens_eq,
    (isToken_integer offset.toInt).tokens_eq, tokens_empty]
  rfl

/-- The text of an instruction is cut into its mnemonic and the tokens of its operands. -/
theorem tokens_text {i : Instruction}
    (hts : ∀ t ∈ Operands.write i.mnemonic.operandKinds i.operands, IsToken t) :
    tokens i.text =
      i.mnemonic.lowerName :: Operands.write i.mnemonic.operandKinds i.operands := by
  cases i with
  | load rt offset base => exact tokens_memoryText .lw rt offset base
  | store rt offset base => exact tokens_memoryText .sw rt offset base
  | halt => exact (Mnemonic.isToken_lowerName .halt).tokens_eq
  | alu op => cases op <;> exact tokens_lowerName_intercalate _ hts
  | aluImmediate op => cases op <;> exact tokens_lowerName_intercalate _ hts
  | branch test => cases test <;> exact tokens_lowerName_intercalate _ hts
  | _ => exact tokens_lowerName_intercalate _ hts

/-- The mnemonic that an instruction is written under is read as that mnemonic. -/
theorem ofName_lowerName (m : Mnemonic) : Mnemonic.ofName m.lowerName = .ok m := by
  have hname : Mnemonic.ofName? m.lowerName = some m :=
    Mnemonic.ofName?_eq_some_iff.mpr (Mnemonic.upperCase_lowerName m).symm
  rw [Mnemonic.ofName, hname]

/-- The text of an instruction reads back as the instruction. -/
theorem read_text {i : Instruction} (h : i.Writable) : read i.text = .ok i := by
  have hlength := Operands.length_write i.mnemonic.operandKinds i.operands
  rw [read, tokens_text (Operands.isToken_of_mem_write h), ofTokens]
  simp only [ofName_lowerName, hlength, dite_true, Operands.read_write h, ofOperands_operands]

/-- What can be read is what can be written. -/
theorem exists_read_iff {i : Instruction} : (∃ t, read t = .ok i) ↔ i.Writable := by
  constructor
  · rintro ⟨t, ht⟩
    exact writable_of_read ht
  · intro h
    exact ⟨i.text, read_text h⟩

/-- The bits of the word of an instruction text, if the text can be read. -/
def bits? (t : String) : Option String := (read t).toOption.map fun i => i.encode.word.text

/-- Writing out an instruction that was read, and reading the text again, gives the instruction
back: the text has the same word, it is its own canonical text, and it tells the instruction
apart from every other that can be read.  What can be read are the instructions in which each
label is a token and no immediate is the least 64-bit number, whatever their registers and
shift amounts. -/
theorem read_text_of_read :
    (∀ i : Instruction, (∃ t, read t = .ok i) ↔ i.Writable) ∧
    ∀ (t : String) (i : Instruction), read t = .ok i →
      read i.text = .ok i ∧ bits? i.text = bits? t ∧
      (∀ j, read i.text = .ok j → j.text = i.text) ∧
      ∀ u j, read u = .ok j → (i.text = j.text ↔ i = j) := by
  refine ⟨fun i => exists_read_iff, ?_⟩
  intro t i ht
  have hback : read i.text = .ok i := read_text (writable_of_read ht)
  refine ⟨hback, ?_, ?_, ?_⟩
  · rw [bits?, bits?, hback, ht]
  · intro j hj
    rw [hback] at hj
    rw [Except.ok.inj hj]
  · intro u j hu
    constructor
    · intro htext
      have hbackj : read j.text = .ok j := read_text (writable_of_read hu)
      rw [← htext, hback] at hbackj
      exact Except.ok.inj hbackj
    · intro hij
      rw [hij]

/-- A negative hexadecimal offset and a label of odd characters, with their canonical texts. -/
theorem read_text_of_read_odd_operands :
    read "Lw $t1 -0X1f,($sp)" = .ok (.load ⟨9⟩ (-31) .sp) ∧
    read "lw $t1, -31($sp)" = .ok (.load ⟨9⟩ (-31) .sp) ∧
    read "bNe\t$t0($t1),é#x:" = .ok (.branch .different ⟨8⟩ ⟨9⟩ "é#x:") ∧
    read "bne $t0, $t1, é#x:" = .ok (.branch .different ⟨8⟩ ⟨9⟩ "é#x:") := by
  have hload : read "Lw $t1 -0X1f,($sp)" = .ok (.load ⟨9⟩ (-31) .sp) := by rfl
  have hbranch : read "bNe\t$t0($t1),é#x:" = .ok (.branch .different ⟨8⟩ ⟨9⟩ "é#x:") := by rfl
  have hloadText : (Instruction.load ⟨9⟩ (-31) .sp).text = "lw $t1, -31($sp)" := by
    decide +kernel
  have hbranchText :
      (Instruction.branch .different ⟨8⟩ ⟨9⟩ "é#x:").text = "bne $t0, $t1, é#x:" := by
    decide +kernel
  obtain ⟨hloadBack, -⟩ := read_text_of_read.2 _ _ hload
  obtain ⟨hbranchBack, -⟩ := read_text_of_read.2 _ _ hbranch
  rw [hloadText] at hloadBack
  rw [hbranchText] at hbranchBack
  exact ⟨hload, hloadBack, hbranch, hbranchBack⟩

end Instruction

end MipsMachine
