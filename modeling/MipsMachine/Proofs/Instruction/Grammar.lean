import MipsMachine.Proofs.Instruction.Tokens
import MipsMachine.Proofs.Register

set_option autoImplicit false

/-!
# The grammar of instructions

`Spelled` is the grammar: for each format the tokens behind the mnemonic and the instruction
that they make, each operand in the place that its format names.  `Refused` says what is wrong
with tokens of no instruction: no token at all, then the mnemonic, then the number of operands,
then the first operand that does not fit its position.  Reading decides between the two
(`read_follows_grammar`).  It never looks for an operand behind the last token, and it takes no
notice of the letter case of the mnemonic.
-/

namespace MipsMachine

open Instruction

/-! ## One operand -/

/-- The token stands for the value in a position of the kind. -/
def OperandKind.Denotes : (kind : OperandKind) → String → kind.Value → Prop
  | .register, t, r => r.name = t
  | .immediate, t, value => Immediate.read? t = some value
  | .amount, t, n => ∃ value, Immediate.read? t = some value ∧ value.toInt = n.toNat
  | .label, t, name => t = name

/-- The token stands for nothing in a position of the kind, and this is the fault.  Any token
is a label. -/
def OperandKind.Refuses : OperandKind → String → Fault → Prop
  | .register, t, fault => (∀ r : Register, r.name ≠ t) ∧ fault = .unknownRegister t
  | .immediate, t, fault => Immediate.read? t = none ∧ fault = .badImmediate t
  | .amount, t, fault =>
    (∀ value, Immediate.read? t = some value → value.toInt < 0 ∨ UInt32.size ≤ value.toInt) ∧
      fault = .badImmediate t
  | .label, _, _ => False

namespace OperandKind

/-- An integer has 32 bits without a sign if some amount has its value, and then it is read as
that amount. -/
theorem ofNat_toNat_eq_iff {k : Int} {n : UInt32} :
    (0 ≤ k ∧ k < 4294967296) ∧ UInt32.ofNat k.toNat = n ↔ k = n.toNat := by
  constructor
  · rintro ⟨⟨hnonneg, hlt⟩, rfl⟩
    rw [UInt32.toNat_ofNat_of_lt' (show k.toNat < UInt32.size by simp only [UInt32.size]; omega)]
    omega
  · rintro rfl
    have hlt : n.toNat < 4294967296 := n.toNat_lt
    refine ⟨⟨by omega, by omega⟩, ?_⟩
    rw [Int.toNat_natCast, UInt32.ofNat_toNat]

theorem read_eq_ok_iff {kind : OperandKind} {t : String} {value : kind.Value} :
    kind.read t = .ok value ↔ kind.Denotes t value := by
  cases kind with
  | register => exact Register.ofName_eq_ok_iff
  | immediate =>
      rw [OperandKind.read, Denotes]
      cases Immediate.read? t <;> simp
  | amount =>
      rw [OperandKind.read, Denotes]
      cases Immediate.read? t with
      | none => simp
      | some v =>
          simp only [Option.some.injEq, exists_eq_left', ← ofNat_toNat_eq_iff]
          split
          next h => simp [h]
          next h => simp [h]
  | label => exact Except.ok.injEq t value ▸ Iff.rfl

theorem read_eq_error_iff {kind : OperandKind} {t : String} {fault : Fault} :
    kind.read t = .error fault ↔ kind.Refuses t fault := by
  cases kind with
  | register => exact Register.ofName_eq_error_iff
  | immediate =>
      rw [OperandKind.read, Refuses]
      cases Immediate.read? t <;> simp [eq_comm]
  | amount =>
      rw [OperandKind.read, Refuses]
      cases Immediate.read? t with
      | none => simp [eq_comm]
      | some v =>
          have hbeyond : ¬(0 ≤ v.toInt ∧ v.toInt < 4294967296) ↔
              v.toInt < 0 ∨ UInt32.size ≤ v.toInt := by
            simp only [UInt32.size]
            omega
          simp only [Option.some.injEq, forall_eq', ← hbeyond]
          split
          next h => simp [h]
          next h => simp [h, eq_comm]
  | label => exact iff_of_false (fun h => nomatch h) id

end OperandKind

/-! ## Operands in their positions -/

namespace Operands

/-- The tokens are as many as the positions, and each stands for the value in its position. -/
inductive Denoted : (kinds : List OperandKind) → List String → Operands kinds → Prop
  | nil : Denoted [] [] ()
  | cons {kind : OperandKind} {kinds : List OperandKind} {t : String} {ts : List String}
      {value : kind.Value} {values : Operands kinds} (h : kind.Denotes t value)
      (hrest : Denoted kinds ts values) :
      Denoted (kind :: kinds) (t :: ts) (value, values)

/-- The first token that stands for nothing in its position has this fault. -/
def FirstRefused (kinds : List OperandKind) (ts : List String) (fault : Fault) : Prop :=
  ∃ (n : Nat) (kind : OperandKind) (t : String), kinds[n]? = some kind ∧ ts[n]? = some t ∧
    kind.Refuses t fault ∧
    ∀ k < n, ∀ (kind' : OperandKind) (t' : String), kinds[k]? = some kind' → ts[k]? = some t' →
      ∃ value, kind'.Denotes t' value

theorem not_firstRefused_nil {ts : List String} {fault : Fault} : ¬FirstRefused [] ts fault := by
  rintro ⟨n, kind, t, hkind, -⟩
  cases hkind

/-- The first position is looked at before the others. -/
theorem firstRefused_cons_iff {kind : OperandKind} {kinds : List OperandKind} {t : String}
    {ts : List String} {fault : Fault} :
    FirstRefused (kind :: kinds) (t :: ts) fault ↔
      kind.Refuses t fault ∨ (∃ value, kind.Denotes t value) ∧ FirstRefused kinds ts fault := by
  constructor
  · rintro ⟨n, kind', t', hkind, ht, hrefuses, hbefore⟩
    cases n with
    | zero =>
        obtain rfl := Option.some.inj hkind
        obtain rfl := Option.some.inj ht
        exact .inl hrefuses
    | succ n =>
        refine .inr ⟨hbefore 0 n.zero_lt_succ kind t rfl rfl, n, kind', t', hkind, ht,
          hrefuses, ?_⟩
        exact fun k hk => hbefore (k + 1) (Nat.succ_lt_succ hk)
  · rintro (hrefuses | ⟨hdenotes, n, kind', t', hkind, ht, hrefuses, hbefore⟩)
    · exact ⟨0, kind, t, rfl, rfl, hrefuses, fun k hk => absurd hk k.not_lt_zero⟩
    · refine ⟨n + 1, kind', t', hkind, ht, hrefuses, ?_⟩
      intro k hk kind'' t'' hkind'' ht''
      cases k with
      | zero =>
          obtain rfl := Option.some.inj hkind''
          obtain rfl := Option.some.inj ht''
          exact hdenotes
      | succ k => exact hbefore k (Nat.lt_of_succ_lt_succ hk) kind'' t'' hkind'' ht''

theorem Denoted.length_eq {kinds : List OperandKind} {ts : List String} {values : Operands kinds}
    (h : Denoted kinds ts values) : ts.length = kinds.length := by
  induction h with
  | nil => rfl
  | cons _ _ ih => rw [List.length_cons, List.length_cons, ih]

theorem denoted_cons_iff {kind : OperandKind} {kinds : List OperandKind} {t : String}
    {ts : List String} {value : kind.Value} {values : Operands kinds} :
    Denoted (kind :: kinds) (t :: ts) (value, values) ↔
      kind.Denotes t value ∧ Denoted kinds ts values := by
  constructor
  · intro h
    cases h with
    | cons h hrest => exact ⟨h, hrest⟩
  · rintro ⟨h, hrest⟩
    exact .cons h hrest

theorem read_eq_ok_iff {kinds : List OperandKind} {ts : List String}
    (hlength : ts.length = kinds.length) {values : Operands kinds} :
    Operands.read kinds ts hlength = .ok values ↔ Denoted kinds ts values := by
  induction kinds generalizing ts with
  | nil =>
      obtain rfl := List.eq_nil_of_length_eq_zero hlength
      exact ⟨fun _ => .nil, fun _ => rfl⟩
  | cons kind kinds ih =>
      cases ts with
      | nil => cases hlength
      | cons t ts =>
          obtain ⟨value, values⟩ := values
          rw [denoted_cons_iff, ← OperandKind.read_eq_ok_iff, ← ih (Nat.succ.inj hlength),
            Operands.read]
          cases kind.read t with
          | error fault => simp
          | ok v => cases Operands.read kinds ts (Nat.succ.inj hlength) <;> simp

theorem read_eq_error_iff {kinds : List OperandKind} {ts : List String}
    (hlength : ts.length = kinds.length) {fault : Fault} :
    Operands.read kinds ts hlength = .error fault ↔ FirstRefused kinds ts fault := by
  induction kinds generalizing ts with
  | nil =>
      obtain rfl := List.eq_nil_of_length_eq_zero hlength
      simp [Operands.read, not_firstRefused_nil]
  | cons kind kinds ih =>
      cases ts with
      | nil => cases hlength
      | cons t ts =>
          simp only [firstRefused_cons_iff, ← OperandKind.read_eq_ok_iff,
            ← OperandKind.read_eq_error_iff, ← ih (Nat.succ.inj hlength), Operands.read]
          cases kind.read t with
          | error fault' => simp
          | ok v => cases Operands.read kinds ts (Nat.succ.inj hlength) <;> simp

/-- Read the operands from position `n` on by their places in the list of tokens; nothing if a
place is behind the last token. -/
def readAt? (ts : List String) : (kinds : List OperandKind) → Nat →
    Option (Except Fault (Operands kinds))
  | [], _ => some (.ok ())
  | kind :: kinds, n =>
    match ts[n]? with
    | none => none
    | some t =>
      match kind.read t with
      | .error fault => some (.error fault)
      | .ok value =>
        match readAt? ts kinds (n + 1) with
        | none => none
        | some (.error fault) => some (.error fault)
        | some (.ok values) => some (.ok (value, values))

/-- As many tokens as positions are enough. -/
theorem readAt?_eq_some_read {kinds : List OperandKind} (before : List String) {ts : List String}
    (hlength : ts.length = kinds.length) :
    readAt? (before ++ ts) kinds before.length = some (Operands.read kinds ts hlength) := by
  induction kinds generalizing before ts with
  | nil =>
      obtain rfl := List.eq_nil_of_length_eq_zero hlength
      rfl
  | cons kind kinds ih =>
      cases ts with
      | nil => cases hlength
      | cons t ts =>
          have hhere : (before ++ t :: ts)[before.length]? = some t := by simp
          have hrest : readAt? (before ++ t :: ts) kinds (before.length + 1) =
              some (Operands.read kinds ts (Nat.succ.inj hlength)) := by
            simpa using ih (before ++ [t]) (Nat.succ.inj hlength)
          simp only [readAt?, Operands.read, hhere, hrest]
          cases kind.read t with
          | error fault => rfl
          | ok value => cases Operands.read kinds ts (Nat.succ.inj hlength) <;> rfl

end Operands

/-! ## The formats -/

namespace Instruction

/-- The tokens behind a mnemonic that make an instruction.  A memory operand is an offset and a
base register, in this order; both spellings of the end of the program stand alone. -/
inductive Spelled : Mnemonic → List String → Instruction → Prop
  | alu (op : AluOp) (rd rs rt : Register) :
      Spelled op.mnemonic [rd.name, rs.name, rt.name] (.alu op rd rs rt)
  | shiftLeft (rd rt : Register) {t : String} {amount : UInt32}
      (h : OperandKind.amount.Denotes t amount) :
      Spelled .sll [rd.name, rt.name, t] (.shiftLeft rd rt amount)
  | multiply (rs rt : Register) : Spelled .mult [rs.name, rt.name] (.multiply rs rt)
  | aluImmediate (op : ImmediateOp) (rt rs : Register) {t : String} {value : Int64}
      (h : OperandKind.immediate.Denotes t value) :
      Spelled op.mnemonic [rt.name, rs.name, t] (.aluImmediate op rt rs value)
  | load (rt base : Register) {t : String} {offset : Int64}
      (h : OperandKind.immediate.Denotes t offset) :
      Spelled .lw [rt.name, t, base.name] (.load rt offset base)
  | store (rt base : Register) {t : String} {offset : Int64}
      (h : OperandKind.immediate.Denotes t offset) :
      Spelled .sw [rt.name, t, base.name] (.store rt offset base)
  | loadUpper (rt : Register) {t : String} {value : Int64}
      (h : OperandKind.immediate.Denotes t value) :
      Spelled .lui [rt.name, t] (.loadUpper rt value)
  | branch (test : BranchTest) (rs rt : Register) (label : String) :
      Spelled test.mnemonic [rs.name, rt.name, label] (.branch test rs rt label)
  | print (source : Register) : Spelled .print [source.name] (.print source)
  | printString (constant : String) : Spelled .prints [constant] (.printString constant)
  | exit : Spelled .exit [] .halt
  | halt : Spelled .halt [] .halt

/-- The grammar has the instructions that are put together of operands in their positions. -/
theorem spelled_iff {m : Mnemonic} {ts : List String} {i : Instruction} :
    Spelled m ts i ↔
      ∃ values, Operands.Denoted m.operandKinds ts values ∧ ofOperands m values = i := by
  constructor
  · intro h
    cases h with
    | alu op rd rs rt =>
        cases op <;> exact ⟨(rd, rs, rt, ()), .cons rfl (.cons rfl (.cons rfl .nil)), rfl⟩
    | shiftLeft rd rt h => exact ⟨(rd, rt, _, ()), .cons rfl (.cons rfl (.cons h .nil)), rfl⟩
    | multiply rs rt => exact ⟨(rs, rt, ()), .cons rfl (.cons rfl .nil), rfl⟩
    | aluImmediate op rt rs h =>
        cases op <;> exact ⟨(rt, rs, _, ()), .cons rfl (.cons rfl (.cons h .nil)), rfl⟩
    | load rt base h | store rt base h =>
        exact ⟨(rt, _, base, ()), .cons rfl (.cons h (.cons rfl .nil)), rfl⟩
    | loadUpper rt h => exact ⟨(rt, _, ()), .cons rfl (.cons h .nil), rfl⟩
    | branch test rs rt name =>
        cases test <;> exact ⟨(rs, rt, name, ()), .cons rfl (.cons rfl (.cons rfl .nil)), rfl⟩
    | print source => exact ⟨(source, ()), .cons rfl .nil, rfl⟩
    | printString constant => exact ⟨(constant, ()), .cons rfl .nil, rfl⟩
    | exit | halt => exact ⟨(), .nil, rfl⟩
  · rintro ⟨values, h, rfl⟩
    cases m with
    | add =>
        obtain _ | ⟨rfl, _ | ⟨rfl, _ | ⟨rfl, ⟨⟩⟩⟩⟩ := h
        exact .alu .add _ _ _
    | sub =>
        obtain _ | ⟨rfl, _ | ⟨rfl, _ | ⟨rfl, ⟨⟩⟩⟩⟩ := h
        exact .alu .sub _ _ _
    | and =>
        obtain _ | ⟨rfl, _ | ⟨rfl, _ | ⟨rfl, ⟨⟩⟩⟩⟩ := h
        exact .alu .and _ _ _
    | or =>
        obtain _ | ⟨rfl, _ | ⟨rfl, _ | ⟨rfl, ⟨⟩⟩⟩⟩ := h
        exact .alu .or _ _ _
    | slt =>
        obtain _ | ⟨rfl, _ | ⟨rfl, _ | ⟨rfl, ⟨⟩⟩⟩⟩ := h
        exact .alu .slt _ _ _
    | sll =>
        obtain _ | ⟨rfl, _ | ⟨rfl, _ | ⟨h, ⟨⟩⟩⟩⟩ := h
        exact .shiftLeft _ _ h
    | mult =>
        obtain _ | ⟨rfl, _ | ⟨rfl, ⟨⟩⟩⟩ := h
        exact .multiply _ _
    | addi =>
        obtain _ | ⟨rfl, _ | ⟨rfl, _ | ⟨h, ⟨⟩⟩⟩⟩ := h
        exact .aluImmediate .addi _ _ h
    | slti =>
        obtain _ | ⟨rfl, _ | ⟨rfl, _ | ⟨h, ⟨⟩⟩⟩⟩ := h
        exact .aluImmediate .slti _ _ h
    | lw =>
        obtain _ | ⟨rfl, _ | ⟨h, _ | ⟨rfl, ⟨⟩⟩⟩⟩ := h
        exact .load _ _ h
    | sw =>
        obtain _ | ⟨rfl, _ | ⟨h, _ | ⟨rfl, ⟨⟩⟩⟩⟩ := h
        exact .store _ _ h
    | lui =>
        obtain _ | ⟨rfl, _ | ⟨h, ⟨⟩⟩⟩ := h
        exact .loadUpper _ h
    | beq =>
        obtain _ | ⟨rfl, _ | ⟨rfl, _ | ⟨rfl, ⟨⟩⟩⟩⟩ := h
        exact .branch .equal _ _ _
    | bne =>
        obtain _ | ⟨rfl, _ | ⟨rfl, _ | ⟨rfl, ⟨⟩⟩⟩⟩ := h
        exact .branch .different _ _ _
    | print =>
        obtain _ | ⟨rfl, ⟨⟩⟩ := h
        exact .print _
    | prints =>
        obtain _ | ⟨rfl, ⟨⟩⟩ := h
        exact .printString _
    | exit =>
        obtain ⟨⟩ := h
        exact .exit
    | halt =>
        obtain ⟨⟩ := h
        exact .halt

/-- The tokens of an instruction: its mnemonic in any letter case, and behind it the operands
of its format. -/
inductive Accepted : List String → Instruction → Prop
  | mk {head : String} {rest : List String} {m : Mnemonic} {i : Instruction}
      (h : m.name = Mnemonic.upperCase head) (hspelled : Spelled m rest i) :
      Accepted (head :: rest) i

/-- What is wrong with tokens of no instruction, what comes first in this list before the rest. -/
inductive Refused : List String → Fault → Prop
  | empty : Refused [] (.unknownMnemonic "")
  | unknown {head : String} {rest : List String}
      (h : ∀ m : Mnemonic, m.name ≠ Mnemonic.upperCase head) :
      Refused (head :: rest) (.unknownMnemonic (Mnemonic.upperCase head))
  | count {head : String} {rest : List String} {m : Mnemonic}
      (h : m.name = Mnemonic.upperCase head) (hcount : rest.length ≠ m.operandCount) :
      Refused (head :: rest) (.operandCount m rest.length)
  | operand {head : String} {rest : List String} {m : Mnemonic} {fault : Fault}
      (h : m.name = Mnemonic.upperCase head) (hcount : rest.length = m.operandCount)
      (hfault : Operands.FirstRefused m.operandKinds rest fault) :
      Refused (head :: rest) fault

/-! ## Reading is the decision -/

theorem ofName_eq_ok_iff {t : String} {m : Mnemonic} :
    Mnemonic.ofName t = .ok m ↔ m.name = Mnemonic.upperCase t := by
  rw [Mnemonic.ofName, ← Mnemonic.ofName?_eq_some_iff]
  cases Mnemonic.ofName? t <;> simp

theorem ofName_eq_error_iff {t : String} {fault : Fault} :
    Mnemonic.ofName t = .error fault ↔
      (∀ m : Mnemonic, m.name ≠ Mnemonic.upperCase t) ∧
        fault = .unknownMnemonic (Mnemonic.upperCase t) := by
  have hnone : Mnemonic.ofName? t = none ↔ ∀ m : Mnemonic, m.name ≠ Mnemonic.upperCase t := by
    simp only [Option.eq_none_iff_forall_ne_some, ne_eq, Mnemonic.ofName?_eq_some_iff]
  rw [Mnemonic.ofName, ← hnone]
  cases Mnemonic.ofName? t <;> simp [eq_comm]

/-- With the right number of operands behind the mnemonic, the operands decide. -/
theorem ofTokens_of_length_eq {head : String} {rest : List String} {m : Mnemonic}
    (h : Mnemonic.ofName head = .ok m) (hlength : rest.length = m.operandKinds.length) :
    ofTokens (head :: rest) = (Operands.read m.operandKinds rest hlength).map (ofOperands m) := by
  simp only [ofTokens, h, dif_pos hlength]
  cases Operands.read m.operandKinds rest hlength <;> rfl

theorem ofTokens_of_length_ne {head : String} {rest : List String} {m : Mnemonic}
    (h : Mnemonic.ofName head = .ok m) (hlength : rest.length ≠ m.operandKinds.length) :
    ofTokens (head :: rest) = .error (.operandCount m rest.length) := by
  simp only [ofTokens, h, dif_neg hlength]

/-- Tokens are read as an instruction of the grammar, or else there is something wrong with
them. -/
theorem ofTokens_cases (ts : List String) :
    (∃ i, ofTokens ts = .ok i ∧ Accepted ts i) ∨
      ∃ fault, ofTokens ts = .error fault ∧ Refused ts fault := by
  cases ts with
  | nil => exact .inr ⟨_, rfl, .empty⟩
  | cons head rest =>
      cases hm : Mnemonic.ofName head with
      | error fault =>
          obtain ⟨hnone, rfl⟩ := ofName_eq_error_iff.mp hm
          refine .inr ⟨_, ?_, .unknown hnone⟩
          rw [ofTokens, hm]
      | ok m =>
          have hname := ofName_eq_ok_iff.mp hm
          by_cases hlength : rest.length = m.operandKinds.length
          · rw [ofTokens_of_length_eq hm hlength]
            cases hread : Operands.read m.operandKinds rest hlength with
            | error fault =>
                exact .inr ⟨fault, rfl,
                  .operand hname hlength ((Operands.read_eq_error_iff hlength).mp hread)⟩
            | ok values =>
                refine .inl ⟨ofOperands m values, rfl, hname, ?_⟩
                exact spelled_iff.mpr ⟨values, (Operands.read_eq_ok_iff hlength).mp hread, rfl⟩
          · exact .inr ⟨_, ofTokens_of_length_ne hm hlength, .count hname hlength⟩

theorem Accepted.ofTokens_eq {ts : List String} {i : Instruction} (h : Accepted ts i) :
    ofTokens ts = .ok i := by
  cases h with
  | @mk head rest m _ hname hspelled =>
      obtain ⟨values, hdenoted, rfl⟩ := spelled_iff.mp hspelled
      have hread : Operands.read m.operandKinds rest hdenoted.length_eq = .ok values :=
        (Operands.read_eq_ok_iff _).mpr hdenoted
      rw [ofTokens_of_length_eq (ofName_eq_ok_iff.mpr hname) hdenoted.length_eq, hread]
      rfl

theorem Refused.ofTokens_eq {ts : List String} {fault : Fault} (h : Refused ts fault) :
    ofTokens ts = .error fault := by
  cases h with
  | empty => rfl
  | unknown hnone => rw [ofTokens, ofName_eq_error_iff.mpr ⟨hnone, rfl⟩]
  | count hname hcount => exact ofTokens_of_length_ne (ofName_eq_ok_iff.mpr hname) hcount
  | @operand head rest m _ hname hcount hfault =>
      have hread : Operands.read m.operandKinds rest hcount = .error fault :=
        (Operands.read_eq_error_iff _).mpr hfault
      rw [ofTokens_of_length_eq (ofName_eq_ok_iff.mpr hname) hcount, hread]
      rfl

theorem ofTokens_eq_ok_iff {ts : List String} {i : Instruction} :
    ofTokens ts = .ok i ↔ Accepted ts i := by
  refine ⟨fun h => ?_, Accepted.ofTokens_eq⟩
  obtain ⟨j, hj, haccepted⟩ | ⟨fault, hfault, -⟩ := ofTokens_cases ts
  · obtain rfl := Except.ok.inj (h.symm.trans hj)
    exact haccepted
  · cases h.symm.trans hfault

theorem ofTokens_eq_error_iff {ts : List String} {fault : Fault} :
    ofTokens ts = .error fault ↔ Refused ts fault := by
  refine ⟨fun h => ?_, Refused.ofTokens_eq⟩
  obtain ⟨i, hi, -⟩ | ⟨fault', hfault, hrefused⟩ := ofTokens_cases ts
  · cases h.symm.trans hi
  · obtain rfl := Except.error.inj (h.symm.trans hfault)
    exact hrefused

/-! ## No place behind the last token -/

/-- Read an instruction from its tokens, each operand by its place in the list; nothing if a
place is behind the last token. -/
def ofTokensAt? : List String → Option (Except Fault Instruction)
  | [] => some (.error (.unknownMnemonic ""))
  | head :: rest =>
    match Mnemonic.ofName head with
    | .error fault => some (.error fault)
    | .ok m =>
      if rest.length = m.operandKinds.length then
        (Operands.readAt? rest m.operandKinds 0).map (Except.map (ofOperands m))
      else some (.error (.operandCount m rest.length))

/-- The number of operands is checked before any of them is looked for. -/
theorem ofTokensAt?_eq (ts : List String) : ofTokensAt? ts = some (ofTokens ts) := by
  cases ts with
  | nil => rfl
  | cons head rest =>
      cases hm : Mnemonic.ofName head with
      | error fault => rw [ofTokens, ofTokensAt?, hm]
      | ok m =>
          simp only [ofTokensAt?, hm]
          by_cases hlength : rest.length = m.operandKinds.length
          · have hplaces : Operands.readAt? rest m.operandKinds 0 =
                some (Operands.read m.operandKinds rest hlength) :=
              Operands.readAt?_eq_some_read [] hlength
            rw [ofTokens_of_length_eq hm hlength, if_pos hlength, hplaces, Option.map_some]
          · rw [ofTokens_of_length_ne hm hlength, if_neg hlength]

/-! ## Letter case -/

/-- The texts differ at most in the letter case of their first token. -/
inductive Recased : String → String → Prop
  | mk {before head head' behind : String} (hbefore : ∀ c ∈ before.toList, isSeparator c = true)
      (hhead : IsToken head) (hbehind : ∀ c ∈ behind.toList.head?, isSeparator c = true)
      (hcase : Mnemonic.upperCase head' = Mnemonic.upperCase head) :
      Recased (before ++ head ++ behind) (before ++ head' ++ behind)

/-- Separators have no letter case, and no letter is a separator in either case. -/
theorem isSeparator_toUpper (c : Char) : isSeparator c.toUpper = isSeparator c := by
  have hletters : ∀ k : Fin 26, isSeparator (Char.ofNat (97 + k)).toUpper =
      isSeparator (Char.ofNat (97 + k)) := by
    decide
  by_cases h : 97 ≤ c.toNat ∧ c.toNat ≤ 122
  · have hc := hletters ⟨c.toNat - 97, by omega⟩
    have hsum : 97 + (c.toNat - 97) = c.toNat := by omega
    simpa [hsum] using hc
  · have hletter : ¬('a'.val ≤ c.val ∧ c.val ≤ 'z'.val) := by
      simpa [UInt32.le_iff_toNat_le] using h
    have hsame : c.toUpper = c := dif_neg hletter
    rw [hsame]

theorem IsToken.of_upperCase_eq {t t' : String} (h : IsToken t)
    (hcase : Mnemonic.upperCase t' = Mnemonic.upperCase t) :
    IsToken t' := by
  have hmap : t'.toList.map Char.toUpper = t.toList.map Char.toUpper := by
    simpa [Mnemonic.upperCase] using congrArg String.toList hcase
  constructor
  · intro hnil
    rw [hnil, List.map_nil, eq_comm, List.map_eq_nil_iff] at hmap
    exact h.1 hmap
  · intro c hc
    obtain ⟨d, hd, hdc⟩ : ∃ d ∈ t.toList, d.toUpper = c.toUpper := by
      rw [← List.mem_map, ← hmap]
      exact List.mem_map_of_mem hc
    rw [← isSeparator_toUpper c, ← hdc, isSeparator_toUpper]
    exact h.2 d hd

/-- The first token of a text, with separators before it and the other tokens behind it. -/
theorem tokens_append_head {before head behind : String}
    (hbefore : ∀ c ∈ before.toList, isSeparator c = true) (hhead : IsToken head)
    (hbehind : ∀ c ∈ behind.toList.head?, isSeparator c = true) :
    tokens (before ++ head ++ behind) = head :: tokens behind := by
  have hspaced :=
    Text.Spaced.word before.toList head.toList hbefore hhead.1 hhead.2 hbehind
      (Text.runs_eq_iff.mp rfl)
  rw [tokens, String.toList_append, String.toList_append, hspaced.runs_eq, List.map_cons,
    String.ofList_toList]
  rfl

theorem ofTokens_congr_head {head head' : String}
    (hcase : Mnemonic.upperCase head' = Mnemonic.upperCase head) (rest : List String) :
    ofTokens (head' :: rest) = ofTokens (head :: rest) := by
  have hname : Mnemonic.ofName head' = Mnemonic.ofName head := by
    simp only [Mnemonic.ofName, Mnemonic.ofName?, hcase]
  simp only [ofTokens, hname]

theorem Recased.read_eq {text text' : String} (h : Recased text text') :
    read text' = read text := by
  cases h with
  | mk hbefore hhead hbehind hcase =>
      have hhead' := hhead.of_upperCase_eq hcase
      rw [read, read, tokens_append_head hbefore hhead hbehind,
        tokens_append_head hbefore hhead' hbehind, ofTokens_congr_head hcase]

/-! ## Every text -/

/-- Reading accepts the instructions of the grammar and gives them with their operands in
place; of any other text it says what is wrong first.  No operand is looked for behind the last
token, and the letter case of the first token does not matter to the result. -/
theorem read_follows_grammar (text : String) :
    (∀ i, read text = .ok i ↔ Accepted (tokens text) i) ∧
    (∀ fault, read text = .error fault ↔ Refused (tokens text) fault) ∧
    (∀ text', Recased text text' → read text' = read text) ∧
    ofTokensAt? (tokens text) = some (read text) := by
  refine ⟨fun i => ofTokens_eq_ok_iff, fun fault => ofTokens_eq_error_iff, ?_,
    ofTokensAt?_eq (tokens text)⟩
  intro text' h
  exact h.read_eq

/-- Both operands are bad here, but the number of them is looked at first. -/
example :
    read "sll $s9, x" = .error (.operandCount .sll 2) ∧
    read "sll $s9, x, 1" = .error (.unknownRegister "$s9") :=
  ⟨rfl, rfl⟩

end Instruction

end MipsMachine
