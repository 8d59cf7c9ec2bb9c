import MipsMachine.Proofs.Ideal.Refinement
import MipsMachine.Proofs.Simulation.Stores

set_option autoImplicit false

/-!
# What each instruction does

`Performs` is the table of the instructions.  It speaks of integers: of those that the
registers hold before the instruction, of the exact result that the operation has for them, and
of what is left of this result when it is reduced to 64 bits.  It never says how a value is
computed.  Execution is what the table says, for every machine, every program and every
instruction (`answer_eq_iff_performs`).
-/

namespace MipsMachine

open Arithmetic

/-! ## Operations -/

theorem AluOp.reduced_apply (op : AluOp) (a b : Int64) :
    Reduced (op.exact a.toInt b.toInt) (op.apply a b).toInt := by
  cases op with
  | add => exact reduced_add a b
  | sub => exact reduced_sub a b
  | and =>
      rw [AluOp.exact, ← toInt_and]
      exact (inRange_toInt _).reduced
  | or =>
      rw [AluOp.exact, ← toInt_or]
      exact (inRange_toInt _).reduced
  | slt =>
      rw [AluOp.exact, ← toInt_truthValue_lt]
      exact (inRange_toInt _).reduced

theorem ImmediateOp.reduced_apply (op : ImmediateOp) (a b : Int64) :
    Reduced (op.exact a.toInt b.toInt) (op.apply a b).toInt := by
  cases op with
  | addi => exact reduced_add a b
  | slti =>
      rw [ImmediateOp.exact, ← toInt_truthValue_lt]
      exact (inRange_toInt _).reduced

namespace Machine

/-! ## Changes -/

/-- The integer that a register holds; that of `$zero` is 0. -/
def value (m : Machine) (r : Register) : Int :=
  if r = .zero then 0 else (m.registers.read r).toInt

/-- The second machine is the first with `v`, reduced to 64 bits, in the register.  What is put
into `$zero` is dropped. -/
structure Put (m m' : Machine) (r : Register) (v : Int) : Prop where
  dropped : r = .zero → m' = m
  value : r ≠ .zero → Reduced v (m'.value r)
  others : ∀ q, q ≠ r → m'.value q = m.value q
  memory : m'.memory = m.memory
  pc : m'.pc = m.pc
  product : m'.product = m.product

/-- The second machine is the first with `v` stored at the address that `a` is reduced to. -/
structure Stored (m m' : Machine) (a v : Int) : Prop where
  word : ∀ b : Int64, Reduced a b.toInt → (m'.memory.words.find? b).map Int64.toInt = some v
  others : ∀ b : Int64, ¬Reduced a b.toInt → m'.memory.words.find? b = m.memory.words.find? b
  registers : m'.registers = m.registers
  pc : m'.pc = m.pc
  product : m'.product = m.product

theorem toInt_read (m : Machine) (r : Register) : (m.registers.read r).toInt = m.value r := by
  unfold value
  split
  next hzero => rw [hzero, Bank.read_zero, Int64.toInt_zero]
  next => rfl

theorem value_change_register (m : Machine) (r q : Register) (x : Int64) :
    (m.change (some (.register r x))).value q =
      if q = r ∧ r ≠ .zero then x.toInt else m.value q := by
  rw [← toInt_read, ← toInt_read, change, Bank.read_write]
  split <;> rfl

variable {m m' : Machine}

theorem put_iff {r : Register} {v : Int} {x : Int64} (hx : Reduced v x.toInt) :
    m.Put m' r v ↔ m' = m.change (some (.register r x)) := by
  constructor
  · intro h
    by_cases hr : r = .zero
    · rw [h.dropped hr, hr, change, Bank.write_zero]
    · refine Machine.ext (Bank.ext_read fun q => ?_) h.memory h.pc h.product
      rw [← Int64.toInt_inj, toInt_read, toInt_read, value_change_register]
      split
      next hq => rw [hq.1, (h.value hr).unique hx]
      next hq => exact h.others q fun heq => hq ⟨heq, hr⟩
  · rintro rfl
    refine ⟨fun hr => ?_, fun hr => ?_, fun q hq => ?_, rfl, rfl, rfl⟩
    · rw [hr, change, Bank.write_zero]
    · rwa [value_change_register, if_pos ⟨rfl, hr⟩]
    · rw [value_change_register, if_neg fun h => hq h.1]

theorem stored_iff {a v : Int} {address x : Int64} (ha : Reduced a address.toInt)
    (hx : x.toInt = v) :
    m.Stored m' a v ↔ m' = m.change (some (.memory address x)) := by
  subst hx
  have hreduced (b : Int64) : Reduced a b.toInt ↔ b = address :=
    ⟨fun hb => Int64.toInt_inj.mp (hb.unique ha), fun hb => hb ▸ ha⟩
  have hwords (b : Int64) : (m.change (some (.memory address x))).memory.words.find? b =
      if b = address then some x else m.memory.words.find? b :=
    Table.find?_insert _ _ _ _
  constructor
  · intro h
    refine Machine.ext h.registers (Memory.ext_find? fun b => ?_) h.pc h.product
    rw [hwords]
    split
    next hb =>
      obtain ⟨y, hy, hvalue⟩ := Option.map_eq_some_iff.mp (h.word b ((hreduced b).mpr hb))
      rw [hy, Int64.toInt_inj.mp hvalue]
    next hb => exact h.others b fun hr => hb ((hreduced b).mp hr)
  · rintro rfl
    refine ⟨fun b hb => ?_, fun b hb => ?_, rfl, rfl, rfl⟩
    · rw [hwords, if_pos ((hreduced b).mp hb), Option.map_some]
    · rw [hwords, if_neg fun h => hb ((hreduced b).mpr h)]

/-! ## The table -/

/-- What comes of an instruction: the machine after it, where the program counter goes and the
line it prints, or a fault. -/
abbrev Answer := Except Fault (Machine × Flow × Option String)

/-- What comes of executing an instruction. -/
def answer (m : Machine) (p : Program) (i : Instruction) : Answer :=
  (m.execute p i).map fun out => (out.1, out.2.flow, out.2.output?)

/-- The table of the instructions: what comes of each, on the machine `m` and in the program
`p`. -/
inductive Performs (m : Machine) (p : Program) : Instruction → Answer → Prop
  | alu {op : AluOp} {rd rs rt : Register} {m' : Machine}
      (h : m.Put m' rd (op.exact (m.value rs) (m.value rt))) :
      Performs m p (.alu op rd rs rt) (.ok (m', .next, none))
  | shiftLeft {rd rt : Register} {amount : UInt32} {m' : Machine} (hamount : amount.toNat ≤ 63)
      (h : m.Put m' rd (m.value rt * 2 ^ amount.toNat)) :
      Performs m p (.shiftLeft rd rt amount) (.ok (m', .next, none))
  | shiftOut {rd rt : Register} {amount : UInt32} {m' : Machine} (hamount : 63 < amount.toNat)
      (h : m.Put m' rd 0) :
      Performs m p (.shiftLeft rd rt amount) (.ok (m', .next, none))
  | multiply {rs rt : Register} {m' : Machine} (h : m.Put m' m.product (m.value rs * m.value rt)) :
      Performs m p (.multiply rs rt) (.ok (m', .next, none))
  | aluImmediate {op : ImmediateOp} {rt rs : Register} {value : Int64} {m' : Machine}
      (h : m.Put m' rt (op.exact (m.value rs) value.toInt)) :
      Performs m p (.aluImmediate op rt rs value) (.ok (m', .next, none))
  | load {rt base : Register} {offset a : Int64} {m' : Machine}
      (ha : Reduced (m.value base + offset.toInt) a.toInt)
      (h : m.Put m' rt (m.memory.load a).toInt) :
      Performs m p (.load rt offset base) (.ok (m', .next, none))
  | store {rt base : Register} {offset : Int64} {m' : Machine}
      (h : m.Stored m' (m.value base + offset.toInt) (m.value rt)) :
      Performs m p (.store rt offset base) (.ok (m', .next, none))
  | loadUpper {rt : Register} {value : Int64} {m' : Machine}
      (h : m.Put m' rt (value.toInt * 2 ^ 16)) :
      Performs m p (.loadUpper rt value) (.ok (m', .next, none))
  | taken {test : BranchTest} {rs rt : Register} {label : String} {target : Nat}
      (hlabel : p.label? label = some target)
      (htest : test.holds (m.value rs) (m.value rt) = true) :
      Performs m p (.branch test rs rt label) (.ok (m, .jump target, none))
  | notTaken {test : BranchTest} {rs rt : Register} {label : String} {target : Nat}
      (hlabel : p.label? label = some target)
      (htest : test.holds (m.value rs) (m.value rt) = false) :
      Performs m p (.branch test rs rt label) (.ok (m, .next, none))
  | undefined {test : BranchTest} {rs rt : Register} {label : String}
      (hlabel : p.label? label = none) :
      Performs m p (.branch test rs rt label) (.error (.unknownLabel label))
  | print {source : Register} :
      Performs m p (.print source) (.ok (m, .next, some (toString (m.value source))))
  | constant {name text : String} (hname : p.string? name = some text) :
      Performs m p (.printString name) (.ok (m, .next, some text))
  | name {name : String} (hname : p.string? name = none) :
      Performs m p (.printString name) (.ok (m, .next, some name))
  | halt : Performs m p .halt (.ok (m, .jump p.size, none))

/-! ## Execution follows the table -/

theorem reduced_alu (m : Machine) (op : AluOp) (rs rt : Register) :
    Reduced (op.exact (m.value rs) (m.value rt))
    (op.apply (m.registers.read rs) (m.registers.read rt)).toInt := by
  rw [← toInt_read, ← toInt_read]
  exact op.reduced_apply _ _

theorem reduced_aluImmediate (m : Machine) (op : ImmediateOp) (rs : Register) (value : Int64) :
    Reduced (op.exact (m.value rs) value.toInt) (op.apply (m.registers.read rs) value).toInt := by
  rw [← toInt_read]
  exact op.reduced_apply _ _

theorem reduced_product (m : Machine) (rs rt : Register) :
    Reduced (m.value rs * m.value rt) (m.registers.read rs * m.registers.read rt).toInt := by
  rw [← toInt_read, ← toInt_read]
  exact reduced_mul _ _

theorem reduced_address (m : Machine) (base : Register) (offset : Int64) :
    Reduced (m.value base + offset.toInt) (m.address base offset).toInt := by
  rw [← toInt_read]
  exact reduced_add _ _

theorem reduced_shifted (m : Machine) (rt : Register) (n : Nat) :
    Reduced (m.value rt * 2 ^ n) (shiftLeft (m.registers.read rt) n).toInt := by
  rw [← toInt_read]
  exact reduced_shiftLeft _ _

/-- Nothing is left of a value that is moved out. -/
theorem reduced_shiftedOut (m : Machine) (rt : Register) {n : Nat} (h : 63 < n) :
    Reduced 0 (shiftLeft (m.registers.read rt) n).toInt := by
  rw [shiftLeft, if_neg (Nat.not_lt.mpr h)]
  exact (inRange_toInt 0).reduced

/-- Nothing happens but what the table says. -/
theorem Performs.answer_eq {m : Machine} {p : Program} {i : Instruction} {o : Answer}
    (h : m.Performs p i o) :
    m.answer p i = o := by
  cases h with
  | alu h =>
      rw [(put_iff (reduced_alu m _ _ _)).mp h]
      rfl
  | shiftLeft hamount h =>
      rw [(put_iff (reduced_shifted m _ _)).mp h]
      rfl
  | shiftOut hamount h =>
      rw [(put_iff (reduced_shiftedOut m _ hamount)).mp h]
      rfl
  | multiply h =>
      rw [(put_iff (reduced_product m _ _)).mp h]
      rfl
  | aluImmediate h =>
      rw [(put_iff (reduced_aluImmediate m _ _ _)).mp h]
      rfl
  | @load rt base offset a m' ha h =>
      have haddress : a = m.address base offset :=
        Int64.toInt_inj.mp (ha.unique (reduced_address m base offset))
      rw [(put_iff (inRange_toInt _).reduced).mp h, haddress]
      rfl
  | store h =>
      rw [(stored_iff (reduced_address m _ _) (toInt_read m _)).mp h]
      rfl
  | loadUpper h =>
      rw [(put_iff (reduced_shiftLeft _ 16)).mp h]
      rfl
  | taken hlabel htest =>
      rw [← toInt_read, ← toInt_read, BranchTest.holds_toInt] at htest
      simp [answer, execute, effect, hlabel, htest, Except.map, change]
  | notTaken hlabel htest =>
      rw [← toInt_read, ← toInt_read, BranchTest.holds_toInt] at htest
      simp [answer, execute, effect, hlabel, htest, Except.map, change]
  | undefined hlabel => simp [answer, execute, effect, hlabel, Except.map]
  | print =>
      rw [← toInt_read, ← Numeral.integer_eq_toString]
      rfl
  | constant hname => simp [answer, execute, effect, hname, Except.map, change]
  | name hname => simp [answer, execute, effect, hname, Except.map, change]
  | halt => rfl

/-- The table leaves no instruction out. -/
theorem exists_performs (m : Machine) (p : Program) (i : Instruction) : ∃ o, m.Performs p i o := by
  cases i with
  | alu op rd rs rt => exact ⟨_, .alu ((put_iff (reduced_alu m op rs rt)).mpr rfl)⟩
  | shiftLeft rd rt amount =>
      by_cases hamount : amount.toNat ≤ 63
      · exact ⟨_, .shiftLeft hamount ((put_iff (reduced_shifted m rt amount.toNat)).mpr rfl)⟩
      · have hamount := Nat.lt_of_not_le hamount
        exact ⟨_, .shiftOut hamount ((put_iff (reduced_shiftedOut m rt hamount)).mpr rfl)⟩
  | multiply rs rt => exact ⟨_, .multiply ((put_iff (reduced_product m rs rt)).mpr rfl)⟩
  | aluImmediate op rt rs value =>
      exact ⟨_, .aluImmediate ((put_iff (reduced_aluImmediate m op rs value)).mpr rfl)⟩
  | load rt offset base =>
      exact ⟨_,
        .load (reduced_address m base offset) ((put_iff (inRange_toInt _).reduced).mpr rfl)⟩
  | store rt offset base =>
      exact ⟨_, .store ((stored_iff (reduced_address m base offset) (toInt_read m rt)).mpr rfl)⟩
  | loadUpper rt value => exact ⟨_, .loadUpper ((put_iff (reduced_shiftLeft value 16)).mpr rfl)⟩
  | branch test rs rt label =>
      cases hlabel : p.label? label with
      | none => exact ⟨_, .undefined hlabel⟩
      | some target =>
          cases htest : test.holds (m.value rs) (m.value rt) with
          | true => exact ⟨_, .taken hlabel htest⟩
          | false => exact ⟨_, .notTaken hlabel htest⟩
  | print source => exact ⟨_, .print⟩
  | printString name =>
      cases hname : p.string? name with
      | none => exact ⟨_, .name hname⟩
      | some text => exact ⟨_, .constant hname⟩
  | halt => exact ⟨_, .halt⟩

/-- Executing an instruction comes to what the table says, and to nothing else. -/
theorem answer_eq_iff_performs (m : Machine) (p : Program) (i : Instruction) (o : Answer) :
    m.answer p i = o ↔ m.Performs p i o := by
  constructor
  · rintro rfl
    obtain ⟨o, h⟩ := m.exists_performs p i
    rwa [h.answer_eq]
  · exact Performs.answer_eq

/-- A product that goes into the register of its factors, and of which nothing is left in 64
bits. -/
example :
    let m := (initial .t0).change (some (.register .t0 4294967296))
    m.answer ∅ (.multiply .t0 .t0) = .ok (m.change (some (.register .t0 0)), .next, none) := by
  decide +kernel

end Machine

end MipsMachine
