import MipsMachine.Proofs.Machine.Semantics
import MipsMachine.Proofs.Simulation.Failure

set_option autoImplicit false

/-!
# What an instruction reads and writes

An instruction depends on the registers it names as its sources, on the register set aside for
products, and for `LW` on one word of memory.  Machines that agree on these go alike under it,
however different they are elsewhere (`execute_of_agree`), because its effect is the same on
both.  It changes one location at most, and all others keep what they held.
-/

namespace MipsMachine

/-! ## Locations -/

/-- A part of the machine that can hold something by itself. -/
inductive Location where
  /-- a register -/
  | register (r : Register)
  /-- a word of memory, with whether it was stored -/
  | word (address : Int64)
  /-- the program counter -/
  | counter
  /-- which register takes the products of `MULT` -/
  | product
  deriving DecidableEq

namespace Machine

/-- The two machines hold the same in a location. -/
def SameAt (m n : Machine) : Location → Prop
  | .register r => m.registers.read r = n.registers.read r
  | .word a => m.memory.words.find? a = n.memory.words.find? a
  | .counter => m.pc = n.pc
  | .product => m.product = n.product

theorem SameAt.refl (m : Machine) (location : Location) : m.SameAt m location := by
  cases location <;> rfl

/-- There is nothing in a machine but what its locations hold. -/
theorem eq_of_sameAt {m n : Machine} (h : ∀ location, m.SameAt n location) : m = n :=
  Machine.ext (Bank.ext_read fun r => h (.register r)) (Memory.ext_find? fun a => h (.word a))
    (h .counter) (h .product)

end Machine

/-! ## Writes -/

/-- The location of a register; `$zero` is none, since nothing stays in it. -/
def Register.location? (r : Register) : Option Location :=
  if r = .zero then none else some (.register r)

/-- The location that a write changes. -/
def Write.location? : Write → Option Location
  | .register r _ => r.location?
  | .memory address _ => some (.word address)

namespace Machine

/-- A write to a location leaves the same there on any machine. -/
theorem sameAt_change_of_location? {w : Write} {location : Location}
    (h : w.location? = some location) (m n : Machine) :
    (m.change (some w)).SameAt (n.change (some w)) location := by
  cases w with
  | register r value =>
      rw [Write.location?, Register.location?] at h
      split at h
      next => cases h
      next hr =>
        obtain rfl := Option.some.inj h
        rw [SameAt, change, change, Bank.read_write, Bank.read_write, if_pos ⟨rfl, hr⟩,
          if_pos ⟨rfl, hr⟩]
  | memory address value =>
      obtain rfl := Option.some.inj h
      rw [SameAt, change, change, Memory.store, Memory.store, Table.find?_insert_self,
        Table.find?_insert_self]

/-- All other locations keep what they held. -/
theorem sameAt_change_of_location?_ne {w : Write} {location : Location}
    (h : w.location? ≠ some location) (m : Machine) : m.SameAt (m.change (some w)) location := by
  cases w with
  | register r value =>
      cases location with
      | register q =>
          rw [SameAt, change, Bank.read_write, if_neg]
          rintro ⟨rfl, hq⟩
          exact h (if_neg hq)
      | _ => rfl
  | memory address value =>
      cases location with
      | word a =>
          rw [SameAt, change, Memory.store, Table.find?_insert, if_neg]
          rintro rfl
          exact h rfl
      | _ => rfl

end Machine

/-! ## Instructions -/

/-- The registers that an instruction names as its sources. -/
def Instruction.sources : Instruction → List Register
  | .alu _ _ rs rt | .multiply rs rt | .branch _ rs rt _ => [rs, rt]
  | .shiftLeft _ rt _ => [rt]
  | .aluImmediate _ _ rs _ => [rs]
  | .load _ _ base => [base]
  | .store rt _ base => [rt, base]
  | .print source => [source]
  | .loadUpper .. | .printString _ | .halt => []

namespace Machine

/-- The address that an instruction loads from. -/
def loads? (m : Machine) : Instruction → Option Int64
  | .load _ offset base => some (m.address base offset)
  | _ => none

/-- The location that an instruction writes to. -/
def location? (m : Machine) : Instruction → Option Location
  | .alu _ r _ _ | .shiftLeft r _ _ | .aluImmediate _ r _ _ | .load r _ _ | .loadUpper r _ =>
      r.location?
  | .multiply _ _ => m.product.location?
  | .store _ offset base => some (.word (m.address base offset))
  | .branch .. | .print _ | .printString _ | .halt => none

/-- The machines hold the same wherever the instruction looks. -/
structure Agree (i : Instruction) (m n : Machine) : Prop where
  sources : ∀ r ∈ i.sources, m.registers.read r = n.registers.read r
  product : m.product = n.product
  word : ∀ a, m.loads? i = some a → m.memory.load a = n.memory.load a

/-- Effects go to the location that the instruction writes to. -/
theorem bind_location?_of_effect {m : Machine} {p : Program} {i : Instruction} {e : Effect}
    (h : m.effect p i = .ok e) :
    e.write?.bind Write.location? = m.location? i := by
  cases i with
  | branch test rs rt label =>
      obtain ⟨target, -, rfl⟩ := effect_branch_eq_ok_iff.mp h
      rfl
  | _ =>
      obtain rfl := Except.ok.inj h
      rfl

variable {i : Instruction} {m n : Machine}

/-- The effect of an instruction is worked out from what the machines agree on. -/
theorem Agree.effect_eq (h : Agree i m n) (p : Program) : m.effect p i = n.effect p i := by
  have hsources := h.sources
  cases i with
  | multiply rs rt =>
      simp only [Instruction.sources, List.forall_mem_cons] at hsources
      simp only [effect, hsources, h.product]
  | load rt offset base =>
      have hbase := hsources base List.mem_cons_self
      have hword := h.word _ rfl
      rw [effect, effect, hword, address, address, hbase]
  | alu | shiftLeft | aluImmediate | store | branch | print =>
      simp only [Instruction.sources, List.forall_mem_cons] at hsources
      simp only [effect, address, hsources]
  | loadUpper | printString | halt => rfl

theorem Agree.location?_eq (h : Agree i m n) : m.location? i = n.location? i := by
  cases i with
  | multiply rs rt => rw [location?, location?, h.product]
  | store rt offset base =>
      have hbase := h.sources base (by simp [Instruction.sources])
      rw [location?, location?, address, address, hbase]
  | _ => rfl

/-- An instruction keeps what all locations held but the one it writes to. -/
theorem sameAt_change_of_effect {p : Program} {e : Effect} (h : m.effect p i = .ok e)
    {location : Location} (hlocation : m.location? i ≠ some location) :
    m.SameAt (m.change e.write?) location := by
  rw [← bind_location?_of_effect h] at hlocation
  cases hw : e.write? with
  | none => exact .refl m location
  | some w =>
      rw [hw] at hlocation
      exact sameAt_change_of_location?_ne hlocation m

/-- Under an instruction, machines that agree on what it reads go alike: both refuse it for the
same reason and nothing is changed, or it has the same effect on both.  Then both change in the
same location, one or none, and hold the same there, and each keeps what it held in every other
location. -/
theorem execute_of_agree (h : Agree i m n) (p : Program) :
    m.location? i = n.location? i ∧
    ((∃ fault, m.execute p i = .error fault ∧ n.execute p i = .error fault ∧
        ∀ s : Simulation, s.machine = m ∨ s.machine = n → s.program = p →
          (Simulation.Action.execute i).outcome s = (.error fault, s)) ∨
      ∃ e m' n', m.execute p i = .ok (m', e) ∧ n.execute p i = .ok (n', e) ∧
        (∀ location, m.location? i = some location → m'.SameAt n' location) ∧
        (∀ location, m.location? i ≠ some location → m.SameAt m' location ∧ n.SameAt n' location) ∧
        (m.location? i = none → m' = m ∧ n' = n)) := by
  refine ⟨h.location?_eq, ?_⟩
  cases hm : m.effect p i with
  | error fault =>
      have hn : n.effect p i = .error fault := by rw [← h.effect_eq p, hm]
      refine .inl ⟨fault, Simulation.execute_eq_error_iff.mpr hm,
        Simulation.execute_eq_error_iff.mpr hn, ?_⟩
      rintro s hs rfl
      have hfault : s.machine.effect s.program i = .error fault := by
        rcases hs with hs | hs
        · rw [hs, hm]
        · rw [hs, hn]
      rw [Simulation.Action.outcome_execute, hfault]
  | ok e =>
      have hn : n.effect p i = .ok e := by rw [← h.effect_eq p, hm]
      have hother (location : Location) (hlocation : m.location? i ≠ some location) :
          m.SameAt (m.change e.write?) location ∧ n.SameAt (n.change e.write?) location :=
        ⟨sameAt_change_of_effect hm hlocation,
          sameAt_change_of_effect hn (h.location?_eq ▸ hlocation)⟩
      refine .inr ⟨e, m.change e.write?, n.change e.write?,
        by rw [execute, hm], by rw [execute, hn], ?_, hother, ?_⟩
      · intro location hlocation
        rw [← bind_location?_of_effect hm] at hlocation
        obtain ⟨w, hw, hlocation⟩ := Option.bind_eq_some_iff.mp hlocation
        rw [hw]
        exact sameAt_change_of_location? hlocation m n
      · intro hnone
        have hall (location : Location) := hother location (by simp [hnone])
        constructor
        · exact (eq_of_sameAt fun location => (hall location).1).symm
        · exact (eq_of_sameAt fun location => (hall location).2).symm

/-- A load from an address where one machine stored 0 and the other nothing, with another
register and another program counter besides. -/
theorem execute_of_agree_where_zero_was_stored :
    let i : Instruction := .load .t0 4 .sp
    let m := (initial .ra).change (some (.register .sp 8))
    let n := ((m.change (some (.memory 12 0))).change (some (.register .ra 5))).advance (.jump 9)
    Agree i m n ∧ ∃ e m' n', m.execute ∅ i = .ok (m', e) ∧ n.execute ∅ i = .ok (n', e) ∧
      m'.SameAt n' (.register .t0) ∧ m.SameAt m' (.word 12) ∧ n.SameAt n' (.word 12) := by
  intro i m n
  have hagree : Agree i m n := by
    refine ⟨by decide, rfl, ?_⟩
    intro a ha
    obtain rfl := Option.some.inj ha
    decide +kernel
  obtain ⟨-, ⟨fault, hfault, -⟩ | ⟨e, m', n', hm, hn, hsame, hother, -⟩⟩ :=
    execute_of_agree hagree ∅
  · cases hfault
  · have hword := hother (.word 12) (by decide)
    exact ⟨hagree, e, m', n', hm, hn, hsame (.register .t0) (by decide), hword.1, hword.2⟩

end Machine

end MipsMachine
