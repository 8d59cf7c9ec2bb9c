import MipsMachine.Proofs.Memory
import MipsMachine.Proofs.Simulation.Chronicle

set_option autoImplicit false

/-!
# What memory holds

As long as nobody writes to memory directly, the words in it are what the executed `SW`
instructions stored, at each address the last of them.  `Machine.Addresses` says of plain
integers which address an offset and a base register give: the sum is reduced to a signed
64-bit number.  `lastStored` looks the last value for an address up in a chronicle.  The
invariant is that memory has the same answer for every address, so a `LW` gives its register
the value of the last `SW` before it.
-/

namespace MipsMachine

/-! ## One instruction -/

namespace Machine

/-- The address is the base register plus the offset, reduced to a signed 64-bit number. -/
def Addresses (m : Machine) (base : Register) (offset a : Int64) : Prop :=
  a.toInt = ((m.registers.read base).toInt + offset.toInt).bmod Int64.size

instance (m : Machine) (base : Register) (offset a : Int64) :
    Decidable (m.Addresses base offset a) :=
  inferInstanceAs (Decidable (_ = _))

theorem addresses_iff {m : Machine} {base : Register} {offset a : Int64} :
    m.Addresses base offset a ↔ a = m.address base offset := by
  rw [address, ← Int64.toInt_inj, Int64.toInt_add]
  rfl

/-- The value that an instruction stores at an address, if it stores one there. -/
def stored? (m : Machine) (a : Int64) : Instruction → Option Int64
  | .store rt offset base => if m.Addresses base offset a then some (m.registers.read rt) else none
  | _ => none

/-- Memory answers with what an instruction stored, and as before where it stored nothing. -/
theorem find?_change_of_effect {m : Machine} {p : Program} {i : Instruction} {e : Effect}
    (h : m.effect p i = .ok e) (a : Int64) :
    (m.change e.write?).memory.words.find? a = (m.stored? a i).or (m.memory.words.find? a) := by
  cases i with
  | store rt offset base =>
      obtain rfl := Except.ok.inj h
      simp only [change, Memory.store, Table.find?_insert, stored?, addresses_iff]
      split
      · rfl
      · rfl
  | branch test rs rt label =>
      obtain ⟨target, -, rfl⟩ := effect_branch_eq_ok_iff.mp h
      rfl
  | _ =>
      obtain rfl := Except.ok.inj h
      rfl

end Machine

namespace Call

/-- All calls but loads, resets and direct writes to memory. -/
def SparesMemory : Call → Prop
  | .load _ | .loadSource _ | .reset | .setMemory .. => False
  | _ => True

end Call

namespace Simulation

/-- The value that the next step is to store at an address, if it is to store one there. -/
def stored? (s : Simulation) (a : Int64) : Option Int64 := s.reading?.bind (s.machine.stored? a)

theorem stored?_eq_none {s : Simulation}
    (h : ∀ rt offset base, s.reading? ≠ some (.store rt offset base)) (a : Int64) :
    s.stored? a = none := by
  rw [stored?]
  cases hi : s.reading? with
  | none => rfl
  | some i =>
      cases i with
      | store rt offset base => exact absurd hi (h rt offset base)
      | _ => rfl

theorem find?_of_executed {s : Simulation} (h : s.step.result = .ok .executed) (a : Int64) :
    s.step.state.machine.memory.words.find? a =
      (s.stored? a).or (s.machine.memory.words.find? a) := by
  obtain ⟨i, e, hi, heffect, hstate⟩ := exists_reading?_of_executed h
  rw [hstate, stored?, hi]
  exact Machine.find?_change_of_effect heffect a

/-- Steps that execute no `SW`, steps that fail and steps behind the end of the program leave
memory alone. -/
theorem memory_step_of_not_store {s : Simulation}
    (h : ∀ rt offset base, s.reading? ≠ some (.store rt offset base)) :
    s.step.state.machine.memory = s.machine.memory := by
  by_cases hexecuted : s.step.result = .ok .executed
  · refine Memory.ext_find? fun a => ?_
    rw [find?_of_executed hexecuted, stored?_eq_none h, Option.none_or]
  · rw [step_state_of_not_executed hexecuted]

/-- An executed `LW` gives its register the word at the address. -/
theorem read_of_load {s : Simulation} {rt base : Register} {offset a : Int64}
    (hi : s.reading? = some (.load rt offset base)) (hrt : rt ≠ .zero)
    (ha : s.machine.Addresses base offset a) :
    s.step.state.machine.registers.read rt = s.machine.memory.load a := by
  obtain ⟨-, hstate⟩ := step_of_reading? hi rfl
  rw [hstate, Machine.addresses_iff.mp ha]
  exact (Bank.read_write _ rt rt _).trans (if_pos ⟨rfl, hrt⟩)

/-! ## The last store -/

/-- The value that was stored last at an address, at the given moments. -/
def lastStored (ms : List Simulation) (a : Int64) : Option Int64 :=
  ms.reverse.findSome? (·.stored? a)

theorem lastStored_snoc (ms : List Simulation) (s : Simulation) (a : Int64) :
    lastStored (ms ++ [s]) a = (s.stored? a).or (lastStored ms a) := by
  rw [lastStored, List.reverse_append, List.findSome?_append]
  simp [lastStored]

theorem isSome_lastStored_iff {ms : List Simulation} {a : Int64} :
    (lastStored ms a).isSome ↔ ∃ m ∈ ms, (m.stored? a).isSome := by
  simp [lastStored, List.findSome?_isSome_iff]

/-- Memory holds at every address what was stored there last. -/
def HoldsStores (ms : List Simulation) (s : Simulation) : Prop :=
  ∀ a, s.machine.memory.words.find? a = lastStored ms a

theorem holdsStores_of_load {s : Simulation} {c : Call} {o : Outcome Answer} {lines : List String}
    (hreturns : Returns s c o) (hlines : c.lines? = some lines) : HoldsStores [] o.state := by
  rw [hreturns.state_eq_load hlines]
  exact fun _ => rfl

theorem Returns.memory_eq {s : Simulation} {c : Call} {o : Outcome Answer}
    (hreturns : Returns s c o) (hspares : c.SparesMemory) (hc : ¬c.Executing) :
    o.state.machine.memory = s.machine.memory := by
  cases hreturns with
  | load | loadSource | reset | setMemory => exact hspares.elim
  | step | run | runFor => exact absurd trivial hc
  | setRegister | setNamedRefused | setCounter => rfl
  | setNamed hset =>
      obtain ⟨r, rfl⟩ := exists_eq_withRegister hset
      rfl

theorem kept_holdsStores : Kept Call.SparesMemory HoldsStores where
  executed hu hexecuted a := by rw [find?_of_executed hexecuted, lastStored_snoc, hu a]
  other hu hspares hc hreturns a := by rw [hreturns.memory_eq hspares hc, hu a]

/-- From a load on, while nobody writes to memory directly, memory holds what the executed `SW`
instructions stored.  Every address reads the last value stored there, or 0 if there is none;
the addresses that count as written are those that were stored to, whatever the value, and they
are listed in ascending order.  An executed `LW` into a register other than `$zero` gives it
the value that was last stored at its address until then.  Nothing but a `SW` changes memory,
and no step that is not executed does. -/
theorem memory_holds_last_store {s₀ s : Simulation} {c : Call} {o : Outcome Answer}
    {lines : List String} (hreturns : Returns s₀ c o) (hlines : c.lines? = some lines)
    (hreaches : Reaches Call.SparesMemory o.state s) :
    (∃ ms, Chronicle Call.SparesMemory o.state ms s) ∧
    (∀ ms, Chronicle Call.SparesMemory o.state ms s →
      (∀ m ∈ ms, m.step.result = .ok .executed) ∧
      (∀ a, s.machine.memory.load a = (lastStored ms a).getD 0) ∧
      (∀ a, s.machine.memory.written a = true ↔ ∃ m ∈ ms, (m.stored? a).isSome) ∧
      (∀ a value, (a, value) ∈ s.machine.memory.toList ↔ lastStored ms a = some value) ∧
      (∀ before m behind rt offset base a, ms = before ++ m :: behind →
        m.reading? = some (.load rt offset base) → rt ≠ .zero → m.machine.Addresses base offset a →
          m.step.state.machine.registers.read rt = (lastStored before a).getD 0)) ∧
    (s.machine.memory.toList.Pairwise fun x y => x.1.toInt < y.1.toInt) ∧
    (∀ t : Simulation, (∀ rt offset base, t.reading? ≠ some (.store rt offset base)) →
      t.step.state.machine.memory = t.machine.memory) ∧
    (∀ t : Simulation, t.step.result ≠ .ok .executed →
      t.step.state.machine.memory = t.machine.memory) := by
  have hstart := holdsStores_of_load hreturns hlines
  refine ⟨hreaches.exists_chronicle, ?_, s.machine.memory.ascending,
    fun t => memory_step_of_not_store, ?_⟩
  · intro ms hms
    have hholds : HoldsStores ms s := kept_holdsStores.holds hstart hms
    refine ⟨fun m => hms.executed, ?_, ?_, ?_, ?_⟩
    · intro a
      rw [Memory.load, hholds a]
    · intro a
      rw [Memory.written, Table.contains, hholds a]
      exact isSome_lastStored_iff
    · intro a value
      rw [← hholds a]
      exact Table.find?_eq_some_iff.symm
    · intro before m behind rt offset base a hsplit hi hrt ha
      rw [read_of_load hi hrt ha, Memory.load, kept_holdsStores.holds_at hstart hms hsplit a]
  · intro t ht
    rw [step_state_of_not_executed ht]

/-- Two stores over two bases meet behind the upper end of the address range, at the least
address.  A 0 is stored at another one, and the `LW` overwrites its own base register.  The
last text names a label where an address should be. -/
theorem memory_holds_last_store_at_least_address :
    let lines :=
      ["sw $t0, 1($t0)", "sw $zero, 14($zero)", "addi $t1, $t0, 9", "sw $t1, -8($t1)",
        "lw $t0, 1($t0)", "print $t0", "sw $t9, away"]
    let loaded := (fresh.load lines).state
    let start := loaded.withRegister .t0 Int64.maxValue
    let ms := start.moments 6
    Chronicle Call.SparesMemory loaded ms (start.runFor 9).state ∧
      (start.runFor 9).state.machine.memory.toList =
        [(Int64.minValue, Int64.minValue + 8), (14, 0)] ∧
      lastStored ms Int64.minValue = some (Int64.minValue + 8) ∧ lastStored ms 14 = some 0 ∧
      (start.runFor 9).state.machine.memory.load 13 = (lastStored ms 13).getD 0 ∧
      (start.after 4).step.state.machine.registers.read .t0 =
        (lastStored (start.moments 4) Int64.minValue).getD 0 := by
  intro lines loaded start ms
  have hrun : start.StopsAfter 9 6 ∧
      (start.runFor 9).state.machine.memory.toList =
        [(Int64.minValue, Int64.minValue + 8), (14, 0)] ∧
      (start.after 4).reading? = some (.load .t0 1 .t0) ∧
      (start.after 4).machine.Addresses .t0 1 Int64.minValue := by
    decide +kernel
  obtain ⟨hstops, hlist, hi, ha⟩ := hrun
  have hwritten : Chronicle Call.SparesMemory loaded [] start :=
    .call .start trivial (.setRegister .t0 Int64.maxValue) (covers_zero fun h => h)
  have hms : Chronicle Call.SparesMemory loaded ms (start.runFor 9).state :=
    hwritten.runFor trivial hstops
  have hreaches : Reaches Call.SparesMemory loaded (start.runFor 9).state :=
    (Reaches.refl.call trivial (.setRegister .t0 Int64.maxValue)).runFor trivial
  obtain ⟨-, hholds, -, -, -⟩ := memory_holds_last_store (.load lines) rfl hreaches
  obtain ⟨-, hload, -, hlisted, hread⟩ := hholds ms hms
  refine ⟨hms, hlist, ?_, ?_, hload 13, ?_⟩
  · exact (hlisted _ _).mp (by simp [hlist])
  · exact (hlisted _ _).mp (by simp [hlist])
  · exact hread (start.moments 4) (start.after 4) [start.after 5] .t0 1 .t0 Int64.minValue rfl hi
      (by decide) ha

end Simulation

end MipsMachine
