import MipsMachine.Proofs.Simulation.Chronicle

set_option autoImplicit false

/-!
# Programs without a way back

In a forward-only program each branch whose label is defined stands before its target.  Then
every executed instruction takes the program counter further, a `HALT` to the end, so the
number of instructions that are left bounds the number that can be executed.  A run ends within
that bound, which is as good as no bound at all (`forward_only_run_ends`).  Texts that cannot
be read and labels that are not defined do no harm: a run that comes to them fails there.
-/

namespace MipsMachine

namespace Program

/-- The index that the label of a branch is bound to, if a branch is at the given index and its
label is defined. -/
def branchTarget? (p : Program) (i : Nat) : Option Nat :=
  match p.reading? i with
  | some (.branch _ _ _ label) => p.label? label
  | _ => none

/-- Branches go forward only. -/
def ForwardOnly (p : Program) : Prop := ∀ i, i < p.size → ∀ target ∈ p.branchTarget? i, i < target

instance (p : Program) : Decidable p.ForwardOnly :=
  inferInstanceAs (Decidable (∀ i, i < p.size → ∀ target ∈ p.branchTarget? i, i < target))

theorem branchTarget?_of_reading? {p : Program} {i : Nat} {test : BranchTest} {rs rt : Register}
    {label : String} (h : p.reading? i = some (.branch test rs rt label)) :
    p.branchTarget? i = p.label? label := by
  rw [branchTarget?, h]

end Program

/-- An instruction of a forward-only program leads forward. -/
theorem Machine.Leads.pc_lt {m : Machine} {p : Program} {i : Instruction} {next : Nat}
    (h : m.Leads p i next) (hforward : p.ForwardOnly) (hpc : m.pc < p.size)
    (hi : p.reading? m.pc = some i) : m.pc < next := by
  cases h with
  | halt => exact hpc
  | taken hlabel =>
      refine hforward m.pc hpc next ?_
      rw [Program.branchTarget?_of_reading? hi]
      exact hlabel
  | notTaken | next => exact Nat.lt_succ_self m.pc

namespace Simulation

/-! ## The counter goes forward -/

theorem program_step (s : Simulation) : s.step.state.program = s.program := by
  by_cases h : s.step.result = .ok .executed
  · obtain ⟨i, e, -, -, hstate⟩ := exists_reading?_of_executed h
    rw [hstate]
    rfl
  · rw [step_state_of_not_executed h]

theorem program_after (s : Simulation) (k : Nat) : (s.after k).program = s.program :=
  after_preserves (P := fun u => u.program = s.program) (fun hu => (program_step _).trans hu) rfl k

theorem pc_lt_pc_step {s : Simulation} (hforward : s.program.ForwardOnly)
    (h : s.step.result = .ok .executed) :
    s.machine.pc < s.step.state.machine.pc := by
  obtain ⟨i, e, hi, heffect, hstate⟩ := exists_reading?_of_executed h
  have hlt := (Machine.leads_of_effect heffect).pc_lt hforward (pc_lt_size_of_executed h) hi
  rw [hstate]
  simpa [commit, Machine.advance] using hlt

theorem pc_lt_pc_after {s : Simulation} (hforward : s.program.ForwardOnly) {k : Nat}
    (h : (s.after k).step.result = .ok .executed) :
    (s.after k).machine.pc < (s.after (k + 1)).machine.pc := by
  rw [after_succ_last]
  refine pc_lt_pc_step ?_ h
  rwa [program_after]

/-- The counter has gone forward by one at least for every executed instruction. -/
theorem Executes.add_le_pc {s : Simulation} {k : Nat} (h : s.Executes k)
    (hforward : s.program.ForwardOnly) :
    s.machine.pc + k ≤ (s.after k).machine.pc := by
  induction k with
  | zero => exact Nat.le_refl _
  | succ k ih =>
      obtain ⟨hfirst, hlast⟩ := executes_succ_last_iff.mp h
      exact Nat.succ_le_of_lt (Nat.lt_of_le_of_lt (ih hfirst) (pc_lt_pc_after hforward hlast))

/-! ## The end comes in time -/

/-- No more instructions are executed than are left. -/
theorem Executes.le_left {s : Simulation} {k : Nat} (h : s.Executes k)
    (hforward : s.program.ForwardOnly) :
    k ≤ s.program.size - s.machine.pc := by
  cases k with
  | zero => exact Nat.zero_le _
  | succ k =>
      obtain ⟨hfirst, hlast⟩ := executes_succ_last_iff.mp h
      -- the last instruction was still one of the program, however far the others had gone
      have hpc := hfirst.add_le_pc hforward
      have hlt := pc_lt_size_of_executed hlast
      rw [program_after] at hlt
      omega

/-- When as many instructions were executed as were left, the program has ended. -/
theorem Executes.finished {s : Simulation} (h : s.Executes (s.program.size - s.machine.pc))
    (hforward : s.program.ForwardOnly) :
    (s.after (s.program.size - s.machine.pc)).step.result = .ok .finished := by
  have hpc := h.add_le_pc hforward
  rw [step_result_eq_finished_iff, current?_eq_none_iff, program_after]
  omega

theorem endsWithin_of_forwardOnly {s : Simulation} (hforward : s.program.ForwardOnly) :
    s.EndsWithin (s.program.size - s.machine.pc) := by
  obtain ⟨k, hk⟩ := s.exists_stopsAfter (s.program.size - s.machine.pc)
  refine ⟨k, hk.executes, ?_⟩
  rcases hk.cases with rfl | hfinished | hfault
  · exact Or.inl ⟨Nat.le_refl _, hk.executes.finished hforward⟩
  · exact Or.inl ⟨hk.le, hfinished⟩
  · exact Or.inr hfault

/-- In a forward-only program the run without a bound ends, from wherever it starts.  It
executes as many instructions as are left at most, and comes to what the run with that bound
comes to.  If it succeeds then the program has ended.  The program counter goes forward at
every executed instruction. -/
theorem forward_only_run_ends {s : Simulation} (hforward : s.program.ForwardOnly) :
    (∃ o, s.EndsIn o) ∧
    (∀ o, s.EndsIn o →
      (∃ k, k ≤ s.program.size - s.machine.pc ∧ s.Executes k ∧ o.state = s.after k ∧
        (o.result = .ok k ∨ ∃ fault, o.result = .error fault)) ∧
      (∀ k, o.result = .ok k → k ≤ s.program.size - s.machine.pc ∧ o.state.isFinished = true) ∧
      o.result = (s.runFor (s.program.size - s.machine.pc)).result ∧
      o.state = (s.runFor (s.program.size - s.machine.pc)).state) ∧
    (∀ k, s.Executes k → k ≤ s.program.size - s.machine.pc) ∧
    (∀ k, (s.after k).step.result = .ok .executed →
      (s.after k).machine.pc < (s.after (k + 1)).machine.pc) := by
  obtain ⟨hends, hsame⟩ := (endsWithin_of_forwardOnly hforward).run_eq
  refine ⟨hends, ?_, fun k hk => hk.le_left hforward, fun k => pc_lt_pc_after hforward⟩
  intro o ho
  refine ⟨?_, ?_, hsame o ho⟩
  · obtain ⟨k, hexecutes, ⟨-, rfl⟩ | ⟨fault, -, rfl⟩⟩ := ho.exists_eq
    · exact ⟨k, hexecutes.le_left hforward, hexecutes, rfl, Or.inl rfl⟩
    · exact ⟨k, hexecutes.le_left hforward, hexecutes, rfl, Or.inr ⟨fault, rfl⟩⟩
  · intro k hresult
    obtain ⟨j, hexecutes, ⟨hfinished, rfl⟩ | ⟨fault, -, rfl⟩⟩ := ho.exists_eq
    · obtain rfl := Except.ok.inj hresult
      refine ⟨hexecutes.le_left hforward, isFinished_iff.mpr ?_⟩
      exact current?_eq_none_iff.mp (step_result_eq_finished_iff.mp hfinished)
    · cases hresult

/-- From the first instruction on, two branches lead past a text that cannot be read to a label
behind the last one.  From that text on the run fails at once. -/
theorem forward_only_run_ends_at_last_label :
    let lines :=
      ["beq $zero, $zero, skip", "leap", "bne $t0, $zero, nowhere", "skip: bne $t0, $zero, end",
        "beq $t0, $t0, end", "halt", "end:"]
    let s := (fresh.load lines).state
    let t := s.setCounter 1
    s.program.ForwardOnly ∧
      (∃ o, s.EndsIn o ∧ o.result = .ok 3 ∧ 3 ≤ s.program.size - s.machine.pc ∧
        o.state.isFinished = true ∧
        o.state = (s.runFor 6).state) ∧
      ∃ o, t.EndsIn o ∧ o.result = .error (.unknownMnemonic "LEAP") ∧
        o.state = (t.runFor 5).state := by
  intro lines s t
  have hforward : s.program.ForwardOnly ∧ (s.runFor 6).result = .ok 3 ∧
      (t.runFor 5).result = .error (.unknownMnemonic "LEAP") := by
    decide +kernel
  obtain ⟨hforward, hs, ht⟩ := hforward
  obtain ⟨⟨o, ho⟩, hall, -, -⟩ := forward_only_run_ends hforward
  obtain ⟨-, hsuccess, hresult, hstate⟩ := hall o ho
  obtain ⟨hle, hfinished⟩ := hsuccess 3 (hresult.trans hs)
  obtain ⟨⟨o', ho'⟩, hall', -, -⟩ := forward_only_run_ends (s := t) hforward
  obtain ⟨-, -, hresult', hstate'⟩ := hall' o' ho'
  exact ⟨hforward, ⟨o, ho, hresult.trans hs, hle, hfinished, hstate⟩, o', ho',
    hresult'.trans ht, hstate'⟩

end Simulation

end MipsMachine
