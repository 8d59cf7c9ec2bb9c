import MipsMachine.Simulation

set_option autoImplicit false

/-!
# One step

A step goes one of three ways: the program has ended, the instruction at the program counter is
refused, or it is executed.  `Stepped` lists the three with everything they leave behind, and
later proofs take a step apart by `stepped` alone; none of them unfolds `step` again.  In the
same way `Machine.Leads` lists once where the program counter can go from an instruction.
-/

namespace MipsMachine

namespace Machine

/-! ## Where an instruction leads -/

/-- Where the program counter goes from an instruction. -/
inductive Leads (m : Machine) (p : Program) : Instruction → Nat → Prop
  /-- A program ends behind its last instruction. -/
  | halt : Leads m p .halt p.size
  /-- A branch goes to its label if the registers pass the test. -/
  | taken {test : BranchTest} {rs rt : Register} {label : String} {target : Nat}
      (hlabel : p.label? label = some target)
      (hpasses : test.passes (m.registers.read rs) (m.registers.read rt) = true) :
      Leads m p (.branch test rs rt label) target
  /-- A branch goes on with the next instruction if they do not. -/
  | notTaken {test : BranchTest} {rs rt : Register} {label : String}
      (hpasses : test.passes (m.registers.read rs) (m.registers.read rt) = false) :
      Leads m p (.branch test rs rt label) (m.pc + 1)
  /-- All other instructions go on with the next one. -/
  | next {i : Instruction} (hhalt : i.classOf ≠ .halt) (hbranch : i.classOf ≠ .branch) :
      Leads m p i (m.pc + 1)

theorem leads_of_effect {m : Machine} {p : Program} {i : Instruction} {e : Effect}
    (h : m.effect p i = .ok e) :
    m.Leads p i (e.flow.target m.pc) := by
  cases i with
  | branch test rs rt label =>
      obtain ⟨target, hlabel, rfl⟩ := effect_branch_eq_ok_iff.mp h
      cases hpasses : test.passes (m.registers.read rs) (m.registers.read rt) with
      | true => exact .taken hlabel hpasses
      | false => exact .notTaken hpasses
  | halt =>
      obtain rfl := Except.ok.inj h
      exact .halt
  | _ =>
      obtain rfl := Except.ok.inj h
      exact .next (by simp [Instruction.classOf]) (by simp [Instruction.classOf])

end Machine

namespace Simulation

deriving instance DecidableEq for Except

/-! ## Where the program counter is -/

theorem current?_eq_none_iff {s : Simulation} :
    s.current? = none ↔ s.program.size ≤ s.machine.pc :=
  Array.getElem?_eq_none_iff

theorem isFinished_iff {s : Simulation} : s.isFinished = true ↔ s.program.size ≤ s.machine.pc :=
  decide_eq_true_iff

theorem pc_lt_of_current? {s : Simulation} {text : String} (h : s.current? = some text) :
    s.machine.pc < s.program.size := by
  rcases Nat.lt_or_ge s.machine.pc s.program.size with hlt | hle
  · exact hlt
  · rw [current?_eq_none_iff.mpr hle] at h
    cases h

/-! ## The three ways -/

/-- The ways in which a step can go, each with what it comes to. -/
inductive Stepped (s : Simulation) : Outcome StepResult → Prop
  /-- There is no instruction at the program counter. -/
  | finished (hnone : s.current? = none) : Stepped s ⟨.ok .finished, s, #[]⟩
  /-- The instruction cannot be read or executed. -/
  | refused {text : String} {fault : Fault} (htext : s.current? = some text)
      (hresolve : s.resolve text = .error fault) :
      Stepped s ⟨.error fault, s, #[.log (.stepFailed s.machine.pc text fault)]⟩
  /-- The instruction has an effect, and the effect is committed. -/
  | executed {text : String} {i : Instruction} {e : Effect} (htext : s.current? = some text)
      (hresolve : s.resolve text = .ok (i, e)) :
      Stepped s ⟨.ok .executed, s.commit i e, s.showing text i e⟩

theorem stepped (s : Simulation) : s.Stepped s.step := by
  unfold step
  cases htext : s.current? with
  | none => exact .finished htext
  | some text =>
      cases hresolve : s.resolve text with
      | error fault =>
          simp only [hresolve]
          exact .refused htext hresolve
      | ok p =>
          obtain ⟨i, e⟩ := p
          simp only [hresolve]
          exact .executed htext hresolve

/-! ## What is left behind -/

/-- Only an executed instruction changes the simulation. -/
theorem step_state_of_not_executed {s : Simulation} (h : s.step.result ≠ .ok .executed) :
    s.step.state = s := by
  have hs := s.stepped
  generalize s.step = o at h hs
  cases hs with
  | finished => rfl
  | refused => rfl
  | executed => exact absurd rfl h

/-- A step that finds the program ended shows nothing. -/
theorem step_eq_of_finished {s : Simulation} (h : s.step.result = .ok .finished) :
    s.step = ⟨.ok .finished, s, #[]⟩ := by
  have hs := s.stepped
  generalize s.step = o at h hs
  cases hs with
  | finished => rfl
  | refused => cases h
  | executed => cases h

theorem step_eq_of_executed {s : Simulation} (h : s.step.result = .ok .executed) :
    s.step = ⟨.ok .executed, s.step.state, s.step.journal⟩ := by
  rw [← h]

/-- A step that fails shows something, but leaves the simulation. -/
theorem step_eq_of_error {s : Simulation} {fault : Fault} (h : s.step.result = .error fault) :
    s.step = ⟨.error fault, s, s.step.journal⟩ := by
  have hstate : s.step.state = s := step_state_of_not_executed (by simp [h])
  generalize s.step = o at h hstate
  obtain ⟨result, t, journal⟩ := o
  cases h
  cases hstate
  rfl

/-- The program has ended for a step exactly when there is no instruction at the program
counter. -/
theorem step_result_eq_finished_iff {s : Simulation} :
    s.step.result = .ok .finished ↔ s.current? = none := by
  have hs := s.stepped
  generalize s.step = o at hs
  cases hs with
  | finished hnone => exact ⟨fun _ => hnone, fun _ => rfl⟩
  | refused htext => simp [htext]
  | executed htext => simp [htext]

/-- A step fails exactly when the instruction at the program counter is refused. -/
theorem step_result_eq_error_iff {s : Simulation} {fault : Fault} :
    s.step.result = .error fault ↔
      ∃ text, s.current? = some text ∧ s.resolve text = .error fault := by
  have hs := s.stepped
  generalize s.step = o at hs
  cases hs with
  | finished hnone => simp [hnone]
  | refused htext hresolve => simp [htext, hresolve]
  | executed htext hresolve => simp [htext, hresolve]

/-- An instruction that is not refused is executed. -/
theorem step_of_resolve_ok {s : Simulation} {text : String} {i : Instruction} {e : Effect}
    (htext : s.current? = some text) (hresolve : s.resolve text = .ok (i, e)) :
    s.step.result = .ok .executed ∧ s.step.state = s.commit i e := by
  have hs := s.stepped
  generalize s.step = o at hs
  cases hs with
  | finished hnone =>
      rw [htext] at hnone
      cases hnone
  | refused hcurrent hrefused =>
      obtain rfl := Option.some.inj (htext.symm.trans hcurrent)
      rw [hresolve] at hrefused
      cases hrefused
  | executed hcurrent hexecuted =>
      obtain rfl := Option.some.inj (htext.symm.trans hcurrent)
      rw [hresolve] at hexecuted
      cases hexecuted
      exact ⟨rfl, rfl⟩

/-- The instruction that is executed can be read and has an effect. -/
theorem resolve_eq_ok_iff {s : Simulation} {text : String} {i : Instruction} {e : Effect} :
    s.resolve text = .ok (i, e) ↔
      Instruction.read text = .ok i ∧ s.machine.effect s.program i = .ok e := by
  unfold resolve
  cases hread : Instruction.read text with
  | error fault => simp
  | ok j =>
      constructor
      · intro h
        cases heffect : s.machine.effect s.program j with
        | error fault => simp [heffect] at h
        | ok e' =>
            simp only [heffect, Except.ok.injEq, Prod.mk.injEq] at h
            obtain ⟨rfl, rfl⟩ := h
            exact ⟨rfl, heffect⟩
      · rintro ⟨hi, heffect⟩
        obtain rfl := Except.ok.inj hi
        simp [heffect]

/-- The instruction that is refused cannot be read or has no effect. -/
theorem resolve_eq_error_iff {s : Simulation} {text : String} {fault : Fault} :
    s.resolve text = .error fault ↔
      Instruction.read text = .error fault ∨
        ∃ i, Instruction.read text = .ok i ∧ s.machine.effect s.program i = .error fault := by
  unfold resolve
  cases hread : Instruction.read text with
  | error fault' => simp
  | ok i => cases heffect : s.machine.effect s.program i <;> simp [heffect]

/-- An executed step commits the effect of the instruction at the program counter. -/
theorem exists_commit_of_executed {s : Simulation} (h : s.step.result = .ok .executed) :
    ∃ text i e, s.current? = some text ∧ Instruction.read text = .ok i ∧
      s.machine.effect s.program i = .ok e ∧ s.step.state = s.commit i e := by
  have hs := s.stepped
  generalize s.step = o at h hs
  cases hs with
  | finished => cases h
  | refused => cases h
  | @executed text i e htext hresolve =>
      obtain ⟨hread, heffect⟩ := resolve_eq_ok_iff.mp hresolve
      exact ⟨text, i, e, htext, hread, heffect, rfl⟩

/-- An instruction is executed in the program only. -/
theorem pc_lt_size_of_executed {s : Simulation} (h : s.step.result = .ok .executed) :
    s.machine.pc < s.program.size := by
  obtain ⟨text, i, e, htext, -, -, -⟩ := exists_commit_of_executed h
  exact pc_lt_of_current? htext

end Simulation

end MipsMachine
