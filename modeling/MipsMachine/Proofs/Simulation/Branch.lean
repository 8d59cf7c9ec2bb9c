import MipsMachine.Proofs.Program
import MipsMachine.Proofs.Simulation.Step

set_option autoImplicit false

/-!
# Branches

A branch names a label, and the label stands for a place in the program.  Said of the source
lines, the place is before what the lines contribute from the last definition of the label on;
where the branch itself stands does not matter (`branch_goes_to_last_definition`).
-/

namespace MipsMachine.Simulation

/-- A branch fails exactly for want of its label. -/
theorem step_result_eq_unknownLabel_iff {s : Simulation} {text : String} {test : BranchTest}
    {rs rt : Register} {label : String} (htext : s.current? = some text)
    (hread : Instruction.read text = .ok (.branch test rs rt label)) :
    s.step.result = .error (.unknownLabel label) ↔ s.program.label? label = none := by
  rw [step_result_eq_error_iff]
  constructor
  · rintro ⟨text', htext', hresolve⟩
    obtain rfl : text = text' := Option.some.inj (htext.symm.trans htext')
    rcases resolve_eq_error_iff.mp hresolve with hfault | ⟨i, hi, heffect⟩
    · rw [hread] at hfault
      cases hfault
    · obtain rfl := Except.ok.inj (hread.symm.trans hi)
      obtain ⟨_, _, _, _, hbranch, hnone, _⟩ := Machine.effect_eq_error_iff.mp heffect
      cases hbranch
      exact hnone
  · intro hnone
    refine ⟨text, htext, resolve_eq_error_iff.mpr (Or.inr ⟨_, hread, ?_⟩)⟩
    exact Machine.effect_eq_error_iff.mpr ⟨test, rs, rt, label, rfl, hnone, rfl⟩

/-- A branch with its label moves the program counter. -/
theorem step_of_branch {s : Simulation} {text : String} {test : BranchTest} {rs rt : Register}
    {label : String} {target : Nat} (htext : s.current? = some text)
    (hread : Instruction.read text = .ok (.branch test rs rt label))
    (hlabel : s.program.label? label = some target) :
    s.step.result = .ok .executed ∧ s.step.state.program = s.program ∧
      s.step.state.machine.pc =
        if test.passes (s.machine.registers.read rs) (s.machine.registers.read rt) then target
        else s.machine.pc + 1 := by
  have heffect : s.machine.effect s.program (.branch test rs rt label) = .ok _ :=
    Machine.effect_branch_eq_ok_iff.mpr ⟨target, hlabel, rfl⟩
  obtain ⟨hresult, hstate⟩ := step_of_resolve_ok htext (resolve_eq_ok_iff.mpr ⟨hread, heffect⟩)
  refine ⟨hresult, by rw [hstate]; rfl, ?_⟩
  rw [hstate]
  simp only [commit, Machine.advance, Machine.pc_change]
  split
  · rfl
  · rfl

/-- With the program counter behind what the first lines contribute, what the other lines
contribute comes next. -/
theorem next_of_counter_eq {s : Simulation} {before rest : List String}
    (hprogram : s.program = .assemble (before ++ rest))
    (hpc : s.machine.pc = (Program.contributed before).length) :
    s.current? = (Program.contributed rest).head? ∧
      (s.isFinished = true ↔ Program.contributed rest = []) := by
  have hcurrent : s.current? = (Program.contributed rest).head? := by
    rw [current?, hprogram, hpc, Program.instruction?_assemble_append]
  refine ⟨hcurrent, ?_⟩
  rw [isFinished_iff, ← current?_eq_none_iff, hcurrent, List.head?_eq_none_iff]

/-- A branch fails if no line defines its label.  If some line does, then there is a last one,
and a branch that is taken goes on with what the lines contribute from that one on; the program
has ended if that is nothing.  A branch that is not taken goes on with the next instruction. -/
theorem branch_goes_to_last_definition {s : Simulation} {lines : List String} {text : String}
    {test : BranchTest} {rs rt : Register} {label : String}
    (hprogram : s.program = .assemble lines)
    (htext : s.current? = some text)
    (hread : Instruction.read text = .ok (.branch test rs rt label)) :
    (s.step.result = .error (.unknownLabel label) ↔
      ∀ line ∈ lines, ¬Statement.Defines line label) ∧
    ((∃ line ∈ lines, Statement.Defines line label) →
      ∃ before line behind, lines = before ++ line :: behind ∧ Statement.Defines line label ∧
        ∀ l ∈ behind, ¬Statement.Defines l label) ∧
    ∀ before line behind, lines = before ++ line :: behind → Statement.Defines line label →
      (∀ l ∈ behind, ¬Statement.Defines l label) →
      s.step.result = .ok .executed ∧
      (test.passes (s.machine.registers.read rs) (s.machine.registers.read rt) = true →
        s.step.state.machine.pc = (Program.contributed before).length ∧
        s.step.state.current? = (Program.contributed (line :: behind)).head? ∧
        (s.step.state.isFinished = true ↔ Program.contributed (line :: behind) = [])) ∧
      (test.passes (s.machine.registers.read rs) (s.machine.registers.read rt) = false →
        s.step.state.machine.pc = s.machine.pc + 1) := by
  refine ⟨?_, Program.exists_last_definition, ?_⟩
  · rw [step_result_eq_unknownLabel_iff htext hread, hprogram, Program.label?_assemble_eq_none_iff]
  · rintro before line behind rfl hline hbehind
    have hlabel : s.program.label? label = some (Program.contributed before).length := by
      rw [hprogram]
      exact Program.label?_assemble_of_last hline hbehind
    obtain ⟨hresult, hsame, hpc⟩ := step_of_branch htext hread hlabel
    refine ⟨hresult, ?_, ?_⟩
    · intro htaken
      rw [if_pos htaken] at hpc
      exact ⟨hpc, next_of_counter_eq (hsame.trans hprogram) hpc⟩
    · intro hnotTaken
      rw [hpc, hnotTaken]
      rfl

/-- Forward to a label that is alone on its line and was bound to an earlier place before, and
from there back to one that shares its line with an instruction.  A label that only a comment
and a directive mention is not defined. -/
theorem branch_goes_to_last_definition_of_redefined_label :
    let first := ["end: beq $t0, $zero, end # end:", ".data end lost:", "back:", "halt"]
    let loop := ["back: addi $t0, $t0, 1", "bne $t0, $t1, back", "beq $t0, $t1, lost # lost:"]
    let s := (fresh.load (first ++ "  end :" :: "" :: loop)).state
    let t := (s.runFor 2).state
    let u := t.setCounter 4
    s.step.state.machine.pc = 2 ∧ s.step.state.current? = some "addi $t0, $t0, 1" ∧
      t.machine.pc = 3 ∧ t.step.state.machine.pc = 2 ∧
      u.step.result = .error (.unknownLabel "lost") := by
  intro first loop s t u
  have hforward : s.current? = some "beq $t0, $zero, end" := by decide +kernel
  have hback : t.program = .assemble (first ++ "  end :" :: "" :: loop) ∧ t.machine.pc = 3 ∧
      t.current? = some "bne $t0, $t1, back" ∧
      BranchTest.different.passes (t.machine.registers.read ⟨8⟩)
        (t.machine.registers.read ⟨9⟩) = true ∧
      u.program = t.program ∧ u.current? = some "beq $t0, $t1, lost" := by
    decide +kernel
  obtain ⟨hprogram, hpc, hbranch, htaken, hsame, hlost⟩ := hback
  obtain ⟨-, -, hend⟩ := branch_goes_to_last_definition (s := s) rfl hforward (by rfl)
  obtain ⟨-, hjump, -⟩ :=
    hend first "  end :" ("" :: loop) rfl (by decide +kernel) (by decide +kernel)
  obtain ⟨hcounter, hnext, -⟩ := hjump (by decide +kernel)
  obtain ⟨-, -, hloop⟩ := branch_goes_to_last_definition hprogram hbranch (by rfl)
  obtain ⟨-, hjumpBack, -⟩ :=
    hloop (first ++ ["  end :", ""]) "back: addi $t0, $t0, 1" loop.tail rfl
    (by decide +kernel) (by decide +kernel)
  obtain ⟨hnone, -, -⟩ := branch_goes_to_last_definition (hsame.trans hprogram) hlost (by rfl)
  refine ⟨hcounter, hnext, hpc, (hjumpBack htaken).1, hnone.mpr ?_⟩
  decide +kernel

end MipsMachine.Simulation
