import MipsMachine.Proofs.Program
import MipsMachine.Proofs.Simulation.Record

set_option autoImplicit false

/-!
# Printed constants

An instruction that prints a string constant names it, and the program looks the name up when
the instruction is executed.  Said of the source lines, the text that is printed is the one
that the last directive for the name gives, wherever it stands; a name without one is printed
itself.  Directives do nothing else, and with too few words they do nothing at all
(`prints_last_text_of_constant`).
-/

namespace MipsMachine

/-- A branch looks up its label, and nothing else of a program. -/
theorem Machine.effect_branch_congr {p q : Program} (h : p.labels = q.labels) (m : Machine)
    (test : BranchTest) (rs rt : Register) (label : String) :
    m.effect p (.branch test rs rt label) = m.effect q (.branch test rs rt label) := by
  simp only [effect, Program.label?, h]

namespace Simulation

/-- The instruction adds one line to the output, and if output is echoed then it shows the same
line. -/
theorem step_of_printString {s : Simulation} {text name : String} (htext : s.current? = some text)
    (hread : Instruction.read text = .ok (.printString name)) :
    s.step.result = .ok .executed ∧
      s.step.state.output = s.output.push ((s.program.string? name).getD name) ∧
      s.step.journal.stdout =
        if s.settings.echoOutput then (s.program.string? name).getD name ++ "\n" else "" := by
  obtain ⟨hresult, hstate⟩ := step_of_resolve_ok htext (resolve_eq_ok_iff.mpr ⟨hread, rfl⟩)
  have houtput : s.step.state.output = s.output.push ((s.program.string? name).getD name) := by
    rw [hstate]
    simp [commit]
  refine ⟨hresult, houtput, ?_⟩
  obtain ⟨-, -, lines, hlines, hstdout⟩ := s.continues_step
  rw [houtput, Array.toList_push, List.append_cancel_left_eq] at hlines
  rw [hstdout, ← hlines, echoed]
  simp

/-- The line that is printed is the text that the last directive for the name gives, or the
name if there is no such directive; a directive for a name gives it the words behind the name,
with single blanks between them and without quotation marks.  A directive with fewer than three
words could as well be left out.  Without any other directive the instructions, the labels and
the places that branches go to are the same. -/
theorem prints_last_text_of_constant {s : Simulation} {lines : List String} {text name : String}
    (hprogram : s.program = .assemble lines) (htext : s.current? = some text)
    (hread : Instruction.read text = .ok (.printString name)) :
    (∃ line, s.step.result = .ok .executed ∧ s.step.state.output = s.output.push line ∧
      s.step.journal.stdout = (if s.settings.echoOutput then line ++ "\n" else "") ∧
      (Program.LastGives lines name line ∨
        line = name ∧ ∀ l ∈ lines, ∀ other, ¬Statement.Gives l name other)) ∧
    (∀ before line behind, Statement.IsIncomplete line →
      Program.assemble (before ++ line :: behind) = .assemble (before ++ behind)) ∧
    ∀ before line behind, Statement.IsDirective line →
      (Program.assemble (before ++ line :: behind)).instructions =
        (Program.assemble (before ++ behind)).instructions ∧
      (Program.assemble (before ++ line :: behind)).labels =
        (Program.assemble (before ++ behind)).labels ∧
      ∀ (m : Machine) (test : BranchTest) (rs rt : Register) (label : String),
        m.effect (.assemble (before ++ line :: behind)) (.branch test rs rt label) =
          m.effect (.assemble (before ++ behind)) (.branch test rs rt label) := by
  refine ⟨?_, fun before _ behind h => Program.assemble_of_isIncomplete h before behind, ?_⟩
  · obtain ⟨hresult, houtput, hstdout⟩ := step_of_printString htext hread
    refine ⟨_, hresult, houtput, hstdout, ?_⟩
    rw [hprogram]
    cases hstring : (Program.assemble lines).string? name with
    | some given => exact Or.inl (Program.string?_assemble_eq_some_iff.mp hstring)
    | none => exact Or.inr ⟨rfl, Program.string?_assemble_eq_none_iff.mp hstring⟩
  · intro before line behind h
    obtain ⟨hinstructions, hlabels⟩ := Program.assemble_of_isDirective h before behind
    exact ⟨hinstructions, hlabels, fun m test rs rt label =>
      m.effect_branch_congr hlabels test rs rt label⟩

/-- Two directives for one name behind the instruction that prints it, with wide blanks,
quotation marks and a comment; then one that gives no text, and a name without a directive. -/
theorem prints_last_text_of_constant_behind_use :
    let first := ["prints \"a", ".data \"a\u2003 old"]
    let given := "\t.data\u00a0\"a \"\u3000x:  \"y\" # z"
    let lines := first ++ given :: [".data \"a", "prints b"]
    let s := ((idle (.initial .t0) { echoOutput := true }).load lines).state
    s.step.state.output = #[" x: y"] ∧ s.step.journal.stdout = " x: y\n" ∧
      Program.LastGives lines "\"a" " x: y" ∧ s.step.state.step.state.output = #[" x: y", "b"] ∧
      (∀ l ∈ lines, ∀ other, ¬Statement.Gives l "b" other) ∧
      Program.assemble lines = .assemble (first ++ given :: ["prints b"]) ∧
      (Program.assemble lines).labels =
        (Program.assemble (first ++ [".data \"a", "prints b"])).labels := by
  intro first given lines s
  have hstates : s.current? = some "prints \"a" ∧ s.step.state.current? = some "prints b" ∧
      s.output = #[] ∧ s.step.state.output = #[" x: y"] ∧
      s.step.state.step.state.output = #[" x: y", "b"] ∧
      s.step.state.program = .assemble lines := by
    decide +kernel
  obtain ⟨hfirst, hsecond, hempty, hprinted, hboth, hsame⟩ := hstates
  have hread : Instruction.read "prints \"a" = .ok (.printString "\"a") := by rfl
  have hread' : Instruction.read "prints b" = .ok (.printString "b") := by rfl
  obtain ⟨⟨line, -, houtput, hstdout, hgiven⟩, hincomplete, hdirective⟩ :=
    prints_last_text_of_constant (s := s) rfl hfirst hread
  obtain ⟨⟨other, -, houtput', -, hgiven'⟩, -, -⟩ :=
    prints_last_text_of_constant hsame hsecond hread'
  obtain rfl : " x: y" = line := by simpa [hprinted, hempty] using houtput
  obtain rfl : "b" = other := by simpa [hprinted, hboth] using houtput'
  have hnone : (Program.assemble lines).string? "b" = none := by decide +kernel
  refine ⟨hprinted, hstdout, ?_, hboth, ?_, ?_, ?_⟩
  · exact hgiven.resolve_right fun h => absurd h.1 (by decide)
  · rcases hgiven' with hlast | ⟨-, hnone'⟩
    · rw [Program.string?_assemble_eq_some_iff.mpr hlast] at hnone
      cases hnone
    · exact hnone'
  · refine hincomplete (first ++ [given]) ".data \"a" ["prints b"] ⟨?_, _,
      Statement.hasWords_iff.mpr rfl, ?_⟩
    · decide +kernel
    · decide +kernel
  · exact (hdirective first given [".data \"a", "prints b"] (by decide +kernel)).2.1

end Simulation

end MipsMachine
