import Mathlib.Data.List.Chain
import MipsMachine.Proofs.Instruction.Text
import MipsMachine.Proofs.Simulation.Chronicle

set_option autoImplicit false

/-!
# What is on record

The program counter, the trace and the output are changed one after the other by each executed
instruction.  Told from the moments of a chronicle they are one history: the trace lists the
words of the instructions that the counter stood at, the output lists what these instructions
printed at their moment, and each instruction leads the counter to the next moment.  `Recorded`
is the invariant.  What was put on record stays until the next load or reset, and if output is
echoed then the standard output gets the new lines and nothing else (`Continues`).
-/

namespace MipsMachine

/-! ## One instruction -/

theorem Program.bind_bits?_of_reading? {p : Program} {n : Nat} {i : Instruction}
    (h : p.reading? n = some i) :
    (p.instruction? n).bind Instruction.bits? = some i.encode.word.text := by
  obtain ⟨text, htext, hread⟩ := reading?_eq_some_iff.mp h
  rw [htext, Option.bind_some, Instruction.bits?, hread]
  rfl

namespace Machine

/-- The line that an instruction prints: the decimal text of a register, or a string constant,
which is its own name if the program does not define it. -/
def line? (m : Machine) (p : Program) : Instruction → Option String
  | .print source => some (toString (m.registers.read source).toInt)
  | .printString constant => some ((p.string? constant).getD constant)
  | _ => none

theorem output?_eq_line? {m : Machine} {p : Program} {i : Instruction} {e : Effect}
    (h : m.effect p i = .ok e) :
    e.output? = m.line? p i := by
  cases i with
  | branch test rs rt label =>
      obtain ⟨target, -, rfl⟩ := effect_branch_eq_ok_iff.mp h
      rfl
  | print source =>
      obtain rfl := Except.ok.inj h
      rw [line?, ← Numeral.integer_eq_toString]
  | _ =>
      obtain rfl := Except.ok.inj h
      rfl

end Machine

namespace Simulation

/-! ## The records as a history -/

/-- The next moment of a program is where the instruction of this one leads. -/
def LeadsTo (p : Program) (m next : Simulation) : Prop :=
  ∃ i, p.reading? m.machine.pc = some i ∧ m.machine.Leads p i next.machine.pc

/-- Trace, output and program counter tell what was executed at the given moments of a program,
from its first instruction on. -/
structure Recorded (p : Program) (ms : List Simulation) (s : Simulation) : Prop where
  program : s.program = p
  trace : (s.trace.toList.map fun w => some w.text) =
    ms.map fun m => (p.instruction? m.machine.pc).bind Instruction.bits?
  output : s.output.toList = ms.filterMap fun m =>
    (p.reading? m.machine.pc).bind (m.machine.line? p)
  first : (ms ++ [s]).head?.map (fun m => m.machine.pc) = some 0
  leads : (ms ++ [s]).IsChain (LeadsTo p)

theorem recorded_of_load {s : Simulation} {c : Call} {o : Outcome Answer} {lines : List String}
    (hreturns : Returns s c o) (hlines : c.lines? = some lines) :
    Recorded (.assemble lines) [] o.state := by
  rw [hreturns.state_eq_load hlines]
  exact ⟨rfl, rfl, rfl, rfl, .singleton _⟩

theorem Recorded.step {p : Program} {ms : List Simulation} {s : Simulation} (h : Recorded p ms s)
    (hexecuted : s.step.result = .ok .executed) : Recorded p (ms ++ [s]) s.step.state := by
  obtain ⟨i, e, hi, heffect, hstate⟩ := exists_reading?_of_executed hexecuted
  rw [reading?, h.program] at hi
  rw [h.program] at heffect
  rw [hstate]
  refine ⟨h.program, ?_, ?_, ?_, ?_⟩
  · simp only [commit, Array.toList_push, List.map_append, h.trace, List.map_cons, List.map_nil,
      Program.bind_bits?_of_reading? hi]
  · simp only [commit, Array.toList_appendList, List.filterMap_append, h.output, hi,
      Option.bind_some, Machine.output?_eq_line? heffect, List.filterMap_cons, List.filterMap_nil]
    cases s.machine.line? p i <;> rfl
  · -- the first moment stays the first, or it is the present one
    rw [List.head?_append, ← h.first]
    cases ms <;> rfl
  · rw [List.append_assoc, List.singleton_append, List.isChain_split]
    refine ⟨h.leads, .cons_cons ⟨i, hi, ?_⟩ (.singleton _)⟩
    simpa [commit, Machine.advance] using Machine.leads_of_effect heffect

/-- Writes to registers and memory are not on record. -/
theorem Recorded.change {p : Program} {ms : List Simulation} {s : Simulation} (h : Recorded p ms s)
    (w : Option Write) : Recorded p ms { s with machine := s.machine.change w } := by
  refine ⟨h.program, h.trace, h.output, ?_, ?_⟩
  · rw [← h.first]
    cases ms with
    | nil => simp
    | cons m ms => rfl
  · obtain ⟨hbefore, -, hlast⟩ := List.isChain_append.mp h.leads
    refine List.isChain_append.mpr ⟨hbefore, .singleton _, ?_⟩
    -- the last instruction led to a counter, and a write does not move it
    intro m hm next hnext
    obtain ⟨i, hi, hleads⟩ := hlast m hm s rfl
    obtain rfl := Option.some.inj hnext
    exact ⟨i, hi, by simpa using hleads⟩

theorem kept_recorded (p : Program) : Kept (fun c => c.Executing ∨ c.Writing) (Recorded p) where
  executed := Recorded.step
  other hu hallowed hc hreturns := by
    obtain ⟨w, hw⟩ := hreturns.exists_change_of_writing (hallowed.resolve_left hc)
    rw [hw]
    exact hu.change w

/-! ## The records grow -/

/-- The text that lines make on the standard output. -/
def echoed (lines : List String) : String := String.join (lines.map fun line => line ++ "\n")

/-- The records of the first simulation are continued in the second, and of what was shown
meanwhile the standard output gets the new lines, or nothing if output is not echoed. -/
def Continues (s t : Simulation) (journal : Journal) : Prop :=
  t.settings = s.settings ∧ s.trace.toList <+: t.trace.toList ∧
    ∃ lines, t.output.toList = s.output.toList ++ lines ∧
      journal.stdout = if s.settings.echoOutput then echoed lines else ""

end Simulation

theorem Journal.stdout_append (a b : Journal) : (a ++ b).stdout = a.stdout ++ b.stdout := by
  simp [stdout, String.join_append]

namespace Simulation

theorem echoed_append (a b : List String) : echoed (a ++ b) = echoed a ++ echoed b := by
  simp [echoed, String.join_append]

theorem continues_of_same_records {s t : Simulation} {journal : Journal}
    (hsettings : t.settings = s.settings) (htrace : t.trace = s.trace)
    (houtput : t.output = s.output) (hjournal : journal.stdout = "") :
    s.Continues t journal := by
  refine ⟨hsettings, ?_, [], by rw [houtput, List.append_nil], ?_⟩
  · simp [htrace]
  · rw [hjournal]
    exact (ite_self "").symm

theorem Continues.trans {s t u : Simulation} {first second : Journal} (hst : s.Continues t first)
    (htu : t.Continues u second) : s.Continues u (first ++ second) := by
  obtain ⟨hsettings, htrace, lines, houtput, hshown⟩ := hst
  obtain ⟨hsettings', htrace', lines', houtput', hshown'⟩ := htu
  refine ⟨hsettings'.trans hsettings, htrace.trans htrace', lines ++ lines', ?_, ?_⟩
  · rw [houtput', houtput, List.append_assoc]
  · rw [Journal.stdout_append, hshown, hshown', hsettings, echoed_append]
    split
    · rfl
    · rfl

theorem continues_commit (s : Simulation) (text : String) (i : Instruction) (e : Effect) :
    s.Continues (s.commit i e) (s.showing text i e) := by
  refine ⟨rfl, ?_, e.output?.toList, Array.toList_appendList, ?_⟩
  · simp [commit]
  · rw [showing, Journal.stdout_append]
    cases s.settings.traceInstructions <;> cases s.settings.echoOutput <;> cases e.output? <;> rfl

theorem continues_step (s : Simulation) : s.Continues s.step.state s.step.journal := by
  have hs := s.stepped
  generalize s.step = o at hs
  cases hs with
  | finished => exact continues_of_same_records rfl rfl rfl rfl
  | refused => exact continues_of_same_records rfl rfl rfl rfl
  | executed => exact s.continues_commit _ _ _

theorem continues_after (s : Simulation) (k : Nat) : s.Continues (s.after k) (s.shown k) := by
  induction k generalizing s with
  | zero => exact continues_of_same_records rfl rfl rfl rfl
  | succ k ih => exact s.continues_step.trans (ih s.step.state)

/-- How a call concludes is for the log. -/
theorem Concludes.stdout_eq {t : Simulation} {result : Except Fault Answer} {more : Journal}
    (h : Concludes t result more) : more.stdout = "" := by
  cases h <;> rfl

/-- Every call other than a load or a reset continues the records. -/
theorem Returns.continues {s : Simulation} {c : Call} {o : Outcome Answer}
    (hreturns : Returns s c o) (hc : ¬c.Clearing) : s.Continues o.state o.journal := by
  by_cases hexecuting : c.Executing
  · obtain ⟨k, more, -, hstate, hjournal, hmore⟩ := hreturns.concludes hexecuting
    rw [hstate, hjournal]
    exact (s.continues_after k).trans (continues_of_same_records rfl rfl rfl hmore.stdout_eq)
  · cases hreturns with
    | load | loadSource | reset => exact absurd trivial hc
    | step | run | runFor => exact absurd trivial hexecuting
    | setRegister | setMemory | setCounter | setNamedRefused =>
        exact continues_of_same_records rfl rfl rfl rfl
    | @setNamed name value t hset =>
        obtain ⟨w, hw⟩ := (Returns.setNamed hset).exists_change_of_writing trivial
        rw [hw]
        exact continues_of_same_records rfl rfl rfl rfl

theorem Reaches.records_grow {s t : Simulation} (h : Reaches (fun c => ¬c.Clearing) s t) :
    s.output.toList <+: t.output.toList ∧ s.trace.toList <+: t.trace.toList :=
  h.invariant (P := fun u => s.output.toList <+: u.output.toList ∧
    s.trace.toList <+: u.trace.toList)
    ⟨List.prefix_refl _, List.prefix_refl _⟩ fun hu hc hreturns => by
      obtain ⟨-, htrace, lines, houtput, -⟩ := hreturns.continues hc
      exact ⟨hu.1.trans ⟨lines, houtput.symm⟩, hu.2.trans htrace⟩

/-! ## The history of a run -/

/-- From a load on, while nobody moves the program counter by hand, the records are the history
of what was executed.  The counter starts at the first instruction, and each instruction leads
it to the next one that is executed.  The trace has the word of each, in 32 characters, and the
output has the lines that the instructions among them which print did print.  Both logs are
only added to until the next load or reset, and each call shows the lines that it adds, and
nothing else, on the standard output if output is echoed. -/
theorem logs_record_history {s₀ s : Simulation} {c : Call} {o : Outcome Answer}
    {lines : List String} (hreturns : Returns s₀ c o) (hlines : c.lines? = some lines)
    (hreaches : Reaches (fun c => c.Executing ∨ c.Writing) o.state s) :
    (∃ ms, Chronicle (fun c => c.Executing ∨ c.Writing) o.state ms s) ∧
    (∀ ms, Chronicle (fun c => c.Executing ∨ c.Writing) o.state ms s →
      (∀ m ∈ ms, m.step.result = .ok .executed) ∧
      (s.trace.toList.map fun w => some w.text) =
        ms.map (fun m =>
          ((Program.assemble lines).instruction? m.machine.pc).bind Instruction.bits?) ∧
      s.output.toList = ms.filterMap (fun m =>
        ((Program.assemble lines).reading? m.machine.pc).bind
          (m.machine.line? (.assemble lines))) ∧
      (ms ++ [s]).head?.map (fun m => m.machine.pc) = some 0 ∧
      (ms ++ [s]).IsChain fun m next => ∃ i,
        (Program.assemble lines).reading? m.machine.pc = some i ∧
          m.machine.Leads (.assemble lines) i next.machine.pc) ∧
    (∀ w ∈ s.trace, w.text.length = 32) ∧
    (∀ t, Reaches (fun c => ¬c.Clearing) s t →
      s.output.toList <+: t.output.toList ∧ s.trace.toList <+: t.trace.toList) ∧
    (∀ c o, ¬c.Clearing → Returns s c o →
      ∃ added, o.state.output.toList = s.output.toList ++ added ∧
        o.journal.stdout = if s.settings.echoOutput then
          String.join (added.map fun line => line ++ "\n") else "") := by
  refine ⟨hreaches.exists_chronicle, ?_, ?_, ?_, ?_⟩
  · intro ms hms
    have h := (kept_recorded (.assemble lines)).holds (recorded_of_load hreturns hlines) hms
    exact ⟨fun m => hms.executed, h.trace, h.output, h.first, h.leads⟩
  · intro w _
    rw [Word.text, String.length_ofList, Word.length_bits]
  · intro t ht
    exact ht.records_grow
  · intro c o hc hcall
    obtain ⟨-, -, added, houtput, hstdout⟩ := hcall.continues hc
    exact ⟨added, houtput, hstdout⟩

/-- A loop that counts down and prints, in two runs of which the second comes to a text that
cannot be read. -/
theorem logs_record_history_of_echoed_countdown :
    let lines :=
      [".data done lift off", "addi $t0, $zero, 2", "again: print $t0", "addi $t0, $t0, -1",
        "bne $t0, $zero, again", "prints done", "leap"]
    let loaded := ((idle (.initial .t0) { echoOutput := true }).load lines).state
    let t := (loaded.runFor 3).state
    let ms := loaded.moments 3 ++ t.moments 5
    Chronicle (fun c => c.Executing ∨ c.Writing) loaded ms (t.runFor 9).state ∧
      (t.runFor 9).result = .error (.unknownMnemonic "LEAP") ∧
      (ms ++ [(t.runFor 9).state]).map (fun m => m.machine.pc) = [0, 1, 2, 3, 1, 2, 3, 4, 5] ∧
      ((t.runFor 9).state.trace.toList.map fun w => some w.text) =
        ms.map (fun m =>
          ((Program.assemble lines).instruction? m.machine.pc).bind Instruction.bits?) ∧
      ["2", "1", "lift off"] = ms.filterMap (fun m =>
        ((Program.assemble lines).reading? m.machine.pc).bind
          (m.machine.line? (.assemble lines))) ∧
      (t.runFor 9).journal.stdout = "1\nlift off\n" := by
  intro lines loaded t ms
  have hruns : loaded.StopsAfter 3 3 ∧ t.StopsAfter 9 5 ∧
      (t.after 5).step.result = .error (.unknownMnemonic "LEAP") := by
    decide +kernel
  obtain ⟨hfirst, hsecond, hfault⟩ := hruns
  have hreached : Reaches (fun c => c.Executing ∨ c.Writing) loaded t :=
    Reaches.refl.runFor (Or.inl trivial)
  have hms : Chronicle (fun c => c.Executing ∨ c.Writing) loaded ms (t.runFor 9).state := by
    have hstart : Chronicle (fun c => c.Executing ∨ c.Writing) loaded ([] ++ loaded.moments 3) t :=
      Chronicle.start.runFor (Or.inl trivial) hfirst
    rw [List.nil_append] at hstart
    exact hstart.runFor (Or.inl trivial) hsecond
  obtain ⟨-, hhistory, -, -, -⟩ :=
    logs_record_history (.load lines) rfl (hreached.runFor (n := 9) (Or.inl trivial))
  obtain ⟨-, htrace, houtput, -, -⟩ := hhistory ms hms
  obtain ⟨-, -, -, -, hshown⟩ := logs_record_history (.load lines) rfl hreached
  obtain ⟨added, hadded, hstdout⟩ := hshown (.runFor 9) _ (fun h => h) (.runFor 9)
  have hlogs : (t.runFor 9).state.output.toList = ["2", "1", "lift off"] ∧
      t.output.toList = ["2"] ∧ t.settings.echoOutput = true ∧
      (ms ++ [(t.runFor 9).state]).map (fun m => m.machine.pc) = [0, 1, 2, 3, 1, 2, 3, 4, 5] := by
    decide +kernel
  obtain ⟨hlines, hbefore, hecho, hcounters⟩ := hlogs
  rw [Outcome.state_map, hbefore, List.singleton_append] at hadded
  have hnew : ["1", "lift off"] = added := (List.cons.inj (hlines.symm.trans hadded)).2
  rw [Outcome.journal_map, hecho, ← hnew] at hstdout
  have hresult : (t.runFor 9).result = .error (.unknownMnemonic "LEAP") :=
    (runFor_result_eq_error_iff hsecond _).mpr ⟨by decide, hfault⟩
  refine ⟨hms, hresult, hcounters, htrace, hlines.symm.trans houtput, hstdout.trans ?_⟩
  decide +kernel

end Simulation

end MipsMachine
