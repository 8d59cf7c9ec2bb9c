import MipsMachine.Proofs.Program.Warnings
import MipsMachine.Proofs.Simulation.Chronicle

set_option autoImplicit false

/-!
# Log events

What the log tells of a simulation, against what happens in it.  A step tells of the
instruction that it executes, if the settings ask for it, or of the fault that stops it, and
never of both.  So the events of a history tell of its moments one by one, next to the words
that the trace lists (`Tells`), and a call that fails tells of one fault, at the place where it
stands (`Concludes.failed`).
-/

namespace MipsMachine

/-! ## Told events -/

namespace Journal

/-- The log events of a level and a wording, in order. -/
def told (journal : Journal) (level : Level) (message : String) : List Event :=
  journal.events.filter fun e => e.level = level ∧ e.message = message

theorem events_append (a b : Journal) : (a ++ b).events = a.events ++ b.events := by
  simp [events]

theorem told_append (a b : Journal) (level : Level) (message : String) :
    (a ++ b).told level message = a.told level message ++ b.told level message := by
  rw [told, events_append, List.filter_append, told, told]

theorem events_logs (es : List Event) : events (es.map Emission.log).toArray = es := by
  rw [events, List.filterMap_map]
  exact List.filterMap_some

end Journal

/-- The events tell of the moments in their order, each of the instruction that is executed
there: with its place, its text and its word. -/
inductive Tells : List Simulation → List Word → List Event → Prop
  | nil : Tells [] [] []
  | cons {m : Simulation} {ms : List Simulation} {text : String} {w : Word} {ws : List Word}
      {es : List Event} (htext : m.current? = some text)
      (hexecuted : m.step.result = .ok .executed) (hrest : Tells ms ws es) :
      Tells (m :: ms) (w :: ws) (.executed m.machine.pc text w :: es)

theorem Tells.append {ms ns : List Simulation} {ws vs : List Word} {es fs : List Event}
    (h : Tells ms ws es) (h' : Tells ns vs fs) : Tells (ms ++ ns) (ws ++ vs) (es ++ fs) := by
  induction h with
  | nil => exact h'
  | cons htext hexecuted _ ih => exact .cons htext hexecuted ih

namespace Simulation

/-! ## Steps -/

theorem told_executed_showing (s : Simulation) (text : String) (i : Instruction) (e : Effect) :
    (s.showing text i e).told .debug "executed" =
      if s.settings.traceInstructions then [.executed s.machine.pc text i.encode.word]
      else [] := by
  rw [showing]
  cases s.settings.traceInstructions <;> cases s.settings.echoOutput <;> cases e.output? <;> rfl

theorem told_failed_showing (s : Simulation) (text : String) (i : Instruction) (e : Effect) :
    (s.showing text i e).told .warn "step failed" = [] := by
  rw [showing]
  cases s.settings.traceInstructions <;> cases s.settings.echoOutput <;> cases e.output? <;> rfl

/-- Between two simulations the trace got longer by the words of the moments, and the journal
tells of all of them or, if the settings do not ask for it, of none. -/
def Reports (s : Simulation) (ms : List Simulation) (journal : Journal) (t : Simulation) : Prop :=
  t.settings = s.settings ∧ ∃ ws, t.trace.toList = s.trace.toList ++ ws ∧
    if s.settings.traceInstructions then Tells ms ws (journal.told .debug "executed")
    else journal.told .debug "executed" = []

theorem reports_of_same_trace {s t : Simulation} {journal : Journal}
    (hsettings : t.settings = s.settings) (htrace : t.trace = s.trace)
    (hjournal : journal.told .debug "executed" = []) : s.Reports [] journal t := by
  refine ⟨hsettings, [], by rw [htrace, List.append_nil], ?_⟩
  rw [hjournal]
  split
  next => exact .nil
  next => rfl

theorem Reports.trans {s t u : Simulation} {ms ns : List Simulation} {first second : Journal}
    (hst : s.Reports ms first t) (htu : t.Reports ns second u) :
    s.Reports (ms ++ ns) (first ++ second) u := by
  obtain ⟨hsettings, ws, htrace, htells⟩ := hst
  obtain ⟨hsettings', ws', htrace', htells'⟩ := htu
  refine ⟨hsettings'.trans hsettings, ws ++ ws', by rw [htrace', htrace, List.append_assoc], ?_⟩
  rw [hsettings] at htells'
  rw [Journal.told_append]
  split at htells
  next hasked =>
    rw [if_pos hasked] at htells' ⊢
    exact htells.append htells'
  next hasked =>
    rw [if_neg hasked] at htells' ⊢
    rw [htells, htells', List.append_nil]

/-- An executed step tells of its own instruction. -/
theorem reports_step {s : Simulation} (h : s.step.result = .ok .executed) :
    s.Reports [s] s.step.journal s.step.state := by
  have hs := s.stepped
  generalize ho : s.step = o at h hs
  cases hs with
  | finished => cases h
  | refused => cases h
  | @executed text i e htext hresolve =>
      refine ⟨rfl, [i.encode.word], by simp [commit], ?_⟩
      rw [told_executed_showing]
      split
      next => exact .cons htext (by rw [ho]) .nil
      next => rfl

theorem reports_after {s : Simulation} {k : Nat} (h : s.Executes k) :
    s.Reports (s.moments k) (s.shown k) (s.after k) := by
  induction k generalizing s with
  | zero => exact reports_of_same_trace rfl rfl rfl
  | succ k ih =>
      obtain ⟨hfirst, hrest⟩ := executes_succ_iff.mp h
      exact (reports_step hfirst).trans (ih hrest)

theorem told_failed_step {s : Simulation} (h : s.step.result = .ok .executed) :
    s.step.journal.told .warn "step failed" = [] := by
  have hs := s.stepped
  generalize s.step = o at h hs
  cases hs with
  | finished => cases h
  | refused => cases h
  | executed => exact s.told_failed_showing _ _ _

/-- Executed steps tell of no fault. -/
theorem told_failed_shown {s : Simulation} {k : Nat} (h : s.Executes k) :
    (s.shown k).told .warn "step failed" = [] := by
  induction k generalizing s with
  | zero => rfl
  | succ k ih =>
      obtain ⟨hfirst, hrest⟩ := executes_succ_iff.mp h
      rw [shown, Journal.told_append, told_failed_step hfirst, ih hrest, List.append_nil]

/-! ## Calls -/

/-- The lines of a load are warned of between the news of the reset and of the new program. -/
theorem Returns.events_of_lines? {s : Simulation} {c : Call} {o : Outcome Answer}
    {lines : List String} (hreturns : Returns s c o) (hlines : c.lines? = some lines) :
    o.journal.events = .reset :: (Program.warnings lines ++ [.loaded o.state.program.size
      o.state.program.labels.size o.state.program.strings.size]) := by
  cases hreturns with
  | load | loadSource =>
      obtain rfl := Option.some.inj hlines
      exact (Journal.events_append _ _).trans (congrArg _ (Journal.events_logs _))
  | _ => cases hlines

theorem not_told_of_warranted {lines : List String} {e : Event} (h : Program.Warranted lines e) :
    ¬(e.level = .debug ∧ e.message = "executed") ∧
      ¬(e.level = .warn ∧ e.message = "step failed") := by
  cases h with
  | redefined | incomplete => simp [Event.level, Event.message]

/-- A load tells neither of instructions nor of faults. -/
theorem Returns.told_of_lines? {s : Simulation} {c : Call} {o : Outcome Answer}
    {lines : List String} (hreturns : Returns s c o) (hlines : c.lines? = some lines) :
    o.journal.told .debug "executed" = [] ∧ o.journal.told .warn "step failed" = [] := by
  have hevents : ∀ e ∈ o.journal.events,
      ¬(e.level = .debug ∧ e.message = "executed") ∧
        ¬(e.level = .warn ∧ e.message = "step failed") := by
    intro e he
    rw [hreturns.events_of_lines? hlines, List.mem_cons, List.mem_append, List.mem_singleton] at he
    rcases he with rfl | hwarning | rfl
    · simp [Event.level]
    · exact not_told_of_warranted (Program.mem_warnings_iff.mp hwarning)
    · simp [Event.level]
  rw [Journal.told, Journal.told, List.filter_eq_nil_iff, List.filter_eq_nil_iff]
  simp only [decide_eq_true_eq]
  exact ⟨fun e he => (hevents e he).1, fun e he => (hevents e he).2⟩

/-- A call that executes nothing tells neither of instructions nor of faults. -/
theorem Returns.told_of_not_executing {s : Simulation} {c : Call} {o : Outcome Answer}
    (hreturns : Returns s c o) (hc : ¬c.Executing) :
    o.journal.told .debug "executed" = [] ∧ o.journal.told .warn "step failed" = [] := by
  cases hreturns with
  | step | run | runFor => exact absurd trivial hc
  | load lines => exact (Returns.load lines).told_of_lines? rfl
  | loadSource source => exact (Returns.loadSource source).told_of_lines? rfl
  | _ => exact ⟨rfl, rfl⟩

theorem Concludes.told_executed {t : Simulation} {result : Except Fault Answer} {more : Journal}
    (h : Concludes t result more) : more.told .debug "executed" = [] := by
  cases h <;> rfl

/-- The report of a call that clears nothing: its moments are those of the instructions that it
executes. -/
theorem Returns.reports {s : Simulation} {c : Call} {o : Outcome Answer} {k : Nat}
    (hreturns : Returns s c o) (hc : ¬c.Clearing) (hcovers : s.Covers c k) :
    s.Reports (s.moments k) o.journal o.state := by
  by_cases hexecuting : c.Executing
  · obtain ⟨j, more, hj, hstate, hjournal, hmore⟩ := hreturns.concludes hexecuting
    obtain rfl := hj.unique hcovers
    have hsame : (s.after j).Reports [] more (s.after j) :=
      reports_of_same_trace rfl rfl hmore.told_executed
    rw [hstate, hjournal, ← List.append_nil (s.moments j)]
    exact (reports_after hj.executes).trans hsame
  · rw [hcovers.eq_zero hexecuting]
    have htold := (hreturns.told_of_not_executing hexecuting).1
    cases hreturns with
    | load | loadSource | reset => exact absurd trivial hc
    | step | run | runFor => exact absurd trivial hexecuting
    | setRegister | setMemory | setCounter | setNamedRefused =>
        exact reports_of_same_trace rfl rfl htold
    | @setNamed name value t hset =>
        obtain ⟨r, rfl⟩ := exists_eq_withRegister hset
        exact reports_of_same_trace rfl rfl htold

/-- A step or a run that fails tells of one fault, that of the next instruction, and any other
call tells of none. -/
theorem Returns.told_failed {s : Simulation} {c : Call} {o : Outcome Answer}
    (hreturns : Returns s c o) (hc : c.Executing) :
    (∀ fault, o.result = .error fault → ∃ k text, s.Covers c k ∧ o.state = s.after k ∧
      (s.after k).current? = some text ∧ (s.after k).step.result = .error fault ∧
      o.journal.told .warn "step failed" = [.stepFailed o.state.machine.pc text fault]) ∧
    (∀ answer, o.result = .ok answer → o.journal.told .warn "step failed" = []) := by
  obtain ⟨k, more, hcovers, hstate, hjournal, hmore⟩ := hreturns.concludes hc
  rw [hjournal, Journal.told_append, told_failed_shown hcovers.executes, List.nil_append, hstate]
  generalize o.result = result at hmore
  cases hmore with
  | stopped | finished =>
      refine ⟨fun fault h => (by cases h), fun answer h => rfl⟩
  | failed htext hfault =>
      refine ⟨?_, fun answer h => (by cases h)⟩
      intro fault h
      obtain rfl := Except.error.inj h
      exact ⟨k, _, hcovers, rfl, htext, hfault, rfl⟩

/-! ## Histories -/

/-- Calls of the allowed kind lead from one simulation to another: the instructions that they
execute are executed in the listed moments, and this is what they show. -/
inductive Journaled (allowed : Call → Prop) (s : Simulation) :
    List Simulation → Journal → Simulation → Prop
  | start : Journaled allowed s [] #[] s
  | call {ms : List Simulation} {shown : Journal} {t : Simulation} {c : Call}
      {o : Outcome Answer} {k : Nat} (before : Journaled allowed s ms shown t)
      (hallowed : allowed c) (hreturns : Returns t c o) (hcovers : t.Covers c k) :
      Journaled allowed s (ms ++ t.moments k) (shown ++ o.journal) o.state

theorem Journaled.runFor {allowed : Call → Prop} {s t : Simulation} {ms : List Simulation}
    {shown : Journal} {n k : Nat} (h : Journaled allowed s ms shown t)
    (hallowed : allowed (.runFor n)) (hstops : t.StopsAfter n k) :
    Journaled allowed s (ms ++ t.moments k) (shown ++ (t.runFor n).journal) (t.runFor n).state :=
  .call h hallowed (.runFor n) hstops.covers

theorem Reaches.exists_journaled {allowed : Call → Prop} {s t : Simulation}
    (h : Reaches allowed s t) :
    ∃ ms shown, Journaled allowed s ms shown t := by
  induction h with
  | refl => exact ⟨[], #[], .start⟩
  | call _ hallowed hreturns ih =>
      obtain ⟨ms, shown, hms⟩ := ih
      obtain ⟨k, hk, -⟩ := hreturns.exists_covers
      exact ⟨_, _, .call hms hallowed hreturns hk⟩

theorem Journaled.reports {s t : Simulation} {ms : List Simulation} {shown : Journal}
    (h : Journaled (fun c => ¬c.Clearing) s ms shown t) : s.Reports ms shown t := by
  induction h with
  | start => exact reports_of_same_trace rfl rfl rfl
  | call _ hallowed hreturns hcovers ih => exact ih.trans (hreturns.reports hallowed hcovers)

/-- The log is an exact account.  A load warns of the lines that define a label again and of
the directives with too few words, of each once and in their order, so labels and warnings of
redefinition are as many as the lines that define a label.  From then on the log tells of the
executed instructions one by one, along with the trace, if the settings ask for it, and
otherwise of none.  A step or a run that fails tells of its fault once, at the place where it
stands, and nothing else tells of a fault. -/
theorem log_is_exact_account {s₀ : Simulation} {c : Call} {o : Outcome Answer}
    {lines : List String} (hreturns : Returns s₀ c o) (hlines : c.lines? = some lines) :
    o.journal.events = .reset :: (Program.warnings lines ++
      [.loaded o.state.program.size o.state.program.labels.size o.state.program.strings.size]) ∧
    (∀ e, e ∈ Program.warnings lines ↔ Program.Warranted lines e) ∧
    ((Program.warnings lines).Pairwise fun a b => a.position < b.position) ∧
    o.state.program.labels.size +
      ((Program.warnings lines).countP fun e => decide e.IsRedefinition) =
      lines.countP (fun line => decide (Statement.DefinesLabel line)) ∧
    (∀ s, Reaches (fun c => ¬c.Clearing) o.state s →
      ∃ ms shown, Journaled (fun c => ¬c.Clearing) o.state ms shown s) ∧
    (∀ ms shown s, Journaled (fun c => ¬c.Clearing) o.state ms shown s →
      if s₀.settings.traceInstructions then Tells ms s.trace.toList (shown.told .debug "executed")
      else shown.told .debug "executed" = []) ∧
    (∀ s c o, Returns s c o → c.Executing →
      (∀ fault, o.result = .error fault → ∃ k text, s.Covers c k ∧ o.state = s.after k ∧
        (s.after k).current? = some text ∧ (s.after k).step.result = .error fault ∧
        o.journal.told .warn "step failed" = [.stepFailed o.state.machine.pc text fault]) ∧
      (∀ answer, o.result = .ok answer → o.journal.told .warn "step failed" = [])) ∧
    (∀ s c o, Returns s c o → ¬c.Executing →
      o.journal.told .debug "executed" = [] ∧ o.journal.told .warn "step failed" = []) := by
  have hload := hreturns.state_eq_load hlines
  refine ⟨hreturns.events_of_lines? hlines, fun e => Program.mem_warnings_iff,
    Program.pairwise_position_warnings lines, ?_, ?_, ?_, ?_, ?_⟩
  · rw [hload]
    exact Program.size_labels_add_countP lines
  · intro s hreaches
    exact hreaches.exists_journaled
  · intro ms shown s hjournaled
    obtain ⟨-, ws, htrace, htells⟩ := hjournaled.reports
    rw [hload] at htrace htells
    -- a load leaves the settings, and nothing in the trace
    obtain rfl : s.trace.toList = ws := htrace
    exact htells
  · intro s c o hcall hexecuting
    exact hcall.told_failed hexecuting
  · intro s c o hcall hexecuting
    exact hcall.told_of_not_executing hexecuting

/-- A directive without a text behind a line without code, a label that is defined twice, and
two runs of which the second comes to a text that cannot be read. -/
theorem log_is_exact_account_of_redefined_label :
    let lines := ["x: addi $t0, $zero, 1", "# y:", ".data y", "x: print $t0", "leap"]
    let s := idle (.initial .t0) { traceInstructions := true }
    let loaded := (s.load lines).state
    let t := (loaded.runFor 1).state
    (s.load lines).journal.events =
        [.reset, .directiveIgnored 3 ".data y", .labelRedefined 4 "x", .loaded 3 1 0] ∧
      1 + [Event.directiveIgnored 3 ".data y", .labelRedefined 4 "x"].countP
          (fun e => decide e.IsRedefinition) =
        lines.countP (fun line => decide (Statement.DefinesLabel line)) ∧
      Tells (loaded.moments 1 ++ t.moments 1) (t.runFor 9).state.trace.toList
        (((loaded.runFor 1).journal ++ (t.runFor 9).journal).told .debug "executed") ∧
      (t.runFor 9).journal.told .warn "step failed" =
        [.stepFailed 2 "leap" (.unknownMnemonic "LEAP")] := by
  intro lines s loaded t
  have hruns : loaded.StopsAfter 1 1 ∧ t.StopsAfter 9 1 ∧
      (t.runFor 9).result = .error (.unknownMnemonic "LEAP") := by
    decide +kernel
  obtain ⟨hfirst, hsecond, hresult⟩ := hruns
  have hevaluated :
      Program.warnings lines = [.directiveIgnored 3 ".data y", .labelRedefined 4 "x"] ∧
      loaded.program.size = 3 ∧ loaded.program.labels.size = 1 ∧ loaded.program.strings.size = 0 ∧
      (t.after 1).current? = some "leap" ∧ (t.after 1).machine.pc = 2 := by
    decide +kernel
  obtain ⟨hwarnings, hsize, hlabels, hstrings, htext, hpc⟩ := hevaluated
  have hloaded : Returns s (.load lines) ((s.load lines).map fun _ => .done) := .load lines
  obtain ⟨hevents, -, -, hcount, -, htells, hfails, -⟩ := log_is_exact_account hloaded rfl
  rw [Outcome.state_map, hwarnings, hlabels] at hcount
  rw [Outcome.journal_map, Outcome.state_map, hwarnings, hsize, hlabels, hstrings] at hevents
  have hjournaled : Journaled (fun c => ¬c.Clearing) loaded (loaded.moments 1 ++ t.moments 1)
      ((loaded.runFor 1).journal ++ (t.runFor 9).journal) (t.runFor 9).state := by
    have hone : Journaled (fun c => ¬c.Clearing) loaded ([] ++ loaded.moments 1)
        (#[] ++ (loaded.runFor 1).journal) t :=
      Journaled.start.runFor (fun h => h) hfirst
    rw [List.nil_append, Array.empty_append] at hone
    exact hone.runFor (fun h => h) hsecond
  refine ⟨hevents, hcount, htells _ _ _ hjournaled, ?_⟩
  obtain ⟨k, text, hcovers, hstate, hcurrent, -, htold⟩ :=
    (hfails t (.runFor 9) _ (.runFor 9) trivial).1 (.unknownMnemonic "LEAP")
      (by rw [Outcome.map, hresult]; rfl)
  obtain rfl := hcovers.unique hsecond.covers
  obtain rfl := Option.some.inj (htext.symm.trans hcurrent)
  rw [hstate, hpc, Outcome.journal_map] at htold
  exact htold

end Simulation

end MipsMachine
