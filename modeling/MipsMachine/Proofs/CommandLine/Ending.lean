import MipsMachine.CommandLine.Ending
import MipsMachine.Proofs.Session
import MipsMachine.Proofs.Simulation.Independence

set_option autoImplicit false

/-!
# Sessions and batch runs

A run that is stepped through with a user ends as the run would that executes, all at once, as
many instructions as the user asked for within the limit: with the same fault or count, in the
same state, with the same complaint and report, and with the same exit code
(`session_agrees_with_batch`).  The two differ in their settings only, as a session logs its
instructions, and in what they show on the way.
-/

namespace MipsMachine

/-- A file with the bytes of a text reads as the text. -/
theorem FileBytes.text_toUTF8 (text : String) : FileBytes.text (.ok text.toUTF8) = .ok text := by
  have hread : String.fromUTF8? text.toUTF8 = some text := dif_pos text.isValidUTF8
  simp only [FileBytes.text, hread]

/-- Only a file with the bytes of a text reads as the text. -/
theorem FileBytes.text_eq_ok_iff {file : FileBytes} {text : String} :
    file.text = .ok text ↔ file = .ok text.toUTF8 := by
  constructor
  · intro h
    cases file with
    | error fault => cases h
    | ok bytes =>
        by_cases hvalid : bytes.IsValidUTF8
        · have hread : String.fromUTF8? bytes = some (String.fromUTF8 bytes hvalid) :=
            dif_pos hvalid
          simp only [FileBytes.text, hread, Except.ok.injEq] at h
          rw [← h]
          rfl
        · have hread : String.fromUTF8? bytes = none := dif_neg hvalid
          simp only [FileBytes.text, hread] at h
          cases h
  · rintro rfl
    exact FileBytes.text_toUTF8 text

/-! ## Nothing for the standard error -/

namespace Journal

/-- Nothing in the journal goes to the standard error, the log aside. -/
def Quiet (journal : Journal) : Prop := ∀ text, Emission.err text ∉ journal

theorem quiet_append_iff {a b : Journal} : Quiet (a ++ b) ↔ a.Quiet ∧ b.Quiet := by
  simp only [Quiet, Array.mem_append, not_or, forall_and]

theorem quiet_empty : Quiet #[] := by simp [Quiet]

theorem quiet_out (text : String) : Quiet #[.out text] := by simp [Quiet]

theorem quiet_logs (events : List Event) :
    Quiet (events.map Emission.log).toArray := by simp [Quiet]

theorem Quiet.stderr_append {a : Journal} (h : a.Quiet) (b : Journal) :
    (a ++ b).stderr = b.stderr := by
  rw [stderr, stderr, Array.toList_append, List.filterMap_append, List.filterMap_eq_nil_iff.mpr ?_,
    List.nil_append]
  intro emission hmem
  cases emission with
  | log | out => rfl
  | err text => exact absurd (Array.mem_def.mpr hmem) (h text)

end Journal

namespace Simulation

theorem quiet_step (s : Simulation) : s.step.journal.Quiet := by
  have hs := s.stepped
  generalize s.step = o at hs
  cases hs with
  | finished => exact Journal.quiet_empty
  | refused => exact Journal.quiet_logs [_]
  | @executed text i e =>
      refine Journal.quiet_append_iff.mpr ⟨?_, ?_⟩
      · cases s.settings.traceInstructions with
        | true => exact Journal.quiet_logs [_]
        | false => exact Journal.quiet_empty
      · cases s.settings.echoOutput with
        | true => cases e.output? <;> simp [Journal.Quiet]
        | false => exact Journal.quiet_empty

theorem quiet_shown (s : Simulation) (k : Nat) : (s.shown k).Quiet := by
  induction k generalizing s with
  | zero => exact Journal.quiet_empty
  | succ k ih => exact Journal.quiet_append_iff.mpr ⟨s.quiet_step, ih s.step.state⟩

theorem Concludes.quiet {t : Simulation} {result : Except Fault Answer} {more : Journal}
    (h : Concludes t result more) : more.Quiet := by
  cases h with
  | stopped => exact Journal.quiet_empty
  | finished | failed => exact Journal.quiet_logs [_]

theorem quiet_runFor (s : Simulation) (n : Nat) : (s.runFor n).journal.Quiet := by
  obtain ⟨k, more, -, -, hjournal, hmore⟩ := s.runFor_concludes n
  rw [hjournal]
  exact Journal.quiet_append_iff.mpr ⟨s.quiet_shown k, hmore.quiet⟩

theorem quiet_loadSource (s : Simulation) (source : String) :
    (s.loadSource source).journal.Quiet :=
  Journal.quiet_append_iff.mpr ⟨Journal.quiet_logs [_], Journal.quiet_logs _⟩

end Simulation

namespace Session

theorem Shows.quiet {s : Simulation} {n : Nat} {journal : Journal} (h : Shows s n journal) :
    journal.Quiet := by
  induction h with
  | nothing => exact Journal.quiet_empty
  | @turn s n prompt added journal hprompt hexecuted hadded hrest ih =>
      simp only [Journal.quiet_append_iff]
      refine ⟨⟨⟨Journal.quiet_out prompt, s.quiet_step⟩, ?_⟩, ih⟩
      simp [Journal.Quiet]

theorem Closes.quiet {s : Simulation} {journal : Journal} (h : Closes s journal) :
    journal.Quiet := by
  cases h with
  | ended => exact Journal.quiet_empty
  | left => exact Journal.quiet_out _
  | failed => exact Journal.quiet_append_iff.mpr ⟨Journal.quiet_out _, s.quiet_step⟩

theorem quiet_follow (x : Session) (lines : List InputLine) : (x.follow lines).journal.Quiet := by
  obtain ⟨n, turns, closing, hjournal, -, hshows, hcloses⟩ := (x.goes_follow lines).exists_shows
  rw [hjournal]
  exact Journal.quiet_append_iff.mpr ⟨hshows.quiet, hcloses.quiet⟩

end Session

namespace CommandLine.RunOptions

/-! ## The batch run of a session -/

/-- How many instructions a session executes at most: one for each line that asks for it,
within the limit if there is one. -/
def bound (o : RunOptions) (input : List InputLine) : Nat :=
  match o.maxSteps? with
  | none => InputLine.steps input
  | some limit => min (InputLine.steps input) limit

/-- The same run, but executed all at once, up to so many instructions. -/
def batch (o : RunOptions) (limit : Nat) : RunOptions :=
  { o with step := false, maxSteps? := some limit }

theorem allowance_session (o : RunOptions) (s : Simulation) (input : List InputLine) :
    (o.session s).allowance input = o.bound input := by
  rw [Session.allowance, session, bound]
  cases o.maxSteps? <;> rfl

/-- A session comes to the result and the state of a bounded run. -/
theorem follow_session (o : RunOptions) (s : Simulation) (input : List InputLine) :
    ((o.session s).follow input).result = (s.runFor (o.bound input)).result ∧
      ((o.session s).follow input).state = (s.runFor (o.bound input)).state := by
  have h := ((o.session s).goes_follow input).eq_runForFrom #[]
  rwa [allowance_session] at h

/-- A run starts if its settings and its source text can be had, and the settings name a
register for products. -/
theorem prepare_eq_ok_iff {o : RunOptions} {readFile : String → FileBytes}
    {loaded : Outcome Unit} :
    o.prepare readFile = .ok loaded ↔
      ∃ settings source, o.settings readFile = .ok settings ∧ (readFile o.file).text = .ok source ∧
        ∃ product, settings.product = .ok product ∧
          (Simulation.idle (.initial product) settings).loadSource source = loaded := by
  rw [prepare]
  cases o.settings readFile with
  | error fault => simp
  | ok settings =>
      cases (readFile o.file).text with
      | error fault => simp
      | ok source =>
          cases hproduct : settings.product with
          | error fault => simp [Simulation.ofSettings, hproduct]
          | ok product => simp [Simulation.ofSettings, hproduct]

theorem quiet_of_prepare {o : RunOptions} {readFile : String → FileBytes} {loaded : Outcome Unit}
    (h : o.prepare readFile = .ok loaded) : loaded.journal.Quiet := by
  obtain ⟨settings, source, -, -, product, -, rfl⟩ := prepare_eq_ok_iff.mp h
  exact Simulation.quiet_loadSource _ source

/-- A batch run may log less than a session; the other settings are the same. -/
theorem exists_settings_batch {o : RunOptions} {readFile : String → FileBytes}
    {settings : Settings} (h : o.settings readFile = .ok settings) (limit : Nat) :
    ∃ traceInstructions, (o.batch limit).settings readFile =
      .ok { settings with traceInstructions } := by
  rw [RunOptions.settings] at h
  rw [RunOptions.settings]
  cases hconfig : o.config? with
  | none =>
      rw [hconfig] at h
      obtain rfl := Except.ok.inj h
      exact ⟨false, by simp [batch, hconfig]⟩
  | some path =>
      cases hfile : Settings.ofFile (readFile path) with
      | error fault => simp [hconfig, hfile] at h
      | ok given =>
          simp only [hconfig, hfile, Except.ok.injEq] at h
          obtain rfl := h
          exact ⟨given.traceInstructions || false, by simp [batch, hconfig, hfile]⟩

/-- The batch run starts from the same program on the same machine; it may have other settings. -/
theorem exists_prepare_batch {o : RunOptions} {readFile : String → FileBytes}
    {loaded : Outcome Unit} (h : o.prepare readFile = .ok loaded) (limit : Nat) :
    ∃ loaded', (o.batch limit).prepare readFile = .ok loaded' ∧
      ∃ settings, loaded'.state = { loaded.state with settings } := by
  obtain ⟨settings, source, hsettings, hsource, product, hproduct, rfl⟩ := prepare_eq_ok_iff.mp h
  obtain ⟨traceInstructions, hbatch⟩ := exists_settings_batch hsettings limit
  exact ⟨_, prepare_eq_ok_iff.mpr ⟨_, source, hbatch, hsource, product, hproduct, rfl⟩, _, rfl⟩

/-! ## How runs are concluded -/

/-- The exit code of a run. -/
def exitCode : Except Fault Nat → UInt32
  | .ok _ => 0
  | .error _ => 1

/-- What is shown when a run is over: the complaint of a fault, and the final state. -/
def closing (o : RunOptions) (result : Except Fault Nat) (s : Simulation) : Journal :=
  match result with
  | .ok _ => o.finalState s
  | .error fault => complaint s fault ++ o.finalState s

theorem conclude_eq (o : RunOptions) (ran : Outcome Nat) :
    o.conclude ran = ⟨exitCode ran.result, ran.journal ++ o.closing ran.result ran.state⟩ := by
  cases hresult : ran.result with
  | ok n => simp only [conclude, hresult, closing, exitCode]
  | error fault => simp only [conclude, hresult, closing, exitCode, Array.append_assoc]

theorem closing_batch (o : RunOptions) (limit : Nat) (result : Except Fault Nat) (s : Simulation)
    (settings : Settings) :
    (o.batch limit).closing result { s with settings } = o.closing result s := rfl

theorem exitCode_eq_zero_iff {result : Except Fault Nat} :
    exitCode result = 0 ↔ ∃ n, result = .ok n := by
  cases result <;> simp [exitCode]

theorem exitCode_eq_one_iff {result : Except Fault Nat} :
    exitCode result = 1 ↔ ∃ fault, result = .error fault := by
  cases result <;> simp [exitCode]

theorem perform?_of_session {o : RunOptions} {found : Surroundings} {loaded : Outcome Unit}
    {ran : Outcome Nat} (hstep : o.step = true) (hprepare : o.prepare found.readFile = .ok loaded)
    (hran : (o.session loaded.state).follow found.input = ran) (fuel : Nat) :
    o.perform? fuel found =
      some ⟨exitCode ran.result,
        loaded.journal ++ ran.journal ++ o.closing ran.result ran.state⟩ := by
  rw [perform?, hprepare]
  simp only [hstep, if_true, Option.map_some, conclude_eq, hran]

theorem perform?_of_batch {o : RunOptions} {readFile : String → FileBytes} {loaded : Outcome Unit}
    {limit : Nat} (hprepare : (o.batch limit).prepare readFile = .ok loaded) (fuel : Nat)
    (input : List InputLine) :
    (o.batch limit).perform? fuel ⟨readFile, input⟩ =
      some ⟨exitCode (loaded.state.runFor limit).result,
        loaded.journal ++ (loaded.state.runFor limit).journal ++
        (o.batch limit).closing (loaded.state.runFor limit).result
          (loaded.state.runFor limit).state⟩ := by
  rw [perform?, hprepare]
  simp only [execute?, batch, Bool.false_eq_true, if_false, Option.map_some, conclude_eq]

/-- With other settings a bounded run has the same result, and it leaves the same but for the
settings. -/
theorem runFor_settings (s : Simulation) (settings : Settings) (n : Nat) :
    ({ s with settings }.runFor n).result = (s.runFor n).result ∧
      ({ s with settings }.runFor n).state = { (s.runFor n).state with settings } := by
  obtain ⟨hresult, hstate⟩ := (Simulation.lockstep_settings settings).runFor (s := s) rfl n
  exact ⟨hresult.symm, hstate⟩

/-- A session executes what a bounded run executes that starts from the same program: one
instruction for each line in front of the first that ends the session, within the limit.
Behind each instruction it shows the lines that this one added to the output.  A batch run with
this bound ends in the same way: with the same complaint and the same report, with nothing else
for the standard error, and with the same exit code, which is 1 exactly if an instruction
failed. -/
theorem session_agrees_with_batch {o : RunOptions} {found : Surroundings} {loaded : Outcome Unit}
    {ran : Outcome Nat} (hstep : o.step = true) (hprepare : o.prepare found.readFile = .ok loaded)
    (hran : (o.session loaded.state).follow found.input = ran) :
    (ran.result = (loaded.state.runFor (o.bound found.input)).result ∧
      ran.state = (loaded.state.runFor (o.bound found.input)).state) ∧
    (∃ n turns last, ran.journal = turns ++ last ∧ ran.state = loaded.state.after n ∧
      Session.Shows loaded.state n turns ∧ Session.Closes ran.state last) ∧
    ∃ (loaded' : Outcome Unit) (ran' : Outcome Nat) (code : UInt32) (closing : Journal),
      (o.batch (o.bound found.input)).prepare found.readFile = .ok loaded' ∧
      loaded'.state.runFor (o.bound found.input) = ran' ∧
      ran'.result = ran.result ∧ ran'.state.snapshot = ran.state.snapshot ∧
      (∀ fuel, o.perform? fuel found = some ⟨code, loaded.journal ++ ran.journal ++ closing⟩) ∧
      (∀ fuel input, (o.batch (o.bound found.input)).perform? fuel { found with input } =
        some ⟨code, loaded'.journal ++ ran'.journal ++ closing⟩) ∧
      (loaded.journal ++ ran.journal ++ closing).stderr = closing.stderr ∧
      (loaded'.journal ++ ran'.journal ++ closing).stderr = closing.stderr ∧
      closing = o.closing ran.result ran.state ∧
      (code = 0 ↔ ∃ n, ran.result = .ok n) ∧ (code = 1 ↔ ∃ fault, ran.result = .error fault) := by
  have hsame : ran.result = (loaded.state.runFor (o.bound found.input)).result ∧
      ran.state = (loaded.state.runFor (o.bound found.input)).state := by
    rw [← hran]
    exact o.follow_session loaded.state found.input
  refine ⟨hsame, ?_, ?_⟩
  · rw [← hran]
    exact (Session.goes_follow _ _).exists_shows
  · obtain ⟨hresult, hstate⟩ := hsame
    obtain ⟨loaded', hbatch, settings, hloaded⟩ :=
      exists_prepare_batch hprepare (o.bound found.input)
    obtain ⟨hresult', hstate'⟩ := runFor_settings loaded.state settings (o.bound found.input)
    rw [← hloaded, ← hresult] at hresult'
    rw [← hloaded, ← hstate] at hstate'
    have hquiet : (loaded.journal ++ ran.journal).Quiet :=
      Journal.quiet_append_iff.mpr ⟨quiet_of_prepare hprepare, hran ▸ Session.quiet_follow _ _⟩
    have hquiet' :
        (loaded'.journal ++ (loaded'.state.runFor (o.bound found.input)).journal).Quiet :=
      Journal.quiet_append_iff.mpr ⟨quiet_of_prepare hbatch, Simulation.quiet_runFor _ _⟩
    refine ⟨loaded', _, exitCode ran.result, o.closing ran.result ran.state, hbatch, rfl,
      hresult', ?_, perform?_of_session hstep hprepare hran, ?_, hquiet.stderr_append _,
      hquiet'.stderr_append _, rfl, exitCode_eq_zero_iff, exitCode_eq_one_iff⟩
    · rw [hstate']
      rfl
    · intro fuel input
      rw [perform?_of_batch hbatch, hresult', hstate', closing_batch]

/-- Three lines that ask for an instruction, the third of which is none; the line behind them
is no text. -/
theorem session_agrees_with_batch_at_unknown_mnemonic :
    let source := "addi $t0, $zero, 7\nprint $t0\nleap"
    let o : RunOptions := { file := "a.asm", step := true, maxSteps? := some 9 }
    let found : Surroundings :=
      { readFile := fun _ => .ok source.toUTF8,
        input := [some "", some " go ", some "\r", none, some ""] }
    let loaded := (Simulation.idle (.initial .t0) { traceInstructions := true }).loadSource source
    let ran := (o.session loaded.state).follow found.input
    o.bound found.input = 3 ∧ ran.state = (loaded.state.runFor 3).state ∧
      ran.state.output = #["7"] ∧
      ran.journal.stdout = "[   0] addi $t0, $zero, 7  (Enter to step, q to quit) " ++
        "[   1] print $t0  (Enter to step, q to quit)        > 7\n" ++
        "[   2] leap  (Enter to step, q to quit) " ∧
      ∃ shown shown' closing, o.perform? 0 found = some ⟨1, shown ++ closing⟩ ∧
        (o.batch 3).perform? 0 found = some ⟨1, shown' ++ closing⟩ ∧
        (shown ++ closing).stderr =
          "\n[!] unrecognized instruction: LEAP at instruction 2: leap\n" ∧
        (shown' ++ closing).stderr = (shown ++ closing).stderr := by
  intro source o found loaded ran
  have hprepare : o.prepare found.readFile = .ok loaded :=
    prepare_eq_ok_iff.mpr ⟨_, source, rfl, FileBytes.text_toUTF8 source, .t0, by rfl, rfl⟩
  have hevaluated : o.bound found.input = 3 ∧ ran.result = .error (.unknownMnemonic "LEAP") ∧
      ran.state.output = #["7"] ∧
      ran.journal.stdout = "[   0] addi $t0, $zero, 7  (Enter to step, q to quit) " ++
        "[   1] print $t0  (Enter to step, q to quit)        > 7\n" ++
        "[   2] leap  (Enter to step, q to quit) " ∧
      (o.closing ran.result ran.state).stderr =
        "\n[!] unrecognized instruction: LEAP at instruction 2: leap\n" := by
    decide +kernel
  obtain ⟨hbound, hfault, houtput, hstdout, hcomplaint⟩ := hevaluated
  obtain ⟨⟨-, hstate⟩, -, loaded', ran', code, closing, -, -, -, -, hsession, hbatch, hstderr,
    hstderr', hclosing, -, hcode⟩ := session_agrees_with_batch rfl hprepare rfl
  rw [hbound] at hstate hbatch
  obtain rfl : code = 1 := hcode.mpr ⟨_, hfault⟩
  refine ⟨hbound, hstate, houtput, hstdout, _, _, closing, hsession 0, hbatch 0 found.input, ?_,
    hstderr'.trans hstderr.symm⟩
  rw [hstderr, hclosing]
  exact hcomplaint

end CommandLine.RunOptions

end MipsMachine
