import MipsMachine.Proofs.Simulation.Record
import MipsMachine.Session

set_option autoImplicit false

/-!
# What sessions come to

A session executes as many instructions as the input asks for and the limit leaves, so it comes
to the same as a run with that bound (`Goes.eq_runForFrom`).  `Goes` lists the ways a session
goes on, and all that is said about sessions is an induction on it.  What is shown of an
executed instruction ends with the lines that it added to the output (`Shows`).
-/

namespace MipsMachine

namespace InputLine

/-- The line ends a session: it is `q` between blanks, or it is no text. -/
def Quits : InputLine → Prop
  | some line => Text.trim line.toList = ['q']
  | none => True

instance : DecidablePred Quits
  | some line => inferInstanceAs (Decidable (Text.trim line.toList = ['q']))
  | none => inferInstanceAs (Decidable True)

theorem goesOn_iff {line : InputLine} : line.goesOn = true ↔ ¬line.Quits := by
  cases line with
  | none => simp [goesOn, Quits]
  | some text => simp [goesOn, Quits]

/-- The number of lines in front of the first that ends a session, or of all lines. -/
def steps (lines : List InputLine) : Nat := lines.findIdx (decide ·.Quits)

theorem steps_cons_of_quits {line : InputLine} (h : line.Quits) (lines : List InputLine) :
    steps (line :: lines) = 0 := by
  simp [steps, List.findIdx_cons, h]

theorem steps_cons_of_not_quits {line : InputLine} (h : ¬line.Quits) (lines : List InputLine) :
    steps (line :: lines) = steps lines + 1 := by
  simp [steps, List.findIdx_cons, h]

end InputLine

namespace Session

/-! ## How a session goes on -/

/-- The limit is reached. -/
def Exhausted (x : Session) : Prop := ∃ limit, x.limit? = some limit ∧ limit ≤ x.executed

/-- The session after an executed instruction. -/
def next (x : Session) : Session :=
  { x with simulation := x.simulation.step.state, executed := x.executed + 1 }

/-- The ways in which a session goes on lines of input, each with what it comes to. -/
inductive Goes : Session → List InputLine → Outcome Nat → Prop
  /-- The limit is reached, or the program has ended. -/
  | ended {x : Session} {lines : List InputLine} (hprompt : x.prompt? = none) :
      Goes x lines (x.leave #[])
  /-- The session asks, and there is no line or one that ends it. -/
  | left {x : Session} {lines : List InputLine} {prompt : String}
      (hprompt : x.prompt? = some prompt) (hquits : ∀ line ∈ lines.head?, line.Quits) :
      Goes x lines (x.leave #[.out prompt])
  /-- The next instruction is refused. -/
  | failed {x : Session} {line : InputLine} {lines : List InputLine} {prompt : String}
      {fault : Fault} (hprompt : x.prompt? = some prompt) (hline : ¬line.Quits)
      (hfault : x.simulation.step.result = .error fault) :
      Goes x (line :: lines)
        ⟨.error fault, x.simulation.step.state, #[.out prompt] ++ x.simulation.step.journal⟩
  /-- The next instruction is executed, and the session goes on. -/
  | executed {x : Session} {line : InputLine} {lines : List InputLine} {prompt : String}
      {o : Outcome Nat} (hprompt : x.prompt? = some prompt) (hline : ¬line.Quits)
      (hexecuted : x.simulation.step.result = .ok .executed) (hrest : Goes x.next lines o) :
      Goes x (line :: lines)
        { o with
          journal := #[.out prompt] ++ x.simulation.step.journal ++
            printed x.simulation x.simulation.step.state ++ o.journal }

theorem prompt?_eq_none_iff {x : Session} :
    x.prompt? = none ↔ x.Exhausted ∨ x.simulation.current? = none := by
  rw [prompt?, Exhausted]
  cases x.limit? with
  | none => simp
  | some limit => by_cases h : limit ≤ x.executed <;> simp [h]

theorem answer_of_quits {x : Session} {line : InputLine} (h : line.Quits) :
    x.answer line = .over (x.leave #[]) := by
  have hline : ¬line.goesOn = true := mt InputLine.goesOn_iff.mp (not_not.mpr h)
  rw [answer, if_neg hline]

theorem answer_of_executed {x : Session} {line : InputLine} (hline : ¬line.Quits)
    (h : x.simulation.step.result = .ok .executed) :
    x.answer line =
      .next x.next (x.simulation.step.journal ++
        printed x.simulation x.simulation.step.state) := by
  rw [answer, if_pos (InputLine.goesOn_iff.mpr hline), advance, Simulation.step_eq_of_executed h]
  rfl

theorem answer_of_error {x : Session} {line : InputLine} {fault : Fault} (hline : ¬line.Quits)
    (h : x.simulation.step.result = .error fault) :
    x.answer line = .over ⟨.error fault, x.simulation.step.state, x.simulation.step.journal⟩ := by
  rw [answer, if_pos (InputLine.goesOn_iff.mpr hline), advance, Simulation.step_eq_of_error h]

/-- A refused instruction leaves the simulation in which it was refused. -/
theorem state_step_of_error {x : Session} {fault : Fault}
    (h : x.simulation.step.result = .error fault) :
    x.simulation.step.state = x.simulation :=
  Simulation.step_state_of_not_executed (by simp [h])

/-- A session that asks for a line has an instruction to execute. -/
theorem step_ne_finished_of_prompt? {x : Session} {prompt : String} (h : x.prompt? = some prompt) :
    x.simulation.step.result ≠ .ok .finished := by
  intro hfinished
  rw [Simulation.step_result_eq_finished_iff] at hfinished
  rw [prompt?_eq_none_iff.mpr (Or.inr hfinished)] at h
  cases h

theorem exists_goes (x : Session) (shown : Journal) (lines : List InputLine) :
    ∃ o, Goes x lines o ∧ x.followFrom shown lines = { o with journal := shown ++ o.journal } := by
  induction lines generalizing x shown with
  | nil =>
      cases hprompt : x.prompt? with
      | none => exact ⟨_, .ended hprompt, by simp [followFrom, hprompt, leave]⟩
      | some prompt =>
          exact ⟨_, .left hprompt (by simp), by simp [followFrom, hprompt, leave]⟩
  | cons line lines ih =>
      cases hprompt : x.prompt? with
      | none => exact ⟨_, .ended hprompt, by simp [followFrom, hprompt, leave]⟩
      | some prompt =>
          by_cases hquits : line.Quits
          · refine ⟨_, .left hprompt (by simp [hquits]), ?_⟩
            simp [followFrom, hprompt, answer_of_quits hquits, leave]
          · cases hresult : x.simulation.step.result with
            | error fault =>
                refine ⟨_, .failed hprompt hquits hresult, ?_⟩
                simp [followFrom, hprompt, answer_of_error hquits hresult]
            | ok r =>
                cases r with
                | finished => exact absurd hresult (step_ne_finished_of_prompt? hprompt)
                | executed =>
                    obtain ⟨o, hgoes, hrest⟩ := ih x.next (shown.push (.out prompt) ++
                      (x.simulation.step.journal ++ printed x.simulation x.simulation.step.state))
                    refine ⟨_, .executed hprompt hquits hresult hgoes, ?_⟩
                    simp [followFrom, hprompt, answer_of_executed hquits hresult, hrest]

/-- What a session comes to is found among the ways listed. -/
theorem goes_follow (x : Session) (lines : List InputLine) : x.Goes lines (x.follow lines) := by
  obtain ⟨o, hgoes, hfollow⟩ := x.exists_goes #[] lines
  rw [Array.empty_append] at hfollow
  rwa [follow, hfollow]

/-! ## Sessions and bounded runs -/

/-- The number of instructions that a session may execute on lines of input. -/
def allowance (x : Session) (lines : List InputLine) : Nat :=
  match x.limit? with
  | none => InputLine.steps lines
  | some limit => min (InputLine.steps lines) (limit - x.executed)

theorem allowance_of_exhausted {x : Session} (h : x.Exhausted) (lines : List InputLine) :
    x.allowance lines = 0 := by
  obtain ⟨limit, hlimit, hle⟩ := h
  rw [allowance, hlimit]
  exact Nat.min_eq_zero_iff.mpr (Or.inr (Nat.sub_eq_zero_of_le hle))

theorem allowance_of_quits {x : Session} {lines : List InputLine}
    (h : ∀ line ∈ lines.head?, line.Quits) :
    x.allowance lines = 0 := by
  have hsteps : InputLine.steps lines = 0 := by
    cases lines with
    | nil => rfl
    | cons line lines => exact InputLine.steps_cons_of_quits (h line rfl) lines
  rw [allowance, hsteps]
  cases x.limit? <;> simp

theorem allowance_cons {x : Session} {line : InputLine} (hline : ¬line.Quits) (h : ¬x.Exhausted)
    (lines : List InputLine) : x.allowance (line :: lines) = x.next.allowance lines + 1 := by
  rw [allowance, allowance, InputLine.steps_cons_of_not_quits hline, next]
  cases hlimit : x.limit? with
  | none => rfl
  | some limit =>
      have hlt : x.executed < limit := Nat.lt_of_not_le fun hle => h ⟨limit, hlimit, hle⟩
      simp only
      omega

theorem not_exhausted_of_prompt? {x : Session} {prompt : String} (h : x.prompt? = some prompt) :
    ¬x.Exhausted := by
  intro hexhausted
  rw [prompt?_eq_none_iff.mpr (Or.inl hexhausted)] at h
  cases h

/-- A session comes to what a run comes to whose bound is the allowance. -/
theorem Goes.eq_runForFrom {x : Session} {lines : List InputLine} {o : Outcome Nat}
    (h : x.Goes lines o) (journal : Journal) :
    o.result = (Simulation.runForFrom (x.allowance lines) x.executed journal x.simulation).result ∧
      o.state =
        (Simulation.runForFrom (x.allowance lines) x.executed journal x.simulation).state := by
  induction h generalizing journal with
  | @ended x lines hprompt =>
      -- at the limit nothing is allowed; at the end of the program the allowance does not matter
      rcases prompt?_eq_none_iff.mp hprompt with hexhausted | hended
      · rw [allowance_of_exhausted hexhausted]
        exact ⟨rfl, rfl⟩
      · rw [← Simulation.step_result_eq_finished_iff] at hended
        cases x.allowance lines with
        | zero => exact ⟨rfl, rfl⟩
        | succ n =>
            rw [Simulation.runForFrom_succ_of_finished hended]
            exact ⟨rfl, rfl⟩
  | left hprompt hquits =>
      rw [allowance_of_quits hquits]
      exact ⟨rfl, rfl⟩
  | failed hprompt hline hfault =>
      rw [allowance_cons hline (not_exhausted_of_prompt? hprompt),
        Simulation.runForFrom_succ_of_error hfault]
      exact ⟨rfl, state_step_of_error hfault⟩
  | executed hprompt hline hexecuted _ ih =>
      rw [allowance_cons hline (not_exhausted_of_prompt? hprompt),
        Simulation.runForFrom_succ_of_executed hexecuted]
      exact ih _

/-! ## What a session shows -/

/-- A session shows the next `n` instructions as they are executed: for each the prompt, what
its step shows, and then the lines that the step added to the output. -/
inductive Shows : Simulation → (n : Nat) → Journal → Prop
  | nothing (s : Simulation) : Shows s 0 #[]
  | turn {s : Simulation} {n : Nat} {prompt : String} {added : List String} {journal : Journal}
      (hprompt : prompt? { simulation := s } = some prompt)
      (hexecuted : s.step.result = .ok .executed)
      (hadded : s.step.state.output.toList = s.output.toList ++ added)
      (hrest : Shows s.step.state n journal) :
      Shows s (n + 1)
        (#[.out prompt] ++ s.step.journal ++
          (added.map fun line => Emission.out ("       > " ++ line ++ "\n")).toArray ++ journal)

/-- What a session shows when no further instruction is executed: nothing, or a prompt and, if
that instruction was asked for, what its failing step shows. -/
inductive Closes (s : Simulation) : Journal → Prop
  | ended : Closes s #[]
  | left {prompt : String} (hprompt : prompt? { simulation := s } = some prompt) :
      Closes s #[.out prompt]
  | failed {prompt : String} {fault : Fault} (hprompt : prompt? { simulation := s } = some prompt)
      (hfault : s.step.result = .error fault) : Closes s (#[.out prompt] ++ s.step.journal)

/-- A prompt tells of the simulation, not of how far the session has come. -/
theorem prompt?_without_limit {x : Session} {prompt : String} (h : x.prompt? = some prompt) :
    prompt? { simulation := x.simulation } = some prompt := by
  rw [prompt?] at h
  split at h
  · cases h
  · exact h

theorem printed_of_added {s t : Simulation} {added : List String}
    (h : t.output.toList = s.output.toList ++ added) :
    printed s t = (added.map fun line => Emission.out ("       > " ++ line ++ "\n")).toArray := by
  rw [printed, h, ← Array.length_toList, List.drop_left]

theorem Goes.exists_shows {x : Session} {lines : List InputLine} {o : Outcome Nat}
    (h : x.Goes lines o) :
    ∃ n turns closing, o.journal = turns ++ closing ∧ o.state = x.simulation.after n ∧
      Shows x.simulation n turns ∧ Closes o.state closing := by
  induction h with
  | ended => exact ⟨0, #[], #[], rfl, rfl, .nothing _, .ended⟩
  | @left x lines prompt hprompt =>
      exact ⟨0, #[], #[.out prompt], rfl, rfl, .nothing _, .left (prompt?_without_limit hprompt)⟩
  | @failed x line lines prompt fault hprompt hline hfault =>
      have hstate := state_step_of_error hfault
      refine ⟨0, #[], _, (Array.empty_append).symm, hstate, .nothing _, ?_⟩
      rw [hstate]
      exact .failed (prompt?_without_limit hprompt) hfault
  | @executed x line lines prompt o hprompt hline hexecuted _ ih =>
      obtain ⟨n, turns, closing, hjournal, hstate, hshows, hcloses⟩ := ih
      obtain ⟨-, -, added, hadded, -⟩ := x.simulation.continues_step
      refine ⟨n + 1, _, closing, ?_, hstate,
        .turn (prompt?_without_limit hprompt) hexecuted hadded hshows, hcloses⟩
      simp only [hjournal, printed_of_added hadded, Array.append_assoc]

end Session

end MipsMachine
