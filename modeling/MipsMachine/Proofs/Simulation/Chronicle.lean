import MipsMachine.Proofs.Simulation.History

set_option autoImplicit false

/-!
# Chronicles

A history says which simulation calls lead to.  A chronicle says in addition in which
simulations an instruction was executed on the way; these are its *moments*, in order.  A call
executes as many instructions as it admits, unless the end of the program or a fault stops it
before (`Covers`), and it shows what they show and then how it concludes (`Concludes`).  What
holds at the start, and is kept by every executed instruction and by every call that executes
none, holds at the end of a chronicle and at each of its moments (`Kept.holds`,
`Kept.holds_at`).
-/

namespace MipsMachine

namespace Call

/-- Loads and resets. -/
def Clearing : Call → Prop
  | .load _ | .loadSource _ | .reset => True
  | _ => False

/-- Whether a call may execute another instruction after `n` of them. -/
def Admits : Call → (n : Nat) → Prop
  | .step, n => n < 1
  | .run, _ => True
  | .runFor bound, n => n < bound
  | _, _ => False

theorem Admits.executing {c : Call} {n : Nat} (h : c.Admits n) : c.Executing := by
  cases c with
  | step | run | runFor => trivial
  | _ => exact h.elim

end Call

namespace Program

/-- The instruction at an index, if there is a text and it can be read. -/
def reading? (p : Program) (i : Nat) : Option Instruction :=
  (p.instruction? i).bind fun text => (Instruction.read text).toOption

theorem reading?_eq_some_iff {p : Program} {n : Nat} {i : Instruction} :
    p.reading? n = some i ↔
      ∃ text, p.instruction? n = some text ∧ Instruction.read text = .ok i := by
  simp only [reading?, Option.bind_eq_some_iff]
  refine exists_congr fun text => and_congr_right fun _ => ?_
  cases Instruction.read text <;> simp [Except.toOption]

end Program

namespace Simulation

/-! ## What is executed at a moment -/

/-- The instruction that the next step is to execute, if the text at the program counter can be
read. -/
def reading? (s : Simulation) : Option Instruction := s.program.reading? s.machine.pc

theorem reading?_eq_some_iff {s : Simulation} {i : Instruction} :
    s.reading? = some i ↔ ∃ text, s.current? = some text ∧ Instruction.read text = .ok i :=
  Program.reading?_eq_some_iff

/-- An executed step commits the effect of the instruction that is read at the program counter. -/
theorem exists_reading?_of_executed {s : Simulation} (h : s.step.result = .ok .executed) :
    ∃ i e, s.reading? = some i ∧ s.machine.effect s.program i = .ok e ∧
      s.step.state = s.commit i e := by
  obtain ⟨text, i, e, htext, hread, heffect, hstate⟩ := exists_commit_of_executed h
  exact ⟨i, e, reading?_eq_some_iff.mpr ⟨text, htext, hread⟩, heffect, hstate⟩

/-- An instruction with an effect is executed. -/
theorem step_of_reading? {s : Simulation} {i : Instruction} {e : Effect} (hi : s.reading? = some i)
    (heffect : s.machine.effect s.program i = .ok e) :
    s.step.result = .ok .executed ∧ s.step.state = s.commit i e := by
  obtain ⟨text, htext, hread⟩ := reading?_eq_some_iff.mp hi
  exact step_of_resolve_ok htext (resolve_eq_ok_iff.mpr ⟨hread, heffect⟩)

/-! ## The instructions that a call executes -/

/-- The simulations in which the first `k` steps start, in order. -/
def moments : Simulation → (k : Nat) → List Simulation
  | _, 0 => []
  | s, k + 1 => s :: s.step.state.moments k

theorem moments_succ_last (s : Simulation) (k : Nat) :
    s.moments (k + 1) = s.moments k ++ [s.after k] := by
  induction k generalizing s with
  | zero => rfl
  | succ k ih =>
      rw [moments, ih, moments, after]
      rfl

/-- A call executes the next `k` instructions and no more: it admits no more, or the program
has ended, or the next instruction is refused. -/
structure Covers (s : Simulation) (c : Call) (k : Nat) : Prop where
  admits : ∀ j < k, c.Admits j
  executes : s.Executes k
  stops : c.Admits k → (s.after k).step.result ≠ .ok .executed

theorem Covers.unique {s : Simulation} {c : Call} {j k : Nat} (hj : s.Covers c j)
    (hk : s.Covers c k) :
    j = k := by
  rcases Nat.lt_trichotomy j k with hlt | heq | hgt
  · exact absurd (hk.executes j hlt) (hj.stops (hk.admits j hlt))
  · exact heq
  · exact absurd (hj.executes k hgt) (hk.stops (hj.admits k hgt))

theorem Covers.eq_zero {s : Simulation} {c : Call} {k : Nat} (h : s.Covers c k)
    (hc : ¬c.Executing) : k = 0 := by
  cases k with
  | zero => rfl
  | succ k => exact absurd (h.admits 0 (Nat.succ_pos k)).executing hc

theorem covers_zero {s : Simulation} {c : Call} (hc : ¬c.Executing) : s.Covers c 0 :=
  ⟨fun j hj => absurd hj (Nat.not_lt_zero j), s.executes_zero, fun h => absurd h.executing hc⟩

theorem StopsAfter.covers {s : Simulation} {n k : Nat} (h : s.StopsAfter n k) :
    s.Covers (.runFor n) k :=
  ⟨fun _ hj => Nat.lt_of_lt_of_le hj h.le, h.executes, h.stops⟩

/-- A step is a run with a bound of one instruction, as far as instructions are concerned. -/
theorem StopsAfter.covers_step {s : Simulation} {k : Nat} (h : s.StopsAfter 1 k) :
    s.Covers .step k :=
  ⟨fun _ hj => Nat.lt_of_lt_of_le hj h.le, h.executes, h.stops⟩

theorem StopsAfter.state_eq_step {s : Simulation} {k : Nat} (h : s.StopsAfter 1 k) :
    s.after k = s.step.state := by
  rcases Nat.lt_or_eq_of_le h.le with hlt | rfl
  · obtain rfl : k = 0 := Nat.lt_one_iff.mp hlt
    exact (step_state_of_not_executed (h.stops hlt)).symm
  · rfl

/-! ## What a call comes to -/

/-- How a step or a run comes to its result behind the instructions that it executes, and what
it shows then: nothing, the end of a run, or the fault of the next instruction. -/
inductive Concludes (t : Simulation) : Except Fault Answer → Journal → Prop
  | stopped (answer : Answer) : Concludes t (.ok answer) #[]
  | finished (n : Nat) : Concludes t (.ok (.counted n)) #[.log (.runFinished n t.machine.pc)]
  | failed {text : String} {fault : Fault} (htext : t.current? = some text)
      (hfault : t.step.result = .error fault) :
      Concludes t (.error fault) #[.log (.stepFailed t.machine.pc text fault)]

theorem concludes_of_step_error {t : Simulation} {fault : Fault}
    (h : t.step.result = .error fault) :
    Concludes t (.error fault) t.step.journal := by
  have hs := t.stepped
  generalize ho : t.step = o at h hs
  cases hs with
  | finished => cases h
  | executed => cases h
  | @refused text fault' htext hresolve =>
      obtain rfl := Except.error.inj h
      exact .failed htext (by rw [ho])

/-- A step that is not executed concludes at once. -/
theorem concludes_of_not_executed {t : Simulation} (h : t.step.result ≠ .ok .executed) :
    Concludes t (t.step.result.map Answer.stepped) t.step.journal := by
  cases hresult : t.step.result with
  | error fault => exact concludes_of_step_error hresult
  | ok r =>
      cases r with
      | executed => exact absurd hresult h
      | finished =>
          rw [step_eq_of_finished hresult]
          exact .stopped _

theorem step_concludes (s : Simulation) :
    ∃ k more, s.Covers .step k ∧ s.step.state = s.after k ∧ s.step.journal = s.shown k ++ more ∧
      Concludes (s.after k) (s.step.result.map Answer.stepped) more := by
  obtain ⟨k, hk⟩ := s.exists_stopsAfter 1
  rcases Nat.lt_or_eq_of_le hk.le with hlt | rfl
  · have hstops := hk.stops hlt
    obtain rfl : k = 0 := Nat.lt_one_iff.mp hlt
    exact ⟨0, _, hk.covers_step, hk.state_eq_step.symm, Array.empty_append.symm,
      concludes_of_not_executed hstops⟩
  · have hexecuted : s.step.result = .ok .executed := hk.executes 0 Nat.one_pos
    refine ⟨1, #[], hk.covers_step, rfl, ?_, ?_⟩
    · rw [shown, shown, Array.append_empty, Array.append_empty]
    · rw [hexecuted]
      exact .stopped _

theorem runFor_concludes (s : Simulation) (n : Nat) :
    ∃ k more, s.Covers (.runFor n) k ∧ (s.runFor n).state = s.after k ∧
    (s.runFor n).journal = s.shown k ++ more ∧
      Concludes (s.after k) ((s.runFor n).result.map Answer.counted) more := by
  obtain ⟨k, hk⟩ := s.exists_stopsAfter n
  rcases hk.cases with hn | hfinished | ⟨hlt, fault, hfault⟩
  · rw [runFor_eq_ok hk (Or.inl hn)]
    exact ⟨k, #[], hk.covers, rfl, Array.append_empty.symm, .stopped _⟩
  · rw [runFor_eq_ok hk (Or.inr hfinished)]
    exact ⟨k, #[], hk.covers, rfl, Array.append_empty.symm, .stopped _⟩
  · rw [runFor_eq_error hk hlt hfault]
    exact ⟨k, _, hk.covers, rfl, rfl, concludes_of_step_error hfault⟩

theorem EndsIn.concludes {s : Simulation} {o : Outcome Nat} (h : s.EndsIn o) :
    ∃ k more, s.Covers .run k ∧ o.state = s.after k ∧ o.journal = s.shown k ++ more ∧
      Concludes (s.after k) (o.result.map Answer.counted) more := by
  obtain ⟨k, hexecutes, ⟨hfinished, rfl⟩ | ⟨fault, hfault, rfl⟩⟩ := h.exists_eq
  · refine ⟨k, #[.log (.runFinished k (s.after k).machine.pc)], ?_, rfl, ?_, .finished k⟩
    · exact ⟨fun _ _ => trivial, hexecutes, fun _ => by simp [hfinished]⟩
    · exact Array.push_eq_append
  · refine ⟨k, (s.after k).step.journal, ?_, rfl, rfl, concludes_of_step_error hfault⟩
    exact ⟨fun _ _ => trivial, hexecutes, fun _ => by simp [hfault]⟩

/-- Every step and every run shows what the instructions that it executes show, and then how it
concludes. -/
theorem Returns.concludes {s : Simulation} {c : Call} {o : Outcome Answer}
    (hreturns : Returns s c o) (hc : c.Executing) :
    ∃ k more, s.Covers c k ∧ o.state = s.after k ∧ o.journal = s.shown k ++ more ∧
      Concludes (s.after k) o.result more := by
  cases hreturns with
  | step => exact s.step_concludes
  | run hends => exact hends.concludes
  | runFor bound => exact s.runFor_concludes bound
  | _ => exact hc.elim

/-- Every call executes a number of instructions, and a step or a run leaves what these
instructions leave. -/
theorem Returns.exists_covers {s : Simulation} {c : Call} {o : Outcome Answer}
    (hreturns : Returns s c o) :
    ∃ k, s.Covers c k ∧ (c.Executing → o.state = s.after k) := by
  by_cases hc : c.Executing
  · obtain ⟨k, -, hk, hstate, -, -⟩ := hreturns.concludes hc
    exact ⟨k, hk, fun _ => hstate⟩
  · exact ⟨0, covers_zero hc, fun h => absurd h hc⟩

theorem Covers.state_eq {s : Simulation} {c : Call} {o : Outcome Answer} {k : Nat}
    (h : s.Covers c k) (hreturns : Returns s c o) (hc : c.Executing) : o.state = s.after k := by
  obtain ⟨j, hj, hstate⟩ := hreturns.exists_covers
  rw [h.unique hj, hstate hc]

/-! ## Chronicles -/

/-- Calls of the allowed kind lead from one simulation to another, and the instructions that
they execute are executed in the listed moments. -/
inductive Chronicle (allowed : Call → Prop) (s : Simulation) : List Simulation → Simulation → Prop
  | start : Chronicle allowed s [] s
  | call {ms : List Simulation} {t : Simulation} {c : Call} {o : Outcome Answer} {k : Nat}
      (before : Chronicle allowed s ms t) (hallowed : allowed c) (hreturns : Returns t c o)
      (hcovers : t.Covers c k) : Chronicle allowed s (ms ++ t.moments k) o.state

theorem Chronicle.runFor {allowed : Call → Prop} {s t : Simulation}
    {ms : List Simulation} {n k : Nat} (h : Chronicle allowed s ms t)
    (hallowed : allowed (.runFor n)) (hstops : t.StopsAfter n k) :
    Chronicle allowed s (ms ++ t.moments k) (t.runFor n).state :=
  .call h hallowed (.runFor n) hstops.covers

/-- Every history has its chronicle. -/
theorem Reaches.exists_chronicle {allowed : Call → Prop} {s t : Simulation}
    (h : Reaches allowed s t) :
    ∃ ms, Chronicle allowed s ms t := by
  induction h with
  | refl => exact ⟨[], .start⟩
  | call _ hallowed hreturns ih =>
      obtain ⟨ms, hms⟩ := ih
      obtain ⟨k, hk, -⟩ := hreturns.exists_covers
      exact ⟨_, .call hms hallowed hreturns hk⟩

/-! ## What chronicles keep -/

/-- A property of a simulation and the moments before it is kept by every executed instruction,
and by every allowed call that executes none. -/
structure Kept (allowed : Call → Prop) (P : List Simulation → Simulation → Prop) : Prop where
  executed : ∀ {ms u}, P ms u → u.step.result = .ok .executed → P (ms ++ [u]) u.step.state
  other : ∀ {ms u c o}, P ms u → allowed c → ¬c.Executing → Returns u c o → P ms o.state

section

variable {allowed : Call → Prop} {P : List Simulation → Simulation → Prop} {ms : List Simulation}
  {s t : Simulation}

theorem Kept.after (hkept : Kept allowed P) (h : P ms s) {k : Nat} (hexecutes : s.Executes k) :
    P (ms ++ s.moments k) (s.after k) := by
  induction k with
  | zero =>
      rw [moments, List.append_nil]
      exact h
  | succ k ih =>
      obtain ⟨hfirst, hlast⟩ := executes_succ_last_iff.mp hexecutes
      rw [moments_succ_last, after_succ_last, ← List.append_assoc]
      exact hkept.executed (ih hfirst) hlast

/-- What is kept and holds at the start holds at the end. -/
theorem Kept.holds (hkept : Kept allowed P) (hstart : P [] s) (h : Chronicle allowed s ms t) :
    P ms t := by
  induction h with
  | start => exact hstart
  | @call ms u c o k _ hallowed hreturns hcovers ih =>
      by_cases hc : c.Executing
      · rw [hcovers.state_eq hreturns hc]
        exact hkept.after ih hcovers.executes
      · rw [hcovers.eq_zero hc, moments, List.append_nil]
        exact hkept.other ih hallowed hc hreturns

/-- What is kept and holds at the start holds at every moment, with the moments before it. -/
theorem Kept.holds_at (hkept : Kept allowed P) (hstart : P [] s) (h : Chronicle allowed s ms t)
    {before behind : List Simulation} {m : Simulation} (hms : ms = before ++ m :: behind) :
    P before m := by
  have hall : Kept allowed fun ms u =>
      P ms u ∧ ∀ before m behind, ms = before ++ m :: behind → P before m := by
    refine ⟨?_, fun hu hallowed hc hreturns => ⟨hkept.other hu.1 hallowed hc hreturns, hu.2⟩⟩
    intro ms u hu hexecuted
    refine ⟨hkept.executed hu.1 hexecuted, ?_⟩
    intro before m behind hsplit
    -- the moment is the last one, or it was a moment before the last instruction already
    rcases List.eq_nil_or_concat behind with rfl | ⟨rest, last, rfl⟩
    · obtain ⟨rfl, hlast⟩ := List.append_inj' hsplit rfl
      obtain rfl := List.head_eq_of_cons_eq hlast
      exact hu.1
    · rw [List.concat_eq_append, ← List.cons_append, ← List.append_assoc] at hsplit
      exact hu.2 before m rest (List.append_inj' hsplit rfl).1
  exact (hall.holds ⟨hstart, fun before m behind hnil => by simp at hnil⟩ h).2 before m behind hms

/-- At every moment of a chronicle an instruction is executed. -/
theorem Chronicle.executed (h : Chronicle allowed s ms t) {m : Simulation} (hm : m ∈ ms) :
    m.step.result = .ok .executed := by
  have hkept : Kept allowed fun ms _ => ∀ m ∈ ms, m.step.result = .ok .executed := by
    refine ⟨?_, fun hu _ _ _ => hu⟩
    intro ms u hu hexecuted m hm
    rcases List.mem_append.mp hm with hbefore | hlast
    · exact hu m hbefore
    · rwa [List.mem_singleton.mp hlast]
  exact hkept.holds (fun m hm => absurd hm List.not_mem_nil) h m hm

end

end Simulation

end MipsMachine
