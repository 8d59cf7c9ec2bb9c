import MipsMachine.Proofs.Simulation.Run
import MipsMachine.Simulation.Snapshot

set_option autoImplicit false

/-!
# Runs side by side

Two simulations run in lockstep if a relation between them survives every step and makes the
steps come to the same.  Runs then come to the same as well (`Lockstep.runFor`,
`Lockstep.endsIn`).  What a step comes to is a matter of the machine and of how the program
reads (`GoesLike`), so a relation of such simulations runs in lockstep as soon as it survives
what an executed instruction leaves behind (`lockstep_of_commit`).  `ReadsAlike` is one of
them: the two programs may be spelled differently, but their instruction texts read the same.
-/

namespace MipsMachine

namespace Simulation

/-! ## Lockstep -/

/-- Steps from related simulations have the same result and lead to related simulations. -/
structure Lockstep (R : Simulation → Simulation → Prop) : Prop where
  result : ∀ {s t}, R s t → s.step.result = t.step.result
  state : ∀ {s t}, R s t → R s.step.state t.step.state

section

variable {R : Simulation → Simulation → Prop} {s t : Simulation} {n k : Nat}

theorem Lockstep.after (hlock : Lockstep R) (h : R s t) (k : Nat) : R (s.after k) (t.after k) := by
  induction k with
  | zero => exact h
  | succ k ih =>
      rw [after_succ_last, after_succ_last]
      exact hlock.state ih

theorem Lockstep.executes (hlock : Lockstep R) (h : R s t) (hexecutes : s.Executes k) :
    t.Executes k := by
  intro j hj
  rw [← hlock.result (hlock.after h j)]
  exact hexecutes j hj

theorem Lockstep.stopsAfter (hlock : Lockstep R) (h : R s t) (hstops : s.StopsAfter n k) :
    t.StopsAfter n k where
  le := hstops.le
  executes := hlock.executes h hstops.executes
  stops := by
    intro hk
    rw [← hlock.result (hlock.after h k)]
    exact hstops.stops hk

/-- Bounded runs from related simulations have the same result and lead to related simulations. -/
theorem Lockstep.runFor (hlock : Lockstep R) (h : R s t) (n : Nat) :
    (s.runFor n).result = (t.runFor n).result ∧ R (s.runFor n).state (t.runFor n).state := by
  obtain ⟨k, hs⟩ := s.exists_stopsAfter n
  have ht : t.StopsAfter n k := hlock.stopsAfter h hs
  have hlast : (s.after k).step.result = (t.after k).step.result := hlock.result (hlock.after h k)
  constructor
  · rcases hs.cases with hn | hfinished | ⟨hlt, fault, hfault⟩
    · rw [runFor_eq_ok hs (Or.inl hn), runFor_eq_ok ht (Or.inl hn)]
    · rw [runFor_eq_ok hs (Or.inr hfinished), runFor_eq_ok ht (Or.inr (hlast ▸ hfinished))]
    · rw [runFor_eq_error hs hlt hfault, runFor_eq_error ht hlt (hlast ▸ hfault)]
  · rw [runFor_state hs, runFor_state ht]
    exact hlock.after h k

/-- Of two runs without a bound, from related simulations, both end or none, with the same
result and in related simulations. -/
theorem Lockstep.endsIn (hlock : Lockstep R) (h : R s t) {o : Outcome Nat} (hends : s.EndsIn o) :
    ∃ o', t.EndsIn o' ∧ o.result = o'.result ∧ R o.state o'.state := by
  obtain ⟨k, hexecutes, ⟨hfinished, rfl⟩ | ⟨fault, hfault, rfl⟩⟩ := hends.exists_eq
  · rw [hlock.result (hlock.after h k)] at hfinished
    exact ⟨_, (endsIn_iff_of_finished (hlock.executes h hexecutes) hfinished _).mpr rfl, rfl,
      hlock.after h k⟩
  · rw [hlock.result (hlock.after h k)] at hfault
    exact ⟨_, (endsIn_iff_of_error (hlock.executes h hexecutes) hfault _).mpr rfl, rfl,
      hlock.after h k⟩

end

end Simulation

/-! ## Programs that read alike -/

/-- The symbol tables are equal, and the instruction texts are read alike, one by one, in their
faults too. -/
structure Program.ReadsLike (p q : Program) : Prop where
  instructions : p.instructions.map Instruction.read = q.instructions.map Instruction.read
  labels : p.labels = q.labels
  strings : p.strings = q.strings

theorem Program.ReadsLike.size_eq {p q : Program} (h : p.ReadsLike q) : p.size = q.size := by
  have hsize := congrArg Array.size h.instructions
  rwa [Array.size_map, Array.size_map] at hsize

theorem Program.ReadsLike.read_instruction? {p q : Program} (h : p.ReadsLike q) (i : Nat) :
    (p.instruction? i).map Instruction.read = (q.instruction? i).map Instruction.read := by
  rw [instruction?, instruction?, ← Array.getElem?_map, ← Array.getElem?_map, h.instructions]

/-- An instruction looks up labels and string constants and asks for the size, and nothing else. -/
theorem Machine.effect_congr {p q : Program} (h : p.ReadsLike q) (m : Machine) (i : Instruction) :
    m.effect p i = m.effect q i := by
  cases i with
  | branch test rs rt label => simp only [effect, Program.label?, h.labels]
  | printString constant => simp only [effect, Program.string?, h.strings]
  | halt => simp only [effect, h.size_eq]
  | _ => rfl

namespace Simulation

/-- Equal machines in programs that read alike: the next step comes to the same in both. -/
structure GoesLike (s t : Simulation) : Prop where
  program : s.program.ReadsLike t.program
  machine : s.machine = t.machine

theorem GoesLike.isFinished_eq {s t : Simulation} (h : s.GoesLike t) :
    s.isFinished = t.isFinished := by
  rw [isFinished, isFinished, h.machine, h.program.size_eq]

theorem GoesLike.current?_eq_none {s t : Simulation} (h : s.GoesLike t)
    (hnone : s.current? = none) :
    t.current? = none := by
  rw [current?_eq_none_iff] at hnone ⊢
  rwa [← h.machine, ← h.program.size_eq]

/-- Where one simulation is to execute a text, the other is to execute one that resolves to the
same. -/
theorem GoesLike.exists_resolve_eq {s t : Simulation} {text : String} (h : s.GoesLike t)
    (htext : s.current? = some text) :
    ∃ other, t.current? = some other ∧ t.resolve other = s.resolve text := by
  have hread := h.program.read_instruction? s.machine.pc
  rw [current?] at htext
  rw [htext, h.machine] at hread
  obtain ⟨other, hother, hsame⟩ := Option.map_eq_some_iff.mp hread.symm
  refine ⟨other, hother, ?_⟩
  rw [resolve, resolve, hsame, h.machine]
  simp only [Machine.effect_congr h.program]

/-- The steps end alike: both executed the same instruction with the same effect, or none was
executed. -/
theorem GoesLike.step {s t : Simulation} (h : s.GoesLike t) :
    s.step.result = t.step.result ∧
      (s.step.state = s ∧ t.step.state = t ∨
        ∃ i e, s.step.state = s.commit i e ∧ t.step.state = t.commit i e) := by
  have hs := s.stepped
  generalize s.step = o at hs
  cases hs with
  | finished hnone =>
      have hfinished := step_result_eq_finished_iff.mpr (h.current?_eq_none hnone)
      rw [step_eq_of_finished hfinished]
      exact ⟨rfl, Or.inl ⟨rfl, rfl⟩⟩
  | refused htext hresolve =>
      obtain ⟨other, hother, hsame⟩ := h.exists_resolve_eq htext
      have hrefused := step_result_eq_error_iff.mpr ⟨other, hother, hsame.trans hresolve⟩
      rw [step_eq_of_error hrefused]
      exact ⟨rfl, Or.inl ⟨rfl, rfl⟩⟩
  | @executed text i e htext hresolve =>
      obtain ⟨other, hother, hsame⟩ := h.exists_resolve_eq htext
      obtain ⟨hresult, hstate⟩ := step_of_resolve_ok hother (hsame.trans hresolve)
      exact ⟨hresult.symm, Or.inr ⟨i, e, rfl, hstate⟩⟩

/-- Simulations that go on alike run in lockstep, under every relation that committing one
instruction keeps. -/
theorem lockstep_of_commit {R : Simulation → Simulation → Prop}
    (hgoes : ∀ {s t}, R s t → s.GoesLike t)
    (hcommit : ∀ {s t} (i : Instruction) (e : Effect), R s t → R (s.commit i e) (t.commit i e)) :
    Lockstep R where
  result h := (hgoes h).step.1
  state {s t} h := by
    obtain ⟨-, ⟨hs, ht⟩ | ⟨i, e, hs, ht⟩⟩ := (hgoes h).step
    · rw [hs, ht]
      exact h
    · rw [hs, ht]
      exact hcommit i e h

/-- The same simulation, but for the spelling of the program. -/
structure ReadsAlike (s t : Simulation) : Prop where
  program : s.program.ReadsLike t.program
  machine : s.machine = t.machine
  output : s.output = t.output
  trace : s.trace = t.trace
  tally : s.tally = t.tally
  settings : s.settings = t.settings

theorem ReadsAlike.goesLike {s t : Simulation} (h : s.ReadsAlike t) :
    s.GoesLike t := ⟨h.program, h.machine⟩

theorem ReadsAlike.snapshot_eq {s t : Simulation} (h : s.ReadsAlike t) :
    s.snapshot = t.snapshot := by
  rw [snapshot, snapshot, h.goesLike.isFinished_eq, h.machine, h.output, h.trace, h.tally]

theorem ReadsAlike.commit {s t : Simulation} (i : Instruction) (e : Effect) (h : s.ReadsAlike t) :
    (s.commit i e).ReadsAlike (t.commit i e) where
  program := h.program
  machine := by simp only [Simulation.commit, h.machine]
  output := by simp only [Simulation.commit, h.output]
  trace := by simp only [Simulation.commit, h.trace]
  tally := by simp only [Simulation.commit, h.tally]
  settings := h.settings

theorem lockstep_readsAlike :
    Lockstep ReadsAlike := lockstep_of_commit ReadsAlike.goesLike ReadsAlike.commit

/-- Programs that read alike, loaded into one simulation. -/
theorem readsAlike_load (s : Simulation) {lines others : List String}
    (h : (Program.assemble lines).ReadsLike (Program.assemble others)) :
    (s.load lines).state.ReadsAlike (s.load others).state :=
  ⟨h, rfl, rfl, rfl, rfl, rfl⟩

end Simulation

end MipsMachine
