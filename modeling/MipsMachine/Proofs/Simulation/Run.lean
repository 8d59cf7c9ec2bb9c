import MipsMachine.Proofs.Simulation.Step

set_option autoImplicit false

/-!
# Runs

A run, bounded or not, is repeated stepping.  `after k` is the simulation that `k` steps leave,
and a bound `n` cuts the steps off at the one `k` with `StopsAfter n k`: the first `k` steps
are executed, and the next one is either out of bounds or not executed.  Everything that the
two kinds of run come to is read off this `k`, the journal included.  The main statements are
`runFor_eq_ok` and `runFor_eq_error` for bounded runs, and `run?_eq_ok`, `run?_eq_error` and
`run?_eq_none` for runs without a bound.
-/

namespace MipsMachine.Simulation

/-! ## Repeated steps -/

/-- The simulation after `k` steps, whatever they come to. -/
def after : Simulation → Nat → Simulation
  | s, 0 => s
  | s, k + 1 => s.step.state.after k

/-- What the first `k` steps show. -/
def shown : Simulation → Nat → Journal
  | _, 0 => #[]
  | s, k + 1 => s.step.journal ++ s.step.state.shown k

/-- Each of the first `k` steps is executed. -/
def Executes (s : Simulation) (k : Nat) : Prop :=
  ∀ j < k, (s.after j).step.result = .ok .executed

/-- With at most `n` steps allowed, the steps stop after `k` executed ones: at the bound, at
the end of the program or before a step that fails. -/
structure StopsAfter (s : Simulation) (n k : Nat) : Prop where
  le : k ≤ n
  executes : s.Executes k
  stops : k < n → (s.after k).step.result ≠ .ok .executed

instance (s : Simulation) (k : Nat) : Decidable (s.Executes k) :=
  inferInstanceAs (Decidable (∀ j, j < k → (s.after j).step.result = .ok .executed))

instance (s : Simulation) (n k : Nat) : Decidable (s.StopsAfter n k) :=
  decidable_of_iff (k ≤ n ∧ s.Executes k ∧ (k < n → (s.after k).step.result ≠ .ok .executed))
    ⟨fun h => ⟨h.1, h.2.1, h.2.2⟩, fun h => ⟨h.le, h.executes, h.stops⟩⟩

theorem after_add (s : Simulation) (j k : Nat) : s.after (j + k) = (s.after j).after k := by
  induction j generalizing s with
  | zero => simp [after]
  | succ j ih =>
      rw [Nat.succ_add]
      exact ih s.step.state

theorem after_succ_last (s : Simulation) (k : Nat) : s.after (k + 1) = (s.after k).step.state :=
  s.after_add k 1

theorem executes_zero (s : Simulation) : s.Executes 0 := by
  intro j hj
  exact absurd hj (Nat.not_lt_zero j)

theorem executes_succ_iff {s : Simulation} {k : Nat} :
    s.Executes (k + 1) ↔ s.step.result = .ok .executed ∧ s.step.state.Executes k := by
  constructor
  · intro h
    exact ⟨h 0 (Nat.succ_pos k), fun j hj => h (j + 1) (Nat.succ_lt_succ hj)⟩
  · rintro ⟨hfirst, hrest⟩ j hj
    cases j with
    | zero => exact hfirst
    | succ j => exact hrest j (Nat.lt_of_succ_lt_succ hj)

theorem executes_succ_last_iff {s : Simulation} {k : Nat} :
    s.Executes (k + 1) ↔ s.Executes k ∧ (s.after k).step.result = .ok .executed := by
  constructor
  · intro h
    exact ⟨fun j hj => h j (Nat.lt_succ_of_lt hj), h k (Nat.lt_succ_self k)⟩
  · rintro ⟨hfirst, hlast⟩ j hj
    rcases Nat.lt_succ_iff_lt_or_eq.mp hj with hlt | rfl
    · exact hfirst j hlt
    · exact hlast

/-- Steps that are not executed leave everything as it is, however often they are tried. -/
theorem after_of_not_executed {s : Simulation} (h : s.step.result ≠ .ok .executed) (k : Nat) :
    s.after k = s := by
  induction k with
  | zero => rfl
  | succ k ih => rw [after_succ_last, ih, step_state_of_not_executed h]

/-! ## Where the steps stop -/

/-- Under every bound the steps stop somewhere. -/
theorem exists_stopsAfter (s : Simulation) (n : Nat) : ∃ k, s.StopsAfter n k := by
  induction n with
  | zero => exact ⟨0, Nat.le_refl 0, s.executes_zero, fun h => absurd h (Nat.lt_irrefl 0)⟩
  | succ n ih =>
      obtain ⟨k, hk⟩ := ih
      by_cases hexecuted : (s.after k).step.result = .ok .executed
      · -- the old bound alone stopped the steps, so they go on to the new one
        have hkn : k = n := by
          rcases Nat.lt_or_eq_of_le hk.le with hlt | heq
          · exact absurd hexecuted (hk.stops hlt)
          · exact heq
        subst hkn
        exact ⟨k + 1, Nat.le_refl _, executes_succ_last_iff.mpr ⟨hk.executes, hexecuted⟩,
          fun h => absurd h (Nat.lt_irrefl _)⟩
      · exact ⟨k, Nat.le_succ_of_le hk.le, hk.executes, fun _ => hexecuted⟩

/-- Under a bound the steps stop in one place only. -/
theorem StopsAfter.unique {s : Simulation} {n j k : Nat} (hj : s.StopsAfter n j)
    (hk : s.StopsAfter n k) : j = k := by
  rcases Nat.lt_trichotomy j k with hlt | heq | hgt
  · exact absurd (hk.executes j hlt) (hj.stops (Nat.lt_of_lt_of_le hlt hk.le))
  · exact heq
  · exact absurd (hj.executes k hgt) (hk.stops (Nat.lt_of_lt_of_le hgt hj.le))

/-- What stops the steps: the bound, the end of the program or a fault. -/
theorem StopsAfter.cases {s : Simulation} {n k : Nat} (h : s.StopsAfter n k) :
    k = n ∨ (s.after k).step.result = .ok .finished ∨
      k < n ∧ ∃ fault, (s.after k).step.result = .error fault := by
  rcases Nat.lt_or_eq_of_le h.le with hlt | heq
  · have hstops := h.stops hlt
    cases hresult : (s.after k).step.result with
    | error fault => exact Or.inr (Or.inr ⟨hlt, fault, rfl⟩)
    | ok r =>
        cases r with
        | executed => exact absurd hresult hstops
        | finished => exact Or.inr (Or.inl rfl)
  · exact Or.inl heq

/-- Steps that end the program or fail stop under every bound that lets them be tried. -/
theorem StopsAfter.of_not_executed {s : Simulation} {n k : Nat} (hle : k ≤ n)
    (hexecutes : s.Executes k) (h : (s.after k).step.result ≠ .ok .executed) :
    s.StopsAfter n k :=
  ⟨hle, hexecutes, fun _ => h⟩

/-- Stopping at a place and going on from there under a second bound is stopping under the sum
of the two, unless the first stop was a failed step. -/
theorem StopsAfter.add {s : Simulation} {m n j k : Nat} (hj : s.StopsAfter m j)
    (hk : (s.after j).StopsAfter n k) (h : j = m ∨ (s.after j).step.result = .ok .finished) :
    s.StopsAfter (m + n) (j + k) := by
  refine ⟨Nat.add_le_add hj.le hk.le, ?_, ?_⟩
  · intro i hi
    rcases Nat.lt_or_ge i j with hij | hij
    · exact hj.executes i hij
    · obtain ⟨d, rfl⟩ := Nat.exists_eq_add_of_le hij
      rw [after_add]
      exact hk.executes d (Nat.lt_of_add_lt_add_left hi)
  · intro hlt
    rw [after_add]
    rcases h with rfl | hfinished
    · exact hk.stops (Nat.lt_of_add_lt_add_left hlt)
    · rw [after_of_not_executed (by simp [hfinished])]
      simp [hfinished]

/-! ## Bounded runs -/

theorem runForFrom_succ_of_executed {s : Simulation} (h : s.step.result = .ok .executed)
    (n count : Nat) (journal : Journal) :
    runForFrom (n + 1) count journal s =
      runForFrom n (count + 1) (journal ++ s.step.journal) s.step.state := by
  rw [runForFrom, step_eq_of_executed h]

theorem runForFrom_succ_of_finished {s : Simulation} (h : s.step.result = .ok .finished)
    (n count : Nat) (journal : Journal) :
    runForFrom (n + 1) count journal s = ⟨.ok count, s, journal⟩ := by
  rw [runForFrom, step_eq_of_finished h]
  simp

theorem runForFrom_succ_of_error {s : Simulation} {fault : Fault}
    (h : s.step.result = .error fault) (n count : Nat) (journal : Journal) :
    runForFrom (n + 1) count journal s = ⟨.error fault, s, journal ++ s.step.journal⟩ := by
  rw [runForFrom, step_eq_of_error h]

/-- Executed steps are put behind a bounded run one by one. -/
theorem runForFrom_of_executes {s : Simulation} {k : Nat} (h : s.Executes k) (n count : Nat)
    (journal : Journal) :
    runForFrom (k + n) count journal s =
      runForFrom n (count + k) (journal ++ s.shown k) (s.after k) := by
  induction k generalizing s count journal with
  | zero => simp [after, shown]
  | succ k ih =>
      obtain ⟨hfirst, hrest⟩ := executes_succ_iff.mp h
      rw [Nat.succ_add, runForFrom_succ_of_executed hfirst, ih hrest, after, shown,
        Array.append_assoc, Nat.add_assoc, Nat.add_comm 1 k]

/-- A run that the bound or the end of the program stops: its result is the number of executed
steps. -/
theorem runFor_eq_ok {s : Simulation} {n k : Nat} (h : s.StopsAfter n k)
    (hstop : k = n ∨ (s.after k).step.result = .ok .finished) :
    s.runFor n = ⟨.ok k, s.after k, s.shown k⟩ := by
  obtain ⟨d, rfl⟩ := Nat.exists_eq_add_of_le h.le
  rw [runFor, runForFrom_of_executes h.executes, Nat.zero_add, Array.empty_append]
  cases d with
  | zero => rfl
  | succ d =>
      rcases hstop with heq | hfinished
      · omega
      · exact runForFrom_succ_of_finished hfinished d k _

/-- A run that a failing step stops: the steps before it stay, and its fault is the result. -/
theorem runFor_eq_error {s : Simulation} {n k : Nat} {fault : Fault} (h : s.StopsAfter n k)
    (hlt : k < n) (hfault : (s.after k).step.result = .error fault) :
    s.runFor n =
      ⟨.error fault, s.after k, s.shown k ++ (s.after k).step.journal⟩ := by
  obtain ⟨d, rfl⟩ := Nat.exists_eq_add_of_lt hlt
  rw [runFor, Nat.add_assoc, runForFrom_of_executes h.executes, Nat.zero_add,
    Array.empty_append]
  exact runForFrom_succ_of_error hfault d k _

theorem runFor_state {s : Simulation} {n k : Nat} (h : s.StopsAfter n k) :
    (s.runFor n).state = s.after k := by
  rcases h.cases with hn | hfinished | ⟨hlt, fault, hfault⟩
  · rw [runFor_eq_ok h (Or.inl hn)]
  · rw [runFor_eq_ok h (Or.inr hfinished)]
  · rw [runFor_eq_error h hlt hfault]

/-- A bounded run succeeds exactly when the bound or the end of the program stops it. -/
theorem runFor_result_eq_ok_iff {s : Simulation} {n k : Nat} (h : s.StopsAfter n k) (j : Nat) :
    (s.runFor n).result = .ok j ↔
      j = k ∧ (k = n ∨ (s.after k).step.result = .ok .finished) := by
  constructor
  · intro hj
    rcases h.cases with hn | hfinished | ⟨hlt, fault, hfault⟩
    · rw [runFor_eq_ok h (Or.inl hn)] at hj
      exact ⟨(Except.ok.inj hj).symm, Or.inl hn⟩
    · rw [runFor_eq_ok h (Or.inr hfinished)] at hj
      exact ⟨(Except.ok.inj hj).symm, Or.inr hfinished⟩
    · rw [runFor_eq_error h hlt hfault] at hj
      cases hj
  · rintro ⟨rfl, hstop⟩
    rw [runFor_eq_ok h hstop]

/-- A bounded run fails exactly when a step within the bound fails, and with the fault of that
step. -/
theorem runFor_result_eq_error_iff {s : Simulation} {n k : Nat} (h : s.StopsAfter n k)
    (fault : Fault) :
    (s.runFor n).result = .error fault ↔
      k < n ∧ (s.after k).step.result = .error fault := by
  constructor
  · intro hj
    rcases h.cases with hn | hfinished | ⟨hlt, fault', hfault⟩
    · rw [runFor_eq_ok h (Or.inl hn)] at hj
      cases hj
    · rw [runFor_eq_ok h (Or.inr hfinished)] at hj
      cases hj
    · rw [runFor_eq_error h hlt hfault] at hj
      obtain rfl := Except.error.inj hj
      exact ⟨hlt, hfault⟩
  · rintro ⟨hlt, hfault⟩
    rw [runFor_eq_error h hlt hfault]

/-- Two bounded runs, the second from where the first succeeded, are one under the sum of their
bounds. -/
theorem runFor_add {s : Simulation} {m a : Nat} (hm : (s.runFor m).result = .ok a) (n : Nat) :
    (s.runFor (m + n)).state = ((s.runFor m).state.runFor n).state ∧
      (s.runFor (m + n)).result = ((s.runFor m).state.runFor n).result.map (a + ·) := by
  obtain ⟨j, hj⟩ := s.exists_stopsAfter m
  obtain ⟨rfl, hstop⟩ := (runFor_result_eq_ok_iff hj a).mp hm
  obtain ⟨k, hk⟩ := (s.after a).exists_stopsAfter n
  have hsum : s.StopsAfter (m + n) (a + k) := hj.add hk hstop
  rw [runFor_state hj]
  refine ⟨by rw [runFor_state hsum, runFor_state hk, after_add], ?_⟩
  rcases hk.cases with hn | hfinished | ⟨hlt, fault, hfault⟩
  · have hsumStop : a + k = m + n ∨ (s.after (a + k)).step.result = .ok .finished := by
      rcases hstop with ham | hfinished
      · exact Or.inl (by rw [ham, hn])
      · rw [after_add, after_of_not_executed (by simp [hfinished])]
        exact Or.inr hfinished
    rw [runFor_eq_ok hsum hsumStop, runFor_eq_ok hk (Or.inl hn)]
    rfl
  · rw [runFor_eq_ok hsum (Or.inr (by rw [after_add, hfinished])),
      runFor_eq_ok hk (Or.inr hfinished)]
    rfl
  · have hsumLt : a + k < m + n := Nat.add_lt_add_of_le_of_lt hj.le hlt
    rw [runFor_eq_error hsum hsumLt (by rw [after_add, hfault]), runFor_eq_error hk hlt hfault]
    rfl

/-- A run whose first step is executed goes on as the run from where the step leads. -/
theorem runFor_succ_of_executed {s : Simulation} (h : s.step.result = .ok .executed) (n : Nat) :
    (s.runFor (n + 1)).state = (s.step.state.runFor n).state ∧
      (s.runFor (n + 1)).result = (s.step.state.runFor n).result.map (1 + ·) := by
  have hone : s.runFor 1 = ⟨.ok 1, s.step.state, #[] ++ s.step.journal⟩ :=
    runForFrom_succ_of_executed h 0 0 #[]
  have hadd := runFor_add (congrArg Outcome.result hone) n
  rwa [hone, Nat.add_comm 1 n] at hadd

/-! ## Runs without a bound -/

theorem runFrom_succ_of_executed {s : Simulation} (h : s.step.result = .ok .executed)
    (fuel count : Nat) (journal : Journal) :
    runFrom (fuel + 1) count journal s =
      runFrom fuel (count + 1) (journal ++ s.step.journal) s.step.state := by
  rw [runFrom, step_eq_of_executed h]

theorem runFrom_succ_of_finished {s : Simulation} (h : s.step.result = .ok .finished)
    (fuel count : Nat) (journal : Journal) :
    runFrom (fuel + 1) count journal s =
      some ⟨.ok count, s, journal.push (.log (.runFinished count s.machine.pc))⟩ := by
  rw [runFrom, step_eq_of_finished h]
  simp

theorem runFrom_succ_of_error {s : Simulation} {fault : Fault}
    (h : s.step.result = .error fault) (fuel count : Nat) (journal : Journal) :
    runFrom (fuel + 1) count journal s = some ⟨.error fault, s, journal ++ s.step.journal⟩ := by
  rw [runFrom, step_eq_of_error h]

/-- Executed steps are put behind a run one by one, each for one unit of fuel. -/
theorem runFrom_of_executes {s : Simulation} {k : Nat} (h : s.Executes k) (fuel count : Nat)
    (journal : Journal) :
    runFrom (k + fuel) count journal s =
      runFrom fuel (count + k) (journal ++ s.shown k) (s.after k) := by
  induction k generalizing s count journal with
  | zero => simp [after, shown]
  | succ k ih =>
      obtain ⟨hfirst, hrest⟩ := executes_succ_iff.mp h
      rw [Nat.succ_add, runFrom_succ_of_executed hfirst, ih hrest, after, shown,
        Array.append_assoc, Nat.add_assoc, Nat.add_comm 1 k]

/-- As long as every step is executed a run has no answer. -/
theorem run?_eq_none {s : Simulation} {fuel : Nat} (h : s.Executes fuel) :
    s.run? fuel = none := by
  have hrun := runFrom_of_executes h 0 0 #[]
  rw [Nat.add_zero] at hrun
  rw [run?, hrun]
  rfl

/-- A run that comes to the end of the program. -/
theorem run?_eq_ok {s : Simulation} {fuel k : Nat} (hexecutes : s.Executes k) (hlt : k < fuel)
    (hfinished : (s.after k).step.result = .ok .finished) :
    s.run? fuel = some ⟨.ok k, s.after k,
      (s.shown k).push (.log (.runFinished k (s.after k).machine.pc))⟩ := by
  obtain ⟨d, rfl⟩ := Nat.exists_eq_add_of_lt hlt
  rw [run?, Nat.add_assoc, runFrom_of_executes hexecutes, Nat.zero_add, Array.empty_append]
  exact runFrom_succ_of_finished hfinished d k _

/-- A run that comes to a failing step. -/
theorem run?_eq_error {s : Simulation} {fuel k : Nat} {fault : Fault}
    (hexecutes : s.Executes k) (hlt : k < fuel)
    (hfault : (s.after k).step.result = .error fault) :
    s.run? fuel =
      some ⟨.error fault, s.after k, s.shown k ++ (s.after k).step.journal⟩ := by
  obtain ⟨d, rfl⟩ := Nat.exists_eq_add_of_lt hlt
  rw [run?, Nat.add_assoc, runFrom_of_executes hexecutes, Nat.zero_add, Array.empty_append]
  exact runFrom_succ_of_error hfault d k _

/-! ## How a run ends -/

/-- The run without a bound ends, in the given outcome. -/
def EndsIn (s : Simulation) (o : Outcome Nat) : Prop :=
  ∃ fuel, s.run? fuel = some o

/-- The bound lets the steps come to the end of the program or try a step that fails. -/
def EndsWithin (s : Simulation) (n : Nat) : Prop :=
  ∃ k, s.Executes k ∧
    (k ≤ n ∧ (s.after k).step.result = .ok .finished ∨
      k < n ∧ ∃ fault, (s.after k).step.result = .error fault)

/-- Whatever is tried fails with the given fault and changes nothing. -/
structure StuckAt (s : Simulation) (fault : Fault) : Prop where
  step : s.step.result = .error fault ∧ s.step.state = s
  runFor : ∀ n, 0 < n → (s.runFor n).result = .error fault ∧ (s.runFor n).state = s
  run : (∃ o, s.EndsIn o) ∧ ∀ o, s.EndsIn o → o.result = .error fault ∧ o.state = s

theorem Executes.mono {s : Simulation} {j k : Nat} (h : s.Executes k) (hle : j ≤ k) :
    s.Executes j :=
  fun i hi => h i (Nat.lt_of_lt_of_le hi hle)

/-- A run with an answer was given fuel for more than the executed steps. -/
theorem lt_of_run?_eq_some {s : Simulation} {fuel k : Nat} {o : Outcome Nat}
    (hexecutes : s.Executes k) (h : s.run? fuel = some o) : k < fuel := by
  rcases Nat.lt_or_ge k fuel with hlt | hle
  · exact hlt
  · rw [run?_eq_none (hexecutes.mono hle)] at h
    cases h

theorem endsIn_iff_of_finished {s : Simulation} {k : Nat} (hexecutes : s.Executes k)
    (hfinished : (s.after k).step.result = .ok .finished) (o : Outcome Nat) :
    s.EndsIn o ↔ o = ⟨.ok k, s.after k,
      (s.shown k).push (.log (.runFinished k (s.after k).machine.pc))⟩ := by
  constructor
  · rintro ⟨fuel, hfuel⟩
    rw [run?_eq_ok hexecutes (lt_of_run?_eq_some hexecutes hfuel) hfinished] at hfuel
    exact (Option.some.inj hfuel).symm
  · rintro rfl
    exact ⟨k + 1, run?_eq_ok hexecutes (Nat.lt_succ_self k) hfinished⟩

theorem endsIn_iff_of_error {s : Simulation} {k : Nat} {fault : Fault}
    (hexecutes : s.Executes k) (hfault : (s.after k).step.result = .error fault)
    (o : Outcome Nat) :
    s.EndsIn o ↔ o = ⟨.error fault, s.after k, s.shown k ++ (s.after k).step.journal⟩ := by
  constructor
  · rintro ⟨fuel, hfuel⟩
    rw [run?_eq_error hexecutes (lt_of_run?_eq_some hexecutes hfuel) hfault] at hfuel
    exact (Option.some.inj hfuel).symm
  · rintro rfl
    exact ⟨k + 1, run?_eq_error hexecutes (Nat.lt_succ_self k) hfault⟩

/-- A run that ends comes to the end of the program or to a failing step. -/
theorem EndsIn.exists_eq {s : Simulation} {o : Outcome Nat} (h : s.EndsIn o) :
    ∃ k, s.Executes k ∧
      ((s.after k).step.result = .ok .finished ∧ o = ⟨.ok k, s.after k,
          (s.shown k).push (.log (.runFinished k (s.after k).machine.pc))⟩ ∨
        ∃ fault, (s.after k).step.result = .error fault ∧
          o = ⟨.error fault, s.after k, s.shown k ++ (s.after k).step.journal⟩) := by
  obtain ⟨fuel, hfuel⟩ := h
  obtain ⟨k, hk⟩ := s.exists_stopsAfter fuel
  refine ⟨k, hk.executes, ?_⟩
  rcases hk.cases with heq | hfinished | ⟨_, fault, hfault⟩
  · exact absurd heq (Nat.ne_of_lt (lt_of_run?_eq_some hk.executes hfuel))
  · exact Or.inl ⟨hfinished, (endsIn_iff_of_finished hk.executes hfinished o).mp ⟨fuel, hfuel⟩⟩
  · exact Or.inr ⟨fault, hfault, (endsIn_iff_of_error hk.executes hfault o).mp ⟨fuel, hfuel⟩⟩

/-- A run ends in one way only. -/
theorem EndsIn.unique {s : Simulation} {o o' : Outcome Nat} (h : s.EndsIn o) (h' : s.EndsIn o') :
    o = o' := by
  obtain ⟨k, hexecutes, ⟨hfinished, rfl⟩ | ⟨fault, hfault, rfl⟩⟩ := h.exists_eq
  · exact ((endsIn_iff_of_finished hexecutes hfinished o').mp h').symm
  · exact ((endsIn_iff_of_error hexecutes hfault o').mp h').symm

/-- A run that ends comes to the end of the program or to a failing step, and every greater
bound gets there as well. -/
theorem EndsIn.exists_endsWithin {s : Simulation} {o : Outcome Nat} (h : s.EndsIn o) :
    ∃ k, ∀ n, k ≤ n → s.EndsWithin n := by
  obtain ⟨k, hexecutes, hend⟩ := h.exists_eq
  refine ⟨k + 1, ?_⟩
  intro n hn
  refine ⟨k, hexecutes, ?_⟩
  rcases hend with ⟨hfinished, -⟩ | ⟨fault, hfault, -⟩
  · exact Or.inl ⟨Nat.le_of_succ_le hn, hfinished⟩
  · exact Or.inr ⟨hn, fault, hfault⟩

/-- Under a bound that lets the steps come to their end, both kinds of run come to the same. -/
theorem EndsWithin.run_eq {s : Simulation} {n : Nat} (h : s.EndsWithin n) :
    (∃ o, s.EndsIn o) ∧
      ∀ o, s.EndsIn o → o.result = (s.runFor n).result ∧ o.state = (s.runFor n).state := by
  obtain ⟨k, hexecutes, ⟨hle, hfinished⟩ | ⟨hlt, fault, hfault⟩⟩ := h
  · have hends := endsIn_iff_of_finished hexecutes hfinished
    have hstops : s.StopsAfter n k := .of_not_executed hle hexecutes (by simp [hfinished])
    refine ⟨⟨_, (hends _).mpr rfl⟩, ?_⟩
    intro o ho
    rw [(hends o).mp ho, runFor_eq_ok hstops (Or.inr hfinished)]
    exact ⟨rfl, rfl⟩
  · have hends := endsIn_iff_of_error hexecutes hfault
    have hstops : s.StopsAfter n k :=
      .of_not_executed (Nat.le_of_lt hlt) hexecutes (by simp [hfault])
    refine ⟨⟨_, (hends _).mpr rfl⟩, ?_⟩
    intro o ho
    rw [(hends o).mp ho, runFor_eq_error hstops hlt hfault]
    exact ⟨rfl, rfl⟩

/-- A simulation whose next step fails is stuck. -/
theorem stuckAt_of_step_error {s : Simulation} {fault : Fault}
    (h : s.step.result = .error fault) : s.StuckAt fault := by
  have hends := endsIn_iff_of_error s.executes_zero h
  refine ⟨⟨h, step_state_of_not_executed (by simp [h])⟩, ?_, ⟨_, (hends _).mpr rfl⟩, ?_⟩
  · intro n hn
    have hstops : s.StopsAfter n 0 :=
      .of_not_executed (Nat.zero_le n) s.executes_zero (by simp [after, h])
    rw [runFor_eq_error hstops hn h]
    exact ⟨rfl, rfl⟩
  · intro o ho
    rw [(hends o).mp ho]
    exact ⟨rfl, rfl⟩

/-- The place where the steps stop decides what a bounded run comes to.  Bounded runs compose,
a bounded run that failed leaves a simulation that is stuck, and a run without a bound ends
exactly if some bound lets the steps come to their end, with what the run under any such bound
comes to. -/
theorem run_agrees_with_steps (s : Simulation) :
    (∀ n, ∃ k, s.StopsAfter n k ∧ ∀ j, s.StopsAfter n j → j = k) ∧
    (∀ n k, s.StopsAfter n k →
      (s.runFor n).state = s.after k ∧
      (∀ j, (s.runFor n).result = .ok j ↔
        j = k ∧ (k = n ∨ (s.after k).step.result = .ok .finished)) ∧
      (∀ fault, (s.runFor n).result = .error fault ↔
        k < n ∧ (s.after k).step.result = .error fault)) ∧
    (∀ m n a, (s.runFor m).result = .ok a →
      (s.runFor (m + n)).state = ((s.runFor m).state.runFor n).state ∧
      (s.runFor (m + n)).result = ((s.runFor m).state.runFor n).result.map (a + ·)) ∧
    (∀ n fault, (s.runFor n).result = .error fault → (s.runFor n).state.StuckAt fault) ∧
    (∀ n, s.EndsWithin n → (∃ o, s.EndsIn o) ∧
      ∀ o, s.EndsIn o → o.result = (s.runFor n).result ∧ o.state = (s.runFor n).state) ∧
    (∀ o, s.EndsIn o → ∃ k, ∀ n, k ≤ n → s.EndsWithin n) := by
  refine ⟨?_, ?_, ?_, ?_, ?_, ?_⟩
  · intro n
    obtain ⟨k, hk⟩ := s.exists_stopsAfter n
    exact ⟨k, hk, fun j hj => hj.unique hk⟩
  · intro n k hk
    exact ⟨runFor_state hk, runFor_result_eq_ok_iff hk, runFor_result_eq_error_iff hk⟩
  · intro m n a hm
    exact runFor_add hm n
  · intro n fault hn
    obtain ⟨k, hk⟩ := s.exists_stopsAfter n
    rw [runFor_state hk]
    exact stuckAt_of_step_error ((runFor_result_eq_error_iff hk fault).mp hn).2
  · intro n hn
    exact hn.run_eq
  · intro o ho
    exact ho.exists_endsWithin

/-- A branch to a label that is missing, behind one instruction that is executed: a bound of
one step stops in front of the branch, a greater one fails at it, and so does the run without a
bound. -/
theorem run_agrees_with_steps_at_missing_label :
    let s := (fresh.load ["addi $t0, $zero, 7", "beq $t0, $t0, away"]).state
    s.StopsAfter 1 1 ∧ s.StopsAfter 5 1 ∧ (s.runFor 1).result = .ok 1 ∧
      (s.runFor 5).result = .error (.unknownLabel "away") ∧
      (s.runFor (1 + 4)).result = ((s.runFor 1).state.runFor 4).result.map (1 + ·) ∧
      (s.runFor 5).state.StuckAt (.unknownLabel "away") ∧
      ∃ o, s.EndsIn o ∧ o.result = .error (.unknownLabel "away") := by
  intro s
  have hexecutes : s.Executes 1 := by
    intro j hj
    obtain rfl : j = 0 := Nat.lt_one_iff.mp hj
    decide +kernel
  have hfault : (s.after 1).step.result = .error (.unknownLabel "away") := by decide +kernel
  have hone : s.StopsAfter 1 1 := ⟨Nat.le_refl 1, hexecutes, fun h => absurd h (Nat.lt_irrefl 1)⟩
  have hfive : s.StopsAfter 5 1 := .of_not_executed (by decide) hexecutes (by simp [hfault])
  have hends : s.EndsWithin 5 := ⟨1, hexecutes, Or.inr ⟨by decide, _, hfault⟩⟩
  obtain ⟨_, hstops, hadd, hstuck, hrun, _⟩ := run_agrees_with_steps s
  have hok : (s.runFor 1).result = .ok 1 := ((hstops 1 1 hone).2.1 1).mpr ⟨rfl, Or.inl rfl⟩
  have herror : (s.runFor 5).result = .error (.unknownLabel "away") :=
    ((hstops 5 1 hfive).2.2 _).mpr ⟨by decide, hfault⟩
  obtain ⟨⟨o, ho⟩, heq⟩ := hrun 5 hends
  exact ⟨hone, hfive, hok, herror, (hadd 1 4 1 hok).2, hstuck 5 _ herror,
    o, ho, (heq o ho).1.trans herror⟩

end MipsMachine.Simulation
