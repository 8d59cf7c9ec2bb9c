import Mathlib.Data.List.Forall2
import MipsMachine.Proofs.Memory
import MipsMachine.Proofs.Simulation.Chronicle
import MipsMachine.Proofs.Simulation.Lockstep
import MipsMachine.Proofs.Simulation.Reload

set_option autoImplicit false

/-!
# What execution depends on

What was printed, traced and counted before, and what the user wants to be shown, never feeds
back into execution.  Two simulations of one program whose machines read alike answer every row
of calls alike, however much their records and their settings differ, and add the same to their
records meanwhile (`execution_ignores_records`).  A snapshot shows all that has to be known of
the two machines, but for the register that takes the products.
-/

namespace MipsMachine

/-! ## Sums of tallies -/

namespace Tally

/-- The counts of two runs, one behind the other. -/
def add (a b : Tally) : Tally where
  retired := a.retired + b.retired
  alu := a.alu + b.alu
  load := a.load + b.load
  store := a.store + b.store
  branch := a.branch + b.branch
  output := a.output + b.output
  halt := a.halt + b.halt
  taken := a.taken + b.taken
  notTaken := a.notTaken + b.notTaken

instance : Add Tally := ⟨add⟩

theorem add_nothing (t : Tally) : t + {} = t := rfl

theorem record_add (t u : Tally) (c : InstructionClass) (flow : Flow) :
    (t + u).record c flow = t + u.record c flow := by
  cases c with
  | branch => cases flow <;> rfl
  | _ => rfl

end Tally

/-! ## What can be read of a machine -/

theorem Bank.read_eq_of_listing_eq {a b : Bank} (h : a.listing = b.listing) (r : Register) :
    a.read r = b.read r :=
  congrArg Prod.snd (List.map_inj_left.mp h r (Register.mem_all r))

/-- There is nothing to a machine that cannot be read. -/
theorem Machine.ext_read {m n : Machine}
    (hregisters : ∀ r, m.registers.read r = n.registers.read r)
    (hmemory : m.memory.toList = n.memory.toList) (hpc : m.pc = n.pc)
    (hproduct : m.product = n.product) :
    m = n :=
  Machine.ext (Bank.ext_read hregisters) (Memory.ext_toList hmemory) hpc hproduct

/-! ## Outcomes side by side -/

/-- Two outcomes with the same result, in related simulations. -/
structure Outcome.Alike (R : Simulation → Simulation → Prop) (o o' : Outcome Answer) : Prop where
  result : o.result = o'.result
  state : R o.state o'.state

namespace Simulation

/-- The same program, on machines that read alike: register by register, and one stored word
after the other. -/
structure Agrees (s t : Simulation) : Prop where
  program : s.program = t.program
  product : s.machine.product = t.machine.product
  pc : s.machine.pc = t.machine.pc
  registers : ∀ r, s.machine.registers.read r = t.machine.registers.read r
  memory : s.machine.memory.toList = t.machine.memory.toList

theorem agrees_iff {s t : Simulation} :
    s.Agrees t ↔ s.program = t.program ∧ s.machine = t.machine := by
  constructor
  · intro h
    exact ⟨h.program, Machine.ext_read h.registers h.memory h.pc h.product⟩
  · rintro ⟨hprogram, hmachine⟩
    exact ⟨hprogram, by rw [hmachine], by rw [hmachine], by simp [hmachine], by rw [hmachine]⟩

theorem Agrees.symm {s t : Simulation} (h : s.Agrees t) : t.Agrees s := by
  obtain ⟨hprogram, hmachine⟩ := agrees_iff.mp h
  exact agrees_iff.mpr ⟨hprogram.symm, hmachine.symm⟩

theorem Agrees.goesLike {s t : Simulation} (h : s.Agrees t) : s.GoesLike t := by
  obtain ⟨hprogram, hmachine⟩ := agrees_iff.mp h
  exact ⟨⟨by rw [hprogram], by rw [hprogram], by rw [hprogram]⟩, hmachine⟩

/-- A snapshot shows what a machine reads. -/
theorem agrees_of_snapshot_eq {s t : Simulation} (hprogram : s.program = t.program)
    (hproduct : s.machine.product = t.machine.product) (h : s.snapshot = t.snapshot) :
    s.Agrees t where
  program := hprogram
  product := hproduct
  pc := congrArg Snapshot.pc h
  registers := Bank.read_eq_of_listing_eq (congrArg Snapshot.registers h)
  memory := congrArg (fun shot => shot.memory.toList) h

theorem Agrees.snapshot_eq {s t : Simulation} (h : s.Agrees t) (houtput : s.output = t.output)
    (htrace : s.trace = t.trace) (htally : s.tally = t.tally) : s.snapshot = t.snapshot := by
  obtain ⟨-, hmachine⟩ := agrees_iff.mp h
  rw [snapshot, snapshot, h.goesLike.isFinished_eq, hmachine, houtput, htrace, htally]

/-! ## What is added to the records -/

/-- Something to add to the records of a simulation. -/
structure Additions where
  /-- Lines behind the printed ones. -/
  lines : List String := []
  /-- Words behind the traced ones. -/
  words : List Word := []
  /-- Counts on top of those in the tally. -/
  counts : Tally := {}

/-- From the one simulation to the other, this was added to the records. -/
structure Adds (s s' : Simulation) (added : Additions) : Prop where
  output : s'.output.toList = s.output.toList ++ added.lines
  trace : s'.trace.toList = s.trace.toList ++ added.words
  tally : s'.tally = s.tally + added.counts

theorem adds_nothing (s : Simulation) : s.Adds s {} :=
  ⟨(List.append_nil _).symm, (List.append_nil _).symm, s.tally.add_nothing.symm⟩

/-- What an executed instruction adds does not depend on what was there. -/
theorem Adds.commit {s₀ s : Simulation} {added : Additions} (h : s₀.Adds s added) (i : Instruction)
    (e : Effect) :
    s₀.Adds (s.commit i e)
      ⟨added.lines ++ e.output?.toList, added.words ++ [i.encode.word],
        added.counts.record i.classOf e.flow⟩ where
  output := by rw [Simulation.commit, Array.toList_appendList, h.output, List.append_assoc]
  trace := by rw [Simulation.commit, Array.toList_push, h.trace, List.append_assoc]
  tally := by rw [Simulation.commit, h.tally, Tally.record_add]

/-- The same additions to equal records make equal records. -/
theorem Adds.snapshot_eq {s₀ t₀ s t : Simulation} {added : Additions} (hs : s₀.Adds s added)
    (ht : t₀.Adds t added) (hsame : s₀.snapshot = t₀.snapshot) (h : s.Agrees t) :
    s.snapshot = t.snapshot := by
  have houtput : s₀.output = t₀.output := congrArg Snapshot.output hsame
  have htrace : s₀.trace = t₀.trace := congrArg Snapshot.trace hsame
  have htally : s₀.tally = t₀.tally := congrArg Snapshot.tally hsame
  refine h.snapshot_eq (Array.toList_inj.mp ?_) (Array.toList_inj.mp ?_) ?_
  · rw [hs.output, ht.output, houtput]
  · rw [hs.trace, ht.trace, htrace]
  · rw [hs.tally, ht.tally, htally]

/-! ## Rows of calls side by side -/

/-- Two simulations that agree, and that have both added the same to the records of an earlier
one. -/
structure Parallel (s₀ t₀ s t : Simulation) : Prop where
  agrees : s.Agrees t
  adds : ∃ added, s₀.Adds s added ∧ t₀.Adds t added

section

variable {s₀ t₀ s t : Simulation}

theorem Agrees.parallel (h : s.Agrees t) :
    Parallel s t s t := ⟨h, {}, s.adds_nothing, t.adds_nothing⟩

theorem Parallel.commit (i : Instruction) (e : Effect) (h : Parallel s₀ t₀ s t) :
    Parallel s₀ t₀ (s.commit i e) (t.commit i e) := by
  obtain ⟨hagrees, added, hs, ht⟩ := h
  obtain ⟨hprogram, hmachine⟩ := agrees_iff.mp hagrees
  refine ⟨agrees_iff.mpr ⟨hprogram, ?_⟩, _, hs.commit i e, ht.commit i e⟩
  rw [Simulation.commit, Simulation.commit, hmachine]

theorem lockstep_parallel (s₀ t₀ : Simulation) : Lockstep (Parallel s₀ t₀) :=
  lockstep_of_commit (fun h => h.agrees.goesLike) Parallel.commit

/-- The same change to both machines, without an addition to the records. -/
theorem Parallel.modify (h : Parallel s₀ t₀ s t) (f : Machine → Machine) :
    Parallel s₀ t₀ { s with machine := f s.machine } { t with machine := f t.machine } := by
  obtain ⟨hagrees, added, hs, ht⟩ := h
  obtain ⟨hprogram, hmachine⟩ := agrees_iff.mp hagrees
  refine ⟨agrees_iff.mpr ⟨hprogram, congrArg f hmachine⟩, added, ?_, ?_⟩
  · exact ⟨hs.output, hs.trace, hs.tally⟩
  · exact ⟨ht.output, ht.trace, ht.tally⟩

/-- The other simulation, too, comes to an outcome of the call, with the same result. -/
theorem Parallel.returns {c : Call} {o : Outcome Answer} (h : Parallel s₀ t₀ s t)
    (hc : ¬c.Clearing) (hreturns : Returns s c o) :
    ∃ o', Returns t c o' ∧ o.Alike (Parallel s₀ t₀) o' := by
  have hlock := lockstep_parallel s₀ t₀
  cases hreturns with
  | load | loadSource | reset => exact absurd trivial hc
  | step => exact ⟨_, .step, congrArg (Except.map Answer.stepped) (hlock.result h), hlock.state h⟩
  | run hends =>
      obtain ⟨o', hends', hresult, hstate⟩ := hlock.endsIn h hends
      exact ⟨_, .run hends', congrArg (Except.map Answer.counted) hresult, hstate⟩
  | runFor bound =>
      obtain ⟨hresult, hstate⟩ := hlock.runFor h bound
      exact ⟨_, .runFor bound, congrArg (Except.map Answer.counted) hresult, hstate⟩
  | setRegister r value =>
      exact ⟨_, .setRegister r value, rfl, h.modify fun m => m.change (some (.register r value))⟩
  | @setNamed name value _ hset =>
      obtain ⟨r, hname, rfl⟩ := setRegister_eq_ok_iff.mp hset
      refine ⟨_, .setNamed (setRegister_eq_ok_iff.mpr ⟨r, hname, rfl⟩), rfl, ?_⟩
      exact h.modify fun m => m.change (some (.register r value))
  | setNamedRefused hset =>
      exact ⟨_, .setNamedRefused (setRegister_eq_error_iff.mpr (setRegister_eq_error_iff.mp hset)),
        rfl, h⟩
  | setMemory address value =>
      exact ⟨_, .setMemory address value, rfl,
        h.modify fun m => m.change (some (.memory address value))⟩
  | setCounter pc => exact ⟨_, .setCounter pc, rfl, h.modify fun m => { m with pc }⟩

/-- Rows of calls come to the same, outcome by outcome. -/
theorem Parallel.follows {calls : List Call} {outcomes : List (Outcome Answer)}
    (h : Parallel s₀ t₀ s t) (hcalls : ∀ c ∈ calls, ¬c.Clearing)
    (hfollows : Follows s calls outcomes) :
    ∃ outcomes', Follows t calls outcomes' ∧
      List.Forall₂ (Outcome.Alike (Parallel s₀ t₀)) outcomes outcomes' := by
  -- `s₀` and `t₀` stay, so that all additions are counted from the start of the row
  induction hfollows generalizing t with
  | nil => exact ⟨[], .nil t, .nil⟩
  | cons hreturns _ ih =>
      obtain ⟨hc, hcalls⟩ := List.forall_mem_cons.mp hcalls
      obtain ⟨o', hreturns', hsame⟩ := h.returns hc hreturns
      obtain ⟨outcomes', hfollows', hrest⟩ := ih hsame.state hcalls
      exact ⟨o' :: outcomes', .cons hreturns' hfollows', .cons hsame hrest⟩

/-- As there is one row of outcomes at most, that is all there is to say of two of them. -/
theorem Agrees.forall₂_of_follows {calls : List Call} {outcomes outcomes' : List (Outcome Answer)}
    (h : s.Agrees t) (hcalls : ∀ c ∈ calls, ¬c.Clearing) (hs : Follows s calls outcomes)
    (ht : Follows t calls outcomes') :
    List.Forall₂ (Outcome.Alike (Parallel s t)) outcomes outcomes' := by
  obtain ⟨others, hothers, hsame⟩ := h.parallel.follows hcalls hs
  rwa [ht.unique hothers]

end

/-- What is to be shown can be set anew at any time. -/
theorem lockstep_settings (settings : Settings) : Lockstep fun s t => t = { s with settings } := by
  refine lockstep_of_commit ?_ ?_
  · rintro s _ rfl
    exact ⟨⟨rfl, rfl, rfl⟩, rfl⟩
  · rintro s _ i e rfl
    rfl

/-- Calls other than loads and resets come to the same in both simulations, whatever was
recorded before and whatever is shown meanwhile: the results are the same, the machines keep
reading alike, and the same is added to the records.  If there is no telling the simulations
apart by a snapshot at the start, there never is. -/
theorem execution_ignores_records {s t : Simulation} {calls : List Call}
    (hcalls : ∀ c ∈ calls, ¬c.Clearing) :
    (s.Agrees t →
      ((∃ outcomes, Follows s calls outcomes) ↔ ∃ outcomes, Follows t calls outcomes) ∧
      ∀ outcomes outcomes', Follows s calls outcomes → Follows t calls outcomes' →
        List.Forall₂ (fun o o' => o.result = o'.result ∧ o.state.Agrees o'.state ∧
          ∃ added, s.Adds o.state added ∧ t.Adds o'.state added) outcomes outcomes') ∧
    (s.program = t.program → s.machine.product = t.machine.product → s.snapshot = t.snapshot →
      ∀ outcomes outcomes', Follows s calls outcomes → Follows t calls outcomes' →
        List.Forall₂ (fun o o' => o.result = o'.result ∧ o.state.snapshot = o'.state.snapshot)
          outcomes outcomes') := by
  constructor
  · intro h
    refine ⟨⟨?_, ?_⟩, ?_⟩
    · rintro ⟨outcomes, hs⟩
      obtain ⟨outcomes', ht, -⟩ := h.parallel.follows hcalls hs
      exact ⟨outcomes', ht⟩
    · rintro ⟨outcomes, ht⟩
      obtain ⟨outcomes', hs, -⟩ := h.symm.parallel.follows hcalls ht
      exact ⟨outcomes', hs⟩
    · intro outcomes outcomes' hs ht
      refine (h.forall₂_of_follows hcalls hs ht).imp fun o o' hsame => ?_
      exact ⟨hsame.result, hsame.state.agrees, hsame.state.adds⟩
  · intro hprogram hproduct hsnapshot outcomes outcomes' hs ht
    have h : s.Agrees t := agrees_of_snapshot_eq hprogram hproduct hsnapshot
    refine (h.forall₂_of_follows hcalls hs ht).imp fun o o' hsame => ⟨hsame.result, ?_⟩
    obtain ⟨hagrees, added, hadds, hadds'⟩ := hsame.state
    exact hadds.snapshot_eq hadds' hsnapshot hagrees

/-- A program that is run a second time with everything shown, beside a fresh one with the same
word in memory; and the fresh one beside itself with other settings. -/
theorem execution_ignores_records_of_rerun :
    let lines := ["print $t0", "sw $t0, 4($zero)", "bne $t0, $zero, away"]
    let loud : Settings := { traceInstructions := true, echoOutput := true }
    let s := (fresh.load lines).state.setMemory 4 0
    let t := (((idle (.initial .t0) loud).load lines).state.runFor 2).state.setCounter 0
    let u := { s with settings := loud }
    let calls : List Call := [.setNamed "$t99" 5, .setRegister .t0 5, .step, .runFor 9]
    let outcomes := fun v : Simulation =>
      [⟨.error (.unknownRegister "$t99"), v, #[]⟩, ⟨.ok .done, v.withRegister .t0 5, #[]⟩,
        (v.withRegister .t0 5).step.map .stepped,
        ((v.withRegister .t0 5).step.state.runFor 9).map .counted]
    Follows s calls (outcomes s) ∧ Follows t calls (outcomes t) ∧ s.snapshot ≠ t.snapshot ∧
      (outcomes t).map (fun o => o.result) = [.error (.unknownRegister "$t99"), .ok .done,
        .ok (.stepped .executed), .error (.unknownLabel "away")] ∧
      (outcomes t).map (fun o => o.state.output) = [#["0"], #["0"], #["0", "5"], #["0", "5"]] ∧
      List.Forall₂ (fun o o' => o.result = o'.result ∧ o.state.Agrees o'.state ∧
        ∃ added, s.Adds o.state added ∧ t.Adds o'.state added) (outcomes s) (outcomes t) ∧
      List.Forall₂ (fun o o' => o.result = o'.result ∧ o.state.snapshot = o'.state.snapshot)
        (outcomes s) (outcomes u) := by
  intro lines loud s t u calls outcomes
  have hcalls : ∀ c ∈ calls, ¬c.Clearing := by simp [calls, Call.Clearing]
  have hfollows : ∀ v : Simulation, Follows v calls (outcomes v) := by
    intro v
    exact .cons (.setNamedRefused rfl)
      (.cons (.setRegister .t0 5) (.cons .step (.cons (.runFor 9) (.nil _))))
  have hstates : (s.program = t.program ∧ s.machine = t.machine) ∧ s.snapshot ≠ t.snapshot ∧
      (outcomes t).map (fun o => o.result) = [.error (.unknownRegister "$t99"), .ok .done,
        .ok (.stepped .executed), .error (.unknownLabel "away")] ∧
      (outcomes t).map (fun o => o.state.output) = [#["0"], #["0"], #["0", "5"], #["0", "5"]] := by
    decide +kernel
  obtain ⟨hsame, hdiffer, hresults, houtputs⟩ := hstates
  obtain ⟨-, hagree⟩ := (execution_ignores_records hcalls).1 (agrees_iff.mpr hsame)
  have hshots := (execution_ignores_records (s := s) (t := u) hcalls).2 rfl rfl rfl
  exact ⟨hfollows s, hfollows t, hdiffer, hresults, houtputs, hagree _ _ (hfollows s) (hfollows t),
    hshots _ _ (hfollows s) (hfollows u)⟩

end Simulation

end MipsMachine
