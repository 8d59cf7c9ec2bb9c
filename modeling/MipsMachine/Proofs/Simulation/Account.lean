import MipsMachine.Proofs.Instruction.Opcode
import MipsMachine.Proofs.Simulation.History
import MipsMachine.Proofs.Tally

set_option autoImplicit false

/-!
# The tally and the trace

The tally is kept beside the trace and the output, and each step adds to all three.
`Accounted` says that they add up: every count by class is the number of words in the trace
with an opcode of that class.  It holds of every simulation that was set up and then called in
whatever way, so the tally can be recounted from the trace at any time
(`tally_recounts_trace`).
-/

namespace MipsMachine

/-- The instructions that print a line are those of the class `output`. -/
theorem Machine.length_output?_of_effect {m : Machine} {p : Program} {i : Instruction} {e : Effect}
    (h : m.effect p i = .ok e) :
    e.output?.toList.length = if i.classOf = .output then 1 else 0 := by
  cases i with
  | branch test rs rt label =>
      obtain ⟨target, -, rfl⟩ := effect_branch_eq_ok_iff.mp h
      rfl
  | _ =>
      obtain rfl := Except.ok.inj h
      rfl

namespace Simulation

/-- How many words of the trace have an opcode of the class. -/
def tracedIn (s : Simulation) (c : InstructionClass) : Nat :=
  s.trace.countP fun w => w.opcode ∈ c.opcodes

/-- The tally adds up with the trace and the output. -/
structure Accounted (s : Simulation) : Prop where
  retired : s.tally.retired = s.trace.size
  byClass : s.tally.byClass = s.trace.size
  ofClass : ∀ c, s.tally.ofClass c = s.tracedIn c
  output : s.output.size = s.tally.output
  branches : s.tally.taken + s.tally.notTaken = s.tally.branch

theorem tracedIn_commit (s : Simulation) (i : Instruction) (e : Effect) (c : InstructionClass) :
    (s.commit i e).tracedIn c = s.tracedIn c + if i.classOf = c then 1 else 0 := by
  simp [tracedIn, commit, Array.countP_push, Instruction.opcode_encode_mem_iff]

theorem Accounted.commit {s : Simulation} (h : s.Accounted) {i : Instruction} {e : Effect}
    (heffect : s.machine.effect s.program i = .ok e) : (s.commit i e).Accounted where
  retired := by simp [Simulation.commit, h.retired]
  byClass := by simp [Simulation.commit, Tally.byClass_record, h.byClass]
  ofClass c := by
    rw [tracedIn_commit, ← h.ofClass]
    exact s.tally.ofClass_record i.classOf c e.flow
  output := by
    have hcount : (s.tally.record i.classOf e.flow).output = s.tally.output + _ :=
      s.tally.ofClass_record i.classOf .output e.flow
    show (s.output ++ e.output?.toList).size = (s.tally.record i.classOf e.flow).output
    rw [hcount, ← Array.length_toList, Array.toList_appendList, List.length_append,
      Array.length_toList, h.output, Machine.length_output?_of_effect heffect]
  branches := by
    have hflows := s.tally.taken_add_notTaken_record i.classOf e.flow
    have hbranch := s.tally.branch_record i.classOf e.flow
    show (s.tally.record i.classOf e.flow).taken + (s.tally.record i.classOf e.flow).notTaken = _
    rw [hflows, h.branches]
    exact hbranch.symm

theorem Accounted.step {s : Simulation} (h : s.Accounted) : s.step.state.Accounted := by
  have hs := s.stepped
  generalize s.step = o at hs
  cases hs with
  | finished => exact h
  | refused => exact h
  | executed _ hresolve => exact h.commit (resolve_eq_ok_iff.mp hresolve).2

theorem accounted_idle (machine : Machine) (settings : Settings) (program : Program) :
    Accounted { idle machine settings with program } :=
  ⟨rfl, rfl, fun c => by cases c <;> rfl, rfl, rfl⟩

theorem Accounted.call {s : Simulation} {c : Call} {o : Outcome Answer} (h : s.Accounted)
    (hreturns : Returns s c o) : o.state.Accounted := by
  by_cases hexecuting : c.Executing
  · exact hreturns.preserves_of_executing Accounted.step hexecuting h
  · rcases hreturns.of_not_executing hexecuting with ⟨machine, hstate⟩ | ⟨program, hstate⟩
    · rw [hstate]
      exact ⟨h.retired, h.byClass, h.ofClass, h.output, h.branches⟩
    · rw [hstate]
      exact accounted_idle _ _ _

/-- No count is greater than the number of words in the trace. -/
theorem Accounted.count_le {s : Simulation} (h : s.Accounted) {count : String × Nat}
    (hcount : count ∈ s.tally.counts) : count.2 ≤ s.trace.size := by
  have hsum := h.byClass
  have hflows := h.branches
  have hretired := h.retired
  rw [Tally.byClass] at hsum
  simp only [Tally.counts, List.mem_cons, List.not_mem_nil, or_false] at hcount
  rcases hcount with rfl | rfl | rfl | rfl | rfl | rfl | rfl | rfl | rfl <;> simp only <;> omega

/-! ## What runs add -/

theorem retired_step {s : Simulation} (h : s.step.result = .ok .executed) :
    s.step.state.tally.retired = s.tally.retired + 1 := by
  obtain ⟨_, i, e, -, -, -, hstate⟩ := exists_commit_of_executed h
  rw [hstate]
  rfl

theorem retired_after {s : Simulation} {k : Nat} (h : s.Executes k) :
    (s.after k).tally.retired = s.tally.retired + k := by
  induction k with
  | zero => rfl
  | succ k ih =>
      obtain ⟨hfirst, hlast⟩ := executes_succ_last_iff.mp h
      rw [after_succ_last, retired_step hlast, ih hfirst, Nat.add_assoc]

theorem retired_runFor {s : Simulation} {n k : Nat} (h : (s.runFor n).result = .ok k) :
    (s.runFor n).state.tally.retired = s.tally.retired + k := by
  obtain ⟨j, hj⟩ := s.exists_stopsAfter n
  obtain ⟨rfl, -⟩ := (runFor_result_eq_ok_iff hj k).mp h
  rw [runFor_state hj, retired_after hj.executes]

theorem EndsIn.retired {s : Simulation} {o : Outcome Nat} {k : Nat} (h : s.EndsIn o)
    (hk : o.result = .ok k) : o.state.tally.retired = s.tally.retired + k := by
  obtain ⟨n, hn⟩ := h.exists_endsWithin
  obtain ⟨hresult, hstate⟩ := (hn n (Nat.le_refl n)).run_eq.2 o h
  rw [hstate]
  exact retired_runFor (hresult.symm.trans hk)

/-! ## Recounting -/

/-- Whatever is done with a simulation that was set up, its tally is what the opcodes of its
trace add up to, and as many lines were printed as instructions that print are counted.
Branches that were taken and branches that were not are all branches.  While fewer than `2 ^
64` words are in the trace no count needs more than 64 bits, and neither does the sum of the
last two.  A run adds the number of instructions that it gives as its result. -/
theorem tally_recounts_trace {s₀ s : Simulation}
    (hstart : s₀ = fresh ∨ ∃ settings, ofSettings settings = .ok s₀)
    (hreaches : Reaches (fun _ => True) s₀ s) :
    s.trace.size = s.tally.retired ∧
    s.tally.retired = s.tally.alu + s.tally.load + s.tally.store + s.tally.branch + s.tally.output
      + s.tally.halt ∧
    s.output.size = s.tally.output ∧
    s.tally.taken + s.tally.notTaken = s.tally.branch ∧
    (∀ c, s.tally.ofClass c = s.trace.countP fun w => w.opcode ∈ c.opcodes) ∧
    (s.trace.size < UInt64.size →
      (∀ count ∈ s.tally.counts, (UInt64.ofNat count.2).toNat = count.2) ∧
      (UInt64.ofNat s.tally.taken + UInt64.ofNat s.tally.notTaken).toNat
        = s.tally.taken + s.tally.notTaken) ∧
    (∀ n k, (s.runFor n).result = .ok k →
      (s.runFor n).state.tally.retired = s.tally.retired + k) ∧
    (∀ o k, s.EndsIn o → o.result = .ok k → o.state.tally.retired = s.tally.retired + k) := by
  have hidle : s₀.Accounted := by
    rcases hstart with rfl | ⟨settings, hsettings⟩
    · exact accounted_idle _ _ _
    · rw [ofSettings] at hsettings
      split at hsettings
      next product _ =>
        obtain rfl := Except.ok.inj hsettings
        exact accounted_idle _ _ _
      next => cases hsettings
  have h : s.Accounted := hreaches.invariant hidle fun hu _ hreturns => hu.call hreturns
  refine ⟨h.retired.symm, h.retired.trans h.byClass.symm, h.output, h.branches, h.ofClass, ?_,
    fun _ _ => retired_runFor, fun _ _ => EndsIn.retired⟩
  intro hsize
  refine ⟨fun count hcount =>
    UInt64.toNat_ofNat_of_lt' (Nat.lt_of_le_of_lt (h.count_le hcount) hsize), ?_⟩
  have hcounted : ("inst_branch", s.tally.branch) ∈ s.tally.counts := by simp [Tally.counts]
  have hbranch : s.tally.branch ≤ s.trace.size := h.count_le hcounted
  rw [← UInt64.ofNat_add, h.branches]
  exact UInt64.toNat_ofNat_of_lt' (Nat.lt_of_le_of_lt hbranch hsize)

/-- A run that fails, then another program, in which a branch is taken once and then not, and a
step into the middle of it: what was executed before the second load does not count. -/
theorem tally_recounts_trace_after_reload :
    let failed := ((fresh.load ["lw $t1, 4($zero)", "leap away"]).state.runFor 5).state
    let lines := ["addi $t0, $zero, 2", "again: print $t0", "addi $t0, $t0, -1",
      "bne $t0, $zero, again", "sw $t0, 4($zero)"]
    let s := (((failed.load lines).state.runFor 8).state.setCounter 1).step.state
    Reaches (fun _ => True) fresh s ∧ failed.tally.load = 1 ∧ s.tally.load = 0 ∧
      s.trace.size = 9 ∧ s.tally.retired = 9 ∧ s.output = #["2", "1", "0"] ∧ s.tally.output = 3 ∧
      s.tally.taken = 1 ∧ s.tally.notTaken = 1 ∧
      (s.trace.countP fun w => w.opcode ∈ InstructionClass.branch.opcodes) = 2 ∧
      (UInt64.ofNat s.tally.taken + UInt64.ofNat s.tally.notTaken).toNat = 2 := by
  intro failed lines s
  have hfirst : Reaches (fun _ => True) fresh failed := (Reaches.refl.load trivial).runFor trivial
  have hsecond : Reaches (fun _ => True) fresh ((failed.load lines).state.runFor 8).state :=
    (hfirst.load trivial).runFor trivial
  have hreaches : Reaches (fun _ => True) fresh s := (hsecond.setCounter trivial).step trivial
  obtain ⟨hsize, -, houtput, hbranches, hclasses, hfits, -, -⟩ :=
    tally_recounts_trace (Or.inl rfl) hreaches
  have hrecords : failed.tally.load = 1 ∧ s.tally.load = 0 ∧ s.tally.retired = 9 ∧
      s.tally.taken = 1 ∧ s.tally.notTaken = 1 ∧ s.output = #["2", "1", "0"] := by
    decide +kernel
  obtain ⟨hfailed, hload, hretired, htaken, hnotTaken, hlines⟩ := hrecords
  rw [hretired] at hsize
  rw [hlines] at houtput
  rw [htaken, hnotTaken] at hbranches
  obtain ⟨-, hsum⟩ := hfits (by rw [hsize]; decide)
  refine ⟨hreaches, hfailed, hload, hsize, hretired, hlines, houtput.symm, htaken,
    hnotTaken, ?_, ?_⟩
  · exact (hclasses .branch).symm.trans hbranches.symm
  · rw [hsum, htaken, hnotTaken]

end Simulation

end MipsMachine
