import MipsMachine.Proofs.Simulation.History

set_option autoImplicit false

/-!
# Starting over

A load and a reset leave nothing of what a simulation went through before, with one intended
exception: the settings stay, and with them the register for products.  No call changes either
of the two (`Configured.call`), so a load leads from every simulation with the same settings to
one and the same simulation (`load_leaves_nothing_behind`).  As every call comes to one outcome
at most (`Returns.unique`), nothing can tell the simulations apart afterwards.
-/

namespace MipsMachine.Simulation

/-! ## What no call changes -/

/-- The simulation has the given settings, and its register for products is the one that they
name. -/
structure Configured (settings : Settings) (s : Simulation) : Prop where
  settings_eq : s.settings = settings
  product_eq : settings.product = .ok s.machine.product

theorem ofSettings_eq_ok_iff {settings : Settings} {s : Simulation} :
    ofSettings settings = .ok s ↔
      ∃ product, settings.product = .ok product ∧ s = idle (.initial product) settings := by
  rw [ofSettings]
  cases settings.product with
  | error fault => simp
  | ok product => simp [eq_comm]

theorem configured_of_ofSettings {settings : Settings} {s : Simulation}
    (h : ofSettings settings = .ok s) :
    s.Configured settings := by
  obtain ⟨product, hproduct, rfl⟩ := ofSettings_eq_ok_iff.mp h
  exact ⟨rfl, hproduct⟩

theorem Configured.step {settings : Settings} {s : Simulation} (h : s.Configured settings) :
    s.step.state.Configured settings := by
  have hs := s.stepped
  generalize s.step = o at hs
  cases hs with
  | finished => exact h
  | refused => exact h
  | @executed text i e htext hresolve =>
      refine ⟨h.settings_eq, ?_⟩
      rw [h.product_eq]
      exact congrArg Except.ok (Machine.product_change s.machine e.write?).symm

theorem Configured.change {settings : Settings} {s : Simulation} (h : s.Configured settings)
    (w : Option Write) : Configured settings { s with machine := s.machine.change w } :=
  ⟨h.settings_eq, by rw [h.product_eq, Machine.product_change]⟩

/-- Settings and register for products survive every call, loads and resets among them. -/
theorem Configured.call {settings : Settings} {s : Simulation} {c : Call} {o : Outcome Answer}
    (h : s.Configured settings) (hreturns : Returns s c o) : o.state.Configured settings := by
  by_cases hexecuting : c.Executing
  · exact hreturns.preserves_of_executing Configured.step hexecuting h
  · by_cases hwriting : c.Writing
    · obtain ⟨w, hw⟩ := hreturns.exists_change_of_writing hwriting
      rw [hw]
      exact h.change w
    · cases hreturns with
      | load | loadSource | reset | setCounter => exact ⟨h.settings_eq, h.product_eq⟩
      | setRegister | setNamed | setNamedRefused | setMemory => exact absurd trivial hwriting
      | step | run | runFor => exact absurd trivial hexecuting

/-- What is cleared is the simulation that the settings set up. -/
theorem Configured.cleared_eq {settings : Settings} {s s₀ : Simulation} (h : s.Configured settings)
    (hstart : ofSettings settings = .ok s₀) : s.cleared = s₀ := by
  obtain ⟨product, hproduct, rfl⟩ := ofSettings_eq_ok_iff.mp hstart
  obtain rfl : product = s.machine.product := Except.ok.inj (hproduct.symm.trans h.product_eq)
  rw [cleared, h.settings_eq, Machine.reset]

/-! ## Rows of calls -/

/-- Every call comes to one outcome at most. -/
theorem Returns.unique {s : Simulation} {c : Call} {o o' : Outcome Answer} (h : Returns s c o)
    (h' : Returns s c o') : o = o' := by
  cases h with
  | run hends =>
      cases h' with
      | run hends' => rw [hends.unique hends']
  | setNamed hset =>
      cases h' with
      | setNamed hset' => rw [Except.ok.inj (hset.symm.trans hset')]
      | setNamedRefused hset' => cases hset.symm.trans hset'
  | setNamedRefused hset =>
      cases h' with
      | setNamed hset' => cases hset.symm.trans hset'
      | setNamedRefused hset' => rw [Except.error.inj (hset.symm.trans hset')]
  | _ =>
      cases h'
      rfl

/-- Calls that are made one after the other come to the given outcomes, each from the
simulation that the one before it left. -/
inductive Follows : Simulation → List Call → List (Outcome Answer) → Prop
  | nil (s : Simulation) : Follows s [] []
  | cons {s : Simulation} {c : Call} {o : Outcome Answer} {calls : List Call}
      {outcomes : List (Outcome Answer)} (hreturns : Returns s c o)
      (hrest : Follows o.state calls outcomes) : Follows s (c :: calls) (o :: outcomes)

theorem Follows.unique {s : Simulation} {calls : List Call}
    {outcomes outcomes' : List (Outcome Answer)} (h : Follows s calls outcomes)
    (h' : Follows s calls outcomes') : outcomes = outcomes' := by
  induction h generalizing outcomes' with
  | nil => cases h' with | nil => rfl
  | cons hreturns _ ih =>
      cases h' with
      | cons hreturns' hrest' =>
          obtain rfl := hreturns.unique hreturns'
          rw [ih hrest']

/-! ## Nothing is left behind -/

theorem load_eq_of_cleared_eq {s t : Simulation} (h : s.cleared = t.cleared)
    (lines : List String) :
    s.load lines = t.load lines := by
  rw [load, load, h]
  rfl

/-- Two simulations with the same settings, each set up and then called in whatever way, are
one simulation after the same load: the one that was just set up, with the program in it.  So
everything that is done from there on comes to the same, if it comes to anything.  A reset
leads back to the simulation that was just set up, and of two loads in a row the first might as
well not have been. -/
theorem load_leaves_nothing_behind {settings settings' : Settings} {s₀ t₀ s t : Simulation}
    (hs₀ : ofSettings settings = .ok s₀) (ht₀ : ofSettings settings' = .ok t₀)
    (hs : Reaches (fun _ => True) s₀ s) (ht : Reaches (fun _ => True) t₀ t)
    (hsame : s.settings = t.settings) :
    (∀ lines, s.load lines = t.load lines ∧ s.load lines = s₀.load lines ∧
      (s.load lines).state = { s₀ with program := .assemble lines }) ∧
    (∀ source, s.loadSource source = t.loadSource source ∧
      s.loadSource source = s₀.loadSource source) ∧
    s.reset = t.reset ∧ s.reset.state = s₀ ∧ ofSettings s.settings = .ok s₀ ∧
    (∀ lines calls outcomes, Follows (s.load lines).state calls outcomes →
      Follows (t.load lines).state calls outcomes ∧
        ∀ outcomes', Follows (t.load lines).state calls outcomes' → outcomes' = outcomes) ∧
    (∀ first lines, (s.load first).state.load lines = s.load lines) ∧
    ofSettings {} = .ok fresh := by
  have hconfigured : s.Configured settings :=
    hs.invariant (configured_of_ofSettings hs₀) fun hu _ hreturns => hu.call hreturns
  have hconfigured' : t.Configured settings' :=
    ht.invariant (configured_of_ofSettings ht₀) fun hu _ hreturns => hu.call hreturns
  obtain rfl : settings = settings' :=
    hconfigured.settings_eq.symm.trans (hsame.trans hconfigured'.settings_eq)
  have hcleared : s.cleared = s₀ := hconfigured.cleared_eq hs₀
  have hsame₀ : s.cleared = s₀.cleared :=
    hcleared.trans ((configured_of_ofSettings hs₀).cleared_eq hs₀).symm
  have hst : s.cleared = t.cleared := hcleared.trans (hconfigured'.cleared_eq hs₀).symm
  have hload : ∀ lines, s.load lines = t.load lines := load_eq_of_cleared_eq hst
  refine ⟨?_, ?_, ?_, hcleared, ?_, ?_, ?_, ?_⟩
  · intro lines
    refine ⟨hload lines, load_eq_of_cleared_eq hsame₀ lines, ?_⟩
    rw [← hcleared]
    rfl
  · intro source
    exact ⟨hload _, load_eq_of_cleared_eq hsame₀ _⟩
  · rw [reset, reset, hst]
  · rw [hconfigured.settings_eq, hs₀]
  · intro lines calls outcomes hfollows
    rw [← hload lines]
    exact ⟨hfollows, fun outcomes' h' => h'.unique hfollows⟩
  · intro first lines
    exact load_eq_of_cleared_eq rfl lines
  · rfl

/-- A product in the register that the settings name, a store, a fault and a counter that was
moved, against one step of another program. -/
theorem load_leaves_nothing_behind_after_fault :
    let settings : Settings := { productName := "$s0" }
    let s₀ := idle (.initial ⟨16⟩) settings
    let failing := ["addi $t1, $zero, 3", "mult $t1, $t1", "sw $s0, 4($zero)", "leap away"]
    let s := (((s₀.load failing).state.runFor 9).state.setMemory 8 1).setCounter 7
    let t := (s₀.load ["print $t0"]).state.step.state
    let lines := ["mult $t1, $t1", "lw $t2, 4($zero)", "print $t2"]
    s.machine.memory.load 4 = 9 ∧ s.machine.registers.read ⟨16⟩ = 9 ∧ t.machine.memory.load 4 = 0 ∧
      t.output = #["0"] ∧ s.load lines = t.load lines ∧ s.reset.state = s₀ ∧
      (s.load lines).state.machine.product = ⟨16⟩ ∧
      Follows (t.load lines).state [.runFor 9] [((s.load lines).state.runFor 9).map .counted] := by
  intro settings s₀ failing s t lines
  have hs₀ : ofSettings settings = .ok s₀ := by rfl
  have hs : Reaches (fun _ => True) s₀ s :=
    (((Reaches.refl.load trivial).runFor trivial).setMemory trivial).setCounter trivial
  have ht : Reaches (fun _ => True) s₀ t := (Reaches.refl.load trivial).step trivial
  have hbefore : s.machine.memory.load 4 = 9 ∧ s.machine.registers.read ⟨16⟩ = 9 ∧
      t.machine.memory.load 4 = 0 ∧ t.output = #["0"] ∧ s.settings = t.settings := by
    decide +kernel
  obtain ⟨hstored, hproduct, hunstored, hprinted, hsame⟩ := hbefore
  obtain ⟨hload, -, -, hreset, -, hfollows, -, -⟩ := load_leaves_nothing_behind hs₀ hs₀ hs ht hsame
  obtain ⟨hequal, -, hstate⟩ := hload lines
  refine ⟨hstored, hproduct, hunstored, hprinted, hequal, hreset,
    congrArg (fun u => u.machine.product) hstate, ?_⟩
  exact (hfollows lines [.runFor 9] _ (.cons (.runFor 9) (.nil _))).1

end MipsMachine.Simulation
