import MipsMachine.Proofs.Register
import MipsMachine.Proofs.Simulation.History
import MipsMachine.Simulation.Snapshot

set_option autoImplicit false

/-!
# Registers along a history

Whatever calls a simulation goes through, its registers come about by clearing and writing: a
call writes registers, or it starts over with registers that are cleared
(`storesRegisters_call`).  So `$zero` shows 0 in every view, the views agree with one another,
and two simulations have equal register banks exactly if all registers read the same
(`register_views_agree`).
-/

namespace MipsMachine

/-- A write to memory or to a register leaves cells that clearing and writing lead to. -/
theorem Machine.stored_change {m : Machine} (h : Cells.Stored m.registers.cells)
    (w : Option Write) :
    Cells.Stored (m.change w).registers.cells := by
  rcases w with _ | ⟨r, value⟩ | ⟨address, value⟩
  · exact h
  · rw [Machine.change, Bank.cells_write]
    exact h.write r value
  · exact h

namespace Simulation

/-- A simulation as it is set up, with settings or without. -/
def SetUp (s : Simulation) : Prop := s = fresh ∨ ∃ settings, ofSettings settings = .ok s

/-- The registers have come about by clearing and writing. -/
def StoresRegisters (s : Simulation) : Prop := Cells.Stored s.machine.registers.cells

theorem SetUp.storesRegisters {s : Simulation} (h : s.SetUp) : s.StoresRegisters := by
  rcases h with rfl | ⟨settings, hs⟩
  · exact .cleared
  · rw [ofSettings] at hs
    split at hs
    next product _ =>
      obtain rfl := Except.ok.inj hs
      exact .cleared
    next => cases hs

theorem StoresRegisters.step {s : Simulation} (h : s.StoresRegisters) :
    s.step.state.StoresRegisters := by
  have hs := s.stepped
  generalize s.step = o at hs
  cases hs with
  | finished => exact h
  | refused => exact h
  | @executed text i e => exact Machine.stored_change h e.write?

/-- Every call keeps the registers such, even a call that starts over. -/
theorem storesRegisters_call {s : Simulation} {c : Call} {o : Outcome Answer}
    (h : s.StoresRegisters) (hreturns : Returns s c o) : o.state.StoresRegisters := by
  cases hreturns with
  | load | loadSource | reset => exact .cleared
  | step => exact h.step
  | run hends => exact (Returns.run hends).preserves_of_executing StoresRegisters.step trivial h
  | runFor bound =>
      exact (Returns.runFor bound).preserves_of_executing StoresRegisters.step trivial h
  | setRegister r value => exact Machine.stored_change h (some (.register r value))
  | setNamed hset =>
      obtain ⟨r, rfl⟩ := exists_eq_withRegister hset
      exact Machine.stored_change h (some (.register r _))
  | setNamedRefused => exact h
  | setMemory => exact h
  | setCounter => exact h

theorem Reaches.storesRegisters {allowed : Call → Prop} {s t : Simulation}
    (hreaches : Reaches allowed s t) (h : s.StoresRegisters) : t.StoresRegisters :=
  hreaches.invariant h fun hu _ hreturns => storesRegisters_call hu hreturns

/-- One register has got the value, except that `$zero` keeps its 0; everything else is as
before. -/
structure HasWritten (s t : Simulation) (r : Register) (value : Int64) : Prop where
  written : t.machine.registers.read r = if r = .zero then 0 else value
  others : ∀ r' ≠ r, t.machine.registers.read r' = s.machine.registers.read r'
  rest : t = { s with machine := { s.machine with registers := t.machine.registers } }

theorem hasWritten_withRegister (s : Simulation) (r : Register) (value : Int64) :
    s.HasWritten (s.withRegister r value) r value where
  written := by
    show (s.machine.registers.write r value).read r = _
    rw [Bank.read_write]
    by_cases hr : r = .zero
    · simp [hr]
    · simp [hr]
  others r' hr' := by
    show (s.machine.registers.write r value).read r' = _
    rw [Bank.read_write, if_neg fun h => hr' h.1]
  rest := rfl

/-- Whatever calls have led to a simulation, its registers show the same values in its bank and
in its snapshot, by register, by name, by number and as a text, and in all of them `$zero`
shows 0.  A value written to a register, by its number or by its name, changes that register
alone; a write to a name that no register has is refused and changes nothing.  The banks of two
such simulations are equal exactly if all registers read the same in them. -/
theorem register_views_agree {s₀ s : Simulation} (hsetup : s₀.SetUp)
    (hreaches : Reaches (fun _ => True) s₀ s) :
    Cells.Stored s.machine.registers.cells ∧
    s.machine.registers.ViewsAgree s.snapshot.registers ∧
    (s.machine.registers.read .zero = 0 ∧ s.machine.registers.readNamed "$zero" = .ok 0 ∧
      s.snapshot.registers.value? "$zero" = some 0 ∧ s.snapshot.registers[0]? = some (.zero, 0)) ∧
    (∀ r value, Register.ofNat? r.index.val = some r ∧
      s.setRegister r.name value = .ok (s.withRegister r value) ∧
      s.HasWritten (s.withRegister r value) r value) ∧
    (∀ name value, (∀ r : Register, r.name ≠ name) →
      s.setRegister name value = .error (.unknownRegister name) ∧
      ∀ o, Returns s (.setNamed name value) o → o = ⟨.error (.unknownRegister name), s, #[]⟩) ∧
    ∀ {t₀ t : Simulation}, t₀.SetUp → Reaches (fun _ => True) t₀ t →
      (s.machine.registers = t.machine.registers ↔
        ∀ r, s.machine.registers.read r = t.machine.registers.read r) := by
  have hs : s.StoresRegisters := hreaches.storesRegisters hsetup.storesRegisters
  have hviews : s.machine.registers.ViewsAgree s.snapshot.registers :=
    s.machine.registers.viewsAgree
  have hzero : s.machine.registers.read .zero = 0 := hs.zero_cell
  refine ⟨hs, hviews, ⟨hzero, ?_, ?_, ?_⟩, ?_, ?_, ?_⟩
  · exact (hviews.named "$zero" 0).mpr ⟨.zero, rfl, hzero⟩
  · exact (hviews.valued "$zero" 0).mpr ⟨.zero, rfl, hzero⟩
  · rw [hviews.listed 0, ← hzero]
    rfl
  · intro r value
    have hnamed : s.setRegister r.name value = .ok (s.withRegister r value) :=
      setRegister_eq_ok_iff.mpr ⟨r, Register.ofName_eq_ok_iff.mpr rfl, rfl⟩
    exact ⟨Register.ofNat?_index r, hnamed, s.hasWritten_withRegister r value⟩
  · intro name value hname
    have hrefused : s.setRegister name value = .error (.unknownRegister name) :=
      setRegister_eq_error_iff.mpr (Register.ofName_eq_error_iff.mpr ⟨hname, rfl⟩)
    refine ⟨hrefused, ?_⟩
    intro o hreturns
    cases hreturns with
    | setNamed hset => cases hrefused.symm.trans hset
    | setNamedRefused hset =>
        obtain rfl := Except.error.inj (hrefused.symm.trans hset)
        rfl
  · intro t₀ t htsetup htreaches
    have ht : t.StoresRegisters := htreaches.storesRegisters htsetup.storesRegisters
    rw [Bank.eq_iff_cells_eq, hs.eq_iff ht]
    simp only [hviews.masked, t.machine.registers.viewsAgree.masked]

/-- Products go to `$zero`, an instruction has `$zero` for its destination, and a write by
register and one by name go there. -/
theorem register_views_agree_with_products_to_zero :
    let s₀ := idle (.initial .zero) { productName := "$zero" }
    let loaded := (s₀.load ["addi $t0, $zero, 7", "mult $t0, $t0", "addi $zero, $t0, 1"]).state
    let s := (((loaded.withRegister .zero 5).withRegister .zero 6).runFor 9).state
    s₀.SetUp ∧ Reaches (fun _ => True) s₀ s ∧ s.tally.retired = 3 ∧
      s.snapshot.registers.value? "$zero" = some 0 ∧ s.machine.registers.readNamed "$t0" = .ok 7 ∧
      s.setRegister "$T0" 1 = .error (.unknownRegister "$T0") := by
  intro s₀ loaded s
  have hsetup : s₀.SetUp := .inr ⟨{ productName := "$zero" }, rfl⟩
  have hloaded : Reaches (fun _ => True) s₀ loaded := Reaches.refl.load trivial
  have hnamed : (loaded.withRegister .zero 5).setRegister "$zero" 6 =
      .ok ((loaded.withRegister .zero 5).withRegister .zero 6) := rfl
  have hreaches : Reaches (fun _ => True) s₀ s :=
    ((hloaded.call trivial (.setRegister .zero 5)).call trivial (.setNamed hnamed)).runFor trivial
  obtain ⟨-, hviews, ⟨-, -, hzero, -⟩, -, hunknown, -⟩ := register_views_agree hsetup hreaches
  refine ⟨hsetup, hreaches, by decide +kernel, hzero, ?_, ?_⟩
  · exact (hviews.named "$t0" 7).mpr ⟨.t0, rfl, by decide +kernel⟩
  · exact (hunknown "$T0" 1 (Register.forall_of_index (by decide))).1

end Simulation

end MipsMachine
