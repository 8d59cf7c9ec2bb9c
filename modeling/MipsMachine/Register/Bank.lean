import MipsMachine.Fault

set_option autoImplicit false

/-!
# The register bank

Thirty-two signed 64-bit values, one for each register.  `$zero` holds 0 in every bank, by
type, so a bank is determined by what its registers read (`ext_read`).  A listing is a bank
written out: each register with its value, in ascending order.
-/

namespace MipsMachine

/-- The values of all registers. -/
structure Bank where
  /-- The values, in the order of the register numbers. -/
  cells : Vector Int64 32
  /-- `$zero` holds 0. -/
  zero_cell : cells[0] = 0
  deriving DecidableEq

/-- Registers with their values, in ascending order. -/
abbrev Listing := List (Register × Int64)

namespace Bank

/-- The bank in which every register holds 0. -/
def cleared : Bank := ⟨.replicate 32 0, by simp⟩

instance : Inhabited Bank := ⟨cleared⟩

/-- The value of a register. -/
def read (b : Bank) (r : Register) : Int64 := b.cells.get r.index

/-- Setting the cell of a register other than `$zero` leaves the cell of `$zero`. -/
theorem zero_cell_set (b : Bank) {r : Register} (h : r ≠ .zero) (value : Int64) :
    (b.cells.set r.index.val value r.index_lt)[0] = 0 := by
  have hr : r.index.val ≠ 0 := fun h0 => h (Register.index_injective (Fin.ext h0))
  rw [Vector.getElem_set_ne _ _ hr, b.zero_cell]

/-- Give a register a value; `$zero` keeps its 0. -/
def write (b : Bank) (r : Register) (value : Int64) : Bank :=
  if h : r = .zero then b
  else ⟨b.cells.set r.index.val value r.index_lt, b.zero_cell_set h value⟩

/-- The value of the register of the given name. -/
def readNamed (b : Bank) (name : String) : Except Fault Int64 :=
  match Register.ofName name with
  | .ok r => .ok (b.read r)
  | .error fault => .error fault

/-- Give the register of the given name a value. -/
def writeNamed (b : Bank) (name : String) (value : Int64) : Except Fault Bank :=
  match Register.ofName name with
  | .ok r => .ok (b.write r value)
  | .error fault => .error fault

/-- Every register with its value. -/
def listing (b : Bank) : Listing := Register.all.map fun r => (r, b.read r)

/-- One line for each register, `name: value`, every line but the first behind a line feed. -/
def text (b : Bank) : String :=
  String.join <| Register.all.map fun r =>
    (if r = .zero then "" else "\n") ++ r.name ++ ": " ++ Numeral.integer (b.read r).toInt

/-! ## Reading after writing -/

@[simp] theorem read_zero (b : Bank) : b.read .zero = 0 := b.zero_cell

@[simp] theorem read_cleared (r : Register) : cleared.read r = 0 := by
  simp [cleared, read, Vector.get]

/-- A register other than `$zero` reads the value written to it; every other register keeps its
value. -/
theorem read_write (b : Bank) (r s : Register) (value : Int64) :
    (b.write r value).read s = if s = r ∧ r ≠ .zero then value else b.read s := by
  unfold write
  split
  next h => simp [h]
  next h =>
    by_cases hs : s = r
    · subst hs
      simp only [ne_eq, h, not_false_eq_true, and_self, if_true]
      exact Vector.getElem_set_self _
    · have : r.index.val ≠ s.index.val := fun hi => hs (Register.index_injective (Fin.ext hi.symm))
      simp only [read, hs, false_and, if_false]
      exact Vector.getElem_set_ne _ _ this

@[simp] theorem write_zero (b : Bank) (value : Int64) : b.write .zero value = b := by
  simp [write]

/-- A bank is determined by what its registers read. -/
theorem ext_read {a b : Bank} (h : ∀ r, a.read r = b.read r) : a = b := by
  obtain ⟨xs, hx⟩ := a
  obtain ⟨ys, hy⟩ := b
  have : xs = ys := Vector.ext fun i hi => h (.ofIndex ⟨i, hi⟩)
  subst this
  rfl

end Bank

namespace Listing

/-- The value listed for the register of the given name. -/
def value? (l : Listing) (name : String) : Option Int64 :=
  (l.find? fun entry => entry.1.name == name).map Prod.snd

/-- One line for each entry, `name: value`. -/
def text (l : Listing) : String :=
  "\n".intercalate (l.map fun entry => entry.1.name ++ ": " ++ Numeral.integer entry.2.toInt)

end Listing

end MipsMachine
