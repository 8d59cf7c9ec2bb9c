import MipsMachine.Numeral
import MipsMachine.Table

set_option autoImplicit false

/-!
# Data memory

One signed 64-bit value for every signed 64-bit address, without alignment or bounds.  Only
what was stored takes space; all other addresses read 0.  A stored 0 still counts as stored.
-/

namespace MipsMachine

/-- The stored words, by address. -/
structure Memory where
  /-- Stored words in ascending signed order of their addresses. -/
  words : Table Int64 Int64
  deriving DecidableEq

namespace Memory

/-- The memory in which nothing was stored. -/
def empty : Memory := ⟨∅⟩

instance : EmptyCollection Memory := ⟨empty⟩

instance : Inhabited Memory := ⟨empty⟩

/-- The word at an address; 0 if nothing was stored there. -/
def load (m : Memory) (address : Int64) : Int64 := (m.words.find? address).getD 0

/-- Store a word at an address. -/
def store (m : Memory) (address value : Int64) : Memory := ⟨m.words.insert address value⟩

/-- The number of addresses that were stored to. -/
def size (m : Memory) : Nat := m.words.size

/-- Whether nothing was stored. -/
def isEmpty (m : Memory) : Bool := m.words.isEmpty

/-- Whether an address was stored to. -/
def written (m : Memory) (address : Int64) : Bool := m.words.contains address

/-- The stored words with their addresses, in ascending order. -/
def toList (m : Memory) : List (Int64 × Int64) := m.words.toList

/-- How an address is shown: its 64-bit two's complement in hexadecimal. -/
def addressText (address : Int64) : String := Numeral.address address.toBitVec.toNat

/-- One line for each stored word, `[address]: value`. -/
def text (m : Memory) : String :=
  "\n".intercalate <| m.toList.map fun entry =>
    "[" ++ addressText entry.1 ++ "]: " ++ Numeral.integer entry.2.toInt

/-! ## Loading after storing -/

@[simp] theorem load_empty (address : Int64) : (∅ : Memory).load address = 0 := rfl

theorem load_store (m : Memory) (a b value : Int64) :
    (m.store a value).load b = if b = a then value else m.load b := by
  by_cases h : b = a <;> simp [load, store, Table.find?_insert, h]

theorem written_store (m : Memory) (a b value : Int64) :
    (m.store a value).written b = (b = a || m.written b) := by
  by_cases h : b = a <;> simp [written, store, Table.contains, Table.find?_insert, h]

end Memory

end MipsMachine
