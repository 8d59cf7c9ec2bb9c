import MipsMachine.Register.Bank

set_option autoImplicit false

/-!
# Views of the registers

A register bank can be looked at by register and by name, in its listing by number and by name,
and as a text.  All of them show the same values (`viewsAgree`).  `Cells` are values without
the promise that `$zero` holds 0.  Reading gives 0 for `$zero` whatever its cell holds, and
nothing is ever written to that cell; so the cells that clearing and writing lead to hold 0
there, and they are equal if their reads agree (`Stored.eq_iff`).
-/

namespace MipsMachine

/-! ## Numbers and names -/

namespace Register

theorem name_injective {r q : Register} (h : r.name = q.name) : r = q := by
  have hr := ofName?_name r
  rw [h, ofName?_name] at hr
  exact (Option.some.inj hr).symm

theorem ofNat?_index (r : Register) : ofNat? r.index.val = some r := by
  rw [ofNat?, dif_pos r.index_lt]
  rfl

theorem ofName_eq_ok_iff {t : String} {r : Register} : ofName t = .ok r ↔ r.name = t := by
  rw [ofName, ← ofName?_eq_some_iff]
  cases ofName? t <;> simp

theorem ofName_eq_error_iff {t : String} {fault : Fault} :
    ofName t = .error fault ↔ (∀ r : Register, r.name ≠ t) ∧ fault = .unknownRegister t := by
  have hnone : ofName? t = none ↔ ∀ r : Register, r.name ≠ t := by
    simp only [Option.eq_none_iff_forall_ne_some, ne_eq, ofName?_eq_some_iff]
  rw [ofName, ← hnone]
  cases ofName? t <;> simp [eq_comm]

end Register

/-! ## Cells -/

/-- The values of all registers, with any value for `$zero`. -/
abbrev Cells := Vector Int64 32

namespace Cells

/-- The value that a register shows; `$zero` shows 0. -/
def read (cells : Cells) (r : Register) : Int64 := if r = .zero then 0 else cells.get r.index

/-- Give a register a value; writes to `$zero` are dropped. -/
def write (cells : Cells) (r : Register) (value : Int64) : Cells :=
  if r = .zero then cells else cells.set r.index.val value r.index_lt

/-- The cells that clearing and writing lead to. -/
inductive Stored : Cells → Prop
  | cleared : Stored (.replicate 32 0)
  | write {cells : Cells} (h : Stored cells) (r : Register) (value : Int64) :
      Stored (cells.write r value)

/-- No write gets to the cell of `$zero`. -/
theorem Stored.zero_cell {cells : Cells} (h : Stored cells) :
    cells.get Register.zero.index = 0 := by
  induction h with
  | cleared => exact Vector.getElem_replicate _
  | @write cells _ r value ih =>
      rw [Cells.write]
      split
      next => exact ih
      next hr =>
        have hindex : r.index.val ≠ Register.zero.index.val :=
          fun hi => hr (Register.index_injective (Fin.ext hi))
        exact (Vector.getElem_set_ne _ _ hindex).trans ih

theorem Stored.read_eq {cells : Cells} (h : Stored cells) (r : Register) :
    cells.read r = cells.get r.index := by
  rw [read]
  split
  next hr =>
    subst hr
    exact h.zero_cell.symm
  next => rfl

/-- Cells are equal if all registers show the same in them. -/
theorem Stored.eq_iff {xs ys : Cells} (hx : Stored xs) (hy : Stored ys) :
    xs = ys ↔ ∀ r, xs.read r = ys.read r := by
  constructor
  · rintro rfl r
    rfl
  · intro h
    apply Vector.ext
    intro i hi
    have hread := h (.ofIndex ⟨i, hi⟩)
    rwa [hx.read_eq, hy.read_eq] at hread

end Cells

namespace Bank

theorem cells_write (b : Bank) (r : Register) (value : Int64) :
    (b.write r value).cells = Cells.write b.cells r value := by
  rw [write, Cells.write]
  split <;> rfl

theorem eq_iff_cells_eq {a b : Bank} : a = b ↔ a.cells = b.cells := by
  constructor
  · rintro rfl
    rfl
  · intro h
    cases a
    cases b
    cases h
    rfl

/-! ## The same values in every view -/

/-- All ways to look at a bank, and at the listing made of it, show the same values. -/
structure ViewsAgree (b : Bank) (listing : Listing) : Prop where
  /-- The cells with `$zero` masked. -/
  masked : ∀ r, Cells.read b.cells r = b.read r
  /-- By name. -/
  named : ∀ name value, b.readNamed name = .ok value ↔
    ∃ r : Register, r.name = name ∧ b.read r = value
  /-- By a name that no register has. -/
  unnamed : ∀ name fault,
    b.readNamed name = .error fault ↔
      (∀ r : Register, r.name ≠ name) ∧ fault = .unknownRegister name
  /-- In the listing by name. -/
  valued : ∀ name value, listing.value? name = some value ↔
    ∃ r : Register, r.name = name ∧ b.read r = value
  /-- In the listing by number; it ends with the last register. -/
  listed : ∀ n, listing[n]? = (Register.ofNat? n).map fun r => (r, b.read r)
  /-- As a text. -/
  text : b.text = listing.text

theorem readNamed_eq_ok_iff {b : Bank} {name : String} {value : Int64} :
    b.readNamed name = .ok value ↔ ∃ r : Register, r.name = name ∧ b.read r = value := by
  simp only [← Register.ofName_eq_ok_iff, readNamed]
  cases Register.ofName name <;> simp

theorem readNamed_eq_error_iff {b : Bank} {name : String} {fault : Fault} :
    b.readNamed name = .error fault ↔
      (∀ r : Register, r.name ≠ name) ∧ fault = .unknownRegister name := by
  rw [← Register.ofName_eq_error_iff, readNamed]
  cases Register.ofName name <;> simp

/-- The listing is searched by name like the registers themselves. -/
theorem value?_listing (b : Bank) (name : String) :
    b.listing.value? name = (Register.ofName? name).map b.read := by
  rw [Listing.value?, listing, List.find?_map, Option.map_map]
  rfl

theorem getElem?_listing (b : Bank) (n : Nat) :
    b.listing[n]? = (Register.ofNat? n).map fun r => (r, b.read r) := by
  rw [listing, List.getElem?_map, Register.all, List.getElem?_ofFn]
  rfl

/-! ## Text -/

/-- Lines with line feeds between them are the first line and, each behind a line feed, the
others. -/
theorem intercalate_lines (line : String) (lines : List String) :
    "\n".intercalate (line :: lines) = line ++ String.join (lines.map fun l => "\n" ++ l) := by
  induction lines generalizing line with
  | nil => simp
  | cons next lines ih =>
      rw [String.intercalate_cons_cons, ih, List.map_cons, String.join_cons]
      simp only [String.append_assoc]

/-- The first line, that of `$zero`, is the only one without a line feed before it. -/
theorem text_eq_text_listing (b : Bank) : b.text = b.listing.text := by
  have hall : Register.all = .zero :: List.ofFn fun i : Fin 31 => Register.ofIndex i.succ :=
    List.ofFn_succ
  have hne : ∀ i : Fin 31, Register.ofIndex i.succ ≠ .zero := by decide
  rw [text, Listing.text, listing, hall]
  simp only [List.map_cons, List.map_map, intercalate_lines, String.join_cons, if_true,
    String.empty_append]
  refine congrArg (fun lines => _ ++ String.join lines) (List.map_congr_left ?_)
  intro r hr
  obtain ⟨i, rfl⟩ := List.mem_ofFn.mp hr
  simp [hne i, String.append_assoc]

/-- Every bank shows the same in all views. -/
theorem viewsAgree (b : Bank) : b.ViewsAgree b.listing where
  masked r := by
    rw [Cells.read]
    split
    next hr => rw [hr, read_zero]
    next => rfl
  named _ _ := readNamed_eq_ok_iff
  unnamed _ _ := readNamed_eq_error_iff
  valued name value := by
    rw [value?_listing]
    simp [← Register.ofName?_eq_some_iff]
  listed := b.getElem?_listing
  text := b.text_eq_text_listing

end Bank

end MipsMachine
