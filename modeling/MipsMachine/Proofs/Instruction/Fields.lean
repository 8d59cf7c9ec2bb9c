import Mathlib.Data.List.Forall2
import MipsMachine.Proofs.Instruction.Encoding
import MipsMachine.Proofs.Word

set_option autoImplicit false

/-!
# Fields in the text of an encoding

The bits of an encoded instruction are cut into fields at fixed places.  Each field stands
where its layout puts it, inside the bits (`getElem?_fields`), and it is the named field of the
word, or padding (`fields_eq`).  Written with blanks between them, the fields lose nothing but
these blanks.
-/

namespace MipsMachine

/-! ## Named fields -/

/-- The fields of a layout by name, most significant first; the others are padding. -/
def Layout.parts (w : Word) : Layout → List ((width : Nat) × BitVec width)
  | .register => [⟨6, w.opcode⟩, ⟨5, w.rs⟩, ⟨5, w.rt⟩, ⟨5, w.rd⟩, ⟨5, w.shamt⟩, ⟨6, w.funct⟩]
  | .multiply => [⟨6, w.opcode⟩, ⟨5, w.rs⟩, ⟨5, w.rt⟩, ⟨10, w.extractLsb' 6 10⟩, ⟨6, w.funct⟩]
  | .immediate => [⟨6, w.opcode⟩, ⟨5, w.rs⟩, ⟨5, w.rt⟩, ⟨16, w.immediate⟩]
  | .print => [⟨6, w.opcode⟩, ⟨16, w.extractLsb' 10 16⟩, ⟨5, w.source⟩, ⟨5, w.extractLsb' 0 5⟩]
  | .bare => [⟨6, w.opcode⟩, ⟨26, w.extractLsb' 0 26⟩]

theorem Layout.denotes_of_mem_parts {w : Word} {layout : Layout} {p : (width : Nat) × BitVec width}
    (h : p ∈ layout.parts w) : Numeral.Denotes 2 (Word.bitsOf p.2) p.2.toNat := by
  have hpos : 0 < p.1 := by
    revert p
    cases layout <;> simp [parts]
  obtain ⟨n, v⟩ := p
  obtain ⟨n, rfl⟩ := Nat.exists_eq_succ_of_ne_zero (Nat.ne_of_gt hpos)
  exact Word.denotes_bitsOf v

namespace Encoding

/-! ## Cutting -/

/-- How much stands before the stretch at an index: the stretches before it. -/
def start : List Nat → Nat → Nat
  | [], _ => 0
  | _ :: _, 0 => 0
  | width :: widths, j + 1 => width + start widths j

section

variable {α : Type} {widths : List Nat} {xs : List α}

theorem getElem?_stretches (widths : List Nat) (xs : List α) (j : Nat) :
    (stretches widths xs)[j]? = widths[j]?.map fun width =>
      (xs.drop (start widths j)).take width := by
  induction widths generalizing xs j with
  | nil => rfl
  | cons width widths ih =>
      cases j with
      | zero => rfl
      | succ j =>
          rw [stretches, List.getElem?_cons_succ, ih, List.getElem?_cons_succ, start]
          simp only [List.drop_drop]

/-- No stretch goes beyond the end of the last one. -/
theorem start_add_le {j width : Nat} (h : widths[j]? = some width) :
    start widths j + width ≤ start widths widths.length := by
  induction widths generalizing j with
  | nil => cases h
  | cons first widths ih =>
      rw [List.length_cons, start]
      cases j with
      | zero =>
          obtain rfl := Option.some.inj h
          rw [start, Nat.zero_add]
          exact Nat.le_add_right _ _
      | succ j =>
          rw [start, Nat.add_assoc]
          exact Nat.add_le_add_left (ih h) first

theorem map_length_stretches (h : start widths widths.length ≤ xs.length) :
    (stretches widths xs).map List.length = widths := by
  induction widths generalizing xs with
  | nil => rfl
  | cons width widths ih =>
      rw [List.length_cons, start] at h
      have hrest : start widths widths.length ≤ (xs.drop width).length := by
        rw [List.length_drop]
        omega
      rw [stretches, List.map_cons, ih hrest, List.length_take_of_le (by omega)]

/-- Stretches that fill a row make up the row. -/
theorem flatten_stretches (h : start widths widths.length = xs.length) :
    (stretches widths xs).flatten = xs := by
  induction widths generalizing xs with
  | nil => exact (List.eq_nil_of_length_eq_zero h.symm).symm
  | cons width widths ih =>
      rw [List.length_cons, start] at h
      have hrest : start widths widths.length = (xs.drop width).length := by
        rw [List.length_drop]
        omega
      rw [stretches, List.flatten_cons, ih hrest, List.take_append_drop]

end

/-- Marks between texts that do not hold the mark can be taken out again. -/
theorem filter_intercalate {mark : Char} {texts : List (List Char)}
    (h : ∀ text ∈ texts, mark ∉ text) :
    ([mark].intercalate texts).filter (· != mark) = texts.flatten := by
  induction texts with
  | nil => rfl
  | cons text texts ih =>
      obtain ⟨htext, hrest⟩ := List.forall_mem_cons.mp h
      have hall : text.filter (· != mark) = text := by
        refine List.filter_eq_self.mpr fun c hc => ?_
        have hne : c ≠ mark := fun heq => htext (heq ▸ hc)
        simpa using hne
      cases texts with
      | nil => simpa using hall
      | cons next texts =>
          rw [List.intercalate_cons_cons, List.filter_append, List.filter_append, hall, ih hrest,
            List.flatten_cons]
          simp

/-! ## The fields of an encoding -/

theorem start_length_widths (layout : Layout) :
    start layout.widths layout.widths.length = Word.width := by
  cases layout <;> rfl

theorem getElem?_fields {e : Encoding} {j width : Nat} (h : e.layout.widths[j]? = some width) :
    start e.layout.widths j + width ≤ e.word.bits.length ∧
      e.fields[j]? = some ((e.word.bits.drop (start e.layout.widths j)).take width) := by
  constructor
  · rw [Word.length_bits]
    exact Nat.le_trans (start_add_le h) (Nat.le_of_eq (start_length_widths e.layout))
  · rw [fields, getElem?_stretches, h, Option.map_some]

/-- The fields of an encoding are those of its layout, written out. -/
theorem fields_eq (e : Encoding) :
    e.fields = (e.layout.parts e.word).map fun p => Word.bitsOf p.2 := by
  obtain ⟨w, layout⟩ := e
  have hslice : ∀ start width, start + width ≤ 32 →
      (w.bits.drop start).take width = Word.bitsOf (w.extractLsb' (32 - (start + width)) width) :=
    fun _ _ => Word.take_drop_bitsOf w
  have hfirst : w.bits.take 6 = Word.bitsOf w.opcode := hslice 0 6 (by decide)
  cases layout <;>
    simp (disch := decide) only [fields, Layout.widths, stretches, Layout.parts, List.map,
      List.drop_drop, hfirst, hslice]
  all_goals rfl

theorem map_length_fields (e : Encoding) : e.fields.map List.length = e.layout.widths :=
  map_length_stretches (by rw [start_length_widths, Word.length_bits]; exact Nat.le_refl 32)

theorem flatten_fields (e : Encoding) : e.fields.flatten = e.word.bits :=
  flatten_stretches (by rw [start_length_widths, Word.length_bits]; rfl)

theorem grouped_eq (e : Encoding) : e.grouped = " ".intercalate (e.fields.map String.ofList) := by
  rw [← String.toList_inj, grouped, String.toList_ofList, String.toList_intercalate, List.map_map]
  have hid : String.toList ∘ String.ofList = id := funext fun _ => String.toList_ofList
  rw [hid, List.map_id]
  rfl

/-- The ten bits of the layout `Multiply` that no name is given to. -/
theorem padding_ofFactors (rs rt : Register) : (ofFactors rs rt).word.extractLsb' 6 10 = 0 := by
  simp (disch := decide) only [ofFactors, BitVec.extractLsb'_append_eq_of_le,
    BitVec.extractLsb'_append_eq_of_add_le]
  exact BitVec.extractLsb'_eq_self

theorem not_mem_field {e : Encoding} : ∀ field ∈ e.fields, ' ' ∉ field := by
  rw [fields_eq]
  refine List.forall_mem_map.mpr fun p _ hmem => ?_
  rcases Word.mem_bitsOf hmem with h | h <;> cases h

end Encoding

namespace Instruction

/-- The numbers in the fields of an encoded instruction: the fields of the word by name, and 0
where there is nothing but padding.  An instruction that prints has its register out of the
usual place. -/
def fieldValues (i : Instruction) : List Nat :=
  let w := i.encode.word
  match i with
  | .alu .. | .shiftLeft .. =>
    [w.opcode.toNat, w.rs.toNat, w.rt.toNat, w.rd.toNat, w.shamt.toNat, w.funct.toNat]
  | .multiply .. => [w.opcode.toNat, w.rs.toNat, w.rt.toNat, 0, w.funct.toNat]
  | .aluImmediate .. | .load .. | .store .. | .loadUpper .. | .branch .. =>
    [w.opcode.toNat, w.rs.toNat, w.rt.toNat, w.immediate.toNat]
  | .print source => [w.opcode.toNat, 0, source.index.val, 0]
  | .printString _ | .halt => [w.opcode.toNat, 0]

theorem map_toNat_parts (i : Instruction) :
    (i.encode.layout.parts i.encode.word).map (fun p => p.2.toNat) = i.fieldValues := by
  have hfills := i.fills_encode
  cases i with
  | multiply rs rt =>
      have hlayout : (multiply rs rt).encode.layout = .multiply := rfl
      have hpadding : (multiply rs rt).encode.word.extractLsb' 6 10 = 0 :=
        Encoding.padding_ofFactors rs rt
      simp only [fieldValues, hlayout, Layout.parts, List.map_cons, List.map_nil, hpadding]
      rfl
  | print source =>
      have hlayout : (print source).encode.layout = .print := rfl
      simp only [fieldValues, hlayout, Layout.parts, List.map_cons, List.map_nil, hfills.above,
        hfills.source, hfills.below]
      rfl
  | printString constant =>
      have hlayout : (printString constant).encode.layout = .bare := rfl
      simp only [fieldValues, hlayout, Layout.parts, List.map_cons, List.map_nil, hfills.below]
      rfl
  | halt =>
      have hlayout : halt.encode.layout = .bare := rfl
      simp only [fieldValues, hlayout, Layout.parts, List.map_cons, List.map_nil, hfills.below]
      rfl
  | _ => rfl

/-- The fields of an encoded instruction show their numbers in base two. -/
theorem denotes_fields (i : Instruction) :
    List.Forall₂ (Numeral.Denotes 2) i.encode.fields i.fieldValues := by
  rw [Encoding.fields_eq, ← map_toNat_parts, List.forall₂_map_left_iff, List.forall₂_map_right_iff,
    List.forall₂_same]
  exact fun p => Layout.denotes_of_mem_parts

/-- The bits of an encoded instruction are the thirty-two digits of its word in base two, most
significant first.  The grouped text is these bits with single blanks between the fields of the
layout: each field starts where those before it end, has the width that the layout gives it and
lies inside the bits, and nothing but the blanks is added.  The number in a field is that of
the named field of the word, which is the word shifted down and masked, or 0 in a field of
padding; the register to print has its own number. -/
theorem text_shows_fields (i : Instruction) :
    let e := i.encode
    e.word.text.toList = e.word.bits ∧ e.word.bits.length = 32 ∧
      (∀ c ∈ e.word.bits, c = '0' ∨ c = '1') ∧
    Numeral.Denotes 2 e.word.bits e.word.toNat ∧
    e.grouped = " ".intercalate (e.fields.map String.ofList) ∧
      e.fields.map List.length = e.layout.widths ∧
    (∀ j width, e.layout.widths[j]? = some width →
      Encoding.start e.layout.widths j + width ≤ e.word.bits.length ∧
      e.fields[j]? = some ((e.word.bits.drop (Encoding.start e.layout.widths j)).take width)) ∧
    e.grouped.toList.filter (· != ' ') = e.word.bits ∧
    List.Forall₂ (Numeral.Denotes 2) e.fields i.fieldValues ∧ e.word.Masked := by
  intro e
  have hbits : ∀ c ∈ e.word.bits, c = '0' ∨ c = '1' := fun c hc => Word.mem_bitsOf hc
  refine ⟨String.toList_ofList, e.word.length_bits, hbits, e.word.denotes_bits, e.grouped_eq,
    e.map_length_fields, fun j width => Encoding.getElem?_fields, ?_, i.denotes_fields,
    e.word.masked⟩
  rw [Encoding.grouped, String.toList_ofList, Encoding.filter_intercalate Encoding.not_mem_field,
    e.flatten_fields]

/-- A shift by 33, of which the word keeps 1. -/
theorem text_shows_fields_of_long_shift :
    let i : Instruction := .shiftLeft .ra ⟨9⟩ 33
    let e := i.encode
    e.grouped = "000000 00000 01001 11111 00001 000000" ∧ i.fieldValues = [0, 0, 9, 31, 1, 0] ∧
      e.layout.widths[4]? = some 5 ∧ Encoding.start e.layout.widths 4 + 5 ≤ e.word.bits.length ∧
      e.fields[4]? = some ((e.word.bits.drop (Encoding.start e.layout.widths 4)).take 5) ∧
      '1' ∈ e.word.bits ∧ ('1' = '0' ∨ '1' = '1') := by
  intro i e
  have hwidth : e.layout.widths[4]? = some 5 := rfl
  have hmem : '1' ∈ e.word.bits := by decide
  obtain ⟨-, -, hbits, -, -, -, hslice, -⟩ := text_shows_fields i
  exact ⟨by decide, by decide, hwidth, (hslice 4 5 hwidth).1, (hslice 4 5 hwidth).2, hmem,
    hbits '1' hmem⟩

example :
    (Instruction.print .ra).encode.grouped = "111111 0000000000000000 11111 00000" := by decide

end Instruction

end MipsMachine
