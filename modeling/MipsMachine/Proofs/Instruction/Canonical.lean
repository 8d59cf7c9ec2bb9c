import MipsMachine.Proofs.Instruction.Text
import MipsMachine.Proofs.Text.Trim

set_option autoImplicit false

/-!
# Canonical texts

The canonical text of an instruction text is what its instruction is written as.  It is read as
the same instruction (`read_canonicalText`).  It also stands in a source line as well as the
text did: there are no blanks at its ends, it starts with a mnemonic, and it brings in no
character of which a line would take notice (`mem_of_mem_text`).
-/

namespace MipsMachine

open Instruction Text

/-! ## The characters of operands -/

/-- Letters, digits, the dollar sign and the minus sign. -/
def Instruction.isPlain (c : Char) : Bool := c.isAlphanum || c == '$' || c == '-'

theorem Instruction.isPlain_of_isDigit {c : Char} (h : c.isDigit = true) : isPlain c = true := by
  simp [isPlain, Char.isAlphanum, h]

theorem Instruction.isPlain_of_mem_natural {n : Nat} {c : Char}
    (h : c ∈ (Numeral.natural n).toList) :
    isPlain c = true := by
  rw [Numeral.toList_natural] at h
  exact isPlain_of_isDigit (Numeral.isDigit_of_mem_digits h)

theorem Instruction.isPlain_of_mem_integer {k : Int} {c : Char}
    (h : c ∈ (Numeral.integer k).toList) :
    isPlain c = true := by
  rcases Numeral.mem_integer h with rfl | hdigit
  · decide
  · exact isPlain_of_isDigit hdigit

theorem Register.isPlain_of_mem_name (r : Register) : ∀ c ∈ r.name.toList, isPlain c = true := by
  have hall : r.name.toList.all isPlain = true :=
    forall_of_index (p := fun r => r.name.toList.all isPlain = true) (by decide) r
  exact List.all_eq_true.mp hall

theorem Mnemonic.isPlain_of_mem_lowerName (m : Mnemonic) :
    ∀ c ∈ m.lowerName.toList, isPlain c = true := by
  have hall : m.lowerName.toList.all isPlain = true := by
    cases m <;> decide
  exact List.all_eq_true.mp hall

/-- An operand is written with plain characters, or as it was read. -/
theorem OperandKind.isPlain_or_mem {kind : OperandKind} {t : String} {value : kind.Value}
    (h : kind.read t = .ok value) :
    ∀ c ∈ (kind.write value).toList, isPlain c = true ∨ c ∈ t.toList := by
  intro c hc
  cases kind with
  | register => exact Or.inl (Register.isPlain_of_mem_name value c hc)
  | immediate => exact Or.inl (isPlain_of_mem_integer hc)
  | amount => exact Or.inl (isPlain_of_mem_natural hc)
  | label =>
      obtain rfl := Except.ok.inj h
      exact Or.inr hc

/-- Each token that operands are written as belongs to a token that an operand was read from. -/
theorem Operands.exists_read_of_mem_write {kinds : List OperandKind} {ts : List String}
    {hlength : ts.length = kinds.length} {values : Operands kinds}
    (h : Operands.read kinds ts hlength = .ok values) {u : String}
    (hu : u ∈ Operands.write kinds values) :
    ∃ t ∈ ts, ∃ (kind : OperandKind) (value : kind.Value), kind.read t = .ok value ∧
      u = kind.write value := by
  induction kinds generalizing ts with
  | nil => cases hu
  | cons kind kinds ih =>
      cases ts with
      | nil => cases hlength
      | cons t ts =>
          rw [Operands.read] at h
          split at h
          next => cases h
          next value hvalue =>
            split at h
            next => cases h
            next vs hvs =>
              obtain rfl := Except.ok.inj h
              rcases List.mem_cons.mp hu with rfl | hu
              · exact ⟨t, List.mem_cons_self, kind, value, hvalue, rfl⟩
              · obtain ⟨t', ht', hread⟩ := ih hvs hu
                exact ⟨t', List.mem_cons_of_mem t ht', hread⟩

namespace Instruction

/-! ## The characters of texts -/

theorem write_operands_ofOperands (m : Mnemonic) (values : Operands m.operandKinds) :
    Operands.write (ofOperands m values).mnemonic.operandKinds (ofOperands m values).operands =
      Operands.write m.operandKinds values := by
  cases m <;> rfl

/-- A character of the canonical text that neither separates tokens nor is plain stood in the
text that was read. -/
theorem mem_of_mem_text {t : String} {i : Instruction} {c : Char} (h : read t = .ok i)
    (hc : c ∈ i.text.toList) (hseparator : isSeparator c = false) (hplain : isPlain c = false) :
    c ∈ t.toList := by
  obtain ⟨u, hu, hcu⟩ := exists_mem_tokens_iff.mpr ⟨hc, hseparator⟩
  rw [tokens_text (Operands.isToken_of_mem_write (writable_of_read h))] at hu
  obtain ⟨head, rest, m, values, htokens, ⟨_, hvalues⟩, rfl⟩ := exists_operands_of_read h
  rw [write_operands_ofOperands] at hu
  rcases List.mem_cons.mp hu with rfl | hu
  · simp [Mnemonic.isPlain_of_mem_lowerName _ c hcu] at hplain
  · obtain ⟨v, hv, kind, value, hread, rfl⟩ := Operands.exists_read_of_mem_write hvalues hu
    rcases OperandKind.isPlain_or_mem hread c hcu with hcplain | hcv
    · simp [hcplain] at hplain
    · refine (exists_mem_tokens_iff.mp ⟨v, ?_, hcv⟩).1
      exact htokens ▸ List.mem_cons_of_mem head hv

/-! ## The ends of texts -/

theorem IsToken.isTrimmed {t : String} (h : IsToken t) : IsTrimmed t.toList := by
  have hblank : ∀ c ∈ t.toList, isBlank c = false := by
    intro c hc
    have hseparator := h.2 c hc
    rw [isSeparator, Bool.or_eq_false_iff] at hseparator
    exact hseparator.1
  exact ⟨fun c hc => hblank c (List.mem_of_mem_head? hc),
    fun c hc => hblank c (List.mem_of_mem_getLast? hc)⟩

/-- Tokens that stand in a row have no blanks at the ends of the row. -/
theorem isTrimmed_intercalate (gap : String) {ts : List String} (hne : ts ≠ [])
    (hts : ∀ t ∈ ts, IsToken t) :
    IsTrimmed (gap.intercalate ts).toList ∧ (gap.intercalate ts).toList ≠ [] := by
  induction ts with
  | nil => exact absurd rfl hne
  | cons t ts ih =>
      have ht : IsToken t := hts t List.mem_cons_self
      cases ts with
      | nil =>
          rw [String.intercalate_singleton]
          exact ⟨ht.isTrimmed, ht.1⟩
      | cons u us =>
          obtain ⟨hrest, hrestNe⟩ :=
            ih (List.cons_ne_nil u us) fun v hv => hts v (List.mem_cons_of_mem t hv)
          rw [String.intercalate_cons_cons, String.toList_append, String.toList_append]
          exact ⟨ht.isTrimmed.append hrest ht.1 hrestNe _, by simp [ht.1]⟩

/-- A text with a mnemonic in front and no blanks at its ends. -/
structure StartsWith (m : Mnemonic) (text : String) : Prop where
  front : m.lowerName.toList <+: text.toList
  trimmed : IsTrimmed text.toList

theorem startsWith_append (m : Mnemonic) (between : String) {last : String}
    (hlast : IsTrimmed last.toList) (hne : last.toList ≠ []) :
    StartsWith m (m.lowerName ++ between ++ last) where
  front := by
    rw [String.toList_append, String.toList_append, List.append_assoc]
    exact List.prefix_append _ _
  trimmed := by
    have hname : IsToken m.lowerName := m.isToken_lowerName
    rw [String.toList_append, String.toList_append]
    exact hname.isTrimmed.append hlast hname.1 hne _

theorem startsWith_memoryText (m : Mnemonic) (rt : Register) (offset : Int64) (base : Register) :
    StartsWith m (text.memoryText m rt offset base) := by
  have hclose : IsTrimmed ")".toList := isTrimmed_singleton (by decide)
  have hshape := startsWith_append m
    (" " ++ rt.name ++ ", " ++ Numeral.integer offset.toInt ++ "(" ++ base.name) hclose (by decide)
  simpa only [text.memoryText, String.append_assoc] using hshape

theorem startsWith_intercalate (m : Mnemonic) {ts : List String} (hne : ts ≠ [])
    (hts : ∀ t ∈ ts, IsToken t) : StartsWith m (m.lowerName ++ " " ++ ", ".intercalate ts) := by
  obtain ⟨htrimmed, hrow⟩ := isTrimmed_intercalate ", " hne hts
  exact startsWith_append m " " htrimmed hrow

theorem startsWith_text {i : Instruction} (h : i.Writable) : StartsWith i.mnemonic i.text := by
  have hts := Operands.isToken_of_mem_write h
  cases i with
  | load rt offset base => exact startsWith_memoryText .lw rt offset base
  | store rt offset base => exact startsWith_memoryText .sw rt offset base
  | halt => exact ⟨List.prefix_refl _, (Mnemonic.isToken_lowerName .halt).isTrimmed⟩
  | alu op => cases op <;> exact startsWith_intercalate _ (List.cons_ne_nil _ _) hts
  | aluImmediate op => cases op <;> exact startsWith_intercalate _ (List.cons_ne_nil _ _) hts
  | branch test => cases test <;> exact startsWith_intercalate _ (List.cons_ne_nil _ _) hts
  | _ => exact startsWith_intercalate _ (List.cons_ne_nil _ _) hts

/-! ## Canonical texts -/

/-- What the instruction of a text is written as; a text that cannot be read stays. -/
def canonicalText (text : String) : String :=
  match read text with
  | .ok i => i.text
  | .error _ => text

theorem canonicalText_of_read {t : String} {i : Instruction} (h : read t = .ok i) :
    canonicalText t = i.text := by
  rw [canonicalText, h]

theorem canonicalText_of_error {t : String} {fault : Fault} (h : read t = .error fault) :
    canonicalText t = t := by
  rw [canonicalText, h]

/-- A text is read in the same way as its canonical text, with the same fault if there is one. -/
theorem read_canonicalText (t : String) : read (canonicalText t) = read t := by
  cases h : read t with
  | error fault => rw [canonicalText_of_error h, h]
  | ok i => rw [canonicalText_of_read h, read_text (writable_of_read h)]

end Instruction

end MipsMachine
