import MipsMachine.Proofs.Program

set_option autoImplicit false

/-!
# Warnings

What assembly warns of, told from the lines alone: a line that defines a label which a line
before it defines (`Warranted.redefined`), and a directive with fewer than three words
(`Warranted.incomplete`).  Assembly emits exactly the warnings that are warranted
(`mem_warnings_iff`), in the order of their lines, which are counted from one
(`pairwise_position_warnings`).  A label-defining line adds to the table of labels or is warned
of (`size_labels_add_countP`).
-/

namespace MipsMachine

namespace Event

/-- The source line that an event is about; zero if it is not about one. -/
def position : Event → Nat
  | .labelRedefined line _ | .directiveIgnored line _ => line
  | _ => 0

/-- The event is the warning that a label is defined again. -/
def IsRedefinition (e : Event) : Prop :=
  e.level = .warn ∧ e.message = "label redefined; later definition wins"

instance : DecidablePred IsRedefinition := fun _ => inferInstanceAs (Decidable (_ ∧ _))

end Event

namespace Statement

/-- The line defines a label. -/
def DefinesLabel (line : String) : Prop := ∃ name, Defines line name

theorem isSome_label?_ofLine_iff {line : String} :
    (ofLine line).label?.isSome = true ↔ DefinesLabel line := by
  rw [Option.isSome_iff_exists]
  exact exists_congr fun name => label?_ofLine_eq_some_iff

instance : DecidablePred DefinesLabel := fun _ => decidable_of_iff _ isSome_label?_ofLine_iff

theorem isIncomplete_of_ofLine {line directive : String}
    (h : ofLine line = .incomplete directive) :
    IsIncomplete line := by
  have hreading := reading (stripped line.toList)
  rw [ofLine] at h
  generalize ofStripped (stripped line.toList) = s at h hreading
  cases hreading with
  | directive hdirective =>
      refine ⟨hdirective, words (stripped line.toList), hasWords_iff.mpr rfl, ?_⟩
      rw [ofDirective] at h
      split at h
      next => cases h
      next hshort =>
        rcases hwords : words (stripped line.toList) with _ | ⟨w, _ | ⟨w', _ | ⟨w'', ws⟩⟩⟩
        · simp
        · simp
        · simp
        · exact absurd hwords (hshort _ _ _ _)
  | blank | instruction | label | labelled => cases h

theorem ofLine_eq_incomplete_iff {line directive : String} :
    ofLine line = .incomplete directive ↔
      IsIncomplete line ∧ directive = String.ofList (stripped line.toList) := by
  constructor
  · intro h
    have hincomplete := isIncomplete_of_ofLine h
    rw [ofLine_of_isIncomplete hincomplete, incomplete.injEq] at h
    exact ⟨hincomplete, h.symm⟩
  · rintro ⟨hincomplete, rfl⟩
    exact ofLine_of_isIncomplete hincomplete

end Statement

namespace Program

open Statement

/-! ## One line -/

theorem contains_labels_assemble_iff {lines : List String} {name : String} :
    (assemble lines).labels.contains name = true ↔ ∃ earlier ∈ lines, Defines earlier name := by
  rw [Table.contains, Option.isSome_iff_ne_none]
  exact (not_congr label?_assemble_eq_none_iff).trans (by simp)

theorem warning?_of_isIncomplete {line : String} (h : IsIncomplete line) (p : Program) (n : Nat) :
    p.warning? n (ofLine line) =
      some (.directiveIgnored n (String.ofList (stripped line.toList))) := by
  rw [ofLine_of_isIncomplete h]
  rfl

theorem warning?_of_not_isIncomplete {line : String} (h : ¬IsIncomplete line)
    (p : Program) (n : Nat) :
    p.warning? n (ofLine line) = (ofLine line).label?.bind fun name =>
      if p.labels.contains name then some (.labelRedefined n name) else none := by
  unfold warning?
  split
  next hline => exact absurd (ofLine_eq_incomplete_iff.mp hline).1 h
  next => cases (ofLine line).label? <;> rfl

/-- An incomplete directive defines no label. -/
theorem not_defines_of_isIncomplete {line name : String} (h : IsIncomplete line) :
    ¬Defines line name :=
  fun hdefines => hdefines.1 h.1

/-- There is a warning of a line if it defines a label again, or if it is a directive with too
few words. -/
theorem warning?_assemble_eq_some_iff {before : List String} {line : String} {n : Nat}
    {e : Event} :
    (assemble before).warning? n (ofLine line) = some e ↔
      (∃ name, (∃ earlier ∈ before, Defines earlier name) ∧ Defines line name ∧
        e = .labelRedefined n name) ∨
        IsIncomplete line ∧ e = .directiveIgnored n (String.ofList (stripped line.toList)) := by
  by_cases hincomplete : IsIncomplete line
  · rw [warning?_of_isIncomplete hincomplete]
    simp [hincomplete, not_defines_of_isIncomplete hincomplete, eq_comm]
  · rw [warning?_of_not_isIncomplete hincomplete, Option.bind_eq_some_iff]
    simp only [hincomplete, false_and, or_false]
    refine exists_congr fun name => ?_
    rw [label?_ofLine_eq_some_iff, ← contains_labels_assemble_iff]
    by_cases hcontains : (assemble before).labels.contains name = true
    · simp [hcontains, eq_comm]
    · simp [hcontains]

/-! ## All lines -/

/-- What there is to warn of among the lines of a text, which are counted from one. -/
inductive Warranted (lines : List String) : Event → Prop
  /-- A line before this one defines the label of this one. -/
  | redefined {before behind : List String} {line earlier name : String}
      (hlines : lines = before ++ line :: behind) (hmem : earlier ∈ before)
      (hearlier : Defines earlier name) (hline : Defines line name) :
      Warranted lines (.labelRedefined (before.length + 1) name)
  /-- This line is a directive with fewer than three words. -/
  | incomplete {before behind : List String} {line : String}
      (hlines : lines = before ++ line :: behind) (hline : IsIncomplete line) :
      Warranted lines
        (.directiveIgnored (before.length + 1) (String.ofList (stripped line.toList)))

theorem warranted_iff {lines : List String} {e : Event} :
    Warranted lines e ↔ ∃ before line behind, lines = before ++ line :: behind ∧
      (assemble before).warning? (before.length + 1) (ofLine line) = some e := by
  constructor
  · intro h
    cases h with
    | redefined hlines hmem hearlier hline =>
        exact ⟨_, _, _, hlines,
          warning?_assemble_eq_some_iff.mpr (.inl ⟨_, ⟨_, hmem, hearlier⟩, hline, rfl⟩)⟩
    | incomplete hlines hline =>
        exact ⟨_, _, _, hlines, warning?_assemble_eq_some_iff.mpr (.inr ⟨hline, rfl⟩)⟩
  · rintro ⟨before, line, behind, hlines, hwarning⟩
    rcases warning?_assemble_eq_some_iff.mp hwarning with
      ⟨name, ⟨earlier, hmem, hearlier⟩, hline, rfl⟩ | ⟨hline, rfl⟩
    · exact .redefined hlines hmem hearlier hline
    · exact .incomplete hlines hline

theorem warningsFrom_append (p : Program) (n : Nat) (ss ts : List Statement) :
    p.warningsFrom n (ss ++ ts) =
      p.warningsFrom n ss ++ (ss.foldl add p).warningsFrom (n + ss.length) ts := by
  induction ss generalizing p n with
  | nil => rfl
  | cons s ss ih =>
      rw [List.cons_append, warningsFrom, ih, warningsFrom, List.append_assoc, List.foldl_cons,
        List.length_cons, Nat.add_right_comm, Nat.add_assoc]

/-- One more line adds its own warning, if there is one, behind the warnings of the lines
before it. -/
theorem warnings_concat (lines : List String) (line : String) :
    warnings (lines ++ [line]) =
      warnings lines ++ ((assemble lines).warning? (lines.length + 1) (ofLine line)).toList := by
  rw [warnings, List.map_append, warningsFrom_append, List.length_map, Nat.add_comm 1]
  exact congrArg _ (List.append_nil _)

theorem mem_warnings_iff {lines : List String} {e : Event} :
    e ∈ warnings lines ↔ Warranted lines e := by
  rw [warranted_iff]
  induction lines using List.reverseRecOn with
  | nil => simp [warnings, warningsFrom]
  | append_singleton lines line ih =>
      rw [warnings_concat, List.mem_append, ih, Option.mem_toList]
      constructor
      · rintro (⟨before, first, behind, rfl, hwarning⟩ | hwarning)
        · exact ⟨before, first, behind ++ [line], by simp, hwarning⟩
        · exact ⟨lines, line, [], rfl, hwarning⟩
      · rintro ⟨before, first, behind, hlines, hwarning⟩
        -- the line of the warning is the last one, or it was among the lines before
        rcases List.eq_nil_or_concat behind with rfl | ⟨rest, last, rfl⟩
        · obtain ⟨rfl, hlast⟩ := List.append_inj' hlines rfl
          obtain rfl := List.head_eq_of_cons_eq hlast
          exact Or.inr hwarning
        · rw [List.concat_eq_append, ← List.cons_append, ← List.append_assoc] at hlines
          exact Or.inl ⟨before, first, rest, (List.append_inj' hlines rfl).1, hwarning⟩

theorem Warranted.position_le {lines : List String} {e : Event} (h : Warranted lines e) :
    e.position ≤ lines.length := by
  cases h with
  | redefined hlines =>
      rw [hlines, Event.position, List.length_append, List.length_cons]
      omega
  | incomplete hlines =>
      rw [hlines, Event.position, List.length_append, List.length_cons]
      omega

/-- Warnings come in the order of their lines, one for a line at most. -/
theorem pairwise_position_warnings (lines : List String) :
    (warnings lines).Pairwise fun a b => a.position < b.position := by
  induction lines using List.reverseRecOn with
  | nil => exact .nil
  | append_singleton lines line ih =>
      rw [warnings_concat, List.pairwise_append]
      refine ⟨ih, by cases (assemble lines).warning? _ _ <;> simp, ?_⟩
      intro a ha b hb
      have hbefore := (mem_warnings_iff.mp ha).position_le
      rcases warning?_assemble_eq_some_iff.mp (Option.mem_toList.mp hb) with
        ⟨name, -, -, rfl⟩ | ⟨-, rfl⟩
      · exact Nat.lt_succ_of_le hbefore
      · exact Nat.lt_succ_of_le hbefore

/-! ## Labels that are defined more than once -/

theorem labels_add (p : Program) (s : Statement) :
    (p.add s).labels = (s.label?.map fun name => p.labels.insert name p.size).getD p.labels := by
  cases s <;> rfl

/-- A line that defines a label makes the table of labels longer, or it is warned of. -/
theorem size_labels_add (p : Program) (n : Nat) (line : String) :
    (p.add (ofLine line)).labels.size +
        ((p.warning? n (ofLine line)).toList.countP fun e => decide e.IsRedefinition) =
      p.labels.size + if DefinesLabel line then 1 else 0 := by
  have hdefines : (ofLine line).label?.isSome = true ↔ DefinesLabel line :=
    isSome_label?_ofLine_iff
  rw [labels_add, ← if_congr hdefines rfl rfl]
  by_cases hincomplete : IsIncomplete line
  · rw [warning?_of_isIncomplete hincomplete, ofLine_of_isIncomplete hincomplete]
    rfl
  · rw [warning?_of_not_isIncomplete hincomplete]
    cases (ofLine line).label? with
    | none => rfl
    | some name =>
        rw [Option.map_some, Option.getD_some, Table.size_insert, Option.bind_some]
        cases p.labels.contains name <;> rfl

theorem size_labels_add_countP (lines : List String) :
    (assemble lines).labels.size + ((warnings lines).countP fun e => decide e.IsRedefinition) =
      lines.countP fun line => decide (DefinesLabel line) := by
  induction lines using List.reverseRecOn with
  | nil => rfl
  | append_singleton lines line ih =>
      have hline := size_labels_add (assemble lines) (lines.length + 1) line
      rw [warnings_concat, List.countP_append, List.countP_append, List.countP_singleton,
        assemble_append_eq_foldl, ← ih]
      simp only [List.map_singleton, List.foldl_cons, List.foldl_nil, decide_eq_true_eq]
      omega

end Program

end MipsMachine
