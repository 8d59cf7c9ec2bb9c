import MipsMachine.Proofs.Instruction.Canonical
import MipsMachine.Proofs.Program
import MipsMachine.Proofs.Simulation.Lockstep

set_option autoImplicit false

/-!
# Programs in canonical form

A source line can be given another instruction in place of its own: the label before it, the
blanks around it and the comment behind it stay.  With the canonical text of its own
instruction a line says the same as before, since that text is neither taken for a directive
nor cut off at a comment mark or a colon of its own (`ofLine_canonicalLine`).  So a program can
be rewritten line by line without any effect on what it does (`canonical_lines_run_alike`).
-/

namespace MipsMachine

namespace Statement

open Text

/-! ## Replacing the instruction of a line -/

/-- Code with another instruction behind its label, or in place of all of it if it has no label. -/
def replaceInstruction (code new : List Char) : List Char :=
  match cutAt labelMark code with
  | some (name, rest) => name ++ labelMark :: replaceTrimmed rest new
  | none => replaceTrimmed code new

/-- A line with another instruction in place of its own. -/
def withInstruction (line new : String) : String :=
  String.ofList (replaceInstruction (uncommented line.toList) new.toList ++ comment line.toList)

/-- What a statement says with its instruction text changed. -/
def mapInstruction (f : String → String) : Statement → Statement
  | .labelled name text => .labelled name (f text)
  | .instruction text => .instruction (f text)
  | s => s

theorem mapInstruction_id (s : Statement) : s.mapInstruction id = s := by
  cases s <;> rfl

theorem mapInstruction_congr {f g : String → String} {s : Statement}
    (h : ∀ text, s.instruction? = some text → f text = g text) :
    s.mapInstruction f = s.mapInstruction g := by
  cases s with
  | labelled name text => rw [mapInstruction, mapInstruction, h text rfl]
  | instruction text => rw [mapInstruction, mapInstruction, h text rfl]
  | _ => rfl

theorem replaceInstruction_append_cons {name rest : List Char} (hmark : labelMark ∉ name)
    (new : List Char) :
    replaceInstruction (name ++ labelMark :: rest) new =
      name ++ labelMark :: replaceTrimmed rest new := by
  rw [replaceInstruction, cutAt_append_cons hmark]

theorem replaceInstruction_of_not_mem {code : List Char} (hmark : labelMark ∉ code)
    (new : List Char) :
    replaceInstruction code new = replaceTrimmed code new := by
  rw [replaceInstruction, cutAt_eq_none hmark]

/-- Put in place of itself, the instruction of a line gives the line back. -/
theorem withInstruction_self {line text : String} (h : (ofLine line).instruction? = some text) :
    withInstruction line text = line := by
  have hcode : replaceInstruction (uncommented line.toList) text.toList =
      uncommented line.toList := by
    rcases cases_of_instruction? h with ⟨hmark, htext, -⟩ | ⟨name, rest, hcode, hmark, -, htext, -⟩
    · rw [replaceInstruction_of_not_mem hmark, ← htext, replaceTrimmed_trim]
    · rw [hcode, replaceInstruction_append_cons hmark, ← htext, replaceTrimmed_trim]
  rw [withInstruction, hcode, uncommented_append_comment, String.ofList_toList]

theorem exists_replaceInstruction_eq (code : List Char) :
    ∃ front behind, ∀ new, replaceInstruction code new = front ++ new ++ behind := by
  by_cases hmark : labelMark ∈ code
  · obtain ⟨name, rest, rfl, hname⟩ := List.eq_append_cons_of_mem hmark
    refine ⟨name ++ labelMark :: rest.takeWhile isBlank, (trimStart rest).rtakeWhile isBlank, ?_⟩
    intro new
    rw [replaceInstruction_append_cons hname, replaceTrimmed]
    simp
  · refine ⟨code.takeWhile isBlank, (trimStart code).rtakeWhile isBlank, ?_⟩
    intro new
    rw [replaceInstruction_of_not_mem hmark, replaceTrimmed]

/-- What stands before and behind the instruction of a line stays when the instruction is
replaced. -/
theorem exists_withInstruction_eq {line text : String}
    (h : (ofLine line).instruction? = some text) :
    ∃ front behind, line = front ++ text ++ behind ∧
      ∀ new, withInstruction line new = front ++ new ++ behind := by
  obtain ⟨front, behind, hcode⟩ := exists_replaceInstruction_eq (uncommented line.toList)
  have hframe : ∀ new, withInstruction line new =
      String.ofList front ++ new ++ String.ofList (behind ++ comment line.toList) := by
    intro new
    rw [withInstruction, hcode, List.append_assoc, String.ofList_append, String.ofList_append,
      String.ofList_toList]
  refine ⟨_, _, ?_, hframe⟩
  rw [← hframe text, withInstruction_self h]

theorem mem_of_mem_replaceTrimmed {cs new : List Char} {c : Char} (h : c ∈ replaceTrimmed cs new) :
    c ∈ cs ∨ c ∈ new := by
  rw [replaceTrimmed, List.append_assoc, List.mem_append, List.mem_append] at h
  rcases h with hfront | hnew | hbehind
  · exact Or.inl ((List.takeWhile_prefix isBlank).subset hfront)
  · exact Or.inr hnew
  · refine Or.inl ((List.dropWhile_suffix isBlank).subset ?_)
    exact (List.rtakeWhile_suffix isBlank (trimStart cs)).subset hbehind

theorem mem_of_mem_replaceInstruction {code new : List Char} {c : Char}
    (h : c ∈ replaceInstruction code new) :
    c ∈ code ∨ c ∈ new := by
  by_cases hmark : labelMark ∈ code
  · obtain ⟨name, rest, rfl, hname⟩ := List.eq_append_cons_of_mem hmark
    rw [replaceInstruction_append_cons hname, List.mem_append, List.mem_cons] at h
    rcases h with hc | rfl | hc
    · exact Or.inl (List.mem_append_left _ hc)
    · exact Or.inl hmark
    · exact (mem_of_mem_replaceTrimmed hc).imp_left fun hrest =>
        List.mem_append_right name (List.mem_cons_of_mem _ hrest)
  · rw [replaceInstruction_of_not_mem hmark] at h
    exact mem_of_mem_replaceTrimmed h

theorem uncommented_withInstruction {line new : String} (h : commentMark ∉ new.toList) :
    uncommented (withInstruction line new).toList =
      replaceInstruction (uncommented line.toList) new.toList := by
  rw [withInstruction, String.toList_ofList]
  apply uncommented_append_comment_of_not_mem
  intro hmem
  rcases mem_of_mem_replaceInstruction hmem with hcode | hnew
  · exact commentMark_not_mem_uncommented _ hcode
  · exact h hnew

/-! ## What a line says with another instruction -/

/-- A text that can stand in a line where another one stands. -/
structure Replaces (new text : String) : Prop where
  ne_nil : new.toList ≠ []
  trimmed : IsTrimmed new.toList
  directive : ¬directiveMark <+: new.toList
  mem_commentMark : commentMark ∈ new.toList → commentMark ∈ text.toList
  mem_labelMark : labelMark ∈ new.toList → labelMark ∈ text.toList

/-- Only the instruction that a line contributes changes with its instruction. -/
theorem ofLine_withInstruction {line new text : String}
    (h : (ofLine line).instruction? = some text) (hnew : Replaces new text) :
    ofLine (withInstruction line new) = (ofLine line).mapInstruction fun _ => new := by
  have hcomment : commentMark ∉ new.toList := fun hmem =>
    commentMark_not_mem_of_instruction? h (hnew.mem_commentMark hmem)
  have hcode : uncommented (withInstruction line new).toList = _ :=
    uncommented_withInstruction hcomment
  rcases cases_of_instruction? h with ⟨hmark, htext, hline⟩
    | ⟨name, rest, hold, hmark, hdirective, -, hline⟩
  · -- without a label the whole code is new, so it must bring in neither a colon nor a directive
    rw [replaceInstruction_of_not_mem hmark] at hcode
    have htrim : trim (uncommented (withInstruction line new).toList) = new.toList := by
      rw [hcode, trim_replaceTrimmed _ hnew.trimmed]
    have hnone : labelMark ∉ uncommented (withInstruction line new).toList := by
      rw [hcode]
      intro hmem
      rcases mem_of_mem_replaceTrimmed hmem with hold | hmem
      · exact hmark hold
      · exact hmark (mem_of_mem_trim (htext ▸ hnew.mem_labelMark hmem))
    have hnewLine : ofLine (withInstruction line new) =
        .instruction (String.ofList (trim (uncommented (withInstruction line new).toList))) := by
      apply ofLine_of_not_mem hnone
      · rw [htrim]
        exact hnew.ne_nil
      · rw [htrim]
        exact hnew.directive
    rw [hline, mapInstruction, hnewLine, htrim, String.ofList_toList]
  · -- behind a label the name alone decides, and it has not changed
    rw [hold, replaceInstruction_append_cons hmark] at hcode
    rw [hline, mapInstruction, ofLine_of_append_cons hcode hmark hdirective,
      trim_replaceTrimmed _ hnew.trimmed, if_neg hnew.ne_nil, String.ofList_toList]

/-! ## Canonical lines -/

/-- The canonical text of an instruction can stand where the instruction was read. -/
theorem replaces_text {t : String} {i : Instruction} (h : Instruction.read t = .ok i) :
    Replaces i.text t := by
  have hstarts := Instruction.startsWith_text (Instruction.writable_of_read h)
  have hname : ∀ m : Mnemonic, m.lowerName.toList ≠ [] ∧ ¬directiveMark <+: m.lowerName.toList ∧
      ¬m.lowerName.toList <+: directiveMark := by
    intro m
    cases m <;> decide
  obtain ⟨hne, hshorter, hlonger⟩ := hname i.mnemonic
  refine ⟨?_, hstarts.trimmed, ?_, ?_, ?_⟩
  · intro hnil
    exact hne (List.prefix_nil.mp (hnil ▸ hstarts.front))
  · intro hdirective
    rcases List.prefix_or_prefix_of_prefix hdirective hstarts.front with hprefix | hprefix
    · exact hshorter hprefix
    · exact hlonger hprefix
  · exact fun hmem => Instruction.mem_of_mem_text h hmem (by decide) (by decide)
  · exact fun hmem => Instruction.mem_of_mem_text h hmem (by decide) (by decide)

/-- A line with its instruction in canonical form.  A line without an instruction that can be
read stays. -/
def canonicalLine (line : String) : String :=
  match (ofLine line).instruction? with
  | none => line
  | some text =>
    match Instruction.read text with
    | .ok i => withInstruction line i.text
    | .error _ => line

theorem canonicalLine_of_read {line text : String} {i : Instruction}
    (htext : (ofLine line).instruction? = some text) (hread : Instruction.read text = .ok i) :
    canonicalLine line = withInstruction line i.text := by
  simp only [canonicalLine, htext, hread]

theorem canonicalLine_of_unreadable {line : String}
    (h : ∀ text i, (ofLine line).instruction? = some text → Instruction.read text ≠ .ok i) :
    canonicalLine line = line := by
  unfold canonicalLine
  split
  next => rfl
  next text htext =>
    split
    next i hread => exact absurd hread (h text i htext)
    next => rfl

/-- A canonical line says what the line says, with its instruction in canonical form. -/
theorem ofLine_canonicalLine (line : String) :
    ofLine (canonicalLine line) = (ofLine line).mapInstruction Instruction.canonicalText := by
  by_cases hreadable : ∃ text i, (ofLine line).instruction? = some text ∧
    Instruction.read text = .ok i
  · obtain ⟨text, i, htext, hread⟩ := hreadable
    rw [canonicalLine_of_read htext hread, ofLine_withInstruction htext (replaces_text hread)]
    apply mapInstruction_congr
    intro text' htext'
    obtain rfl := Option.some.inj (htext.symm.trans htext')
    exact (Instruction.canonicalText_of_read hread).symm
  · have hunreadable : ∀ text i, (ofLine line).instruction? = some text →
        Instruction.read text ≠ .ok i :=
      fun text i htext hread => hreadable ⟨text, i, htext, hread⟩
    rw [canonicalLine_of_unreadable hunreadable]
    conv_lhs => rw [← mapInstruction_id (ofLine line)]
    apply mapInstruction_congr
    intro text htext
    cases hread : Instruction.read text with
    | error fault => exact (Instruction.canonicalText_of_error hread).symm
    | ok i => exact absurd hread (hunreadable text i htext)

end Statement

namespace Program

/-! ## Canonical programs -/

/-- A program with its instruction texts changed. -/
def mapInstructions (f : String → String) (p : Program) : Program :=
  { p with instructions := p.instructions.map f }

theorem mapInstructions_empty (f : String → String) : empty.mapInstructions f = empty := by
  simp [mapInstructions, empty]

theorem instruction?_mapInstructions (f : String → String) (p : Program) (i : Nat) :
    (p.mapInstructions f).instruction? i = (p.instruction? i).map f :=
  Array.getElem?_map

theorem add_mapInstruction (f : String → String) (p : Program) (s : Statement) :
    (p.mapInstructions f).add (s.mapInstruction f) = (p.add s).mapInstructions f := by
  cases s with
  | labelled name text => simp [Statement.mapInstruction, add, mapInstructions, size]
  | instruction text => simp [Statement.mapInstruction, add, mapInstructions]
  | label name => simp [Statement.mapInstruction, add, mapInstructions, size]
  | _ => rfl

theorem foldl_add_mapInstruction (f : String → String) (p : Program) (ss : List Statement) :
    (ss.map (Statement.mapInstruction f)).foldl add (p.mapInstructions f) =
      (ss.foldl add p).mapInstructions f := by
  induction ss generalizing p with
  | nil => rfl
  | cons s ss ih => rw [List.map_cons, List.foldl_cons, add_mapInstruction, ih, List.foldl_cons]

/-- Canonical lines make the program of the lines with its instructions in canonical form. -/
theorem assemble_map_canonicalLine (lines : List String) :
    assemble (lines.map Statement.canonicalLine) =
      (assemble lines).mapInstructions Instruction.canonicalText := by
  have hstatements : (lines.map Statement.canonicalLine).map Statement.ofLine =
      (lines.map Statement.ofLine).map (Statement.mapInstruction Instruction.canonicalText) := by
    rw [List.map_map, List.map_map]
    apply List.map_congr_left
    intro line _
    rw [Function.comp_apply, Function.comp_apply, Statement.ofLine_canonicalLine]
  have hfold :=
    foldl_add_mapInstruction Instruction.canonicalText empty (lines.map Statement.ofLine)
  rw [mapInstructions_empty] at hfold
  rw [assemble, assemble, hstatements, hfold]

/-- A program is read like the same program in canonical form. -/
theorem readsLike_mapInstructions_canonicalText (p : Program) :
    (p.mapInstructions Instruction.canonicalText).ReadsLike p where
  instructions := by
    have hread : Instruction.read ∘ Instruction.canonicalText = Instruction.read := by
      funext text
      rw [Function.comp_apply, Instruction.read_canonicalText]
    rw [mapInstructions, Array.map_map, hread]
  labels := rfl
  strings := rfl

/-- Put the instruction of each line in canonical form, keep what stands before and behind it,
and keep the lines without an instruction that can be read.  In the assembled program that
changes the texts of the instructions and nothing else.  Loaded into any simulation, the two
programs give bounded runs the same result, be it a number of steps or a fault, and all that
can be seen of the simulation afterwards is the same. -/
theorem canonical_lines_run_alike (lines : List String) :
    let canonical := lines.map Statement.canonicalLine
    (∀ line text i, (Statement.ofLine line).instruction? = some text →
      Instruction.read text = .ok i →
      ∃ front behind, line = front ++ text ++ behind ∧
        Statement.canonicalLine line = front ++ i.text ++ behind) ∧
    (∀ line, (∀ text i, (Statement.ofLine line).instruction? = some text →
      Instruction.read text ≠ .ok i) →
      Statement.canonicalLine line = line) ∧
    (assemble canonical).labels = (assemble lines).labels ∧
    (assemble canonical).strings = (assemble lines).strings ∧
    (assemble canonical).size = (assemble lines).size ∧
    (∀ k, (assemble canonical).instruction? k =
      ((assemble lines).instruction? k).map Instruction.canonicalText) ∧
    ∀ (s : Simulation) (n : Nat),
      ((s.load canonical).state.runFor n).result = ((s.load lines).state.runFor n).result ∧
      ((s.load canonical).state.runFor n).state.snapshot =
        ((s.load lines).state.runFor n).state.snapshot := by
  intro canonical
  have hassemble : assemble canonical = _ := assemble_map_canonicalLine lines
  have hreads : (assemble canonical).ReadsLike (assemble lines) := by
    rw [hassemble]
    exact readsLike_mapInstructions_canonicalText _
  refine ⟨?_, fun _ => Statement.canonicalLine_of_unreadable, hreads.labels, hreads.strings,
    hreads.size_eq, ?_, ?_⟩
  · intro line text i htext hread
    obtain ⟨front, behind, hline, hreplaced⟩ := Statement.exists_withInstruction_eq htext
    refine ⟨front, behind, hline, ?_⟩
    rw [Statement.canonicalLine_of_read htext hread, hreplaced]
  · intro k
    rw [hassemble, instruction?_mapInstructions]
  · intro s n
    obtain ⟨hresult, hstate⟩ := Simulation.lockstep_readsAlike.runFor (s.readsAlike_load hreads) n
    exact ⟨hresult, hstate.snapshot_eq⟩

/-- A label that looks like a directive, a comment mark right behind an instruction, a string
constant with a colon, and an instruction that cannot be read and stops the run. -/
theorem canonical_lines_run_alike_up_to_fault :
    let lines :=
      ["\t.dat : ADDI $t1 $zero,-0X1f#x:y", ".data .dat a:b", " Prints(.dat)", "leap away"]
    let canonical :=
      ["\t.dat : addi $t1, $zero, -31#x:y", ".data .dat a:b", " prints .dat", "leap away"]
    let o := (Simulation.fresh.load canonical).state.runFor 9
    lines.map Statement.canonicalLine = canonical ∧ o.result = .error (.unknownMnemonic "LEAP") ∧
      o.state.snapshot.output = #["a:b"] ∧
      ∃ front behind,
        "\t.dat : ADDI $t1 $zero,-0X1f#x:y" = front ++ "ADDI $t1 $zero,-0X1f" ++ behind ∧
        "\t.dat : addi $t1, $zero, -31#x:y" = front ++ "addi $t1, $zero, -31" ++ behind := by
  intro lines canonical o
  have hlines : lines.map Statement.canonicalLine = canonical := by decide +kernel
  have hfirst : (Statement.ofLine "\t.dat : ADDI $t1 $zero,-0X1f#x:y").instruction? =
      some "ADDI $t1 $zero,-0X1f" := by decide +kernel
  have hread : Instruction.read "ADDI $t1 $zero,-0X1f" =
      .ok (.aluImmediate .addi ⟨9⟩ .zero (-31)) := by rfl
  have hrun :
      ((Simulation.fresh.load lines).state.runFor 9).result = .error (.unknownMnemonic "LEAP") ∧
      ((Simulation.fresh.load lines).state.runFor 9).state.snapshot.output = #["a:b"] := by
    decide +kernel
  obtain ⟨hframe, -, -, -, -, -, hruns⟩ := canonical_lines_run_alike lines
  rw [hlines] at hruns
  obtain ⟨hresult, hsnapshot⟩ := hruns Simulation.fresh 9
  obtain ⟨front, behind, hline, hreplaced⟩ := hframe _ _ _ hfirst hread
  have htext : (Instruction.aluImmediate .addi ⟨9⟩ .zero (-31)).text = "addi $t1, $zero, -31" ∧
      Statement.canonicalLine "\t.dat : ADDI $t1 $zero,-0X1f#x:y" =
        "\t.dat : addi $t1, $zero, -31#x:y" := by
    decide +kernel
  rw [htext.1, htext.2] at hreplaced
  exact ⟨hlines, hresult.trans hrun.1, (congrArg Snapshot.output hsnapshot).trans hrun.2, front,
    behind, hline, hreplaced⟩

end Program

end MipsMachine
