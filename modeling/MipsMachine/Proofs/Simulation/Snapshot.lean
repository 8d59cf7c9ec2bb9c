import Mathlib.Data.List.Forall2
import MipsMachine.Proofs.Json.Literal
import MipsMachine.Proofs.Json.Value
import MipsMachine.Proofs.Register
import MipsMachine.Proofs.Simulation.Independence
import MipsMachine.Proofs.Word
import MipsMachine.Simulation.Snapshot

set_option autoImplicit false

/-!
# What the text of a snapshot tells

The JSON text of a snapshot, on one line or on many, reads back as one value, and the value
holds all of the snapshot (`Snapshot.value_injective`).  So no printed line, whatever stands in
it, and no row of words of whatever length can pass for another part of the text, and two texts
are equal only if the snapshots are (`text_determines_snapshot`).
-/

namespace MipsMachine

namespace Json.Value

/-! ## Values of plain data -/

/-- A number. -/
def ofInteger (n : Int) : Value := .number (Numeral.integer n).toList

/-- A text. -/
def ofText (s : String) : Value := .string (some s)

/-- A row of texts. -/
def ofLines (lines : List String) : Value := .array (lines.map ofText)

/-- Values under keys. -/
def ofMembers (members : List (String × Value)) : Value :=
  .object (members.map fun m => (some m.1, m.2))

theorem ofInteger_injective {m n : Int} (h : ofInteger m = ofInteger n) : m = n :=
  Numeral.integer_injective (String.toList_inj.mp (Value.number.inj h))

theorem ofLines_injective {lines lines' : List String} (h : ofLines lines = ofLines lines') :
    lines = lines' :=
  List.map_injective_iff.mpr (fun _ _ htext =>
    Option.some.inj (Value.string.inj htext)) (Value.array.inj h)

theorem ofMembers_injective {members members' : List (String × Value)}
    (h : ofMembers members = ofMembers members') :
    members = members' := by
  refine List.map_injective_iff.mpr (fun m m' hmember => ?_) (Value.object.inj h)
  obtain ⟨hkey, hvalue⟩ := Prod.mk.inj hmember
  exact Prod.ext (Option.some.inj hkey) hvalue

theorem makes_lineTokens (lines : List String) : Makes (lineTokens lines) (ofLines lines) := by
  apply Container.array.makes
  rw [List.forall₂_map_left_iff, List.forall₂_map_right_iff, List.forall₂_same]
  exact fun line _ => (makes_string line).element

theorem makes_objectTokens {members : List (String × List Token)} {values : List (String × Value)}
    (h : List.Forall₂ (fun m w => m.1 = w.1 ∧ Makes m.2 w.2) members values) :
    Makes (objectTokens members) (ofMembers values) := by
  apply Container.object.makes
  rw [List.forall₂_map_left_iff, List.forall₂_map_right_iff]
  refine h.imp fun m w hmember => ?_
  obtain ⟨hkey, hvalue⟩ := hmember
  exact hkey ▸ hvalue.member m.1

/-- Integers under keys, one member for each element of a list. -/
theorem makes_integers {α : Type} (l : List α) (key : α → String) (n : α → Int) :
    Makes (objectTokens (l.map fun a => (key a, [.integer (n a)])))
      (ofMembers (l.map fun a => (key a, ofInteger (n a)))) := by
  apply makes_objectTokens
  rw [List.forall₂_map_left_iff, List.forall₂_map_right_iff, List.forall₂_same]
  exact fun a _ => ⟨rfl, makes_integer (n a)⟩

theorem integers_injective {α : Type} {key : α → String} {n : α → Int}
    (hone : ∀ a b, key a = key b → n a = n b → a = b) {l l' : List α}
    (h : ofMembers (l.map fun a => (key a, ofInteger (n a))) =
      ofMembers (l'.map fun a => (key a, ofInteger (n a)))) :
    l = l' := by
  refine List.map_injective_iff.mpr (fun a b hmember => ?_) (ofMembers_injective h)
  obtain ⟨hkey, hvalue⟩ := Prod.mk.inj hmember
  exact hone a b hkey (ofInteger_injective hvalue)

end Json.Value

open Json.Value (ofInteger ofLines ofMembers)

/-! ## The parts of a snapshot -/

/-- The JSON value of a listing. -/
def Listing.value (l : Listing) : Json.Value :=
  ofMembers (l.map fun entry => (entry.1.name, ofInteger entry.2.toInt))

/-- The JSON value of the words in memory. -/
def Memory.value (words : Table Int64 Int64) : Json.Value :=
  ofMembers (words.toList.map fun entry =>
    (Numeral.integer entry.1.toInt, ofInteger entry.2.toInt))

/-- The JSON value of a tally. -/
def Tally.value (t : Tally) : Json.Value :=
  ofMembers (t.counts.map fun count => (count.1, ofInteger count.2))

theorem Listing.value_injective {l l' : Listing} (h : l.value = l'.value) : l = l' :=
  Json.Value.integers_injective
    (fun _ _ hname hvalue =>
      Prod.ext (Register.name_injective hname) (Int64.toInt_inj.mp hvalue)) h

theorem Memory.value_injective {words words' : Table Int64 Int64}
    (h : Memory.value words = Memory.value words') :
    words = words' := by
  have hentries : words.toList = words'.toList :=
    Json.Value.integers_injective (fun _ _ haddress hvalue =>
      Prod.ext (Int64.toInt_inj.mp (Numeral.integer_injective haddress))
        (Int64.toInt_inj.mp hvalue)) h
  cases words
  cases words'
  cases hentries
  rfl

theorem Tally.value_injective {t t' : Tally} (h : t.value = t'.value) : t = t' := by
  have hcounts : t.counts = t'.counts :=
    Json.Value.integers_injective (fun _ _ hname hcount =>
      Prod.ext hname (Int.natCast_inj.mp hcount)) h
  cases t
  cases t'
  simpa [counts] using hcounts

namespace Snapshot

/-- The JSON value of a snapshot. -/
def value (s : Snapshot) : Json.Value :=
  ofMembers
    [("pc", ofInteger s.pc),
     ("finished", .bool s.finished),
     ("registers", s.registers.value),
     ("memory", Memory.value s.memory),
     ("output", ofLines s.output.toList),
     ("trace", ofLines (s.trace.toList.map Word.text)),
     ("stats", s.tally.value)]

theorem makes_tokens (s : Snapshot) : Json.Value.Makes s.tokens s.value := by
  apply Json.Value.makes_objectTokens
  refine .cons ⟨rfl, Json.Value.makes_integer _⟩ (.cons ⟨rfl, Json.Value.makes_bool _⟩ ?_)
  refine .cons ⟨rfl, Json.Value.makes_integers _ _ _⟩
    (.cons ⟨rfl, Json.Value.makes_integers _ _ _⟩ ?_)
  refine .cons ⟨rfl, Json.Value.makes_lineTokens _⟩ (.cons ⟨rfl, Json.Value.makes_lineTokens _⟩ ?_)
  exact .cons ⟨rfl, Json.Value.makes_integers _ _ _⟩ .nil

/-- The value of a snapshot holds all of it. -/
theorem value_injective {s t : Snapshot} (h : s.value = t.value) : s = t := by
  have hmembers := Json.Value.ofMembers_injective h
  simp only [List.cons.injEq, Prod.mk.injEq, true_and, and_true] at hmembers
  obtain ⟨hpc, hfinished, hregisters, hmemory, houtput, htrace, htally⟩ := hmembers
  have hwords := Json.Value.ofLines_injective htrace
  cases s
  cases t
  simp only [mk.injEq]
  exact ⟨Int.natCast_inj.mp (Json.Value.ofInteger_injective hpc), Json.Value.bool.inj hfinished,
    Listing.value_injective hregisters, Memory.value_injective hmemory,
    Array.toList_inj.mp (Json.Value.ofLines_injective houtput),
    Array.toList_inj.mp (List.map_injective_iff.mpr (fun _ _ => Word.text_injective) hwords),
    Tally.value_injective htally⟩

/-! ## The text -/

theorem read_compact (s : Snapshot) :
    Json.Value.read s.compact = some s.value := s.makes_tokens.read_compact

theorem read_pretty (s : Snapshot) :
    Json.Value.read s.pretty = some s.value := s.makes_tokens.read_pretty

/-- A text holds one snapshot at most. -/
theorem eq_of_read_eq {text : String} {s t : Snapshot} (hs : Json.Value.read text = some s.value)
    (ht : Json.Value.read text = some t.value) : s = t :=
  value_injective (Option.some.inj (hs.symm.trans ht))

theorem compact_eq_iff {s t : Snapshot} : s.compact = t.compact ↔ s = t :=
  ⟨fun h => eq_of_read_eq s.read_compact (h ▸ t.read_compact), congrArg compact⟩

theorem pretty_eq_iff {s t : Snapshot} : s.pretty = t.pretty ↔ s = t :=
  ⟨fun h => eq_of_read_eq s.read_pretty (h ▸ t.read_pretty), congrArg pretty⟩

end Snapshot

/-- Two simulations show the same: the counter and whether it is past the program, each
register, each word in memory, and the three records of the run. -/
structure Simulation.LooksLike (s t : Simulation) : Prop where
  pc : s.machine.pc = t.machine.pc
  finished : s.isFinished = t.isFinished
  registers : ∀ r, s.machine.registers.read r = t.machine.registers.read r
  memory : ∀ a, s.machine.memory.written a = t.machine.memory.written a ∧
    s.machine.memory.load a = t.machine.memory.load a
  output : s.output = t.output
  trace : s.trace = t.trace
  tally : s.tally = t.tally

theorem Simulation.snapshot_eq_iff {s t : Simulation} :
    s.snapshot = t.snapshot ↔ s.LooksLike t := by
  constructor
  · intro h
    have hmemory : s.machine.memory = t.machine.memory :=
      Memory.ext_toList (congrArg (fun shot => shot.memory.toList) h)
    exact
      { pc := congrArg Snapshot.pc h
        finished := congrArg Snapshot.finished h
        registers := Bank.read_eq_of_listing_eq (congrArg Snapshot.registers h)
        memory := Memory.eq_iff_load_eq.mp hmemory
        output := congrArg Snapshot.output h
        trace := congrArg Snapshot.trace h
        tally := congrArg Snapshot.tally h }
  · intro h
    have hregisters := Bank.ext_read h.registers
    have hmemory := Memory.eq_iff_load_eq.mpr h.memory
    rw [snapshot, snapshot, h.pc, h.finished, hregisters, hmemory, h.output, h.trace, h.tally]

/-- The JSON text of a snapshot tells the snapshot: two texts are equal, on one line or on
many, exactly if the snapshots are, and two simulations have the same text exactly if they show
the same.  Either text reads back as a value that holds all of the snapshot.  In it the strings
stand between quotation marks with the usual escapes, and the numbers are decimal. -/
theorem Snapshot.text_determines_snapshot :
    (∀ s t : Snapshot, (s.compact = t.compact ↔ s = t) ∧ (s.pretty = t.pretty ↔ s = t)) ∧
    (∀ s t : Simulation, (s.snapshot.compact = t.snapshot.compact ↔ s.LooksLike t) ∧
      (s.snapshot.pretty = t.snapshot.pretty ↔ s.LooksLike t)) ∧
    (∀ s : Snapshot, Json.Value.read s.compact = some s.value ∧
      Json.Value.read s.pretty = some s.value) ∧
    (∀ line : String, ∃ parts, List.Forall₂ Json.Escaped line.toList parts ∧
      (Json.Token.ofText line).spelling = '"' :: (parts.flatten ++ ['"'])) ∧
    ∀ n : Int, (Json.Token.integer n).spelling = (toString n).toList := by
  refine ⟨fun s t => ⟨compact_eq_iff, pretty_eq_iff⟩, fun s t => ⟨?_, ?_⟩,
    fun s => ⟨s.read_compact, s.read_pretty⟩, ?_, ?_⟩
  · rw [compact_eq_iff, Simulation.snapshot_eq_iff]
  · rw [pretty_eq_iff, Simulation.snapshot_eq_iff]
  · intro line
    refine ⟨line.toList.map Json.escape, ?_, rfl⟩
    rw [List.forall₂_map_right_iff, List.forall₂_same]
    exact fun c _ => Json.escaped_iff.mpr rfl
  · intro n
    rw [← Numeral.integer_eq_toString]
    rfl

example : Json.Token.compact (lineTokens ["a\",\"b"]) = "[\"a\\\",\\\"b\"]" ∧
    Json.Token.compact (lineTokens ["a", "b"]) = "[\"a\",\"b\"]" := by
  decide +kernel

end MipsMachine
