import MipsMachine.Hundredths
import MipsMachine.Tally

set_option autoImplicit false

/-!
# The statistics report

A tally written out for a reader, in three sections that can be asked for by name.  Shares are
percentages with two decimal places; where nothing was executed they are zero.
-/

namespace MipsMachine.Tally

/-- A part of the report. -/
inductive Section where
  /-- the number of instructions -/
  | summary
  /-- the instructions by class -/
  | instructionMix
  /-- the branches -/
  | branch
  deriving DecidableEq, Repr, Inhabited

namespace Section

/-- The name by which a section is asked for. -/
def name : Section → String
  | .summary => "summary"
  | .instructionMix => "instruction_mix"
  | .branch => "branch"

/-- Every section, in the order of the report. -/
def all : List Section := [.summary, .instructionMix, .branch]

end Section

/-- The heavy rule that closes the report. -/
def heavyRule : String := "=========================================================="

/-- The light rule between sections. -/
def lightRule : String := "----------------------------------------------------------"

/-- A count as a percentage of all executed instructions. -/
def share (t : Tally) (n : Nat) : Float :=
  Float.ofNat n / Float.ofNat (max t.retired 1) * 100.0

/-- The percentage of branches that were taken. -/
def takenRate (t : Tally) : Float :=
  if t.taken + t.notTaken = 0 then 0.0
  else 100.0 * (Float.ofNat t.taken / Float.ofNat (t.taken + t.notTaken))

/-- A name filled up to its column, and what stands behind it. -/
def row (name value : String) : String :=
  name ++ String.ofList (List.replicate (25 - name.length) ' ') ++ value

/-- A row with a count and its share. -/
def shareRow (t : Tally) (name : String) (n : Nat) : String :=
  row ("  " ++ name) (Numeral.natural n ++ " (" ++ Hundredths.text (t.share n) ++ "%)")

/-- The lines of a section. -/
def sectionLines (t : Tally) : Section → List String
  | .summary =>
    ["", heavyRule, "MIPS SIMULATION STATISTICS", heavyRule,
     row "sim_insts" (Numeral.natural t.retired), lightRule]
  | .instructionMix =>
    ["INSTRUCTION MIX", t.shareRow "op.alu" t.alu, t.shareRow "op.load" t.load,
     t.shareRow "op.store" t.store, t.shareRow "op.branch" t.branch,
     t.shareRow "op.output" t.output, t.shareRow "op.halt" t.halt, lightRule]
  | .branch =>
    ["BRANCHES", row "  br.total" (Numeral.natural (t.taken + t.notTaken)),
     row "  br.taken" (Numeral.natural t.taken),
     row "  br.not_taken" (Numeral.natural t.notTaken),
     row "  br.taken_rate" (Hundredths.text t.takenRate ++ "%")]

/-- The sections among those named; all of them if none is named. -/
def chosen (names : List String) : List Section :=
  Section.all.filter fun s => names.isEmpty || names.contains s.name

/-- The report with the named sections, each line ended. -/
def report (t : Tally) (names : List String) : String :=
  String.join (((chosen names).flatMap t.sectionLines ++ [heavyRule]).map (· ++ "\n"))

end MipsMachine.Tally
