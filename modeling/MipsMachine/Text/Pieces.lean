set_option autoImplicit false

/-!
# Text: cutting at separators

A text is cut into *pieces* at every separator, so `n` separators give `n + 1` pieces, some of
them perhaps empty.  The *runs* of a text are its non-empty pieces: the maximal stretches that
hold no separator.  Words, operand tokens and lines are all cut this way, lines of bytes as
well as lines of characters.
-/

namespace MipsMachine.Text

variable {α : Type}

/-- The pieces of a text between its separators, in order; never an empty list. -/
def pieces (sep : α → Bool) : List α → List (List α)
  | [] => [[]]
  | c :: cs => if sep c then [] :: pieces sep cs else (pieces sep cs).modifyHead (c :: ·)

/-- The maximal separator-free stretches of a text, in order. -/
def runs (sep : α → Bool) (cs : List α) : List (List α) :=
  (pieces sep cs).filter fun piece => !piece.isEmpty

/-- The text up to each end mark, in order, each without its mark; what follows the last mark
is left out. -/
def ended (mark : α → Bool) (cs : List α) : List (List α) := (pieces mark cs).dropLast

/-- The text behind the last end mark. -/
def rest (mark : α → Bool) (cs : List α) : List α := ((pieces mark cs).getLast?).getD []

/-- The text before and after the first occurrence of `mark`, if it occurs. -/
def cutAt (mark : Char) : List Char → Option (List Char × List Char)
  | [] => none
  | c :: cs => if c = mark then some ([], cs) else (cutAt mark cs).map fun p => (c :: p.1, p.2)

/-! ## What the pieces are -/

@[simp] theorem pieces_nil (sep : α → Bool) : pieces sep [] = [[]] := rfl

theorem pieces_cons_of_sep {sep : α → Bool} {c : α} (h : sep c = true) (cs : List α) :
    pieces sep (c :: cs) = [] :: pieces sep cs := by
  simp [pieces, h]

theorem pieces_cons_of_not_sep {sep : α → Bool} {c : α} (h : sep c = false) (cs : List α) :
    pieces sep (c :: cs) = (pieces sep cs).modifyHead (c :: ·) := by
  simp [pieces, h]

theorem pieces_ne_nil (sep : α → Bool) (cs : List α) : pieces sep cs ≠ [] := by
  induction cs with
  | nil => simp
  | cons c cs ih => by_cases h : sep c = true <;> simp [pieces, h, ih]

/-- No piece holds a separator. -/
theorem not_sep_of_mem_pieces {sep : α → Bool} {cs piece : List α} {c : α}
    (hp : piece ∈ pieces sep cs) (hc : c ∈ piece) : sep c = false := by
  induction cs generalizing piece with
  | nil => simp_all
  | cons d ds ih =>
      by_cases h : sep d = true
      · rw [pieces_cons_of_sep h, List.mem_cons] at hp
        rcases hp with rfl | hp
        · simp at hc
        · exact ih hp hc
      · rw [Bool.not_eq_true] at h
        rw [pieces_cons_of_not_sep h] at hp
        cases hps : pieces sep ds with
        | nil => exact absurd hps (pieces_ne_nil sep ds)
        | cons p ps =>
            simp only [hps, List.modifyHead_cons, List.mem_cons] at hp ih
            rcases hp with rfl | hp
            · rcases List.mem_cons.1 hc with rfl | hc
              · exact h
              · exact ih (Or.inl rfl) hc
            · exact ih (Or.inr hp) hc

/-- The pieces, joined up, are the text without its separators. -/
theorem flatten_pieces (sep : α → Bool) (cs : List α) :
    (pieces sep cs).flatten = cs.filter fun c => !sep c := by
  induction cs with
  | nil => rfl
  | cons c cs ih =>
      by_cases h : sep c = true
      · simp [pieces, h, ih]
      · rw [Bool.not_eq_true] at h
        rw [pieces_cons_of_not_sep h]
        cases hps : pieces sep cs with
        | nil => exact absurd hps (pieces_ne_nil sep cs)
        | cons p ps => simp [h, ← ih, hps]

/-- A run is a non-empty piece. -/
theorem mem_runs {sep : α → Bool} {cs run : List α} :
    run ∈ runs sep cs ↔ run ∈ pieces sep cs ∧ run ≠ [] := by
  simp [runs]

/-! ## Source lines -/

/-- Drop one carriage return at the end. -/
def dropReturn (cs : List Char) : List Char :=
  if cs.getLast? = some '\r' then cs.dropLast else cs

/-- The lines of a text.  A line ends at a line feed, with one carriage return before it
dropped; what follows the last line feed is a line of its own, kept as it stands, unless it is
empty. -/
def lines (cs : List Char) : List (List Char) :=
  (ended (· == '\n') cs).map dropReturn ++ [rest (· == '\n') cs].filter fun piece => !piece.isEmpty

end MipsMachine.Text
