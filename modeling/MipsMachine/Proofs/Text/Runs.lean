import MipsMachine.Text.Pieces

set_option autoImplicit false

/-!
# Runs between separators

The pieces and the runs of a text that is put together at a separator are those of its two
parts.  So a row of separators cuts a text however long it is, and a text without separators is
one run.  `Spaced` says without cutting anything which words a text consists of; there is one
way to say it, and the words are the runs (`runs_eq_iff`).
-/

namespace MipsMachine.Text

variable {α : Type} {sep : α → Bool}

theorem pieces_append_cons {c : α} (hc : sep c = true) (xs ys : List α) :
    pieces sep (xs ++ c :: ys) = pieces sep xs ++ pieces sep ys := by
  induction xs with
  | nil => rw [List.nil_append, pieces_cons_of_sep hc, pieces_nil, List.singleton_append]
  | cons x xs ih =>
      rw [List.cons_append]
      by_cases hx : sep x = true
      · rw [pieces_cons_of_sep hx, pieces_cons_of_sep hx, ih, List.cons_append]
      · rw [Bool.not_eq_true] at hx
        rw [pieces_cons_of_not_sep hx, pieces_cons_of_not_sep hx, ih]
        cases hps : pieces sep xs with
        | nil => exact absurd hps (pieces_ne_nil sep xs)
        | cons p ps => rfl

/-- A separator cuts the runs of a text. -/
theorem runs_append_cons {c : α} (hc : sep c = true) (xs ys : List α) :
    runs sep (xs ++ c :: ys) = runs sep xs ++ runs sep ys := by
  rw [runs, pieces_append_cons hc, List.filter_append, runs, runs]

theorem runs_cons_of_sep {c : α} (hc : sep c = true) (cs : List α) :
    runs sep (c :: cs) = runs sep cs := by
  rw [runs, pieces_cons_of_sep hc]
  rfl

/-- A row of separators in front of a text adds no run. -/
theorem runs_separators_append {marks : List α} (h : ∀ c ∈ marks, sep c = true) (cs : List α) :
    runs sep (marks ++ cs) = runs sep cs := by
  induction marks with
  | nil => rfl
  | cons mark marks ih =>
      rw [List.cons_append, runs_cons_of_sep (h mark List.mem_cons_self)]
      exact ih fun c hc => h c (List.mem_cons_of_mem mark hc)

/-- A row of separators that is not empty cuts the runs of a text. -/
theorem runs_append_separators_append {marks : List α} (hne : marks ≠ [])
    (h : ∀ c ∈ marks, sep c = true) (xs ys : List α) :
    runs sep (xs ++ (marks ++ ys)) = runs sep xs ++ runs sep ys := by
  cases marks with
  | nil => exact absurd rfl hne
  | cons mark marks =>
      rw [List.cons_append, runs_append_cons (h mark List.mem_cons_self),
        runs_separators_append fun c hc => h c (List.mem_cons_of_mem mark hc)]

/-- The runs, joined up, are the text without its separators. -/
theorem flatten_runs (cs : List α) : (runs sep cs).flatten = cs.filter fun c => !sep c := by
  rw [runs, List.flatten_filter_not_isEmpty, flatten_pieces]

theorem pieces_of_not_sep {cs : List α} (h : ∀ c ∈ cs, sep c = false) : pieces sep cs = [cs] := by
  induction cs with
  | nil => rfl
  | cons c cs ih =>
      rw [pieces_cons_of_not_sep (h c List.mem_cons_self),
        ih fun d hd => h d (List.mem_cons_of_mem c hd)]
      rfl

/-- A text without separators is one run. -/
theorem runs_of_not_sep {cs : List α} (hne : cs ≠ []) (h : ∀ c ∈ cs, sep c = false) :
    runs sep cs = [cs] := by
  rw [runs, pieces_of_not_sep h]
  simp [hne]

/-! ## Words with separators around them -/

/-- A text consists of the given words in this order, with separators between any two of them
and separators or nothing at its ends. -/
inductive Spaced (sep : α → Bool) : List α → List (List α) → Prop
  /-- A row of separators holds no word. -/
  | gap {marks : List α} (hmarks : ∀ c ∈ marks, sep c = true) : Spaced sep marks []
  /-- The first word ends at a separator or with the text. -/
  | word (marks w : List α) {rest : List α} {ws : List (List α)}
      (hmarks : ∀ c ∈ marks, sep c = true) (hne : w ≠ []) (hw : ∀ c ∈ w, sep c = false)
      (hend : ∀ c ∈ rest.head?, sep c = true) (hrest : Spaced sep rest ws) :
      Spaced sep (marks ++ w ++ rest) (w :: ws)

theorem Spaced.runs_eq {cs : List α} {ws : List (List α)} (h : Spaced sep cs ws) :
    runs sep cs = ws := by
  induction h with
  | @gap marks hmarks =>
      rw [← List.append_nil marks, runs_separators_append hmarks]
      rfl
  | @word marks w rest ws hmarks hne hw hend _ ih =>
      rw [List.append_assoc, runs_separators_append hmarks]
      cases rest with
      | nil =>
          obtain rfl : [] = ws := ih
          rw [List.append_nil, runs_of_not_sep hne hw]
      | cons c rest =>
          have hc : sep c = true := hend c rfl
          rw [runs_append_cons hc, runs_of_not_sep hne hw, ← runs_cons_of_sep hc, ih]
          rfl

/-- A separator in front of a text changes nothing about its words. -/
theorem Spaced.cons_of_sep {c : α} (hc : sep c = true) {cs : List α} {ws : List (List α)}
    (h : Spaced sep cs ws) :
    Spaced sep (c :: cs) ws := by
  cases h with
  | gap hmarks => exact .gap (List.forall_mem_cons.mpr ⟨hc, hmarks⟩)
  | word marks w hmarks hne hw hend hrest =>
      exact .word (c :: marks) w (List.forall_mem_cons.mpr ⟨hc, hmarks⟩) hne hw hend hrest

/-- Any other character makes the first word longer, or it is a word of its own. -/
theorem Spaced.exists_cons_of_not_sep {c : α} (hc : sep c = false) {cs : List α}
    {ws : List (List α)} (h : Spaced sep cs ws) : ∃ ws', Spaced sep (c :: cs) ws' := by
  have hnone : ∀ d ∈ ([] : List α), sep d = true := fun d hd => absurd hd List.not_mem_nil
  have hself : ∀ d ∈ [c], sep d = false := List.forall_mem_singleton.mpr hc
  cases h with
  | gap hmarks =>
      refine ⟨[[c]], .word [] [c] hnone (List.cons_ne_nil c []) hself ?_ (.gap hmarks)⟩
      exact fun d hd => hmarks d (List.mem_of_mem_head? hd)
  | word marks w hmarks hne hw hend hrest =>
      cases marks with
      | nil =>
          exact ⟨_, .word [] (c :: w) hnone (List.cons_ne_nil c w)
            (List.forall_mem_cons.mpr ⟨hc, hw⟩) hend hrest⟩
      | cons d marks =>
          have hnext := Spaced.word (d :: marks) w hmarks hne hw hend hrest
          refine ⟨_, .word [] [c] hnone (List.cons_ne_nil c []) hself ?_ hnext⟩
          intro e he
          obtain rfl := Option.some.inj he
          exact hmarks d List.mem_cons_self

/-- Every text consists of words in one way, and its runs are these words. -/
theorem runs_eq_iff {cs : List α} {ws : List (List α)} : runs sep cs = ws ↔ Spaced sep cs ws := by
  refine ⟨?_, Spaced.runs_eq⟩
  rintro rfl
  obtain ⟨ws, h⟩ : ∃ ws, Spaced sep cs ws := by
    induction cs with
    | nil => exact ⟨[], .gap fun c hc => absurd hc List.not_mem_nil⟩
    | cons c cs ih =>
        obtain ⟨ws, h⟩ := ih
        cases hc : sep c with
        | true => exact ⟨ws, h.cons_of_sep hc⟩
        | false => exact h.exists_cons_of_not_sep hc
  rwa [h.runs_eq]

/-- A row of separators, then words, each with a row of separators behind it that may be empty
behind the last one. -/
theorem spaced_flatMap {front : List α} {words : List (List α × List α)}
    (hfront : ∀ c ∈ front, sep c = true)
    (hwords : ∀ w ∈ words, w.1 ≠ [] ∧ (∀ c ∈ w.1, sep c = false) ∧ ∀ c ∈ w.2, sep c = true)
    (hbetween : ∀ gap ∈ (words.map Prod.snd).dropLast, gap ≠ []) :
    Spaced sep (front ++ words.flatMap fun w => w.1 ++ w.2) (words.map Prod.fst) := by
  induction words generalizing front with
  | nil =>
      rw [List.flatMap_nil, List.append_nil]
      exact .gap hfront
  | cons first words ih =>
      obtain ⟨w, gap⟩ := first
      obtain ⟨⟨hne, hw, hgap⟩, hrest⟩ := List.forall_mem_cons.mp hwords
      rw [List.flatMap_cons, List.append_assoc, ← List.append_assoc]
      cases words with
      | nil =>
          refine .word front w hfront hne hw (fun c hc => ?_) (ih hgap hrest (by simp))
          exact hgap c (List.mem_of_mem_head? (by simpa using hc))
      | cons second words =>
          obtain ⟨hgapNe, hothers⟩ : gap ≠ [] ∧
              ∀ g ∈ ((second :: words).map Prod.snd).dropLast, g ≠ [] := by
            simpa using hbetween
          obtain ⟨c, gap, rfl⟩ := List.exists_cons_of_ne_nil hgapNe
          refine .word front w hfront hne hw (fun d hd => ?_) (ih hgap hrest hothers)
          obtain rfl := Option.some.inj hd
          exact hgap c List.mem_cons_self

end MipsMachine.Text
