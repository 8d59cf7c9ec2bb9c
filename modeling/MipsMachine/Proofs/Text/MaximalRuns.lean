import Mathlib.Data.List.Basic
import MipsMachine.Proofs.Text.Runs

set_option autoImplicit false

/-!
# Maximal runs

`IsMaximalRun` says what a maximal run of a text is and where it starts, without cutting
anything: a row of characters that holds no separator and cannot be made longer at either end.
The runs that cutting gives are all of these, each once and in the order of their starts
(`exists_starts_runs`).
-/

namespace MipsMachine.Text

variable {α : Type} {sep : α → Bool}

/-- The run stands in the text behind the first `start` characters.  It is not empty, it holds
no separator, and it cannot be made longer at either end. -/
def IsMaximalRun (sep : α → Bool) (cs : List α) (start : Nat) (run : List α) : Prop :=
  run ≠ [] ∧ (∀ c ∈ run, sep c = false) ∧
    ∃ front behind, cs = front ++ run ++ behind ∧ front.length = start ∧
      (∀ c ∈ front.getLast?, sep c = true) ∧
      ∀ c ∈ behind.head?, sep c = true

/-- Only a row without characters holds nothing but separators and no separator. -/
theorem eq_nil_of_sep {cs : List α} (hsep : ∀ c ∈ cs, sep c = true)
    (hnot : ∀ c ∈ cs, sep c = false) : cs = [] := by
  refine List.eq_nil_iff_forall_not_mem.mpr fun c hc => ?_
  exact Bool.false_ne_true ((hnot c hc).symm.trans (hsep c hc))

/-- Where a run ends can be told from the text that it starts. -/
theorem takeWhile_run_append {run behind : List α} (hrun : ∀ c ∈ run, sep c = false)
    (hbehind : ∀ c ∈ behind.head?, sep c = true) :
    (run ++ behind).takeWhile (fun c => !sep c) = run := by
  have hall : ∀ c ∈ run, (!sep c) = true := fun c hc => by rw [hrun c hc]; rfl
  have hstop : behind.takeWhile (fun c => !sep c) = [] := by
    cases behind with
    | nil => rfl
    | cons c behind => exact List.takeWhile_cons_of_neg (by simp [hbehind c rfl])
  rw [List.takeWhile_append_of_pos hall, hstop, List.append_nil]

/-- In a row of separators there is no run. -/
theorem not_isMaximalRun_of_sep {marks run : List α} {start : Nat}
    (h : ∀ c ∈ marks, sep c = true) :
    ¬IsMaximalRun sep marks start run := by
  rintro ⟨hne, hrun, front, behind, rfl, -⟩
  refine hne (eq_nil_of_sep (fun c hc => h c ?_) hrun)
  exact List.mem_append_left behind (List.mem_append_right front hc)

section

variable {marks w rest run : List α} (hmarks : ∀ c ∈ marks, sep c = true)
  (hw : ∀ c ∈ w, sep c = false) (hend : ∀ c ∈ rest.head?, sep c = true)

include hmarks hw hend in
/-- The first word of a text is a run of it. -/
theorem isMaximalRun_first (hne : w ≠ []) : IsMaximalRun sep (marks ++ w ++ rest) marks.length w :=
  ⟨hne, hw, marks, rest, rfl, rfl, fun c hc => hmarks c (List.mem_of_mem_getLast? hc), hend⟩

include hend in
/-- A run of what stands behind the first word is a run of the text. -/
theorem IsMaximalRun.append {start : Nat} (h : IsMaximalRun sep rest start run) (before : List α) :
    IsMaximalRun sep (before ++ rest) (before.length + start) run := by
  obtain ⟨hrunNe, hrun, front, behind, rfl, rfl, hfront, hbehind⟩ := h
  refine ⟨hrunNe, hrun, before ++ front, behind, by simp, List.length_append, ?_, hbehind⟩
  cases front with
  | nil =>
      -- a run right behind the word would make the word longer
      obtain ⟨c, run, rfl⟩ := List.exists_cons_of_ne_nil hrunNe
      exact absurd ((hrun c List.mem_cons_self).symm.trans (hend c rfl)) Bool.false_ne_true
  | cons c front =>
      rw [List.getLast?_append_of_ne_nil _ (List.cons_ne_nil c front)]
      exact hfront

include hmarks hw hend in
/-- A run of a text is its first word, or it is a run of what stands behind that. -/
theorem IsMaximalRun.first_or {start : Nat} (h : IsMaximalRun sep (marks ++ w ++ rest) start run) :
    start = marks.length ∧ run = w ∨
      ∃ s, start = (marks ++ w).length + s ∧ IsMaximalRun sep rest s run := by
  obtain ⟨hrunNe, hrun, front, behind, hcs, rfl, hfront, hbehind⟩ := h
  rw [List.append_assoc, List.append_assoc] at hcs
  obtain ⟨cs, rfl, hbehindMarks⟩ : ∃ cs, front = marks ++ cs ∧
      w ++ rest = cs ++ (run ++ behind) := by
    rcases List.append_eq_append_iff.mp hcs with hlonger | ⟨cs, rfl, hshorter⟩
    · exact hlonger
    · -- the run does not start at one of the separators
      cases cs with
      | nil => exact ⟨[], by simp, by simpa using hshorter.symm⟩
      | cons c cs =>
          obtain ⟨d, run, rfl⟩ := List.exists_cons_of_ne_nil hrunNe
          obtain rfl : d = c := (List.cons.inj hshorter).1
          have hsep := hmarks d (List.mem_append_right front List.mem_cons_self)
          exact absurd ((hrun d List.mem_cons_self).symm.trans hsep) Bool.false_ne_true
  cases cs with
  | nil =>
      have hsame := congrArg (List.takeWhile fun c => !sep c) hbehindMarks
      rw [List.nil_append, takeWhile_run_append hw hend,
        takeWhile_run_append hrun hbehind] at hsame
      exact Or.inl ⟨by rw [List.append_nil], hsame.symm⟩
  | cons c cs =>
      rw [List.getLast?_append_of_ne_nil _ (List.cons_ne_nil c cs)] at hfront
      rcases List.append_eq_append_iff.mp hbehindMarks with ⟨front, hfrontCs, rfl⟩ | ⟨bs, rfl, -⟩
      · refine Or.inr ⟨front.length, ?_, hrunNe, hrun, front, behind,
          by simp, rfl, fun d hd => ?_, hbehind⟩
        · rw [hfrontCs, List.length_append, List.length_append, List.length_append, Nat.add_assoc]
        · have hfrontNe : front ≠ [] := by
            rintro rfl
            cases hd
          rw [hfrontCs, List.getLast?_append_of_ne_nil _ hfrontNe] at hfront
          exact hfront d hd
      · -- nor does it start inside the first word
        have hlast := List.getLast?_eq_some_getLast (List.cons_ne_nil c cs)
        have hnot := hw _ (List.mem_append_left bs (List.mem_of_getLast? hlast))
        exact absurd (hnot.symm.trans (hfront _ hlast)) Bool.false_ne_true

end

/-- The words of a text are its maximal runs, each once and in the order of their starts. -/
theorem Spaced.exists_starts {cs : List α} {ws : List (List α)} (h : Spaced sep cs ws) :
    ∃ starts : List Nat, starts.length = ws.length ∧ starts.Pairwise (· < ·) ∧
      ∀ start run, (start, run) ∈ starts.zip ws ↔ IsMaximalRun sep cs start run := by
  induction h with
  | gap hmarks =>
      refine ⟨[], rfl, .nil, fun start run => ?_⟩
      simp [not_isMaximalRun_of_sep hmarks]
  | @word marks w rest ws hmarks hne hw hend _ ih =>
      obtain ⟨starts, hlength, hascending, hruns⟩ := ih
      refine ⟨marks.length :: starts.map ((marks ++ w).length + ·),
        by simp [hlength], ?_, fun start run => ?_⟩
      · have hpos : 0 < w.length := List.length_pos_iff.mpr hne
        refine List.pairwise_cons.mpr ⟨?_,
          hascending.map _ fun _ _ hlt => Nat.add_lt_add_left hlt _⟩
        intro start hstart
        obtain ⟨s, -, rfl⟩ := List.mem_map.mp hstart
        rw [List.length_append]
        omega
      · rw [List.zip_cons_cons, List.mem_cons, Prod.mk.injEq, List.zip_map_left, List.mem_map]
        constructor
        · rintro (⟨rfl, rfl⟩ | ⟨⟨s, run'⟩, hmem, heq⟩)
          · exact isMaximalRun_first hmarks hw hend hne
          · obtain ⟨rfl, rfl⟩ := Prod.mk.inj heq
            exact ((hruns s run').mp hmem).append hend _
        · intro hrun
          rcases hrun.first_or hmarks hw hend with hfirst | ⟨s, rfl, hrest⟩
          · exact Or.inl hfirst
          · exact Or.inr ⟨(s, run), (hruns s run).mpr hrest, rfl⟩

/-- Cutting a text at its separators gives its maximal runs. -/
theorem exists_starts_runs (sep : α → Bool) (cs : List α) :
    ∃ starts : List Nat, starts.length = (runs sep cs).length ∧ starts.Pairwise (· < ·) ∧
      ∀ start run, (start, run) ∈ starts.zip (runs sep cs) ↔ IsMaximalRun sep cs start run :=
  (runs_eq_iff.mp rfl).exists_starts

end MipsMachine.Text
