import Mathlib.Data.List.DropRight
import MipsMachine.Text.Blank
import MipsMachine.Text.Pieces

set_option autoImplicit false

/-!
# Trimming and cutting

Trimming loses the blanks at the two ends of a text, and it does not matter at which end one
starts.  Around a character that is no blank the two ends are independent (`trim_append_cons`),
and blanks more or less at an end make no difference (`trim_blanks`).  Cutting at a mark finds
the first one (`cutAt_append_cons`).
-/

namespace MipsMachine.Text

/-! ## Trimming -/

/-- No blank at either end. -/
structure IsTrimmed (cs : List Char) : Prop where
  head : ∀ c ∈ cs.head?, isBlank c = false
  last : ∀ c ∈ cs.getLast?, isBlank c = false

theorem isTrimmed_singleton {c : Char} (h : isBlank c = false) : IsTrimmed [c] := by
  constructor
  · simpa using h
  · simpa using h

/-- Only the first and the last part of a text decide whether it is trimmed. -/
theorem IsTrimmed.append {xs ys : List Char} (hxs : IsTrimmed xs) (hys : IsTrimmed ys)
    (hxsNe : xs ≠ []) (hysNe : ys ≠ []) (between : List Char) :
    IsTrimmed (xs ++ between ++ ys) where
  head := by
    rw [List.append_assoc, List.head?_append_of_ne_nil xs hxsNe]
    exact hxs.head
  last := by
    rw [List.getLast?_append_of_ne_nil _ hysNe]
    exact hys.last

theorem trimEnd_eq_rdropWhile (cs : List Char) : trimEnd cs = cs.rdropWhile isBlank := rfl

theorem trimStart_append_cons {c : Char} (hc : isBlank c = false) (xs ys : List Char) :
    trimStart (xs ++ c :: ys) = trimStart xs ++ c :: ys := by
  have hstop : (c :: ys).dropWhile isBlank = c :: ys := List.dropWhile_cons_of_neg (by simp [hc])
  rw [trimStart, List.dropWhile_append, hstop]
  split
  next h => rw [trimStart, List.isEmpty_iff.mp h, List.nil_append]
  next => rfl

theorem trimEnd_append_cons {c : Char} (hc : isBlank c = false) (xs ys : List Char) :
    trimEnd (xs ++ c :: ys) = xs ++ c :: trimEnd ys := by
  have hreverse : (xs ++ c :: ys).reverse = ys.reverse ++ c :: xs.reverse := by simp
  have hstart := trimStart_append_cons hc ys.reverse xs.reverse
  rw [trimStart] at hstart
  rw [trimEnd, hreverse, hstart, trimEnd]
  simp [trimStart]

/-- A character that is no blank stays, and so does all that stands on its other side. -/
theorem trim_append_cons {c : Char} (hc : isBlank c = false) (xs ys : List Char) :
    trim (xs ++ c :: ys) = trimStart xs ++ c :: trimEnd ys := by
  rw [trim, trimStart_append_cons hc, trimEnd_append_cons hc]

theorem trimStart_of_blank {bs : List Char} (h : ∀ c ∈ bs, isBlank c = true) : trimStart bs = [] :=
  List.dropWhile_eq_nil_iff.mpr h

theorem trimEnd_of_blank {bs : List Char} (h : ∀ c ∈ bs, isBlank c = true) : trimEnd bs = [] :=
  List.rdropWhile_eq_nil_iff.mpr h

/-- Either end may be trimmed first. -/
theorem trim_eq_trimStart_trimEnd (cs : List Char) : trim cs = trimStart (trimEnd cs) := by
  by_cases h : ∀ c ∈ cs, isBlank c = true
  · rw [trim, trimStart_of_blank h, trimEnd_of_blank h]
    rfl
  · obtain ⟨c, hmem, hc⟩ : ∃ c ∈ cs, isBlank c = false := by simpa using h
    obtain ⟨xs, ys, rfl⟩ := List.append_of_mem hmem
    rw [trim_append_cons hc, trimEnd_append_cons hc, trimStart_append_cons hc]

theorem trim_blanks_append {bs : List Char} (h : ∀ c ∈ bs, isBlank c = true) (cs : List Char) :
    trim (bs ++ cs) = trim cs := by
  rw [trim, trimStart, List.dropWhile_append_of_pos h]
  rfl

theorem trimEnd_append_blanks {bs : List Char} (h : ∀ c ∈ bs, isBlank c = true) (cs : List Char) :
    trimEnd (cs ++ bs) = trimEnd cs := by
  have hreverse : ∀ c ∈ bs.reverse, isBlank c = true := fun c hc => h c (List.mem_reverse.mp hc)
  rw [trimEnd, List.reverse_append, List.dropWhile_append_of_pos hreverse]
  rfl

theorem trim_append_blanks {bs : List Char} (h : ∀ c ∈ bs, isBlank c = true) (cs : List Char) :
    trim (cs ++ bs) = trim cs := by
  rw [trim_eq_trimStart_trimEnd, trimEnd_append_blanks h, ← trim_eq_trimStart_trimEnd]

/-- Blanks more or less at the ends make no difference. -/
theorem trim_blanks {front behind : List Char} (hfront : ∀ c ∈ front, isBlank c = true)
    (hbehind : ∀ c ∈ behind, isBlank c = true) (cs : List Char) :
    trim (front ++ cs ++ behind) = trim cs := by
  rw [trim_append_blanks hbehind, trim_blanks_append hfront]

theorem IsTrimmed.trim_eq {cs : List Char} (h : IsTrimmed cs) : trim cs = cs := by
  cases cs with
  | nil => rfl
  | cons c cs =>
      have hc : isBlank c = false := h.head c rfl
      have hlast : ∀ hne, ¬isBlank ((c :: cs).getLast hne) = true := by
        intro hne
        simp [h.last _ (List.getLast?_eq_some_getLast hne)]
      have hstart : trimStart (c :: cs) = c :: cs := List.dropWhile_cons_of_neg (by simp [hc])
      rw [trim, hstart, trimEnd_eq_rdropWhile, List.rdropWhile_eq_self_iff.mpr hlast]

/-- A text with another one in place of what trimming leaves of it. -/
def replaceTrimmed (cs new : List Char) : List Char :=
  cs.takeWhile isBlank ++ new ++ (trimStart cs).rtakeWhile isBlank

theorem trim_replaceTrimmed (cs : List Char) {new : List Char} (h : IsTrimmed new) :
    trim (replaceTrimmed cs new) = new := by
  rw [replaceTrimmed, trim_blanks (fun _ hc => List.mem_takeWhile_imp hc)
    (fun _ hc => List.mem_rtakeWhile_imp hc), h.trim_eq]

theorem replaceTrimmed_trim (cs : List Char) : replaceTrimmed cs (trim cs) = cs := by
  rw [replaceTrimmed, trim, trimEnd_eq_rdropWhile, List.append_assoc,
    List.rdropWhile_append_rtakeWhile, trimStart, List.takeWhile_append_dropWhile]

/-- A text is its trimmed form with blanks around it. -/
theorem exists_blanks (cs : List Char) :
    ∃ front behind : List Char, (∀ c ∈ front, isBlank c = true) ∧
      (∀ c ∈ behind, isBlank c = true) ∧ cs = front ++ trim cs ++ behind :=
  ⟨cs.takeWhile isBlank, (trimStart cs).rtakeWhile isBlank, fun _ hc => List.mem_takeWhile_imp hc,
    fun _ hc => List.mem_rtakeWhile_imp hc, (replaceTrimmed_trim cs).symm⟩

theorem trim_trim (cs : List Char) : trim (trim cs) = trim cs := by
  obtain ⟨front, behind, hfront, hbehind, hcs⟩ := exists_blanks cs
  conv_rhs => rw [hcs, trim_blanks hfront hbehind]

theorem isBlank_of_mem_head?_trimStart {cs : List Char} {c : Char} (h : c ∈ (trimStart cs).head?) :
    isBlank c = false := by
  have hhead := List.head?_dropWhile_not isBlank cs
  rwa [← trimStart, h] at hhead

theorem isTrimmed_trim (cs : List Char) : IsTrimmed (trim cs) where
  head := by
    rw [trim_eq_trimStart_trimEnd]
    exact fun c => isBlank_of_mem_head?_trimStart
  last := by
    rw [trim, trimEnd, List.getLast?_reverse]
    exact fun c => isBlank_of_mem_head?_trimStart

theorem mem_of_mem_trim {cs : List Char} {c : Char} (h : c ∈ trim cs) : c ∈ cs := by
  obtain ⟨front, behind, -, -, hcs⟩ := exists_blanks cs
  rw [hcs]
  exact List.mem_append_left behind (List.mem_append_right front h)

theorem trim_eq_nil_iff {cs : List Char} : trim cs = [] ↔ ∀ c ∈ cs, isBlank c = true := by
  constructor
  · intro h
    obtain ⟨front, behind, hfront, hbehind, hcs⟩ := exists_blanks cs
    rw [h, List.append_nil] at hcs
    rw [hcs]
    exact fun c hc => (List.mem_append.mp hc).elim (hfront c) (hbehind c)
  · intro h
    rw [trim, trimStart_of_blank h]
    rfl

theorem trim_trimStart (cs : List Char) : trim (trimStart cs) = trim cs := by
  rw [trim, trimStart, trimStart, List.dropWhile_idempotent]
  rfl

theorem trim_trimEnd (cs : List Char) : trim (trimEnd cs) = trim cs := by
  rw [trim_eq_trimStart_trimEnd, trimEnd_eq_rdropWhile, trimEnd_eq_rdropWhile,
    List.rdropWhile_idempotent, ← trimEnd_eq_rdropWhile, ← trim_eq_trimStart_trimEnd]

/-! ## Cutting at a mark -/

theorem cutAt_append_cons {mark : Char} {xs : List Char} (h : mark ∉ xs) (ys : List Char) :
    cutAt mark (xs ++ mark :: ys) = some (xs, ys) := by
  induction xs with
  | nil => simp [cutAt]
  | cons x xs ih =>
      have hx : x ≠ mark := fun hx => h (hx ▸ List.mem_cons_self)
      rw [List.cons_append, cutAt, if_neg hx, ih fun hxs => h (List.mem_cons_of_mem x hxs)]
      rfl

theorem cutAt_eq_none {mark : Char} {cs : List Char} (h : mark ∉ cs) : cutAt mark cs = none := by
  induction cs with
  | nil => rfl
  | cons c cs ih =>
      have hc : c ≠ mark := fun hc => h (hc ▸ List.mem_cons_self)
      rw [cutAt, if_neg hc, ih fun hcs => h (List.mem_cons_of_mem c hcs)]
      rfl

end MipsMachine.Text
