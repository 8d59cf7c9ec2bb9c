set_option autoImplicit false

/-!
# Tables

A finite map kept as its entries in ascending key order, each key once.  The order is part of
the type, so two tables are equal as soon as they answer every look-up alike (`ext_find?`), and
listing a table needs no sorting.  Symbol tables are keyed by name, data memory by address.
-/

namespace MipsMachine

/-- A finite map from `α` to `β`, listed in ascending key order. -/
structure Table (α β : Type) [Ord α] where
  /-- The entries. -/
  entries : List (α × β)
  /-- Keys strictly ascend. -/
  ascending : entries.Pairwise fun a b => compare a.1 b.1 = .lt
  deriving DecidableEq

namespace Table

variable {α β : Type} [Ord α]

/-- The table without entries. -/
def empty : Table α β := ⟨[], .nil⟩

instance : EmptyCollection (Table α β) := ⟨empty⟩

instance : Inhabited (Table α β) := ⟨empty⟩

/-- All entries, in ascending key order. -/
def toList (t : Table α β) : List (α × β) := t.entries

/-- The number of keys. -/
def size (t : Table α β) : Nat := t.entries.length

/-- Whether there is no entry. -/
def isEmpty (t : Table α β) : Bool := t.entries.isEmpty

/-- The value of the first entry with the given key. -/
def findIn? (k : α) : List (α × β) → Option β
  | [] => none
  | e :: es => if compare k e.1 = .eq then some e.2 else findIn? k es

/-- The value stored under a key. -/
def find? (t : Table α β) (k : α) : Option β := findIn? k t.entries

/-- Whether a key has a value. -/
def contains (t : Table α β) (k : α) : Bool := (t.find? k).isSome

/-- Put an entry at its place in an ascending list, in place of an entry with the same key. -/
def insertIn (k : α) (v : β) : List (α × β) → List (α × β)
  | [] => [(k, v)]
  | e :: es =>
    match compare k e.1 with
    | .lt => (k, v) :: e :: es
    | .eq => (k, v) :: es
    | .gt => e :: insertIn k v es

theorem mem_insertIn {k : α} {v : β} {es : List (α × β)} {a : α × β} (h : a ∈ insertIn k v es) :
    a = (k, v) ∨ a ∈ es := by
  induction es with
  | nil => simpa [insertIn] using h
  | cons e es ih =>
      rw [insertIn] at h
      split at h <;> simp only [List.mem_cons] at h ⊢
      · exact h
      · exact h.imp_right Or.inr
      · rcases h with rfl | h
        · exact Or.inr (Or.inl rfl)
        · exact (ih h).imp_right Or.inr

@[simp] theorem find?_empty (k : α) : (∅ : Table α β).find? k = none := rfl

theorem findIn?_eq_none_of_lt {k : α} {es : List (α × β)}
    (h : ∀ a ∈ es, compare k a.1 = .lt) : findIn? k es = none := by
  induction es with
  | nil => rfl
  | cons e es ih =>
      have he := h e (List.mem_cons_self ..)
      simp [findIn?, he, ih fun a ha => h a (List.mem_cons_of_mem _ ha)]

variable [Std.TransOrd α] [Std.LawfulEqOrd α]

theorem pairwise_insertIn (k : α) (v : β) {es : List (α × β)}
    (h : es.Pairwise fun a b => compare a.1 b.1 = .lt) :
    (insertIn k v es).Pairwise fun a b => compare a.1 b.1 = .lt := by
  induction es with
  | nil => simp [insertIn]
  | cons e es ih =>
      obtain ⟨he, hes⟩ := List.pairwise_cons.1 h
      rw [insertIn]
      split
      next hlt =>
        refine List.pairwise_cons.2 ⟨fun a ha => ?_, h⟩
        rcases List.mem_cons.1 ha with rfl | ha
        · exact hlt
        · exact Std.TransCmp.lt_trans hlt (he a ha)
      next heq =>
        refine List.pairwise_cons.2 ⟨fun a ha => ?_, hes⟩
        rw [Std.LawfulEqOrd.eq_of_compare heq]
        exact he a ha
      next hgt =>
        refine List.pairwise_cons.2 ⟨fun a ha => ?_, ih hes⟩
        rcases mem_insertIn ha with rfl | ha
        · exact Std.OrientedCmp.lt_of_gt hgt
        · exact he a ha

/-- Store a value under a key, replacing an earlier one. -/
def insert (t : Table α β) (k : α) (v : β) : Table α β :=
  ⟨insertIn k v t.entries, pairwise_insertIn k v t.ascending⟩

/-! ## Look-up -/

omit [Std.TransOrd α] in
theorem findIn?_insertIn [DecidableEq α] (k j : α) (v : β) (es : List (α × β)) :
    findIn? j (insertIn k v es) = if j = k then some v else findIn? j es := by
  induction es with
  | nil => simp [insertIn, findIn?]
  | cons e es ih =>
      rw [insertIn]
      split
      next hlt => by_cases hj : j = k <;> simp [findIn?, hj]
      next heq =>
        have hk : k = e.1 := Std.LawfulEqOrd.eq_of_compare heq
        by_cases hj : j = k
        · simp [findIn?, hj]
        · have : compare j e.1 ≠ .eq :=
            fun h => hj ((Std.LawfulEqOrd.eq_of_compare h).trans hk.symm)
          simp [findIn?, hj, ← hk]
      next hgt =>
        by_cases hj : j = k
        · subst hj
          simp [findIn?, hgt, ih]
        · simp [findIn?, ih, hj]

/-- A look-up after a store: the new value under its own key, the old answer elsewhere. -/
theorem find?_insert [DecidableEq α] (t : Table α β) (k j : α) (v : β) :
    (t.insert k v).find? j = if j = k then some v else t.find? j :=
  findIn?_insertIn k j v t.entries

@[simp] theorem find?_insert_self [DecidableEq α] (t : Table α β) (k : α) (v : β) :
    (t.insert k v).find? k = some v := by simp [find?_insert]

omit [Std.LawfulEqOrd α] in
theorem length_insertIn (k : α) (v : β) {es : List (α × β)}
    (h : es.Pairwise fun a b => compare a.1 b.1 = .lt) :
    (insertIn k v es).length = if (findIn? k es).isSome then es.length else es.length + 1 := by
  induction es with
  | nil => rfl
  | cons e es ih =>
      obtain ⟨he, hes⟩ := List.pairwise_cons.1 h
      rw [insertIn]
      split
      next hlt =>
        have hnone : findIn? k es = none :=
          findIn?_eq_none_of_lt fun a ha => Std.TransCmp.lt_trans hlt (he a ha)
        simp [findIn?, hlt, hnone]
      next heq => simp [findIn?, heq]
      next hgt =>
        have hne : compare k e.1 ≠ .eq := by simp [hgt]
        rw [List.length_cons, ih hes, findIn?, if_neg hne, List.length_cons]
        split <;> rfl

/-- A store adds one key, unless the key has a value already. -/
theorem size_insert (t : Table α β) (k : α) (v : β) :
    (t.insert k v).size = if t.contains k then t.size else t.size + 1 :=
  length_insertIn k v t.ascending

omit [Std.TransOrd α] in
/-- A key has a value exactly when the entry is listed. -/
theorem find?_eq_some_iff {t : Table α β} {k : α} {v : β} :
    t.find? k = some v ↔ (k, v) ∈ t.toList := by
  obtain ⟨es, hes⟩ := t
  simp only [find?, toList]
  induction es with
  | nil => simp [findIn?]
  | cons e es ih =>
      obtain ⟨he, hes⟩ := List.pairwise_cons.1 hes
      by_cases hk : k = e.1
      · have hnot : (k, v) ∉ es := fun hm => by simpa [hk] using he _ hm
        simp only [findIn?, hk, Std.compare_self, if_true, Option.some.injEq, List.mem_cons]
        constructor
        · rintro rfl
          exact Or.inl rfl
        · rintro (h | h)
          · rw [← h]
          · exact absurd (hk ▸ h) hnot
      · have hne : compare k e.1 ≠ .eq := fun h => hk (Std.LawfulEqOrd.eq_of_compare h)
        have : (k, v) ≠ e := fun h => hk (by rw [← h])
        simp [findIn?, hne, ih hes, this]

/-- Tables are equal when they answer every look-up alike. -/
theorem ext_find? {s t : Table α β} (h : ∀ k, s.find? k = t.find? k) : s = t := by
  obtain ⟨es, hes⟩ := s
  obtain ⟨fs, hfs⟩ := t
  suffices es = fs by subst this; rfl
  simp only [find?] at h
  induction es generalizing fs with
  | nil =>
      cases fs with
      | nil => rfl
      | cons f fs => simpa [findIn?] using h f.1
  | cons e es ih =>
      cases fs with
      | nil => simpa [findIn?] using h e.1
      | cons f fs =>
          obtain ⟨he, htail⟩ := List.pairwise_cons.1 hes
          obtain ⟨hf, hfs'⟩ := List.pairwise_cons.1 hfs
          have head : compare e.1 f.1 = .eq := by
            cases hc : compare e.1 f.1 with
            | eq => rfl
            | lt =>
                have := h e.1
                simp [findIn?, hc,
                  findIn?_eq_none_of_lt fun a ha => Std.TransCmp.lt_trans hc (hf a ha)] at this
            | gt =>
                have hc := Std.OrientedCmp.lt_of_gt hc
                have := h f.1
                simp [findIn?, hc,
                  findIn?_eq_none_of_lt fun a ha => Std.TransCmp.lt_trans hc (he a ha)] at this
          have hkey : e.1 = f.1 := Std.LawfulEqOrd.eq_of_compare head
          have hval : e.2 = f.2 := by simpa [findIn?, hkey] using h e.1
          have heq : e = f := Prod.ext hkey hval
          subst heq
          congr 1
          refine ih htail fs hfs' (fun k => ?_)
          by_cases hk : compare k e.1 = .eq
          · have hk := Std.LawfulEqOrd.eq_of_compare hk
            subst hk
            rw [findIn?_eq_none_of_lt he, findIn?_eq_none_of_lt hf]
          · simpa [findIn?, hk] using h k

end Table

end MipsMachine
