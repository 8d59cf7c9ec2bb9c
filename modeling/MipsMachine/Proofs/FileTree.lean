import MipsMachine.FileTree
import MipsMachine.Proofs.Text.Runs

set_option autoImplicit false

/-!
# Paths through a file tree

A path leads from place to place, one name at a time.  `Leads` lists the ways on by one name
and `Walks` puts them together, neither of which looks anything up; a look-up succeeds exactly
along such a walk (`follow_eq_ok_iff`), and else the first name that leads nowhere decides the
fault (`follow_eq_error_iff`).  So a path can be read exactly if it leads to a file
(`read_eq_ok_iff`), and every file can be read under its own path (`read_pathOf`).
-/

namespace MipsMachine.FileTree

variable {t : FileTree} {here p q r : Place} {name path : String} {names : List String}
  {bytes : ByteArray} {fault : FileFault}

/-! ## One name -/

/-- A name that leads down from a folder, if there is something of this name. -/
structure Plain (name : String) : Prop where
  ne_empty : name ≠ ""
  ne_here : name ≠ "."
  ne_up : name ≠ ".."
  fits : name.utf8ByteSize ≤ nameLimit

/-- There is a file or a folder at a place. -/
def Holds (t : FileTree) (p : Place) : Prop := (t.file? p).isSome = true ∨ t.hasFolder p = true

/-- The ways on from a place by one name. -/
inductive Leads (t : FileTree) (p : Place) : String → Place → Prop
  | stay {name : String} (hfolder : t.hasFolder p = true) (hname : name = "" ∨ name = ".") :
      Leads t p name p
  | up (hfolder : t.hasFolder p = true) : Leads t p ".." p.dropLast
  | down {name : String} (hfolder : t.hasFolder p = true) (hname : Plain name)
      (hholds : t.Holds (p ++ [name])) :
      Leads t p name (p ++ [name])

/-- The ways in which one name leads nowhere, each with its fault. -/
inductive Stops (t : FileTree) (p : Place) (name : String) : FileFault → Prop
  | notFolder (hfolder : t.hasFolder p = false) : Stops t p name .notFolder
  | nameTooLong (hfolder : t.hasFolder p = true) (hlong : nameLimit < name.utf8ByteSize) :
      Stops t p name .nameTooLong
  | missing (hfolder : t.hasFolder p = true) (hname : Plain name)
      (hholds : ¬t.Holds (p ++ [name])) :
      Stops t p name .missing

theorem Leads.enter_eq (h : Leads t p name q) : t.enter p name = .ok q := by
  cases h with
  | stay hfolder hname => simp [enter, hfolder, hname]
  | up hfolder => simp [enter, hfolder]
  | down hfolder hname hholds =>
      have hentry : ((t.file? (p ++ [name])).isSome || t.hasFolder (p ++ [name])) = true :=
        Bool.or_eq_true_iff.mpr hholds
      simp [enter, hfolder, hname.ne_empty, hname.ne_here, hname.ne_up,
        Nat.not_lt.mpr hname.fits, hentry]

theorem Stops.enter_eq (h : Stops t p name fault) : t.enter p name = .error fault := by
  cases h with
  | notFolder hfolder => simp [enter, hfolder]
  | nameTooLong hfolder hlong =>
      have hne : ∀ short : String, short.utf8ByteSize ≤ nameLimit → name ≠ short := by
        rintro short hshort rfl
        exact absurd hlong (Nat.not_lt.mpr hshort)
      simp [enter, hfolder, hne "" (by decide), hne "." (by decide), hne ".." (by decide), hlong]
  | missing hfolder hname hholds =>
      have hentry : ¬((t.file? (p ++ [name])).isSome || t.hasFolder (p ++ [name])) = true :=
        mt Bool.or_eq_true_iff.mp hholds
      simp [enter, hfolder, hname.ne_empty, hname.ne_here, hname.ne_up,
        Nat.not_lt.mpr hname.fits, hentry]

/-- Every name leads on or stops. -/
theorem leads_or_stops (t : FileTree) (p : Place) (name : String) :
    (∃ q, Leads t p name q) ∨ ∃ fault, Stops t p name fault := by
  cases hfolder : t.hasFolder p with
  | false => exact Or.inr ⟨_, .notFolder hfolder⟩
  | true =>
      by_cases hstay : name = "" ∨ name = "."
      · exact Or.inl ⟨p, .stay hfolder hstay⟩
      by_cases hup : name = ".."
      · subst hup
        exact Or.inl ⟨_, .up hfolder⟩
      by_cases hlong : nameLimit < name.utf8ByteSize
      · exact Or.inr ⟨_, .nameTooLong hfolder hlong⟩
      have hname : Plain name :=
        ⟨fun h => hstay (Or.inl h), fun h => hstay (Or.inr h), hup, Nat.le_of_not_lt hlong⟩
      by_cases hholds : t.Holds (p ++ [name])
      · exact Or.inl ⟨_, .down hfolder hname hholds⟩
      · exact Or.inr ⟨_, .missing hfolder hname hholds⟩

theorem enter_eq_ok_iff : t.enter p name = .ok q ↔ Leads t p name q := by
  refine ⟨fun h => ?_, Leads.enter_eq⟩
  rcases t.leads_or_stops p name with ⟨q', hleads⟩ | ⟨fault, hstops⟩
  · obtain rfl := Except.ok.inj (h.symm.trans hleads.enter_eq)
    exact hleads
  · cases h.symm.trans hstops.enter_eq

theorem enter_eq_error_iff : t.enter p name = .error fault ↔ Stops t p name fault := by
  refine ⟨fun h => ?_, Stops.enter_eq⟩
  rcases t.leads_or_stops p name with ⟨q, hleads⟩ | ⟨fault', hstops⟩
  · cases h.symm.trans hleads.enter_eq
  · obtain rfl := Except.error.inj (h.symm.trans hstops.enter_eq)
    exact hstops

/-! ## Several names -/

/-- A row of names leads from a place to a place. -/
inductive Walks (t : FileTree) : Place → List String → Place → Prop
  | nil (p : Place) : Walks t p [] p
  | cons {p q r : Place} {name : String} {names : List String} (hfirst : Leads t p name q)
      (hrest : Walks t q names r) : Walks t p (name :: names) r

theorem follow_eq_ok_iff : t.follow p names = .ok q ↔ Walks t p names q := by
  induction names generalizing p with
  | nil =>
      constructor
      · intro h
        obtain rfl := Except.ok.inj h
        exact .nil p
      · rintro ⟨⟩
        rfl
  | cons name names ih =>
      rw [follow]
      constructor
      · intro h
        split at h
        next r hfirst => exact .cons (enter_eq_ok_iff.mp hfirst) (ih.mp h)
        next => cases h
      · intro h
        cases h with
        | cons hfirst hrest =>
            rw [hfirst.enter_eq]
            exact ih.mpr hrest

/-- The first name that leads nowhere decides why a path cannot be followed. -/
theorem follow_eq_error_iff :
    t.follow p names = .error fault ↔
      ∃ front name behind q, names = front ++ name :: behind ∧ Walks t p front q ∧
        Stops t q name fault := by
  induction names generalizing p with
  | nil => simp [follow]
  | cons first names ih =>
      rw [follow]
      constructor
      · intro h
        split at h
        next r hfirst =>
          obtain ⟨front, name, behind, q, rfl, hwalks, hstops⟩ := ih.mp h
          exact ⟨first :: front, name, behind, q, rfl,
            .cons (enter_eq_ok_iff.mp hfirst) hwalks, hstops⟩
        next fault' hfirst =>
          obtain rfl := Except.error.inj h
          exact ⟨[], first, names, p, rfl, .nil p, enter_eq_error_iff.mp hfirst⟩
      · rintro ⟨front, name, behind, q, hnames, hwalks, hstops⟩
        cases hwalks with
        | nil =>
            obtain ⟨rfl, rfl⟩ := List.cons.inj hnames
            rw [hstops.enter_eq]
        | @cons _ r _ first' front hfirst hrest =>
            obtain ⟨rfl, hrest'⟩ := List.cons.inj hnames
            rw [hfirst.enter_eq]
            exact ih.mpr ⟨front, name, behind, q, hrest', hrest, hstops⟩

/-- There is no way down and up again but through a folder that is there. -/
theorem walks_down_up_iff (hname : Plain name) :
    Walks t p (name :: ".." :: names) q ↔
      t.hasFolder p = true ∧ t.hasFolder (p ++ [name]) = true ∧ Walks t p names q := by
  have hback : (p ++ [name]).dropLast = p := List.dropLast_concat
  constructor
  · intro h
    cases h with
    | cons hdown hrest =>
        cases hrest with
        | cons hup hrest =>
            cases hdown with
            | stay _ hstay => exact absurd hstay (not_or.mpr ⟨hname.ne_empty, hname.ne_here⟩)
            | up => exact absurd rfl hname.ne_up
            | down hfolder _ _ =>
                cases hup with
                | stay _ hstay => exact absurd hstay (by decide)
                | up hinner => exact ⟨hfolder, hinner, hback ▸ hrest⟩
                | down _ hup _ => exact absurd rfl hup.ne_up
  · rintro ⟨hfolder, hinner, hrest⟩
    refine .cons (.down hfolder hname (Or.inr hinner)) (.cons (.up hinner) ?_)
    rwa [hback]

/-! ## Paths -/

/-- Where a path starts. -/
def origin (here : Place) (path : String) : Place :=
  if path.toList.head? = some '/' then [] else here

/-- A path leads to a place: it is not empty, not too long, and its names lead there one after
another. -/
structure Reaches (t : FileTree) (here : Place) (path : String) (p : Place) : Prop where
  ne_empty : path ≠ ""
  fits : path.utf8ByteSize ≤ pathLimit
  walks : Walks t (origin here path) (namesOf path) p

/-- The ways in which a path leads to no file, each with its fault. -/
inductive Fails (t : FileTree) (here : Place) (path : String) : FileFault → Prop
  | empty (hempty : path = "") : Fails t here path .missing
  | pathTooLong (hlong : pathLimit < path.utf8ByteSize) : Fails t here path .nameTooLong
  | stops {front behind : List String} {name : String} {q : Place} {fault : FileFault}
      (hne : path ≠ "") (hfits : path.utf8ByteSize ≤ pathLimit)
      (hnames : namesOf path = front ++ name :: behind)
      (hwalks : Walks t (origin here path) front q) (hstops : Stops t q name fault) :
      Fails t here path fault
  | directory {p : Place} (hreaches : Reaches t here path p) (hfile : t.file? p = none) :
      Fails t here path .directory

theorem locate_eq_ok_iff : t.locate here path = .ok p ↔ Reaches t here path p := by
  rw [locate]
  constructor
  · intro h
    split at h
    next => cases h
    next hne =>
      split at h
      next => cases h
      next hfits => exact ⟨hne, Nat.le_of_not_lt hfits, follow_eq_ok_iff.mp h⟩
  · intro h
    rw [if_neg h.ne_empty, if_neg (Nat.not_lt.mpr h.fits)]
    exact follow_eq_ok_iff.mpr h.walks

/-- What is read is the file that the path leads to. -/
theorem read_eq_ok_iff :
    t.read here path = .ok bytes ↔ ∃ p, Reaches t here path p ∧ t.file? p = some bytes := by
  rw [read]
  constructor
  · intro h
    split at h
    next => cases h
    next p hlocate =>
      split at h
      next bytes' hfile =>
        obtain rfl := Except.ok.inj h
        exact ⟨p, locate_eq_ok_iff.mp hlocate, hfile⟩
      next => cases h
  · rintro ⟨p, hreaches, hfile⟩
    rw [locate_eq_ok_iff.mpr hreaches]
    simp only [hfile]

theorem Fails.read_eq (h : Fails t here path fault) : t.read here path = .error fault := by
  rw [read]
  cases h with
  | empty hempty => rw [locate, if_pos hempty]
  | pathTooLong hlong =>
      have hne : path ≠ "" := by
        rintro rfl
        exact absurd hlong (by decide)
      rw [locate, if_neg hne, if_pos hlong]
  | stops hne hfits hnames hwalks hstops =>
      have hfollow : t.follow (origin here path) (namesOf path) = .error fault :=
        follow_eq_error_iff.mpr ⟨_, _, _, _, hnames, hwalks, hstops⟩
      rw [locate, if_neg hne, if_neg (Nat.not_lt.mpr hfits), ← origin, hfollow]
  | directory hreaches hfile =>
      rw [locate_eq_ok_iff.mpr hreaches]
      simp only [hfile]

/-- Every path leads to a file or fails. -/
theorem reaches_file_or_fails (t : FileTree) (here : Place) (path : String) :
    (∃ p bytes, Reaches t here path p ∧ t.file? p = some bytes) ∨
      ∃ fault, Fails t here path fault := by
  by_cases hempty : path = ""
  · exact Or.inr ⟨_, .empty hempty⟩
  by_cases hlong : pathLimit < path.utf8ByteSize
  · exact Or.inr ⟨_, .pathTooLong hlong⟩
  have hfits : path.utf8ByteSize ≤ pathLimit := Nat.le_of_not_lt hlong
  cases hfollow : t.follow (origin here path) (namesOf path) with
  | error fault =>
      obtain ⟨front, name, behind, q, hnames, hwalks, hstops⟩ := follow_eq_error_iff.mp hfollow
      exact Or.inr ⟨fault, .stops hempty hfits hnames hwalks hstops⟩
  | ok p =>
      have hreaches : Reaches t here path p := ⟨hempty, hfits, follow_eq_ok_iff.mp hfollow⟩
      cases hfile : t.file? p with
      | none => exact Or.inr ⟨_, .directory hreaches hfile⟩
      | some bytes => exact Or.inl ⟨p, bytes, hreaches, hfile⟩

/-- Nothing is read along a path that fails, and the way in which it fails is told. -/
theorem read_eq_error_iff : t.read here path = .error fault ↔ Fails t here path fault := by
  refine ⟨fun h => ?_, Fails.read_eq⟩
  rcases t.reaches_file_or_fails here path with ⟨p, bytes, hreaches, hfile⟩ | ⟨fault', hfails⟩
  · cases h.symm.trans (read_eq_ok_iff.mpr ⟨p, hreaches, hfile⟩)
  · obtain rfl := Except.error.inj (h.symm.trans hfails.read_eq)
    exact hfails

/-! ## The path of a file -/

/-- The path that goes down by the given names. -/
def pathOf (names : List String) : String := "/".intercalate names

/-- A name that a path can hold between its slashes. -/
def Simple (name : String) : Prop := Plain name ∧ '/' ∉ name.toList

/-- Every place above a file is a folder. -/
theorem hasFolder_of_file {front behind : Place} (hfile : t.file? (front ++ behind) = some bytes)
    (hne : behind ≠ []) : t.hasFolder front = true := by
  obtain ⟨entry, hfind, -⟩ := Option.map_eq_some_iff.mp hfile
  have hplace : entry.1 = front ++ behind := by simpa using List.find?_some hfind
  have habove : (front.isPrefixOf entry.1 && front != entry.1) = true := by
    rw [hplace, Bool.and_eq_true, List.isPrefixOf_iff_prefix, bne_iff_ne]
    exact ⟨List.prefix_append front behind, fun h => hne (List.self_eq_append_right.mp h)⟩
  have hany : (t.files.any fun entry => front.isPrefixOf entry.1 && front != entry.1) = true :=
    List.any_eq_true.mpr ⟨entry, List.mem_of_find?_eq_some hfind, habove⟩
  rw [hasFolder, hany, Bool.or_true]

theorem walks_of_file (hfile : t.file? (p ++ names) = some bytes)
    (hnames : ∀ name ∈ names, Plain name) :
    Walks t p names (p ++ names) := by
  induction names generalizing p with
  | nil => rw [List.append_nil]; exact .nil p
  | cons name names ih =>
      have hsplit : p ++ name :: names = (p ++ [name]) ++ names := by simp
      have hholds : t.Holds (p ++ [name]) := by
        cases names with
        | nil => exact Or.inl (by rw [hfile]; rfl)
        | cons next names => exact Or.inr (hasFolder_of_file (hsplit ▸ hfile) (by simp))
      have hfolder : t.hasFolder p = true := hasFolder_of_file hfile (by simp)
      rw [hsplit] at hfile ⊢
      exact .cons (.down hfolder (hnames name List.mem_cons_self) hholds)
        (ih hfile fun name hname => hnames name (List.mem_cons_of_mem _ hname))

theorem namesOf_pathOf (hne : names ≠ []) (hnames : ∀ name ∈ names, '/' ∉ name.toList) :
    namesOf (pathOf names) = names := by
  have hpiece : ∀ name ∈ names, ∀ c ∈ name.toList, (c == '/') = false := by
    intro name hname c hc
    exact beq_eq_false_iff_ne.mpr fun h => hnames name hname (h ▸ hc)
  clear hnames
  induction names with
  | nil => exact absurd rfl hne
  | cons name names ih =>
      have hfirst : Text.pieces (· == '/') name.toList = [name.toList] :=
        Text.pieces_of_not_sep (hpiece name List.mem_cons_self)
      cases names with
      | nil =>
          rw [namesOf, pathOf, String.intercalate_singleton, hfirst, List.map_singleton,
            String.ofList_toList]
      | cons next names =>
          have hrest :=
            ih (List.cons_ne_nil next names) fun n hn => hpiece n (List.mem_cons_of_mem name hn)
          rw [namesOf, pathOf] at hrest
          rw [namesOf, pathOf, String.intercalate_cons_cons, String.toList_append,
            String.toList_append, List.append_assoc]
          have hslash : "/".toList = ['/'] := rfl
          rw [hslash, List.singleton_append, Text.pieces_append_cons rfl, hfirst,
            List.singleton_append, List.map_cons, String.ofList_toList, hrest]

theorem namesOf_of_slash (h : path.toList.head? = some '/') :
    ∃ rest, namesOf path = "" :: rest := by
  obtain ⟨cs, hcs⟩ := List.head?_eq_some_iff.mp h
  exact ⟨_, by rw [namesOf, hcs, Text.pieces_cons_of_sep rfl]; rfl⟩

/-- Every file can be read under its own path, from any folder above it. -/
theorem read_pathOf (hfile : t.file? (here ++ names) = some bytes) (hne : names ≠ [])
    (hnames : ∀ name ∈ names, Simple name) (hfits : (pathOf names).utf8ByteSize ≤ pathLimit) :
    t.read here (pathOf names) = .ok bytes := by
  have hnamesOf : namesOf (pathOf names) = names :=
    namesOf_pathOf hne fun name hname => (hnames name hname).2
  have hfirst : ∀ rest, names ≠ "" :: rest := by
    rintro rest rfl
    exact (hnames "" List.mem_cons_self).1.ne_empty rfl
  have hpath : pathOf names ≠ "" := by
    intro h
    rw [h] at hnamesOf
    exact hfirst [] hnamesOf.symm
  have horigin : origin here (pathOf names) = here := by
    refine if_neg fun hslash => ?_
    obtain ⟨rest, hrest⟩ := namesOf_of_slash hslash
    exact hfirst rest (hnamesOf.symm.trans hrest)
  refine read_eq_ok_iff.mpr ⟨here ++ names, ⟨hpath, hfits, ?_⟩, hfile⟩
  rw [horigin, hnamesOf]
  exact walks_of_file hfile fun name hname => (hnames name hname).1

end MipsMachine.FileTree
