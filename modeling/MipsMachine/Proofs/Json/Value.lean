import Mathlib.Data.List.Forall2
import MipsMachine.Json.Value
import MipsMachine.Proofs.Json.Token

set_option autoImplicit false

/-!
# Values that tokens make

A row of tokens makes a value if reading it wherever a value is expected comes to putting this
value there (`Makes`).  Single tokens make values, and so do the parts of a container between
the tokens around it, for arrays and objects alike (`Container.makes`).  Such a row reads back
from both texts that are written of it (`Makes.read_compact`, `Makes.read_pretty`): no two
numbers stand side by side in it, because no value may follow another right away.
-/

namespace MipsMachine.Json.Value

open Token (Legible)

/-- Wherever a value is expected, the tokens make the given one. -/
structure Makes (ts : List Token) (v : Value) : Prop where
  follow : ∀ frames rest, State.follow (.value frames) (ts ++ rest) =
    State.follow (close v frames) rest
  readable : ∀ t ∈ ts, t.Readable

theorem follow_cons {state state' : State} {t : Token} (h : state.next t = some state')
    (ts : List Token) :
    state.follow (t :: ts) = state'.follow ts := by
  rw [State.follow, h]

/-! ## Numbers side by side -/

/-- A number is a value by itself. -/
theorem next_number {state state' : State} {cs : List Char}
    (h : state.next (.number cs) = some state') :
    ∃ v frames, state' = close v frames := by
  cases state with
  | valueOrEnd outer => exact ⟨_, _, (Option.some.inj h).symm⟩
  | value frames => exact ⟨_, _, (Option.some.inj h).symm⟩
  | _ => cases h

/-- No number stands right behind a value. -/
theorem next_close_number (v : Value) (frames : List Frame) (cs : List Char) :
    (close v frames).next (.number cs) = none := by
  cases frames with
  | nil => rfl
  | cons frame outer => cases frame <;> rfl

theorem apart_of_follow {ts : List Token} {state last : State} (h : state.follow ts = some last) :
    ts.IsChain fun t u => t.IsNumber → ¬u.IsNumber := by
  induction ts generalizing state with
  | nil => exact .nil
  | cons t ts ih =>
      rw [State.follow] at h
      split at h
      · next state' hnext =>
          cases ts with
          | nil => exact .singleton t
          | cons u us =>
              refine .cons_cons (fun ht hu => ?_) (ih h)
              obtain ⟨cs, rfl⟩ := Token.isNumber_iff.mp ht
              obtain ⟨cs', rfl⟩ := Token.isNumber_iff.mp hu
              obtain ⟨v, frames, rfl⟩ := next_number hnext
              rw [State.follow, next_close_number] at h
              cases h
      · cases h

/-! ## Single tokens -/

theorem makes_integer (n : Int) :
    Makes [Token.integer n] (.number (Numeral.integer n).toList) where
  follow _ _ := rfl
  readable := List.forall_mem_singleton.mpr ⟨n, rfl⟩

theorem makes_bool (b : Bool) : Makes [.bool b] (.bool b) where
  follow _ _ := rfl
  readable := List.forall_mem_singleton.mpr trivial

theorem makes_string (s : String) : Makes [Token.ofText s] (.string (some s)) where
  follow _ _ := rfl
  readable := List.forall_mem_singleton.mpr (Option.some_ne_none s)

/-! ## Containers -/

/-- A kind of container: the tokens around it, what is expected inside before and behind each
of its parts, and the value that the parts make.  The parts so far are kept with the last one
first. -/
structure Container (α : Type) where
  opening : Token
  closing : Token
  before : List Frame → List α → State
  behind : List Frame → List α → State
  make : List α → Value
  next_opening : ∀ frames, State.next (.value frames) opening = some (before frames [])
  next_comma : ∀ frames a done, (behind frames (a :: done)).next .comma =
    some (before frames (a :: done))
  next_closing : ∀ frames done, (behind frames done).next closing =
    some (close (make done.reverse) frames)
  next_closing_of_empty : ∀ frames, (before frames []).next closing = some (close (make []) frames)
  readable : opening.Readable ∧ closing.Readable

namespace Container

/-- Arrays, with elements for their parts. -/
def array : Container Value where
  opening := .openArray
  closing := .closeArray
  before
    | outer, [] => .valueOrEnd outer
    | outer, done => .value (.array done :: outer)
  behind outer done := .afterElement done outer
  make := .array
  next_opening _ := rfl
  next_comma _ _ _ := rfl
  next_closing _ _ := rfl
  next_closing_of_empty _ := rfl
  readable := ⟨trivial, trivial⟩

/-- Objects, with members for their parts. -/
def object : Container (Denoted × Value) where
  opening := .openObject
  closing := .closeObject
  before
    | outer, [] => .keyOrEnd outer
    | outer, done => .key done outer
  behind outer done := .afterMember done outer
  make := .object
  next_opening _ := rfl
  next_comma _ _ _ := rfl
  next_closing _ _ := rfl
  next_closing_of_empty _ := rfl
  readable := ⟨trivial, trivial⟩

variable {α : Type} {c : Container α}

/-- The tokens make a part of the container, whatever parts stand before it. -/
structure MakesPart (c : Container α) (ts : List Token) (a : α) : Prop where
  follow : ∀ outer done rest, (c.before outer done).follow (ts ++ rest) =
    (c.behind outer (a :: done)).follow rest
  readable : ∀ t ∈ ts, t.Readable

/-- Parts with commas between them are collected one by one. -/
theorem follow_intercalate {tss : List (List Token)} {parts : List α}
    (h : List.Forall₂ c.MakesPart tss parts) (hne : tss ≠ []) (outer : List Frame) (done : List α)
    (rest : List Token) :
    (c.before outer done).follow ([Token.comma].intercalate tss ++ rest)
      = (c.behind outer (parts.reverse ++ done)).follow rest := by
  induction h generalizing done with
  | nil => exact absurd rfl hne
  | @cons ts a tss parts hts htss ih =>
      cases htss with
      | nil => simpa using hts.follow outer done rest
      | cons hus huss =>
          rw [List.intercalate_cons_cons, List.append_assoc, List.append_assoc, hts.follow,
            List.singleton_append, follow_cons (c.next_comma outer a done),
            ih (List.cons_ne_nil _ _)]
          simp

theorem readable_intercalate {tss : List (List Token)} {parts : List α}
    (h : List.Forall₂ c.MakesPart tss parts) :
    ∀ t ∈ [Token.comma].intercalate tss, t.Readable := by
  induction h with
  | nil => exact fun t ht => absurd ht List.not_mem_nil
  | @cons ts a tss parts hts htss ih =>
      cases htss with
      | nil => simpa using hts.readable
      | cons hus huss =>
          rw [List.intercalate_cons_cons, List.append_assoc, List.singleton_append]
          exact List.forall_mem_append.mpr ⟨hts.readable, List.forall_mem_cons.mpr ⟨trivial, ih⟩⟩

/-- The parts, between the tokens around them, make the container. -/
theorem makes {tss : List (List Token)} {parts : List α} (h : List.Forall₂ c.MakesPart tss parts) :
    Makes (c.opening :: [Token.comma].intercalate tss ++ [c.closing]) (c.make parts) where
  follow frames rest := by
    rw [List.cons_append, List.cons_append, List.append_assoc, follow_cons (c.next_opening frames)]
    by_cases hne : tss = []
    · subst hne
      cases h
      exact follow_cons (c.next_closing_of_empty frames) rest
    · rw [follow_intercalate h hne, List.append_nil, List.singleton_append,
        follow_cons (c.next_closing _ _), List.reverse_reverse]
  readable := by
    obtain ⟨hopening, hclosing⟩ := c.readable
    rw [List.forall_mem_append, List.forall_mem_cons, List.forall_mem_singleton]
    exact ⟨⟨hopening, readable_intercalate h⟩, hclosing⟩

end Container

/-- A value takes a token, and a closing bracket is none of its first tokens. -/
theorem Makes.exists_cons {ts : List Token} {v : Value} (h : Makes ts v) :
    ∃ t us, ts = t :: us ∧ t ≠ .closeArray := by
  have hfollow := h.follow [] []
  cases ts with
  | nil => cases hfollow
  | cons t us =>
      refine ⟨t, us, rfl, ?_⟩
      rintro rfl
      cases hfollow

/-- Every value may be an element. -/
theorem Makes.element {ts : List Token} {v : Value} (h : Makes ts v) :
    Container.array.MakesPart ts v where
  follow outer done rest := by
    cases done with
    | nil =>
        -- the first element stands where the array might have ended as well
        obtain ⟨t, us, rfl, ht⟩ := h.exists_cons
        have hnext : (Container.array.before outer []).next t =
            State.next (.value (.array [] :: outer)) t := by
          cases t <;> first | rfl | exact absurd rfl ht
        rw [List.cons_append, State.follow, hnext, ← State.follow, ← List.cons_append]
        exact h.follow (.array [] :: outer) rest
    | cons w done => exact h.follow (.array (w :: done) :: outer) rest
  readable := h.readable

/-- A key, a colon and a value are a member. -/
theorem Makes.member {ts : List Token} {v : Value} (h : Makes ts v) (key : String) :
    Container.object.MakesPart (Token.ofText key :: .colon :: ts) (some key, v) where
  follow outer done rest := by
    have hkey : (Container.object.before outer done).next (Token.ofText key) =
        some (.colon done (some key) outer) := by
      cases done <;> rfl
    rw [List.cons_append, List.cons_append, follow_cons hkey, follow_cons rfl, h.follow]
    rfl
  readable :=
    List.forall_mem_cons.mpr ⟨Option.some_ne_none key,
      List.forall_mem_cons.mpr ⟨trivial, h.readable⟩⟩

/-! ## Reading a text -/

theorem Makes.follow_self {ts : List Token} {v : Value} (h : Makes ts v) :
    State.follow (.value []) ts = some (.complete v) := by
  have hfollow := h.follow [] []
  rwa [List.append_nil] at hfollow

theorem Makes.ofTokens_eq {ts : List Token} {v : Value} (h : Makes ts v) :
    ofTokens ts = some v := by
  rw [ofTokens, h.follow_self]

theorem Makes.legible {ts : List Token} {v : Value} (h : Makes ts v) : Legible ts :=
  ⟨h.readable, apart_of_follow h.follow_self⟩

theorem Makes.read_compact {ts : List Token} {v : Value} (h : Makes ts v) :
    read (Token.compact ts) = some v := by
  rw [read, Token.compact, String.toList_ofList, (Token.spells_compact h.legible).scan_eq]
  exact h.ofTokens_eq

theorem Makes.read_pretty {ts : List Token} {v : Value} (h : Makes ts v) :
    read (Token.pretty ts) = some v := by
  rw [read, Token.pretty, String.toList_ofList, (Token.spells_laidOut h.legible 0).scan_eq]
  exact h.ofTokens_eq

end MipsMachine.Json.Value
