import Mathlib.Data.List.Forall2
import MipsMachine.Memory
import MipsMachine.Proofs.Numeral
import MipsMachine.Proofs.Text.Trim

set_option autoImplicit false

/-!
# Data memory and its dump

A memory is what it holds: which addresses were stored to, and the words there
(`eq_iff_load_eq`).  The dump of a memory says just that, one line for each word.
`ShowsAddress` and `ShowsWord` say what an address and a line look like without writing them.
An address can be told from its look (`ShowsAddress.unique`), a line holds one closing bracket
that its address ends at and no line feed, and so the text can be taken apart again
(`text_injective`).
-/

namespace MipsMachine

namespace Memory

/-! ## Contents -/

theorem ext_toList {a b : Memory} (h : a.toList = b.toList) : a = b := by
  obtain ⟨⟨es, hes⟩⟩ := a
  obtain ⟨⟨fs, hfs⟩⟩ := b
  obtain rfl : es = fs := h
  rfl

/-- Memories are equal when they hold the same words. -/
theorem ext_find? {m n : Memory} (h : ∀ a, m.words.find? a = n.words.find? a) : m = n := by
  cases m
  cases n
  exact congrArg Memory.mk (Table.ext_find? h)

theorem ascending (m : Memory) : m.toList.Pairwise fun x y => x.1.toInt < y.1.toInt :=
  m.words.ascending.imp fun h => Int64.lt_iff_toInt_lt.mp (compareOfLessAndEq_eq_lt.mp h)

theorem find?_eq_some_iff {m : Memory} {a v : Int64} :
    m.words.find? a = some v ↔ m.written a = true ∧ m.load a = v := by
  rw [written, Table.contains, load]
  cases m.words.find? a <;> simp

/-- The listed words are those at the addresses that were stored to. -/
theorem mem_toList_iff {m : Memory} {a v : Int64} :
    (a, v) ∈ m.toList ↔ m.written a = true ∧ m.load a = v :=
  Table.find?_eq_some_iff.symm.trans find?_eq_some_iff

/-- Memories are equal if the same addresses were stored to and have the same words. -/
theorem eq_iff_load_eq {m n : Memory} :
    m = n ↔ ∀ a, m.written a = n.written a ∧ m.load a = n.load a := by
  constructor
  · rintro rfl a
    exact ⟨rfl, rfl⟩
  · intro h
    apply ext_find?
    intro a
    apply Option.ext
    intro v
    rw [find?_eq_some_iff, find?_eq_some_iff, (h a).1, (h a).2]

/-! ## What a dump looks like -/

/-- The text shows the address: behind `0x` stand eight or more hexadecimal digits with small
letters, no more than eight if the first is zero, and they denote the address as an unsigned
number of 64 bits. -/
def ShowsAddress (text : String) (a : Int64) : Prop :=
  ∃ ds n, text.toList = '0' :: 'x' :: ds ∧ 8 ≤ ds.length ∧ (8 < ds.length → ds.head? ≠ some '0') ∧
    (∀ c ∈ ds, c ∈ Numeral.lowerDigits) ∧ Numeral.Denotes 16 ds n ∧
      (n : Int) = a.toInt % Int64.size

/-- The line shows a word with its address: the address in brackets, and the word as a decimal
number. -/
def ShowsWord (line : String) (word : Int64 × Int64) : Prop :=
  ∃ address, ShowsAddress address word.1 ∧ line = "[" ++ address ++ "]: " ++ toString word.2.toInt

theorem toNat_toBitVec (a : Int64) : (a.toBitVec.toNat : Int) = a.toInt % Int64.size := by
  have hlt := a.toBitVec.isLt
  rw [← Int64.toInt_toBitVec, BitVec.toInt_eq_toNat_bmod, Int64.size, Int.bmod_emod]
  omega

theorem showsAddress_addressText (a : Int64) : ShowsAddress (addressText a) a := by
  refine ⟨Numeral.padded 16 8 a.toBitVec.toNat, a.toBitVec.toNat, ?_, ?_, ?_, ?_, ?_,
    toNat_toBitVec a⟩
  · rw [addressText, Numeral.address, String.toList_append, String.toList_ofList,
      String.toList_ofList]
    rfl
  · rw [Numeral.length_padded]
    exact Nat.le_max_left _ _
  · exact Numeral.head?_padded_ne_zero (by decide) (by decide) (by decide)
  · intro c hc
    exact Numeral.mem_lowerDigits_of_mem_padded (by decide) (by decide) hc
  · exact Numeral.denotes_padded (by decide) (by decide) _ _

/-- No two addresses look alike. -/
theorem ShowsAddress.unique {text : String} {a b : Int64} (ha : ShowsAddress text a)
    (hb : ShowsAddress text b) :
    a = b := by
  obtain ⟨ds, n, htext, -, -, -, hdenotes, hn⟩ := ha
  obtain ⟨ds', n', htext', -, -, -, hdenotes', hn'⟩ := hb
  obtain rfl : ds = ds' := (List.cons.inj (List.cons.inj (htext.symm.trans htext')).2).2
  obtain rfl := hdenotes.unique hdenotes'
  rw [← toNat_toBitVec, Int.natCast_inj] at hn hn'
  exact Int64.toBitVec_inj.mp (BitVec.eq_of_toNat_eq (hn.symm.trans hn'))

/-- An address is shown with digits and the letter x. -/
theorem ShowsAddress.not_mem {text : String} {a : Int64} (h : ShowsAddress text a) {c : Char}
    (hc : c ∉ 'x' :: Numeral.lowerDigits) : c ∉ text.toList := by
  obtain ⟨ds, -, htext, -, -, hlower, -, -⟩ := h
  rw [List.mem_cons, not_or] at hc
  rw [htext, List.mem_cons, List.mem_cons, not_or, not_or]
  refine ⟨?_, hc.1, fun hmem => hc.2 (hlower c hmem)⟩
  rintro rfl
  exact hc.2 (by decide)

theorem toList_bracketed (address value : String) :
    ("[" ++ address ++ "]: " ++ value).toList =
      '[' :: (address.toList ++ ']' :: ([':', ' '] ++ value.toList)) := by
  simp [String.toList_append]

/-- A line shows one word. -/
theorem ShowsWord.unique {line : String} {w w' : Int64 × Int64} (h : ShowsWord line w)
    (h' : ShowsWord line w') :
    w = w' := by
  obtain ⟨address, haddress, hline⟩ := h
  obtain ⟨address', haddress', hline'⟩ := h'
  have hbracket : ']' ∉ 'x' :: Numeral.lowerDigits := by decide
  have hsame := (toList_bracketed _ _).symm.trans
    ((congrArg String.toList (hline.symm.trans hline')).trans (toList_bracketed _ _))
  -- the first closing bracket is the one behind the address
  have hcut := congrArg (Text.cutAt ']') (List.cons.inj hsame).2
  rw [Text.cutAt_append_cons (haddress.not_mem hbracket),
    Text.cutAt_append_cons (haddress'.not_mem hbracket), Option.some.injEq, Prod.mk.injEq,
    List.append_cancel_left_eq, String.toList_inj, String.toList_inj,
    ← Numeral.integer_eq_toString, ← Numeral.integer_eq_toString] at hcut
  obtain ⟨rfl, hvalue⟩ := hcut
  exact Prod.ext (haddress.unique haddress')
    (Int64.toInt_inj.mp (Numeral.integer_injective hvalue))

theorem ShowsWord.toList_ne_nil {line : String} {w : Int64 × Int64} (h : ShowsWord line w) :
    line.toList ≠ [] := by
  obtain ⟨address, -, rfl⟩ := h
  rw [toList_bracketed]
  exact List.cons_ne_nil _ _

theorem ShowsWord.not_mem {line : String} {w : Int64 × Int64} (h : ShowsWord line w) :
    '\n' ∉ line.toList := by
  obtain ⟨address, haddress, rfl⟩ := h
  have hvalue : '\n' ∉ (toString w.2.toInt).toList := by
    intro hmem
    rw [← Numeral.integer_eq_toString] at hmem
    exact absurd (Numeral.mem_integer hmem) (by decide)
  have hdigits : '\n' ∉ 'x' :: Numeral.lowerDigits := by decide
  rw [toList_bracketed]
  simp only [List.mem_cons, List.mem_append, haddress.not_mem hdigits, hvalue]
  decide

/-! ## The dump -/

/-- The dump is its lines, one for each stored word. -/
theorem exists_lines (m : Memory) :
    ∃ lines, m.text = "\n".intercalate lines ∧ List.Forall₂ ShowsWord lines m.toList := by
  refine ⟨_, rfl, ?_⟩
  rw [List.forall₂_map_left_iff, List.forall₂_same]
  intro word _
  exact ⟨_, showsAddress_addressText word.1, by rw [Numeral.integer_eq_toString]⟩

theorem toList_eq_nil_iff {m : Memory} : m.toList = [] ↔ ∀ a, m.written a = false := by
  constructor
  · intro h a
    rw [← Bool.not_eq_true]
    intro hwritten
    have hmem := mem_toList_iff.mpr ⟨hwritten, rfl⟩
    rw [h] at hmem
    cases hmem
  · intro h
    refine List.eq_nil_iff_forall_not_mem.mpr fun word hword => ?_
    have hwritten := (mem_toList_iff.mp hword).1
    rw [h] at hwritten
    cases hwritten

section

variable {lines : List String} {words : List (Int64 × Int64)}
  (h : List.Forall₂ ShowsWord lines words)

include h

theorem not_mem_of_shows : ∀ line ∈ lines, '\n' ∉ line.toList := by
  induction h with
  | nil => exact fun line hline => absurd hline List.not_mem_nil
  | cons hword _ ih => exact List.forall_mem_cons.mpr ⟨hword.not_mem, ih⟩

/-- The lines are what stands between the line feeds, unless there are none. -/
theorem splitOn_intercalate_lines (hne : lines ≠ []) :
    ("\n".intercalate lines).toList.splitOn '\n' = lines.map String.toList := by
  have hfeed : "\n".toList = ['\n'] := rfl
  rw [String.toList_intercalate, hfeed]
  apply List.splitOn_intercalate
  · exact List.forall_mem_map.mpr (not_mem_of_shows h)
  · simpa using hne

theorem intercalate_lines_eq_empty_iff : "\n".intercalate lines = "" ↔ lines = [] := by
  constructor
  · intro hempty
    by_contra hne
    have hsplit := splitOn_intercalate_lines h hne
    rw [hempty] at hsplit
    cases h with
    | nil => exact hne rfl
    | cons hword _ => exact hword.toList_ne_nil (List.cons.inj hsplit).1.symm
  · rintro rfl
    rfl

/-- The words can be told from the text that their lines make. -/
theorem words_eq_of_intercalate_eq {others : List String} {words' : List (Int64 × Int64)}
    (h' : List.Forall₂ ShowsWord others words')
    (htext : "\n".intercalate lines = "\n".intercalate others) :
    words = words' := by
  by_cases hne : lines = []
  · have hothers : others = [] := by
      rw [← intercalate_lines_eq_empty_iff h', ← htext, intercalate_lines_eq_empty_iff h]
      exact hne
    rw [hne, List.forall₂_nil_left_iff] at h
    rw [hothers, List.forall₂_nil_left_iff] at h'
    rw [h, h']
  · have hothers : others ≠ [] := by
      rw [ne_eq, ← intercalate_lines_eq_empty_iff h', ← htext, intercalate_lines_eq_empty_iff h]
      exact hne
    have hsplit := splitOn_intercalate_lines h hne
    rw [htext, splitOn_intercalate_lines h' hothers] at hsplit
    obtain rfl := List.map_injective_iff.mpr (fun _ _ => String.toList_injective) hsplit
    have hunique : Relator.RightUnique ShowsWord := fun _ _ _ => ShowsWord.unique
    exact List.right_unique_forall₂' hunique h h'

end

theorem text_injective {m n : Memory} (h : m.text = n.text) : m = n := by
  obtain ⟨lines, hm, hlines⟩ := m.exists_lines
  obtain ⟨others, hn, hothers⟩ := n.exists_lines
  exact ext_toList (words_eq_of_intercalate_eq hlines hothers (hm.symm.trans (h.trans hn)))

theorem text_eq_empty_iff {m : Memory} : m.text = "" ↔ ∀ a, m.written a = false := by
  obtain ⟨lines, hm, hlines⟩ := m.exists_lines
  rw [hm, intercalate_lines_eq_empty_iff hlines, ← toList_eq_nil_iff,
    List.eq_nil_iff_length_eq_zero, hlines.length_eq, List.eq_nil_iff_length_eq_zero]

/-- The dump of a memory tells the memory: two dumps are equal exactly if the same addresses
were stored to and hold the same words.  There is one line for each of these words, in strictly
ascending order of the signed addresses, and in it the address as an unsigned 64-bit number
with at least eight hexadecimal digits.  No two addresses look alike, and only the dump of the
memory without words is empty. -/
theorem dump_determines_memory :
    (∀ m n : Memory, m.text = n.text ↔ m = n) ∧
    (∀ m n : Memory, m = n ↔ ∀ a, m.written a = n.written a ∧ m.load a = n.load a) ∧
    (∀ m : Memory, ∃ lines, m.text = "\n".intercalate lines ∧
      (∀ line ∈ lines, '\n' ∉ line.toList) ∧
      List.Forall₂ ShowsWord lines m.toList) ∧
    (∀ m : Memory, m.toList.Pairwise (fun w w' => w.1.toInt < w'.1.toInt) ∧
      ∀ a v, (a, v) ∈ m.toList ↔ m.written a = true ∧ m.load a = v) ∧
    (∀ t a b, ShowsAddress t a → ShowsAddress t b → a = b) ∧
    (∀ m : Memory, m.text = "" ↔ ∀ a, m.written a = false) := by
  refine ⟨?_, fun m n => eq_iff_load_eq, ?_, ?_, fun t a b => ShowsAddress.unique,
    fun m => text_eq_empty_iff⟩
  · intro m n
    exact ⟨text_injective, congrArg text⟩
  · intro m
    obtain ⟨lines, htext, hlines⟩ := m.exists_lines
    exact ⟨lines, htext, not_mem_of_shows hlines, hlines⟩
  · intro m
    exact ⟨m.ascending, fun a v => mem_toList_iff⟩

example :
    (((∅ : Memory).store 4 (-1)).store (-8) 0).text =
    "[0xfffffffffffffff8]: 0\n[0x00000004]: -1" := by
  decide +kernel

end Memory

end MipsMachine
