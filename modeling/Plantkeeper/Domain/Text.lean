/-
Texts that aggregates keep. A text is its list of characters; a name is stripped and not blank, a
location stripped and of 1 to 100 characters.
-/
import Mathlib.Data.List.DropRight

namespace Plantkeeper

/-- The characters `str.strip` removes: those for which `str.isspace` holds. -/
def isSpace (c : Char) : Bool :=
  let n := c.toNat
  (0x9 ≤ n && n ≤ 0xd) || (0x1c ≤ n && n ≤ 0x20) || n == 0x85 || n == 0xa0 || n == 0x1680 ||
    (0x2000 ≤ n && n ≤ 0x200a) || n == 0x2028 || n == 0x2029 || n == 0x202f || n == 0x205f || n == 0x3000

/-- `str.strip`. -/
def strip (cs : List Char) : List Char := (cs.dropWhile isSpace).rdropWhile isSpace

/-- What is left begins with no space, so there is nothing more to strip. -/
theorem strip_strip (cs : List Char) : strip (strip cs) = strip cs := by
  have hhead : (strip cs).dropWhile isSpace = strip cs := by
    rw [List.dropWhile_eq_self_iff]
    intro hl
    have hp : strip cs <+: cs.dropWhile isSpace := List.rdropWhile_prefix _ _
    have hl' : 0 < (cs.dropWhile isSpace).length := Nat.lt_of_lt_of_le hl hp.length_le
    rw [hp.getElem hl]
    exact List.dropWhile_get_zero_not isSpace cs hl'
  show ((strip cs).dropWhile isSpace).rdropWhile isSpace = strip cs
  rw [hhead]
  exact List.rdropWhile_idempotent _ _

/-- A name as an aggregate keeps it: stripped, and not blank. -/
structure Name where
  text : List Char
  stripped : strip text = text
  nonempty : text ≠ []
  deriving DecidableEq

/-- The name an aggregate makes of a text: `none` is the error for a blank one. -/
def normalizeName (raw : List Char) : Option Name :=
  if h : strip raw = [] then none else some ⟨strip raw, strip_strip raw, h⟩

/-- A name that is kept is kept as it is. -/
theorem normalizeName_text (n : Name) : normalizeName n.text = some n := by
  have h : strip n.text ≠ [] := by
    rw [n.stripped]
    exact n.nonempty
  unfold normalizeName
  rw [dif_neg h]
  cases n
  simp_all

/-- A place inside the household. -/
structure Location where
  text : List Char
  stripped : strip text = text
  length_pos : 1 ≤ text.length
  length_le : text.length ≤ 100
  deriving DecidableEq

/-- `Location(value=…)`: the text is stripped before its length is checked. -/
def Location.ofText (raw : List Char) : Option Location :=
  if h : 1 ≤ (strip raw).length ∧ (strip raw).length ≤ 100 then some ⟨strip raw, strip_strip raw, h.1, h.2⟩
  else none

end Plantkeeper
