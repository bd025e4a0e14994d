/-
The text of a UUID and what `UUID(…)` makes of a text. It is lenient: prefixes, braces and hyphens are
taken out wherever they stand, and what is left is read by `int`, which has its own leniencies; but the text
a UUID is written as is read back as that UUID.
-/
import Plantkeeper.Domain.Digits
import Plantkeeper.Domain.Text

namespace Plantkeeper

open Digits

/-- A UUID with its bound, where its text matters. -/
@[ext] structure UUID where
  int : ℕ
  valid : int < 2 ^ 128
  deriving DecidableEq

/-! ## Hexadecimal literals -/

/-- The digits after a first one; single underscores may stand between them. -/
def moreHex (acc : ℕ) : List Char → Option ℕ
  | [] => some acc
  | ['_'] => none
  | '_' :: c :: cs => (hexValue c).bind fun digit => moreHex (16 * acc + digit) cs
  | c :: cs => (hexValue c).bind fun digit => moreHex (16 * acc + digit) cs

/-- What `int` puts in the place of a character before it reads the text. -/
def asciiOf (c : Char) : Char :=
  if c.toNat < 127 then c
  else if isSpace c then ' '
  else
    match decimalDigit c with
    | some digit => Nat.digitChar digit
    | none => '?'

/-- The spaces of C. -/
def isCSpace (c : Char) : Bool := (0x9 ≤ c.toNat && c.toNat ≤ 0xd) || c == ' '

/-- The `0x` before the digits, with one underscore after it. -/
def dropHexMark : List Char → List Char
  | '0' :: 'x' :: '_' :: cs | '0' :: 'X' :: '_' :: cs | '0' :: 'x' :: cs | '0' :: 'X' :: cs => cs
  | cs => cs

def unsignedHex (cs : List Char) : Option ℕ :=
  match dropHexMark cs with
  | [] => none
  | c :: cs => (hexValue c).bind fun digit => moreHex digit cs

/-- `int(text, 16)`: `none` is its `ValueError`. -/
def intOfHex (cs : List Char) : Option ℤ :=
  match ((cs.map asciiOf).dropWhile isCSpace).rdropWhile isCSpace with
  | '-' :: cs => (unsignedHex cs).map fun n => -(n : ℤ)
  | '+' :: cs => (unsignedHex cs).map fun n => (n : ℤ)
  | cs => (unsignedHex cs).map fun n => (n : ℤ)

/-! ## Texts -/

/-- `text.replace(pattern, "")`, with as many characters of an occurrence still to be skipped. -/
def remove (pattern : List Char) : ℕ → List Char → List Char
  | _, [] => []
  | skip + 1, _ :: cs => remove pattern skip cs
  | 0, c :: cs => if pattern.isPrefixOf (c :: cs) then remove pattern (pattern.length - 1) cs else c :: remove pattern 0 cs

namespace UUID

/-- `str(…)`. -/
def str (u : UUID) : List Char :=
  let hex := hexPadded 32 u.int
  hex.take 8 ++ '-' :: (hex.drop 8).take 4 ++ '-' :: (hex.drop 12).take 4 ++ '-' :: (hex.drop 16).take 4 ++ '-' :: hex.drop 20

def isBrace (c : Char) : Bool := c == '{' || c == '}'

/-- `UUID(text)`: `none` is its `ValueError`. -/
def ofText (cs : List Char) : Option UUID :=
  let hex := remove "uuid:".toList 0 (remove "urn:".toList 0 cs)
  let hex := ((hex.dropWhile isBrace).rdropWhile isBrace).filter (· ≠ '-')
  if hex.length ≠ 32 then none
  else
    (intOfHex hex).bind fun n => if h : 0 ≤ n ∧ n.toNat < 2 ^ 128 then some ⟨n.toNat, h.2⟩ else none

end UUID

/-! ## The round trip -/

/-- What tells a digit from everything else the parser looks for. -/
theorem hexDigits_spec : ∀ c ∈ hexDigits, (hexValue c).isSome = true ∧ asciiOf c = c ∧ isCSpace c = false ∧
    UUID.isBrace c = false ∧ c ≠ '-' ∧ c ≠ '+' ∧ c ≠ '_' ∧ c ≠ 'x' ∧ c ≠ 'X' ∧ c ≠ 'u' := by
  rw [← List.forall_iff_forall_mem]
  decide

/-- Plain digits are read one by one. -/
theorem moreHex_cons {acc : ℕ} {c : Char} {cs : List Char} (hc : c ≠ '_') :
    moreHex acc (c :: cs) = (hexValue c).bind fun digit => moreHex (16 * acc + digit) cs := by
  rw [moreHex]
  · rintro rfl
    exact absurd rfl hc
  · rintro d ds rfl
    exact absurd rfl hc

theorem moreHex_append {ds : List Char} : ∀ {cs : List Char} {acc : ℕ}, (∀ c ∈ cs, c ≠ '_') →
    moreHex acc (cs ++ ds) = (moreHex acc cs).bind fun n => moreHex n ds
  | [], acc, _ => rfl
  | c :: cs, acc, h => by
    have hc := h c (List.mem_cons_self ..)
    rw [List.cons_append, moreHex_cons hc, moreHex_cons hc]
    cases hexValue c with
    | none => rfl
    | some digit => exact moreHex_append fun d hd => h d (List.mem_cons_of_mem _ hd)

theorem moreHex_hexPadded (width n acc : ℕ) (h : n < 16 ^ width) : moreHex acc (hexPadded width n) = some (16 ^ width * acc + n) := by
  induction width generalizing n with
  | zero =>
    have hn : n = 0 := by simpa using h
    subst hn
    simp [hexPadded, moreHex]
  | succ width ih =>
    have hlt : n / 16 < 16 ^ width := by
      rw [Nat.pow_succ] at h
      omega
    have hdigit := Nat.mod_lt n (show 16 > 0 by decide)
    have hplain : ∀ c ∈ hexPadded width (n / 16), c ≠ '_' := fun c hc => (hexDigits_spec c (mem_hexPadded hc)).2.2.2.2.2.2.1
    rw [hexPadded, moreHex_append hplain, ih _ hlt, Option.bind_some,
      moreHex_cons (hexDigits_spec _ (digitChar_mem hdigit)).2.2.2.2.2.2.1, hexValue_digitChar hdigit]
    show some (16 * (16 ^ width * acc + n / 16) + n % 16) = _
    rw [Nat.pow_succ, Nat.mul_add, ← Nat.mul_assoc, Nat.mul_comm 16 (16 ^ width)]
    congr 1
    omega

/-- Nothing is removed where the pattern's first character does not occur. -/
theorem remove_of_notMem {p : Char} {pattern cs : List Char} (h : p ∉ cs) : remove (p :: pattern) 0 cs = cs := by
  induction cs with
  | nil => rfl
  | cons c cs ih =>
    rw [List.mem_cons, not_or] at h
    rw [remove, if_neg, ih h.2]
    rw [List.isPrefixOf_cons_cons]
    simp [h.1]

/-- Nothing is stripped where nothing is to be stripped. -/
theorem strip_of_forall {p : Char → Bool} {cs : List Char} (h : ∀ c ∈ cs, p c = false) :
    (cs.dropWhile p).rdropWhile p = cs := by
  have hdrop : cs.dropWhile p = cs := by
    cases cs with
    | nil => rfl
    | cons c cs => exact List.dropWhile_cons_of_neg (by rw [h c (List.mem_cons_self ..)]; decide)
  rw [hdrop, List.rdropWhile_eq_self_iff]
  intro hne
  rw [h _ (List.getLast_mem hne)]
  decide

theorem dropHexMark_of_forall {cs : List Char} (h : ∀ c ∈ cs, c ≠ 'x' ∧ c ≠ 'X') : dropHexMark cs = cs := by
  have hx : 'x' ∉ cs := fun hmem => (h _ hmem).1 rfl
  have hX : 'X' ∉ cs := fun hmem => (h _ hmem).2 rfl
  unfold dropHexMark
  split
  · exact absurd (List.mem_cons_of_mem _ (List.mem_cons_self ..)) hx
  · exact absurd (List.mem_cons_of_mem _ (List.mem_cons_self ..)) hX
  · exact absurd (List.mem_cons_of_mem _ (List.mem_cons_self ..)) hx
  · exact absurd (List.mem_cons_of_mem _ (List.mem_cons_self ..)) hX
  · rfl

/-- Plain digits are an unsigned literal. -/
theorem unsignedHex_eq {c : Char} {cs : List Char} (h : ∀ d ∈ c :: cs, d ∈ hexDigits) : unsignedHex (c :: cs) = moreHex 0 (c :: cs) := by
  have hmark : dropHexMark (c :: cs) = c :: cs := by
    refine dropHexMark_of_forall fun d hd => ?_
    obtain ⟨_, _, _, _, _, _, _, hx, hX, _⟩ := hexDigits_spec d (h d hd)
    exact ⟨hx, hX⟩
  have hc := (hexDigits_spec c (h c (List.mem_cons_self ..))).2.2.2.2.2.2.1
  rw [unsignedHex, hmark, moreHex_cons hc]
  simp only [Nat.mul_zero, Nat.zero_add]

theorem intOfHex_eq {cs : List Char} (hne : cs ≠ []) (h : ∀ c ∈ cs, c ∈ hexDigits) :
    intOfHex cs = (moreHex 0 cs).map fun n => (n : ℤ) := by
  have hascii : cs.map asciiOf = cs := by
    rw [List.map_congr_left (g := id) fun c hc => (hexDigits_spec c (h c hc)).2.1, List.map_id]
  unfold intOfHex
  rw [hascii, strip_of_forall fun c hc => (hexDigits_spec c (h c hc)).2.2.1]
  cases cs with
  | nil => exact absurd rfl hne
  | cons c cs =>
    obtain ⟨_, _, _, _, hminus, hplus, _⟩ := hexDigits_spec c (h c (List.mem_cons_self ..))
    split
    · rename_i heq
      cases heq
      exact absurd rfl hminus
    · rename_i heq
      cases heq
      exact absurd rfl hplus
    · rw [unsignedHex_eq h]

namespace UUID

/-- The hyphens are all that is added to the digits. -/
theorem filter_str (u : UUID) : u.str.filter (· ≠ '-') = hexPadded 32 u.int := by
  have hplain : ∀ l : List Char, (∀ c ∈ l, c ∈ hexPadded 32 u.int) → l.filter (· ≠ '-') = l := by
    intro l hl
    refine List.filter_eq_self.2 fun c hc => ?_
    simpa using (hexDigits_spec c (mem_hexPadded (hl c hc))).2.2.2.2.1
  have htake : ∀ i j, ((hexPadded 32 u.int).drop i |>.take j).filter (· ≠ '-') = ((hexPadded 32 u.int).drop i).take j :=
    fun i j => hplain _ fun c hc => List.mem_of_mem_drop (List.mem_of_mem_take hc)
  have hhead := hplain ((hexPadded 32 u.int).take 8) fun c hc => List.mem_of_mem_take hc
  have hlast := hplain ((hexPadded 32 u.int).drop 20) fun c hc => List.mem_of_mem_drop hc
  have hcut : ∀ i j : ℕ, ((hexPadded 32 u.int).drop i).take j ++ (hexPadded 32 u.int).drop (i + j) = (hexPadded 32 u.int).drop i := by
    intro i j
    rw [← List.drop_drop, List.take_append_drop]
  unfold str
  simp only [List.filter_append, List.filter_cons, hhead, hlast, htake, ne_eq, not_true_eq_false, decide_false,
    Bool.false_eq_true, if_false, List.append_assoc]
  rw [hcut 16 4, hcut 12 4, hcut 8 4, List.take_append_drop]

theorem mem_str {u : UUID} {c : Char} (h : c ∈ u.str) : c = '-' ∨ c ∈ hexDigits := by
  by_cases hc : c = '-'
  · exact .inl hc
  · right
    have hmem : c ∈ u.str.filter (· ≠ '-') := List.mem_filter.2 ⟨h, by simpa using hc⟩
    rw [filter_str] at hmem
    exact mem_hexPadded hmem

/-- A UUID's text is read back as the UUID. -/
theorem ofText_str (u : UUID) : UUID.ofText u.str = some u := by
  have hu : 'u' ∉ u.str := by
    intro h
    rcases mem_str h with h | h
    · cases h
    · exact absurd h (by decide)
  have hbrace : ∀ c ∈ u.str, isBrace c = false := by
    intro c hc
    rcases mem_str hc with rfl | hc
    · rfl
    · exact (hexDigits_spec c hc).2.2.2.1
  have hlen := length_hexPadded 32 u.int
  have hread : intOfHex (hexPadded 32 u.int) = some (u.int : ℤ) := by
    rw [intOfHex_eq (List.ne_nil_of_length_pos (by rw [hlen]; decide)) fun c hc => mem_hexPadded hc,
      moreHex_hexPadded 32 u.int 0 u.valid]
    simp
  unfold ofText
  rw [show "urn:".toList = 'u' :: "rn:".toList from rfl, remove_of_notMem hu,
    show "uuid:".toList = 'u' :: "uid:".toList from rfl, remove_of_notMem hu]
  dsimp only
  rw [strip_of_forall hbrace, filter_str, if_neg (by rw [hlen]; decide), hread, Option.bind_some,
    dif_pos ⟨Int.natCast_nonneg _, by rw [Int.toNat_natCast]; exact u.valid⟩]
  rfl

example : UUID.ofText "{URN:00000000-0000-0000-0000-00000000002A}".toList = none := by decide

example : (UUID.ofText "{urn:uuid:00000000-0000-0000-0000-00000000002A}".toList).map UUID.int = some 42 := by decide

end UUID

end Plantkeeper
