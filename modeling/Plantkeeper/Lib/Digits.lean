/-
Digits padded with zeros. A decimal number below the tenth power of the width takes exactly the width
and is read back by `Nat.ofDigitChars`; hexadecimal digits are written in lower case and read in either.
-/
import Mathlib.Algebra.Ring.Nat

namespace Plantkeeper.Digits

/-- No zero is in front of the digits of a positive number. -/
theorem head_toDigits {n : ℕ} (h : 0 < n) : (Nat.toDigits 10 n).head? ≠ some '0' := by
  induction n using Nat.strongRecOn with
  | ind n ih =>
    by_cases hn : n < 10
    · have hall : ∀ n < 10, 0 < n → [n.digitChar].head? ≠ some '0' := by decide
      rw [Nat.toDigits_of_lt_base hn]
      exact hall n hn h
    · have hhead := ih (n / 10) (by omega) (by omega)
      rw [Nat.toDigits_of_base_le (by decide) (by omega), List.head?_append]
      cases hd : (Nat.toDigits 10 (n / 10)).head? with
      | none => exact absurd (List.head?_eq_none_iff.1 hd) Nat.toDigits_ne_nil
      | some d => simpa [hd] using hhead

theorem isDigit_toDigits {n : ℕ} : ∀ c ∈ Nat.toDigits 10 n, c.isDigit = true := fun _ hc =>
  Nat.isDigit_of_mem_toDigits (by decide) (by decide) hc

/-- A number has a first digit. -/
theorem toDigits_eq_cons (n : ℕ) : ∃ d ds, Nat.toDigits 10 n = d :: ds ∧ d.isDigit = true ∧ ∀ c ∈ ds, c.isDigit = true := by
  obtain ⟨d, ds, hds⟩ := List.exists_cons_of_ne_nil (Nat.toDigits_ne_nil (n := n) (b := 10))
  have hdigit := isDigit_toDigits (n := n)
  rw [hds] at hdigit
  obtain ⟨hd, hmore⟩ := List.forall_mem_cons.1 hdigit
  exact ⟨d, ds, hds, hd, hmore⟩

theorem ne_of_isDigit {c d : Char} (hc : c.isDigit = true) (hd : d.isDigit = false) : d ≠ c := by
  rintro rfl
  rw [hc] at hd
  cases hd

/-- The decimal digits of a number, filled up on the left. -/
def zeroPadded (width n : ℕ) : List Char := List.leftpad width '0' (Nat.toDigits 10 n)

theorem length_zeroPadded {width n : ℕ} (hpos : 0 < width) (h : n < 10 ^ width) : (zeroPadded width n).length = width := by
  have hle := (Nat.length_toDigits_le_iff (b := 10) (n := n) (by decide) hpos).2 h
  rw [zeroPadded, List.length_leftpad]
  omega

theorem isDigit_of_mem_zeroPadded {width n : ℕ} {c : Char} (h : c ∈ zeroPadded width n) : c.isDigit = true := by
  rw [zeroPadded, List.leftpad, List.mem_append] at h
  rcases h with hzero | hdigit
  · rw [List.eq_of_mem_replicate hzero]
    rfl
  · exact Nat.isDigit_of_mem_toDigits (by decide) (by decide) hdigit

@[simp] theorem ofDigitChars_zeroPadded (width n : ℕ) : Nat.ofDigitChars 10 (zeroPadded width n) 0 = n := by
  rw [zeroPadded, List.leftpad, Nat.ofDigitChars_append, Nat.ofDigitChars_replicate_zero, Nat.mul_zero,
    Nat.ofDigitChars_ten_toDigits]

theorem toNat_of_isDigit {c : Char} (h : c.isDigit = true) : 48 ≤ c.toNat ∧ c.toNat ≤ 57 := by
  simp only [Char.isDigit, Bool.and_eq_true, decide_eq_true_eq, UInt32.le_iff_toNat_le] at h
  exact h

/-- Digits stand for a number below the tenth power of how many they are. -/
theorem ofDigitChars_lt {cs : List Char} (h : ∀ c ∈ cs, c.isDigit = true) : ∀ n, Nat.ofDigitChars 10 cs n < 10 ^ cs.length * (n + 1) := by
  induction cs with
  | nil => simp
  | cons c cs ih =>
    intro n
    obtain ⟨hc, hcs⟩ := List.forall_mem_cons.1 h
    have hdigit := toNat_of_isDigit hc
    calc Nat.ofDigitChars 10 (c :: cs) n = Nat.ofDigitChars 10 cs (10 * n + (c.toNat - 48)) := Nat.ofDigitChars_cons
      _ < 10 ^ cs.length * (10 * n + (c.toNat - 48) + 1) := ih hcs _
      _ ≤ 10 ^ cs.length * (10 * (n + 1)) := Nat.mul_le_mul_left _ (by omega)
      _ = 10 ^ (c :: cs).length * (n + 1) := by rw [List.length_cons, Nat.pow_succ, Nat.mul_assoc]

/-- As many digits that stand for the same number are the same digits. -/
theorem ofDigitChars_inj {cs ds : List Char} (hlen : cs.length = ds.length) (hcs : ∀ c ∈ cs, c.isDigit = true)
    (hds : ∀ d ∈ ds, d.isDigit = true) {m n : ℕ} (h : Nat.ofDigitChars 10 cs m = Nat.ofDigitChars 10 ds n) :
    m = n ∧ cs = ds := by
  induction cs generalizing ds m n with
  | nil =>
    cases ds with
    | nil => simpa using h
    | cons d ds => cases hlen
  | cons c cs ih =>
    cases ds with
    | nil => cases hlen
    | cons d ds =>
      obtain ⟨hc, hcs⟩ := List.forall_mem_cons.1 hcs
      obtain ⟨hd, hds⟩ := List.forall_mem_cons.1 hds
      rw [Nat.ofDigitChars_cons, Nat.ofDigitChars_cons] at h
      -- the digits behind are the same, and in front of them the remainder by ten is the first digit
      obtain ⟨hhead, rfl⟩ := ih (by simpa using hlen) hcs hds h
      have hcr := toNat_of_isDigit hc
      have hdr := toNat_of_isDigit hd
      simp only [show '0'.toNat = 48 from rfl] at hhead
      have hchar : c = d := Char.toNat_inj.1 (by omega)
      subst hchar
      exact ⟨by omega, rfl⟩

/-- Digits are read back as they are written, zeros in front included. -/
theorem zeroPadded_ofDigitChars {cs : List Char} (hne : cs ≠ []) (h : ∀ c ∈ cs, c.isDigit = true) :
    zeroPadded cs.length (Nat.ofDigitChars 10 cs 0) = cs := by
  have hlt := ofDigitChars_lt h 0
  rw [Nat.mul_one] at hlt
  have hlen := length_zeroPadded (List.length_pos_iff.2 hne) hlt
  exact (ofDigitChars_inj hlen (fun _ => isDigit_of_mem_zeroPadded) h (ofDigitChars_zeroPadded ..)).2
/-! ## Hexadecimal -/

def hexDigits : List Char := ['0', '1', '2', '3', '4', '5', '6', '7', '8', '9', 'a', 'b', 'c', 'd', 'e', 'f']

/-- The lowest digits of a number, as many as the width. -/
def hexPadded : ℕ → ℕ → List Char
  | 0, _ => []
  | width + 1, n => hexPadded width (n / 16) ++ [Nat.digitChar (n % 16)]

/-- The value of a digit, in either case. -/
def hexValue (c : Char) : Option ℕ :=
  if '0' ≤ c ∧ c ≤ '9' then some (c.toNat - 48)
  else if 'a' ≤ c ∧ c ≤ 'f' then some (c.toNat - 87)
  else if 'A' ≤ c ∧ c ≤ 'F' then some (c.toNat - 55)
  else none

theorem digitChar_mem {d : ℕ} (h : d < 16) : Nat.digitChar d ∈ hexDigits := by
  have hall : ∀ d < 16, Nat.digitChar d ∈ hexDigits := by decide
  exact hall d h

theorem hexValue_digitChar {d : ℕ} (h : d < 16) : hexValue (Nat.digitChar d) = some d := by
  have hall : ∀ d < 16, hexValue (Nat.digitChar d) = some d := by decide
  exact hall d h

theorem mem_hexPadded {width n : ℕ} {c : Char} (h : c ∈ hexPadded width n) : c ∈ hexDigits := by
  induction width generalizing n with
  | zero => cases h
  | succ width ih =>
    rcases List.mem_append.1 h with h | h
    · exact ih h
    · rw [List.mem_singleton.1 h]
      exact digitChar_mem (Nat.mod_lt n (by decide))

theorem length_hexPadded (width n : ℕ) : (hexPadded width n).length = width := by
  induction width generalizing n with
  | zero => rfl
  | succ width ih => rw [hexPadded, List.length_append, ih]; rfl

end Plantkeeper.Digits
