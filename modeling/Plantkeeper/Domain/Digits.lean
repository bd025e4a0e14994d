/-
What `str.isdigit` and `int` take for digits. Every block of ten decimal digits counts for both, whatever
its script; superscripts, circled digits and the like satisfy `isdigit` and are no literal for `int`.
-/
import Plantkeeper.Domain.Date
import Plantkeeper.Lib.Digits

namespace Plantkeeper

/-- The zeros of the blocks of decimal digits. -/
def decimalZeros : List ℕ :=
  [0x30, 0x660, 0x6f0, 0x7c0, 0x966, 0x9e6, 0xa66, 0xae6, 0xb66, 0xbe6, 0xc66, 0xce6, 0xd66, 0xde6, 0xe50, 0xed0,
    0xf20, 0x1040, 0x1090, 0x17e0, 0x1810, 0x1946, 0x19d0, 0x1a80, 0x1a90, 0x1b50, 0x1bb0, 0x1c40, 0x1c50, 0xa620,
    0xa8d0, 0xa900, 0xa9d0, 0xa9f0, 0xaa50, 0xabf0, 0xff10, 0x104a0, 0x10d30, 0x10d40, 0x11066, 0x110f0, 0x11136,
    0x111d0, 0x112f0, 0x11450, 0x114d0, 0x11650, 0x116c0, 0x116d0, 0x116da, 0x11730, 0x118e0, 0x11950, 0x11bf0,
    0x11c50, 0x11d50, 0x11da0, 0x11f50, 0x16130, 0x16a60, 0x16ac0, 0x16b50, 0x16d70, 0x1ccf0, 0x1d7ce, 0x1d7d8,
    0x1d7e2, 0x1d7ec, 0x1d7f6, 0x1e140, 0x1e2f0, 0x1e4f0, 0x1e5f1, 0x1e950, 0x1fbf0]

/-- The ranges of digits that are not decimal. -/
def otherDigits : List (ℕ × ℕ) :=
  [(0xb2, 0xb3), (0xb9, 0xb9), (0x1369, 0x1371), (0x19da, 0x19da), (0x2070, 0x2070), (0x2074, 0x2079),
    (0x2080, 0x2089), (0x2460, 0x2468), (0x2474, 0x247c), (0x2488, 0x2490), (0x24ea, 0x24ea), (0x24f5, 0x24fd),
    (0x24ff, 0x24ff), (0x2776, 0x277e), (0x2780, 0x2788), (0x278a, 0x2792), (0x10a40, 0x10a43), (0x10e60, 0x10e68),
    (0x11052, 0x1105a), (0x1f100, 0x1f10a)]

/-- The value of a decimal digit. -/
def decimalDigit (c : Char) : Option ℕ :=
  (decimalZeros.find? fun z => z ≤ c.toNat && c.toNat < z + 10).map fun z => c.toNat - z

/-- `str.isdigit`. -/
def isDigits (cs : List Char) : Bool :=
  !cs.isEmpty && cs.all fun c =>
    (decimalDigit c).isSome || otherDigits.any fun r => r.1 ≤ c.toNat && c.toNat ≤ r.2

def pushDigit (n : ℕ) (c : Char) : Except ValueError ℕ :=
  match decimalDigit c with
  | some digit => .ok (10 * n + digit)
  | none => .error .literal

/-- `int(…)`, of a text of digits. -/
def intOfDigits (cs : List Char) : Except ValueError ℕ := cs.foldlM pushDigit 0

/-- An ASCII digit is a decimal digit. -/
theorem decimalDigit_ascii {c : Char} (h : c.isDigit = true) : decimalDigit c = some (c.toNat - 48) := by
  have hrange := Digits.toNat_of_isDigit h
  unfold decimalDigit decimalZeros
  rw [List.find?_cons_of_pos (by simp only [Bool.and_eq_true, decide_eq_true_eq]; omega)]
  rfl

theorem isDigits_ascii {cs : List Char} (hne : cs ≠ []) (h : ∀ c ∈ cs, c.isDigit = true) : isDigits cs = true := by
  simp only [isDigits, Bool.and_eq_true, List.all_eq_true, Bool.or_eq_true]
  refine ⟨?_, fun c hc => .inl ?_⟩
  · cases cs with
    | nil => exact absurd rfl hne
    | cons c cs => rfl
  · rw [decimalDigit_ascii (h c hc)]
    rfl

theorem intOfDigits_ascii {cs : List Char} (h : ∀ c ∈ cs, c.isDigit = true) :
    intOfDigits cs = .ok (Nat.ofDigitChars 10 cs 0) := by
  suffices hfold : ∀ n, cs.foldlM pushDigit n = .ok (Nat.ofDigitChars 10 cs n) from hfold 0
  induction cs with
  | nil => exact fun n => by rw [Nat.ofDigitChars_nil]; rfl
  | cons c cs ih =>
    intro n
    have hpush : pushDigit n c = .ok (10 * n + (c.toNat - 48)) := by
      unfold pushDigit
      rw [decimalDigit_ascii (h c (List.mem_cons_self ..))]
    rw [List.foldlM_cons, hpush, Nat.ofDigitChars_cons]
    exact ih (fun d hd => h d (List.mem_cons_of_mem _ hd)) _

end Plantkeeper
