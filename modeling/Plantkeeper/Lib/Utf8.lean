/-
UTF-8 with an error handler. Bytes are a list; a decoder under `strict` stops at the first ill-formed
sequence and under `replace` puts U+FFFD for each maximal part of one. Either reads back what was encoded.
-/
import Mathlib.Data.List.Basic

namespace Plantkeeper.Utf8

abbrev Bytes := List UInt8

inductive Errors
  | strict
  | replace
  deriving DecidableEq, Repr

/-- What stands for an ill-formed sequence. -/
def Errors.substitute : Errors → Option Char
  | .strict => none
  | .replace => some '\uFFFD'

/-- `encode("utf-8")`. -/
def encode (cs : List Char) : Bytes := cs.flatMap String.utf8EncodeChar

/-- The character whose encoding the bytes begin with. -/
def first? (b : Bytes) : Option Char := b.toByteArray.utf8DecodeChar? 0

/-- The second byte may follow the first in a sequence of three or four. -/
def follows (lead next : UInt8) : Bool :=
  let range : ℕ × ℕ :=
    if lead.toNat = 0xe0 then (0xa0, 0xbf)
    else if lead.toNat = 0xed then (0x80, 0x9f)
    else if lead.toNat = 0xf0 then (0x90, 0xbf)
    else if lead.toNat = 0xf4 then (0x80, 0x8f)
    else (0x80, 0xbf)
  (0xe0 ≤ lead.toNat && lead.toNat ≤ 0xf4) && (range.1 ≤ next.toNat && next.toNat ≤ range.2)

/-- How many bytes of an ill-formed sequence are replaced by one character: as many as begin a
well-formed one, and at least one. -/
def illFormed : Bytes → ℕ
  | lead :: next :: third :: _ =>
    if !follows lead next then 1
    else if 0xf0 ≤ lead.toNat && (0x80 ≤ third.toNat && third.toNat ≤ 0xbf) then 3
    else 2
  | [lead, next] => if follows lead next then 2 else 1
  | _ => 1

theorem illFormed_pos (b : Bytes) : 1 ≤ illFormed b := by
  unfold illFormed
  split
  · split_ifs <;> decide
  · split_ifs <;> decide
  · exact Nat.le_refl 1

/-- `decode("utf-8", errors)`: `none` is the `UnicodeDecodeError`. -/
def decode (errors : Errors) (b : Bytes) : Option (List Char) :=
  if b = [] then some []
  else
    match first? b with
    | some c => (decode errors (b.drop c.utf8Size)).map (c :: ·)
    | none =>
      match errors.substitute with
      | none => none
      | some r => (decode errors (b.drop (illFormed b))).map (r :: ·)
termination_by b.length
decreasing_by
  · have hpos : 0 < b.length := List.length_pos_iff.2 ‹_›
    have hsize := c.utf8Size_pos
    rw [List.length_drop]
    omega
  · have hpos : 0 < b.length := List.length_pos_iff.2 ‹_›
    have hsize := illFormed_pos b
    rw [List.length_drop]
    omega

theorem first?_encodeChar (c : Char) (b : Bytes) : first? (String.utf8EncodeChar c ++ b) = some c := by
  unfold first?
  rw [List.toByteArray_append, ByteArray.utf8DecodeChar?_utf8EncodeChar_append]

theorem encodeChar_ne_nil (c : Char) : String.utf8EncodeChar c ≠ [] := by
  rw [← List.length_pos_iff, String.length_utf8EncodeChar]
  exact c.utf8Size_pos

/-- What was encoded is read back, whatever is done about errors. -/
theorem decode_encode (errors : Errors) : ∀ cs : List Char, decode errors (encode cs) = some cs
  | [] => by rw [decode]; rfl
  | c :: cs => by
    have hne : encode (c :: cs) ≠ [] := by
      unfold encode
      rw [List.flatMap_cons]
      exact List.append_ne_nil_of_left_ne_nil (encodeChar_ne_nil c) _
    have hsplit : encode (c :: cs) = String.utf8EncodeChar c ++ encode cs := List.flatMap_cons ..
    have hrest : (encode (c :: cs)).drop c.utf8Size = encode cs := by
      rw [hsplit, ← String.length_utf8EncodeChar c, List.drop_left]
    rw [decode, if_neg hne, hsplit, first?_encodeChar]
    show ((decode errors ((String.utf8EncodeChar c ++ encode cs).drop c.utf8Size)).map (c :: ·)) = _
    rw [← hsplit, hrest, decode_encode errors cs]
    rfl

/-- Nothing is ever wrong under `replace`. -/
theorem decode_replace_isSome (b : Bytes) : (decode .replace b).isSome = true := by
  induction hn : b.length using Nat.strongRecOn generalizing b with
  | _ n ih =>
    subst hn
    have hdrop : ∀ k, 1 ≤ k → b ≠ [] → (b.drop k).length < b.length := by
      intro k hk hne
      have hpos : 0 < b.length := List.length_pos_iff.2 hne
      rw [List.length_drop]
      omega
    rw [decode]
    split_ifs with hb
    · rfl
    · split
      · rename_i c _
        rw [Option.isSome_map]
        exact ih _ (hdrop _ c.utf8Size_pos hb) _ rfl
      · show ((decode .replace (b.drop (illFormed b))).map _).isSome = true
        rw [Option.isSome_map]
        exact ih _ (hdrop _ (illFormed_pos b) hb) _ rfl

end Plantkeeper.Utf8
