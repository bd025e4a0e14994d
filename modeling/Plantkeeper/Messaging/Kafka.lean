/-
What travels on a topic and what a subscriber is handed. A record is bytes; a delivery has its headers by
name, each as the broker decoded it or left it, and its body as bytes, as text or already parsed.
-/
import Plantkeeper.Domain.Uuid
import Plantkeeper.Lib.Dict
import Plantkeeper.Lib.Utf8

namespace Plantkeeper.Messaging

open Utf8 (Bytes Errors)
open Digits (hexPadded)

/-! ## Texts and bytes -/

/-- `text.encode("utf-8")`. -/
def encode (s : String) : Bytes := Utf8.encode s.toList

/-- `raw.decode("utf-8", errors)`. -/
def decode (errors : Errors) (b : Bytes) : Option String := (Utf8.decode errors b).map String.ofList

theorem decode_encode (errors : Errors) (s : String) : decode errors (encode s) = some s := by
  unfold decode encode
  rw [Utf8.decode_encode, Option.map_some, String.ofList_toList]

/-- `raw.decode("utf-8", errors="replace")`, which never raises. -/
def decodeReplace (b : Bytes) : String := (decode .replace b).get (by
  unfold decode
  rw [Option.isSome_map]
  exact Utf8.decode_replace_isSome b)

@[simp] theorem decodeReplace_encode (s : String) : decodeReplace (encode s) = s := by
  unfold decodeReplace
  simp only [decode_encode, Option.get_some]

/-- One byte inside the `repr` of bytes. -/
def reprByte (quote : ℕ) (b : UInt8) : List Char :=
  let n := b.toNat
  if n = quote ∨ n = 92 then [Char.ofNat 92, Char.ofNat n]
  else if n = 9 then [Char.ofNat 92, 't']
  else if n = 10 then [Char.ofNat 92, 'n']
  else if n = 13 then [Char.ofNat 92, 'r']
  else if 0x20 ≤ n ∧ n < 0x7f then [Char.ofNat n]
  else Char.ofNat 92 :: 'x' :: hexPadded 2 n

/-- `str(b"…")`: the literal that stands for the bytes. -/
def bytesRepr (b : Bytes) : String :=
  let quote := if 39 ∈ b ∧ 34 ∉ b then 34 else 39
  String.ofList ('b' :: Char.ofNat quote :: b.flatMap (reprByte quote) ++ [Char.ofNat quote])

example : bytesRepr [104, 105, 10, 255] = "b'hi\\n\\xff'" := by decide

/-! ## Records and deliveries -/

/-- A record on a topic. -/
structure Record where
  topic : String
  key : Option Bytes
  value : Option Bytes
  headers : List (String × Bytes)
  deriving DecidableEq

/-- A header's value. -/
inductive HeaderValue
  | bytes (b : Bytes)
  | text (s : String)
  deriving DecidableEq

/-- `str(value)`. -/
def HeaderValue.str : HeaderValue → String
  | .bytes b => bytesRepr b
  | .text s => s

/-- A delivery's body; `J` are parsed documents. -/
inductive Body (J : Type)
  | bytes (b : Bytes)
  | text (s : String)
  | document (j : J)

/-- A delivery, with the record behind it. -/
structure KafkaMessage (J : Type) where
  raw : Record
  body : Body J
  headers : Dict String HeaderValue

/-- What FastStream hands a subscriber: the body as it arrived and the headers as text. -/
def KafkaMessage.ofRecord {J : Type} (r : Record) : Option (KafkaMessage J) :=
  (r.headers.mapM fun h => (decode .strict h.2).map fun s => (h.1, HeaderValue.text s)).map fun headers =>
    ⟨r, .bytes (r.value.getD []), Dict.ofList headers⟩

/-! ## Messages of text -/

/-- A message that is text throughout, on a topic with a name. -/
structure TextMessage where
  topic : String
  named : topic ≠ ""
  key : Option String
  body : String
  headers : Dict String String

/-- The items of a header mapping on the wire. -/
def encodeHeaders (headers : Dict String String) : List (String × Bytes) :=
  headers.entries.map fun h => (h.1, encode h.2)

def TextMessage.record (m : TextMessage) : Record where
  topic := m.topic
  key := m.key.map encode
  value := some (encode m.body)
  headers := encodeHeaders m.headers

/-- A record of text is delivered as that text. -/
theorem ofRecord_encode {J : Type} {r : Record} {body : String} {headers : Dict String String} (hvalue : r.value = some (encode body))
    (hheaders : r.headers = encodeHeaders headers) :
    KafkaMessage.ofRecord (J := J) r = some ⟨r, .bytes (encode body), headers.mapValues HeaderValue.text⟩ := by
  have hitems : ∀ l : List (String × String), (l.map fun h => (h.1, encode h.2)).mapM
      (fun h => (decode .strict h.2).map fun s => (h.1, HeaderValue.text s)) = some (l.map fun h => (h.1, HeaderValue.text h.2)) := by
    intro l
    induction l with
    | nil => rfl
    | cons h l ih =>
      rw [List.map_cons, List.mapM_cons, ih, decode_encode]
      rfl
  unfold KafkaMessage.ofRecord
  rw [hheaders, hvalue, encodeHeaders, hitems, Option.map_some]
  congr 2
  exact Dict.ofList_entries (headers.mapValues HeaderValue.text)

theorem ofRecord_record {J : Type} (m : TextMessage) : KafkaMessage.ofRecord (J := J) m.record =
    some ⟨m.record, .bytes (encode m.body), m.headers.mapValues HeaderValue.text⟩ :=
  ofRecord_encode rfl rfl

end Plantkeeper.Messaging
