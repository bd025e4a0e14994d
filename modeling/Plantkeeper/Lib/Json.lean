/-
JSON documents as `json.dumps` writes them, compact and not escaped to ASCII, and as `json.loads` reads
them, with white space, every escape and the three constants that are not JSON. A float is kept as the
literal it is written as. What is written is read back.
-/
import Mathlib.Data.Int.Notation
import Mathlib.Data.List.TakeWhile
import Plantkeeper.Lib.Dict
import Plantkeeper.Lib.Digits

namespace Plantkeeper

/-- A document. -/
inductive Json
  | null
  | bool (b : Bool)
  | int (n : ℤ)
  | float (literal : List Char)
  | str (s : String)
  | arr (items : List Json)
  | obj (members : List (String × Json))

namespace Json

open Digits

/-! ## Writing -/

def escapeChar (c : Char) : List Char :=
  if c = '"' then ['\\', '"']
  else if c = '\\' then ['\\', '\\']
  else if c = '\n' then ['\\', 'n']
  else if c = '\r' then ['\\', 'r']
  else if c = '\t' then ['\\', 't']
  else if c = '\x08' then ['\\', 'b']
  else if c = '\x0c' then ['\\', 'f']
  else if c.toNat < 0x20 then '\\' :: 'u' :: hexPadded 4 c.toNat
  else [c]

def quote (s : String) : List Char := '"' :: s.toList.flatMap escapeChar ++ ['"']

def intText (n : ℤ) : List Char := if n < 0 then '-' :: Nat.toDigits 10 n.natAbs else Nat.toDigits 10 n.natAbs

mutual

/-- `dumps`, with the separators `,` and `:`. -/
def dumps : Json → List Char
  | .null => ['n', 'u', 'l', 'l']
  | .bool true => ['t', 'r', 'u', 'e']
  | .bool false => ['f', 'a', 'l', 's', 'e']
  | .int n => intText n
  | .float literal => literal
  | .str s => quote s
  | .arr items => '[' :: dumpsItems items ++ [']']
  | .obj members => '{' :: dumpsMembers members ++ ['}']

def dumpsItems : List Json → List Char
  | [] => []
  | [j] => j.dumps
  | j :: l => j.dumps ++ ',' :: dumpsItems l

def dumpsMembers : List (String × Json) → List Char
  | [] => []
  | [(k, j)] => quote k ++ ':' :: j.dumps
  | (k, j) :: l => quote k ++ ':' :: j.dumps ++ ',' :: dumpsMembers l

end

/-! ## Reading numbers -/

def unsignedPart : List Char → Option (List Char × List Char)
  | [] => none
  | c :: cs =>
    if c = '0' then some (['0'], cs)
    else if c.isDigit then some (c :: cs.takeWhile Char.isDigit, cs.dropWhile Char.isDigit)
    else none

/-- The sign and the digits before the point: no zero before other digits. -/
def integerPart : List Char → Option (List Char × List Char)
  | [] => none
  | c :: cs => if c = '-' then (unsignedPart cs).map fun (digits, rest) => ('-' :: digits, rest) else unsignedPart (c :: cs)

/-- Some digits after what has been read. -/
def digitsPart (before : List Char) : List Char → Option (List Char × List Char)
  | [] => none
  | c :: cs => if c.isDigit then some (before ++ c :: cs.takeWhile Char.isDigit, cs.dropWhile Char.isDigit) else none

def fractionPart (cs : List Char) : List Char × List Char :=
  match cs with
  | [] => ([], cs)
  | c :: rest => if c = '.' then (digitsPart [c] rest).getD ([], cs) else ([], cs)

def exponentPart (cs : List Char) : List Char × List Char :=
  match cs with
  | [] => ([], cs)
  | c :: rest =>
    if c = 'e' ∨ c = 'E' then
      match rest with
      | [] => ([], cs)
      | sign :: rest' =>
        if sign = '+' ∨ sign = '-' then (digitsPart [c, sign] rest').getD ([], cs) else (digitsPart [c] rest).getD ([], cs)
    else ([], cs)

def intOf : List Char → ℤ
  | [] => 0
  | c :: cs => if c = '-' then -(Nat.ofDigitChars 10 cs 0 : ℤ) else Nat.ofDigitChars 10 (c :: cs) 0

/-- `sys.get_int_max_str_digits()`: an integer with more digits is neither written nor read. -/
def MAX_STR_DIGITS : ℕ := 4300

/-- A number: a float if it has a fraction or an exponent. -/
def number (cs : List Char) : Option (Json × List Char) :=
  (integerPart cs).bind fun (digits, rest) =>
    let (fraction, rest) := fractionPart rest
    let (exponent, rest) := exponentPart rest
    if fraction = [] ∧ exponent = [] then
      if digits.countP Char.isDigit ≤ MAX_STR_DIGITS then some (.int (intOf digits), rest) else none
    else some (.float (digits ++ fraction ++ exponent), rest)

def constants : List (List Char × Json) :=
  [(['n', 'u', 'l', 'l'], .null), (['t', 'r', 'u', 'e'], .bool true), (['f', 'a', 'l', 's', 'e'], .bool false),
    (['N', 'a', 'N'], .float ['N', 'a', 'N']),
    (['I', 'n', 'f', 'i', 'n', 'i', 't', 'y'], .float ['I', 'n', 'f', 'i', 'n', 'i', 't', 'y']),
    (['-', 'I', 'n', 'f', 'i', 'n', 'i', 't', 'y'], .float ['-', 'I', 'n', 'f', 'i', 'n', 'i', 't', 'y'])]

def scalar (cs : List Char) : Option (Json × List Char) :=
  match constants.find? fun k => k.1.isPrefixOf cs with
  | some (text, j) => some (j, cs.drop text.length)
  | none => number cs

/-! ## Reading texts -/

def hex4 : List Char → Option (ℕ × List Char)
  | a :: b :: c :: d :: rest =>
    match hexValue a, hexValue b, hexValue c, hexValue d with
    | some a, some b, some c, some d => some (((a * 16 + b) * 16 + c) * 16 + d, rest)
    | _, _, _, _ => none
  | _ => none

/-- After `\u`: two surrogates are one character; a lone one is no text, and is refused here. -/
def unicodeEscape (cs : List Char) : Option (Char × List Char) :=
  (hex4 cs).bind fun (high, rest) =>
    if 0xd800 ≤ high ∧ high ≤ 0xdbff then
      match rest with
      | '\\' :: 'u' :: rest =>
        (hex4 rest).bind fun (low, rest) =>
          if 0xdc00 ≤ low ∧ low ≤ 0xdfff then
            some (Char.ofNat (0x10000 + (high - 0xd800) * 0x400 + (low - 0xdc00)), rest)
          else none
      | _ => none
    else if 0xdc00 ≤ high ∧ high ≤ 0xdfff then none
    else some (Char.ofNat high, rest)

def unescape (c : Char) : Option Char :=
  if c = '"' ∨ c = '\\' ∨ c = '/' then some c
  else if c = 'n' then some '\n'
  else if c = 'r' then some '\r'
  else if c = 't' then some '\t'
  else if c = 'b' then some '\x08'
  else if c = 'f' then some '\x0c'
  else none

/-- One character of a text, escaped or not. -/
def stringChar : List Char → Option (Char × List Char)
  | [] => none
  | c :: cs =>
    if c = '\\' then
      match cs with
      | [] => none
      | e :: cs => if e = 'u' then unicodeEscape cs else (unescape e).map fun c => (c, cs)
    else if c.toNat < 0x20 then none
    else some (c, cs)

/-- What is left of a text after its opening quote, and what follows it. -/
def string : ℕ → List Char → Option (List Char × List Char)
  | 0, _ => none
  | fuel + 1, cs =>
    if cs.head? = some '"' then some ([], cs.tail)
    else (stringChar cs).bind fun (c, rest) => (string fuel rest).map fun (s, rest) => (c :: s, rest)

/-! ## Reading documents -/

def isWs (c : Char) : Bool := c == ' ' || c == '\t' || c == '\n' || c == '\r'

def skipWs (cs : List Char) : List Char := cs.dropWhile isWs

mutual

def value : ℕ → List Char → Option (Json × List Char)
  | 0, _ => none
  | _ + 1, [] => none
  | fuel + 1, c :: cs =>
    -- a text, an array, an object, anything else
    if c = '"' then (string (cs.length + 1) cs).map fun (s, rest) => (.str (String.ofList s), rest)
    else if c = '[' then
      if (skipWs cs).head? = some ']' then some (.arr [], (skipWs cs).tail)
      else (elements fuel (skipWs cs)).map fun (items, rest) => (.arr items, rest)
    else if c = '{' then
      if (skipWs cs).head? = some '}' then some (.obj [], (skipWs cs).tail)
      else (members fuel (skipWs cs)).map fun (entries, rest) => (.obj (Dict.ofList entries).entries, rest)
    else scalar (c :: cs)

/-- The items of an array, up to its bracket. -/
def elements : ℕ → List Char → Option (List Json × List Char)
  | 0, _ => none
  | fuel + 1, cs =>
    (value fuel cs).bind fun (j, rest) =>
      match skipWs rest with
      | ']' :: rest => some ([j], rest)
      | ',' :: rest => (elements fuel (skipWs rest)).map fun (l, rest) => (j :: l, rest)
      | _ => none

/-- The members of an object, up to its brace. -/
def members : ℕ → List Char → Option (List (String × Json) × List Char)
  | 0, _ => none
  | fuel + 1, cs =>
    if cs.head? ≠ some '"' then none
    else
      (string (cs.length + 1) cs.tail).bind fun (k, rest) =>
        match skipWs rest with
        | ':' :: rest =>
          (value fuel (skipWs rest)).bind fun (j, rest) =>
            match skipWs rest with
            | '}' :: rest => some ([(String.ofList k, j)], rest)
            | ',' :: rest => (members fuel (skipWs rest)).map fun (l, rest) => ((String.ofList k, j) :: l, rest)
            | _ => none
        | _ => none

end

/-- `loads`, of a text: `none` is its `JSONDecodeError`. -/
def loads (cs : List Char) : Option Json :=
  (value (cs.length + 1) (skipWs cs)).bind fun (j, rest) => if skipWs rest = [] then some j else none

/-! ## What can be written -/

/-- The literal of a float. -/
def IsFloat (literal : List Char) : Prop :=
  literal = ['N', 'a', 'N'] ∨ literal = ['I', 'n', 'f', 'i', 'n', 'i', 't', 'y'] ∨
    literal = ['-', 'I', 'n', 'f', 'i', 'n', 'i', 't', 'y'] ∨ number literal = some (.float literal, [])

mutual

/-- The document is one of Python's values: its objects are dictionaries, with each key once, and its
integers have digits. -/
def Proper : Json → Prop
  | .int n => (intText n).countP Char.isDigit ≤ MAX_STR_DIGITS
  | .float literal => IsFloat literal
  | .arr items => ProperItems items
  | .obj members => (members.map Prod.fst).Nodup ∧ ProperMembers members
  | _ => True

def ProperItems : List Json → Prop
  | [] => True
  | j :: l => j.Proper ∧ ProperItems l

def ProperMembers : List (String × Json) → Prop
  | [] => True
  | (_, j) :: l => j.Proper ∧ ProperMembers l

end

/-! ## Numbers are read back -/

/-- What follows a document inside another one. -/
def Stops (rest : List Char) : Prop := ∀ c ∈ rest.head?, c = ',' ∨ c = ']' ∨ c = '}'

theorem stops_nil : Stops [] := by
  rintro c hc
  cases hc

theorem stops_cons {c : Char} (h : c = ',' ∨ c = ']' ∨ c = '}') (rest : List Char) : Stops (c :: rest) := by
  rintro d hd
  cases hd
  exact h

/-- Nothing of a number can be in front there. -/
theorem Stops.head {c : Char} {rest : List Char} (h : Stops (c :: rest)) :
    c.isDigit = false ∧ c ≠ '-' ∧ c ≠ '+' ∧ c ≠ '.' ∧ c ≠ 'e' ∧ c ≠ 'E' ∧ c ≠ '0' := by
  rcases h c rfl with rfl | rfl | rfl <;> decide

/-- Digits end where the text does or before what follows it. -/
theorem span_append {cs rest : List Char} (h : Stops rest) :
    (cs ++ rest).takeWhile Char.isDigit = cs.takeWhile Char.isDigit ∧
      (cs ++ rest).dropWhile Char.isDigit = cs.dropWhile Char.isDigit ++ rest := by
  induction cs with
  | nil =>
    cases rest with
    | nil => simp
    | cons c rest => simp [h.head.1]
  | cons c cs ih => by_cases hc : c.isDigit = true <;> simp [hc, ih]

theorem digitsPart_append (before cs : List Char) {rest : List Char} (h : Stops rest) :
    digitsPart before (cs ++ rest) = (digitsPart before cs).map fun p => (p.1, p.2 ++ rest) := by
  cases cs with
  | nil =>
    cases rest with
    | nil => rfl
    | cons c rest => simp [digitsPart, h.head.1]
  | cons c cs =>
    by_cases hc : c.isDigit = true
    · simp [digitsPart, hc, span_append h]
    · simp [digitsPart, hc]

theorem unsignedPart_append (cs : List Char) {rest : List Char} (h : Stops rest) :
    unsignedPart (cs ++ rest) = (unsignedPart cs).map fun p => (p.1, p.2 ++ rest) := by
  cases cs with
  | nil =>
    cases rest with
    | nil => rfl
    | cons c rest => simp [unsignedPart, h.head]
  | cons c cs =>
    by_cases hzero : c = '0'
    · simp [unsignedPart, hzero]
    by_cases hc : c.isDigit = true
    · simp [unsignedPart, hzero, hc, span_append h]
    · simp [unsignedPart, hzero, hc]

theorem integerPart_append (cs : List Char) {rest : List Char} (h : Stops rest) :
    integerPart (cs ++ rest) = (integerPart cs).map fun p => (p.1, p.2 ++ rest) := by
  cases cs with
  | nil =>
    cases rest with
    | nil => rfl
    | cons c rest => simp [integerPart, unsignedPart, h.head]
  | cons c cs =>
    by_cases hc : c = '-'
    · simp only [integerPart, List.cons_append, hc, if_true, unsignedPart_append cs h, Option.map_map]
      rfl
    · simp only [integerPart, List.cons_append, hc, if_false]
      exact unsignedPart_append (c :: cs) h

theorem fractionPart_append (cs : List Char) {rest : List Char} (h : Stops rest) :
    fractionPart (cs ++ rest) = ((fractionPart cs).1, (fractionPart cs).2 ++ rest) := by
  cases cs with
  | nil =>
    cases rest with
    | nil => rfl
    | cons c rest => simp [fractionPart, h.head]
  | cons c cs =>
    by_cases hc : c = '.'
    · simp only [fractionPart, List.cons_append, hc, if_true, digitsPart_append _ cs h]
      cases digitsPart ['.'] cs <;> rfl
    · simp [fractionPart, hc]

theorem exponentPart_append (cs : List Char) {rest : List Char} (h : Stops rest) :
    exponentPart (cs ++ rest) = ((exponentPart cs).1, (exponentPart cs).2 ++ rest) := by
  -- no mark, a mark alone, a mark and a sign, a mark without a sign
  cases cs with
  | nil =>
    cases rest with
    | nil => rfl
    | cons c rest => simp [exponentPart, h.head]
  | cons c cs =>
    by_cases hc : c = 'e' ∨ c = 'E'
    · cases cs with
      | nil =>
        cases rest with
        | nil => simp
        | cons d rest => simp [exponentPart, hc, h.head, digitsPart]
      | cons sign cs =>
        by_cases hsign : sign = '+' ∨ sign = '-'
        · simp only [exponentPart, List.cons_append, hc, hsign, if_true, digitsPart_append _ cs h]
          cases digitsPart [c, sign] cs <;> rfl
        · have hmore := digitsPart_append [c] (sign :: cs) h
          rw [List.cons_append] at hmore
          simp only [exponentPart, List.cons_append, hc, hsign, if_true, if_false, hmore]
          cases digitsPart [c] (sign :: cs) <;> rfl
    · simp [exponentPart, hc]

/-- A number is read up to what follows it. -/
theorem number_append (cs : List Char) {rest : List Char} (h : Stops rest) :
    number (cs ++ rest) = (number cs).map fun p => (p.1, p.2 ++ rest) := by
  unfold number
  rw [integerPart_append cs h]
  cases integerPart cs with
  | none => rfl
  | some p =>
    simp only [Option.map_some, Option.bind_some, fractionPart_append _ h, exponentPart_append _ h]
    -- an integer within the limit, one beyond it, a float
    split
    · split <;> rfl
    · rfl

theorem unsignedPart_toDigits (n : ℕ) : unsignedPart (Nat.toDigits 10 n) = some (Nat.toDigits 10 n, []) := by
  rcases Nat.eq_zero_or_pos n with rfl | hn
  · rfl
  · have hhead := head_toDigits hn
    obtain ⟨d, ds, hds, hd, hmore⟩ := toDigits_eq_cons n
    rw [hds] at hhead ⊢
    have hzero : d ≠ '0' := fun heq => hhead (by rw [heq, List.head?_cons])
    rw [unsignedPart, if_neg hzero, if_pos hd, List.takeWhile_eq_self_iff.2 hmore, List.dropWhile_eq_nil_iff.2 hmore]

theorem intOf_toDigits (n : ℕ) : intOf (Nat.toDigits 10 n) = n := by
  have hread : Nat.ofDigitChars 10 (Nat.toDigits 10 n) 0 = n := Nat.ofDigitChars_ten_toDigits
  obtain ⟨d, ds, hds, hd, -⟩ := toDigits_eq_cons n
  rw [hds] at hread ⊢
  rw [intOf, if_neg (ne_of_isDigit hd rfl).symm, hread]

/-- The digits of a number are its integer part. -/
theorem integerPart_intText (n : ℤ) : integerPart (intText n) = some (intText n, []) := by
  unfold intText
  split
  · rw [integerPart, if_pos rfl, unsignedPart_toDigits, Option.map_some]
  · have hread := unsignedPart_toDigits n.natAbs
    obtain ⟨d, ds, hds, hd, -⟩ := toDigits_eq_cons n.natAbs
    rw [hds] at hread ⊢
    rw [integerPart, if_neg (ne_of_isDigit hd rfl).symm, hread]

theorem intOf_intText (n : ℤ) : intOf (intText n) = n := by
  unfold intText
  split
  · have hread : Nat.ofDigitChars 10 (Nat.toDigits 10 n.natAbs) 0 = n.natAbs := Nat.ofDigitChars_ten_toDigits
    rw [intOf, if_pos rfl, hread]
    omega
  · rw [intOf_toDigits]
    omega

theorem number_intText {n : ℤ} (h : (Json.int n).Proper) : number (intText n) = some (.int n, []) := by
  rw [Proper] at h
  unfold number
  rw [integerPart_intText, Option.bind_some]
  simpa [fractionPart, exponentPart, intOf_intText] using h

/-! ## Texts are read back -/

theorem hex4_hexPadded {n : ℕ} (h : n < 16 ^ 4) (rest : List Char) : hex4 (hexPadded 4 n ++ rest) = some (n, rest) := by
  have hdigit : ∀ m, hexValue (Nat.digitChar (m % 16)) = some (m % 16) := fun m => hexValue_digitChar (Nat.mod_lt m (by decide))
  simp only [hexPadded, List.nil_append, List.cons_append, hex4, hdigit]
  congr 2
  omega

/-- A character is read back from its escape. -/
theorem stringChar_escapeChar (c : Char) (rest : List Char) : stringChar (escapeChar c ++ rest) = some (c, rest) := by
  unfold escapeChar
  -- the characters with a letter of their own
  iterate 7
    split
    · rename_i hc
      subst hc
      rfl
  split
  · rename_i hc
    -- a control character is no surrogate
    have hhigh : ¬(0xd800 ≤ c.toNat ∧ c.toNat ≤ 0xdbff) := by omega
    have hlow : ¬(0xdc00 ≤ c.toNat ∧ c.toNat ≤ 0xdfff) := by omega
    simp only [List.cons_append, stringChar, if_true, unicodeEscape, hex4_hexPadded (show c.toNat < 16 ^ 4 by omega),
      Option.bind_some, hhigh, hlow, if_false, Char.ofNat_toNat]
  · rename_i hslash _ _ _ _ _ hc
    simp only [List.cons_append, List.nil_append, stringChar, hslash, hc, if_false]

/-- An escape is a backslash and more, or the character itself, which is no quote. -/
theorem escapeChar_cases (c : Char) : (∃ more, escapeChar c = '\\' :: more) ∨ (c ≠ '"' ∧ escapeChar c = [c]) := by
  unfold escapeChar
  by_cases hquote : c = '"'
  · exact .inl ⟨_, if_pos hquote⟩
  · rw [if_neg hquote]
    split_ifs
    case neg => exact .inr ⟨hquote, rfl⟩
    all_goals exact .inl ⟨_, rfl⟩

/-- Only the closing quote is one. -/
theorem head_escapeChar (c : Char) (rest : List Char) : (escapeChar c ++ rest).head? ≠ some '"' := by
  rcases escapeChar_cases c with ⟨more, hescape⟩ | ⟨hquote, hescape⟩
  · simp [hescape]
  · simp [hescape, hquote]

theorem escapeChar_ne_nil (c : Char) : escapeChar c ≠ [] := by
  intro h
  have hread := stringChar_escapeChar c []
  rw [h] at hread
  cases hread

theorem length_le_flatMap (s : List Char) : s.length ≤ (s.flatMap escapeChar).length := by
  induction s with
  | nil => exact Nat.le_refl _
  | cons c s ih =>
    have hpos := List.length_pos_iff.2 (escapeChar_ne_nil c)
    rw [List.flatMap_cons, List.length_append, List.length_cons]
    omega

theorem string_flatMap {s : List Char} {fuel : ℕ} (h : s.length < fuel) (rest : List Char) :
    string fuel (s.flatMap escapeChar ++ '"' :: rest) = some (s, rest) := by
  induction s generalizing fuel with
  | nil =>
    cases fuel with
    | zero => cases h
    | succ fuel => simp [string]
  | cons c s ih =>
    cases fuel with
    | zero => cases h
    | succ fuel =>
      have hmore := ih (Nat.lt_of_succ_lt_succ h)
      rw [List.flatMap_cons, List.append_assoc, string, if_neg (head_escapeChar c _), stringChar_escapeChar]
      simp only [Option.bind_some, hmore, Option.map_some]

/-- A text is read back after its opening quote. -/
theorem string_quote (s : String) (rest : List Char) {fuel : ℕ}
    (h : (s.toList.flatMap escapeChar ++ '"' :: rest).length < fuel) :
    string fuel (s.toList.flatMap escapeChar ++ '"' :: rest) = some (s.toList, rest) := by
  refine string_flatMap ?_ rest
  have hle := length_le_flatMap s.toList
  rw [List.length_append] at h
  omega

/-! ## Documents are read back -/

/-- What a number starts with. -/
def StartsNumber : List Char → Prop
  | [] => False
  | c :: cs => c.isDigit = true ∨ (c = '-' ∧ ∃ d ∈ cs.head?, d.isDigit = true)

theorem startsNumber_of_number {cs rest : List Char} {j : Json} (h : number cs = some (j, rest)) : StartsNumber cs := by
  have hunsigned : ∀ {cs p}, unsignedPart cs = some p → ∃ c ∈ cs.head?, c.isDigit = true := by
    intro cs p hp
    cases cs with
    | nil => cases hp
    | cons c cs =>
      refine ⟨c, rfl, ?_⟩
      by_contra hc
      have hzero : c ≠ '0' := by
        rintro rfl
        exact hc rfl
      rw [unsignedPart, if_neg hzero, if_neg hc] at hp
      cases hp
  obtain ⟨p, hp, -⟩ := Option.bind_eq_some_iff.1 h
  cases cs with
  | nil => cases hp
  | cons c cs =>
    rw [integerPart] at hp
    split at hp
    · rename_i hc
      obtain ⟨q, hq, -⟩ := Option.map_eq_some_iff.1 hp
      exact .inr ⟨hc, hunsigned hq⟩
    · obtain ⟨d, hd, hdigit⟩ := hunsigned hp
      cases hd
      exact .inl hdigit

/-- No constant starts like a number. -/
theorem scalar_eq_number {cs : List Char} (h : StartsNumber cs) : scalar cs = number cs := by
  have hconst : constants.find? (fun k => k.1.isPrefixOf cs) = none := by
    cases cs with
    | nil => cases h
    | cons c cs =>
      rcases h with hc | ⟨rfl, d, hd, hdigit⟩
      · have hn := ne_of_isDigit hc (d := 'n') rfl
        have ht := ne_of_isDigit hc (d := 't') rfl
        have hf := ne_of_isDigit hc (d := 'f') rfl
        have hN := ne_of_isDigit hc (d := 'N') rfl
        have hI := ne_of_isDigit hc (d := 'I') rfl
        have hminus := ne_of_isDigit hc (d := '-') rfl
        simp [constants, List.isPrefixOf, hn, ht, hf, hN, hI, hminus]
      · cases cs with
        | nil => cases hd
        | cons e cs =>
          cases hd
          simp [constants, List.isPrefixOf, ne_of_isDigit hdigit (d := 'I') rfl]
  rw [scalar, hconst]

/-- Nor does another document. -/
theorem value_eq_number {cs : List Char} (h : StartsNumber cs) (fuel : ℕ) : value (fuel + 1) cs = number cs := by
  cases cs with
  | nil => cases h
  | cons c cs =>
    have hother : c ≠ '"' ∧ c ≠ '[' ∧ c ≠ '{' := by
      rcases h with hc | ⟨rfl, -⟩
      · exact ⟨(ne_of_isDigit hc rfl).symm, (ne_of_isDigit hc rfl).symm, (ne_of_isDigit hc rfl).symm⟩
      · decide
    rw [value, if_neg hother.1, if_neg hother.2.1, if_neg hother.2.2, scalar_eq_number h]

theorem number_number_append {cs rest : List Char} {j : Json} (h : number cs = some (j, [])) (hrest : Stops rest) :
    number (cs ++ rest) = some (j, rest) := by
  rw [number_append cs hrest, h]
  rfl

/-- A number is read by `value`. -/
theorem value_number {cs rest : List Char} {j : Json} (h : number cs = some (j, [])) (hrest : Stops rest) (fuel : ℕ) :
    value (fuel + 1) (cs ++ rest) = some (j, rest) := by
  have hread := number_number_append h hrest
  rw [value_eq_number (startsNumber_of_number hread), hread]

/-- What a document is written as starts with neither white space nor a closing bracket. -/
theorem head_dumps {j : Json} (h : j.Proper) : ∃ c ∈ j.dumps.head?, isWs c = false ∧ c ≠ ']' := by
  have hnumber : ∀ {cs : List Char}, StartsNumber cs → ∃ c ∈ cs.head?, isWs c = false ∧ c ≠ ']' := by
    intro cs hcs
    cases cs with
    | nil => cases hcs
    | cons c cs =>
      refine ⟨c, rfl, ?_⟩
      rcases hcs with hc | ⟨rfl, -⟩
      · unfold isWs
        simp [(ne_of_isDigit hc (d := ' ') rfl).symm, (ne_of_isDigit hc (d := '\t') rfl).symm, (ne_of_isDigit hc (d := '\n') rfl).symm,
          (ne_of_isDigit hc (d := '\r') rfl).symm, (ne_of_isDigit hc (d := ']') rfl).symm]
      · decide
  cases j with
  | null => exact ⟨'n', rfl, by decide⟩
  | bool b =>
    cases b with
    | true => exact ⟨'t', rfl, by decide⟩
    | false => exact ⟨'f', rfl, by decide⟩
  | int n => exact hnumber (startsNumber_of_number (number_intText h))
  | float literal =>
    rcases h with rfl | rfl | rfl | hread
    · exact ⟨'N', rfl, by decide⟩
    · exact ⟨'I', rfl, by decide⟩
    · exact ⟨'-', rfl, by decide⟩
    · exact hnumber (startsNumber_of_number hread)
  | str s => exact ⟨'"', rfl, by decide⟩
  | arr items => exact ⟨'[', rfl, by decide⟩
  | obj members => exact ⟨'{', rfl, by decide⟩

theorem length_dumps_pos {j : Json} (h : j.Proper) : 0 < j.dumps.length := by
  obtain ⟨c, hc, -⟩ := head_dumps h
  exact List.length_pos_of_mem (List.mem_of_mem_head? hc)

theorem skipWs_dumps {j : Json} (h : j.Proper) (rest : List Char) :
    skipWs (j.dumps ++ rest) = j.dumps ++ rest ∧ (j.dumps ++ rest).head? ≠ some ']' := by
  obtain ⟨c, hc, hws, hbracket⟩ := head_dumps h
  cases hj : j.dumps with
  | nil =>
    rw [hj] at hc
    cases hc
  | cons d ds =>
    rw [hj] at hc
    cases hc
    constructor
    · simp [skipWs, hws]
    · simpa using hbracket

theorem skipWs_dumpsItems {j : Json} (h : j.Proper) (l : List Json) (rest : List Char) :
    skipWs (dumpsItems (j :: l) ++ rest) = dumpsItems (j :: l) ++ rest ∧ (dumpsItems (j :: l) ++ rest).head? ≠ some ']' := by
  cases l with
  | nil => exact skipWs_dumps h rest
  | cons j' l =>
    rw [dumpsItems, List.append_assoc]
    · exact skipWs_dumps h _
    · rintro ⟨⟩

theorem head_dumpsMembers (m : String × Json) (l : List (String × Json)) : (dumpsMembers (m :: l)).head? = some '"' := by
  cases l with
  | nil => rfl
  | cons m' l => rfl

theorem skipWs_dumpsMembers (m : String × Json) (l : List (String × Json)) (rest : List Char) :
    skipWs (dumpsMembers (m :: l) ++ rest) = dumpsMembers (m :: l) ++ rest ∧
      (dumpsMembers (m :: l) ++ rest).head? = some '"' := by
  have hhead := head_dumpsMembers m l
  cases hd : dumpsMembers (m :: l) with
  | nil =>
    rw [hd] at hhead
    cases hhead
  | cons c cs =>
    rw [hd] at hhead
    cases hhead
    exact ⟨rfl, rfl⟩

theorem quote_append (s : String) (rest : List Char) : quote s ++ rest = '"' :: (s.toList.flatMap escapeChar ++ '"' :: rest) := by
  simp [quote]

theorem dumps_arr_append (items : List Json) (rest : List Char) :
    (Json.arr items).dumps ++ rest = '[' :: (dumpsItems items ++ ']' :: rest) := by
  simp [dumps]

theorem dumps_obj_append (members : List (String × Json)) (rest : List Char) :
    (Json.obj members).dumps ++ rest = '{' :: (dumpsMembers members ++ '}' :: rest) := by
  simp [dumps]

theorem dumpsItems_append (j j' : Json) (l : List Json) (rest : List Char) :
    dumpsItems (j :: j' :: l) ++ rest = j.dumps ++ ',' :: (dumpsItems (j' :: l) ++ rest) := by
  simp [dumpsItems]

theorem dumpsMembers_append (k : String) (j : Json) (m : String × Json) (l : List (String × Json)) (rest : List Char) :
    dumpsMembers ((k, j) :: m :: l) ++ rest = quote k ++ ':' :: (j.dumps ++ ',' :: (dumpsMembers (m :: l) ++ rest)) := by
  simp [dumpsMembers]

mutual

/-- What is written is read back; each step down or along the text takes one of the fuel. -/
theorem value_dumps : ∀ (j : Json), j.Proper → ∀ {fuel : ℕ} {rest : List Char}, j.dumps.length ≤ fuel → Stops rest →
    value fuel (j.dumps ++ rest) = some (j, rest)
  | j, hj, 0, _, hfuel, _ => absurd (length_dumps_pos hj) (by omega)
  | .null, _, fuel + 1, rest, _, _ => rfl
  | .bool true, _, fuel + 1, rest, _, _ => rfl
  | .bool false, _, fuel + 1, rest, _, _ => rfl
  | .int n, hj, fuel + 1, rest, _, hrest => value_number (number_intText hj) hrest fuel
  | .float literal, hj, fuel + 1, rest, _, hrest => by
    rcases hj with rfl | rfl | rfl | hread
    · rfl
    · rfl
    · rfl
    · exact value_number hread hrest fuel
  | .str s, _, fuel + 1, rest, _, _ => by
    have hread := string_quote s rest (Nat.lt_succ_self _)
    rw [dumps, quote_append, value, if_pos rfl, hread, Option.map_some]
    simp only [String.ofList_toList]
  | .arr [], _, fuel + 1, rest, _, _ => rfl
  | .arr (j :: l), hj, fuel + 1, rest, hfuel, _ => by
    obtain ⟨hskip, hbracket⟩ := skipWs_dumpsItems hj.1 l (']' :: rest)
    have hlen : (dumpsItems (j :: l)).length + 1 ≤ fuel := by simpa [dumps] using hfuel
    have hread := elements_dumpsItems j l hj.1 hj.2 hlen rest
    rw [dumps_arr_append, value, if_neg (by decide), if_pos rfl, hskip, if_neg hbracket, hread]
    rfl
  | .obj [], _, fuel + 1, rest, _, _ => rfl
  | .obj ((k, j) :: l), hj, fuel + 1, rest, hfuel, _ => by
    obtain ⟨hskip, hquote⟩ := skipWs_dumpsMembers (k, j) l ('}' :: rest)
    have hlen : (dumpsMembers ((k, j) :: l)).length + 1 ≤ fuel := by simpa [dumps] using hfuel
    have hread := members_dumpsMembers k j l hj.2.1 hj.2.2 hlen rest
    have hbrace : (dumpsMembers ((k, j) :: l) ++ '}' :: rest).head? ≠ some '}' := by
      rw [hquote]
      decide
    rw [dumps_obj_append, value, if_neg (by decide), if_neg (by decide), if_pos rfl, hskip, if_neg hbrace, hread, Option.map_some]
    simp only [Dict.entries_ofList hj.1]

theorem elements_dumpsItems : ∀ (j : Json) (l : List Json), j.Proper → ProperItems l → ∀ {fuel : ℕ},
    (dumpsItems (j :: l)).length < fuel → ∀ rest : List Char,
      elements fuel (dumpsItems (j :: l) ++ ']' :: rest) = some (j :: l, rest)
  | _, _, _, _, 0, hfuel, _ => absurd hfuel (Nat.not_lt_zero _)
  | j, [], hj, _, fuel + 1, hfuel, rest => by
    have hread := value_dumps j hj (Nat.le_of_lt_succ hfuel) (stops_cons (c := ']') (by decide) rest)
    rw [dumpsItems, elements, hread]
    rfl
  | j, j' :: l, hj, hl, fuel + 1, hfuel, rest => by
    have hlen := congrArg List.length (dumpsItems_append j j' l [])
    simp only [List.append_nil, List.length_append, List.length_cons] at hlen
    have hread := value_dumps j hj (show j.dumps.length ≤ fuel by omega)
      (stops_cons (c := ',') (by decide) (dumpsItems (j' :: l) ++ ']' :: rest))
    have hmore := elements_dumpsItems j' l hl.1 hl.2 (show (dumpsItems (j' :: l)).length < fuel by omega) rest
    have hskip := (skipWs_dumpsItems hl.1 l (']' :: rest)).1
    rw [dumpsItems_append, elements, hread]
    show (elements fuel (skipWs (dumpsItems (j' :: l) ++ ']' :: rest))).map (fun p => (j :: p.1, p.2)) = _
    rw [hskip, hmore, Option.map_some]

theorem members_dumpsMembers : ∀ (k : String) (j : Json) (l : List (String × Json)), j.Proper → ProperMembers l → ∀ {fuel : ℕ},
    (dumpsMembers ((k, j) :: l)).length < fuel → ∀ rest : List Char,
      members fuel (dumpsMembers ((k, j) :: l) ++ '}' :: rest) = some ((k, j) :: l, rest)
  | _, _, _, _, _, 0, hfuel, _ => absurd hfuel (Nat.not_lt_zero _)
  | k, j, [], hj, _, fuel + 1, hfuel, rest => by
    have hlen : (quote k).length + (j.dumps.length + 1) < fuel + 1 := by simpa [dumpsMembers] using hfuel
    have hkey := string_quote k (':' :: (j.dumps ++ '}' :: rest)) (Nat.lt_succ_of_lt (Nat.lt_succ_self _))
    have hread := value_dumps j hj (show j.dumps.length ≤ fuel by omega) (stops_cons (c := '}') (by decide) rest)
    have htext : dumpsMembers [(k, j)] ++ '}' :: rest = quote k ++ ':' :: (j.dumps ++ '}' :: rest) := by simp [dumpsMembers]
    rw [htext, quote_append, members, if_neg (fun h => h rfl), List.tail_cons, List.length_cons, hkey]
    show (value fuel (skipWs (j.dumps ++ '}' :: rest))).bind _ = _
    rw [(skipWs_dumps hj _).1, hread]
    -- the brace ends the object
    simp [skipWs, isWs]
  | k, j, (k', j') :: l, hj, hl, fuel + 1, hfuel, rest => by
    have hlen := congrArg List.length (dumpsMembers_append k j (k', j') l [])
    simp only [List.append_nil, List.length_append, List.length_cons] at hlen
    have hkey := string_quote k (':' :: (j.dumps ++ ',' :: (dumpsMembers ((k', j') :: l) ++ '}' :: rest)))
      (Nat.lt_succ_of_lt (Nat.lt_succ_self _))
    have hread := value_dumps j hj (show j.dumps.length ≤ fuel by omega)
      (stops_cons (c := ',') (by decide) (dumpsMembers ((k', j') :: l) ++ '}' :: rest))
    have hmore := members_dumpsMembers k' j' l hl.1 hl.2 (show (dumpsMembers ((k', j') :: l)).length < fuel by omega) rest
    rw [dumpsMembers_append, quote_append, members, if_neg (fun h => h rfl), List.tail_cons, List.length_cons, hkey]
    show (value fuel (skipWs (j.dumps ++ ',' :: (dumpsMembers ((k', j') :: l) ++ '}' :: rest)))).bind _ = _
    rw [(skipWs_dumps hj _).1, hread]
    show (members fuel (skipWs (dumpsMembers ((k', j') :: l) ++ '}' :: rest))).map _ = _
    rw [(skipWs_dumpsMembers ..).1, hmore, Option.map_some, String.ofList_toList]

end

/-- What is written is read back. -/
theorem loads_dumps {j : Json} (h : j.Proper) : loads j.dumps = some j := by
  have hread := value_dumps j h (Nat.le_succ _) stops_nil
  rw [List.append_nil] at hread
  have hskip := (skipWs_dumps h []).1
  rw [List.append_nil] at hskip
  rw [loads, hskip, hread]
  rfl

example : (loads "\x7b \"a\" : [1, -2.50e3 ], \"\\u0062\\n\":null\x7d".toList).map dumps =
    some "\x7b\"a\":[1,-2.50e3],\"b\\n\":null\x7d".toList := by
  decide +kernel

end Json

end Plantkeeper
