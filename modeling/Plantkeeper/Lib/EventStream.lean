/-
The event stream format (`text/event-stream`) as an event source reads it, one character at a time: lines
end in LF, CR or both, a line is a comment or a field, and an empty line dispatches what the fields before
it made. A source that opens the stream again starts with the identifier it saw last. What is dispatched
changes at the empty lines only, so a stream that is cut anywhere is read as one cut after some frame.
-/
import Mathlib.Data.List.Basic
import Mathlib.Data.Nat.Notation

namespace Plantkeeper.EventStream

structure Message where
  kind : List Char
  data : List Char
  lastEventId : List Char
  deriving DecidableEq, Repr

structure Reader where
  line : List Char
  afterCr : Bool
  data : List Char
  kind : List Char
  idBuffer : List Char
  lastEventId : List Char
  retry : Option ℕ
  messages : List Message
  deriving DecidableEq, Repr

namespace Reader

/-- A source that has read nothing yet. -/
def fresh : Reader := ⟨[], false, [], [], [], [], none, []⟩

/-- The source opens the stream again; what was read half is discarded. -/
def reopen (r : Reader) : Reader :=
  { r with line := [], afterCr := false, data := [], kind := [], idBuffer := r.lastEventId }

/-! ## Reading -/

def field (r : Reader) (name value : List Char) : Reader :=
  if name = ['e', 'v', 'e', 'n', 't'] then { r with kind := value }
  else if name = ['d', 'a', 't', 'a'] then { r with data := r.data ++ (value ++ ['\n']) }
  else if name = ['i', 'd'] then if Char.ofNat 0 ∈ value then r else { r with idBuffer := value }
  else if name = ['r', 'e', 't', 'r', 'y'] then
    if value.all Char.isDigit then { r with retry := some (Nat.ofDigitChars 10 value 0) } else r
  else r

/-- An event without data is no message. -/
def dispatch (r : Reader) : Reader :=
  if r.data = [] then { r with lastEventId := r.idBuffer, kind := [] }
  else
    { r with
      lastEventId := r.idBuffer, data := [], kind := []
      messages := r.messages ++
        [⟨if r.kind = [] then ['m', 'e', 's', 's', 'a', 'g', 'e'] else r.kind, r.data.dropLast, r.idBuffer⟩] }

/-- A value loses one space after the colon. -/
def afterColon : List Char → List Char
  | ':' :: ' ' :: value => value
  | ':' :: value => value
  | _ => []

def interpret (r : Reader) (line : List Char) : Reader :=
  match line with
  | [] => r.dispatch
  | ':' :: _ => r
  | line => r.field (line.takeWhile (· ≠ ':')) (afterColon (line.dropWhile (· ≠ ':')))

def feed (r : Reader) (c : Char) : Reader :=
  if c = '\n' ∧ r.afterCr then { r with afterCr := false }
  else if c = '\n' ∨ c = '\r' then { r with line := [], afterCr := c == '\r' }.interpret r.line
  else { r with line := r.line ++ [c], afterCr := false }

def read (r : Reader) (text : List Char) : Reader := text.foldl feed r

/-- What the page sees. -/
def seen (r : Reader) : List Message × List Char := (r.messages, r.lastEventId)

/-- No line is begun. -/
def AtLine (r : Reader) : Prop := r.line = [] ∧ r.afterCr = false

/-- Nothing waits for an empty line. -/
structure Idle (r : Reader) : Prop where
  atLine : r.AtLine
  data : r.data = []
  kind : r.kind = []
  idBuffer : r.idBuffer = r.lastEventId

theorem fresh_idle : fresh.Idle := ⟨⟨rfl, rfl⟩, rfl, rfl, rfl⟩

theorem reopen_idle (r : Reader) : r.reopen.Idle := ⟨⟨rfl, rfl⟩, rfl, rfl, rfl⟩

@[simp] theorem reopen_seen (r : Reader) : r.reopen.seen = r.seen := rfl

@[simp] theorem read_nil (r : Reader) : r.read [] = r := rfl

theorem read_append (r : Reader) (s t : List Char) : r.read (s ++ t) = (r.read s).read t := List.foldl_append

/-! ## Lines -/

/-- A line's text holds no line end. -/
def Unbroken (line : List Char) : Prop := ∀ c ∈ line, c ≠ '\n' ∧ c ≠ '\r'

theorem field_frame (r : Reader) (name value : List Char) :
    (r.field name value).line = r.line ∧ (r.field name value).afterCr = r.afterCr ∧ (r.field name value).seen = r.seen := by
  unfold field
  split_ifs <;> exact ⟨rfl, rfl, rfl⟩

theorem dispatch_frame (r : Reader) : r.dispatch.line = r.line ∧ r.dispatch.afterCr = r.afterCr := by
  unfold dispatch
  split_ifs <;> exact ⟨rfl, rfl⟩

theorem interpret_frame (r : Reader) (line : List Char) :
    (r.interpret line).line = r.line ∧ (r.interpret line).afterCr = r.afterCr := by
  unfold interpret
  split
  · exact dispatch_frame r
  · exact ⟨rfl, rfl⟩
  · exact ⟨(field_frame r _ _).1, (field_frame r _ _).2.1⟩

theorem interpret_atLine {r : Reader} (h : r.AtLine) (line : List Char) : (r.interpret line).AtLine := by
  obtain ⟨hline, hcr⟩ := interpret_frame r line
  exact ⟨hline.trans h.1, hcr.trans h.2⟩

/-- A line with a character in it dispatches nothing. -/
theorem seen_interpret {line : List Char} (h : line ≠ []) (r : Reader) : (r.interpret line).seen = r.seen := by
  unfold interpret
  split
  · exact absurd rfl h
  · rfl
  · exact (field_frame r _ _).2.2

theorem read_unbroken {r : Reader} {text : List Char} (hcr : r.afterCr = false) (h : Unbroken text) :
    r.read text = { r with line := r.line ++ text } := by
  induction text generalizing r with
  | nil => simp
  | cons c cs ih =>
    obtain ⟨⟨hn, hr⟩, hcs⟩ := List.forall_mem_cons.1 h
    have hfeed : r.feed c = { r with line := r.line ++ [c], afterCr := false } := by
      simp [feed, hn, hr]
    rw [read, List.foldl_cons, hfeed]
    refine (ih rfl hcs).trans ?_
    simp [← hcr]

/-- A line and its end. -/
theorem read_line {r : Reader} {line : List Char} (hr : r.AtLine) (h : Unbroken line) :
    r.read (line ++ ['\n']) = r.interpret line := by
  obtain ⟨hline, hcr⟩ := hr
  have hback : { r with line := [], afterCr := false } = r := by rw [← hline, ← hcr]
  rw [read_append, read_unbroken hcr h, hline, List.nil_append]
  simp [read, feed, hcr, hback]

theorem read_lines {r : Reader} {lines : List (List Char)} (hr : r.AtLine) (h : ∀ l ∈ lines, Unbroken l) :
    r.read (lines.flatMap (· ++ ['\n'])) = lines.foldl interpret r := by
  induction lines generalizing r with
  | nil => rfl
  | cons l ls ih =>
    obtain ⟨hl, hls⟩ := List.forall_mem_cons.1 h
    rw [List.flatMap_cons, read_append, read_line hr hl]
    exact ih (interpret_atLine hr l) hls

/-! ## Fields -/

/-- A field as it is written, with a space after the colon. -/
theorem interpret_field {name : List Char} (hne : name ≠ []) (hcolon : ':' ∉ name) (r : Reader) (value : List Char) :
    r.interpret (name ++ ':' :: ' ' :: value) = r.field name value := by
  obtain ⟨c, cs, rfl⟩ := List.exists_cons_of_ne_nil hne
  have hc : c ≠ ':' := fun h => hcolon (h ▸ List.mem_cons_self)
  have hall : ∀ d ∈ c :: cs, decide (d ≠ ':') = true := fun d hd => decide_eq_true fun h => hcolon (h ▸ hd)
  have htake : (c :: cs ++ ':' :: ' ' :: value).takeWhile (· ≠ ':') = c :: cs := by
    rw [List.takeWhile_append_of_pos hall]
    simp
  have hdrop : (c :: cs ++ ':' :: ' ' :: value).dropWhile (· ≠ ':') = ':' :: ' ' :: value := by
    rw [List.dropWhile_append_of_pos hall]
    simp
  unfold interpret
  split
  · rename_i h
    cases h
  · rename_i h
    exact absurd (List.cons.inj h).1 hc
  · rw [htake, hdrop]
    rfl

theorem unbroken_field {name value : List Char} (hname : Unbroken name) (hvalue : Unbroken value) :
    Unbroken (name ++ ':' :: ' ' :: value) := by
  intro c hc
  simp only [List.mem_append, List.mem_cons] at hc
  rcases hc with hc | rfl | rfl | hc
  · exact hname c hc
  · decide
  · decide
  · exact hvalue c hc

/-- Data lines are put together again with a line feed after each. -/
theorem foldl_data (r : Reader) (lines : List (List Char)) :
    (lines.map fun l => ['d', 'a', 't', 'a'] ++ ':' :: ' ' :: l).foldl interpret r =
      { r with data := r.data ++ lines.flatMap (· ++ ['\n']) } := by
  induction lines generalizing r with
  | nil => simp
  | cons l ls ih =>
    rw [List.map_cons, List.foldl_cons, interpret_field (by decide) (by decide), ih]
    simp [field]

end Reader

open Reader

/-! ## Frames -/

/-- What a server writes at a time: lines, each with something in it, and an empty line. -/
structure Frame where
  lines : List (List Char)
  nonempty : ∀ l ∈ lines, l ≠ []
  unbroken : ∀ l ∈ lines, Unbroken l

def Frame.text (f : Frame) : List Char := f.lines.flatMap (· ++ ['\n']) ++ ['\n']

/-- What a frame makes of a reader. -/
def Reader.take (r : Reader) (f : Frame) : Reader := (f.lines.foldl interpret r).dispatch

theorem foldl_interpret_atLine {r : Reader} (h : r.AtLine) (lines : List (List Char)) : (lines.foldl interpret r).AtLine := by
  induction lines generalizing r with
  | nil => exact h
  | cons l ls ih => exact ih (interpret_atLine h l)

theorem take_atLine {r : Reader} (h : r.AtLine) (f : Frame) : (r.take f).AtLine := by
  obtain ⟨hline, hcr⟩ := dispatch_frame (f.lines.foldl interpret r)
  obtain ⟨hl, hc⟩ := foldl_interpret_atLine h f.lines
  exact ⟨hline.trans hl, hcr.trans hc⟩

/-- After a frame nothing waits. -/
theorem take_idle {r : Reader} (h : r.AtLine) (f : Frame) : (r.take f).Idle := by
  refine ⟨take_atLine h f, ?_, ?_, ?_⟩ <;> unfold Reader.take dispatch <;> split_ifs <;> first | rfl | assumption

theorem read_frame {r : Reader} (h : r.AtLine) (f : Frame) : r.read f.text = r.take f := by
  have hat := foldl_interpret_atLine h f.lines
  have hempty : Unbroken [] := by simp [Unbroken]
  rw [Frame.text, read_append, read_lines h f.unbroken]
  exact read_line hat hempty

theorem read_frames {r : Reader} (h : r.AtLine) (fs : List Frame) : r.read (fs.flatMap Frame.text) = fs.foldl Reader.take r := by
  induction fs generalizing r with
  | nil => rfl
  | cons f fs ih =>
    rw [List.flatMap_cons, read_append, read_frame h]
    exact ih (take_atLine h f)

/-! ## A stream that is cut -/

/-- A beginning of a text that goes on ends in its first part or takes all of it. -/
theorem isPrefix_append_cases {α : Type*} {cut front rest : List α} (h : cut <+: front ++ rest) :
    cut <+: front ∨ ∃ more, cut = front ++ more ∧ more <+: rest := by
  rcases List.prefix_or_prefix_of_prefix h (List.prefix_append front rest) with hshort | ⟨more, rfl⟩
  · exact .inl hshort
  · exact .inr ⟨more, rfl, (List.prefix_append_right_inj front).1 h⟩

theorem unbroken_of_isPrefix {cut line : List Char} (h : cut <+: line) (hline : Unbroken line) : Unbroken cut :=
  fun c hc => hline c (h.subset hc)

theorem seen_read_unbroken {r : Reader} {text : List Char} (hr : r.AtLine) (h : Unbroken text) : (r.read text).seen = r.seen := by
  rw [read_unbroken hr.2 h]
  rfl

/-- Within the lines of a frame nothing is dispatched. -/
theorem seen_read_lines {lines : List (List Char)} (hne : ∀ l ∈ lines, l ≠ []) (hun : ∀ l ∈ lines, Unbroken l) :
    ∀ {r : Reader} {cut : List Char}, r.AtLine → cut <+: lines.flatMap (· ++ ['\n']) → (r.read cut).seen = r.seen := by
  induction lines with
  | nil =>
    intro r cut _ h
    rw [List.prefix_nil.1 h, read_nil]
  | cons l ls ih =>
    intro r cut hr h
    obtain ⟨hl, hls⟩ := List.forall_mem_cons.1 hne
    obtain ⟨hul, huls⟩ := List.forall_mem_cons.1 hun
    rw [List.flatMap_cons] at h
    rcases isPrefix_append_cases h with hfirst | ⟨more, rfl, hmore⟩
    · rcases List.prefix_concat_iff.1 hfirst with rfl | hin
      · rw [read_line hr hul, seen_interpret hl]
      · exact seen_read_unbroken hr (unbroken_of_isPrefix hin hul)
    · rw [read_append, read_line hr hul, ih hls huls (interpret_atLine hr l) hmore, seen_interpret hl]

/-- A frame that is cut is all there or has done nothing. -/
theorem seen_read_frame {r : Reader} {f : Frame} {cut : List Char} (hr : r.AtLine) (h : cut <+: f.text) :
    cut = f.text ∨ (r.read cut).seen = r.seen := by
  rcases List.prefix_concat_iff.1 h with hall | hlines
  · exact .inl hall
  · exact .inr (seen_read_lines f.nonempty f.unbroken hr hlines)

/-- However a stream is cut, what is seen of it is what some of its frames, from the first on, make. -/
theorem seen_read_cut {fs : List Frame} : ∀ {r : Reader} {cut : List Char}, r.AtLine → cut <+: fs.flatMap Frame.text →
    ∃ k ≤ fs.length, (r.read cut).seen = ((fs.take k).foldl Reader.take r).seen := by
  induction fs with
  | nil =>
    intro r cut _ h
    rw [List.flatMap_nil, List.prefix_nil] at h
    exact ⟨0, Nat.le_refl _, by rw [h]; rfl⟩
  | cons f fs ih =>
    intro r cut hr h
    rw [List.flatMap_cons] at h
    rcases isPrefix_append_cases h with hfirst | ⟨more, rfl, hmore⟩
    · rcases seen_read_frame hr hfirst with rfl | hsame
      · exact ⟨1, by simp, by rw [read_frame hr]; rfl⟩
      · exact ⟨0, by simp, by rw [hsame]; rfl⟩
    · obtain ⟨k, hk, hseen⟩ := ih (take_atLine hr f) hmore
      refine ⟨k + 1, by simpa using hk, ?_⟩
      rw [read_append, read_frame hr, hseen]
      rfl

/-! ## Events -/

/-- Joined lines with a line feed after each have one at the end that joining does not put there. -/
theorem dropLast_flatMap {lines : List (List Char)} (h : lines ≠ []) :
    (lines.flatMap (· ++ ['\n'])).dropLast = ['\n'].intercalate lines := by
  induction lines with
  | nil => exact absurd rfl h
  | cons l ls ih =>
    cases ls with
    | nil => simp
    | cons l' ls =>
      have hne : (l' :: ls).flatMap (· ++ ['\n']) ≠ [] := by simp
      rw [List.flatMap_cons, List.dropLast_append_of_ne_nil hne, ih (by simp), List.intercalate_cons_cons]

/-- An event: its identifier, its kind and its data, line by line. -/
def Frame.event (id kind : List Char) (data : List (List Char)) (hid : Unbroken id) (hkind : Unbroken kind)
    (hdata : ∀ l ∈ data, Unbroken l) : Frame where
  lines := (['i', 'd'] ++ ':' :: ' ' :: id) :: (['e', 'v', 'e', 'n', 't'] ++ ':' :: ' ' :: kind) ::
    data.map fun l => ['d', 'a', 't', 'a'] ++ ':' :: ' ' :: l
  nonempty := by simp
  unbroken := by
    intro l hl
    simp only [List.mem_cons, List.mem_map] at hl
    rcases hl with rfl | rfl | ⟨d, hd, rfl⟩
    · exact unbroken_field (by simp [Unbroken]) hid
    · exact unbroken_field (by simp [Unbroken]) hkind
    · exact unbroken_field (by simp [Unbroken]) (hdata d hd)

/-- An event is one message, with its lines joined and its identifier the last one seen. -/
theorem take_event {r : Reader} {id kind : List Char} {data : List (List Char)} (hr : r.Idle) (hid : Unbroken id)
    (hkind : Unbroken kind) (hdata : ∀ l ∈ data, Unbroken l) (hnul : Char.ofNat 0 ∉ id) (hne : kind ≠ []) (hsome : data ≠ []) :
    (r.take (.event id kind data hid hkind hdata)).seen =
      (r.messages ++ [⟨kind, ['\n'].intercalate data, id⟩], id) := by
  have hfull : data.flatMap (· ++ ['\n']) ≠ [] := by
    obtain ⟨d, ds, rfl⟩ := List.exists_cons_of_ne_nil hsome
    simp
  rw [Reader.take, Frame.event, List.foldl_cons, List.foldl_cons, interpret_field (by decide) (by decide),
    interpret_field (by decide) (by decide), foldl_data]
  simp [field, dispatch, hnul, hr.data, hfull, hne, seen, dropLast_flatMap hsome]


/-- A comment: what keeps a stream open, or a note. -/
def Frame.comment (note : List Char) (h : Unbroken note) : Frame where
  lines := [[] ++ ':' :: ' ' :: note]
  nonempty := by simp
  unbroken := by
    intro l hl
    rw [List.mem_singleton.1 hl]
    exact unbroken_field (by simp [Unbroken]) h

/-- How long the source is to wait before it opens the stream again. -/
def Frame.retry (millis : ℕ) : Frame where
  lines := [['r', 'e', 't', 'r', 'y'] ++ ':' :: ' ' :: Nat.toDigits 10 millis]
  nonempty := by simp
  unbroken := by
    intro l hl
    rw [List.mem_singleton.1 hl]
    refine unbroken_field (by simp [Unbroken]) fun c hc => ?_
    have hdigit := Nat.isDigit_of_mem_toDigits (by decide) (by decide) hc
    constructor <;> rintro rfl <;> cases hdigit

theorem seen_dispatch_idle {r : Reader} (hdata : r.data = []) (hid : r.idBuffer = r.lastEventId) : r.dispatch.seen = r.seen := by
  rw [dispatch, if_pos hdata, hid]
  rfl

theorem take_comment {r : Reader} (hr : r.Idle) {note : List Char} (h : Unbroken note) :
    (r.take (.comment note h)).seen = r.seen := seen_dispatch_idle hr.data hr.idBuffer

theorem take_retry {r : Reader} (hr : r.Idle) (millis : ℕ) :
    (r.take (.retry millis)).seen = r.seen ∧ (r.take (.retry millis)).retry = some millis := by
  have hdigits : (Nat.toDigits 10 millis).all Char.isDigit = true :=
    List.all_eq_true.2 fun _ hc => Nat.isDigit_of_mem_toDigits (by decide) (by decide) hc
  have htake : r.take (.retry millis) = { r with retry := some millis }.dispatch := by
    rw [Reader.take, Frame.retry, List.foldl_cons, interpret_field (by decide) (by decide)]
    simp [field, hdigits]
  rw [htake]
  refine ⟨seen_dispatch_idle hr.data hr.idBuffer, ?_⟩
  unfold dispatch
  split_ifs <;> rfl

end Plantkeeper.EventStream
