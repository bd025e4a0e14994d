/-
Server-sent events: `sse.py` and the frames `_frames` makes of a stream. Whatever a payload holds, it
reaches the client as one message with its own identifier; its text comes back as it was exactly when its
only line boundaries are line feeds and it does not end in one (`str.splitlines` knows ten boundaries, and
a client joins the lines with line feeds).
-/
import Plantkeeper.Domain.Uuid
import Plantkeeper.Lib.EventStream
import Plantkeeper.Notifications.Stream

namespace Plantkeeper.Notifications

open EventStream EventStream.Reader

/-! ## `str.splitlines` -/

def isLineBoundary (c : Char) : Bool :=
  let n := c.toNat
  (0xa ≤ n && n ≤ 0xd) || (0x1c ≤ n && n ≤ 0x1e) || n == 0x85 || n == 0x2028 || n == 0x2029

/-- The lines of a text after the beginning of its first one; a boundary at the end begins no line. -/
def splitlinesFrom (line : List Char) : List Char → List (List Char)
  | [] => if line = [] then [] else [line]
  | '\r' :: '\n' :: cs => line :: splitlinesFrom [] cs
  | c :: cs => if isLineBoundary c then line :: splitlinesFrom [] cs else splitlinesFrom (line ++ [c]) cs

def splitlines (text : List Char) : List (List Char) := splitlinesFrom [] text

/-! ## `sse.py` -/

def RETRY_MILLISECONDS : ℕ := 3000

/-- `data.splitlines() or [""]`. -/
def dataLines (data : List Char) : List (List Char) :=
  match splitlines data with
  | [] => [[]]
  | lines => lines

def sseEvent (data : List Char) (event eventId : Option (List Char)) : List Char :=
  let lines := (eventId.map fun id => ['i', 'd', ':', ' '] ++ id).toList ++
    (event.map fun kind => ['e', 'v', 'e', 'n', 't', ':', ' '] ++ kind).toList ++
    (dataLines data).map fun line => ['d', 'a', 't', 'a', ':', ' '] ++ line
  ['\n'].intercalate lines ++ ['\n', '\n']

def sseComment (text : List Char) : List Char := [':', ' '] ++ text ++ ['\n', '\n']

def sseRetry (milliseconds : ℕ) : List Char :=
  ['r', 'e', 't', 'r', 'y', ':', ' '] ++ Nat.toDigits 10 milliseconds ++ ['\n', '\n']

/-! ## `_frames` -/

/-- What the stream yields. -/
inductive NotificationStreamEvent
  | opened (degraded : Bool)
  | arrival (notification : Notification)
  | keepAlive
  deriving DecidableEq

/-- An identifier with the bound a UUID has. -/
def uuid (id : Uuid) : UUID := ⟨id % 2 ^ 128, Nat.mod_lt _ (Nat.two_pow_pos _)⟩

def NOTIFICATION : List Char := "notification".toList

def openingNote (degraded : Bool) : List Char :=
  if degraded then "signal unavailable: answering from storage".toList else "stream open".toList

section

-- `NotificationResponse.from_view(notification).model_dump_json()`
variable (document : Notification → List Char)

def frameText : NotificationStreamEvent → List Char
  | .opened degraded => sseComment (openingNote degraded)
  | .keepAlive => sseComment "keep-alive".toList
  | .arrival n => sseEvent (document n) (some NOTIFICATION) (some (uuid n.id).str)

/-- The response as far as it is written: the retry hint, then a frame an event. -/
def response (events : List NotificationStreamEvent) : List Char :=
  sseRetry RETRY_MILLISECONDS ++ events.flatMap (frameText document)

/-- The message a client makes of an event. -/
def messageOf : NotificationStreamEvent → Option Message
  | .arrival n => some ⟨NOTIFICATION, ['\n'].intercalate (dataLines (document n)), (uuid n.id).str⟩
  | _ => none

end

/-! ## The lines of a payload -/

def Whole (line : List Char) : Prop := ∀ c ∈ line, isLineBoundary c = false

theorem unbroken_of_whole {line : List Char} (h : Whole line) : Unbroken line := by
  intro c hc
  constructor <;> rintro rfl <;> exact absurd (h _ hc) (by decide)

theorem whole_splitlinesFrom : ∀ (cs : List Char) {line : List Char}, Whole line → ∀ l ∈ splitlinesFrom line cs, Whole l := by
  intro cs line
  induction line, cs using splitlinesFrom.induct with
  | case1 => simp [splitlinesFrom]
  | case2 line hline =>
    intro h l hl
    rw [splitlinesFrom, if_neg hline, List.mem_singleton] at hl
    exact hl ▸ h
  | case3 line cs ih =>
    intro h l hl
    rw [splitlinesFrom, List.mem_cons] at hl
    rcases hl with rfl | hl
    · exact h
    · exact ih (by simp [Whole]) l hl
  | case4 line c cs hcr hboundary ih =>
    intro h l hl
    rw [splitlinesFrom, if_pos hboundary, List.mem_cons] at hl
    · rcases hl with rfl | hl
      · exact h
      · exact ih (by simp [Whole]) l hl
    · exact hcr
  | case5 line c cs hcr hboundary ih =>
    intro h l hl
    rw [splitlinesFrom, if_neg hboundary] at hl
    · refine ih (fun d hd => ?_) l hl
      rcases List.mem_append.1 hd with hd | hd
      · exact h d hd
      · rw [List.mem_singleton.1 hd]
        simpa using hboundary
    · exact hcr

theorem dataLines_ne_nil (data : List Char) : dataLines data ≠ [] := by
  unfold dataLines
  split
  · simp
  · assumption

theorem whole_dataLines (data : List Char) : ∀ l ∈ dataLines data, Whole l := by
  unfold dataLines
  split
  · simp [Whole]
  · exact whole_splitlinesFrom data (by simp [Whole])

/-- The line feed that is missing after a text's last line. -/
def closing (text : List Char) : List Char := if text.getLast? = none ∨ text.getLast? = some '\n' then [] else ['\n']

theorem closing_append (front : List Char) {text : List Char} (h : text ≠ []) : closing (front ++ text) = closing text := by
  obtain ⟨c, hc⟩ := Option.isSome_iff_exists.1 (List.getLast?_isSome.2 h)
  simp [closing, List.getLast?_append, hc]

/-- The lines of a text whose only boundaries are line feeds, put together again. -/
theorem flatMap_splitlinesFrom : ∀ (cs : List Char) {line : List Char}, Whole line →
    (∀ c ∈ cs, isLineBoundary c = true → c = '\n') →
    (splitlinesFrom line cs).flatMap (· ++ ['\n']) = line ++ cs ++ closing (line ++ cs) := by
  intro cs line
  induction line, cs using splitlinesFrom.induct with
  | case1 => simp [splitlinesFrom, closing]
  | case2 line hline =>
    intro h _
    obtain ⟨c, hc⟩ := Option.isSome_iff_exists.1 (List.getLast?_isSome.2 hline)
    have hne : c ≠ '\n' := (unbroken_of_whole h c (List.mem_of_getLast? hc)).1
    simp [splitlinesFrom, hline, closing, hc, hne]
  | case3 line cs ih =>
    intro _ h
    exact absurd (h '\r' List.mem_cons_self (by decide)) (by decide)
  | case4 line c cs hcr hboundary ih =>
    intro _ h
    obtain ⟨hc, hcs⟩ := List.forall_mem_cons.1 h
    obtain rfl := hc hboundary
    rw [splitlinesFrom, if_pos hboundary]
    · rw [List.flatMap_cons, ih (by simp [Whole]) hcs, closing_append line (List.cons_ne_nil _ _)]
      cases cs with
      | nil => simp [closing]
      | cons d ds =>
        have hrest : closing ('\n' :: d :: ds) = closing (d :: ds) := closing_append ['\n'] (List.cons_ne_nil _ _)
        simp [hrest]
    · exact hcr
  | case5 line c cs hcr hboundary ih =>
    intro hline h
    obtain ⟨_, hcs⟩ := List.forall_mem_cons.1 h
    rw [splitlinesFrom, if_neg hboundary]
    · refine (ih (fun d hd => ?_) hcs).trans (by simp)
      rcases List.mem_append.1 hd with hd | hd
      · exact hline d hd
      · rw [List.mem_singleton.1 hd]
        simpa using hboundary
    · exact hcr

/-- The condition under which a payload comes back as it was. -/
structure Intact (data : List Char) : Prop where
  boundaries : ∀ c ∈ data, isLineBoundary c = true → c = '\n'
  last : data.getLast? ≠ some '\n'

theorem flatMap_dataLines {data : List Char} (h : ∀ c ∈ data, isLineBoundary c = true → c = '\n') (hne : data ≠ []) :
    (dataLines data).flatMap (· ++ ['\n']) = data ++ closing data := by
  have hempty : Whole [] := by simp [Whole]
  have hlines := flatMap_splitlinesFrom data hempty h
  rw [List.nil_append] at hlines
  have hsome : splitlines data ≠ [] := by
    intro hnil
    rw [splitlines] at hnil
    rw [hnil] at hlines
    simp [hne] at hlines
  have hdata : dataLines data = splitlines data := by
    unfold dataLines
    split
    · contradiction
    · rfl
  rw [hdata]
  exact hlines

/-- A joined text's boundaries are the line feeds between its lines. -/
theorem boundary_join {lines : List (List Char)} (h : ∀ l ∈ lines, Whole l) :
    ∀ c ∈ ['\n'].intercalate lines, isLineBoundary c = true → c = '\n' := by
  induction lines with
  | nil => simp
  | cons l ls ih =>
    obtain ⟨hl, hls⟩ := List.forall_mem_cons.1 h
    intro c hc hboundary
    cases ls with
    | nil =>
      rw [List.intercalate_singleton] at hc
      exact absurd hboundary (by simp [hl c hc])
    | cons l' ls =>
      rw [List.intercalate_cons_cons, List.mem_append, List.mem_append] at hc
      rcases hc with (hc | hc) | hc
      · exact absurd hboundary (by simp [hl c hc])
      · exact List.mem_singleton.1 hc
      · exact ih hls c hc hboundary

/-- What a client joins is the payload exactly when the payload is intact. -/
theorem join_dataLines_iff (data : List Char) : ['\n'].intercalate (dataLines data) = data ↔ Intact data := by
  constructor
  · intro h
    have hb : ∀ c ∈ data, isLineBoundary c = true → c = '\n' := by
      rw [← h]
      exact boundary_join (whole_dataLines data)
    refine ⟨hb, fun hlast => ?_⟩
    -- the line feed at the end begins no line, so joining does not give it back
    have hne : data ≠ [] := by
      rintro rfl
      cases hlast
    have hdrop : data.dropLast = data := by
      calc data.dropLast = (data ++ closing data).dropLast := by simp [closing, hlast]
        _ = ['\n'].intercalate (dataLines data) := by rw [← flatMap_dataLines hb hne, dropLast_flatMap (dataLines_ne_nil data)]
        _ = data := h
    have hlen := congrArg List.length hdrop
    have hpos := List.length_pos_of_ne_nil hne
    rw [List.length_dropLast] at hlen
    omega
  · rintro ⟨hb, hlast⟩
    by_cases hne : data = []
    · subst hne
      rfl
    · have hopen : closing data = ['\n'] := by simp [closing, hlast, hne]
      rw [← dropLast_flatMap (dataLines_ne_nil data), flatMap_dataLines hb hne, hopen, List.dropLast_concat]

/-! ## Frames -/

theorem intercalate_append {lines : List (List Char)} (h : lines ≠ []) :
    ['\n'].intercalate lines ++ ['\n', '\n'] = lines.flatMap (· ++ ['\n']) ++ ['\n'] := by
  have hne : lines.flatMap (· ++ ['\n']) ≠ [] := by
    obtain ⟨l, ls, rfl⟩ := List.exists_cons_of_ne_nil h
    simp
  have hlast : ∀ {ls : List (List Char)} (hls : ls.flatMap (· ++ ['\n']) ≠ []),
      (ls.flatMap (· ++ ['\n'])).getLast hls = '\n' := by
    intro ls
    induction ls with
    | nil => simp
    | cons l ls ih =>
      intro hls
      by_cases hrest : ls.flatMap (· ++ ['\n']) = []
      · simp [hrest]
      · simp [hrest, ih hrest]
  rw [← dropLast_flatMap h, ← List.dropLast_append_getLast hne, List.dropLast_concat, hlast hne]
  simp

/-- An event with its identifier and kind is a frame, whatever its payload. -/
theorem sseEvent_eq (data : List Char) {kind id : List Char} (hid : Unbroken id) (hkind : Unbroken kind) :
    sseEvent data (some kind) (some id) =
      (Frame.event id kind (dataLines data) hid hkind fun l hl => unbroken_of_whole (whole_dataLines data l hl)).text := by
  have hlines := @intercalate_append ((['i', 'd', ':', ' '] ++ id) :: (['e', 'v', 'e', 'n', 't', ':', ' '] ++ kind) ::
    (dataLines data).map fun line => ['d', 'a', 't', 'a', ':', ' '] ++ line) (List.cons_ne_nil _ _)
  refine Eq.trans ?_ (hlines.trans ?_)
  · simp [sseEvent]
  · simp [Frame.text, Frame.event]

theorem sseComment_eq {note : List Char} (h : Unbroken note) : sseComment note = (Frame.comment note h).text := by
  simp [sseComment, Frame.text, Frame.comment]

theorem sseRetry_eq (millis : ℕ) : sseRetry millis = (Frame.retry millis).text := by
  simp [sseRetry, Frame.text, Frame.retry]

/-- The text of an identifier can stand on a line. -/
theorem unbroken_str (u : UUID) : Unbroken u.str ∧ Char.ofNat 0 ∉ u.str := by
  have hhex : ∀ c ∈ Digits.hexDigits, c ≠ '\n' ∧ c ≠ '\r' ∧ c ≠ Char.ofNat 0 := by
    rw [← List.forall_iff_forall_mem]
    decide
  refine ⟨fun c hc => ?_, fun hc => ?_⟩
  · rcases UUID.mem_str hc with rfl | hc
    · decide
    · exact ⟨(hhex c hc).1, (hhex c hc).2.1⟩
  · rcases UUID.mem_str hc with hc | hc
    · exact absurd hc (by decide)
    · exact (hhex _ hc).2.2 rfl

theorem unbroken_notification : Unbroken NOTIFICATION := by
  unfold Unbroken NOTIFICATION
  rw [← List.forall_iff_forall_mem]
  decide

theorem unbroken_openingNote (degraded : Bool) : Unbroken (openingNote degraded) := by
  unfold Unbroken openingNote
  rw [← List.forall_iff_forall_mem]
  cases degraded <;> decide

theorem unbroken_keepAlive : Unbroken "keep-alive".toList := by
  unfold Unbroken
  rw [← List.forall_iff_forall_mem]
  decide

/-- Whatever a payload holds, a client that reads its frame gets one message, with the kind and the
identifier it was sent with; and it gets the payload as it was exactly when that is intact. -/
theorem sse_event_received (data : List Char) {kind id : List Char} (hkind : Unbroken kind) (hne : kind ≠ [])
    (hid : Unbroken id) (hnul : Char.ofNat 0 ∉ id) {r : Reader} (hr : r.Idle) :
    ∃ received, (r.read (sseEvent data (some kind) (some id))).seen = (r.messages ++ [⟨kind, received, id⟩], id) ∧
      (received = data ↔ Intact data) := by
  refine ⟨['\n'].intercalate (dataLines data), ?_, join_dataLines_iff data⟩
  rw [sseEvent_eq data hid hkind, read_frame hr.atLine]
  exact take_event hr hid hkind _ hnul hne (dataLines_ne_nil data)

/-- A line separator in a text that JSON leaves as it is. -/
def separated : List Char := ['"', 's', Char.ofNat 0x2028, 't', '"']

theorem sse_event_received_separated :
    ∃ received, (fresh.read (sseEvent separated (some NOTIFICATION) (some (uuid 8).str))).seen =
      ([⟨NOTIFICATION, received, (uuid 8).str⟩], (uuid 8).str) ∧ received ≠ separated := by
  obtain ⟨received, hseen, hiff⟩ := sse_event_received separated unbroken_notification (by decide) (unbroken_str (uuid 8)).1
    (unbroken_str (uuid 8)).2 fresh_idle
  refine ⟨received, hseen, fun h => ?_⟩
  have hfeed := (hiff.1 h).boundaries (Char.ofNat 0x2028) (by decide) (by decide)
  exact absurd hfeed (by decide)

section

variable (document : Notification → List Char)

def frame : NotificationStreamEvent → Frame
  | .opened degraded => .comment (openingNote degraded) (unbroken_openingNote degraded)
  | .keepAlive => .comment "keep-alive".toList unbroken_keepAlive
  | .arrival n => .event (uuid n.id).str NOTIFICATION (dataLines (document n)) (unbroken_str _).1 unbroken_notification
      fun l hl => unbroken_of_whole (whole_dataLines _ l hl)

theorem frame_text (e : NotificationStreamEvent) : (frame document e).text = frameText document e := by
  cases e with
  | opened degraded => exact (sseComment_eq (unbroken_openingNote degraded)).symm
  | keepAlive => exact (sseComment_eq unbroken_keepAlive).symm
  | arrival n => exact (sseEvent_eq (document n) (unbroken_str (uuid n.id)).1 unbroken_notification).symm

/-- A response is the frames of its retry hint and its events. -/
theorem response_eq (events : List NotificationStreamEvent) :
    response document events = (Frame.retry RETRY_MILLISECONDS :: events.map (frame document)).flatMap Frame.text := by
  rw [List.flatMap_cons, List.flatMap_map, response, sseRetry_eq]
  simp only [frame_text]

/-- An event of the stream as a client reads it: one message of an arrival, none of the others. -/
theorem take_frame {r : Reader} (hr : r.Idle) (e : NotificationStreamEvent) :
    (r.take (frame document e)).seen =
      (r.messages ++ (messageOf document e).toList, ((messageOf document e).map (·.lastEventId)).getD r.lastEventId) := by
  cases e with
  | opened degraded =>
    rw [frame, take_comment hr]
    simp [messageOf, seen]
  | keepAlive =>
    rw [frame, take_comment hr]
    simp [messageOf, seen]
  | arrival n =>
    have hlines : ∀ l ∈ dataLines (document n), Unbroken l := fun l hl => unbroken_of_whole (whole_dataLines _ l hl)
    exact take_event hr (unbroken_str _).1 unbroken_notification hlines (unbroken_str _).2 (by decide) (dataLines_ne_nil _)

end

end Plantkeeper.Notifications
