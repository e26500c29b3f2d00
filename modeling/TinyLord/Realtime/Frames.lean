import TinyLord.Db.Changelog
import TinyLord.JsonText
import TinyLord.Pubsub.Presence

/-!
# The text of an event stream

The server writes each event as a frame: a line for each field, and an empty line. A keep-alive is
a frame with a comment line.
-/

namespace TinyLord

def Json.ofInt (n : Int) : Json := .number (if 0 ≤ n then .posInt n.toNat else .negInt n)

/-- The derived `Serialize`, with the fields in the order of their declaration. -/
def ChangeEvent.toJson (ev : ChangeEvent) : Json :=
  .object [("seq", .ofInt ev.seq), ("collection", .string ev.collection),
    ("op", .string ev.op.asStr), ("id", .string ev.id), ("doc", ev.doc.getD .null)]

def Pubsub.PresenceKind.asStr : PresenceKind → String
  | .join => "join"
  | .leave => "leave"

namespace Realtime

/-! ## Events -/

structure Field where
  name : String
  value : Chars

def Field.line (f : Field) : Chars := f.name.toList ++ ':' :: ' ' :: f.value

def Field.id (value : Chars) : Field := { name := "id", value }

def Field.event (value : String) : Field := { name := "event", value := value.toList }

def Field.jsonData (p : Printer) (value : Json) : Field :=
  { name := "data", value := value.compact p }

def changeToSse (p : Printer) (ev : ChangeEvent) : List Field :=
  [.id (decimal ev.seq), .event "change", .jsonData p ev.toJson]

def resyncEvent : List Field := [.event "resync", { name := "data", value := "{}".toList }]

def messagePayload (channel clientId : String) (ts : Int) (data : Json) : Json :=
  .object [("channel", .string channel), ("client_id", .string clientId), ("data", data),
    ("ts", .ofInt ts)]

def messageEvent (p : Printer) (channel clientId : String) (ts : Int) (data : Json) : List Field :=
  [.event "message", .jsonData p (messagePayload channel clientId ts data)]

def presencePayload (ev : Pubsub.PubSubEvent) : Json :=
  .object [("client_id", .string ev.clientId), ("ts", .ofInt ev.ts),
    ("type", .string ev.kind.asStr)]

def presenceEvent (p : Printer) (ev : Pubsub.PubSubEvent) : List Field :=
  [.event "presence", .jsonData p (presencePayload ev)]

/-! ## Frames -/

inductive Frame where
  | change (ev : ChangeEvent)
  | resync
  | message (channel clientId : String) (ts : Int) (data : Json)
  | presence (ev : Pubsub.PubSubEvent)
  | comment (text : { t : Chars // OneLine t })

/-- The lines of a frame before the empty one. -/
def Frame.body (p : Printer) : Frame → List Chars
  | .change ev => (changeToSse p ev).map Field.line
  | .resync => resyncEvent.map Field.line
  | .message channel clientId ts data => (messageEvent p channel clientId ts data).map Field.line
  | .presence ev => (presenceEvent p ev).map Field.line
  | .comment text => [':' :: text.val]

def Frame.lines (p : Printer) (f : Frame) : List Chars := f.body p ++ [[]]

structure Item (V : Type*) where
  type : Chars
  id : Option Chars
  data : V

def Item.map {V W : Type*} (f : V → W) (item : Item V) : Item W :=
  { item with data := f item.data }

/-- The event that the server sent. A comment is none. -/
def Frame.sent : Frame → Option (Item Json)
  | .change ev =>
    some { type := "change".toList, id := some (decimal ev.seq), data := ev.toJson }
  | .resync => some { type := "resync".toList, id := none, data := .object [] }
  | .message channel clientId ts data =>
    some { type := "message".toList, id := none, data := messagePayload channel clientId ts data }
  | .presence ev => some { type := "presence".toList, id := none, data := presencePayload ev }
  | .comment _ => none

/-- A line with its end. -/
inductive Ended (line : Chars) : Chars → Prop where
  | lf : Ended line (line ++ ['\n'])
  | crlf : Ended line (line ++ ['\r', '\n'])

/-- A text of some lines, with either end for each. -/
inductive Written : List Chars → Chars → Prop where
  | nil : Written [] []
  | cons {line a b : Chars} {lines : List Chars} (hline : Ended line a) (hlines : Written lines b) :
      Written (line :: lines) (a ++ b)

/-- The text of a stream of frames. -/
def StreamText (p : Printer) (frames : List Frame) (text : Chars) : Prop :=
  Written (frames.flatMap (Frame.lines p)) text

/-- What is there of a frame whose end has not come. It may be nothing. -/
def Incomplete (p : Printer) (text : Chars) : Prop :=
  ∃ f full, Written (Frame.lines p f) full ∧ text <+: full ∧ text ≠ full

/-! ## The lines of a frame -/

variable {p : Printer} {lines more : List Chars} {line a b : Chars} {f : Frame}

theorem Field.line_ne_nil {g : Field} : g.line ≠ [] := by simp [Field.line]

theorem Field.line_oneLine {g : Field} (hname : OneLine g.name.toList) (hvalue : OneLine g.value) :
    OneLine g.line :=
  hname.append ((hvalue.cons (by decide)).cons (by decide))

theorem Field.jsonData_oneLine (v : Json) : OneLine (Field.jsonData p v).line :=
  Field.line_oneLine (by simp [Field.jsonData, OneLine]) v.compact_oneLine

theorem body_ne_nil (h : line ∈ f.body p) : line ≠ [] := by
  cases f with
  | comment text =>
    rw [Frame.body, List.mem_singleton] at h
    exact h ▸ List.cons_ne_nil _ _
  | _ =>
    obtain ⟨g, -, rfl⟩ := List.mem_map.mp h
    exact Field.line_ne_nil

theorem body_oneLine (h : line ∈ f.body p) : OneLine line := by
  cases f with
  | comment text =>
    rw [Frame.body, List.mem_singleton] at h
    exact h ▸ text.property.cons (by decide)
  | change ev =>
    simp only [Frame.body, changeToSse, List.map_cons, List.map_nil, List.mem_cons,
      List.not_mem_nil, or_false] at h
    obtain rfl | rfl | rfl := h
    · exact Field.line_oneLine (by simp [Field.id, OneLine]) (decimal_oneLine ev.seq)
    · decide
    · exact Field.jsonData_oneLine _
  | resync =>
    simp only [Frame.body, resyncEvent, List.map_cons, List.map_nil, List.mem_cons,
      List.not_mem_nil, or_false] at h
    obtain rfl | rfl := h
    · decide
    · decide
  | message channel clientId ts data =>
    simp only [Frame.body, messageEvent, List.map_cons, List.map_nil, List.mem_cons,
      List.not_mem_nil, or_false] at h
    obtain rfl | rfl := h
    · decide
    · exact Field.jsonData_oneLine _
  | presence ev =>
    simp only [Frame.body, presenceEvent, List.map_cons, List.map_nil, List.mem_cons,
      List.not_mem_nil, or_false] at h
    obtain rfl | rfl := h
    · decide
    · exact Field.jsonData_oneLine _

theorem Written.split (h : Written (lines ++ more) a) :
    ∃ b c, Written lines b ∧ Written more c ∧ a = b ++ c := by
  induction lines generalizing a with
  | nil => exact ⟨[], a, .nil, h, rfl⟩
  | cons line lines ih =>
    obtain ⟨⟩ | ⟨hline, hlines⟩ := h
    obtain ⟨b, c, hb, hc, rfl⟩ := ih hlines
    exact ⟨_, c, .cons hline hb, hc, by rw [List.append_assoc]⟩

theorem Written.concat (h : Written (lines ++ [[]]) a) :
    ∃ b cr, Written lines b ∧ (cr = [] ∨ cr = ['\r']) ∧ a = b ++ cr ++ ['\n'] := by
  obtain ⟨b, c, hb, hc, rfl⟩ := h.split
  obtain ⟨⟩ | ⟨hline, hnil⟩ := hc
  cases hnil
  cases hline with
  | lf => exact ⟨b, [], hb, .inl rfl, by simp⟩
  | crlf => exact ⟨b, ['\r'], hb, .inr rfl, by simp⟩

end Realtime

end TinyLord
