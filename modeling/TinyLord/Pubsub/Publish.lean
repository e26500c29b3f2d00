import TinyLord.Ids
import TinyLord.Lib.Broadcast
import TinyLord.Realtime.Frames

/-!
# Publishing to a channel

One broadcast channel carries the events of all channels of a database. Each subscriber has a
receiver of its own, and its stream leaves out what is not for it.
-/

open Lib.Broadcast

namespace TinyLord.Publish

/-! ## Events and streams -/

inductive EventKind where
  | message (data : Json)
  | presence (kind : Pubsub.PresenceKind)

structure PubSubEvent where
  channel : String
  /-- Who it comes from. -/
  clientId : String
  ts : Int
  kind : EventKind

/-- The stream of a subscriber. -/
structure EventStream where
  channel : String
  clientId : String
  /-- Where its receiver reads next. -/
  rx : ℕ

/-- The body of the loop for an event that was received. -/
def EventStream.onEvent (s : EventStream) (ev : PubSubEvent) : Option Realtime.Frame :=
  if ev.channel ≠ s.channel ∨ ev.clientId = s.clientId then none
  else
    match ev.kind with
    | .message data => some (.message ev.channel ev.clientId ev.ts data)
    | .presence kind => some (.presence
        { channel := ev.channel, clientId := ev.clientId, ts := ev.ts, kind })

/-- What the loop of `event_stream` yields until it has to wait, with the place of each event. -/
def EventStream.run (s : EventStream) (tx : Channel PubSubEvent) :
    ℕ → ℕ → List (ℕ × Realtime.Frame)
  | 0, _ => []
  | fuel + 1, rx =>
    match tx.recv rx with
    | (.message ev, rx') =>
      match s.onEvent ev with
      | none => s.run tx fuel rx'
      | some frame => (rx, frame) :: s.run tx fuel rx'
    | (.lagged _, rx') => s.run tx fuel rx'
    | (.empty, _) => []

/-- The stream yields the event at the place, if it is polled until it has to wait. -/
def EventStream.yields (s : EventStream) (tx : Channel PubSubEvent) (place : ℕ) : Bool :=
  (s.run tx (tx.sent.length + 1) s.rx).any fun item => item.1 == place

/-! ## The subscribers of a database -/

/-- The broadcast channel and the streams that are live, each with a receiver. -/
structure Hub where
  tx : Channel PubSubEvent
  streams : List EventStream
  size_pos : 0 < tx.size
  behind : ∀ s ∈ streams, s.rx ≤ tx.sent.length

/-- `new_channel`. The first receiver is dropped at once. -/
def newChannel (capacity : ℕ) : Hub where
  tx := channel (max capacity 1)
  streams := []
  size_pos := Nat.pow_pos (by decide)
  behind := nofun

def Hub.subscribe (hub : Hub) (channel clientId : String) : Hub where
  tx := hub.tx
  streams := hub.streams ++ [{ channel, clientId, rx := hub.tx.subscribe }]
  size_pos := hub.size_pos
  behind := by
    simp only [List.mem_append, List.mem_singleton]
    rintro s (hs | rfl)
    · exact hub.behind s hs
    · exact Nat.le_refl _

/-- A client disconnects. -/
def Hub.disconnect (hub : Hub) (n : ℕ) : Hub :=
  { hub with
    streams := hub.streams.eraseIdx n
    behind := fun s hs => hub.behind s (List.mem_of_mem_eraseIdx hs) }

/-- `send`. The number is that of the receivers, and without any it fails. -/
def Hub.send (hub : Hub) (ev : PubSubEvent) : Option (ℕ × Hub) :=
  if hub.streams.isEmpty then none
  else some (hub.streams.length,
    { hub with
      tx := hub.tx.send ev
      behind := fun s hs => (hub.behind s hs).trans (by simp) })

/-! ## The request -/

structure PubSubConfig where
  enabled : Bool
  maxEventBytes : ℕ

structure PublishBody where
  clientId : String
  data : Json

def validClientId (id : String) : Bool :=
  if id.isEmpty || id.utf8ByteSize > 128 then false
  else id.toList.all fun c => c.isAlphanum || c == '-' || c == '_'

def requireClientId (id : String) : Except ApiError Unit :=
  if validClientId id then .ok ()
  else .error (.validation "invalid client_id; must be 1-128 chars of [A-Za-z0-9_-]")

def ensureEnabled (cfg : PubSubConfig) : Except ApiError Unit :=
  if cfg.enabled then .ok () else .error (.notFound "API route not found")

/-- `publish` but for the authorization and the lookup of the database. The number is the
`delivered` of the answer. -/
def publish (cfg : PubSubConfig) (p : Printer) (hub : Hub) (channel : String) (body : PublishBody)
    (now : Int) : Except ApiError (ℕ × Hub) := do
  ensureEnabled cfg
  requireValidName "channel" channel
  requireClientId body.clientId
  if (String.ofList (body.data.compact p)).utf8ByteSize > cfg.maxEventBytes then
    throw (.payloadTooLarge "event payload too large")
  let event : PubSubEvent :=
    { channel, clientId := body.clientId, ts := now, kind := .message body.data }
  return (hub.send event).getD (0, hub)

/-! ## What a stream yields -/

variable {s : EventStream} {ev : PubSubEvent} {tx : Channel PubSubEvent} {hub hub' : Hub}
  {cfg : PubSubConfig} {p : Printer} {channel : String} {body : PublishBody} {now : Int}

/-- The stream is there for the event. -/
def EventStream.Wants (s : EventStream) (channel clientId : String) : Prop :=
  s.channel = channel ∧ s.clientId ≠ clientId

instance (s : EventStream) (channel clientId : String) : Decidable (s.Wants channel clientId) :=
  inferInstanceAs (Decidable (_ ∧ _))

theorem onEvent_isSome : (∃ frame, s.onEvent ev = some frame) ↔ s.Wants ev.channel ev.clientId := by
  unfold EventStream.onEvent EventStream.Wants
  split
  · next hout =>
    refine iff_of_false (by simp) ?_
    rintro ⟨hchannel, hclient⟩
    exact hout.elim (fun h => h hchannel.symm) fun h => hclient h.symm
  · next hin =>
    rw [not_or, not_not] at hin
    refine iff_of_true ?_ ⟨hin.1.symm, fun h => hin.2 h.symm⟩
    cases ev.kind with
    | message data => exact ⟨_, rfl⟩
    | presence kind => exact ⟨_, rfl⟩

theorem mem_run {place fuel rx : ℕ} {frame : Realtime.Frame} :
    (place, frame) ∈ s.run tx fuel rx ↔
      ∃ ev, (place, ev) ∈ tx.drain fuel rx ∧ s.onEvent ev = some frame := by
  induction fuel generalizing rx with
  | zero => simp [EventStream.run, Channel.drain]
  | succ fuel ih =>
    rw [EventStream.run, Channel.drain]
    obtain ⟨m, hrecv, -⟩ | ⟨k, hrecv, -⟩ | ⟨hrecv, -⟩ := tx.recv_cases rx
    · rw [hrecv]
      cases hm : s.onEvent m with
      | none =>
        simp only [hm, ih, List.mem_cons]
        constructor
        · rintro ⟨ev, hev, hsome⟩
          exact ⟨ev, Or.inr hev, hsome⟩
        · rintro ⟨ev, heq | hev, hsome⟩
          · cases heq
            rw [hm] at hsome
            cases hsome
          · exact ⟨ev, hev, hsome⟩
      | some f =>
        simp only [hm, List.mem_cons, ih, Prod.mk.injEq]
        constructor
        · rintro (⟨rfl, rfl⟩ | ⟨ev, hev, hsome⟩)
          · exact ⟨m, Or.inl ⟨rfl, rfl⟩, hm⟩
          · exact ⟨ev, Or.inr hev, hsome⟩
        · rintro ⟨ev, ⟨rfl, rfl⟩ | hev, hsome⟩
          · exact Or.inl ⟨rfl, Option.some.inj (hsome.symm.trans hm)⟩
          · exact Or.inr ⟨ev, hev, hsome⟩
    · rw [hrecv]
      exact ih
    · rw [hrecv]
      simp

/-- However far behind it is, a stream yields the event that was sent last just when it wants it. -/
theorem yields_send (hs : s ∈ hub.streams) :
    s.yields (hub.tx.send ev) hub.tx.sent.length = true ↔ s.Wants ev.channel ev.clientId := by
  have hlast : (hub.tx.send ev).sent[hub.tx.sent.length]? = some ev := by simp
  have hbehind := hub.behind s hs
  have hsize := hub.size_pos
  have hread : (hub.tx.sent.length, ev) ∈
      (hub.tx.send ev).drain ((hub.tx.send ev).sent.length + 1) s.rx := by
    refine mem_drain hlast ?_ hbehind ?_
    · rw [Channel.send_sent, List.length_append, List.length_singleton]
      exact Nat.add_le_add_left hsize _
    · rw [Channel.send_sent, List.length_append, List.length_singleton]
      omega
  rw [EventStream.yields, List.any_eq_true, ← onEvent_isSome]
  constructor
  · rintro ⟨⟨place, frame⟩, hmem, hplace⟩
    obtain rfl := beq_iff_eq.mp hplace
    obtain ⟨ev', hev', hsome⟩ := mem_run.mp hmem
    obtain rfl := Option.some.inj (hlast.symm.trans (mem_drain_sent hev'))
    exact ⟨frame, hsome⟩
  · rintro ⟨frame, hsome⟩
    exact ⟨(_, frame), mem_run.mpr ⟨ev, hread, hsome⟩, beq_self_eq_true _⟩

/-! ## The answer -/

/-- What is delivered is the number of all live streams. -/
theorem publish_ok {delivered : ℕ} (h : publish cfg p hub channel body now = .ok (delivered, hub')) :
    delivered = hub.streams.length ∧ hub'.streams = hub.streams ∧
      ∀ s ∈ hub.streams, s.yields hub'.tx hub.tx.sent.length = true ↔
        s.Wants channel body.clientId := by
  let event : PubSubEvent :=
    { channel, clientId := body.clientId, ts := now, kind := .message body.data }
  have hsend : (hub.send event).getD (0, hub) = (delivered, hub') := by
    simp only [publish, bind, Except.bind] at h
    split at h
    · cases h
    · split at h
      · cases h
      · split at h
        · cases h
        · split at h
          · cases h
          · exact Except.ok.inj h
  unfold Hub.send at hsend
  split at hsend
  · next hempty =>
    cases hsend
    rw [List.isEmpty_iff] at hempty
    rw [hempty]
    exact ⟨rfl, rfl, nofun⟩
  · cases hsend
    exact ⟨rfl, rfl, fun s hs => yields_send hs⟩

/-- The answer to a publish counts all live streams of the database. That is the number of those
that yield the message, which are those on its channel with another client id, just when there are
no others. -/
theorem publish_delivered (cfg : PubSubConfig) (p : Printer) (hub hub' : Hub) (channel : String)
    (body : PublishBody) (now : Int) (delivered : ℕ)
    (h : publish cfg p hub channel body now = .ok (delivered, hub')) :
    hub.streams.countP (fun s => s.yields hub'.tx hub.tx.sent.length) =
      hub.streams.countP (fun s => s.Wants channel body.clientId) ∧
    (delivered = hub.streams.countP (fun s => s.yields hub'.tx hub.tx.sent.length) ↔
      ∀ s ∈ hub.streams, s.Wants channel body.clientId) := by
  obtain ⟨rfl, -, hyields⟩ := publish_ok h
  have hcount : hub.streams.countP (fun s => s.yields hub'.tx hub.tx.sent.length) =
      hub.streams.countP (fun s => s.Wants channel body.clientId) := by
    refine List.countP_congr fun s hs => ?_
    rw [hyields s hs, decide_eq_true_eq]
  refine ⟨hcount, ?_⟩
  rw [hcount, eq_comm, List.countP_eq_length]
  simp only [decide_eq_true_eq]

def lobby : Hub :=
  ((newChannel 16).subscribe "lobby" "pubclient").subscribe "lobby" "otherclient"

def hello : PublishBody := { clientId := "pubclient", data := .object [("hello", .string "world")] }

def plainPrinter : Printer where
  float _ := []
  float_oneLine _ := nofun

/-- The client that publishes has a stream of its own, which is counted and yields nothing. -/
theorem publish_counts_sender : ∃ hub',
    publish ⟨true, 4096⟩ plainPrinter lobby "lobby" hello 5 = .ok (2, hub') ∧
    lobby.streams.countP (fun s => s.Wants "lobby" "pubclient") = 1 ∧
    lobby.streams.countP (fun s => s.yields hub'.tx lobby.tx.sent.length) = 1 :=
  ⟨_, rfl, rfl, rfl⟩

theorem publish_delivered_lobby : ∃ hub',
    publish ⟨true, 4096⟩ plainPrinter (lobby.disconnect 0) "lobby" hello 5 = .ok (1, hub') ∧
    1 = (lobby.disconnect 0).streams.countP fun s =>
      s.yields hub'.tx (lobby.disconnect 0).tx.sent.length := by
  have hok : ∃ hub',
      publish ⟨true, 4096⟩ plainPrinter (lobby.disconnect 0) "lobby" hello 5 = .ok (1, hub') :=
    ⟨_, rfl⟩
  obtain ⟨hub', hok⟩ := hok
  refine ⟨hub', hok, ?_⟩
  refine (publish_delivered _ _ _ hub' "lobby" hello 5 1 hok).2.mpr ?_
  intro s hs
  rw [List.mem_singleton.mp hs]
  decide

end TinyLord.Publish
