import TinyLord.Lib.Receiver
import TinyLord.Pubsub.Events
import TinyLord.Pubsub.Publish

/-!
# A room

The whole of pub/sub for one database: subscriptions that come and go, the presence map, the
broadcast channel, what each stream yields, and clients that read the roster once their stream is
open and go by the presence events from then on.
-/

open Lib.Run Lib.Broadcast

namespace TinyLord.Room

open Pubsub Publish

/-! ## The roster -/

structure PresenceClient where
  clientId : String
  connectedAt : Int

/-- `presence`, once the request is let in. -/
def presence (map : PresenceMap) (channel : String) : List PresenceClient :=
  match map.lookup channel with
  | some clients =>
    clients.entries.map fun e => { clientId := e.1, connectedAt := e.2.connectedAt }
  | none => []

def Lists (roster : List PresenceClient) (clientId : String) : Prop :=
  ∃ c ∈ roster, c.clientId = clientId

/-! ## Connections -/

inductive Phase where
  /-- `subscribe` has its receiver. -/
  | subscribed
  /-- `register` was called. -/
  | registered (guard : ℕ)
  /-- The client is gone, and the stream is dropped. -/
  | closing (guard : ℕ)

/-- A request for the roster, with the number of frames that the client had got before. -/
inductive Lookup where
  | none
  | asked (frames : ℕ)
  | looked (frames : ℕ) (roster : List PresenceClient)

structure Connection where
  channel : String
  clientId : String
  phase : Phase
  rx : Receiver
  /-- The receiver is dropped. -/
  released : Bool
  /-- For the statements only: the place of the first event after `pubsub_tx.subscribe`. -/
  first : ℕ
  /-- What the stream has yielded, with the place of each event. -/
  out : List (ℕ × Realtime.Frame)
  /-- How much of it the client has got. -/
  received : ℕ
  lookup : Lookup
  /-- The last roster the client has got, and the frames it had when it asked for it. -/
  roster : Option (ℕ × List PresenceClient)

def Connection.new (channel clientId : String) (tx : Channel Publish.PubSubEvent) : Connection where
  channel
  clientId
  phase := .subscribed
  rx := tx.receiver
  released := false
  first := tx.subscribe
  out := []
  received := 0
  lookup := .none
  roster := none

def Connection.stream (k : Connection) : EventStream :=
  { channel := k.channel, clientId := k.clientId, rx := k.first }

def Connection.yields (k : Connection) (item : ℕ × Publish.PubSubEvent) :
    Option (ℕ × Realtime.Frame) :=
  (k.stream.onEvent item.2).map fun frame => (item.1, frame)

/-! ## Steps -/

structure State where
  pres : Pubsub.State
  tx : Channel Publish.PubSubEvent
  conns : List Connection

def State.boot (capacity : ℕ) : State :=
  { pres := .start, tx := channel (max capacity 1), conns := [] }

/-- Without a receiver `send` fails, and nothing is stored. -/
def State.send (s : State) (ev : Publish.PubSubEvent) : State :=
  if s.conns.any fun k => !k.released then { s with tx := s.tx.send ev } else s

inductive Act where
  | subscribe (channel clientId : String)
  /-- The map update of `register`. -/
  | register (n : ℕ) (now : Int)
  /-- A call of `register` or `drop` sends its event. -/
  | announce (i : ℕ) (ts : Int)
  | publish (channel clientId : String) (data : Json) (now : Int)
  /-- One round of the loop in `event_stream`. -/
  | poll (n : ℕ)
  /-- The client gets the next frame. -/
  | receive (n : ℕ)
  | hangUp (n : ℕ)
  /-- The map update of `drop`. -/
  | dropGuard (n : ℕ)
  | release (n : ℕ)
  /-- The client asks for the roster, the server reads it, and the client gets it. -/
  | ask (n : ℕ)
  | look (n : ℕ)
  | answer (n : ℕ)

/-- The stream is open: `register` has returned, and the client is there. -/
def Connection.isOpen (k : Connection) (pres : Pubsub.State) : Bool :=
  match k.phase with
  | .registered g => pres.guards[g]?.any fun guard => guard.phase = .live
  | _ => false

def Connection.poll (k : Connection) (tx : Channel Publish.PubSubEvent) : Connection :=
  { k with
    rx := (k.rx.poll tx).2
    out := k.out ++ ((k.rx.poll tx).1.bind k.yields).toList }

/-- What a connection does by itself. -/
def Connection.next (k : Connection) (s : State) : Act → Option Connection
  | .poll _ => if k.isOpen s.pres then some (k.poll s.tx) else none
  | .receive _ =>
    if k.received < k.out.length then some { k with received := k.received + 1 } else none
  | .hangUp _ =>
    match k.phase with
    | .registered g => if k.isOpen s.pres then some { k with phase := .closing g } else none
    | _ => none
  | .release _ =>
    match k.phase with
    | .closing _ => some { k with released := true }
    | _ => none
  | .ask _ =>
    match k.lookup with
    | .none => if k.isOpen s.pres then some { k with lookup := .asked k.received } else none
    | _ => none
  | .look _ =>
    match k.lookup with
    | .asked frames => some { k with lookup := .looked frames (presence s.pres.map k.channel) }
    | _ => none
  | .answer _ =>
    match k.lookup with
    | .looked frames roster => some { k with lookup := .none, roster := some (frames, roster) }
    | _ => none
  | _ => none

/-- The step of the presence map. -/
def Act.presence (s : State) : Act → Option Pubsub.Act
  | .register n now => (s.conns[n]?).bind fun k =>
    match k.phase with
    | .subscribed => some (.register k.channel k.clientId now)
    | _ => none
  | .announce i ts => some (.send i ts)
  | .dropGuard n => (s.conns[n]?).bind fun k =>
    match k.phase with
    | .closing g => some (.drop g)
    | _ => none
  | _ => none

def step (s : State) (a : Act) : Option State :=
  match a with
  | .subscribe channel clientId =>
    some { s with conns := s.conns ++ [.new channel clientId s.tx] }
  | .publish channel clientId data now =>
    some (s.send { channel, clientId, ts := now, kind := .message data })
  | .register n _ => do
    let pres ← Pubsub.step s.pres (← a.presence s)
    return { s with
      pres
      conns := s.conns.modify n fun k => { k with phase := .registered s.pres.guards.length } }
  | .announce i ts => do
    let call ← s.pres.calls[i]?
    let pres ← Pubsub.step s.pres (.send i ts)
    return { s with pres }.send
      { channel := call.channel, clientId := call.clientId, ts, kind := .presence call.kind }
  | .dropGuard _ => do
    let pres ← Pubsub.step s.pres (← a.presence s)
    return { s with pres }
  | .poll n | .receive n | .hangUp n | .release n | .ask n | .look n | .answer n => do
    let k ← s.conns[n]?
    let k' ← k.next s a
    return { s with conns := s.conns.set n k' }

/-! ## The statements -/

/-- The events of a pair are announced in the order of their updates, and fewer than 2^32 guards
live at a time. -/
def proper (s : State) (a : Act) : Prop :=
  ∀ pa, a.presence s = some pa → inOrder s.pres pa ∧ bounded s.pres pa

/-- What a stream has yielded: each event after the subscription that is for it, in order, but for
those that so many newer ones have overwritten as the ring has slots. -/
structure Delivered (tx : Channel Publish.PubSubEvent) (k : Connection) : Prop where
  behind : k.rx.Behind tx
  first_le : k.first ≤ k.rx.next
  out : k.out = (k.rx.got tx k.first).filterMap k.yields
  received : k.received ≤ k.out.length

def presenceOf (clientId : String) : Realtime.Frame → Option PresenceKind
  | .presence ev => if ev.clientId = clientId then some ev.kind else none
  | _ => none

/-- The presence events of a client among the frames from a number on. -/
def Connection.heard (k : Connection) (frames : ℕ) (clientId : String) : List PresenceKind :=
  ((k.out.take k.received).drop frames).filterMap fun item => presenceOf clientId item.2

/-- The client sees another one as there: by the last event since it asked for the roster, and
without one by the roster. -/
def Connection.Sees (k : Connection) (clientId : String) : Prop :=
  ∃ frames roster, k.roster = some (frames, roster) ∧
    match (k.heard frames clientId).getLast? with
    | some kind => kind = .join
    | none => Lists roster clientId

/-- The client has asked for the roster, its stream has lost nothing since, and all that was sent
has come. -/
structure CaughtUp (s : State) (k : Connection) : Prop where
  asked : ∃ frames roster, k.roster = some (frames, roster) ∧
    ∀ p ∈ k.rx.lost, ∃ item ∈ k.out.take frames, p < item.1
  read : k.rx.next = s.tx.sent.length
  received : k.received = k.out.length
  open_ : k.released = false

/-! ## Delivery -/

variable {s s' : State} {a : Act} {k k' : Connection} {n frames place total : ℕ} {x channel : String}
  {tx tx' : Channel Publish.PubSubEvent} {roster : List PresenceClient}

theorem send_conns (s : State) (ev : Publish.PubSubEvent) : (s.send ev).conns = s.conns := by
  unfold State.send
  split <;> rfl

theorem send_pres (s : State) (ev : Publish.PubSubEvent) : (s.send ev).pres = s.pres := by
  unfold State.send
  split <;> rfl

theorem delivered_new (channel clientId : String) (tx : Channel Publish.PubSubEvent) :
    Delivered tx (.new channel clientId tx) where
  behind := tx.receiver_behind
  first_le := Nat.le_refl _
  out := by simp [Connection.new, Receiver.got, Channel.receiver]
  received := Nat.le_refl _

theorem Delivered.send (h : Delivered tx k) (ev : Publish.PubSubEvent) :
    Delivered (tx.send ev) k where
  behind := h.behind.send ev
  first_le := h.first_le
  out := by rw [got_grows h.behind.next_le (List.prefix_append _ _)]; exact h.out
  received := h.received

theorem next_le_poll (r : Receiver) (c : Channel Publish.PubSubEvent) :
    r.next ≤ (r.poll c).2.next := by
  obtain ⟨m, hpoll, -⟩ | ⟨next, hpoll, hle, -⟩ | ⟨hpoll, -⟩ := r.poll_cases c
  · rw [hpoll]
    exact Nat.le_succ _
  · rw [hpoll]
    exact hle
  · rw [hpoll]

theorem filterMap_toList {α β : Type} (f : α → Option β) (o : Option α) :
    o.toList.filterMap f = (o.bind f).toList := by
  cases o with
  | none => rfl
  | some x => cases h : f x <;> simp [h]

theorem Delivered.poll (h : Delivered tx k) : Delivered tx (k.poll tx) where
  behind := h.behind.poll
  first_le := h.first_le.trans (next_le_poll _ _)
  out := by
    have hgot : (k.poll tx).rx.got tx k.first =
        k.rx.got tx k.first ++ (k.rx.poll tx).1.toList := got_poll h.behind h.first_le
    calc (k.poll tx).out = k.out ++ ((k.rx.poll tx).1.bind k.yields).toList := rfl
      _ = (k.rx.got tx k.first ++ (k.rx.poll tx).1.toList).filterMap k.yields := by
        rw [List.filterMap_append, filterMap_toList, ← h.out]
      _ = ((k.poll tx).rx.got tx k.first).filterMap k.yields := by rw [hgot]
  received := by
    have := h.received
    simp only [Connection.poll, List.length_append]
    omega

theorem next_cases (h : k.next s a = some k') :
    k' = k.poll s.tx ∨
    (k.received < k.out.length ∧ k' = { k with received := k.received + 1 }) ∨
    (∃ phase, k' = { k with phase }) ∨
    k' = { k with released := true } ∨
    k' = { k with lookup := .asked k.received } ∨
    (∃ frames, k.lookup = .asked frames ∧
      k' = { k with lookup := .looked frames (presence s.pres.map k.channel) }) ∨
    ∃ frames roster, k.lookup = .looked frames roster ∧
      k' = { k with lookup := .none, roster := some (frames, roster) } := by
  cases a with
  | poll n =>
    simp only [Connection.next] at h
    split_ifs at h
    cases h
    exact Or.inl rfl
  | receive n =>
    simp only [Connection.next] at h
    split_ifs at h with hlt
    cases h
    exact Or.inr (Or.inl ⟨hlt, rfl⟩)
  | hangUp n =>
    simp only [Connection.next] at h
    split at h
    · split_ifs at h
      cases h
      exact Or.inr (Or.inr (Or.inl ⟨_, rfl⟩))
    · cases h
  | release n =>
    simp only [Connection.next] at h
    split at h
    · cases h
      exact Or.inr (Or.inr (Or.inr (Or.inl rfl)))
    · cases h
  | ask n =>
    simp only [Connection.next] at h
    split at h
    · split_ifs at h
      cases h
      exact Or.inr (Or.inr (Or.inr (Or.inr (Or.inl rfl))))
    · cases h
  | look n =>
    simp only [Connection.next] at h
    split at h
    · next frames hl =>
      cases h
      exact Or.inr (Or.inr (Or.inr (Or.inr (Or.inr (Or.inl ⟨frames, hl, rfl⟩)))))
    · cases h
  | answer n =>
    simp only [Connection.next] at h
    split at h
    · next frames roster hl =>
      cases h
      exact Or.inr (Or.inr (Or.inr (Or.inr (Or.inr (Or.inr ⟨frames, roster, hl, rfl⟩)))))
    · cases h
  | subscribe _ _ | register _ _ | announce _ _ | publish _ _ _ _ | dropGuard _ => cases h

theorem Delivered.next (h : Delivered s.tx k) (hnext : k.next s a = some k') :
    Delivered s.tx k' := by
  obtain rfl | ⟨hlt, rfl⟩ | ⟨phase, rfl⟩ | rfl | rfl | ⟨frames, -, rfl⟩ | ⟨frames, roster, -, rfl⟩ :=
    next_cases hnext
  · exact h.poll
  · exact ⟨h.behind, h.first_le, h.out, hlt⟩
  all_goals exact ⟨h.behind, h.first_le, h.out, h.received⟩

/-! ## What one step does -/

/-- The connections but for their phases, and the channel. -/
structure Moved (s s' : State) : Prop where
  conns : ∀ k' ∈ s'.conns, ∃ k ∈ s.conns, ∃ phase, k' = { k with phase }
  tx : s'.tx = s.tx ∨ ∃ ev, s'.tx = s.tx.send ev

theorem moved_send (s : State) (ev : Publish.PubSubEvent) : Moved s (s.send ev) where
  conns k hk := ⟨k, by rwa [send_conns] at hk, k.phase, rfl⟩
  tx := by
    unfold State.send
    split
    · exact Or.inr ⟨ev, rfl⟩
    · exact Or.inl rfl

theorem step_cases (h : step s a = some s') :
    (∃ channel clientId, s' = { s with conns := s.conns ++ [.new channel clientId s.tx] }) ∨
    (∃ n k k', s.conns[n]? = some k ∧ k.next s a = some k' ∧
      s' = { s with conns := s.conns.set n k' }) ∨
    Moved s s' := by
  cases a with
  | subscribe channel clientId =>
    cases h
    exact Or.inl ⟨channel, clientId, rfl⟩
  | publish channel clientId data now =>
    cases h
    exact Or.inr (Or.inr (moved_send _ _))
  | register n now =>
    obtain ⟨pa, -, h⟩ := Option.bind_eq_some_iff.mp h
    obtain ⟨pres, -, h⟩ := Option.bind_eq_some_iff.mp h
    cases h
    refine Or.inr (Or.inr ⟨fun k' hk' => ?_, Or.inl rfl⟩)
    obtain ⟨i, hi⟩ := List.mem_iff_getElem?.mp hk'
    rw [List.getElem?_modify] at hi
    obtain ⟨k, hk, rfl⟩ := Option.map_eq_some_iff.mp hi
    refine ⟨k, List.mem_of_getElem? hk, ?_⟩
    split
    · exact ⟨_, rfl⟩
    · exact ⟨k.phase, rfl⟩
  | announce i ts =>
    obtain ⟨call, -, h⟩ := Option.bind_eq_some_iff.mp h
    obtain ⟨pres, -, h⟩ := Option.bind_eq_some_iff.mp h
    cases h
    have hmoved := moved_send { s with pres }
      { channel := call.channel, clientId := call.clientId, ts, kind := .presence call.kind }
    exact Or.inr (Or.inr ⟨hmoved.conns, hmoved.tx⟩)
  | dropGuard n =>
    obtain ⟨pa, -, h⟩ := Option.bind_eq_some_iff.mp h
    obtain ⟨pres, -, h⟩ := Option.bind_eq_some_iff.mp h
    cases h
    exact Or.inr (Or.inr ⟨fun k hk => ⟨k, hk, k.phase, rfl⟩, Or.inl rfl⟩)
  | poll n | receive n | hangUp n | release n | ask n | look n | answer n =>
    obtain ⟨k, hk, h⟩ := Option.bind_eq_some_iff.mp h
    obtain ⟨k', hk', h⟩ := Option.bind_eq_some_iff.mp h
    cases h
    exact Or.inr (Or.inl ⟨n, k, k', hk, hk', rfl⟩)

theorem delivered_step (h : ∀ k ∈ s.conns, Delivered s.tx k) (hstep : step s a = some s') :
    ∀ k ∈ s'.conns, Delivered s'.tx k := by
  obtain ⟨channel, clientId, rfl⟩ | ⟨n, k, k', hk, hnext, rfl⟩ | hmoved := step_cases hstep
  · intro k hk
    rcases List.mem_append.mp hk with hk | hk
    · exact h k hk
    · rw [List.mem_singleton.mp hk]
      exact delivered_new channel clientId s.tx
  · intro k'' hk''
    rcases List.mem_or_eq_of_mem_set hk'' with hk'' | rfl
    · exact h k'' hk''
    · exact (h k (List.mem_of_getElem? hk)).next hnext
  · intro k' hk'
    obtain ⟨k, hk, phase, rfl⟩ := hmoved.conns k' hk'
    have hold := h k hk
    have hnew : Delivered s.tx { k with phase } :=
      ⟨hold.behind, hold.first_le, hold.out, hold.received⟩
    rcases hmoved.tx with htx | ⟨ev, htx⟩
    · rw [htx]
      exact hnew
    · rw [htx]
      exact hnew.send ev

theorem delivered_run {capacity : ℕ} {ok : State → Act → Prop}
    (h : Reach step ok (.boot capacity) s) : ∀ k ∈ s.conns, Delivered s.tx k :=
  h.inv (fun s => ∀ k ∈ s.conns, Delivered s.tx k) (fun _ hk => absurd hk List.not_mem_nil)
    fun _ _ _ ht _ hstep => delivered_step ht hstep

/-! ## The presence events that are sent -/

def kindOf (channel clientId : String) (ev : Publish.PubSubEvent) : Option PresenceKind :=
  match ev.kind with
  | .presence kind => if ev.channel = channel ∧ ev.clientId = clientId then some kind else none
  | .message _ => none

def kinds (channel clientId : String) (evs : List Publish.PubSubEvent) : List PresenceKind :=
  evs.filterMap (kindOf channel clientId)

/-- How often the pair has come or gone, whether that is announced yet or not. -/
def State.turns (s : State) (channel clientId : String) : ℕ :=
  (s.pres.events channel clientId).length + (s.pres.waiting channel clientId).length

/-- With somebody there to receive it, what is announced is in the channel. -/
def Grown (s s' : State) : Prop :=
  ∃ evs, s'.tx.sent = s.tx.sent ++ evs ∧ ∀ channel clientId,
    s'.pres.events channel clientId = s.pres.events channel clientId ++ kinds channel clientId evs ∧
    s.turns channel clientId ≤ s'.turns channel clientId

theorem grown_of_same (htx : s'.tx = s.tx) (hpres : s'.pres = s.pres) : Grown s s' := by
  refine ⟨[], by rw [htx, List.append_nil], fun channel clientId => ⟨?_, ?_⟩⟩
  · rw [hpres]
    exact (List.append_nil _).symm
  · rw [State.turns, State.turns, hpres]

theorem grown_of_update (htx : s'.tx = s.tx) (hsent : s'.pres.sent = s.pres.sent)
    (hcalls : s.pres.calls <+: s'.pres.calls) : Grown s s' := by
  refine ⟨[], by rw [htx, List.append_nil], fun channel clientId => ?_⟩
  have hevents : s'.pres.events channel clientId = s.pres.events channel clientId := by
    rw [Pubsub.State.events, hsent]
    rfl
  refine ⟨by rw [hevents]; exact (List.append_nil _).symm, ?_⟩
  rw [State.turns, State.turns, hevents]
  have hwaiting := ((hcalls.filter (Call.of channel clientId)).map Call.kind).length_le
  exact Nat.add_le_add_left hwaiting _

theorem prefix_ite {α : Type} {p : Prop} [Decidable p] (l more : List α) :
    l <+: if p then l ++ more else l := by
  split
  · exact List.prefix_append _ _
  · exact List.prefix_rfl

theorem send_open (h : ∃ k ∈ s.conns, k.released = false) (ev : Publish.PubSubEvent) :
    (s.send ev).tx = s.tx.send ev := by
  obtain ⟨k, hk, hopen⟩ := h
  unfold State.send
  rw [if_pos]
  exact List.any_eq_true.mpr ⟨k, hk, by rw [hopen]; rfl⟩

theorem grown_call {p p' : Pubsub.State} {i : ℕ} {ts : Int} {call : Call}
    (hcall : p.calls[i]? = some call) (horder : inOrder p (.send i ts))
    (hsent : p'.sent = p.sent ++ [⟨call.channel, call.clientId, ts, call.kind⟩])
    (hcalls : p'.calls = p.calls.eraseIdx i) (channel clientId : String) :
    p'.events channel clientId = p.events channel clientId ++
        kinds channel clientId [⟨call.channel, call.clientId, ts, .presence call.kind⟩] ∧
      (p.events channel clientId).length + (p.waiting channel clientId).length =
        (p'.events channel clientId).length + (p'.waiting channel clientId).length := by
  cases hof : call.of channel clientId with
  | true =>
    have hpair : call.channel = channel ∧ call.clientId = clientId := by
      simpa [Call.of] using hof
    have hfirst : ∀ j < i, ∀ y, p.calls[j]? = some y → y.of channel clientId = false := by
      intro j hj y hy
      have hearlier := horder call hcall j hj y hy
      rw [hpair.1, hpair.2] at hearlier
      simpa [Call.of] using hearlier
    have hwaiting : p.waiting channel clientId = call.kind :: p'.waiting channel clientId := by
      rw [Pubsub.State.waiting, filter_eraseIdx_first hcall hof hfirst, Pubsub.State.waiting, hcalls]
      rfl
    have hevents : p'.events channel clientId = p.events channel clientId ++ [call.kind] := by
      simp [Pubsub.State.events, hsent, Pubsub.PubSubEvent.of, hpair]
    refine ⟨?_, ?_⟩
    · rw [hevents]
      simp [kinds, kindOf, hpair]
    · rw [hevents, hwaiting, List.length_append, List.length_singleton, List.length_cons]
      omega
  | false =>
    have hpair : ¬ (call.channel = channel ∧ call.clientId = clientId) := by
      simpa [Call.of] using hof
    have hwaiting : p.waiting channel clientId = p'.waiting channel clientId := by
      rw [Pubsub.State.waiting, Pubsub.State.waiting, hcalls, filter_eraseIdx hcall hof]
    have hevents : p'.events channel clientId = p.events channel clientId := by
      simp [Pubsub.State.events, hsent, Pubsub.PubSubEvent.of, hpair]
    refine ⟨?_, by rw [hevents, hwaiting]⟩
    rw [hevents]
    simp [kinds, kindOf, hpair]

theorem grown_step (hopen : ∃ k ∈ s.conns, k.released = false) (hok : proper s a)
    (hstep : step s a = some s') : Grown s s' := by
  cases a with
  | subscribe channel clientId =>
    cases hstep
    exact grown_of_same rfl rfl
  | publish channel clientId data now =>
    cases hstep
    refine ⟨[_], by rw [send_open hopen]; rfl, fun c x => ⟨?_, ?_⟩⟩
    · rw [send_pres]
      exact (List.append_nil _).symm
    · rw [State.turns, State.turns, send_pres]
  | register n now =>
    obtain ⟨pa, hpa, h⟩ := Option.bind_eq_some_iff.mp hstep
    obtain ⟨pres, hpres, h⟩ := Option.bind_eq_some_iff.mp h
    cases h
    obtain ⟨k, -, hpa⟩ := Option.bind_eq_some_iff.mp hpa
    split at hpa
    · cases hpa
      cases hpres
      exact grown_of_update rfl rfl (prefix_ite _ _)
    · cases hpa
  | announce i ts =>
    obtain ⟨call, hcall, h⟩ := Option.bind_eq_some_iff.mp hstep
    obtain ⟨pres, hpres, h⟩ := Option.bind_eq_some_iff.mp h
    cases h
    have horder := (hok _ rfl).1
    simp only [Pubsub.step, hcall, Option.some.injEq] at hpres
    have hopen' : ∃ k ∈ ({ s with pres } : State).conns, k.released = false := hopen
    refine ⟨[_], by rw [send_open hopen']; rfl, fun channel clientId => ?_⟩
    have hsent : pres.sent = s.pres.sent ++ [⟨call.channel, call.clientId, ts, call.kind⟩] := by
      rw [← hpres]
    have hcalls : pres.calls = s.pres.calls.eraseIdx i := by rw [← hpres]
    have hgrown := grown_call hcall horder hsent hcalls channel clientId
    rw [State.turns, State.turns, send_pres]
    exact ⟨hgrown.1, Nat.le_of_eq hgrown.2⟩
  | dropGuard n =>
    obtain ⟨pa, hpa, h⟩ := Option.bind_eq_some_iff.mp hstep
    obtain ⟨pres, hpres, h⟩ := Option.bind_eq_some_iff.mp h
    cases h
    obtain ⟨k, -, hpa⟩ := Option.bind_eq_some_iff.mp hpa
    split at hpa
    · next g =>
      cases hpa
      simp only [Pubsub.step] at hpres
      split at hpres
      · next guard _ =>
        split at hpres
        · cases hpres
          exact grown_of_update rfl rfl (prefix_ite _ _)
        · cases hpres
      · cases hpres
    · cases hpa
  | poll n | receive n | hangUp n | release n | ask n | look n | answer n =>
    obtain ⟨k, hk, h⟩ := Option.bind_eq_some_iff.mp hstep
    obtain ⟨k', hk', h⟩ := Option.bind_eq_some_iff.mp h
    cases h
    exact grown_of_same rfl rfl

/-! ## What a client knows -/

/-- The frames from a number on are those of the events from a place on. -/
structure From (tx : Channel Publish.PubSubEvent) (k : Connection) (frames place : ℕ) : Prop where
  first_le : k.first ≤ place
  le_next : place ≤ k.rx.next
  frames_le : frames ≤ k.received
  older : ∀ item ∈ k.out.take frames, item.1 < place
  newer : k.out.drop frames = (k.rx.got tx place).filterMap k.yields

/-- Before the place the pair has come or gone at most `n` times, and by now at least so often. -/
def Counted (s : State) (channel clientId : String) (place n : ℕ) : Prop :=
  ∃ old, s.pres.events channel clientId = old ++ kinds channel clientId (s.tx.sent.drop place) ∧
    old.length ≤ n ∧ n ≤ s.turns channel clientId

/-- What was true of every pair at one time since the client had got so many frames. -/
def Marked (s : State) (k : Connection) (frames : ℕ) (tells : String → ℕ → Prop) : Prop :=
  ∃ place, From s.tx k frames place ∧
    ∀ x, ∃ n, Counted s k.channel x place n ∧ tells x n

/-- The roster lists a client that has come once more than it has gone. -/
def listsAt (roster : List PresenceClient) (clientId : String) (n : ℕ) : Prop :=
  Lists roster clientId ↔ n % 2 = 1

structure Knows (s : State) (k : Connection) : Prop where
  first : ∀ x, ∃ n, Counted s k.channel x k.first n
  asked : ∀ frames, k.lookup = .asked frames → Marked s k frames fun _ _ => True
  looked : ∀ frames roster, k.lookup = .looked frames roster →
    Marked s k frames (listsAt roster)
  roster : ∀ frames roster, k.roster = some (frames, roster) → Marked s k frames (listsAt roster)

variable {tells : String → ℕ → Prop}

theorem From.grows (h : From tx k frames place) (hk : Delivered tx k) (htx : tx.sent <+: tx'.sent) :
    From tx' k frames place :=
  ⟨h.first_le, h.le_next, h.frames_le, h.older, by
    rw [got_grows hk.behind.next_le htx]
    exact h.newer⟩

theorem From.poll (h : From tx k frames place) (hk : Delivered tx k) :
    From tx (k.poll tx) frames place where
  first_le := h.first_le
  le_next := h.le_next.trans (next_le_poll _ _)
  frames_le := h.frames_le
  older := by
    have hle : frames ≤ k.out.length := h.frames_le.trans hk.received
    simp only [Connection.poll, List.take_append_of_le_length hle]
    exact h.older
  newer := by
    have hle : frames ≤ k.out.length := h.frames_le.trans hk.received
    have hgot : (k.poll tx).rx.got tx place =
        k.rx.got tx place ++ (k.rx.poll tx).1.toList := got_poll hk.behind h.le_next
    calc (k.poll tx).out.drop frames
        = k.out.drop frames ++ ((k.rx.poll tx).1.bind k.yields).toList := by
          simp only [Connection.poll, List.drop_append_of_le_length hle]
      _ = (k.rx.got tx place ++ (k.rx.poll tx).1.toList).filterMap k.yields := by
          rw [List.filterMap_append, filterMap_toList, ← h.newer]
      _ = ((k.poll tx).rx.got tx place).filterMap k.yields := by rw [hgot]

theorem exists_from (hk : Delivered tx k) : ∃ place, From tx k k.received place := by
  have hreceived := hk.received
  rw [hk.out] at hreceived
  obtain ⟨place, hfirst, hnext, htake, hdrop⟩ := got_split hk.first_le hreceived
  rw [← hk.out] at htake hdrop
  refine ⟨place, hfirst, hnext, Nat.le_refl _, fun item hitem => ?_, hdrop⟩
  rw [htake] at hitem
  obtain ⟨⟨p, ev⟩, hgot, hyields⟩ := List.mem_filterMap.mp hitem
  obtain ⟨frame, -, rfl⟩ := Option.map_eq_some_iff.mp hyields
  exact (mem_got.mp hgot).2.1

theorem Counted.grown (h : Counted s channel x place n) (hplace : place ≤ s.tx.sent.length)
    (hgrown : Grown s s') : Counted s' channel x place n := by
  obtain ⟨old, hevents, hold, hn⟩ := h
  obtain ⟨evs, hsent, hpair⟩ := hgrown
  obtain ⟨hmore, hturns⟩ := hpair channel x
  refine ⟨old, ?_, hold, hn.trans hturns⟩
  rw [hmore, hevents, hsent, List.drop_append_of_le_length hplace, kinds, kinds, kinds,
    List.filterMap_append, List.append_assoc]

theorem Counted.later (h : Counted s channel x place n) {later : ℕ} (hle : place ≤ later) :
    Counted s channel x later (s.turns channel x) := by
  obtain ⟨old, hevents, -, -⟩ := h
  have hsplit : s.tx.sent.drop place =
      (s.tx.sent.drop place).take (later - place) ++ s.tx.sent.drop later := by
    have hcut := List.take_append_drop (later - place) (s.tx.sent.drop place)
    rw [List.drop_drop, Nat.add_sub_cancel' hle] at hcut
    exact hcut.symm
  rw [hsplit, kinds, List.filterMap_append, ← List.append_assoc] at hevents
  refine ⟨_, hevents, ?_, Nat.le_refl _⟩
  have hlength := congrArg List.length hevents
  rw [List.length_append] at hlength
  rw [State.turns]
  omega

theorem Marked.grown (h : Marked s k frames tells) (hk : Delivered s.tx k) (hgrown : Grown s s') :
    Marked s' k frames tells := by
  obtain ⟨place, hfrom, hcounted⟩ := h
  have htx : s.tx.sent <+: s'.tx.sent := by
    obtain ⟨evs, hsent, -⟩ := hgrown
    exact ⟨evs, hsent.symm⟩
  refine ⟨place, hfrom.grows hk htx, fun x => ?_⟩
  obtain ⟨n, hn, htells⟩ := hcounted x
  exact ⟨n, hn.grown (hfrom.le_next.trans hk.behind.next_le) hgrown, htells⟩

theorem Marked.poll (h : Marked s k frames tells) (hk : Delivered s.tx k) :
    Marked s (k.poll s.tx) frames tells := by
  obtain ⟨place, hfrom, hcounted⟩ := h
  exact ⟨place, hfrom.poll hk, hcounted⟩

theorem Marked.same (h : Marked s k frames tells) (hchannel : k'.channel = k.channel)
    (hclient : k'.clientId = k.clientId) (hrx : k'.rx = k.rx) (hfirst : k'.first = k.first)
    (hout : k'.out = k.out) (hreceived : k.received ≤ k'.received) :
    Marked s k' frames tells := by
  obtain ⟨place, hfrom, hcounted⟩ := h
  have hyields : k'.yields = k.yields := by
    funext item
    simp only [Connection.yields, Connection.stream, hchannel, hclient, hfirst]
  refine ⟨place, ⟨?_, ?_, hfrom.frames_le.trans hreceived, ?_, ?_⟩, ?_⟩
  · rw [hfirst]
    exact hfrom.first_le
  · rw [hrx]
    exact hfrom.le_next
  · rw [hout]
    exact hfrom.older
  · rw [hout, hrx, hyields]
    exact hfrom.newer
  · rw [hchannel]
    exact hcounted

theorem Knows.grown (h : Knows s k) (hk : Delivered s.tx k) (hgrown : Grown s s') : Knows s' k where
  first x := by
    obtain ⟨n, hn⟩ := h.first x
    exact ⟨n, hn.grown (hk.first_le.trans hk.behind.next_le) hgrown⟩
  asked frames hl := (h.asked frames hl).grown hk hgrown
  looked frames roster hl := (h.looked frames roster hl).grown hk hgrown
  roster frames roster hr := (h.roster frames roster hr).grown hk hgrown

theorem Knows.same (h : Knows s k) (hchannel : k'.channel = k.channel)
    (hclient : k'.clientId = k.clientId) (hrx : k'.rx = k.rx) (hfirst : k'.first = k.first)
    (hout : k'.out = k.out) (hreceived : k.received ≤ k'.received) (hlookup : k'.lookup = k.lookup)
    (hroster : k'.roster = k.roster) : Knows s k' where
  first := by
    rw [hchannel, hfirst]
    exact h.first
  asked f hl := (h.asked f (hlookup ▸ hl)).same hchannel hclient hrx hfirst hout hreceived
  looked f r hl := (h.looked f r (hlookup ▸ hl)).same hchannel hclient hrx hfirst hout hreceived
  roster f r hr := (h.roster f r (hroster ▸ hr)).same hchannel hclient hrx hfirst hout hreceived

/-! ## What the roster tells -/

theorem lists_presence {map : PresenceMap} :
    Lists (presence map channel) x ↔ (entryAt map channel x).isSome = true := by
  unfold presence entryAt Lists
  cases map.lookup channel with
  | none => simp
  | some clients =>
    rw [Option.bind_some, AList.lookup_isSome, AList.mem_keys, AList.keys, List.mem_keys]
    constructor
    · rintro ⟨c, hc, rfl⟩
      obtain ⟨⟨clientId, entry⟩, hentry, rfl⟩ := List.mem_map.mp hc
      exact ⟨entry, hentry⟩
    · rintro ⟨entry, hentry⟩
      exact ⟨_, List.mem_map.mpr ⟨⟨x, entry⟩, hentry, rfl⟩, rfl⟩

theorem Marked.look (h : Marked s k frames tells) (hann : ∀ c x, Announced s.pres c x) :
    Marked s k frames (listsAt (presence s.pres.map k.channel)) := by
  obtain ⟨place, hfrom, hcounted⟩ := h
  refine ⟨place, hfrom, fun x => ?_⟩
  obtain ⟨n, hn, -⟩ := hcounted x
  refine ⟨_, hn.later (Nat.le_refl _), ?_⟩
  have hparity := (hann k.channel x).2
  rw [List.length_append] at hparity
  exact lists_presence.trans hparity.symm

theorem Knows.ask (h : Knows s k) (hk : Delivered s.tx k) :
    Marked s k k.received fun _ _ => True := by
  obtain ⟨place, hfrom⟩ := exists_from hk
  refine ⟨place, hfrom, fun x => ?_⟩
  obtain ⟨n, hn⟩ := h.first x
  exact ⟨_, hn.later hfrom.first_le, trivial⟩

theorem Knows.next (h : Knows s k) (hk : Delivered s.tx k) (hann : ∀ c x, Announced s.pres c x)
    (hnext : k.next s a = some k') : Knows s k' := by
  obtain rfl | ⟨-, rfl⟩ | ⟨phase, rfl⟩ | rfl | rfl | ⟨frames, hl, rfl⟩ | ⟨frames, roster, hl, rfl⟩ :=
    next_cases hnext
  · exact ⟨h.first, fun f hl => (h.asked f hl).poll hk, fun f r hl => (h.looked f r hl).poll hk,
      fun f r hr => (h.roster f r hr).poll hk⟩
  · exact h.same rfl rfl rfl rfl rfl (Nat.le_succ _) rfl rfl
  · exact h.same rfl rfl rfl rfl rfl (Nat.le_refl _) rfl rfl
  · exact h.same rfl rfl rfl rfl rfl (Nat.le_refl _) rfl rfl
  · refine ⟨h.first, ?_, nofun,
      fun f r hr => (h.roster f r hr).same rfl rfl rfl rfl rfl (Nat.le_refl _)⟩
    rintro _ ⟨⟩
    exact (h.ask hk).same rfl rfl rfl rfl rfl (Nat.le_refl _)
  · refine ⟨h.first, nofun, ?_,
      fun f r hr => (h.roster f r hr).same rfl rfl rfl rfl rfl (Nat.le_refl _)⟩
    rintro _ _ ⟨⟩
    exact ((h.asked frames hl).look hann).same rfl rfl rfl rfl rfl (Nat.le_refl _)
  · refine ⟨h.first, nofun, nofun, ?_⟩
    rintro _ _ ⟨⟩
    exact (h.looked frames roster hl).same rfl rfl rfl rfl rfl (Nat.le_refl _)

/-! ## Runs -/

/-- The presence map counts and is announced, and each client knows what it can. -/
structure Inv (s : State) : Prop where
  counts : Pubsub.Inv s.pres
  announced : ∀ c x, Announced s.pres c x
  delivered : ∀ k ∈ s.conns, Delivered s.tx k
  knows : ∀ k ∈ s.conns, k.released = false → Knows s k

theorem presence_step (hstep : step s a = some s') :
    s'.pres = s.pres ∨ ∃ pa, a.presence s = some pa ∧ Pubsub.step s.pres pa = some s'.pres := by
  cases a with
  | subscribe channel clientId =>
    cases hstep
    exact Or.inl rfl
  | publish channel clientId data now =>
    cases hstep
    exact Or.inl (send_pres _ _)
  | register n now | dropGuard n =>
    obtain ⟨pa, hpa, h⟩ := Option.bind_eq_some_iff.mp hstep
    obtain ⟨pres, hpres, h⟩ := Option.bind_eq_some_iff.mp h
    cases h
    exact Or.inr ⟨pa, hpa, hpres⟩
  | announce i ts =>
    obtain ⟨call, hcall, h⟩ := Option.bind_eq_some_iff.mp hstep
    obtain ⟨pres, hpres, h⟩ := Option.bind_eq_some_iff.mp h
    cases h
    rw [send_pres]
    exact Or.inr ⟨_, rfl, hpres⟩
  | poll n | receive n | hangUp n | release n | ask n | look n | answer n =>
    obtain ⟨k, hk, h⟩ := Option.bind_eq_some_iff.mp hstep
    obtain ⟨k', hk', h⟩ := Option.bind_eq_some_iff.mp h
    cases h
    exact Or.inl rfl

theorem knows_new (channel clientId : String) : Knows s (.new channel clientId s.tx) where
  first x := by
    refine ⟨_, s.pres.events channel x, ?_, Nat.le_add_right _ _, Nat.le_refl _⟩
    have hend : s.tx.sent.drop s.tx.subscribe = [] := List.drop_length
    simp only [Connection.new, hend]
    exact (List.append_nil _).symm
  asked := nofun
  looked := nofun
  roster := nofun

theorem released_next (hnext : k.next s a = some k') (h : k'.released = false) :
    k.released = false := by
  obtain rfl | ⟨-, rfl⟩ | ⟨phase, rfl⟩ | rfl | rfl | ⟨frames, -, rfl⟩ | ⟨frames, roster, -, rfl⟩ :=
    next_cases hnext
  case inr.inr.inr.inl => cases h
  all_goals exact h

theorem inv_step (h : Inv s) (hok : proper s a) (hstep : step s a = some s') : Inv s' := by
  have hdelivered := delivered_step h.delivered hstep
  have hpres : Pubsub.Inv s'.pres ∧ ∀ c x, Announced s'.pres c x := by
    rcases presence_step hstep with hsame | ⟨pa, hpa, hpres⟩
    · rw [hsame]
      exact ⟨h.counts, h.announced⟩
    · obtain ⟨horder, hbounded⟩ := hok pa hpa
      exact ⟨Pubsub.inv_step h.counts hbounded hpres,
        fun c x => announced_step (h.announced c x) horder hpres⟩
  refine ⟨hpres.1, hpres.2, hdelivered, ?_⟩
  obtain ⟨channel, clientId, rfl⟩ | ⟨n, k, k', hk, hnext, rfl⟩ | hmoved := step_cases hstep
  · intro k hk hopen
    rcases List.mem_append.mp hk with hk | hk
    · exact (h.knows k hk hopen).grown (h.delivered k hk) (grown_of_same rfl rfl)
    · rw [List.mem_singleton.mp hk]
      exact knows_new channel clientId
  · intro k'' hk'' hopen
    have hmem := List.mem_of_getElem? hk
    rcases List.mem_or_eq_of_mem_set hk'' with hk'' | rfl
    · exact (h.knows k'' hk'' hopen).grown (h.delivered k'' hk'') (grown_of_same rfl rfl)
    · have hknows := h.knows k hmem (released_next hnext hopen)
      have hnew := hknows.next (h.delivered k hmem) h.announced hnext
      exact hnew.grown ((h.delivered k hmem).next hnext) (grown_of_same rfl rfl)
  · intro k' hk' hopen
    obtain ⟨k, hk, phase, rfl⟩ := hmoved.conns k' hk'
    have hgrown := grown_step ⟨k, hk, hopen⟩ hok hstep
    have hknows := (h.knows k hk hopen).grown (h.delivered k hk) hgrown
    exact hknows.same rfl rfl rfl rfl rfl (Nat.le_refl _) rfl rfl

theorem inv_run {capacity : ℕ} (h : Reach step proper (.boot capacity) s) : Inv s := by
  refine h.inv Inv ⟨?_, ?_, fun _ hk => absurd hk List.not_mem_nil,
    fun _ hk => absurd hk List.not_mem_nil⟩ fun _ _ _ ht hok hstep => inv_step ht hok hstep
  · refine ⟨fun c x => rfl, ?_, fun c x => rfl, by simp [State.boot, Pubsub.State.start]⟩
    intro channel clients hl
    simp [State.boot, Pubsub.State.start] at hl
  · intro c x
    refine ⟨fun i kind hkind => ?_, ?_⟩
    · simp [Pubsub.State.events, Pubsub.State.waiting, State.boot, Pubsub.State.start] at hkind
    · simp [Pubsub.State.events, Pubsub.State.waiting, State.boot, Pubsub.State.start, entryAt]

/-- Whatever comes and goes, a stream yields each event that is sent after its subscription, is for
its channel and comes from another client, in order and once. It loses those only that at least as
many newer events have overwritten as the ring has slots. -/
theorem stream_delivers {capacity : ℕ} (h : Reach step anyStep (.boot capacity) s)
    (hk : s.conns[n]? = some k) : Delivered s.tx k :=
  delivered_run h k (List.mem_of_getElem? hk)

theorem presenceOf_yields (hx : x ≠ k.clientId) (item : ℕ × Publish.PubSubEvent) :
    ((k.yields item).bind fun out => presenceOf x out.2) = kindOf k.channel x item.2 := by
  obtain ⟨p, ev⟩ := item
  have hyields : k.yields (p, ev) = (k.stream.onEvent ev).map fun frame => (p, frame) := rfl
  rw [hyields]
  by_cases hskip : ev.channel ≠ k.channel ∨ ev.clientId = k.clientId
  · have hnone : k.stream.onEvent ev = none := if_pos hskip
    have hother : ¬ (ev.channel = k.channel ∧ ev.clientId = x) := by
      rintro ⟨hchannel, hclient⟩
      exact hskip.elim (fun h => h hchannel) fun h => hx (hclient.symm.trans h)
    rw [hnone, kindOf]
    cases ev.kind with
    | message data => rfl
    | presence kind => exact (if_neg hother).symm
  · have hshown := hskip
    rw [not_or, not_not] at hshown
    cases hkind : ev.kind with
    | message data =>
      have hsome : k.stream.onEvent ev = some (.message ev.channel ev.clientId ev.ts data) := by
        simp only [Publish.EventStream.onEvent, hkind]
        exact if_neg hskip
      rw [hsome, kindOf, hkind]
      rfl
    | presence kind =>
      have hsome : k.stream.onEvent ev = some (.presence
          { channel := ev.channel, clientId := ev.clientId, ts := ev.ts, kind }) := by
        simp only [Publish.EventStream.onEvent, hkind]
        exact if_neg hskip
      rw [hsome, kindOf, hkind]
      simp [presenceOf, hshown.1]

/-- A client that has asked for the roster after its stream was open, has lost nothing since and has
got all that was sent, sees just the clients that have a live subscription, as long as events are
announced in the order of their updates. -/
theorem sees_present {capacity : ℕ} (h : Reach step proper (.boot capacity) s)
    (hk : s.conns[n]? = some k) (hcaught : CaughtUp s k) (hx : x ≠ k.clientId)
    (hquiet : s.pres.waiting k.channel x = []) :
    k.Sees x ↔ 0 < live s.pres.guards k.channel x := by
  have hinv := inv_run h
  have hmem := List.mem_of_getElem? hk
  obtain ⟨frames, roster, hroster, hlost⟩ := hcaught.asked
  obtain ⟨place, hfrom, hcounted⟩ :=
    (hinv.knows k hmem hcaught.open_).roster frames roster hroster
  obtain ⟨m, ⟨old, hevents, hold, hturns⟩, hlists⟩ := hcounted x
  have hheard : k.heard frames x = kinds k.channel x (s.tx.sent.drop place) := by
    have hall : (k.rx.got s.tx place).map Prod.snd = s.tx.sent.drop place := by
      refine got_all hcaught.read hfrom.le_next fun p hp => ?_
      obtain ⟨item, hitem, hlt⟩ := hlost p hp
      exact hlt.trans (hfrom.older item hitem)
    rw [Connection.heard, hcaught.received, List.take_length, hfrom.newer, List.filterMap_filterMap,
      kinds, ← hall, List.filterMap_map]
    exact List.filterMap_congr fun item _ => presenceOf_yields hx item
  have hentry : (entryAt s.pres.map k.channel x).isSome = true ↔
      0 < live s.pres.guards k.channel x := by
    have hentered := hinv.counts.entry k.channel x
    cases hat : entryAt s.pres.map k.channel x with
    | none =>
      rw [hat, Entered] at hentered
      simp [hentered]
    | some entry =>
      rw [hat, Entered] at hentered
      simp [hentered.1]
  obtain ⟨halt, hparity⟩ := hinv.announced k.channel x
  rw [hquiet, List.append_nil] at halt hparity
  rw [State.turns, hquiet, List.length_nil, Nat.add_zero] at hturns
  have hsees : k.Sees x ↔ match (k.heard frames x).getLast? with
      | some kind => kind = .join
      | none => Lists roster x := by
    rw [Connection.Sees, hroster]
    simp
  rw [hsees, hheard, ← hentry, ← hparity]
  cases hlast : (kinds k.channel x (s.tx.sent.drop place)).getLast? with
  | none =>
    rw [List.getLast?_eq_none_iff.mp hlast, List.append_nil] at hevents
    have hm : m = (s.pres.events k.channel x).length := by
      rw [hevents] at hturns ⊢
      exact Nat.le_antisymm hturns hold
    rw [← hm]
    exact hlists
  | some kind =>
    have hend : (s.pres.events k.channel x).getLast? = some kind := by
      rw [hevents, List.getLast?_append, hlast]
      rfl
    rw [← halt.last, hend]
    simp

instance (s : Pubsub.State) : (a : Pubsub.Act) → Decidable (inOrder s a)
  | .send i _ => inferInstanceAs (Decidable (∀ call ∈ s.calls[i]?, ∀ j < i,
      ∀ earlier ∈ s.calls[j]?,
        ¬ (earlier.channel = call.channel ∧ earlier.clientId = call.clientId)))
  | .register .. | .drop _ => isTrue trivial

instance (s : State) (a : Act) : Decidable (proper s a) :=
  inferInstanceAs (Decidable (∀ pa ∈ a.presence s, inOrder s.pres pa ∧ bounded s.pres pa))

/-- Ada reads the roster while Bob is there. Then Carol comes and Bob goes. -/
def comings : List Act :=
  [.subscribe "room" "ada", .register 0 1, .announce 0 1, .subscribe "room" "bob", .register 1 2,
   .announce 0 2, .poll 0, .poll 0, .receive 0, .ask 0, .look 0, .answer 0,
   .subscribe "room" "carol", .register 2 3, .announce 0 3, .hangUp 1, .dropGuard 1,
   .publish "room" "bob" .null 4, .announce 0 4, .release 1, .poll 0, .poll 0, .poll 0, .receive 0,
   .receive 0, .receive 0]

theorem stream_delivers_comings :
    ∃ s k, exec step (.boot 16) comings = some s ∧ s.conns[0]? = some k ∧ k.out.length = 4 ∧
      Delivered s.tx k := by
  obtain ⟨s, k, hexec, hk, hlength⟩ : ∃ s k, exec step (.boot 16) comings = some s ∧
      s.conns[0]? = some k ∧ k.out.length = 4 := ⟨_, _, rfl, rfl, rfl⟩
  exact ⟨s, k, hexec, hk, hlength, stream_delivers (.of_exec comings (.any _ _) hexec) hk⟩

theorem sees_present_comings :
    ∃ s k, exec step (.boot 16) comings = some s ∧ s.conns[0]? = some k ∧
      0 < live s.pres.guards "room" "carol" ∧
      (k.Sees "carol" ↔ 0 < live s.pres.guards "room" "carol") := by
  obtain ⟨s, k, hexec, hk, hcaught, hquiet, hclient, hchannel, hlive⟩ :
      ∃ s k, exec step (.boot 16) comings = some s ∧ s.conns[0]? = some k ∧ CaughtUp s k ∧
        s.pres.waiting k.channel "carol" = [] ∧ k.clientId = "ada" ∧ k.channel = "room" ∧
        0 < live s.pres.guards "room" "carol" := by
    refine ⟨_, _, rfl, rfl, ⟨⟨_, _, rfl, ?_⟩, rfl, rfl, rfl⟩, rfl, rfl, rfl, by decide⟩
    exact fun _ hp => absurd hp List.not_mem_nil
  have hallowed : Allowed step proper (.boot 16) comings := by decide
  have hsees := sees_present (.of_exec comings hallowed hexec) hk hcaught
    (x := "carol") (by rw [hclient]; decide) hquiet
  rw [hchannel] at hsees
  exact ⟨s, k, hexec, hk, hlive, hsees⟩

end TinyLord.Room
