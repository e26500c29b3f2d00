import Mathlib.Data.List.DropRight
import TinyLord.Api.Store
import TinyLord.Lib.Replica
import TinyLord.Realtime.Batch

/-!
# A client that keeps a copy of a collection

It subscribes, reads documents, and applies the changes. On a resync it forgets what it has and
reads again. When the connection breaks it comes back with the number of the last change it got.
-/

open Lib.Run Lib.Broadcast Lib.Replica Lib.Sequence Lib.Transaction

namespace TinyLord.Replica

open Realtime
open Store (Among Distinct)

/-! ## The client -/

def isChange : Sse → Bool
  | .change _ => true
  | .resync => false

def sinceResync (out : List Sse) : List Sse := out.rtakeWhile isChange

def key (ev : ChangeEvent) : String × String := (ev.collection, ev.id)

abbrev Documents := String → Option (Option Json)

/-- One writer, one connection and one client. The log is in the hub, and the tables in `db`. -/
structure Session where
  db : Database
  hub : Hub
  /-- What the client has read. Nothing is known of the other documents. -/
  read : Documents
  /-- Responses on their way to the client. -/
  responses : List Documents
  lastEventId : Option Int

def Session.start (rq : Request) : Session :=
  { db := .empty, hub := .fresh rq, read := fun _ => none, responses := [], lastEventId := none }

/-- The client's copy of a document, if it has one. -/
def Session.copy (rq : Request) (s : Session) (id : String) : Option (Option Json) :=
  Lib.Replica.copy key (·.doc) (s.read id) (changes (sinceResync s.hub.out)) (rq.coll, id)

/-- `lastEventId = event.id ?? lastEventId` -/
def Session.lastSeen (s : Session) : Option Int :=
  match (changes s.hub.out).getLast? with
  | some ev => some ev.seq
  | none => s.lastEventId

/-- The connection is gone. The client keeps its copy. -/
def Session.leave (rq : Request) (s : Session) : Session :=
  { s with
    hub := { s.hub with subscriber := .idle, out := [] }
    read := s.copy rq
    responses := []
    lastEventId := s.lastSeen }

/-- A client that has no number to come back with starts over. -/
def Session.connect (s : Session) : Session :=
  { s with read := if s.lastEventId.isSome then s.read else fun _ => none }

/-- On a resync it starts over, and does not wait for what it has asked for. -/
def Session.receive (s : Session) (hub : Hub) : Session :=
  let items := hub.out.drop s.hub.out.length
  let db := { s.db with changelog := hub.changelog }
  if items.all isChange then { s with hub, db }
  else { s with hub, db, read := fun _ => none, responses := [] }

inductive Act where
  | batch (ops : List (Command × Env)) (faults : List Fault)
  | hub (a : Realtime.Act)
  | connect
  | disconnect
  /-- The server stops and starts again. -/
  | restart
  /-- The client asks for documents, and one statement reads them. -/
  | select (ids : String → Bool)
  | response (i : Nat)

/-- The writer and the subscriber, but for the two acts that the session does in full. -/
def stepHub (rq : Request) (hub : Hub) : Realtime.Act → Option Hub
  | .commit _ | .attach _ => none
  | a => Realtime.step rq hub a

def step (ctx : Ctx) (rq : Request) (s : Session) : Act → Option Session
  | .batch ops faults =>
    match s.hub.writer with
    | .idle =>
      let o := runBatch ctx ops (.open s.db faults)
      some { s with
        db := o.conn.committed
        hub := { s.hub with
          changelog := o.conn.committed.changelog
          writer := if o.committed && !o.events.isEmpty then .broadcasting o.events else .idle
          committed := s.hub.committed ++ o.events } }
    | _ => none
  | .hub a => (stepHub rq s.hub a).map s.receive
  | .connect =>
    (stepSubscriber rq s.hub (.attach s.lastEventId)).map fun hub => { s.connect with hub }
  | .disconnect => some (s.leave rq)
  | .restart =>
    let s := s.leave rq
    some { s with hub := { s.hub with channel := channel (max rq.capacity 1), writer := .idle } }
  | .select ids =>
    match s.hub.subscriber with
    | .streaming .. =>
      let read id := (fetchDocument rq.readFloat s.db rq.coll id).map (·.doc)
      let docs id := if ids id then some (read id) else none
      some { s with responses := s.responses ++ [docs] }
    | _ => none
  | .response i =>
    s.responses[i]?.map fun docs =>
      { s with read := fun id => (docs id).or (s.read id), responses := s.responses.eraseIdx i }

/-- What a command writes. -/
def Command.doc : Command → Option Json
  | .create _ doc | .replace _ _ doc => some doc
  | .delete .. => none

/-- The batches name collections of the set and none is taken back by a failing statement. The
documents that they write read back as they are. And no trim takes a row that a client that comes
back is about to be sent. -/
def proper (ctx : Ctx) (rq : Request) (names : Set String) (s : Session) : Act → Prop
  | .batch ops faults => (∀ op ∈ ops, op.1.collection ∈ names) ∧
      (∀ op ∈ ops, ∀ doc ∈ Command.doc op.1, doc.survives rq.readFloat = true) ∧
      KeepsTransaction ctx ops (.open s.db faults)
  | .hub a => trimSpares rq s.hub a
  | _ => True

/-! ## What came since the last resync -/

section

variable {out items : List Sse} {ev : ChangeEvent} {n : Int} {plan : ResumePlan}

@[simp] theorem sinceResync_change :
    sinceResync (out ++ [.change ev]) = sinceResync out ++ [.change ev] :=
  List.rtakeWhile_concat_pos _ _ _ rfl

@[simp] theorem sinceResync_resync : sinceResync (out ++ [.resync]) = [] :=
  List.rtakeWhile_concat_neg _ _ _ nofun

theorem not_bridged : ¬ Bridged (sinceResync out) n := by
  rintro ⟨before, after, heq, -, -⟩
  have hmem : Sse.resync ∈ sinceResync out := by simp [heq]
  exact absurd (List.mem_rtakeWhile_imp hmem) nofun

theorem openStream_changes (h : plan.resync = false) : (openStream plan).all isChange = true := by
  simp [openStream, h, isChange]

theorem sinceResync_openStream (h : plan.resync = false) :
    sinceResync (openStream plan) = openStream plan :=
  List.rtakeWhile_eq_self_iff.mpr (List.all_eq_true.mp (openStream_changes h))

end

/-! ## The documents are what the changes have left -/

section

variable {names : Set String} {D D' : Database} {evs new : List ChangeEvent} {ev : ChangeEvent}
  {c : Change} {batch : List (Command × Env)} {replies : List Reply}

/-- The events lead to the documents, and one without a document is a delete. -/
structure Tracks (names : Set String) (D : Database) (evs : List ChangeEvent) : Prop where
  docs : ∀ n ∈ names, ∀ x, (D.find n x).map (·.doc) = state key (·.doc) evs (n, x)
  gone : ∀ ev ∈ evs, ev.doc = none → ev.op = .delete

theorem follow_doc {st st' : Option DocRow} (h : follow st c = some st') :
    st'.map (·.doc) = c.doc ∧ (c.doc = none → c.op = .delete) := by
  unfold follow at h
  split at h
  · cases h
    simp_all
  · cases h
    simp_all
  · cases h
    simp_all
  · cases h

theorem Tracks.changed (hnames : Distinct names) (hc : c.collection ∈ names)
    (h : Tracks names D evs) (hch : Changed D D' c ev) : Tracks names D' (evs ++ [ev]) where
  docs n hn x := by
    have hev := hch.event
    subst hev
    rw [state_concat]
    split
    · next hkey =>
      obtain ⟨rfl, rfl⟩ := Prod.mk.inj hkey
      exact (follow_doc (hch.self _ rfl)).1
    · next hkey =>
      rw [hch.other n x ?_, h.docs n hn x]
      rintro ⟨hfold, rfl⟩
      exact hkey (congrArg (·, c.docId) (hnames n hn _ hc hfold).symm)
  gone := by
    intro e he hdoc
    rcases List.mem_append.mp he with he | he
    · exact h.gone e he hdoc
    · obtain rfl := List.mem_singleton.mp he
      have hev := hch.event
      subst hev
      exact (follow_doc (hch.self _ rfl)).2 hdoc

theorem Tracks.serial (hnames : Distinct names) (h : Tracks names D evs)
    (hserial : Serial D batch replies new D') (hbatch : ∀ op ∈ batch, op.1.collection ∈ names) :
    Tracks names D' (evs ++ new) := by
  induction hserial generalizing evs with
  | nil => rwa [List.append_nil]
  | failed e _ ih => exact ih h (List.forall_mem_cons.mp hbatch).2
  | missed _ _ ih => exact ih h (List.forall_mem_cons.mp hbatch).2
  | acked heff _ ih =>
    obtain ⟨hop, hrest⟩ := List.forall_mem_cons.mp hbatch
    obtain ⟨c, hcoll, hch, -, -⟩ := heff.changed
    have hone := h.changed hnames (hcoll ▸ hop) hch
    have hall := ih hone hrest
    rwa [List.append_assoc, List.singleton_append] at hall

theorem among_serial (h : Among names D) (hserial : Serial D batch replies new D')
    (hbatch : ∀ op ∈ batch, op.1.collection ∈ names) : Among names D' := by
  induction hserial with
  | nil => exact h
  | failed e _ ih => exact ih h (List.forall_mem_cons.mp hbatch).2
  | missed _ _ ih => exact ih h (List.forall_mem_cons.mp hbatch).2
  | acked heff _ ih =>
    obtain ⟨hop, hrest⟩ := List.forall_mem_cons.mp hbatch
    exact ih (h.effect hop heff) hrest

end

/-! ## The documents read back as they were written -/

section

variable {rq : Request} {names : Set String} {D D' : Database} {evs new : List ChangeEvent}
  {ev : ChangeEvent} {env : Env} {cmd : Command} {reply : Reply} {batch : List (Command × Env)}
  {replies : List Reply}

def Lasting (rq : Request) (evs : List ChangeEvent) : Prop :=
  ∀ ev ∈ evs, ∀ doc ∈ ev.doc, doc.survives rq.readFloat = true

theorem event_doc (h : Effect env cmd D reply ev D') : ev.doc = Command.doc cmd := by
  cases cmd with
  | create coll doc => rw [h.2.2.event]; rfl
  | replace coll id doc =>
    simp only [Effect] at h
    split at h
    · rw [h.2.event]; rfl
    · rw [h.2.event]; rfl
  | delete coll id => rw [h.2.2.event]; rfl

theorem Lasting.serial (h : Lasting rq evs) (hserial : Serial D batch replies new D')
    (hbatch : ∀ op ∈ batch, ∀ doc ∈ Command.doc op.1, doc.survives rq.readFloat = true) :
    Lasting rq (evs ++ new) := by
  induction hserial generalizing evs with
  | nil => rwa [List.append_nil]
  | failed e _ ih => exact ih h (List.forall_mem_cons.mp hbatch).2
  | missed _ _ ih => exact ih h (List.forall_mem_cons.mp hbatch).2
  | @acked _ _ _ _ _ _ _ _ ev _ heff _ ih =>
    obtain ⟨hop, hrest⟩ := List.forall_mem_cons.mp hbatch
    have hone : Lasting rq (evs ++ [ev]) := by
      intro e he
      rcases List.mem_append.mp he with he | he
      · exact h e he
      · obtain rfl := List.mem_singleton.mp he
        rw [event_doc heff]
        exact hop
    have hall := ih hone hrest
    rwa [List.append_assoc, List.singleton_append] at hall

theorem Lasting.row {hub : Hub} (h : Lasting rq hub.committed) (hl : LogInv hub) {r : ChangelogRow}
    (hr : r ∈ hub.changelog) : r.survives rq.readFloat = true := by
  have hmem := hl.isLogOf.mem_committed (List.mem_map_of_mem (f := ChangelogRow.toEvent) hr)
  rw [ChangelogRow.survives, Option.all_eq_true]
  exact h _ hmem

theorem fetchDocument_find (hnames : Distinct names) (h : Among names D) (ht : Tracks names D evs)
    (hlast : Lasting rq evs) (hcoll : rq.coll ∈ names) (x : String) :
    fetchDocument rq.readFloat D rq.coll x = D.find rq.coll x := by
  have hfind : (visible D rq.coll).find? (fun r => r.id == x) = D.find rq.coll x :=
    Store.find_visible hnames h hcoll
  rw [fetchDocument_eq, hfind]
  cases hrow : D.find rq.coll x with
  | none => rfl
  | some row =>
    have hdoc := ht.docs _ hcoll x
    rw [hrow, state] at hdoc
    obtain ⟨ev, hev, hsome⟩ := Option.bind_eq_some_iff.mp hdoc.symm
    have hsurvives := hlast ev (latest_mem hev).1 row.doc hsome
    rw [Option.map_some, DocRow.reread, row.doc.reread_of_survives hsurvives]

end

/-! ## The stream as the client sees it -/

section

variable {rq : Request} {hub hub' : Hub} {next : Nat} {maxSent b last : Int} {a : Realtime.Act}
  {docs : Documents}

/-- What was read is current up to `b`. -/
def Current (rq : Request) (committed : List ChangeEvent) (b : Int) (docs : Documents) : Prop :=
  ∀ x v, docs x = some v →
    Known key (·.seq) (·.doc) (Wanted rq) committed b (rq.coll, x) v

/-- Since the last resync the stream brings what is wanted from `b` on, and nothing older. -/
structure Synced (rq : Request) (hub : Hub) (next : Nat) (maxSent b : Int) : Prop where
  stream : StreamInv rq { hub with out := sinceResync hub.out } next maxSent b
  below : ∀ ev ∈ changes hub.out, ev.seq ≤ maxSent
  after : ∀ ev ∈ changes (sinceResync hub.out), b < ev.seq
  bound : b ≤ maxKey (·.seq) hub.committed
  ahead : ∀ ev ∈ hub.ahead next, maxSent < ev.seq → b < ev.seq

theorem stepWriter_out (out : List Sse) (h : stepWriter rq hub a = some hub') :
    stepWriter rq { hub with out } a = some { hub' with out } := by
  cases a with
  | commit batch =>
    simp only [stepWriter] at h ⊢
    split at h <;> cases h
    rfl
  | broadcast =>
    simp only [stepWriter] at h ⊢
    split at h <;> cases h
    rfl
  | trim =>
    simp only [stepWriter] at h ⊢
    split at h <;> cases h
    rfl
  | trimFailed =>
    simp only [stepWriter] at h ⊢
    split at h <;> cases h
    rfl
  | attach _ | readMax | readMin | replay | recv => cases h

theorem logInv_out (hl : LogInv hub) (out : List Sse) : LogInv { hub with out } :=
  ⟨hl.increasing, hl.log, hl.newest, hl.sent⟩

theorem committed_grows (hl : LogInv hub) (h : stepWriter rq hub a = some hub') :
    ∃ new, hub'.committed = hub.committed ++ new ∧
      ∀ ev ∈ new, maxKey (·.seq) hub.committed < ev.seq := by
  rcases stepWriter_cases h with ⟨batch, -, rfl⟩ | ⟨ev, evs, -, rfl⟩ | ⟨-, -, rfl⟩ | ⟨-, rfl⟩
  · exact ⟨_, rfl, (commitBatch_spec _ _ batch hl.isLogOf).2⟩
  all_goals exact ⟨[], (List.append_nil _).symm, nofun⟩

theorem ahead_stepWriter {ev : ChangeEvent} (hl : LogInv hub)
    (hpos : next ≤ hub.channel.sent.length) (h : stepWriter rq hub a = some hub') (hev : ev ∈ hub'.ahead next) :
    ev ∈ hub.ahead next ∨ maxKey (·.seq) hub.committed < ev.seq := by
  rcases stepWriter_cases h with ⟨batch, hw, rfl⟩ | ⟨ev, evs, hw, rfl⟩ | ⟨-, hw, rfl⟩ | ⟨hw, rfl⟩
  · obtain ⟨-, hgt⟩ := commitBatch_spec _ _ batch hl.isLogOf
    rw [Hub.ahead, List.mem_append] at hev
    rcases hev with hev | hev
    · exact Or.inl (List.mem_append_left _ hev)
    · right
      apply hgt
      cases hb : (commitBatch hub.changelog batch).2 with
      | nil => simp [hb, Writer.pending] at hev
      | cons ev evs => simpa [hb, Writer.pending] using hev
  · left
    simpa [Hub.ahead, hw, Writer.pending, List.drop_append_of_le_length hpos] using hev
  · left
    simpa [Hub.ahead, hw, Writer.pending] using hev
  · left
    simpa [Hub.ahead, hw, Writer.pending] using hev

theorem ahead_kept {currentMax : Int} (hpos : next ≤ hub.channel.sent.length)
    (h : ∀ ev ∈ hub.committed, currentMax < ev.seq → ev ∈ hub.ahead next)
    (hs : stepWriter rq hub a = some hub') :
    ∀ ev ∈ hub'.committed, currentMax < ev.seq → ev ∈ hub'.ahead next := by
  rcases stepWriter_cases hs with ⟨batch, hw, rfl⟩ | ⟨ev, evs, hw, rfl⟩ | ⟨-, hw, rfl⟩ | ⟨hw, rfl⟩
  · intro ev hev hlt
    rw [Hub.ahead, List.mem_append]
    rcases List.mem_append.mp hev with hold | hnew
    · left
      simpa [Hub.ahead, hw, Writer.pending] using h ev hold hlt
    · right
      cases hb : (commitBatch hub.changelog batch).2 with
      | nil => simp [hb] at hnew
      | cons ev evs => simpa [hb, Writer.pending] using hnew
  · simpa [Hub.ahead, hw, Writer.pending, List.drop_append_of_le_length hpos] using h
  · simpa [Hub.ahead, hw, Writer.pending] using h
  · simpa [Hub.ahead, hw, Writer.pending] using h

theorem Current.stepWriter (h : Current rq hub.committed b docs)
    (hb : b ≤ maxKey (·.seq) hub.committed) (hl : LogInv hub)
    (hs : stepWriter rq hub a = some hub') : Current rq hub'.committed b docs := by
  obtain ⟨new, hcom, hnew⟩ := committed_grows hl hs
  intro x v hv
  rw [hcom]
  exact (h x v hv).grow fun ev hev => hb.trans_lt (hnew ev hev)

theorem Synced.stepWriter (h : Synced rq hub next maxSent b) (hl : LogInv hub)
    (hs : stepWriter rq hub a = some hub') : Synced rq hub' next maxSent b := by
  obtain ⟨-, hout, -, -⟩ := stepWriter_frame hs
  refine ⟨?_, hout ▸ h.below, hout ▸ h.after, h.bound.trans (hl.maxKey_mono hs), ?_⟩
  · rw [hout]
    exact h.stream.stepWriter (logInv_out hl _) (stepWriter_out _ hs)
  · intro ev hev hlt
    rcases ahead_stepWriter hl h.stream.position hs hev with hold | hnew
    · exact h.ahead ev hold hlt
    · exact h.bound.trans_lt hnew

/-! ## One item of the stream -/

theorem Synced.skip {ev : ChangeEvent} {max' start planned : Int}
    (h : Synced rq hub next maxSent b) (hl : LogInv hub) (hev : hub.channel.sent[next]? = some ev)
    (hle : maxSent ≤ max') (hmax : max' = maxSent ∨ max' = ev.seq)
    (hskip : ev.seq ≤ maxSent ∨ ¬ Wanted rq ev) :
    Synced rq { hub with subscriber := .streaming (next + 1) max' start planned } (next + 1) max'
      b := by
  have hstream := @StreamInv.skip _ _ _ _ _ ev max' start planned h.stream (logInv_out hl _) hev hle
    hmax hskip
  obtain ⟨hcons, -, -⟩ := hl.ahead_cons hev
  refine ⟨by simpa using hstream, fun e he => (h.below e he).trans hle, h.after, h.bound, ?_⟩
  intro e he hlt
  exact h.ahead e (hcons ▸ List.mem_cons_of_mem _ he) (hle.trans_lt hlt)

theorem Synced.yield {ev : ChangeEvent} {start planned : Int}
    (h : Synced rq hub next maxSent b) (hl : LogInv hub) (hev : hub.channel.sent[next]? = some ev)
    (hlt : maxSent < ev.seq) (hwant : Wanted rq ev) :
    Synced rq { hub with
        subscriber := .streaming (next + 1) ev.seq start planned
        out := hub.out ++ [.change ev] } (next + 1) ev.seq b := by
  have hstream := @StreamInv.yield _ _ _ _ _ ev start planned h.stream (logInv_out hl _) hev hlt
    hwant
  obtain ⟨hcons, -, -⟩ := hl.ahead_cons hev
  have hb := h.ahead ev (hcons ▸ List.mem_cons_self) hlt
  refine ⟨by simpa using hstream, ?_, ?_, h.bound, ?_⟩
  · simp only [changes_append, changes_change, List.forall_mem_append, List.forall_mem_singleton]
    exact ⟨fun e he => (h.below e he).trans hlt.le, le_refl _⟩
  · simp only [sinceResync_change, changes_append, changes_change, List.forall_mem_append,
      List.forall_mem_singleton]
    exact ⟨h.after, hb⟩
  · intro e _ he
    exact hb.trans he

theorem Synced.lagged {next' : Nat} {start planned : Int} (h : Synced rq hub next maxSent b)
    (hl : LogInv hub) (hpos : next' ≤ hub.channel.sent.length) :
    ∃ b', Synced rq { hub with
        subscriber := .streaming next' maxSent start planned
        out := hub.out ++ [.resync] } next' maxSent b' := by
  obtain ⟨before, hsplit⟩ := hl.split next'
  have hmark := h.stream.mark
  have hinc := hl.increasing
  rw [hsplit, Increasing, List.pairwise_append] at hinc
  have hb : ∃ b', maxSent ≤ b' ∧ (∀ ev ∈ before, ev.seq ≤ b') ∧
      b' ≤ maxKey (·.seq) hub.committed ∧
      ∀ ev ∈ hub.ahead next', maxSent < ev.seq → b' < ev.seq := by
    by_cases hne : before = []
    · exact ⟨maxSent, le_refl _, by simp [hne], hmark, fun _ _ hlt => hlt⟩
    · obtain ⟨top, htop, hseq⟩ := maxKey_mem (fun ev : ChangeEvent => ev.seq) hne
      refine ⟨max maxSent (maxKey (·.seq) before), le_max_left .., ?_, ?_, ?_⟩
      · exact fun ev hev => le_max_of_le_right (le_maxKey_seq hev)
      · refine max_le hmark ?_
        rw [← hseq]
        exact le_maxKey_seq (hsplit ▸ List.mem_append_left _ htop)
      · intro ev hev hlt
        refine max_lt hlt ?_
        rw [← hseq]
        exact hinc.2.2 top htop ev hev
  obtain ⟨b', hle, hbefore, hbound, hahead⟩ := hb
  refine ⟨b', ⟨⟨hpos, hmark, ?_, ?_, ?_, ?_⟩, ?_, ?_, hbound, hahead⟩⟩
  · simp
  · simp
  · simp [Increasing]
  · intro ev hev _ hlt
    refine Or.inr (Or.inr ⟨hle.trans_lt hlt, ?_⟩)
    have hmem : ev ∈ before ++ hub.ahead next' := hsplit ▸ hev
    rcases List.mem_append.mp hmem with hmem | hmem
    · exact absurd hlt (not_lt.mpr (hbefore ev hmem))
    · exact hmem
  · simpa using h.below
  · simp

theorem Synced.recv {start planned : Int} (h : Synced rq hub next maxSent b) (hl : LogInv hub)
    (hsub : hub.subscriber = .streaming next maxSent start planned)
    (hs : stepSubscriber rq hub .recv = some hub') :
    ∃ next' maxSent', hub'.subscriber = .streaming next' maxSent' start planned ∧
      maxSent ≤ maxSent' ∧ hub'.committed = hub.committed ∧ hub'.changelog = hub.changelog ∧
      ((∃ items, hub'.out = hub.out ++ items ∧ items.all isChange = true ∧
          Synced rq hub' next' maxSent' b) ∨
        (hub'.out = hub.out ++ [.resync] ∧ ∃ b', Synced rq hub' next' maxSent' b')) := by
  simp only [stepSubscriber, hsub] at hs
  rcases hub.channel.recv_cases next with ⟨ev, hr, hev⟩ | ⟨k, hr, -⟩ | ⟨hr, -⟩ <;> rw [hr] at hs
  · simp only [Option.some.injEq] at hs
    rcases onEvent_cases rq maxSent ev with ⟨ho, hskip⟩ | ⟨ho, hlt, hnot⟩ | ⟨ho, hlt, hwant⟩ <;>
      rw [ho] at hs <;> subst hs
    · refine ⟨_, _, rfl, le_refl _, rfl, rfl, Or.inl ⟨[], rfl, rfl, ?_⟩⟩
      simpa using h.skip hl hev (le_refl _) (Or.inl rfl) hskip
    · refine ⟨_, _, rfl, hlt.le, rfl, rfl, Or.inl ⟨[], rfl, rfl, ?_⟩⟩
      simpa using h.skip hl hev hlt.le (Or.inr rfl) (Or.inr hnot)
    · exact ⟨_, _, rfl, hlt.le, rfl, rfl, Or.inl ⟨[.change ev], rfl, rfl, h.yield hl hev hlt hwant⟩⟩
  · simp only [Option.some.injEq] at hs
    subst hs
    exact ⟨_, _, rfl, le_refl _, rfl, rfl, Or.inr ⟨rfl, h.lagged hl (by omega)⟩⟩
  · cases hs

/-! ## The start of the stream -/

theorem synced_fresh (hl : LogInv hub) (hpos : next ≤ hub.channel.sent.length) (start : Int) :
    Synced rq (hub.startStream next (freshPlan (maxSeq hub.changelog)) start) next
      (maxSeq hub.changelog) (maxSeq hub.changelog) where
  stream := freshPlan_inv hl hpos (le_refl _) start
  below := nofun
  after := nofun
  bound := le_of_eq hl.maxSeq
  ahead _ _ hlt := hlt

theorem synced_resync (hpos : next ≤ hub.channel.sent.length) {currentMax : Int}
    (hmax : currentMax ≤ maxKey (·.seq) hub.committed)
    (hnew : ∀ ev ∈ hub.committed, currentMax < ev.seq → ev ∈ hub.ahead next) (start : Int) :
    Synced rq (hub.startStream next (resyncPlan currentMax) start) next currentMax currentMax where
  stream := ⟨hpos, hmax, nofun, nofun, .nil,
    fun ev hev _ hlt => Or.inr (Or.inr ⟨hlt, hnew ev hev hlt⟩)⟩
  below := nofun
  after := nofun
  bound := hmax
  ahead _ _ hlt := hlt

theorem synced_replay (hl : LogInv hub) (hlasting : Lasting rq hub.committed)
    (hpos : next ≤ hub.channel.sent.length)
    (hlast : last ≤ maxKey (·.seq) hub.committed) (hkept : Kept rq hub last) (start : Int) :
    Synced rq (hub.startStream next (replayPlan rq last hub.changelog) start) next
      (replayPlan rq last hub.changelog).maxSent last := by
  obtain ⟨hresync, hle, -⟩ := replayPlan_spec rq last hub.changelog
  have hreplay : ∀ ev, ev ∈ (replayPlan rq last hub.changelog).replay ↔
      ev ∈ hub.changelog.map ChangelogRow.toEvent ∧ Wanted rq ev ∧ last < ev.seq :=
    mem_replay_of_survives fun r hr => hlasting.row hl (mem_replayRows.mp hr).1
  have hstream : StreamInv rq (hub.startStream next (replayPlan rq last hub.changelog) start) next
      (replayPlan rq last hub.changelog).maxSent last := by
    refine replayPlan_inv hl hpos hlast (fun ev hlt => ?_) start
    rw [hreplay]
    constructor
    · rintro ⟨hlog, hwant, -⟩
      exact ⟨hl.isLogOf.mem_committed hlog, hwant⟩
    · rintro ⟨hmem, hwant⟩
      exact ⟨hkept ev hmem hwant hlt, hwant, hlt⟩
  have hout : sinceResync (hub.startStream next (replayPlan rq last hub.changelog) start).out =
      (hub.startStream next (replayPlan rq last hub.changelog) start).out :=
    sinceResync_openStream hresync
  refine ⟨hout.symm ▸ hstream, hstream.below, ?_, hlast, fun ev _ hlt => hle.trans_lt hlt⟩
  rw [hout]
  intro ev hev
  simp only [Hub.startStream, changes_openStream] at hev
  exact ((hreplay ev).mp hev).2.2

end

/-! ## The client -/

section

variable {rq : Request} {names : Set String} {ctx : Ctx} {s s' : Session} {hub : Hub}
  {a : Realtime.Act} {db : Database}

/-- No change has come on this connection yet, or there is none. -/
structure Waiting (rq : Request) (s : Session) : Prop where
  responses : s.responses = []
  out : s.hub.out = []
  read : ∀ last ∈ s.lastEventId, last ≤ maxKey (·.seq) s.hub.committed ∧
    Current rq s.hub.committed last s.read

/-- The invariant, by the place of the subscriber. -/
def Client (rq : Request) (s : Session) : Prop :=
  match s.hub.subscriber with
  | .idle | .panicked => Waiting rq s
  | .attached next last => Waiting rq s ∧ next ≤ s.hub.channel.sent.length ∧
      last = s.lastEventId ∧ (last = none → s.read = fun _ => none)
  | .readMax next last currentMax => Waiting rq s ∧ next ≤ s.hub.channel.sent.length ∧
      s.lastEventId = some last ∧ last ≤ currentMax ∧
      currentMax ≤ maxKey (·.seq) s.hub.committed ∧
      ∀ ev ∈ s.hub.committed, currentMax < ev.seq → ev ∈ s.hub.ahead next
  | .readMin next last => Waiting rq s ∧ next ≤ s.hub.channel.sent.length ∧
      s.lastEventId = some last ∧ Kept rq s.hub last
  | .streaming next maxSent _ _ => ∃ b, Synced rq s.hub next maxSent b ∧
      Current rq s.hub.committed b s.read ∧
      (∀ docs ∈ s.responses, Current rq s.hub.committed b docs) ∧
      ∀ last ∈ s.lastEventId, last ≤ maxSent

theorem current_none (committed : List ChangeEvent) (b : Int) :
    Current rq committed b fun _ => none := nofun

theorem Synced.copy {next : Nat} {maxSent b last : Int} (h : Synced rq s.hub next maxSent b)
    (hl : LogInv s.hub) (hread : Current rq s.hub.committed b s.read)
    (hpast : ∀ ev ∈ s.hub.ahead next, maxSent < ev.seq → last < ev.seq) :
    Current rq s.hub.committed last (s.copy rq) := by
  intro x v hv
  refine known_copy hl.increasing h.stream.increasing ?_ h.after ?_ (hread x) hv
  · exact fun ev hev => (h.stream.genuine ev hev (h.after ev hev)).1
  · intro ev hev hwant hb hle
    rcases h.stream.cover ev hev hwant hb with hout | hgap | ⟨hlt, hahead⟩
    · exact hout
    · exact absurd hgap not_bridged
    · exact absurd hle (not_le.mpr (hpast ev hahead hlt))

theorem Waiting.leave (h : Waiting rq s) : Waiting rq (s.leave rq) := by
  have hcopy : s.copy rq = s.read := by
    funext x
    rw [Session.copy, h.out]
    rfl
  have hlast : s.lastSeen = s.lastEventId := by
    rw [Session.lastSeen, h.out]
    rfl
  refine ⟨rfl, rfl, ?_⟩
  rw [Session.leave]
  simp only [hcopy, hlast]
  exact h.read

theorem Client.leave (h : Client rq s) (hl : LogInv s.hub) : Waiting rq (s.leave rq) := by
  unfold Client at h
  cases hsub : s.hub.subscriber with
  | idle | panicked =>
    rw [hsub] at h
    exact Waiting.leave h
  | attached | readMax | readMin =>
    rw [hsub] at h
    exact h.1.leave
  | streaming next maxSent start planned =>
    rw [hsub] at h
    obtain ⟨b, hsync, hread, -, hlast⟩ := h
    refine ⟨rfl, rfl, ?_⟩
    intro last hmem
    have hle : last ≤ maxSent := by
      simp only [Session.leave, Session.lastSeen] at hmem
      split at hmem
      · next ev hev =>
        cases hmem
        exact hsync.below ev (List.mem_of_getLast? hev)
      · exact hlast last hmem
    exact ⟨hle.trans hsync.stream.mark, hsync.copy hl hread fun ev _ hlt => hle.trans_lt hlt⟩

/-! ## The steps of the writer -/

theorem Waiting.stepWriter (h : Waiting rq s) (hl : LogInv s.hub)
    (hs : stepWriter rq s.hub a = some hub) : Waiting rq { s with hub, db } := by
  obtain ⟨-, hout, -, -⟩ := stepWriter_frame hs
  refine ⟨h.responses, hout.trans h.out, fun last hlast => ?_⟩
  obtain ⟨hle, hread⟩ := h.read last hlast
  exact ⟨hle.trans (hl.maxKey_mono hs), hread.stepWriter hle hl hs⟩

theorem Client.stepWriter (h : Client rq s) (hl : LogInv s.hub) (hspare : trimSpares rq s.hub a)
    (hs : stepWriter rq s.hub a = some hub) : Client rq { s with hub, db } := by
  obtain ⟨hsub, -, -, hlen⟩ := stepWriter_frame hs
  unfold Client at h ⊢
  rw [hsub]
  cases hplace : s.hub.subscriber with
  | idle | panicked =>
    rw [hplace] at h
    exact Waiting.stepWriter h hl hs
  | attached next last =>
    rw [hplace] at h
    exact ⟨h.1.stepWriter hl hs, h.2.1.trans hlen, h.2.2⟩
  | readMax next last currentMax =>
    rw [hplace] at h
    obtain ⟨hwait, hpos, hlast, hle, hmax, hnew⟩ := h
    refine ⟨hwait.stepWriter hl hs, hpos.trans hlen, hlast, hle, hmax.trans (hl.maxKey_mono hs), ?_⟩
    exact ahead_kept hpos hnew hs
  | readMin next last =>
    rw [hplace] at h
    exact ⟨h.1.stepWriter hl hs, h.2.1.trans hlen, h.2.2.1, h.2.2.2.stepWriter hspare hplace hs⟩
  | streaming next maxSent start planned =>
    rw [hplace] at h
    obtain ⟨b, hsync, hread, hresponses, hlast⟩ := h
    refine ⟨b, hsync.stepWriter hl hs, hread.stepWriter hsync.bound hl hs, fun docs hdocs => ?_,
      hlast⟩
    exact (hresponses docs hdocs).stepWriter hsync.bound hl hs

/-! ## The steps of the subscriber -/

theorem receive_changes (items : List Sse) (hout : hub.out = s.hub.out ++ items)
    (h : items.all isChange = true) :
    s.receive hub = { s with hub, db := { s.db with changelog := hub.changelog } } := by
  simp [Session.receive, hout, h]

theorem receive_resync (items : List Sse) (hout : hub.out = s.hub.out ++ items)
    (h : items.all isChange = false) : s.receive hub = { s with
      hub, db := { s.db with changelog := hub.changelog }, read := fun _ => none
      responses := [] } := by
  simp [Session.receive, hout, h]

theorem Client.connect (h : Client rq s)
    (hs : stepSubscriber rq s.hub (.attach s.lastEventId) = some hub) :
    Client rq { s.connect with hub } := by
  obtain ⟨hidle, rfl⟩ := attach_cases hs
  unfold Client at h
  rw [hidle] at h
  refine ⟨⟨h.responses, h.out, fun last hlast => ?_⟩, le_refl _, rfl, ?_⟩
  · have hread : s.connect.read = s.read := by
      rw [Option.mem_def] at hlast
      change s.lastEventId = some last at hlast
      simp [Session.connect, hlast]
    simp only [hread]
    exact h.read last hlast
  · intro hnone
    simp [Session.connect, hnone]

theorem Client.readMax (h : Client rq s) (hl : LogInv s.hub)
    (hs : stepSubscriber rq s.hub .readMax = some hub) : Client rq (s.receive hub) := by
  unfold Client at h
  rcases readMax_cases hs with ⟨next, hsub, rfl⟩ | ⟨next, last, hsub, rfl⟩ <;> rw [hsub] at h
  · obtain ⟨hwait, hpos, hlast, hread⟩ := h
    rw [receive_changes [] (by rw [hwait.out]; rfl) rfl]
    refine ⟨maxSeq s.hub.changelog, synced_fresh hl hpos _, ?_, ?_, ?_⟩
    · simp only [hread rfl]
      exact current_none _ _
    · simp only [hwait.responses]
      exact nofun
    · simp only [← hlast]
      exact nofun
  · obtain ⟨hwait, hpos, hlast, -⟩ := h
    rw [receive_changes [] (by exact (List.append_nil _).symm) rfl]
    have hmem : last ∈ s.lastEventId := hlast.symm
    refine ⟨⟨hwait.responses, hwait.out, hwait.read⟩, hpos, hlast.symm, ?_, le_of_eq hl.maxSeq, ?_⟩
    · rw [hl.maxSeq]
      exact (hwait.read last hmem).1
    · intro ev hev hlt
      have hle := le_maxKey_seq hev
      rw [hl.maxSeq] at hlt
      exact absurd hle (not_le.mpr hlt)

theorem Client.readMin (h : Client rq s) (hl : LogInv s.hub)
    (hs : stepSubscriber rq s.hub .readMin = some hub) : Client rq (s.receive hub) := by
  unfold Client at h
  obtain ⟨next, last, currentMax, hsub, hcases⟩ := readMin_cases hs
  rw [hsub] at h
  obtain ⟨hwait, hpos, hlast, hle, hmax, hnew⟩ := h
  rcases hcases with ⟨hnil, rfl⟩ | ⟨-, t, rfl, rfl | rfl | ⟨min, hmin, hlow, rfl⟩⟩
  · rw [receive_changes [] (by exact (List.append_nil _).symm) rfl]
    refine ⟨⟨hwait.responses, hwait.out, hwait.read⟩, hpos, hlast, fun e he => ?_⟩
    simp [hl.newest hnil] at he
  · rw [receive_changes [] (by exact (List.append_nil _).symm) rfl]
    exact ⟨hwait.responses, hwait.out, hwait.read⟩
  · rw [receive_resync [.resync] (by simp only [Hub.startStream, hwait.out]; rfl) rfl]
    refine ⟨currentMax, ?_, current_none _ _, ?_, ?_⟩
    · change Synced rq (Hub.startStream _ next _ last) next currentMax currentMax
      apply synced_resync
      · exact hpos
      · exact hmax
      · exact hnew
    · rintro _ ⟨⟩
    · rw [hlast]
      rintro _ ⟨⟩
      exact hle
  · rw [receive_changes [] (by exact (List.append_nil _).symm) rfl]
    refine ⟨⟨hwait.responses, hwait.out, hwait.read⟩, hpos, hlast, fun e he _ hlt => ?_⟩
    exact hl.kept_of_min hmin hlow he hlt

theorem Client.replay (h : Client rq s) (hl : LogInv s.hub)
    (hlasting : Lasting rq s.hub.committed) (hs : stepSubscriber rq s.hub .replay = some hub) : Client rq (s.receive hub) := by
  unfold Client at h
  obtain ⟨next, last, hsub, rfl⟩ := replay_cases hs
  rw [hsub] at h
  obtain ⟨hwait, hpos, hlast, hkept⟩ := h
  obtain ⟨hresync, hle, -⟩ := replayPlan_spec rq last s.hub.changelog
  obtain ⟨hmax, hread⟩ := hwait.read last hlast
  rw [receive_changes _ (by rw [hwait.out]; rfl) (openStream_changes hresync)]
  refine ⟨last, synced_replay hl hlasting hpos hmax hkept _, hread, ?_, ?_⟩
  · simp only [hwait.responses]
    exact nofun
  · rw [hlast]
    rintro _ ⟨⟩
    exact hle

theorem Client.recv (h : Client rq s) (hl : LogInv s.hub)
    (hs : stepSubscriber rq s.hub .recv = some hub) : Client rq (s.receive hub) := by
  unfold Client at h
  obtain ⟨next, maxSent, start, planned, hsub⟩ := recv_streaming hs
  rw [hsub] at h
  obtain ⟨b, hsync, hread, hresponses, hlast⟩ := h
  obtain ⟨next', maxSent', hsub', hle, hcom, -, hcases⟩ := hsync.recv hl hsub hs
  rcases hcases with ⟨items, hout, hall, hsync'⟩ | ⟨hout, b', hsync'⟩
  · rw [receive_changes _ hout hall, Client]
    simp only [hsub', hcom]
    exact ⟨b, hsync', hread, hresponses, fun last hmem => (hlast last hmem).trans hle⟩
  · rw [receive_resync _ hout rfl, Client]
    simp only [hsub', hcom]
    exact ⟨b', hsync', current_none _ _, nofun, fun last hmem => (hlast last hmem).trans hle⟩

theorem receive_writer (hs : stepWriter rq s.hub a = some hub) :
    s.receive hub = { s with hub, db := { s.db with changelog := hub.changelog } } := by
  obtain ⟨-, hout, -, -⟩ := stepWriter_frame hs
  exact receive_changes [] (by rw [hout, List.append_nil]) rfl

theorem stepHub_step (hs : Replica.stepHub rq s.hub a = some hub) :
    Realtime.step rq s.hub a = some hub := by
  cases a <;> first | exact hs | cases hs

theorem Client.stepHub (h : Client rq s) (hl : LogInv s.hub)
    (hlasting : Lasting rq s.hub.committed) (hspare : trimSpares rq s.hub a)
    (hs : Replica.stepHub rq s.hub a = some hub) : Client rq (s.receive hub) := by
  rcases Realtime.step_cases (stepHub_step hs) with hw | hsub
  · rw [receive_writer hw]
    exact h.stepWriter hl hspare hw
  · cases a with
    | commit | broadcast | trim | trimFailed => cases hsub
    | attach => cases hs
    | readMax => exact h.readMax hl hsub
    | readMin => exact h.readMin hl hsub
    | replay => exact h.replay hl hlasting hsub
    | recv => exact h.recv hl hsub

/-! ## The whole -/

theorem batch_writer (rq : Request) {D : Database} {ops : List (Command × Env)} {faults : List Fault}
    (hkeep : KeepsTransaction ctx ops (.open D faults)) (hidle : s.hub.writer = .idle)
    (hlog : D.changelog = s.hub.changelog) :
    let o := runBatch ctx ops (.open D faults)
    ∃ changes, Realtime.stepWriter rq s.hub (.commit changes) = some { s.hub with
      changelog := o.conn.committed.changelog
      writer := if o.committed && !o.events.isEmpty then .broadcasting o.events else .idle
      committed := s.hub.committed ++ o.events } := by
  obtain ⟨changes, hcommit⟩ := commitBatch_of_runBatch hkeep
  refine ⟨changes, ?_⟩
  rw [hlog] at hcommit
  simp only [Realtime.stepWriter, hidle, hcommit, Option.some.injEq]
  rcases runBatch_cases ctx ops D hkeep with ⟨hdone, -⟩ | ⟨hdone, -, hevents, -⟩
  · cases hempty : (runBatch ctx ops (.open D faults)).events.isEmpty <;> simp [hdone]
  · simp [hdone, hevents]

structure Inv (rq : Request) (names : Set String) (s : Session) : Prop where
  log : LogInv s.hub
  changelog : s.db.changelog = s.hub.changelog
  among : Among names s.db
  tracks : Tracks names s.db s.hub.committed
  lasting : Lasting rq s.hub.committed
  client : Client rq s

theorem inv_batch {ops : List (Command × Env)} {faults : List Fault} (hnames : Distinct names)
    (h : Inv rq names s) (hbatch : ∀ op ∈ ops, op.1.collection ∈ names)
    (hdocs : ∀ op ∈ ops, ∀ doc ∈ Command.doc op.1, doc.survives rq.readFloat = true)
    (hkeep : KeepsTransaction ctx ops (.open s.db faults))
    (hstep : step ctx rq s (.batch ops faults) = some s') : Inv rq names s' := by
  simp only [step] at hstep
  split at hstep
  · next hidle =>
    cases hstep
    obtain ⟨changes, hcommit⟩ := batch_writer rq hkeep hidle h.changelog
    have hspare : trimSpares rq s.hub (.commit changes) := by
      intro htrim
      cases htrim
    refine ⟨h.log.stepWriter hcommit, rfl, ?_, ?_, ?_, h.client.stepWriter h.log hspare hcommit⟩
    · rcases runBatch_calm ctx ops s.db hkeep with htrue | ⟨hsame, -, -⟩
      · exact among_serial h.among htrue hbatch
      · exact hsame.symm ▸ h.among
    · rcases runBatch_calm ctx ops s.db hkeep with htrue | ⟨hsame, hevents, -⟩
      · exact h.tracks.serial hnames htrue hbatch
      · simp only [hsame, hevents, List.append_nil]
        exact h.tracks
    · rcases runBatch_calm ctx ops s.db hkeep with htrue | ⟨-, hevents, -⟩
      · exact h.lasting.serial htrue hdocs
      · simp only [hevents, List.append_nil]
        exact h.lasting
  · cases hstep

theorem stepHub_committed (hs : stepHub rq s.hub a = some hub) :
    hub.committed = s.hub.committed := by
  rcases Realtime.step_cases (stepHub_step hs) with hw | hsub
  · cases a with
    | commit => cases hs
    | attach | readMax | readMin | replay | recv => cases hw
    | broadcast | trim | trimFailed =>
      simp only [Realtime.stepWriter] at hw
      split at hw <;> cases hw
      rfl
  · exact (stepSubscriber_frame hsub).2.2.2

theorem receive_frame (s : Session) (hub : Hub) :
    (s.receive hub).hub = hub ∧ (s.receive hub).db = { s.db with changelog := hub.changelog } := by
  unfold Session.receive
  dsimp only
  split <;> exact ⟨rfl, rfl⟩

theorem inv_hub (h : Inv rq names s) (hspare : trimSpares rq s.hub a)
    (hstep : step ctx rq s (.hub a) = some s') : Inv rq names s' := by
  obtain ⟨hub, hs, rfl⟩ := Option.map_eq_some_iff.mp hstep
  have hcom := stepHub_committed hs
  have hclient := h.client.stepHub h.log h.lasting hspare hs
  obtain ⟨hhub, hdb⟩ := receive_frame s hub
  refine ⟨?_, ?_, ?_, ?_, ?_, hclient⟩
  · rw [hhub]
    exact h.log.step (stepHub_step hs)
  · rw [hhub, hdb]
  · rw [hdb]
    exact h.among
  · rw [hhub, hdb, hcom]
    exact ⟨h.tracks.docs, h.tracks.gone⟩
  · rw [hhub, hcom]
    exact h.lasting

theorem inv_select {ids : String → Bool} (hnames : Distinct names) (hcoll : rq.coll ∈ names)
    (h : Inv rq names s) (hstep : step ctx rq s (.select ids) = some s') : Inv rq names s' := by
  simp only [step] at hstep
  split at hstep
  · next next maxSent start planned hsub =>
    cases hstep
    refine ⟨h.log, h.changelog, h.among, h.tracks, h.lasting, ?_⟩
    have hclient := h.client
    unfold Client at hclient ⊢
    simp only [hsub] at hclient ⊢
    obtain ⟨b, hsync, hread, hresponses, hlast⟩ := hclient
    refine ⟨b, hsync, hread, ?_, hlast⟩
    rw [List.forall_mem_append, List.forall_mem_singleton]
    refine ⟨hresponses, fun x v hv => ?_⟩
    dsimp only at hv
    split at hv
    · rw [fetchDocument_find hnames h.among h.tracks h.lasting hcoll, h.tracks.docs _ hcoll] at hv
      cases hv
      exact known_state b
    · cases hv
  · cases hstep

theorem inv_response {i : Nat} (h : Inv rq names s)
    (hstep : step ctx rq s (.response i) = some s') : Inv rq names s' := by
  obtain ⟨docs, hdocs, rfl⟩ := Option.map_eq_some_iff.mp hstep
  refine ⟨h.log, h.changelog, h.among, h.tracks, h.lasting, ?_⟩
  have hmem := List.mem_of_getElem? hdocs
  have hclient := h.client
  unfold Client at hclient ⊢
  simp only
  cases hsub : s.hub.subscriber with
  | idle | panicked =>
    simp only [hsub] at hclient
    rw [hclient.responses] at hmem
    cases hmem
  | attached | readMax | readMin =>
    simp only [hsub] at hclient
    rw [hclient.1.responses] at hmem
    cases hmem
  | streaming next maxSent start planned =>
    simp only [hsub] at hclient
    obtain ⟨b, hsync, hread, hresponses, hlast⟩ := hclient
    refine ⟨b, hsync, fun x v hv => ?_, fun r hr => ?_, hlast⟩
    · rcases Option.or_eq_some_iff.mp hv with hv | ⟨-, hv⟩
      · exact hresponses docs hmem x v hv
      · exact hread x v hv
    · exact hresponses r (List.mem_of_mem_eraseIdx hr)

theorem inv_step {a : Act} (hnames : Distinct names) (hcoll : rq.coll ∈ names)
    (h : Inv rq names s) (hok : proper ctx rq names s a) (hstep : step ctx rq s a = some s') :
    Inv rq names s' := by
  cases a with
  | batch ops faults => exact inv_batch hnames h hok.1 hok.2.1 hok.2.2 hstep
  | hub a => exact inv_hub h hok hstep
  | connect =>
    obtain ⟨hub, hs, rfl⟩ := Option.map_eq_some_iff.mp hstep
    obtain ⟨hlog, -, -, hcom⟩ := stepSubscriber_frame hs
    have hattach : Realtime.step rq s.hub (.attach s.lastEventId) = some hub := hs
    exact ⟨h.log.step hattach, hlog ▸ h.changelog, h.among, hcom ▸ h.tracks, hcom ▸ h.lasting,
      h.client.connect hs⟩
  | disconnect =>
    cases hstep
    have hlog : LogInv s.hub := h.log
    exact ⟨⟨hlog.increasing, hlog.log, hlog.newest, hlog.sent⟩, h.changelog, h.among, h.tracks,
      h.lasting, h.client.leave h.log⟩
  | restart =>
    cases hstep
    have hlog : LogInv s.hub := h.log
    have hwait := h.client.leave h.log
    have hnone : s.hub.committed = s.hub.committed ++ [] ++ [] := by simp
    exact ⟨⟨hlog.increasing, hlog.log, hlog.newest, s.hub.committed, hnone⟩, h.changelog, h.among,
      h.tracks, h.lasting, ⟨hwait.responses, hwait.out, hwait.read⟩⟩
  | select ids => exact inv_select hnames hcoll h hstep
  | response i => exact inv_response h hstep

theorem inv_start (rq : Request) (names : Set String) : Inv rq names (.start rq) where
  log := (fresh_start rq).logInv
  changelog := rfl
  among := nofun
  tracks := ⟨fun _ _ _ => rfl, nofun⟩
  lasting := nofun
  client := ⟨rfl, rfl, nofun⟩

/-- Through lags, resyncs, broken connections and restarts: when the client has read all that was
broadcast, what it has of a document is the document, as long as that passes the filter. -/
theorem replica_converges (hnames : Distinct names) (hcoll : rq.coll ∈ names)
    (h : Reach (step ctx rq) (proper ctx rq names) (.start rq) s)
    {maxSent start planned : Int} (hidle : s.hub.writer.pending = [])
    (hsub : s.hub.subscriber = .streaming s.hub.channel.sent.length maxSent start planned)
    {id : String} {v : Option Json} (hcopy : s.copy rq id = some v)
    (hpass : ∀ row, fetchDocument rq.readFloat s.db rq.coll id = some row →
      eventPasses .update (some row.doc) rq.filter = true) :
    v = (fetchDocument rq.readFloat s.db rq.coll id).map (·.doc) := by
  have hinv : Inv rq names s := h.inv (Inv rq names) (inv_start rq names)
    fun _ _ _ ht hok hstep => inv_step hnames hcoll ht hok hstep
  rw [fetchDocument_find hnames hinv.among hinv.tracks hinv.lasting hcoll] at hpass ⊢
  have hclient := hinv.client
  unfold Client at hclient
  simp only [hsub] at hclient
  obtain ⟨b, hsync, hread, -, -⟩ := hclient
  have hahead : s.hub.ahead s.hub.channel.sent.length = [] := by
    rw [Hub.ahead, hidle, List.drop_length, List.append_nil]
  have hcurrent : Current rq s.hub.committed (maxKey (·.seq) s.hub.committed) (s.copy rq) := by
    refine hsync.copy hinv.log hread ?_
    rw [hahead]
    rintro _ ⟨⟩
  rw [hinv.tracks.docs _ hcoll]
  refine (hcurrent id v hcopy).eq_state fun ev hev => ?_
  obtain ⟨hmem, hkey⟩ := latest_mem hev
  have hdoc : (s.db.find rq.coll id).map (·.doc) = ev.doc := by
    rw [hinv.tracks.docs _ hcoll, state, hev, Option.bind_some]
  refine ⟨⟨congrArg Prod.fst hkey, ?_⟩, le_maxKey_seq hmem⟩
  cases hfind : s.db.find rq.coll id with
  | none =>
    rw [hfind] at hdoc
    rw [hinv.tracks.gone ev hmem hdoc.symm]
    cases rq.filter <;> rfl
  | some row =>
    rw [hfind] at hdoc
    have hrow := hpass row hfind
    rw [← hdoc]
    unfold eventPasses at hrow ⊢
    cases hfilter : rq.filter with
    | none => rfl
    | some f =>
      rw [hfilter] at hrow
      cases ev.op with
      | delete => rfl
      | insert | update => exact hrow

def notes : Request :=
  { coll := "notes", filter := none, retention := 100, capacity := 16, overflowChecks := false
    readFloat := fun bits => bits }

def put (doc : Json) : Act := .batch [(.replace "notes" "a" doc, envAt "x" 5)] []

/-- The client reads a document, sees it change, and comes back after the server has stopped, when
it has changed again. -/
def comingBack : List Act :=
  [put .null, .hub .broadcast, .hub .trim, .connect, .hub .readMax, .select fun _ => true,
   .response 0, put (.bool true), .hub .broadcast, .hub .trim, .hub .recv, .restart,
   put (.bool false), .hub .broadcast, .hub .trim, .connect, .hub .readMax, .hub .readMin,
   .hub .replay]

theorem replica_converges_comingBack :
    ∃ s, exec (step noLimits notes) (.start notes) comingBack = some s ∧
      s.copy notes "a" = some (some (.bool false)) ∧
      some (.bool false) = (fetchDocument notes.readFloat s.db "notes" "a").map (·.doc) := by
  obtain ⟨s, hs⟩ : ∃ s, exec (step noLimits notes) (.start notes) comingBack = some s := ⟨_, rfl⟩
  have hput : ∀ s doc, doc.survives notes.readFloat = true →
      proper noLimits notes {"notes"} s (put doc) := by
    intro s doc hdoc
    refine ⟨?_, ?_, keeps_of_calm _ _ _ (by decide)⟩
    · rintro op hop
      obtain rfl := List.mem_singleton.mp hop
      rfl
    · intro op hop d hd
      obtain rfl := List.mem_singleton.mp hop
      cases hd
      exact hdoc
  have hquiet : ∀ s a, a ≠ .trim → proper noLimits notes {"notes"} s (.hub a) := by
    intro s a ha htrim
    cases a <;> first | exact absurd rfl ha | cases htrim
  have hallowed : Allowed (step noLimits notes) (proper noLimits notes {"notes"}) (.start notes)
      comingBack := by
    refine .cons (hput _ _ rfl) rfl (.cons (hquiet _ _ nofun) rfl (.cons ?_ rfl (.cons trivial rfl
      (.cons (hquiet _ _ nofun) rfl (.cons trivial rfl (.cons trivial rfl (.cons (hput _ _ rfl) rfl
      (.cons (hquiet _ _ nofun) rfl (.cons ?_ rfl (.cons (hquiet _ _ nofun) rfl (.cons trivial rfl
      (.cons (hput _ _ rfl) rfl (.cons (hquiet _ _ nofun) rfl (.cons ?_ rfl (.cons trivial rfl
      (.cons (hquiet _ _ nofun) rfl (.cons (hquiet _ _ nofun) rfl (.cons (hquiet _ _ nofun) rfl
      trivial))))))))))))))))))
    all_goals
      rintro - last ⟨⟩
  have hdistinct : Distinct {"notes"} := by
    rintro a rfl b rfl -
    rfl
  have hreach := Reach.of_exec comingBack hallowed hs
  cases hs
  exact ⟨_, rfl, rfl, replica_converges hdistinct (Set.mem_singleton notes.coll) hreach rfl rfl rfl
    fun _ _ => rfl⟩

end

end TinyLord.Replica
