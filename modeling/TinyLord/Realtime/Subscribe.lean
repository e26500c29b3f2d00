import TinyLord.Db.Changelog
import TinyLord.Lib.Broadcast
import TinyLord.Lib.Run

/-!
# Subscribe, resume and the event stream

One subscriber beside the writer of its database. The reads of `build_resume_plan` are
separate statements on a pooled connection, so each is a step of its own, as are the
writer's commit, each of its broadcasts, and its trim.
-/

open Lib.Broadcast

namespace TinyLord.Realtime

/-! ## The equality filter -/

inductive EqMatch where
  | eq (v : Json)
  | isIn (vs : List Json)

structure EqFilter where
  clauses : List (List String × EqMatch)

def lookup (doc : Json) (path : List String) : Option Json :=
  path.foldlM (fun cur seg => cur.get seg) doc

def EqMatch.test (m : EqMatch) (actual : Json) : Bool :=
  match m with
  | .eq v => actual.eqv v
  | .isIn vs => vs.any fun v => v.eqv actual

def EqFilter.matches (f : EqFilter) (doc : Json) : Bool :=
  f.clauses.all fun (path, m) => (lookup doc path).elim false m.test

/-- Deletes always pass. Inserts and updates pass when the filter matches the new state. -/
def eventPasses (op : Op) (doc : Option Json) (filter : Option EqFilter) : Bool :=
  match filter with
  | none => true
  | some f =>
    match op with
    | .delete => true
    | _ => doc.elim false f.matches

/-! ## The resume plan -/

structure Request where
  coll : String
  filter : Option EqFilter
  /-- `realtime.changelog_retention` -/
  retention : Int
  /-- `realtime.sse_channel_capacity` -/
  capacity : Nat
  /-- Whether the build panics on integer overflow. Without, `+` wraps around. -/
  overflowChecks : Bool
  /-- How the text of a float in a logged document reads back. -/
  readFloat : BitVec 64 → BitVec 64

structure ResumePlan where
  resync : Bool
  replay : List ChangeEvent
  /-- Live events up to this number are dropped. -/
  maxSent : Int

def i64Max : Int := 2 ^ 63 - 1

/-- `n + 1` on an `i64`. Nothing when it overflows and the build checks for that. -/
def addOne (overflowChecks : Bool) (n : Int) : Option Int :=
  if n + 1 ≤ i64Max then some (n + 1)
  else if overflowChecks then none
  else some ((n + 1).bmod (2 ^ 64))

def freshPlan (currentMax : Int) : ResumePlan :=
  { resync := false, replay := [], maxSent := currentMax }

def resyncPlan (currentMax : Int) : ResumePlan :=
  { resync := true, replay := [], maxSent := currentMax }

/-- `SELECT … WHERE seq > last AND collection = coll ORDER BY seq`. The log is in that order. -/
def replayRows (rq : Request) (last : Int) (log : List ChangelogRow) : List ChangelogRow :=
  log.filter fun r => last < r.seq && r.collection == rq.coll

def replayRow (rq : Request) (plan : ResumePlan) (r : ChangelogRow) : ResumePlan :=
  let ev := { r.readBack rq.readFloat with collection := rq.coll }
  let maxSent := max plan.maxSent r.seq
  if eventPasses ev.op ev.doc rq.filter then
    { plan with maxSent, replay := plan.replay ++ [ev] }
  else { plan with maxSent }

def replayPlan (rq : Request) (last : Int) (log : List ChangelogRow) : ResumePlan :=
  (replayRows rq last log).foldl (replayRow rq) { resync := false, replay := [], maxSent := last }

/-! ## The event stream -/

inductive Sse where
  | resync
  | change (ev : ChangeEvent)

def openStream (plan : ResumePlan) : List Sse :=
  (if plan.resync then [.resync] else []) ++ plan.replay.map .change

/-- One live event in the loop: the new watermark and what is yielded. -/
def onEvent (rq : Request) (maxSent : Int) (ev : ChangeEvent) : Int × List Sse :=
  if ev.collection ≠ rq.coll ∨ ev.seq ≤ maxSent then (maxSent, [])
  else if ¬ eventPasses ev.op ev.doc rq.filter then (ev.seq, [])
  else (ev.seq, [.change ev])

/-! ## The writer and the subscriber side by side -/

/-- The subscriber's place in `subscribe`. `next` is its position in the channel. -/
inductive Subscriber where
  | idle
  /-- Attached to the channel. `MAX(seq)` is read next. -/
  | attached (next : Nat) (lastEventId : Option Int)
  /-- `MIN(seq)` is read next. -/
  | readMax (next : Nat) (last currentMax : Int)
  /-- The replay query runs next. -/
  | readMin (next : Nat) (last : Int)
  /-- In the loop of `event_stream`. The last two are for the statements only: the point the
  stream starts after, and `MAX(seq)` when the plan was built. -/
  | streaming (next : Nat) (maxSent start planned : Int)
  /-- The arithmetic overflowed in a build that checks it. -/
  | panicked

/-- The writer between two batches, or after a commit: the events still to broadcast, then
the trim. -/
inductive Writer where
  | idle
  | broadcasting (events : List ChangeEvent)

structure Hub where
  changelog : List ChangelogRow
  channel : Channel ChangeEvent
  writer : Writer
  subscriber : Subscriber
  out : List Sse
  /-- Every event ever committed. The log forgets, and nothing in the code reads this. -/
  committed : List ChangeEvent
  /-- Whether the subscriber's arithmetic has left the `i64` range. Nothing reads this either. -/
  overflowed : Bool

def Hub.fresh (rq : Request) : Hub where
  changelog := []
  channel := Lib.Broadcast.channel (max rq.capacity 1)
  writer := .idle
  subscriber := .idle
  out := []
  committed := []
  overflowed := false

/-- The changelog inserts of one transaction, and the events to broadcast after it. -/
def commitBatch (log : List ChangelogRow) : List Change → List ChangelogRow × List ChangeEvent
  | [] => (log, [])
  | c :: cs =>
    let rest := commitBatch (insertChangelog log c) cs
    (rest.1, c.event (nextSeq log) :: rest.2)

inductive Act where
  | commit (batch : List Change)
  | broadcast
  | trim
  | trimFailed
  | attach (lastEventId : Option Int)
  | readMax
  | readMin
  | replay
  | recv

/-- The plan is built: `event_stream` yields its first part and enters the loop. -/
def Hub.startStream (s : Hub) (next : Nat) (plan : ResumePlan) (start : Int) : Hub :=
  { s with
    subscriber := .streaming next plan.maxSent start (maxSeq s.changelog)
    out := openStream plan }

def stepWriter (rq : Request) (s : Hub) : Act → Option Hub
  | .commit batch =>
    match s.writer with
    | .idle =>
      let (log, events) := commitBatch s.changelog batch
      some { s with
        changelog := log
        writer := if events.isEmpty then .idle else .broadcasting events
        committed := s.committed ++ events }
    | _ => none
  | .broadcast =>
    match s.writer with
    | .broadcasting (ev :: evs) =>
      some { s with channel := s.channel.send ev, writer := .broadcasting evs }
    | _ => none
  | .trim =>
    match s.writer with
    | .broadcasting [] =>
      some { s with changelog := trimChangelog rq.retention s.changelog, writer := .idle }
    | _ => none
  | .trimFailed =>
    match s.writer with
    | .broadcasting [] => some { s with writer := .idle }
    | _ => none
  | _ => none

def stepSubscriber (rq : Request) (s : Hub) : Act → Option Hub
  | .attach last =>
    match s.subscriber with
    | .idle => some { s with subscriber := .attached s.channel.subscribe last }
    | _ => none
  | .readMax =>
    match s.subscriber with
    | .attached next none =>
      some (s.startStream next (freshPlan (maxSeq s.changelog)) (maxSeq s.changelog))
    | .attached next (some last) =>
      some { s with subscriber := .readMax next last (maxSeq s.changelog) }
    | _ => none
  | .readMin =>
    match s.subscriber with
    | .readMax next last currentMax =>
      match minSeq s.changelog with
      | none => some { s with subscriber := .readMin next last }
      | some min =>
        let s := { s with overflowed := s.overflowed || i64Max < last + 1 }
        match addOne rq.overflowChecks last with
        | none => some { s with subscriber := .panicked }
        | some sum =>
          if sum < min then some (s.startStream next (resyncPlan currentMax) last)
          else some { s with subscriber := .readMin next last }
    | _ => none
  | .replay =>
    match s.subscriber with
    | .readMin next last => some (s.startStream next (replayPlan rq last s.changelog) last)
    | _ => none
  | .recv =>
    match s.subscriber with
    | .streaming next maxSent start planned =>
      match s.channel.recv next with
      | (.message ev, next') =>
        let (maxSent', items) := onEvent rq maxSent ev
        some { s with
          subscriber := .streaming next' maxSent' start planned
          out := s.out ++ items }
      | (.lagged _, next') =>
        some { s with
          subscriber := .streaming next' maxSent start planned
          out := s.out ++ [.resync] }
      | (.empty, _) => none
    | _ => none
  | _ => none

/-- A closed channel ends the loop, so it is no step. -/
def step (rq : Request) (s : Hub) (a : Act) : Option Hub :=
  match a with
  | .commit _ | .broadcast | .trim | .trimFailed => stepWriter rq s a
  | _ => stepSubscriber rq s a

end TinyLord.Realtime
