import TinyLord.Db.History
import TinyLord.Realtime.Resume

/-!
# The writer of the hub is `process_batch`

The hub's writer works on bare changes. Here each batch of commands is one of its rounds: a
commit, the broadcasts, the trim. So every database that batches lead to has a log the stream
can start on.
-/

open Lib.Run Lib.Broadcast Lib.Transaction

namespace TinyLord.Realtime

variable {D D' : Database} {ctx : Ctx} {rq : Request} {s : Hub} {batch : List (Command × Env)}
  {faults : List Fault} {names : Set String}

/-! ## The changes of a batch -/

theorem commitBatch_of_serial {replies : List Reply} {evs : List ChangeEvent}
    (h : Serial D batch replies evs D') :
    ∃ changes, commitBatch D.changelog changes = (D'.changelog, evs) := by
  induction h with
  | nil D => exact ⟨[], rfl⟩
  | failed _ _ ih => exact ih
  | missed _ _ ih => exact ih
  | acked heff _ ih =>
    obtain ⟨c, -, hc, -, -⟩ := heff.changed
    obtain ⟨changes, hrest⟩ := ih
    refine ⟨c :: changes, ?_⟩
    rw [commitBatch, ← hc.log, hrest, hc.event]

theorem commitBatch_of_runBatch (hkeep : KeepsTransaction ctx batch (.open D faults)) :
    ∃ changes, commitBatch D.changelog changes =
      ((runBatch ctx batch (.open D faults)).conn.committed.changelog,
        (runBatch ctx batch (.open D faults)).events) := by
  rcases runBatch_calm ctx batch D hkeep with htrue | ⟨hsame, hevents, -⟩
  · exact commitBatch_of_serial htrue
  · exact ⟨[], by rw [hsame, hevents]; rfl⟩

theorem processBatch_changelog (ctx : Ctx) (batch : List (Command × Env)) (conn : Conn Database) :
    let o := runBatch ctx batch conn
    let o' := processBatch ctx batch conn
    o'.events = o.events ∧ (o'.conn.committed.changelog = o.conn.committed.changelog ∨
      o.events ≠ [] ∧
        o'.conn.committed.changelog = trimChangelog ctx.retention o.conn.committed.changelog) := by
  simp only [processBatch]
  split
  · next hev =>
    rw [Bool.and_eq_true, Bool.not_eq_true', List.isEmpty_eq_false_iff] at hev
    refine ⟨rfl, ?_⟩
    rcases trim_committed ctx (runBatch ctx batch conn).conn with h | h
    · exact Or.inl (congrArg Database.changelog h)
    · exact Or.inr ⟨hev.2, congrArg Database.changelog h⟩
  · exact ⟨rfl, Or.inl rfl⟩

/-! ## One round of the writer -/

def Hub.round (s : Hub) (log : List ChangelogRow) (evs : List ChangeEvent) : Hub :=
  { s with
    changelog := log
    channel := { s.channel with sent := s.channel.sent ++ evs }
    writer := .idle
    committed := s.committed ++ evs }

theorem reach_broadcast (evs : List ChangeEvent) (s : Hub) (hw : s.writer = .broadcasting evs) :
    Reach (step rq) anyStep s { s with
      channel := { s.channel with sent := s.channel.sent ++ evs }
      writer := .broadcasting [] } := by
  induction evs generalizing s with
  | nil =>
    rw [List.append_nil, ← hw]
    exact .refl
  | cons ev evs ih =>
    have hone : step rq s .broadcast =
        some { s with channel := s.channel.send ev, writer := .broadcasting evs } := by
      simp only [step, stepWriter, hw]
    have hrest := ih { s with channel := s.channel.send ev, writer := .broadcasting evs } rfl
    simp only [Channel.send, List.append_assoc, List.singleton_append] at hrest
    exact Reach.trans (.tail .broadcast .refl trivial hone) hrest

theorem reach_round (hidle : s.writer = .idle) {changes : List Change} {log : List ChangelogRow}
    {evs : List ChangeEvent} (hcommit : commitBatch s.changelog changes = (log, evs))
    {log' : List ChangelogRow}
    (htrim : log' = log ∨ evs ≠ [] ∧ log' = trimChangelog rq.retention log) :
    Reach (step rq) anyStep s (s.round log' evs) := by
  have hone : step rq s (.commit changes) = some { s with
      changelog := log
      writer := if evs.isEmpty then .idle else .broadcasting evs
      committed := s.committed ++ evs } := by
    simp only [step, stepWriter, hidle, hcommit]
  have hstart : Reach (step rq) anyStep s _ := .tail _ .refl trivial hone
  cases evs with
  | nil =>
    rcases htrim with rfl | ⟨hne, -⟩
    · simpa [Hub.round] using hstart
    · exact absurd rfl hne
  | cons ev evs =>
    have hsent := Reach.trans hstart (reach_broadcast (ev :: evs) _ rfl)
    rcases htrim with rfl | ⟨-, rfl⟩
    · exact .tail .trimFailed hsent trivial rfl
    · exact .tail .trim hsent trivial rfl

/-- A batch whose transaction no failure takes back is a round of the writer. -/
theorem reach_processBatch (hret : ctx.retention = rq.retention)
    (hkeep : KeepsTransaction ctx batch (.open D faults)) (hidle : s.writer = .idle)
    (hlog : s.changelog = D.changelog) :
    let o := processBatch ctx batch (.open D faults)
    Reach (step rq) anyStep s (s.round o.conn.committed.changelog o.events) := by
  obtain ⟨changes, hcommit⟩ := commitBatch_of_runBatch hkeep
  obtain ⟨hevents, htrim⟩ := processBatch_changelog ctx batch (.open D faults)
  rw [← hlog] at hcommit
  simp only [hevents]
  exact reach_round hidle hcommit (hret ▸ htrim)

/-! ## From an empty database -/

theorem reach_of_reached (hret : ctx.retention = rq.retention) (h : Reached ctx names D) :
    ∃ s, Reach (step rq) anyStep (.fresh rq) s ∧ s.writer = .idle ∧ s.changelog = D.changelog := by
  induction h with
  | empty => exact ⟨_, .refl, rfl, rfl⟩
  | batch batch faults _ _ hkeep ih =>
    obtain ⟨s, hs, hidle, hlog⟩ := ih
    exact ⟨_, hs.trans (reach_processBatch hret hkeep hidle hlog), rfl, rfl⟩

/-- A server may open any database that batches lead to: its log is the newest part of the
changes committed so far, which is what the stream starts from. -/
theorem start_of_reached (hret : ctx.retention = rq.retention) (h : Reached ctx names D) :
    ∃ committed, Start rq { Hub.fresh rq with changelog := D.changelog, committed } := by
  obtain ⟨s, hs, -, hlog⟩ := reach_of_reached hret h
  have hinv := hs.inv LogInv (fresh_start rq).logInv fun _ _ _ hl _ hstep => hl.step hstep
  refine ⟨s.committed, hinv.increasing, ?_, ?_, rfl, rfl, rfl, rfl, rfl⟩
  · exact hlog ▸ hinv.log
  · exact hlog ▸ hinv.newest

end TinyLord.Realtime
