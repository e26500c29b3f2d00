import TinyLord.Db.History

/-!
# The sequence numbers

A run of the writer numbers its events 1, 2, 3 and so on, and the log holds the last of them. A
raised retention does not bring back what a trim has deleted.
-/

open Lib.Transaction Lib.Sequence

namespace TinyLord

/-! ## The statement -/

/-- `init_database`: its `CREATE TABLE IF NOT EXISTS` leaves a table that is there. -/
def initDatabase : Option Database → Database
  | none => .empty
  | some D => D

/-- A run of the writer from a fresh file, with all the events it has broadcast. A restart may bring
other settings. A failing statement, `COMMIT` too, does not take the transaction back. -/
inductive Ran (settings : Set Ctx) : Database → List ChangeEvent → Prop
  | fresh : Ran settings (initDatabase none) []
  | restart {D evs} : Ran settings D evs → Ran settings (initDatabase (some D)) evs
  | batch {D evs} {ctx : Ctx} (batch : List (Command × Env)) (faults : List Fault) :
      Ran settings D evs → ctx ∈ settings → KeepsTransaction ctx batch (.open D faults) →
      Ran settings (processBatch ctx batch (.open D faults)).conn.committed
        (evs ++ (processBatch ctx batch (.open D faults)).events)

/-- The log is the last of the numbers up to `total`. It is empty only before the first one. -/
def EndsAt (total : Nat) (log : List ChangelogRow) : Prop :=
  ∃ n ≤ total, log.map (·.seq) = upTo total n ∧ (n = 0 → total = 0)

/-- Where a batch is when a statement of it reads the file: its ops are done up to some point. -/
def Midway (ctx : Ctx) (batch : List (Command × Env)) (D : Database) (faults : List Fault)
    (conn : Conn Database) : Prop :=
  ∃ before after conn₁, batch = before ++ after ∧ (Conn.open D faults).begin = (true, conn₁) ∧
    conn = (runOps ctx before conn₁).2

/-- The `DELETE` of the trim that follows the batch runs. -/
def TrimRuns (ctx : Ctx) (batch : List (Command × Env)) (conn : Conn Database) : Prop :=
  (runBatch ctx batch conn).conn.nextFault.1 = .none

/-! ## One change and one trim -/

variable {D D' : Database} {ctx : Ctx} {batch : List (Command × Env)} {faults : List Fault}
  {evs : List ChangeEvent} {log : List ChangelogRow} {total : Nat} {settings : Set Ctx}

theorem EndsAt.maxSeq (h : EndsAt total log) : maxSeq log = total := by
  obtain ⟨n, hn, hlog, hzero⟩ := h
  by_cases h0 : n = 0
  · subst h0
    have hl : log = [] := by simpa [upTo] using hlog
    simp [hl, hzero, TinyLord.maxSeq, maxKey]
  · exact maxKey_of_upTo hlog h0

theorem EndsAt.insert (h : EndsAt total log) (c : Change) :
    nextSeq log = (total + 1 : Nat) ∧ EndsAt (total + 1) (insertChangelog log c) := by
  have hmax := h.maxSeq
  obtain ⟨n, hn, hlog, -⟩ := h
  refine ⟨by simp [nextSeq, hmax], n + 1, by omega, ?_, by omega⟩
  have hrow : (c.row (nextSeq log)).seq = total + 1 := by simp [Change.row, nextSeq, hmax]
  rw [insertChangelog, List.map_append, hlog, List.map_singleton, hrow, Nat.cast_add,
    Nat.cast_one, upTo_succ]

theorem map_trim {retention : Int} {n : Nat} (h : EndsAt total log) (hr : 0 < retention)
    (hlog : log.map (·.seq) = upTo total n) :
    (trimChangelog retention log).map (·.seq) = upTo total (min retention.toNat n) := by
  have hcut : maxSeq log - retention = total - (retention.toNat : Int) := by
    rw [h.maxSeq]
    omega
  rw [trimChangelog_eq, if_neg (by omega), hcut]
  exact above_of_upTo hlog

theorem EndsAt.trim (h : EndsAt total log) (retention : Int) :
    EndsAt total (trimChangelog retention log) := by
  by_cases hr : retention ≤ 0
  · rw [trimChangelog, if_pos hr]
    exact h
  · obtain ⟨n, hn, hlog, hzero⟩ := id h
    exact ⟨min retention.toNat n, by omega, map_trim h (by omega) hlog, by omega⟩

/-! ## One batch -/

theorem Serial.numbered {replies : List Reply} (h : Serial D batch replies evs D') :
    ∀ {total : Nat}, EndsAt total D.changelog →
      EndsAt (total + evs.length) D'.changelog ∧
      evs.map (·.seq) = upTo (total + evs.length : Nat) evs.length ∧
      D'.changelog.length = D.changelog.length + evs.length := by
  induction h with
  | nil D => exact fun hends => ⟨hends, rfl, rfl⟩
  | failed _ _ ih => exact ih
  | missed _ _ ih => exact ih
  | @acked D D₁ D' cmd env rest reply replies ev evs heff _ ih =>
    intro total hends
    obtain ⟨c, -, hc, -⟩ := heff.changed
    obtain ⟨hnext, hends₁⟩ := hends.insert c
    rw [← hc.log] at hends₁
    obtain ⟨hlast, hevs, hlen⟩ := ih hends₁
    have hsum : total + 1 + evs.length = total + (evs.length + 1) := by omega
    have hfirst : ev.seq = ((total + (evs.length + 1) : Nat) : Int) - evs.length := by
      rw [hc.event, event_seq, hnext]
      omega
    refine ⟨hsum ▸ hlast, ?_, ?_⟩
    · rw [List.map_cons, hevs, hfirst, hsum]
      rfl
    · rw [hlen, hc.log, insertChangelog]
      simp
      omega

theorem runBatch_numbered (hends : EndsAt total D.changelog)
    (hkeep : KeepsTransaction ctx batch (.open D faults)) :
    let o := runBatch ctx batch (.open D faults)
    EndsAt (total + o.events.length) o.conn.committed.changelog ∧
      o.events.map (·.seq) = upTo (total + o.events.length : Nat) o.events.length ∧
      o.conn.committed.changelog.length = D.changelog.length + o.events.length := by
  rcases runBatch_calm ctx batch D hkeep with htrue | ⟨hsame, hevents, -⟩
  · exact htrue.numbered hends
  · simp only [hsame, hevents]
    exact ⟨hends, rfl, rfl⟩

theorem processBatch_events (ctx : Ctx) (batch : List (Command × Env)) (conn : Conn Database) :
    (processBatch ctx batch conn).events = (runBatch ctx batch conn).events := by
  simp only [processBatch]
  split <;> rfl

theorem processBatch_numbered (hends : EndsAt total D.changelog)
    (hkeep : KeepsTransaction ctx batch (.open D faults)) :
    let o := processBatch ctx batch (.open D faults)
    EndsAt (total + o.events.length) o.conn.committed.changelog := by
  obtain ⟨hlast, -, -⟩ := runBatch_numbered hends hkeep
  simp only [processBatch_events]
  simp only [processBatch]
  split
  · rcases trim_committed ctx (runBatch ctx batch (.open D faults)).conn with h | h
    · exact h ▸ hlast
    · exact h ▸ hlast.trim ctx.retention
  · exact hlast

theorem runBatch_closed (h : (runBatch ctx batch (.open D faults)).committed = true) :
    (runBatch ctx batch (.open D faults)).conn.txn = none := by
  unfold runBatch at h ⊢
  rcases hb : (Conn.open D faults).begin with ⟨_ | _, conn₁⟩
  · simp [hb] at h
  · rcases hops : runOps ctx batch conn₁ with ⟨finishes, conn₂⟩
    rcases hcommit : conn₂.commit with ⟨_ | _, conn₃⟩
    · simp [hb, hops, hcommit] at h
    · simp only [hops, hcommit]
      exact commit_txn hcommit

theorem runBatch_committed (hkeep : KeepsTransaction ctx batch (.open D faults))
    (hevents : (runBatch ctx batch (.open D faults)).events ≠ []) :
    (runBatch ctx batch (.open D faults)).committed = true := by
  rcases runBatch_cases ctx batch D hkeep with ⟨h, -⟩ | ⟨-, -, h, -⟩
  · exact h
  · exact absurd h hevents

theorem processBatch_trimmed (hkeep : KeepsTransaction ctx batch (.open D faults))
    (hevents : (runBatch ctx batch (.open D faults)).events ≠ [])
    (hruns : TrimRuns ctx batch (.open D faults)) :
    (processBatch ctx batch (.open D faults)).conn.committed =
      let D' := (runBatch ctx batch (.open D faults)).conn.committed
      { D' with changelog := trimChangelog ctx.retention D'.changelog } := by
  have hcom := runBatch_committed hkeep hevents
  have htxn := runBatch_closed hcom
  obtain ⟨fault, fs, hnext, -⟩ := nextFault_cases (runBatch ctx batch (.open D faults)).conn
  have hfault : fault = .none := by simpa [TrimRuns, hnext] using hruns
  subst hfault
  simp only [processBatch, hcom, Bool.true_and, Bool.not_eq_true', List.isEmpty_eq_false_iff]
  rw [if_pos hevents]
  by_cases hr : ctx.retention ≤ 0
  · simp [trim, trimChangelog, hr]
  · simp [trim, hr, Sql.write, hnext, Conn.put, Conn.current, htxn]

theorem midway_committed (hkeep : KeepsTransaction ctx batch (.open D faults))
    {conn : Conn Database} (h : Midway ctx batch D faults conn) : conn.committed = D := by
  obtain ⟨before, after, conn₁, rfl, hb, rfl⟩ := h
  rcases runOps_anchored (anchored_begin D faults hb) ctx before with ⟨t, hanch, -⟩ | hadr
  · exact hanch.committed
  · rw [KeepsTransaction, hb] at hkeep
    simp only [runOps_append] at hkeep
    exact absurd hkeep (Adrift.not_begun (runOps_adrift hadr ctx after))

/-! ## Whole runs -/

theorem Ran.numbered (h : Ran settings D evs) :
    evs.map (·.seq) = upTo evs.length evs.length ∧ EndsAt evs.length D.changelog := by
  induction h with
  | fresh => exact ⟨rfl, 0, le_rfl, rfl, fun _ => rfl⟩
  | restart _ ih => exact ih
  | @batch D evs ctx batch faults _ _ hkeep ih =>
    obtain ⟨hevs, hends⟩ := ih
    obtain ⟨-, hnew, -⟩ := runBatch_numbered hends hkeep
    have hlast := processBatch_numbered hends hkeep
    rw [← processBatch_events] at hnew
    rw [List.length_append]
    refine ⟨?_, hlast⟩
    rw [List.map_append, hevs, hnew, Nat.cast_add, upTo_append]

/-- As long as no trim has kept less than `r`, the log has the last `r`. -/
theorem Ran.keeps {r : Int} (hr : ∀ c ∈ settings, c.retention ≤ 0 ∨ r ≤ c.retention)
    (h : Ran settings D evs) : min r.toNat evs.length ≤ D.changelog.length := by
  induction h with
  | fresh => simp [initDatabase, Database.empty]
  | restart _ ih => exact ih
  | @batch D evs ctx batch faults h hctx hkeep ih =>
    obtain ⟨hevs, hends⟩ := h.numbered
    obtain ⟨hlast, -, hlen⟩ := runBatch_numbered hends hkeep
    rw [List.length_append, processBatch_events]
    have hdone : min r.toNat (evs.length + (runBatch ctx batch (.open D faults)).events.length) ≤
        (runBatch ctx batch (.open D faults)).conn.committed.changelog.length := by omega
    simp only [processBatch]
    split
    · rcases trim_committed ctx (runBatch ctx batch (.open D faults)).conn with htrim | htrim
      · rw [htrim]
        exact hdone
      · rw [htrim]
        simp only
        rcases hr ctx hctx with hc | hc
        · rw [trimChangelog, if_pos hc]
          exact hdone
        · obtain ⟨n, hn, hlog, -⟩ := id hlast
          by_cases h0 : ctx.retention ≤ 0
          · rw [trimChangelog, if_pos h0]
            exact hdone
          · have hpos : 0 < ctx.retention := by omega
            have hmap := congrArg List.length (map_trim hlast hpos hlog)
            have hsame := congrArg List.length hlog
            simp only [List.length_map, length_upTo] at hmap hsame
            omega
    · exact hdone

/-- The events of a run are numbered from 1, and at any time the committed log ends at the last
number. A trim leaves the last `retention` of the rows that are there: of all numbers, when none
of the settings of the run has kept less. -/
theorem sequence_numbers (h : Ran settings D evs) :
    evs.map (·.seq) = upTo evs.length evs.length ∧ EndsAt evs.length D.changelog ∧
    ∀ (ctx : Ctx) (batch : List (Command × Env)) (faults : List Fault),
      KeepsTransaction ctx batch (.open D faults) →
      let o := runBatch ctx batch (.open D faults)
      let o' := processBatch ctx batch (.open D faults)
      let total := evs.length + o'.events.length
      (∀ conn, Midway ctx batch D faults conn → conn.committed = D) ∧
      EndsAt total o.conn.committed.changelog ∧
      (o'.events ≠ [] → 0 < ctx.retention → TrimRuns ctx batch (.open D faults) →
        o'.conn.committed.changelog.map (·.seq) =
          upTo total (min ctx.retention.toNat (D.changelog.length + o'.events.length)) ∧
        ((∀ c ∈ settings, c.retention ≤ 0 ∨ ctx.retention ≤ c.retention) →
          o'.conn.committed.changelog.map (·.seq) =
            upTo total (min ctx.retention.toNat total))) := by
  obtain ⟨hevs, hends⟩ := h.numbered
  refine ⟨hevs, hends, ?_⟩
  intro ctx batch faults hkeep
  obtain ⟨hlast, -, hlen⟩ := runBatch_numbered hends hkeep
  simp only [processBatch_events]
  refine ⟨fun conn hmid => midway_committed hkeep hmid, hlast, ?_⟩
  intro hne hpos hruns
  obtain ⟨n, hn, hlog, -⟩ := id hlast
  have hrows := congrArg List.length hlog
  rw [List.length_map, length_upTo] at hrows
  rw [processBatch_trimmed hkeep hne hruns]
  simp only [map_trim hlast hpos hlog]
  refine ⟨by rw [← hrows, hlen], ?_⟩
  intro hsettings
  have hkept := h.keeps hsettings
  congr 1
  omega

/-- Two numbers under a retention of 1, then a third one under a retention of 10. -/
def raised : Ctx := { maxDatabaseBytes := 0, retention := 10 }

def keepOne : Ctx := { maxDatabaseBytes := 0, retention := 1 }

def trimmedNotes : Database := (processBatch keepOne twoCreates (.open .empty [])).conn.committed

def oneCreate : List (Command × Env) := [(.create "notes" .null, envAt "c" 3)]

/-- The log has the last two of three numbers, and the retention is 10. -/
theorem raised_retention :
    Ran Set.univ trimmedNotes
        (processBatch keepOne twoCreates (.open .empty [])).events ∧
      KeepsTransaction raised oneCreate (.open trimmedNotes []) ∧
      TrimRuns raised oneCreate (.open trimmedNotes []) ∧
      ∃ o, processBatch raised oneCreate (.open trimmedNotes []) = o ∧ o.events.length = 1 ∧
        o.conn.committed.changelog.map (·.seq) = [2, 3] ∧
        [2, 3] ≠ upTo 3 (min raised.retention.toNat 3) := by
  refine ⟨.batch twoCreates [] .fresh trivial (keeps_of_calm _ _ _ (by decide)),
    keeps_of_calm _ _ _ (by decide), rfl, _, rfl, by decide, by decide, by decide⟩

theorem sequence_numbers_notes :
    EndsAt 2 trimmedNotes.changelog ∧
    ∃ o, processBatch keepOne oneCreate (.open trimmedNotes []) = o ∧
      o.conn.committed.changelog.map (·.seq) = upTo 3 1 := by
  have hran : Ran {keepOne} trimmedNotes
      ([] ++ (processBatch keepOne twoCreates (.open .empty [])).events) :=
    .batch twoCreates [] (.restart .fresh) rfl (keeps_of_calm _ _ _ (by decide))
  obtain ⟨-, hends, hbatch⟩ := sequence_numbers hran
  obtain ⟨-, -, htrim⟩ := hbatch keepOne oneCreate [] (keeps_of_calm _ _ _ (by decide))
  have hne : (processBatch keepOne oneCreate (.open trimmedNotes [])).events ≠ [] := by
    intro h
    exact absurd (congrArg List.length h) (by decide)
  refine ⟨hends, _, rfl, (htrim hne (by decide) rfl).2 ?_⟩
  rintro c rfl
  exact Or.inr le_rfl

end TinyLord
