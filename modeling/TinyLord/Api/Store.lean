import TinyLord.Api.Reserved
import TinyLord.Db.Course
import TinyLord.Db.RunLoop
import TinyLord.Lib.Linear
import TinyLord.Query.Endpoint

/-!
# The document store as its clients see it

A write goes through the writer's channel and is answered when its batch has committed. A read
looks for the collection and then selects from it, with two statements on a connection of the
pool. Clients see one store that does one request at a time.
-/

open Lib Lib.Linear Lib.Run Lib.Sql Lib.Transaction

namespace TinyLord.Store

/-! ## Requests -/

inductive Read where
  | get (coll id : String)
  | query (coll : String) (req : QueryEp.QueryRequest)
  | count (coll : String) (req : QueryEp.CountRequest)

def Read.coll : Read → String
  | .get coll _ | .query coll _ | .count coll _ => coll

/-- A write has passed its checks. -/
inductive Request where
  | write (cmd : Command)
  | read (rd : Read)

inductive Seen where
  | document (row : Option DocRow)
  | page (page : QueryEp.QueryPage)
  | total (n : Nat)

inductive Answer where
  | wrote (r : Reply)
  | read (r : Except ApiError Seen)

section

variable (sq : QueryEp.Sqlite) (max : UInt32)

/-- What the endpoint answers on a database that stands still. -/
def Read.on (sorter : Sorter DocRow) (db : Database) : Read → Except ApiError Seen
  | .get coll id => do
    requireValidName "collection" coll
    pure (.document (fetchDocument sq.readFloat db coll id))
  | .query coll req => (QueryEp.query sq sorter max db coll req).map .page
  | .count coll req => (QueryEp.count sq db coll req).map .total

/-- All that a read knows of the database: whether the collection is there, and then its rows. -/
def oneTable (coll : String) (there : Bool) (rows : List DocRow) : Database :=
  { collections := if there then [{ name := coll, rows }] else [], changelog := [] }

theorem oneTable_exists (coll : String) (there : Bool) (rows : List DocRow) :
    collectionExists (oneTable coll there rows) coll = there := by
  cases there <;> simp [oneTable, collectionExists]

theorem oneTable_rows (coll : String) (rows : List DocRow) :
    (oneTable coll true rows).rows coll = rows := by
  simp [oneTable, Database.rows, Database.table]

theorem Read.on_oneTable (sorter : Sorter DocRow) (db : Database) (rd : Read) :
    rd.on sq max sorter (oneTable rd.coll (collectionExists db rd.coll) (db.rows rd.coll)) =
      rd.on sq max sorter db := by
  cases rd with
  | get coll id =>
    simp only [Read.on, Read.coll, fetchDocument, oneTable_exists]
    cases collectionExists db coll with
    | false => rfl
    | true => rw [Database.find, oneTable_rows, Database.find]
  | query coll req =>
    simp only [Read.on, Read.coll, QueryEp.query, oneTable_exists]
    cases collectionExists db coll with
    | false => rfl
    | true => rw [oneTable_rows]
  | count coll req =>
    simp only [Read.on, Read.coll, QueryEp.count, oneTable_exists]
    cases collectionExists db coll with
    | false => rfl
    | true => rw [oneTable_rows]

/-! ## One request at a time -/

/-- The documents of each collection, in the order they came. -/
abbrev Docs := String → List DocRow

def Docs.set (docs : Docs) (coll : String) (rows : List DocRow) : Docs :=
  Function.update docs coll rows

def Docs.find (docs : Docs) (coll id : String) : Option DocRow :=
  (docs coll).find? fun r => r.id == id

/-- The store picks ids and times. An error has no effect. -/
inductive Next (docs : Docs) : Request → Answer → Docs → Prop
  | failed (cmd : Command) (e : ApiError) : Next docs (.write cmd) (.wrote (cmd.error e)) docs
  | created {coll id doc now} : docs.find coll id = none →
      Next docs (.write (.create coll doc)) (.wrote (.created (.ok ⟨id, now, now, doc⟩)))
        (docs.set coll (appendRow ⟨id, doc, now, now⟩ (docs coll)))
  | inserted {coll id doc now} : docs.find coll id = none →
      Next docs (.write (.replace coll id doc))
        (.wrote (.replaced (.ok (⟨id, now, now, doc⟩, true))))
        (docs.set coll (appendRow ⟨id, doc, now, now⟩ (docs coll)))
  | updated {coll id doc now old} : docs.find coll id = some old →
      Next docs (.write (.replace coll id doc))
        (.wrote (.replaced (.ok (⟨id, old.createdAt, now, doc⟩, false))))
        (docs.set coll (updateRow id doc now (docs coll)))
  | deleted {coll id old} : docs.find coll id = some old →
      Next docs (.write (.delete coll id)) (.wrote (.deleted (.ok true)))
        (docs.set coll (removeRow id (docs coll)))
  | missed {coll id} : docs.find coll id = none →
      Next docs (.write (.delete coll id)) (.wrote (.deleted (.ok false))) docs
  | unread (rd : Read) (e : ApiError) : Next docs (.read rd) (.read (.error e)) docs
  | read (rd : Read) (sorter : Sorter DocRow) (there : Bool) : (there = false → docs rd.coll = []) →
      Next docs (.read rd) (.read (rd.on sq max sorter (oneTable rd.coll there (docs rd.coll)))) docs

/-! ## The node -/

/-- How far the handler of a request is. -/
inductive Stage where
  | idle
  /-- Before the command is put on the channel. -/
  | sending (cmd : Command)
  /-- Waits for the reply. -/
  | waiting (cmd : Command)
  /-- Before `collection_exists`. -/
  | looking (rd : Read)
  /-- The collection is there. -/
  | selecting (rd : Read)
  | seen (rd : Read) (r : Except ApiError Seen)
  | done

def Request.stage : Request → Stage
  | .write cmd => .sending cmd
  | .read rd => .looking rd

/-- Nobody is left to answer a request of a process that has stopped. -/
def Stage.lost : Stage → Stage
  | .idle => .idle
  | _ => .done

structure Node where
  cat : Catalog
  writer : Loop
  /-- Each request has a number, which is also its reply channel. -/
  stage : Nat → Stage
  /-- For the statements only. -/
  marks : List (Mark Nat Request Answer)

def Node.start : Node :=
  { cat := { tables := .empty, indexes := .empty, registry := .empty }
    writer := .start
    stage := fun _ => .idle
    marks := [] }

def Node.put (n : Node) (i : Nat) (stage : Stage) : Node :=
  { n with stage := Function.update n.stage i stage }

def Node.mark (n : Node) (m : Mark Nat Request Answer) : Node := { n with marks := n.marks ++ [m] }

/-- The read has its answer. -/
def Node.read (n : Node) (i : Nat) (rd : Read) (r : Except ApiError Seen) : Node :=
  (n.put i (.seen rd r)).mark (.commit ⟨i, .read rd, .read r⟩)

def Node.respond (n : Node) (i : Nat) (a : Answer) : Node := (n.put i .done).mark (.respond i a)

inductive Act where
  | call (i : Nat) (rq : Request)
  | send (i : Nat)
  | look (i : Nat) (failed : Option ApiError)
  | select (i : Nat) (sorter : Sorter DocRow) (failed : Option ApiError)
  | answer (i : Nat)
  /-- A handler of indexes or snapshots, or the checkpoint ticker, puts a command on the channel. -/
  | other (c : WriteCommand)
  /-- The writer's loop, up to the next batch or single command. -/
  | turn (a : LoopAct)
  /-- `process_batch`, whose statements meet these fates. -/
  | batch (env : Nat → Env) (faults : List Fault)
  /-- The arm of a command that is handled alone. -/
  | single (faults : List Fault) (snapshot : Except ApiError Nat)
  /-- The process stops and starts again. -/
  | restart

def Command.to (cmd : Command) (i : Nat) : WriteCommand :=
  match cmd with
  | .create coll doc => .create coll doc i
  | .replace coll id doc => .replace coll id doc i
  | .delete coll id => .delete coll id i

/-- What comes back on a reply channel. -/
def received (sent : List Sent) (i : Nat) : Option Reply :=
  sent.findSome? fun s =>
    match s.2 with
    | .data r => if s.1 = i then some r else none
    | _ => none

/-- The ops of a batch, with their channels. -/
def ops (cmds : List WriteCommand) : List (Command × Nat) := cmds.filterMap WriteCommand.data?

def finished (op : Command × Nat) (reply : Reply) : Done Nat Request Answer :=
  ⟨op.2, .write op.1, .wrote reply⟩

def batchOf (cmds : List WriteCommand) (env : Nat → Env) : List (Command × Env) :=
  dataOps (cmds.mapIdx fun i c => (c, env i))

def handle (sql : IndexSql) (faults : List Fault) (snapshot : Except ApiError Nat) (cat : Catalog) :
    WriteCommand → Results × Catalog
  | .createIndex coll name path unique _ =>
    let (r, conn) := doCreateIndex sql ⟨name, coll, path, unique⟩ (Conn.open cat faults)
    (⟨snapshot, r, .ok false⟩, conn.committed)
  | .dropIndex name _ =>
    let (r, conn) := doDropIndex sql name (Conn.open cat faults)
    (⟨snapshot, .ok (), r⟩, conn.committed)
  | _ => (⟨snapshot, .ok (), .ok false⟩, cat)

def step (ctx : Ctx) (cfg : WriterConfig) (sql : IndexSql) (n : Node) : Act → Option Node
  | .call i rq =>
    match n.stage i with
    | .idle => some ((n.put i rq.stage).mark (.invoke i rq))
    | _ => none
  | .send i =>
    match n.stage i with
    | .sending cmd =>
      (stepLoop ctx cfg n.writer (.put (Command.to cmd i))).map fun writer =>
        { n.put i (.waiting cmd) with writer }
    | _ => none
  | .look i failed =>
    match n.stage i, failed with
    | .looking rd, some e => some (n.read i rd (.error e))
    | .looking rd, none =>
      if collectionExists n.cat.tables rd.coll then some (n.put i (.selecting rd))
      else some (n.read i rd (rd.on sq max mergeSorter (oneTable rd.coll false [])))
    | _, _ => none
  | .select i sorter failed =>
    match n.stage i, failed with
    | .selecting rd, some e => some (n.read i rd (.error e))
    | .selecting rd, none =>
      let table := oneTable rd.coll true (n.cat.tables.rows rd.coll)
      some (n.read i rd (rd.on sq max sorter table))
    | _, _ => none
  | .answer i =>
    match n.stage i with
    | .waiting _ => (received n.writer.sent i).map fun r => n.respond i (.wrote r)
    | .seen _ r => some (n.respond i (.read r))
    | _ => none
  | .other c =>
    if isBatchable c then none
    else (stepLoop ctx cfg n.writer (.put c)).map fun writer => { n with writer }
  | .turn a =>
    match a with
    | .next | .tryRecv _ | .full =>
      (stepLoop ctx cfg n.writer a).map fun writer => { n with writer }
    | _ => none
  | .batch env faults =>
    match n.writer.phase with
    | .ready cmds =>
      let conn := Conn.open n.cat.tables faults
      let outcome := processBatch ctx (batchOf cmds env) conn
      (stepLoop ctx cfg n.writer (.process env conn)).map fun writer =>
        { n with
          writer
          cat := { n.cat with tables := outcome.conn.committed }
          marks := n.marks ++ (List.zipWith finished (ops cmds) outcome.replies).map .commit }
    | _ => none
  | .single faults snapshot =>
    match n.writer.phase with
    | .single c =>
      let (results, cat) := handle sql faults snapshot n.cat c
      (stepLoop ctx cfg n.writer (.handle results)).map fun writer => { n with writer, cat }
    | _ => none
  | .restart =>
    some { n with writer := .start, stage := fun i => (n.stage i).lost }

end

/-- Tables are made for these collections only, and the statements of a batch meet no failure that
makes its replies lie. -/
def proper (ctx : Ctx) (names : Set String) (n : Node) : Act → Prop
  | .call _ (.write cmd) => cmd.collection ∈ names
  | .other (.createIndex coll ..) => coll ∈ names
  | .batch env faults => ∀ cmds, n.writer.phase = .ready cmds →
      Contained ctx (batchOf cmds env) n.cat.tables faults
  | _ => True

/-! ## Tables of different names -/

section

variable {names : Set String} {D D' : Database} {cmd : Command} {env : Env} {reply : Reply}
  {ev : ChangeEvent} {coll id : String} {sq : QueryEp.Sqlite} {max : UInt32}

def Among (names : Set String) (D : Database) : Prop := Reserved.Named (· ∈ names) D

/-- No two of the names differ in letter case only. -/
def Distinct (names : Set String) : Prop :=
  ∀ a ∈ names, ∀ b ∈ names, fold a = fold b → a = b

theorem Among.named (hnames : Distinct names) (h : Among names D) : TinyLord.Named D := by
  intro a b ha hb hfold
  obtain ⟨t, ht, rfl⟩ := exists_iff.mp ha
  obtain ⟨u, hu, rfl⟩ := exists_iff.mp hb
  exact hnames _ (h t ht) _ (h u hu) hfold

theorem Among.apart (hnames : Distinct names) (h : Among names D)
    (hcmd : cmd.collection ∈ names) : apart D cmd := by
  cases cmd with
  | delete => trivial
  | create | replace => exact fun t ht hfold => hnames _ (h t ht) _ hcmd hfold

theorem Among.visible (hnames : Distinct names) (h : Among names D) (hcoll : coll ∈ names) :
    visible D coll = D.rows coll := by
  unfold TinyLord.visible
  split
  · rfl
  · next hex =>
    refine (rows_of_none (table_none.mpr fun t ht hfold => hex ?_)).symm
    exact exists_iff.mpr ⟨t, ht, hnames _ (h t ht) _ hcoll hfold⟩

theorem Among.effect (h : Among names D) (hcmd : cmd.collection ∈ names)
    (heff : Effect env cmd D reply ev D') : Among names D' := by
  intro t ht
  have hex := heff.collections.1 t.name
  rw [exists_iff.mpr ⟨t, ht, rfl⟩, eq_comm, exists_ensure_iff] at hex
  rcases hex with hex | ⟨hname, -⟩
  · obtain ⟨u, hu, hname⟩ := exists_iff.mp hex
    exact hname ▸ h u hu
  · exact hname ▸ hcmd

theorem find_visible (hnames : Distinct names) (h : Among names D) (hcoll : coll ∈ names) :
    Docs.find (visible D) coll id = D.find coll id := by
  rw [Docs.find, h.visible hnames hcoll, Database.find]

theorem next_of_effect (hnames : Distinct names) (h : Among names D)
    (hcmd : cmd.collection ∈ names) (heff : Effect env cmd D reply ev D') :
    Next sq max (visible D) (.write cmd) (.wrote reply) (visible D') := by
  have hset : visible D' = Docs.set (visible D) cmd.collection
      (applyWrite (visible D cmd.collection) (cmd, env)) := by
    funext n
    rw [heff.visible (h.named hnames) (h.apart hnames hcmd), Docs.set, Function.update_apply]
    by_cases hn : n = cmd.collection
    · rw [if_pos hn, if_pos hn.symm, hn]
    · rw [if_neg hn, if_neg fun heq => hn heq.symm]
  rw [hset]
  cases cmd with
  | create coll doc =>
    obtain ⟨hnew, rfl, -⟩ := heff
    exact .created ((find_visible hnames h hcmd).trans hnew)
  | replace coll id doc =>
    have hany : ((visible D coll).any fun r => r.id == id) = (D.find coll id).isSome := by
      rw [← find_visible hnames h (show coll ∈ names from hcmd), Bool.eq_iff_iff, Docs.find,
        List.find?_isSome, List.any_eq_true]
    simp only [Effect] at heff
    simp only [Command.collection, applyWrite, hany]
    cases hold : D.find coll id with
    | none =>
      simp only [hold] at heff
      obtain ⟨rfl, -⟩ := heff
      exact .inserted ((find_visible hnames h hcmd).trans hold)
    | some old =>
      simp only [hold] at heff
      obtain ⟨rfl, -⟩ := heff
      exact .updated ((find_visible hnames h hcmd).trans hold)
  | delete coll id =>
    obtain ⟨hp, rfl, -⟩ := heff
    rw [Database.present, Bool.and_eq_true, Option.isSome_iff_exists] at hp
    obtain ⟨-, old, hold⟩ := hp
    exact .deleted ((find_visible hnames h hcmd).trans hold)

theorem next_of_missed (h : D.present coll id = false) :
    Next sq max (visible D) (.write (.delete coll id)) (.wrote (.deleted (.ok false)))
      (visible D) := by
  refine .missed ?_
  rw [Docs.find, visible]
  rw [Database.present, Bool.and_eq_false_iff] at h
  rcases h with h | h
  · rw [h]
    rfl
  · have hnone : D.find coll id = none := by simpa using h
    split
    · exact hnone
    · rfl

/-- A batch that tells the truth does its ops one at a time. -/
theorem sequential_of_serial {batch : List (Command × Env)} {replies : List Reply}
    {evs : List ChangeEvent} {cs : List (Command × Nat)} (hnames : Distinct names)
    (h : Serial D batch replies evs D') (hcs : cs.map Prod.fst = batch.map Prod.fst)
    (hbatch : ∀ op ∈ batch, op.1.collection ∈ names) (hD : Among names D) :
    Sequential (Next sq max) (visible D) (List.zipWith finished cs replies) (visible D') ∧
      Among names D' ∧ ∀ c, collectionExists D c = true → collectionExists D' c = true := by
  have hone : ∀ {D D₁ cmd i reply ds D'}, Next sq max (visible D) (.write cmd) (.wrote reply)
      (visible D₁) → Sequential (Next sq max) (visible D₁) ds (visible D') →
      Sequential (Next sq max) (visible D) (finished (cmd, i) reply :: ds) (visible D') :=
    fun hnext hrest => Sequential.trans (.concat (finished _ _) .nil hnext) hrest
  induction h generalizing cs with
  | nil D =>
    rw [List.zipWith_nil_right]
    exact ⟨.nil, hD, fun _ hc => hc⟩
  | failed e _ ih =>
    obtain ⟨⟨cmd, i⟩, cs, rfl, rfl, htail⟩ := List.map_eq_cons_iff.mp hcs
    obtain ⟨hseq, hD'⟩ := ih htail (List.forall_mem_cons.mp hbatch).2 hD
    exact ⟨hone (.failed cmd e) hseq, hD'⟩
  | missed hp _ ih =>
    obtain ⟨⟨cmd, i⟩, cs, rfl, rfl, htail⟩ := List.map_eq_cons_iff.mp hcs
    obtain ⟨hseq, hD'⟩ := ih htail (List.forall_mem_cons.mp hbatch).2 hD
    exact ⟨hone (next_of_missed hp) hseq, hD'⟩
  | acked heff _ ih =>
    obtain ⟨⟨cmd, i⟩, cs, rfl, rfl, htail⟩ := List.map_eq_cons_iff.mp hcs
    obtain ⟨hop, hrest⟩ := List.forall_mem_cons.mp hbatch
    obtain ⟨hseq, hD', hkeeps⟩ := ih htail hrest (hD.effect hop heff)
    refine ⟨hone (next_of_effect hnames hD hop heff) hseq, hD', fun c hc => hkeeps c ?_⟩
    rw [heff.collections.1, exists_ensure_iff]
    exact Or.inl hc

end

/-! ## What comes from other modules -/

section

variable {ctx : Ctx} {cfg : WriterConfig} {w w' : Loop} {c : WriteCommand} {cmds : List WriteCommand}
  {D : Database} {names : Set String} {sql : IndexSql}

def inFlight (w : Loop) : List WriteCommand := w.phase.commands ++ w.pending.toList ++ w.queue

theorem put_inFlight (h : stepLoop ctx cfg w (.put c) = some w') :
    inFlight w' = inFlight w ++ [c] ∧ w'.sent = w.sent := by
  simp only [stepLoop] at h
  split_ifs at h
  cases h
  exact ⟨by simp [inFlight], rfl⟩

theorem turn_inFlight {a : LoopAct} (ha : a = .next ∨ (∃ hit, a = .tryRecv hit) ∨ a = .full)
    (hexact : Exact cfg w) (hexact' : Exact cfg w') (h : stepLoop ctx cfg w a = some w') :
    inFlight w' = inFlight w ∧ w'.sent = w.sent := by
  have hsame : w'.put = w.put ∧ w'.handled = w.handled ∧ w'.sent = w.sent := by
    rcases ha with rfl | ⟨hit, rfl⟩ | rfl
    · simp only [stepLoop] at h
      split at h
      · cases h
        exact ⟨rfl, rfl, rfl⟩
      · cases h
        exact ⟨rfl, rfl, rfl⟩
      · split_ifs at h
        cases h
        exact ⟨rfl, rfl, rfl⟩
      · cases h
    · simp only [stepLoop] at h
      split at h
      · split_ifs at h <;>
        · cases h
          exact ⟨rfl, rfl, rfl⟩
      · split_ifs at h
        cases h
        exact ⟨rfl, rfl, rfl⟩
      · cases h
    · simp only [stepLoop] at h
      split at h
      · split_ifs at h
        cases h
        exact ⟨rfl, rfl, rfl⟩
      · cases h
  obtain ⟨hput, hhandled, hsent⟩ := hsame
  refine ⟨?_, hsent⟩
  have hbefore := hexact.inOrder
  have hafter := hexact'.inOrder
  rw [hput, hhandled, hbefore] at hafter
  simp only [List.append_assoc] at hafter
  simpa [inFlight] using (List.append_cancel_left hafter).symm

theorem step_turn {sq : QueryEp.Sqlite} {max : UInt32} {n n' : Node} {a : LoopAct}
    (h : step sq max ctx cfg sql n (.turn a) = some n') :
    (a = .next ∨ (∃ hit, a = .tryRecv hit) ∨ a = .full) ∧
      ∃ w, stepLoop ctx cfg n.writer a = some w ∧ { n with writer := w } = n' := by
  simp only [step] at h
  cases a with
  | next => exact ⟨Or.inl rfl, Option.map_eq_some_iff.mp h⟩
  | tryRecv hit => exact ⟨Or.inr (Or.inl ⟨hit, rfl⟩), Option.map_eq_some_iff.mp h⟩
  | full => exact ⟨Or.inr (Or.inr rfl), Option.map_eq_some_iff.mp h⟩
  | put | close | process | handle => cases h

theorem batchOf_commands (cmds : List WriteCommand) (env : Nat → Env) :
    (batchOf cmds env).map Prod.fst = (ops cmds).map Prod.fst := by
  have hcmds : (cmds.mapIdx fun i c => (c, env i)).map Prod.fst = cmds := by
    rw [List.mapIdx_eq_zipIdx_map, List.map_map]
    exact List.zipIdx_map_fst 0 cmds
  unfold batchOf ops
  generalize cmds.mapIdx (fun i c => (c, env i)) = batch at hcmds
  subst hcmds
  simp only [dataOps, List.map_filterMap, List.filterMap_map, Option.map_map]
  rfl

theorem mem_onChannels {batch : List (WriteCommand × Env)} {replies : List Reply} {s : Sent}
    (hall : ∀ op ∈ batch, isBatchable op.1 = true) (h : s ∈ onChannels batch replies) :
    ∃ cmd r, s.2 = .data r ∧
      finished (cmd, s.1) r ∈ List.zipWith finished (ops (batch.map Prod.fst)) replies := by
  induction batch generalizing replies with
  | nil => cases h
  | cons op batch ih =>
    obtain ⟨hop, hrest⟩ := List.forall_mem_cons.mp hall
    obtain ⟨cmd, i, hdata, hreply⟩ := data_of_batchable hop
    have hops : ops ((op :: batch).map Prod.fst) = (cmd, i) :: ops (batch.map Prod.fst) := by
      simp [ops, hdata]
    cases replies with
    | nil => simp [onChannels] at h
    | cons r replies =>
      have hchan : onChannels (op :: batch) (r :: replies) =
          (i, .data r) :: onChannels batch replies := by simp [onChannels, hreply]
      rw [hchan, List.mem_cons] at h
      rw [hops, List.zipWith_cons_cons]
      rcases h with rfl | h
      · exact ⟨cmd, r, rfl, List.mem_cons_self⟩
      · obtain ⟨cmd', r', hr', hmem⟩ := ih hrest h
        exact ⟨cmd', r', hr', List.mem_cons_of_mem _ hmem⟩

theorem process_inFlight {env : Nat → Env} {conn : Conn Database} (hphase : w.phase = .ready cmds)
    (hheld : w.Held cfg) (h : stepLoop ctx cfg w (.process env conn) = some w') :
    inFlight w = cmds ++ inFlight w' ∧ ∀ s ∈ w'.sent, s ∈ w.sent ∨ ∃ cmd r, s.2 = .data r ∧
      finished (cmd, s.1) r ∈
        List.zipWith finished (ops cmds) (runBatch ctx (batchOf cmds env) conn).replies := by
  simp only [Loop.Held, hphase] at hheld
  have hcmds : (cmds.mapIdx fun i c => (c, env i)).map Prod.fst = cmds := by
    rw [List.mapIdx_eq_zipIdx_map, List.map_map]
    exact List.zipIdx_map_fst 0 cmds
  have hall : ∀ op ∈ cmds.mapIdx fun i c => (c, env i), isBatchable op.1 = true := by
    intro op hop
    refine hheld.2.2 op.1 ?_
    rw [← hcmds]
    exact List.mem_map_of_mem hop
  obtain ⟨sent, hsent, hperm⟩ := sendBatch_perm ctx hall conn
  simp only [stepLoop, hphase, hsent, Option.some.injEq] at h
  subst h
  refine ⟨by simp [inFlight, hphase, Phase.commands], ?_⟩
  intro s hs
  rcases List.mem_append.mp hs with hs | hs
  · exact Or.inl hs
  · have hmem := mem_onChannels hall (hperm.mem_iff.mp hs)
    rw [hcmds] at hmem
    exact Or.inr hmem

theorem handle_inFlight {results : Results} (hphase : w.phase = .single c) (hheld : w.Held cfg)
    (h : stepLoop ctx cfg w (.handle results) = some w') :
    inFlight w = c :: inFlight w' ∧ isBatchable c = false ∧
      ∀ i r, (i, .data r) ∈ w'.sent → (i, .data r) ∈ w.sent := by
  simp only [Loop.Held, hphase] at hheld
  simp only [stepLoop, hphase, Option.some.injEq] at h
  subst h
  refine ⟨by simp [inFlight, hphase, Phase.commands], hheld.2, ?_⟩
  intro i r hs
  rcases List.mem_append.mp hs with hs | hs
  · exact hs
  · cases c <;> simp [answer] at hs

theorem processBatch_visible (ctx : Ctx) (batch : List (Command × Env)) (conn : Conn Database) :
    visible (processBatch ctx batch conn).conn.committed =
        visible (runBatch ctx batch conn).conn.committed ∧
      (processBatch ctx batch conn).conn.committed.collections =
        (runBatch ctx batch conn).conn.committed.collections ∧
      (processBatch ctx batch conn).replies = (runBatch ctx batch conn).replies := by
  simp only [processBatch]
  split
  · rcases trim_committed ctx (runBatch ctx batch conn).conn with h | h <;> simp only [h]
    · exact ⟨trivial, trivial, trivial⟩
    · exact ⟨rfl, trivial, trivial⟩
  · exact ⟨rfl, rfl, rfl⟩

/-! ## Indexes -/

theorem visible_ensureCollection (D : Database) (name : String) :
    visible (ensureCollection D name) = visible D := by
  funext c
  unfold TinyLord.visible
  rw [rows_ensureCollection]
  by_cases hnew : c = name ∧ D.table name = none
  · obtain ⟨rfl, hnone⟩ := hnew
    rw [rows_of_none hnone, ite_self, ite_self]
  · have hex : collectionExists (ensureCollection D name) c = collectionExists D c := by
      rw [Bool.eq_iff_iff, exists_ensure_iff, or_iff_left hnew]
    rw [hex]

/-- There may be more tables than in `base`, of collections in `names`, but no more documents. -/
structure Alike (names : Set String) (base D : Database) : Prop where
  among : Among names D
  same : visible D = visible base
  keeps : ∀ c, collectionExists base c = true → collectionExists D c = true

theorem Alike.ensureCollection {base : Database} {name : String} (h : Alike names base D)
    (hname : name ∈ names) : Alike names base (TinyLord.ensureCollection D name) where
  among := h.among.ensureCollection hname
  same := (visible_ensureCollection D name).trans h.same
  keeps c hc := exists_ensure_iff.mpr (Or.inl (h.keeps c hc))

theorem doCreateIndex_alike {base : Database} {r : IndexRecord} (hname : r.collection ∈ names) :
    Preserves (fun cat => Alike names base cat.tables) (doCreateIndex sql r) := by
  refine Preserves.bind ((Preserves.write fun cat _ cat' h hrun => ?_).mapErr _) fun _ => ?_
  · unfold ensureTable at hrun
    split at hrun
    · cases hrun
      exact h
    · split_ifs at hrun
      cases hrun
      exact h.ensureCollection hname
  refine Preserves.bind ((Preserves.write fun cat _ cat' h hrun => ?_).mapErr _) fun _ => ?_
  · rw [Reserved.createIndex_tables hrun]
    exact h
  · refine (Preserves.write fun cat _ cat' h hrun => ?_).mapErr _
    rw [Reserved.insertIndexRow_tables hrun]
    exact h

theorem doDropIndex_alike {base : Database} (name : String) :
    Preserves (fun cat => Alike names base cat.tables) (doDropIndex sql name) := by
  refine ((Preserves.read _).mapErr _).bind fun existed => ?_
  split
  · exact .pure _
  · refine Preserves.bind ((Preserves.write fun _ _ _ h hrun => ?_).mapErr _) fun _ => ?_
    · obtain ⟨-, rfl⟩ := dropSqlIndex_ok hrun
      exact h
    · refine Preserves.bind ((Preserves.write fun _ _ _ h hrun => ?_).mapErr _) fun _ => .pure _
      cases hrun
      exact h

theorem handle_alike {faults : List Fault} {snapshot : Except ApiError Nat} {cat : Catalog}
    (h : Among names cat.tables)
    (hname : ∀ coll name path unique reply, c = .createIndex coll name path unique reply →
      coll ∈ names) : Alike names cat.tables (handle sql faults snapshot cat c).2.tables := by
  have hsame : Alike names cat.tables cat.tables := ⟨h, rfl, fun _ hc => hc⟩
  have hopen : (Conn.open cat faults).All fun cat' => Alike names cat.tables cat'.tables :=
    all_open (P := fun cat' : Catalog => Alike names cat.tables cat'.tables) hsame faults
  cases c with
  | createIndex coll name path unique reply =>
    exact (doCreateIndex_alike (hname coll name path unique reply rfl) _ hopen).committed
  | dropIndex name reply => exact (doDropIndex_alike name _ hopen).committed
  | create | replace | delete | snapshot | checkpoint => exact hsame

end

/-! ## The invariant -/

/-- What the handler at a stage can rely on. -/
def Stage.Sound (names : Set String) (D : Database) (marks : List (Mark Nat Request Answer))
    (i : Nat) : Stage → Prop
  | .idle => ∀ rq, .invoke i rq ∉ marks
  | .sending cmd => cmd.collection ∈ names ∧ .invoke i (.write cmd) ∈ marks ∧ i ∉ committed marks
  | .waiting cmd => cmd.collection ∈ names ∧ .invoke i (.write cmd) ∈ marks
  | .looking rd => .invoke i (.read rd) ∈ marks ∧ i ∉ committed marks
  | .selecting rd =>
    .invoke i (.read rd) ∈ marks ∧ i ∉ committed marks ∧ collectionExists D rd.coll = true
  | .seen rd r => .commit ⟨i, .read rd, .read r⟩ ∈ marks
  | .done => True

structure Inv (sq : QueryEp.Sqlite) (max : UInt32) (cfg : WriterConfig) (names : Set String)
    (n : Node) : Prop where
  exact : Exact cfg n.writer
  held : n.writer.Held cfg
  among : Among names n.cat.tables
  timed : Timed n.marks
  /-- The documents are those that the commits so far lead to. -/
  legal : Sequential (Next sq max) (fun _ => []) (commits n.marks) (visible n.cat.tables)
  queued : ∀ op ∈ ops (inFlight n.writer), n.stage op.2 = .waiting op.1 ∧ op.2 ∉ committed n.marks
  channels : ((ops (inFlight n.writer)).map Prod.snd).Nodup
  indexed : ∀ coll name path unique reply,
    .createIndex coll name path unique reply ∈ inFlight n.writer → coll ∈ names
  sent : ∀ i r, (i, .data r) ∈ n.writer.sent → ∃ cmd, .commit ⟨i, .write cmd, .wrote r⟩ ∈ n.marks
  stages : ∀ i, (n.stage i).Sound names n.cat.tables n.marks i

section

variable {sq : QueryEp.Sqlite} {max : UInt32} {ctx : Ctx} {cfg : WriterConfig} {sql : IndexSql}
  {names : Set String} {n n' : Node} {i j : Nat} {marks marks' : List (Mark Nat Request Answer)}
  {D D' : Database} {st : Stage} {rd : Read} {r : Except ApiError Seen}

theorem Stage.Sound.mono (h : st.Sound names D marks i) (hsub : marks ⊆ marks')
    (hinvoke : ∀ rq, .invoke i rq ∈ marks' → .invoke i rq ∈ marks)
    (hcommit : i ∈ committed marks' → i ∈ committed marks ∨ ∃ cmd, st = .waiting cmd)
    (hkeeps : ∀ c, collectionExists D c = true → collectionExists D' c = true) :
    st.Sound names D' marks' i := by
  cases st with
  | idle => exact fun rq hrq => h rq (hinvoke rq hrq)
  | sending cmd =>
    refine ⟨h.1, hsub h.2.1, fun hc => ?_⟩
    rcases hcommit hc with hc | ⟨_, hst⟩
    · exact h.2.2 hc
    · cases hst
  | waiting cmd => exact ⟨h.1, hsub h.2⟩
  | looking rd =>
    refine ⟨hsub h.1, fun hc => ?_⟩
    rcases hcommit hc with hc | ⟨_, hst⟩
    · exact h.2 hc
    · cases hst
  | selecting rd =>
    refine ⟨hsub h.1, fun hc => ?_, hkeeps _ h.2.2⟩
    rcases hcommit hc with hc | ⟨_, hst⟩
    · exact h.2.1 hc
    · cases hst
  | seen rd r => exact hsub h
  | done => trivial

theorem Stage.Sound.other (m : Mark Nat Request Answer) (h : st.Sound names D marks i)
    (hinvoke : ∀ rq, m ≠ .invoke i rq) (hcommit : ∀ d, m = .commit d → d.id ≠ i) :
    st.Sound names D (marks ++ [m]) i := by
  refine h.mono (List.subset_append_left _ _) ?_ ?_ fun _ hc => hc
  · intro rq hrq
    rcases List.mem_append.mp hrq with hrq | hrq
    · exact hrq
    · exact absurd (List.mem_singleton.mp hrq).symm (hinvoke rq)
  · intro hc
    rw [committed, commits_concat, List.map_append, List.mem_append] at hc
    refine hc.imp_right fun hc => ?_
    cases m with
    | commit d =>
      have hid : i = d.id := by simpa [Mark.done?] using hc
      exact absurd hid.symm (hcommit d rfl)
    | invoke | respond => simp [Mark.done?] at hc

theorem ops_append (cs cs' : List WriteCommand) : ops (cs ++ cs') = ops cs ++ ops cs' :=
  List.filterMap_append

theorem ops_single {c : WriteCommand} (h : isBatchable c = false) : ops [c] = [] := by
  cases c with
  | create | replace | delete => cases h
  | createIndex | dropIndex | snapshot | checkpoint => rfl

theorem ops_to (cmd : Command) (i : Nat) : ops [Command.to cmd i] = [(cmd, i)] := by
  cases cmd <;> rfl

theorem received_mem {sent : List Sent} {w : Reply} (h : received sent i = some w) :
    (i, .data w) ∈ sent := by
  obtain ⟨s, hs, hdata⟩ := List.exists_of_findSome?_eq_some h
  obtain ⟨k, a⟩ := s
  cases a with
  | data r =>
    simp only at hdata
    split_ifs at hdata with hk
    cases hdata
    exact hk ▸ hs
  | indexed | dropped | snapshot => cases hdata

theorem Inv.not_committed (h : Inv sq max cfg names n) (hidle : n.stage i = .idle) :
    i ∉ committed n.marks := by
  intro hc
  obtain ⟨d, hd, rfl⟩ := List.mem_map.mp hc
  have hst := h.stages d.id
  rw [hidle] at hst
  exact hst d.op (h.timed.invoked (mem_commits.mp hd))

theorem Inv.handler (h : Inv sq max cfg names n) (st : Stage) (m : Mark Nat Request Answer)
    (hnot : ∀ cmd, n.stage i ≠ .waiting cmd ∨ i ∈ committed n.marks)
    (hinvoke : ∀ j rq, m = .invoke j rq → j = i) (hcommit : ∀ d, m = .commit d → d.id = i)
    (htimed : Timed (n.marks ++ [m]))
    (hlegal : Sequential (Next sq max) (fun _ => []) (commits (n.marks ++ [m]))
      (visible n.cat.tables))
    (hst : st.Sound names n.cat.tables (n.marks ++ [m]) i) :
    Inv sq max cfg names ((n.put i st).mark m) where
  exact := h.exact
  held := h.held
  among := h.among
  timed := htimed
  legal := hlegal
  queued op hop := by
    obtain ⟨hwait, hnew⟩ := h.queued op hop
    have hne : op.2 ≠ i := by
      rintro rfl
      exact (hnot op.1).elim (fun hn => hn hwait) hnew
    refine ⟨(Function.update_of_ne hne _ _).trans hwait, ?_⟩
    simp only [Node.mark, Node.put, committed, commits_concat, List.map_append, List.mem_append,
      not_or]
    refine ⟨hnew, fun hc => hne ?_⟩
    cases m with
    | commit d =>
      have hid : op.2 = d.id := by simpa [Mark.done?] using hc
      exact hid.trans (hcommit d rfl)
    | invoke | respond => simp [Mark.done?] at hc
  channels := h.channels
  indexed := h.indexed
  sent j r hr := by
    obtain ⟨cmd, hcmd⟩ := h.sent j r hr
    exact ⟨cmd, List.mem_append_left _ hcmd⟩
  stages j := by
    simp only [Node.mark, Node.put]
    by_cases hj : j = i
    · subst hj
      rw [Function.update_self]
      exact hst
    · rw [Function.update_of_ne hj]
      exact (h.stages j).other m (fun rq heq => hj (hinvoke j rq heq))
        fun d hd heq => hj (heq.symm.trans (hcommit d hd))

/-! ## The steps of the handlers -/

theorem inv_call {rq : Request} (h : Inv sq max cfg names n) (hidle : n.stage i = .idle)
    (hrq : ∀ cmd, rq = .write cmd → cmd.collection ∈ names) :
    Inv sq max cfg names ((n.put i rq.stage).mark (.invoke i rq)) := by
  have hfresh : ∀ rq, .invoke i rq ∉ n.marks := by
    have hst := h.stages i
    rw [hidle] at hst
    exact hst
  have hnew : i ∉ committed (n.marks ++ [.invoke i rq]) := by
    simpa [committed, Mark.done?] using h.not_committed hidle
  have hmem : .invoke i rq ∈ n.marks ++ [.invoke i rq] := by simp
  refine h.handler rq.stage (.invoke i rq) (fun cmd => Or.inl (by simp [hidle])) ?_ ?_
    (.invoke i rq h.timed hfresh) ?_ ?_
  · rintro j rq' ⟨⟩
    rfl
  · rintro d ⟨⟩
  · simpa [Mark.done?] using h.legal
  · cases rq with
    | write cmd => exact ⟨hrq cmd rfl, hmem, hnew⟩
    | read rd => exact ⟨hmem, hnew⟩

theorem inv_read (h : Inv sq max cfg names n) (hinvoke : .invoke i (.read rd) ∈ n.marks)
    (hnew : i ∉ committed n.marks) (hstage : ∀ cmd, n.stage i ≠ .waiting cmd)
    (hnext : Next sq max (visible n.cat.tables) (.read rd) (.read r) (visible n.cat.tables)) :
    Inv sq max cfg names (n.read i rd r) := by
  refine h.handler (.seen rd r) (.commit ⟨i, .read rd, .read r⟩) (fun cmd => Or.inl (hstage cmd))
    nofun ?_ (.commit _ h.timed hinvoke hnew) ?_ ?_
  · rintro d ⟨⟩
    rfl
  · rw [commits_concat]
    exact .concat _ h.legal hnext
  · exact List.mem_append_right _ (List.mem_singleton_self _)

theorem inv_respond {d : Done Nat Request Answer} (h : Inv sq max cfg names n)
    (hd : .commit d ∈ n.marks) : Inv sq max cfg names (n.respond d.id d.answer) := by
  have hdone : d.id ∈ committed n.marks := List.mem_map_of_mem (mem_commits.mpr hd)
  refine h.handler .done (.respond d.id d.answer) (fun cmd => Or.inr hdone) ?_ ?_
    (.respond d h.timed hd) ?_ trivial
  · rintro _ _ ⟨⟩
  · rintro _ ⟨⟩
  · simpa [Mark.done?] using h.legal

theorem inv_put (h : Inv sq max cfg names n) (hstage : ∀ cmd, n.stage i ≠ .waiting cmd)
    (hst : st.Sound names n.cat.tables n.marks i) : Inv sq max cfg names (n.put i st) where
  exact := h.exact
  held := h.held
  among := h.among
  timed := h.timed
  legal := h.legal
  queued op hop := by
    obtain ⟨hwait, hnew⟩ := h.queued op hop
    have hne : op.2 ≠ i := by
      rintro rfl
      exact hstage op.1 hwait
    exact ⟨(Function.update_of_ne hne _ _).trans hwait, hnew⟩
  channels := h.channels
  indexed := h.indexed
  sent := h.sent
  stages j := by
    simp only [Node.put]
    by_cases hj : j = i
    · subst hj
      rw [Function.update_self]
      exact hst
    · rw [Function.update_of_ne hj]
      exact h.stages j

theorem inv_look {failed : Option ApiError} (h : Inv sq max cfg names n)
    (hstep : step sq max ctx cfg sql n (.look i failed) = some n') : Inv sq max cfg names n' := by
  simp only [step] at hstep
  split at hstep
  · next rd e hstage =>
    obtain ⟨hinvoke, hnew⟩ : (Stage.looking rd).Sound names n.cat.tables n.marks i :=
      hstage ▸ h.stages i
    cases hstep
    exact inv_read h hinvoke hnew (by simp [hstage]) (.unread rd e)
  · next rd hstage =>
    have hst : (Stage.looking rd).Sound names n.cat.tables n.marks i := hstage ▸ h.stages i
    obtain ⟨hinvoke, hnew⟩ := hst
    split_ifs at hstep with hthere
    · cases hstep
      exact inv_put h (by simp [hstage]) ⟨hinvoke, hnew, hthere⟩
    · cases hstep
      have hnone : visible n.cat.tables rd.coll = [] := by
        rw [visible, if_neg hthere]
      have hnext := @Next.read sq max _ rd mergeSorter false fun _ => hnone
      rw [hnone] at hnext
      exact inv_read h hinvoke hnew (by simp [hstage]) hnext
  · cases hstep

theorem inv_select {sorter : Sorter DocRow} {failed : Option ApiError}
    (h : Inv sq max cfg names n)
    (hstep : step sq max ctx cfg sql n (.select i sorter failed) = some n') :
    Inv sq max cfg names n' := by
  simp only [step] at hstep
  split at hstep
  · next rd e hstage =>
    have hst : (Stage.selecting rd).Sound names n.cat.tables n.marks i := hstage ▸ h.stages i
    obtain ⟨hinvoke, hnew, -⟩ := hst
    cases hstep
    exact inv_read h hinvoke hnew (by simp [hstage]) (.unread rd e)
  · next rd hstage =>
    have hst : (Stage.selecting rd).Sound names n.cat.tables n.marks i := hstage ▸ h.stages i
    obtain ⟨hinvoke, hnew, hthere⟩ := hst
    cases hstep
    have hrows : visible n.cat.tables rd.coll = n.cat.tables.rows rd.coll := by
      rw [visible, if_pos hthere]
    have hnext := @Next.read sq max (visible n.cat.tables) rd sorter true nofun
    rw [hrows] at hnext
    exact inv_read h hinvoke hnew (by simp [hstage]) hnext
  · cases hstep

theorem inv_answer (h : Inv sq max cfg names n)
    (hstep : step sq max ctx cfg sql n (.answer i) = some n') : Inv sq max cfg names n' := by
  simp only [step] at hstep
  split at hstep
  · obtain ⟨w, hw, rfl⟩ := Option.map_eq_some_iff.mp hstep
    obtain ⟨cmd, hcmd⟩ := h.sent i w (received_mem hw)
    exact inv_respond h hcmd
  · next rd r hstage =>
    have hst : (Stage.seen rd r).Sound names n.cat.tables n.marks i := hstage ▸ h.stages i
    cases hstep
    exact inv_respond h hst
  · cases hstep

/-! ## The steps of the writer -/

theorem inv_push {c : WriteCommand} {w : Loop} (h : Inv sq max cfg names n)
    (hput : stepLoop ctx cfg n.writer (.put c) = some w)
    (hqueued : ∀ op ∈ ops [c], n.stage op.2 = .waiting op.1 ∧ op.2 ∉ committed n.marks)
    (hchannels : ((ops (inFlight n.writer) ++ ops [c]).map Prod.snd).Nodup)
    (hindexed : ∀ coll name path unique reply, c = .createIndex coll name path unique reply →
      coll ∈ names) : Inv sq max cfg names { n with writer := w } := by
  obtain ⟨hexact, hheld⟩ := exact_step h.exact h.held hput
  obtain ⟨hflight, hsent⟩ := put_inFlight hput
  refine ⟨hexact, hheld, h.among, h.timed, h.legal, ?_, ?_, ?_, ?_, h.stages⟩
  · intro op hop
    rw [hflight, ops_append, List.mem_append] at hop
    exact hop.elim (h.queued op) (hqueued op)
  · rwa [hflight, ops_append]
  · intro coll name path unique reply hc
    rw [hflight, List.mem_append, List.mem_singleton] at hc
    exact hc.elim (h.indexed coll name path unique reply)
      fun heq => hindexed coll name path unique reply heq.symm
  · rw [hsent]
    exact h.sent

theorem inv_send (h : Inv sq max cfg names n)
    (hstep : step sq max ctx cfg sql n (.send i) = some n') : Inv sq max cfg names n' := by
  simp only [step] at hstep
  split at hstep
  · next cmd hstage =>
    obtain ⟨w, hput, rfl⟩ := Option.map_eq_some_iff.mp hstep
    have hst : (Stage.sending cmd).Sound names n.cat.tables n.marks i := hstage ▸ h.stages i
    obtain ⟨hcmd, hinvoke, hnew⟩ := hst
    have hput' : Inv sq max cfg names (n.put i (.waiting cmd)) :=
      inv_put h (by simp [hstage]) ⟨hcmd, hinvoke⟩
    refine inv_push hput' hput ?_ ?_ fun coll name path unique reply heq => ?_
    · rw [ops_to]
      intro op hop
      obtain rfl := List.mem_singleton.mp hop
      exact ⟨Function.update_self .., hnew⟩
    · rw [ops_to, List.map_append]
      refine h.channels.append (List.nodup_singleton _) ?_
      rw [List.map_singleton, List.disjoint_singleton]
      intro hi
      obtain ⟨op, hop, rfl⟩ := List.mem_map.mp hi
      have hwait := (h.queued op hop).1
      rw [hstage] at hwait
      cases hwait
    · cases cmd <;> cases heq
  · cases hstep

theorem inv_turn {a : LoopAct} (h : Inv sq max cfg names n)
    (hstep : step sq max ctx cfg sql n (.turn a) = some n') : Inv sq max cfg names n' := by
  obtain ⟨ha, w, hw, rfl⟩ := step_turn hstep
  obtain ⟨hexact, hheld⟩ := exact_step h.exact h.held hw
  obtain ⟨hflight, hsent⟩ := turn_inFlight ha h.exact hexact hw
  refine ⟨hexact, hheld, h.among, h.timed, h.legal, ?_, ?_, ?_, ?_, h.stages⟩
  · rw [hflight]
    exact h.queued
  · rw [hflight]
    exact h.channels
  · rw [hflight]
    exact h.indexed
  · rw [hsent]
    exact h.sent

theorem finished_ids (cs : List (Command × Nat)) (replies : List Reply) :
    (List.zipWith finished cs replies).map Done.id <+: cs.map Prod.snd := by
  induction cs generalizing replies with
  | nil => simp
  | cons op cs ih =>
    cases replies with
    | nil => simp
    | cons r replies => simpa [finished] using ih replies

theorem mem_finished {cs : List (Command × Nat)} {replies : List Reply}
    {d : Done Nat Request Answer} (h : d ∈ List.zipWith finished cs replies) :
    ∃ op ∈ cs, d.id = op.2 ∧ d.op = .write op.1 := by
  induction cs generalizing replies with
  | nil => simp at h
  | cons op cs ih =>
    cases replies with
    | nil => simp at h
    | cons r replies =>
      rw [List.zipWith_cons_cons, List.mem_cons] at h
      rcases h with rfl | h
      · exact ⟨op, List.mem_cons_self, rfl, rfl⟩
      · obtain ⟨op', hop', hd⟩ := ih h
        exact ⟨op', List.mem_cons_of_mem _ hop', hd⟩

theorem inv_batch {env : Nat → Env} {faults : List Fault} (hnames : Distinct names)
    (h : Inv sq max cfg names n) (hok : proper ctx names n (.batch env faults))
    (hstep : step sq max ctx cfg sql n (.batch env faults) = some n') :
    Inv sq max cfg names n' := by
  simp only [step] at hstep
  split at hstep
  · next cmds hphase =>
    obtain ⟨w, hw, rfl⟩ := Option.map_eq_some_iff.mp hstep
    obtain ⟨hexact, hheld⟩ := exact_step h.exact h.held hw
    obtain ⟨hflight, hsent⟩ := process_inFlight hphase h.held hw
    have htrue := truthful_of_contained (hok cmds hphase)
    obtain ⟨hvisible, hcollections, hreplies⟩ :=
      processBatch_visible ctx (batchOf cmds env) (.open n.cat.tables faults)
    have hqueued : ∀ op ∈ ops cmds, n.stage op.2 = .waiting op.1 ∧ op.2 ∉ committed n.marks ∧
        op.1.collection ∈ names ∧ .invoke op.2 (.write op.1) ∈ n.marks := by
      intro op hop
      obtain ⟨hwait, hnew⟩ := h.queued op (by
        rw [hflight, ops_append]
        exact List.mem_append_left _ hop)
      have hst : (Stage.waiting op.1).Sound names n.cat.tables n.marks op.2 :=
        hwait ▸ h.stages op.2
      exact ⟨hwait, hnew, hst⟩
    have hcommands : ∀ op ∈ batchOf cmds env, op.1.collection ∈ names := by
      intro op hop
      have hmem : op.1 ∈ (ops cmds).map Prod.fst := by
        rw [← batchOf_commands cmds env]
        exact List.mem_map_of_mem hop
      obtain ⟨op', hop', heq⟩ := List.mem_map.mp hmem
      rw [← heq]
      exact (hqueued op' hop').2.2.1
    obtain ⟨hseq, hamong, hkeeps⟩ := @sequential_of_serial names _ _ sq max _ _ _ _ hnames htrue
      (batchOf_commands cmds env).symm hcommands h.among
    rw [← hreplies] at hseq hsent
    rw [← hvisible] at hseq
    generalize (processBatch ctx (batchOf cmds env) (.open n.cat.tables faults)).replies = rs
      at hseq hsent ⊢
    have hids : ∀ i ∈ (List.zipWith finished (ops cmds) rs).map Done.id,
        i ∈ (ops cmds).map Prod.snd := (finished_ids (ops cmds) rs).subset
    have hcommitted : ∀ i, i ∈ committed
        (n.marks ++ (List.zipWith finished (ops cmds) rs).map .commit) →
        i ∈ committed n.marks ∨ i ∈ (ops cmds).map Prod.snd := by
      intro i hi
      rw [committed, commits_commits, List.map_append, List.mem_append] at hi
      exact hi.imp_right (hids i)
    have hchannels := h.channels
    rw [hflight, ops_append, List.map_append, List.nodup_append] at hchannels
    obtain ⟨honce, hrest, hapart⟩ := hchannels
    have hexists : ∀ c, collectionExists n.cat.tables c = true → collectionExists
        (processBatch ctx (batchOf cmds env) (.open n.cat.tables faults)).conn.committed c =
          true := by
      intro c hc
      rw [collectionExists, hcollections]
      exact hkeeps c hc
    refine ⟨hexact, hheld, ?_, ?_, ?_, ?_, hrest, ?_, ?_, ?_⟩
    · intro t ht
      exact hamong t (hcollections ▸ ht)
    · refine h.timed.commits ?_ ?_ (honce.sublist (finished_ids (ops cmds) rs).sublist)
      · intro d hd
        obtain ⟨op, hop, hid, hdo⟩ := mem_finished hd
        rw [hid, hdo]
        exact (hqueued op hop).2.2.2
      · intro d hd
        obtain ⟨op, hop, hid, -⟩ := mem_finished hd
        rw [hid]
        exact (hqueued op hop).2.1
    · rw [commits_commits]
      exact h.legal.trans hseq
    · intro op hop
      obtain ⟨hwait, hnew⟩ := h.queued op (by
        rw [hflight, ops_append]
        exact List.mem_append_right _ hop)
      refine ⟨hwait, fun hi => ?_⟩
      rcases hcommitted _ hi with hi | hi
      · exact hnew hi
      · exact hapart _ hi _ (List.mem_map_of_mem hop) rfl
    · intro coll name path unique reply hc
      exact h.indexed coll name path unique reply
        (hflight ▸ List.mem_append_right _ hc)
    · intro i r hr
      rcases hsent _ hr with hr | ⟨cmd, r', hr', hmem⟩
      · obtain ⟨cmd, hcmd⟩ := h.sent i r hr
        exact ⟨cmd, List.mem_append_left _ hcmd⟩
      · cases hr'
        exact ⟨cmd, List.mem_append_right _ (List.mem_map_of_mem hmem)⟩
    · intro i
      refine (h.stages i).mono (List.subset_append_left _ _) ?_ ?_ hexists
      · intro rq hrq
        rcases List.mem_append.mp hrq with hrq | hrq
        · exact hrq
        · obtain ⟨d, -, hd⟩ := List.mem_map.mp hrq
          cases hd
      · intro hi
        refine (hcommitted i hi).imp_right fun hi => ?_
        obtain ⟨op, hop, rfl⟩ := List.mem_map.mp hi
        exact ⟨op.1, (hqueued op hop).1⟩
  · cases hstep

theorem inv_single {faults : List Fault} {snapshot : Except ApiError Nat}
    (h : Inv sq max cfg names n)
    (hstep : step sq max ctx cfg sql n (.single faults snapshot) = some n') :
    Inv sq max cfg names n' := by
  simp only [step] at hstep
  split at hstep
  · next c hphase =>
    obtain ⟨w, hw, rfl⟩ := Option.map_eq_some_iff.mp hstep
    obtain ⟨hexact, hheld⟩ := exact_step h.exact h.held hw
    obtain ⟨hflight, hc, hsent⟩ := handle_inFlight hphase h.held hw
    have hops : ops (inFlight n.writer) = ops (inFlight w) := by
      rw [hflight, ← List.singleton_append, ops_append, ops_single hc, List.nil_append]
    have halike : Alike names n.cat.tables (handle sql faults snapshot n.cat c).2.tables :=
      handle_alike h.among fun coll name path unique reply heq =>
        h.indexed coll name path unique reply (by simp [hflight, heq])
    refine ⟨hexact, hheld, halike.among, h.timed, ?_, ?_, ?_, ?_, ?_, ?_⟩
    · rw [halike.same]
      exact h.legal
    · rw [← hops]
      exact h.queued
    · rw [← hops]
      exact h.channels
    · intro coll name path unique reply hmem
      exact h.indexed coll name path unique reply (hflight ▸ List.mem_cons_of_mem _ hmem)
    · exact fun i r hr => h.sent i r (hsent i r hr)
    · exact fun i => (h.stages i).mono (List.Subset.refl _) (fun _ hrq => hrq) Or.inl halike.keeps
  · cases hstep

theorem inv_restart (h : Inv sq max cfg names n)
    (hstep : step sq max ctx cfg sql n .restart = some n') : Inv sq max cfg names n' := by
  cases hstep
  refine ⟨⟨rfl, nofun, .nil, nofun⟩, trivial, h.among, h.timed, h.legal, nofun, .nil, nofun, nofun,
    fun i => ?_⟩
  have hst := h.stages i
  simp only
  generalize n.stage i = st at hst
  cases st with
  | idle => exact hst
  | sending | waiting | looking | selecting | seen | done => trivial

theorem inv_step {a : Act} (hnames : Distinct names) (h : Inv sq max cfg names n)
    (hok : proper ctx names n a) (hstep : step sq max ctx cfg sql n a = some n') :
    Inv sq max cfg names n' := by
  cases a with
  | call i rq =>
    simp only [step] at hstep
    split at hstep
    · next hidle =>
      cases hstep
      refine inv_call h hidle ?_
      rintro cmd rfl
      exact hok
    · cases hstep
  | send i => exact inv_send h hstep
  | look i failed => exact inv_look h hstep
  | select i sorter failed => exact inv_select h hstep
  | answer i => exact inv_answer h hstep
  | other c =>
    simp only [step] at hstep
    split_ifs at hstep with hc
    obtain ⟨w, hw, rfl⟩ := Option.map_eq_some_iff.mp hstep
    rw [Bool.not_eq_true] at hc
    refine inv_push h hw (by simp [ops_single hc]) ?_ ?_
    · rw [ops_single hc, List.append_nil]
      exact h.channels
    · rintro coll name path unique reply rfl
      exact hok
  | turn a => exact inv_turn h hstep
  | batch env faults => exact inv_batch hnames h hok hstep
  | single faults snapshot => exact inv_single h hstep
  | restart => exact inv_restart h hstep

theorem inv_start (sq : QueryEp.Sqlite) (max : UInt32) (cfg : WriterConfig) (names : Set String) :
    Inv sq max cfg names .start where
  exact := ⟨rfl, nofun, .nil, nofun⟩
  held := trivial
  among := nofun
  timed := .nil
  legal := .nil
  queued := nofun
  channels := .nil
  indexed := nofun
  sent := nofun
  stages _ := nofun

/-- Whatever overlaps with what, and wherever the process stops and starts again, every answer is
one that a store gives which does one request at a time, each between its call and its answer. -/
theorem store_linearizable (hnames : Distinct names)
    (h : Reach (step sq max ctx cfg sql) (proper ctx names) .start n) :
    Linearizable (Next sq max) (fun _ => []) (history n.marks) := by
  have hinv : Inv sq max cfg names n := h.inv (Inv sq max cfg names)
    (inv_start sq max cfg names) fun _ _ _ ht hok hstep => inv_step hnames ht hok hstep
  exact hinv.timed.linearizable hinv.legal

def plainSqlite : QueryEp.Sqlite :=
  { textTruth := fun _ => false, stored := fun _ => .null, extract := fun _ _ => .null
    readFloat := id }

/-- A document is put and read at the same time, and then the process stops. -/
def overlapping : List Act :=
  [.call 0 (.write (.replace "notes" "a" .null)), .send 0, .turn .next, .turn (.tryRecv false),
   .call 1 (.read (.get "notes" "a")), .batch (fun _ => envAt "x" 5) [], .look 1 none, .answer 0,
   .select 1 mergeSorter none, .answer 1, .restart]

theorem store_linearizable_overlapping :
    ∃ n, exec (step plainSqlite 100 noLimits ⟨true, 64⟩ Reserved.plainSql) .start overlapping =
        some n ∧
      .respond 1 (.read (.ok (.document (some ⟨"a", .null, 5, 5⟩)))) ∈ history n.marks ∧
      Linearizable (Next plainSqlite 100) (fun _ => []) (history n.marks) := by
  obtain ⟨n, hn, hrespond⟩ : ∃ n,
      exec (step plainSqlite 100 noLimits ⟨true, 64⟩ Reserved.plainSql) .start overlapping =
        some n ∧ .respond 1 (.read (.ok (.document (some ⟨"a", .null, 5, 5⟩)))) ∈ history n.marks :=
    ⟨_, rfl, List.mem_of_getElem? (i := 3) rfl⟩
  have hallowed : Allowed (step plainSqlite 100 noLimits ⟨true, 64⟩ Reserved.plainSql)
      (proper noLimits {"notes"}) .start overlapping := by
    refine .cons rfl rfl (.cons trivial rfl (.cons trivial rfl (.cons trivial rfl
      (.cons trivial rfl (.cons ?_ rfl (.cons trivial rfl (.cons trivial rfl (.cons trivial rfl
      (.cons trivial rfl (.cons trivial rfl trivial))))))))))
    exact fun _ _ => contained_healthy _ _ _
  have hdistinct : Distinct {"notes"} := by
    rintro a rfl b rfl -
    rfl
  exact ⟨n, hn, hrespond, store_linearizable hdistinct (.of_exec overlapping hallowed hn)⟩

end

end TinyLord.Store
