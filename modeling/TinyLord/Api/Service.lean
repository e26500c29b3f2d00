import TinyLord.Api.Server
import TinyLord.Api.Store

/-!
# The whole service

The handler of a data route gets to a database only behind the checks of its request. Whatever a
database has done or its writer was sent goes back to a request that was let in for just that.
-/

open Lib Lib.Linear Lib.Run Lib.Threads

namespace TinyLord.Service

open Server (DataOp MayUse)
open Store (Node)

/-! ## Handlers -/

/-- What the handler of a route asks of the database. -/
inductive Task where
  | request (rq : Store.Request)
  | command (c : WriteCommand)

def handles : DataOp → Task → Bool
  | .createDocument, .request (.write (.create ..)) | .putDocument, .request (.write (.replace ..))
  | .deleteDocument, .request (.write (.delete ..)) | .getDocument, .request (.read (.get ..))
  | .query, .request (.read (.query ..)) | .count, .request (.read (.count ..))
  | .createIndex, .command (.createIndex ..) | .dropIndex, .command (.dropIndex ..)
  | .snapshot, .command (.snapshot ..) => true
  | _, _ => false

/-- The step of the database with which the handler starts. A command waits for its reply on the
channel of the request. -/
def Task.act (i : Nat) : Task → Option Store.Act
  | .request rq => some (.call i rq)
  | .command c => if c.reply? = some i then some (.other c) else none

/-! ## The service -/

structure Setup where
  server : Server.Config
  hashToken : String → String
  verifyPassword : String → String → Bool
  argon2 : String → String → Option String
  sqlite : QueryEp.Sqlite
  maxQueryLimit : UInt32
  ctx : Ctx
  writer : WriterConfig
  sql : IndexSql

/-- The control plane with all requests, and the databases by name. -/
structure State where
  server : Server.System
  nodes : String → Node

def State.start (tables : SystemDb) : State where
  server := .boot tables
  nodes := fun _ => .start

inductive Act where
  | server (i : Nat) (a : Server.Act)
  /-- The handler of request `i` starts. -/
  | handle (i : Nat) (task : Task)
  | node (db : String) (a : Store.Act)

/-- What a database does by itself. The ticker sends checkpoints. -/
def own : Store.Act → Bool
  | .call .. => false
  | .other .checkpoint => true
  | .other _ => false
  | _ => true

def State.put (s : State) (db : String) (n : Node) : State :=
  { s with nodes := Function.update s.nodes db n }

variable (e : Setup)

def Setup.serverStep (s : Server.System) (a : Nat × Server.Act) : Option Server.System :=
  Threads.step (Server.next e.server e.hashToken e.verifyPassword e.argon2) s a

def Setup.nodeStep (n : Node) (a : Store.Act) : Option Node :=
  Store.step e.sqlite e.maxQueryLimit e.ctx e.writer e.sql n a

def step (s : State) : Act → Option State
  | .server i a => (e.serverStep s.server (i, a)).map fun server => { s with server }
  | .handle i task =>
    match s.server.threads i with
    | .admitted _ db op _ =>
      if handles op task then do
        let a ← task.act i
        (e.nodeStep (s.nodes db) a).map (s.put db)
      else none
    | _ => none
  | .node db a => if own a then (e.nodeStep (s.nodes db) a).map (s.put db) else none

/-! ## The statement -/

/-- The statement of request `i` finds the principal for its token. -/
def identifies (i : Nat) (token : String) (p : Principal) (s : State) (a : Act) : Prop :=
  ∃ draw route pc, a = .server i (.run draw) ∧ s.server.threads i = .checking token route pc ∧
    pc.found e.hashToken s.server.shared.auth.db draw.now token = some p

/-- The statement of request `i` finds that the principal may use the database, after it was
identified. -/
def permits (tables : SystemDb) (i : Nat) (token db : String) (op : DataOp) (p : Principal)
    (s : State) (a : Act) : Prop :=
  (∃ draw, a = .server i (.run draw)) ∧ MayUse s.server.shared.auth.db p db op ∧
    Happened (step e) anyStep (identifies e i token p) (State.start tables) s

/-- Request `i` was let in to the database for the task. -/
def Authorized (tables : SystemDb) (s : State) (db : String) (i : Nat) (task : Task) : Prop :=
  ∃ token op p, s.server.threads i = .admitted token db op p ∧ handles op task = true ∧
    Happened (step e) anyStep (permits e tables i token db op p) (State.start tables) s

/-! ## The checks of a request -/

section

variable {e} {tables : SystemDb} {s s' : State} {i j : Nat} {a : Act} {db token : String}
  {op : DataOp} {p : Principal} {task : Task} {n n' : Node}

def Identified (e : Setup) (tables : SystemDb) (s : State) (i : Nat) (token : String)
    (p : Principal) : Prop :=
  Happened (step e) anyStep (identifies e i token p) (State.start tables) s

def Permitted (e : Setup) (tables : SystemDb) (s : State) (i : Nat) (token db : String)
    (op : DataOp) (p : Principal) : Prop :=
  Happened (step e) anyStep (permits e tables i token db op p) (State.start tables) s

/-- What the checks of request `i` have seen so far. -/
def Checked (e : Setup) (tables : SystemDb) (s : State) (i : Nat) : Server.Thread → Prop
  | .checking token _ (.rateLimit p) => Identified e tables s i token p
  | .authorizing token db op p place =>
    Identified e tables s i token p ∧ (place = .openDb → Permitted e tables s i token db op p)
  | .admitted token db op p => Permitted e tables s i token db op p
  | _ => True

theorem Checked.later {t : Server.Thread} (h : Checked e tables s i t)
    (hstep : step e s a = some s') : Checked e tables s' i t := by
  match t with
  | .checking _ _ (.rateLimit _) => exact Happened.later a h trivial hstep
  | .authorizing _ _ _ _ _ =>
    exact ⟨h.1.later a trivial hstep, fun hplace => (h.2 hplace).later a trivial hstep⟩
  | .admitted _ _ _ _ => exact Happened.later a h trivial hstep
  | .checking _ _ .lookupToken | .checking _ _ .lookupAccess | .idle | .shown _ | .control _
  | .grants _ | .refused _ => trivial

theorem checked_server {b : Server.Act} {server : Server.System}
    (hreach : Reach (step e) anyStep (State.start tables) s)
    (h : Checked e tables s i (s.server.threads i))
    (hserver : e.serverStep s.server (i, b) = some server)
    (hstep : step e s (.server i b) = some s') :
    Checked e tables s' i (server.threads i) := by
  obtain ⟨c', t', hnext, rfl⟩ := step_cases hserver
  simp only [Function.update_self]
  rcases Server.next_cases hnext with ⟨_, _, -, -, rfl⟩ | ⟨_, -, -, rfl⟩ |
    ⟨token, route, pc, draw, ht, hrun, -, hcheck⟩ |
    ⟨token, db, op, p, place, draw, ht, hrun, -, hauth⟩ | ⟨_, -, rfl⟩ |
    ⟨_, _, _, _, -, rfl, -⟩ | ⟨_, _, _, _, -, rfl, -⟩
  · trivial
  · trivial
  · simp only at ht hrun hcheck
    subst hrun
    rcases Server.check_cases hcheck with ⟨-, rfl⟩ | ⟨p, hp, rfl⟩ | ⟨p, rfl, rfl⟩ | ⟨_, rfl⟩
    · trivial
    · exact .now _ hreach trivial hstep ⟨draw, route, pc, rfl, ht, hp⟩
    · rw [ht] at h
      have hid := Happened.later _ h trivial hstep
      rcases Server.enter_cases rfl with ⟨_, _, -, h⟩ | ⟨-, ⟨_, h⟩ | ⟨_, h⟩⟩ | h | ⟨_, h⟩ <;> rw [h]
      · exact ⟨hid, nofun⟩
      all_goals trivial
    · trivial
  · simp only at ht hrun hauth
    subst hrun
    rw [ht] at h
    have hid := Happened.later _ h.1 trivial hstep
    rcases Server.authorize_cases hauth with rfl | ⟨hmay, rfl⟩ | ⟨rfl, rfl⟩ | ⟨_, rfl⟩
    · exact ⟨hid, nofun⟩
    · exact ⟨hid, fun _ => .now _ hreach trivial hstep ⟨⟨draw, rfl⟩, hmay, h.1⟩⟩
    · exact (h.2 rfl).later _ trivial hstep
    · trivial
  · trivial
  · trivial
  · trivial

/-! ## What a database does -/

/-- The request that a handler is at work on. -/
def asked : Store.Stage → Option Store.Request
  | .sending cmd | .waiting cmd => some (.write cmd)
  | .looking rd | .selecting rd | .seen rd _ => some (.read rd)
  | .idle | .done => none

/-- A database works for requests only that were called. -/
structure Called (cfg : WriterConfig) (n : Node) : Prop where
  exact : Exact cfg n.writer
  held : n.writer.Held cfg
  stages : ∀ i, ∀ rq ∈ asked (n.stage i), .invoke i rq ∈ n.marks
  queued : ∀ op ∈ Store.ops (Store.inFlight n.writer), .invoke op.2 (.write op.1) ∈ n.marks
  commits : ∀ d, .commit d ∈ n.marks → .invoke d.id d.op ∈ n.marks

theorem exact_start {cfg : WriterConfig} : Exact cfg .start :=
  ⟨rfl, nofun, .nil, nofun⟩

theorem called_start {cfg : WriterConfig} : Called cfg .start where
  exact := exact_start
  held := trivial
  stages _ := by rintro _ ⟨⟩
  queued := by rintro _ ⟨⟩
  commits := by rintro _ ⟨⟩

theorem Called.handler {cfg : WriterConfig} (h : Called cfg n) (st : Store.Stage)
    (m : Mark Nat Store.Request Store.Answer)
    (hask : ∀ rq ∈ asked st, .invoke i rq ∈ n.marks ++ [m])
    (hcommit : ∀ d, m = .commit d → .invoke d.id d.op ∈ n.marks) :
    Called cfg ((n.put i st).mark m) where
  exact := h.exact
  held := h.held
  stages j rq hrq := by
    simp only [Store.Node.mark, Store.Node.put] at hrq ⊢
    by_cases hj : j = i
    · subst hj
      rw [Function.update_self] at hrq
      exact hask rq hrq
    · rw [Function.update_of_ne hj] at hrq
      exact List.mem_append_left _ (h.stages j rq hrq)
  queued op hop := List.mem_append_left _ (h.queued op hop)
  commits d hd := by
    rcases List.mem_append.mp hd with hd | hd
    · exact List.mem_append_left _ (h.commits d hd)
    · exact List.mem_append_left _ (hcommit d (List.mem_singleton.mp hd).symm)

theorem Called.put {cfg : WriterConfig} (h : Called cfg n) (st : Store.Stage)
    (hask : ∀ rq ∈ asked st, .invoke i rq ∈ n.marks) : Called cfg (n.put i st) where
  exact := h.exact
  held := h.held
  stages j rq hrq := by
    simp only [Store.Node.put] at hrq ⊢
    by_cases hj : j = i
    · subst hj
      rw [Function.update_self] at hrq
      exact hask rq hrq
    · rw [Function.update_of_ne hj] at hrq
      exact h.stages j rq hrq
  queued := h.queued
  commits := h.commits

theorem Called.read {rd : Store.Read} {r : Except ApiError Store.Seen} {cfg : WriterConfig}
    (h : Called cfg n) (hrd : .read rd ∈ asked (n.stage i)) : Called cfg (n.read i rd r) := by
  have hinvoke := h.stages i _ hrd
  refine h.handler (.seen rd r) (.commit ⟨i, .read rd, .read r⟩) ?_ ?_
  · rintro _ ⟨⟩
    exact List.mem_append_left _ hinvoke
  · rintro _ ⟨⟩
    exact hinvoke

theorem Called.respond {r : Store.Answer} {cfg : WriterConfig} (h : Called cfg n) :
    Called cfg (n.respond i r) := by
  refine h.handler .done (.respond i r) ?_ ?_ <;> rintro _ ⟨⟩

theorem Called.push {c : WriteCommand} {w : Loop} (h : Called e.writer n)
    (hput : stepLoop e.ctx e.writer n.writer (.put c) = some w)
    (hqueued : ∀ op ∈ Store.ops [c], .invoke op.2 (.write op.1) ∈ n.marks) :
    Called e.writer { n with writer := w } := by
  obtain ⟨hexact, hheld⟩ := exact_step h.exact h.held hput
  obtain ⟨hflight, -⟩ := Store.put_inFlight hput
  refine ⟨hexact, hheld, h.stages, ?_, h.commits⟩
  intro op hop
  rw [hflight, Store.ops_append, List.mem_append] at hop
  exact hop.elim (h.queued op) (hqueued op)

theorem called_handler {b : Store.Act} (h : Called e.writer n)
    (hb : (∃ i failed, b = .look i failed) ∨ (∃ i sorter failed, b = .select i sorter failed) ∨
      ∃ i, b = .answer i) (hstep : e.nodeStep n b = some n') : Called e.writer n' := by
  rcases hb with ⟨i, failed, rfl⟩ | ⟨i, sorter, failed, rfl⟩ | ⟨i, rfl⟩ <;>
    simp only [Setup.nodeStep, Store.step] at hstep <;> split at hstep
  · next hstage =>
    cases hstep
    exact h.read (by rw [hstage]; rfl)
  · next rd hstage =>
    have hrd : .read rd ∈ asked (n.stage i) := by
      rw [hstage]
      rfl
    split_ifs at hstep with hthere
    · cases hstep
      refine h.put _ ?_
      rintro _ ⟨⟩
      exact h.stages i _ hrd
    · cases hstep
      exact h.read hrd
  · cases hstep
  · next hstage =>
    cases hstep
    exact h.read (by rw [hstage]; rfl)
  · next hstage =>
    cases hstep
    exact h.read (by rw [hstage]; rfl)
  · cases hstep
  · obtain ⟨w, -, rfl⟩ := Option.map_eq_some_iff.mp hstep
    exact h.respond
  · cases hstep
    exact h.respond
  · cases hstep

theorem called_turn {b : LoopAct} (h : Called e.writer n)
    (hstep : e.nodeStep n (.turn b) = some n') : Called e.writer n' := by
  obtain ⟨hb, w, hw, rfl⟩ := Store.step_turn hstep
  obtain ⟨hexact, hheld⟩ := exact_step h.exact h.held hw
  obtain ⟨hflight, -⟩ := Store.turn_inFlight hb h.exact hexact hw
  exact ⟨hexact, hheld, h.stages, hflight ▸ h.queued, h.commits⟩

theorem called_batch {env : Nat → Env} {faults : List Lib.Transaction.Fault}
    (h : Called e.writer n) (hstep : e.nodeStep n (.batch env faults) = some n') :
    Called e.writer n' := by
  simp only [Setup.nodeStep, Store.step] at hstep
  split at hstep
  · next cmds hphase =>
    obtain ⟨w, hw, rfl⟩ := Option.map_eq_some_iff.mp hstep
    obtain ⟨hexact, hheld⟩ := exact_step h.exact h.held hw
    obtain ⟨hflight, -⟩ := Store.process_inFlight hphase h.held hw
    have hops : Store.ops (Store.inFlight n.writer) =
        Store.ops cmds ++ Store.ops (Store.inFlight w) := by
      rw [hflight, Store.ops_append]
    refine ⟨hexact, hheld, ?_, ?_, ?_⟩
    · exact fun j rq hrq => List.mem_append_left _ (h.stages j rq hrq)
    · intro op hop
      exact List.mem_append_left _ (h.queued op (hops ▸ List.mem_append_right _ hop))
    · intro d hd
      rcases List.mem_append.mp hd with hd | hd
      · exact List.mem_append_left _ (h.commits d hd)
      · obtain ⟨d', hd', heq⟩ := List.mem_map.mp hd
        cases heq
        obtain ⟨op, hop, hid, hdo⟩ := Store.mem_finished hd'
        rw [hid, hdo]
        exact List.mem_append_left _ (h.queued op (hops ▸ List.mem_append_left _ hop))
  · cases hstep

theorem called_single {faults : List Lib.Transaction.Fault} {snapshot : Except ApiError Nat}
    (h : Called e.writer n) (hstep : e.nodeStep n (.single faults snapshot) = some n') :
    Called e.writer n' := by
  simp only [Setup.nodeStep, Store.step] at hstep
  split at hstep
  · next c hphase =>
    obtain ⟨w, hw, rfl⟩ := Option.map_eq_some_iff.mp hstep
    obtain ⟨hexact, hheld⟩ := exact_step h.exact h.held hw
    obtain ⟨hflight, hc, -⟩ := Store.handle_inFlight hphase h.held hw
    refine ⟨hexact, hheld, h.stages, ?_, h.commits⟩
    intro op hop
    refine h.queued op ?_
    rw [hflight, ← List.singleton_append, Store.ops_append, Store.ops_single hc]
    exact hop
  · cases hstep

theorem called_step {b : Store.Act} (h : Called e.writer n) (hstep : e.nodeStep n b = some n') :
    Called e.writer n' := by
  cases b with
  | call i rq =>
    simp only [Setup.nodeStep, Store.step] at hstep
    split at hstep
    · cases hstep
      refine h.handler _ _ ?_ (by rintro _ ⟨⟩)
      intro rq' hrq'
      have hsame : rq' = rq := by
        cases rq <;> cases hrq' <;> rfl
      rw [hsame]
      exact List.mem_append_right _ (List.mem_singleton_self _)
    · cases hstep
  | send i =>
    simp only [Setup.nodeStep, Store.step] at hstep
    split at hstep
    · next cmd hstage =>
      obtain ⟨w, hput, rfl⟩ := Option.map_eq_some_iff.mp hstep
      have hinvoke : .invoke i (.write cmd) ∈ n.marks := h.stages i _ (by rw [hstage]; rfl)
      have hput' : Called e.writer (n.put i (.waiting cmd)) := by
        refine h.put _ ?_
        rintro _ ⟨⟩
        exact hinvoke
      refine hput'.push hput ?_
      rw [Store.ops_to]
      exact List.forall_mem_singleton.mpr hinvoke
    · cases hstep
  | look i failed => exact called_handler h (Or.inl ⟨i, failed, rfl⟩) hstep
  | select i sorter failed => exact called_handler h (Or.inr (Or.inl ⟨i, sorter, failed, rfl⟩)) hstep
  | answer i => exact called_handler h (Or.inr (Or.inr ⟨i, rfl⟩)) hstep
  | other c =>
    simp only [Setup.nodeStep, Store.step] at hstep
    split_ifs at hstep with hc
    obtain ⟨w, hput, rfl⟩ := Option.map_eq_some_iff.mp hstep
    refine h.push hput ?_
    rw [Store.ops_single (by simpa using hc)]
    rintro _ ⟨⟩
  | turn b => exact called_turn h hstep
  | batch env faults => exact called_batch h hstep
  | single faults snapshot => exact called_single h hstep
  | restart =>
    cases hstep
    refine ⟨exact_start, trivial, ?_, by rintro _ ⟨⟩, h.commits⟩
    intro j rq hrq
    simp only at hrq
    cases hstage : n.stage j <;> rw [hstage] at hrq <;> cases hrq

theorem stepLoop_put {b : LoopAct} {w w' : Loop} {ctx : Ctx} {cfg : WriterConfig}
    (h : stepLoop ctx cfg w b = some w') :
    w'.put = w.put ∨ ∃ c, b = .put c ∧ w'.put = w.put ++ [c] := by
  cases b with
  | put c =>
    simp only [stepLoop] at h
    split_ifs at h
    cases h
    exact Or.inr ⟨c, rfl, rfl⟩
  | close =>
    simp only [stepLoop] at h
    split_ifs at h
    cases h
    exact Or.inl rfl
  | next =>
    simp only [stepLoop] at h
    split at h
    · cases h
      exact Or.inl rfl
    · cases h
      exact Or.inl rfl
    · split_ifs at h
      cases h
      exact Or.inl rfl
    · cases h
  | tryRecv hit =>
    simp only [stepLoop] at h
    split at h
    · split_ifs at h <;> cases h <;> exact Or.inl rfl
    · split_ifs at h
      cases h
      exact Or.inl rfl
    · cases h
  | full =>
    simp only [stepLoop] at h
    split at h
    · split_ifs at h
      cases h
      exact Or.inl rfl
    · cases h
  | process env conn =>
    simp only [stepLoop] at h
    split at h
    · split at h <;> cases h <;> exact Or.inl rfl
    · cases h
  | handle results =>
    simp only [stepLoop] at h
    split at h
    · cases h
      exact Or.inl rfl
    · cases h

/-- Where the calls and the commands that are handled alone come from. -/
structure Sources (n n' : Node) (b : Store.Act) : Prop where
  calls : ∀ i rq, .invoke i rq ∈ n'.marks → .invoke i rq ∈ n.marks ∨ b = .call i rq
  commands : ∀ c ∈ n'.writer.put, isBatchable c = false → c ∈ n.writer.put ∨ b = .other c

theorem sources_of_loop {b : Store.Act} {a : LoopAct} {w : Loop} (hmarks : n'.marks = n.marks)
    (hwriter : n'.writer = w) (hw : stepLoop e.ctx e.writer n.writer a = some w)
    (hput : ∀ c, a = .put c → isBatchable c = false → b = .other c) : Sources n n' b := by
  refine ⟨fun i rq h => Or.inl (hmarks ▸ h), fun c hmem hc => ?_⟩
  rw [hwriter] at hmem
  rcases stepLoop_put hw with hsame | ⟨c', rfl, hlast⟩
  · exact Or.inl (hsame ▸ hmem)
  · rw [hlast] at hmem
    rcases List.mem_append.mp hmem with hmem | hmem
    · exact Or.inl hmem
    · obtain rfl := List.mem_singleton.mp hmem
      exact Or.inr (hput c rfl hc)

theorem sources_of_mark {b : Store.Act} {m : Mark Nat Store.Request Store.Answer}
    (hmarks : n'.marks = n.marks ++ [m]) (hwriter : n'.writer = n.writer)
    (hm : ∀ i rq, m = .invoke i rq → b = .call i rq) : Sources n n' b := by
  refine ⟨fun i rq h => ?_, fun c hmem _ => Or.inl (hwriter ▸ hmem)⟩
  rw [hmarks] at h
  rcases List.mem_append.mp h with h | h
  · exact Or.inl h
  · exact Or.inr (hm i rq (List.mem_singleton.mp h).symm)

theorem step_sources {b : Store.Act} (hstep : e.nodeStep n b = some n') : Sources n n' b := by
  cases b with
  | call j rq =>
    simp only [Setup.nodeStep, Store.step] at hstep
    split at hstep <;> cases hstep
    refine sources_of_mark rfl rfl ?_
    rintro _ _ ⟨⟩
    rfl
  | send j =>
    simp only [Setup.nodeStep, Store.step] at hstep
    split at hstep
    · next cmd _ =>
      obtain ⟨w, hw, rfl⟩ := Option.map_eq_some_iff.mp hstep
      refine sources_of_loop rfl rfl hw ?_
      rintro c ⟨⟩ hc
      cases cmd <;> cases hc
    · cases hstep
  | look j failed =>
    simp only [Setup.nodeStep, Store.step] at hstep
    split at hstep
    · cases hstep
      exact sources_of_mark rfl rfl (by rintro _ _ ⟨⟩)
    · split_ifs at hstep <;> cases hstep
      · exact ⟨fun _ _ h => Or.inl h, fun _ h _ => Or.inl h⟩
      · exact sources_of_mark rfl rfl (by rintro _ _ ⟨⟩)
    · cases hstep
  | select j sorter failed =>
    simp only [Setup.nodeStep, Store.step] at hstep
    split at hstep <;> cases hstep <;> exact sources_of_mark rfl rfl (by rintro _ _ ⟨⟩)
  | answer j =>
    simp only [Setup.nodeStep, Store.step] at hstep
    split at hstep
    · obtain ⟨w, -, rfl⟩ := Option.map_eq_some_iff.mp hstep
      exact sources_of_mark rfl rfl (by rintro _ _ ⟨⟩)
    · cases hstep
      exact sources_of_mark rfl rfl (by rintro _ _ ⟨⟩)
    · cases hstep
  | other c =>
    simp only [Setup.nodeStep, Store.step] at hstep
    split_ifs at hstep
    obtain ⟨w, hw, rfl⟩ := Option.map_eq_some_iff.mp hstep
    refine sources_of_loop rfl rfl hw ?_
    rintro _ ⟨⟩ -
    rfl
  | turn b =>
    simp only [Setup.nodeStep, Store.step] at hstep
    split at hstep
    iterate 3
      obtain ⟨w, hw, rfl⟩ := Option.map_eq_some_iff.mp hstep
      exact sources_of_loop rfl rfl hw (by rintro _ ⟨⟩)
    cases hstep
  | batch env faults =>
    simp only [Setup.nodeStep, Store.step] at hstep
    split at hstep
    · next cmds _ =>
      obtain ⟨w, hw, rfl⟩ := Option.map_eq_some_iff.mp hstep
      have hloop : Sources n { n with writer := w } (.batch env faults) :=
        sources_of_loop rfl rfl hw (by rintro _ ⟨⟩)
      refine ⟨fun i rq h => ?_, hloop.commands⟩
      rcases List.mem_append.mp h with h | h
      · exact Or.inl h
      · obtain ⟨d, -, hd⟩ := List.mem_map.mp h
        cases hd
    · cases hstep
  | single faults snapshot =>
    simp only [Setup.nodeStep, Store.step] at hstep
    split at hstep
    · obtain ⟨w, hw, rfl⟩ := Option.map_eq_some_iff.mp hstep
      exact sources_of_loop rfl rfl hw (by rintro _ ⟨⟩)
    · cases hstep
  | restart =>
    cases hstep
    exact ⟨fun _ _ h => Or.inl h, fun c h _ => by cases h⟩

/-! ## The whole -/

def LetIn (s : State) (db : String) (i : Nat) (task : Task) : Prop :=
  ∃ token op p, s.server.threads i = .admitted token db op p ∧ handles op task = true

/-- All but the ticker's commands are asked for. -/
def Asked (s : State) (db : String) (c : WriteCommand) : Prop :=
  c = .checkpoint ∨ ∃ i, c.reply? = some i ∧ LetIn s db i (.command c)

structure Mediated (e : Setup) (tables : SystemDb) (s : State) : Prop where
  checked : ∀ i, Checked e tables s i (s.server.threads i)
  called : ∀ db, Called e.writer (s.nodes db)
  calls : ∀ db i rq, .invoke i rq ∈ (s.nodes db).marks → LetIn s db i (.request rq)
  commands : ∀ db, ∀ c ∈ (s.nodes db).writer.put, isBatchable c = false → Asked s db c

theorem LetIn.server {b : Server.Act} {server : Server.System} (h : LetIn s db i task)
    (hserver : e.serverStep s.server (j, b) = some server) :
    LetIn { s with server } db i task := by
  obtain ⟨token, op, p, hi, hop⟩ := h
  obtain ⟨c', t', hnext, rfl⟩ := step_cases hserver
  refine ⟨token, op, p, ?_, hop⟩
  have hne : i ≠ j := by
    rintro rfl
    simp only [hi] at hnext
    cases b <;> cases hnext
  simpa only [Function.update_of_ne hne] using hi

theorem mediated_server {b : Server.Act} {server : Server.System}
    (hreach : Reach (step e) anyStep (State.start tables) s) (h : Mediated e tables s)
    (hserver : e.serverStep s.server (i, b) = some server) :
    Mediated e tables { s with server } := by
  have hstep : step e s (.server i b) = some { s with server } := by
    simp only [step, hserver, Option.map_some]
  refine ⟨fun j => ?_, h.called, fun db j rq hrq => (h.calls db j rq hrq).server hserver, ?_⟩
  · by_cases hj : j = i
    · subst hj
      exact checked_server hreach (h.checked j) hserver hstep
    · obtain ⟨c', t', -, rfl⟩ := step_cases hserver
      simp only [Function.update_of_ne hj]
      exact (h.checked j).later hstep
  · intro db c hc hsingle
    refine (h.commands db c hc hsingle).imp_right ?_
    rintro ⟨j, hreply, hin⟩
    exact ⟨j, hreply, hin.server hserver⟩

theorem mediated_node {b : Store.Act} (h : Mediated e tables s)
    (hstep : step e s a = some (s.put db n')) (hnode : e.nodeStep (s.nodes db) b = some n')
    (hcall : ∀ i rq, b = .call i rq → LetIn s db i (.request rq))
    (hother : ∀ c, b = .other c → Asked s db c) : Mediated e tables (s.put db n') := by
  have hsources := step_sources hnode
  refine ⟨fun i => (h.checked i).later hstep, ?_, ?_, ?_⟩
  all_goals
    intro name
    simp only [State.put]
    by_cases hname : name = db
  · subst hname
    rw [Function.update_self]
    exact called_step (h.called name) hnode
  · rw [Function.update_of_ne hname]
    exact h.called name
  · subst hname
    rw [Function.update_self]
    exact fun i rq hrq => (hsources.calls i rq hrq).elim (h.calls name i rq) (hcall i rq)
  · rw [Function.update_of_ne hname]
    exact h.calls name
  · subst hname
    rw [Function.update_self]
    exact fun c hc hsingle => (hsources.commands c hc hsingle).elim
      (fun hc => h.commands name c hc hsingle) (hother c)
  · rw [Function.update_of_ne hname]
    exact h.commands name

theorem mediated_step (hreach : Reach (step e) anyStep (State.start tables) s)
    (h : Mediated e tables s) (hstep : step e s a = some s') : Mediated e tables s' := by
  have hall := hstep
  cases a with
  | server i b =>
    obtain ⟨server, hserver, rfl⟩ := Option.map_eq_some_iff.mp hstep
    exact mediated_server hreach h hserver
  | handle i task =>
    simp only [step] at hstep
    split at hstep
    · next token db op p hi =>
      split_ifs at hstep with hop
      obtain ⟨b, hb, hmap⟩ := Option.bind_eq_some_iff.mp hstep
      obtain ⟨n', hnode, rfl⟩ := Option.map_eq_some_iff.mp hmap
      refine mediated_node h hall hnode ?_ ?_
      · rintro j rq rfl
        cases task with
        | request rq' =>
          cases hb
          exact ⟨token, op, p, hi, hop⟩
        | command c =>
          simp only [Task.act] at hb
          split_ifs at hb
          cases hb
      · rintro c rfl
        cases task with
        | request rq' => cases hb
        | command c' =>
          simp only [Task.act] at hb
          split_ifs at hb with hreply
          cases hb
          exact Or.inr ⟨i, hreply, token, op, p, hi, hop⟩
    · cases hstep
  | node db b =>
    simp only [step] at hstep
    split_ifs at hstep with hown
    obtain ⟨n', hnode, rfl⟩ := Option.map_eq_some_iff.mp hstep
    refine mediated_node h hall hnode ?_ ?_
    · rintro i rq rfl
      cases hown
    · rintro c rfl
      cases c <;> first | exact Or.inl rfl | cases hown

/-- Whatever a database has done for a request, and whatever but a checkpoint was put on its
writer's channel, was asked for by a request that was let in: its token stood for a principal, and
after that the principal had what the route needs. -/
theorem every_operation_authorized
    (h : Reach (step e) anyStep (State.start tables) s) (db : String) :
    (∀ d, .commit d ∈ (s.nodes db).marks → Authorized e tables s db d.id (.request d.op)) ∧
    ∀ c ∈ (s.nodes db).writer.put, isBatchable c = false → c = .checkpoint ∨
      ∃ i, c.reply? = some i ∧ Authorized e tables s db i (.command c) := by
  have hmediated : Mediated e tables s := by
    induction h with
    | refl => exact ⟨fun _ => trivial, fun _ => called_start, nofun, nofun⟩
    | tail a hreach _ hstep ih => exact mediated_step hreach ih hstep
  have hauth : ∀ {i task}, LetIn s db i task → Authorized e tables s db i task := by
    rintro i task ⟨token, op, p, hi, hop⟩
    have hchecked := hmediated.checked i
    rw [hi] at hchecked
    exact ⟨token, op, p, hi, hop, hchecked⟩
  constructor
  · intro d hd
    exact hauth (hmediated.calls db d.id d.op ((hmediated.called db).commits d hd))
  · intro c hc hsingle
    refine (hmediated.commands db c hc hsingle).imp_right ?_
    rintro ⟨i, hreply, hin⟩
    exact ⟨i, hreply, hauth hin⟩

end

/-! ## Runs -/

open Server (arrives runs served writerDb)

def plain : Setup where
  server := served
  hashToken := Browser.hashed
  verifyPassword := Browser.verified
  argon2 := Control.argon2id
  sqlite := Store.plainSqlite
  maxQueryLimit := 100
  ctx := noLimits
  writer := ⟨true, 64⟩
  sql := Reserved.plainSql

/-- The service that may write to the database puts a document. -/
def putRun : List Act :=
  (arrives 0 "tA" (.data "notes" .putDocument) ++ runs 0 5 "B").map (fun a => .server a.1 a.2) ++
    .handle 0 (.request (.write (.replace "todo" "a" .null))) ::
    [.send 0, .turn .next, .turn (.tryRecv false), .batch (fun _ => envAt "x" 5) [],
      .answer 0].map (.node "notes")

theorem every_operation_authorized_putRun :
    ∃ s d, exec (step plain) (State.start writerDb) putRun = some s ∧
      .commit d ∈ (s.nodes "notes").marks ∧ d.op = .write (.replace "todo" "a" .null) ∧
      Authorized plain writerDb s "notes" 0 (.request d.op) := by
  obtain ⟨s, d, hexec, hd, hop, hid⟩ : ∃ s d, exec (step plain) (State.start writerDb) putRun =
      some s ∧ .commit d ∈ (s.nodes "notes").marks ∧
      d.op = .write (.replace "todo" "a" .null) ∧ d.id = 0 :=
    ⟨_, _, rfl, .tail _ (.head _), rfl, rfl⟩
  have hauth := (every_operation_authorized (.of_exec putRun (.any _ _) hexec) "notes").1 d hd
  rw [hid] at hauth
  exact ⟨s, d, hexec, hd, hop, hauth⟩

end TinyLord.Service
