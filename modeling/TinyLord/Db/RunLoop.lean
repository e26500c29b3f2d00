import Mathlib.Data.List.Perm.Basic
import TinyLord.Db.Replies
import TinyLord.Lib.Run

/-!
# The writer's main loop

`run_loop` takes commands off a channel, gathers data ops into batches and handles the rest one by
one. Whatever arrives when, it handles what was sent, in that order, and answers once.
-/

open Lib.Run Lib.Transaction

namespace TinyLord

/-! ## The commands -/

/-- The number stands for the command's reply channel. -/
inductive WriteCommand where
  | create (collection : String) (doc : Json) (reply : Nat)
  | replace (collection id : String) (doc : Json) (reply : Nat)
  | delete (collection id : String) (reply : Nat)
  | createIndex (collection name path : String) (unique : Bool) (reply : Nat)
  | dropIndex (name : String) (reply : Nat)
  | snapshot (dest : String) (reply : Nat)
  | checkpoint

def isBatchable : WriteCommand → Bool
  | .create .. | .replace .. | .delete .. => true
  | _ => false

def WriteCommand.data? : WriteCommand → Option (Command × Nat)
  | .create collection doc reply => some (.create collection doc, reply)
  | .replace collection id doc reply => some (.replace collection id doc, reply)
  | .delete collection id reply => some (.delete collection id, reply)
  | _ => none

def WriteCommand.reply? : WriteCommand → Option Nat
  | .create _ _ reply | .replace _ _ _ reply | .delete _ _ reply => some reply
  | .createIndex _ _ _ _ reply | .dropIndex _ reply | .snapshot _ reply => some reply
  | .checkpoint => none

inductive Answer where
  | data (r : Reply)
  | indexed (r : Except ApiError Unit)
  | dropped (r : Except ApiError Bool)
  | snapshot (r : Except ApiError Nat)

/-- What has been sent on which reply channel. -/
abbrev Sent := Nat × Answer

/-! ## The replies of a batch, in the order they are sent -/

def replyWithError (c : WriteCommand) (e : ApiError) : List Sent :=
  match c.data? with
  | some (cmd, reply) => [(reply, .data (cmd.error e))]
  | none => []

/-- The loop over the batch: what is sent at once, the finishers, and the connection. Nothing when
`apply_op` gets to its `unreachable!`. -/
def sendOps (ctx : Ctx) : List (WriteCommand × Env) → Conn Database →
    Option (List Sent × List (Nat × Finish) × Conn Database)
  | [], conn => some ([], [], conn)
  | (c, env) :: rest, conn =>
    match conn.savepoint with
    | (false, conn) => do
      let (sent, finishes, conn) ← sendOps ctx rest conn
      some (replyWithError c .internal ++ sent, finishes, conn)
    | (true, conn) => do
      let (cmd, reply) ← c.data?
      let (finish, conn) := closeOp (applyOp ctx cmd env conn)
      let (sent, finishes, conn) ← sendOps ctx rest conn
      some (sent, (reply, finish) :: finishes, conn)

def sendBatch (ctx : Ctx) (batch : List (WriteCommand × Env)) (conn : Conn Database) :
    Option (List Sent) :=
  match conn.begin with
  | (false, _) => some (batch.flatMap fun op => replyWithError op.1 .internal)
  | (true, conn) => do
    let (sent, finishes, conn) ← sendOps ctx batch conn
    let committed := conn.commit.1
    some (sent ++ finishes.map fun op => (op.1, .data (op.2 committed).1))

/-! ## The loop -/

structure WriterConfig where
  groupCommit : Bool
  groupCommitMaxBatch : Nat

/-- What was handed to `process_batch`, or handled alone. -/
inductive Handled where
  | batch (cmds : List WriteCommand)
  | single (c : WriteCommand)

def Handled.commands : Handled → List WriteCommand
  | .batch cmds => cmds
  | .single c => [c]

inductive Phase where
  /-- At the head of the loop. -/
  | top
  /-- Before the next `try_recv`. -/
  | draining (batch : List WriteCommand)
  /-- Before `process_batch`. -/
  | ready (batch : List WriteCommand)
  /-- Before the arm of a command that is not batchable. -/
  | single (c : WriteCommand)
  | stopped
  | panicked

structure Loop where
  queue : List WriteCommand
  /-- Some handle is left. -/
  isOpen : Bool
  pending : Option WriteCommand
  phase : Phase
  /-- For the statements only: all commands ever put on the channel. -/
  put : List WriteCommand
  /-- For the statements only. -/
  handled : List Handled
  /-- For the statements only: the replies, in order. -/
  sent : List Sent

def Loop.start : Loop :=
  { queue := [], isOpen := true, pending := none, phase := .top, put := [], handled := [],
    sent := [] }

/-- What `do_snapshot`, `do_create_index` and `do_drop_index` give. -/
structure Results where
  snapshot : Except ApiError Nat
  indexed : Except ApiError Unit
  dropped : Except ApiError Bool

inductive LoopAct where
  /-- A handle puts a command on the channel. -/
  | put (c : WriteCommand)
  /-- The last handle is dropped. -/
  | close
  /-- Takes the pending command, or what `blocking_recv` gives. -/
  | next
  /-- `try_recv`: whether it gives a command. One that is still on its way may be missed. -/
  | tryRecv (hit : Bool)
  /-- The batch is full, or group commit is off. -/
  | full
  /-- `process_batch`, with what the ops read and the connection as it is by then. -/
  | process (env : Nat → Env) (conn : Conn Database)
  | handle (results : Results)

/-- The head of the `match`. -/
def dispatch (c : WriteCommand) : Phase := if isBatchable c then .draining [c] else .single c

def mayGrow (cfg : WriterConfig) (batch : List WriteCommand) : Bool :=
  cfg.groupCommit && decide (batch.length < cfg.groupCommitMaxBatch)

/-- The arms of the commands that are handled alone. -/
def answer (results : Results) : WriteCommand → List Sent
  | .snapshot _ reply => [(reply, .snapshot results.snapshot)]
  | .createIndex _ _ _ _ reply => [(reply, .indexed results.indexed)]
  | .dropIndex _ reply => [(reply, .dropped results.dropped)]
  | _ => []

def stepLoop (ctx : Ctx) (cfg : WriterConfig) (s : Loop) : LoopAct → Option Loop
  | .put c =>
    if s.isOpen then some { s with queue := s.queue ++ [c], put := s.put ++ [c] } else none
  | .close => if s.isOpen then some { s with isOpen := false } else none
  | .next =>
    match s.phase, s.pending, s.queue with
    | .top, some c, _ => some { s with pending := none, phase := dispatch c }
    | .top, none, c :: queue => some { s with queue, phase := dispatch c }
    | .top, none, [] => if s.isOpen then none else some { s with phase := .stopped }
    | _, _, _ => none
  | .tryRecv hit =>
    match s.phase, hit, s.queue with
    | .draining batch, true, c :: queue =>
      if !mayGrow cfg batch then none
      else if isBatchable c then some { s with queue, phase := .draining (batch ++ [c]) }
      else some { s with queue, pending := some c, phase := .ready batch }
    | .draining batch, false, _ =>
      if mayGrow cfg batch then some { s with phase := .ready batch } else none
    | _, _, _ => none
  | .full =>
    match s.phase with
    | .draining batch => if mayGrow cfg batch then none else some { s with phase := .ready batch }
    | _ => none
  | .process env conn =>
    match s.phase with
    | .ready batch =>
      match sendBatch ctx (batch.mapIdx fun i c => (c, env i)) conn with
      | some sent =>
        some { s with phase := .top, handled := s.handled ++ [.batch batch], sent := s.sent ++ sent }
      | none => some { s with phase := .panicked }
    | _ => none
  | .handle results =>
    match s.phase with
    | .single c =>
      some { s with
        phase := .top, handled := s.handled ++ [.single c], sent := s.sent ++ answer results c }
    | _ => none

/-! ## The statement -/

/-- What is in the loop's hands. -/
def Phase.commands : Phase → List WriteCommand
  | .draining batch | .ready batch => batch
  | .single c => [c]
  | _ => []

def Handled.WellFormed (cfg : WriterConfig) : Handled → Prop
  | .batch cmds => cmds ≠ [] ∧ cmds.length ≤ max 1 cfg.groupCommitMaxBatch ∧
      ∀ c ∈ cmds, isBatchable c = true
  | .single c => isBatchable c = false

/-- What was put on the channel is, in order, what was handled, what is in the loop's hands, the
parked command and what is still on the channel. And what was handled has got its replies. -/
structure Exact (cfg : WriterConfig) (s : Loop) : Prop where
  inOrder : s.put =
    s.handled.flatMap Handled.commands ++ s.phase.commands ++ s.pending.toList ++ s.queue
  wellFormed : ∀ h ∈ s.handled, h.WellFormed cfg
  answered : (s.sent.map Prod.fst).Perm
    ((s.handled.flatMap Handled.commands).filterMap WriteCommand.reply?)
  alive : s.phase ≠ .panicked

/-! ## The replies of a batch -/

variable {ctx : Ctx} {cfg : WriterConfig} {s s' : Loop} {a : LoopAct} {c : WriteCommand}
  {batch : List WriteCommand}

theorem data_of_batchable (h : isBatchable c = true) :
    ∃ cmd reply, c.data? = some (cmd, reply) ∧ c.reply? = some reply := by
  cases c with
  | create collection doc reply => exact ⟨_, _, rfl, rfl⟩
  | replace collection id doc reply => exact ⟨_, _, rfl, rfl⟩
  | delete collection id reply => exact ⟨_, _, rfl, rfl⟩
  | createIndex | dropIndex | snapshot | checkpoint => simp [isBatchable] at h

theorem answer_reply (results : Results) (h : isBatchable c = false) :
    (answer results c).map Prod.fst = c.reply?.toList := by
  cases c with
  | create | replace | delete => simp [isBatchable] at h
  | createIndex | dropIndex | snapshot | checkpoint => rfl

/-- The data ops of a batch, as `runBatch` takes them. -/
def dataOps (batch : List (WriteCommand × Env)) : List (Command × Env) :=
  batch.filterMap fun op => op.1.data?.map fun d => (d.1, op.2)

/-- The replies of a batch on the channels of its commands, in the order of the commands. -/
def onChannels (batch : List (WriteCommand × Env)) (replies : List Reply) : List Sent :=
  ((batch.filterMap (·.1.reply?)).zip replies).map fun p => (p.1, .data p.2)

theorem sendOps_perm (ctx : Ctx) {batch : List (WriteCommand × Env)}
    (h : ∀ op ∈ batch, isBatchable op.1 = true) (conn : Conn Database) :
    ∃ sent finishes, sendOps ctx batch conn =
        some (sent, finishes, (runOps ctx (dataOps batch) conn).2) ∧
      ∀ committed, (sent ++ finishes.map fun op => (op.1, Answer.data (op.2 committed).1)).Perm
        (onChannels batch
          ((runOps ctx (dataOps batch) conn).1.map fun finish => (finish committed).1)) := by
  induction batch generalizing conn with
  | nil => exact ⟨[], [], rfl, fun _ => .nil⟩
  | cons op batch ih =>
    obtain ⟨c, env⟩ := op
    obtain ⟨hc, hrest⟩ := List.forall_mem_cons.mp h
    obtain ⟨cmd, reply, hdata, hreply⟩ := data_of_batchable hc
    have hops : dataOps ((c, env) :: batch) = (cmd, env) :: dataOps batch := by
      simp [dataOps, hdata]
    have hchan : ∀ r rs, onChannels ((c, env) :: batch) (r :: rs) =
        (reply, .data r) :: onChannels batch rs := by
      intro r rs
      simp [onChannels, hreply]
    rw [hops]
    simp only [sendOps, runOps, runOp]
    rcases conn.savepoint with ⟨_ | _, conn₁⟩
    · obtain ⟨sent, finishes, hrun, hperm⟩ := ih hrest conn₁
      refine ⟨(reply, .data (cmd.error .internal)) :: sent, finishes, ?_, ?_⟩
      · simp [hrun, replyWithError, hdata]
      · intro committed
        rw [List.map_cons, hchan]
        exact (hperm committed).cons _
    · obtain ⟨sent, finishes, hrun, hperm⟩ := ih hrest (closeOp (applyOp ctx cmd env conn₁)).2
      refine ⟨sent, (reply, (closeOp (applyOp ctx cmd env conn₁)).1) :: finishes, ?_, ?_⟩
      · simp [hrun, hdata]
      · intro committed
        rw [List.map_cons, List.map_cons, hchan]
        exact List.perm_middle.trans ((hperm committed).cons _)

theorem sendBatch_perm (ctx : Ctx) {batch : List (WriteCommand × Env)}
    (h : ∀ op ∈ batch, isBatchable op.1 = true) (conn : Conn Database) :
    ∃ sent, sendBatch ctx batch conn = some sent ∧
      sent.Perm (onChannels batch (runBatch ctx (dataOps batch) conn).replies) := by
  unfold sendBatch runBatch
  rcases conn.begin with ⟨_ | _, conn₁⟩
  · refine ⟨_, rfl, ?_⟩
    simp only
    induction batch with
    | nil => exact .nil
    | cons op batch ih =>
      obtain ⟨hc, hrest⟩ := List.forall_mem_cons.mp h
      obtain ⟨cmd, reply, hdata, hreply⟩ := data_of_batchable hc
      have hops : dataOps (op :: batch) = (cmd, op.2) :: dataOps batch := by
        simp [dataOps, hdata]
      simp only [List.flatMap_cons, replyWithError, hdata, hops, List.map_cons, onChannels,
        List.filterMap_cons, hreply, List.zip_cons_cons, List.singleton_append]
      exact (ih hrest).cons _
  · obtain ⟨sent, finishes, hrun, hperm⟩ := sendOps_perm ctx h conn₁
    refine ⟨_, by simp [hrun]; rfl, ?_⟩
    have hperm := hperm (runOps ctx (dataOps batch) conn₁).2.commit.1
    rcases hops : runOps ctx (dataOps batch) conn₁ with ⟨fs, conn₂⟩
    rw [hops] at hperm
    rcases hcommit : conn₂.commit with ⟨_ | _, conn₃⟩ <;> rw [hcommit] at hperm <;>
      simp only [hops, hcommit] <;> exact hperm

theorem runOps_length (ctx : Ctx) (batch : List (Command × Env)) (conn : Conn Database) :
    (runOps ctx batch conn).1.length = batch.length := by
  induction batch generalizing conn with
  | nil => rfl
  | cons op batch ih => simp [runOps, ih]

theorem runBatch_length (ctx : Ctx) (batch : List (Command × Env)) (conn : Conn Database) :
    (runBatch ctx batch conn).replies.length = batch.length := by
  unfold runBatch
  rcases conn.begin with ⟨_ | _, conn₁⟩
  · simp
  · have hlen := runOps_length ctx batch conn₁
    rcases hops : runOps ctx batch conn₁ with ⟨finishes, conn₂⟩
    rw [hops] at hlen
    rcases hcommit : conn₂.commit with ⟨_ | _, conn₃⟩ <;> simp [hops, hcommit, hlen]

/-- One reply on each channel, and on no other. -/
theorem sendBatch_answers (ctx : Ctx) (env : Nat → Env) (conn : Conn Database)
    (h : ∀ c ∈ batch, isBatchable c = true) :
    ∃ sent, sendBatch ctx (batch.mapIdx fun i c => (c, env i)) conn = some sent ∧
      (sent.map Prod.fst).Perm (batch.filterMap WriteCommand.reply?) := by
  have hcmds : (batch.mapIdx fun i c => (c, env i)).map Prod.fst = batch := by
    rw [List.mapIdx_eq_zipIdx_map, List.map_map]
    exact List.zipIdx_map_fst 0 batch
  generalize batch.mapIdx (fun i c => (c, env i)) = ops at hcmds
  subst hcmds
  have hall : ∀ op ∈ ops, isBatchable op.1 = true := fun op hop =>
    h op.1 (List.mem_map_of_mem hop)
  obtain ⟨sent, hsent, hperm⟩ := sendBatch_perm ctx hall conn
  refine ⟨sent, hsent, (hperm.map Prod.fst).trans ?_⟩
  have hlen : (ops.filterMap (·.1.reply?)).length ≤
      (runBatch ctx (dataOps ops) conn).replies.length := by
    rw [runBatch_length]
    clear hperm hsent h
    induction ops with
    | nil => simp
    | cons op ops ih =>
      obtain ⟨hc, hrest⟩ := List.forall_mem_cons.mp hall
      obtain ⟨cmd, reply, hdata, hreply⟩ := data_of_batchable hc
      simpa [dataOps, hdata, hreply] using ih hrest
  rw [onChannels, List.map_map, List.filterMap_map]
  exact .of_eq (List.map_fst_zip hlen)

/-! ## Every step of the loop -/

/-- What is in the loop's hands fits the point it has come to. -/
def Loop.Held (cfg : WriterConfig) (s : Loop) : Prop :=
  match s.phase with
  | .draining batch => s.pending = none ∧ (Handled.batch batch).WellFormed cfg
  | .ready batch => (Handled.batch batch).WellFormed cfg
  | .single c => s.pending = none ∧ isBatchable c = false
  | .stopped => s.pending = none ∧ s.queue = [] ∧ s.isOpen = false
  | _ => True

theorem dispatch_cases (c : WriteCommand) :
    (isBatchable c = true ∧ dispatch c = .draining [c]) ∨
    (isBatchable c = false ∧ dispatch c = .single c) := by
  unfold dispatch
  cases hc : isBatchable c <;> simp

theorem wellFormed_singleton (cfg : WriterConfig) (h : isBatchable c = true) :
    (Handled.batch [c]).WellFormed cfg :=
  ⟨by simp, by simp, by simpa using h⟩

theorem wellFormed_grow (h : (Handled.batch batch).WellFormed cfg) (hgrow : mayGrow cfg batch = true)
    (hc : isBatchable c = true) : (Handled.batch (batch ++ [c])).WellFormed cfg := by
  obtain ⟨hne, -, hall⟩ := h
  simp only [mayGrow, Bool.and_eq_true, decide_eq_true_eq] at hgrow
  refine ⟨by simp, ?_, ?_⟩
  · rw [List.length_append, List.length_singleton]
    omega
  · intro d hd
    rcases List.mem_append.mp hd with hd | hd
    · exact hall d hd
    · rw [List.mem_singleton.mp hd]
      exact hc

theorem Exact.move {queue : List WriteCommand} {pending : Option WriteCommand} {phase : Phase}
    (h : Exact cfg s) (hphase : phase ≠ .panicked)
    (hsame : phase.commands ++ pending.toList ++ queue =
      s.phase.commands ++ s.pending.toList ++ s.queue) :
    Exact cfg { s with queue, pending, phase } := by
  refine ⟨?_, h.wellFormed, h.answered, hphase⟩
  have horder := h.inOrder
  simp only [List.append_assoc] at horder hsame ⊢
  rw [horder, hsame]

theorem exact_next (h : Exact cfg s) (hstep : stepLoop ctx cfg s .next = some s') :
    Exact cfg s' ∧ s'.Held cfg := by
  have htake : ∀ c queue, c :: queue = s.phase.commands ++ s.pending.toList ++ s.queue →
      Exact cfg { s with queue, pending := none, phase := dispatch c } ∧
        ({ s with queue, pending := none, phase := dispatch c } : Loop).Held cfg := by
    intro c queue hsame
    rcases dispatch_cases c with ⟨hc, hd⟩ | ⟨hc, hd⟩ <;> rw [hd]
    · exact ⟨h.move (by simp) (by simpa [Phase.commands] using hsame), rfl,
        wellFormed_singleton cfg hc⟩
    · exact ⟨h.move (by simp) (by simpa [Phase.commands] using hsame), rfl, hc⟩
  simp only [stepLoop] at hstep
  split at hstep
  · next c hphase hpending =>
    cases hstep
    exact htake c s.queue (by simp [hphase, hpending, Phase.commands])
  · next c queue hphase hpending hqueue =>
    cases hstep
    have := htake c queue (by simp [hphase, hpending, hqueue, Phase.commands])
    rw [hpending]
    exact this
  · next hphase hpending hqueue =>
    split_ifs at hstep with hopen
    cases hstep
    refine ⟨h.move (by simp) (by simp [hphase, Phase.commands]), hpending, hqueue, by simpa using hopen⟩
  · cases hstep

theorem exact_tryRecv {hit : Bool} (h : Exact cfg s) (hheld : s.Held cfg)
    (hstep : stepLoop ctx cfg s (.tryRecv hit) = some s') : Exact cfg s' ∧ s'.Held cfg := by
  simp only [stepLoop] at hstep
  split at hstep
  · next batch c queue hphase hqueue =>
    simp only [Loop.Held, hphase] at hheld
    obtain ⟨hpending, hbatch⟩ := hheld
    split_ifs at hstep with hgrow hc
    · cases hstep
      exact ⟨h.move (by simp) (by simp [hphase, hqueue, hpending, Phase.commands]), hpending,
        wellFormed_grow hbatch (by simpa using hgrow) hc⟩
    · cases hstep
      exact ⟨h.move (by simp) (by simp [hphase, hqueue, hpending, Phase.commands]), hbatch⟩
  · next batch hphase =>
    simp only [Loop.Held, hphase] at hheld
    split_ifs at hstep
    cases hstep
    exact ⟨h.move (by simp) (by simp [hphase, Phase.commands]), hheld.2⟩
  · cases hstep

theorem exact_process {env : Nat → Env} {conn : Conn Database} (h : Exact cfg s)
    (hheld : s.Held cfg) (hstep : stepLoop ctx cfg s (.process env conn) = some s') :
    Exact cfg s' ∧ s'.Held cfg := by
  simp only [stepLoop] at hstep
  split at hstep
  · next batch hphase =>
    simp only [Loop.Held, hphase] at hheld
    obtain ⟨sent, hsent, hperm⟩ := sendBatch_answers ctx env conn hheld.2.2
    rw [hsent] at hstep
    cases hstep
    refine ⟨⟨?_, ?_, ?_, by simp⟩, trivial⟩
    · have horder := h.inOrder
      simpa [hphase, Phase.commands, Handled.commands] using horder
    · intro x hx
      rcases List.mem_append.mp hx with hx | hx
      · exact h.wellFormed x hx
      · rw [List.mem_singleton.mp hx]
        exact hheld
    · simpa [Handled.commands] using h.answered.append hperm
  · cases hstep

theorem exact_handle {results : Results} (h : Exact cfg s) (hheld : s.Held cfg)
    (hstep : stepLoop ctx cfg s (.handle results) = some s') : Exact cfg s' ∧ s'.Held cfg := by
  simp only [stepLoop] at hstep
  split at hstep
  · next c hphase =>
    simp only [Loop.Held, hphase] at hheld
    cases hstep
    refine ⟨⟨?_, ?_, ?_, by simp⟩, trivial⟩
    · have horder := h.inOrder
      simpa [hphase, Phase.commands, Handled.commands] using horder
    · intro x hx
      rcases List.mem_append.mp hx with hx | hx
      · exact h.wellFormed x hx
      · rw [List.mem_singleton.mp hx]
        exact hheld.2
    · have hone : [c].filterMap WriteCommand.reply? = c.reply?.toList := by
        cases hr : c.reply? <;> simp [hr]
      rw [List.map_append, answer_reply results hheld.2, List.flatMap_append,
        List.filterMap_append]
      simpa [Handled.commands, hone] using h.answered.append_right _
  · cases hstep

theorem exact_step (h : Exact cfg s) (hheld : s.Held cfg)
    (hstep : stepLoop ctx cfg s a = some s') : Exact cfg s' ∧ s'.Held cfg := by
  cases a with
  | put c =>
    simp only [stepLoop] at hstep
    split_ifs at hstep with hopen
    cases hstep
    refine ⟨⟨?_, h.wellFormed, h.answered, h.alive⟩, ?_⟩
    · simp [h.inOrder]
    · unfold Loop.Held at hheld ⊢
      cases hphase : s.phase <;> simp only [hphase] at hheld ⊢ <;> try exact hheld
      exact absurd hheld.2.2 (by simp [hopen])
  | close =>
    simp only [stepLoop] at hstep
    split_ifs at hstep with hopen
    cases hstep
    refine ⟨⟨h.inOrder, h.wellFormed, h.answered, h.alive⟩, ?_⟩
    unfold Loop.Held at hheld ⊢
    cases hphase : s.phase <;> simp only [hphase] at hheld ⊢ <;> try exact hheld
    exact ⟨hheld.1, hheld.2.1, trivial⟩
  | next => exact exact_next h hstep
  | tryRecv hit => exact exact_tryRecv h hheld hstep
  | full =>
    simp only [stepLoop] at hstep
    split at hstep
    · next batch hphase =>
      simp only [Loop.Held, hphase] at hheld
      split_ifs at hstep
      cases hstep
      exact ⟨h.move (by simp) (by simp [hphase, Phase.commands]), hheld.2⟩
    · cases hstep
  | process env conn => exact exact_process h hheld hstep
  | handle results => exact exact_handle h hheld hstep

/-! ## The loop gets to its end -/

/-- The steps that the loop takes itself. -/
def LoopAct.own : LoopAct → Bool
  | .put _ | .close => false
  | _ => true

def Phase.work : Phase → Nat
  | .draining _ => 3
  | .ready _ | .single _ => 2
  | .top => 1
  | _ => 0

/-- How far the loop still is from its end, if nothing more arrives. -/
def Loop.work (s : Loop) : Nat := 3 * s.queue.length + 3 * s.pending.toList.length + s.phase.work

theorem work_dispatch (c : WriteCommand) : (dispatch c).work ≤ 3 := by
  unfold dispatch
  split <;> simp [Phase.work]

theorem work_step (hown : a.own = true) (hstep : stepLoop ctx cfg s a = some s') :
    s'.work < s.work := by
  cases a with
  | put c => simp [LoopAct.own] at hown
  | close => simp [LoopAct.own] at hown
  | next =>
    simp only [stepLoop] at hstep
    split at hstep
    · next c hphase hpending =>
      cases hstep
      have hle := work_dispatch c
      have htop : s.phase.work = 1 := by rw [hphase]; rfl
      simp only [Loop.work, hpending, htop, Option.toList_none, Option.toList_some, List.length_nil,
        List.length_singleton]
      omega
    · next c queue hphase hpending hqueue =>
      cases hstep
      have hle := work_dispatch c
      have htop : s.phase.work = 1 := by rw [hphase]; rfl
      simp only [Loop.work, hpending, hqueue, htop, Option.toList_none, List.length_nil,
        List.length_cons]
      omega
    · next hphase hpending hqueue =>
      split_ifs at hstep
      cases hstep
      simp [Loop.work, hphase, hpending, hqueue, Phase.work]
    · cases hstep
  | tryRecv hit =>
    simp only [stepLoop] at hstep
    split at hstep
    · next batch c queue hphase hqueue =>
      split_ifs at hstep
      · cases hstep
        simp [Loop.work, hphase, hqueue, Phase.work]
      · cases hstep
        simp [Loop.work, hphase, hqueue, Phase.work]
        omega
    · next batch hphase =>
      split_ifs at hstep
      cases hstep
      simp [Loop.work, hphase, Phase.work]
    · cases hstep
  | full =>
    simp only [stepLoop] at hstep
    split at hstep
    · next batch hphase =>
      split_ifs at hstep
      cases hstep
      simp [Loop.work, hphase, Phase.work]
    · cases hstep
  | process env conn =>
    simp only [stepLoop] at hstep
    split at hstep
    · next batch hphase =>
      split at hstep <;> cases hstep <;> simp [Loop.work, hphase, Phase.work]
    · cases hstep
  | handle results =>
    simp only [stepLoop] at hstep
    split at hstep
    · next c hphase =>
      cases hstep
      simp [Loop.work, hphase, Phase.work]
    · cases hstep

theorem loop_moves (ctx : Ctx) (cfg : WriterConfig) (halive : s.phase ≠ .panicked)
    (hstop : s.phase ≠ .stopped) (hmore : s.isOpen = false ∨ s.queue ≠ []) :
    ∃ a, a.own = true ∧ (stepLoop ctx cfg s a).isSome = true := by
  cases hphase : s.phase with
  | top =>
    refine ⟨.next, rfl, ?_⟩
    simp only [stepLoop, hphase]
    cases hpending : s.pending with
    | some c => rfl
    | none =>
      cases hqueue : s.queue with
      | cons c queue => rfl
      | nil =>
        have hopen : s.isOpen = false := hmore.resolve_right fun h => h hqueue
        simp [hopen]
  | draining batch =>
    by_cases hgrow : mayGrow cfg batch = true
    · exact ⟨.tryRecv false, rfl, by simp [stepLoop, hphase, hgrow]⟩
    · exact ⟨.full, rfl, by simp [stepLoop, hphase, hgrow]⟩
  | ready batch =>
    refine ⟨.process (fun _ => ⟨"", 0, 0, 0⟩) (.open .empty []), rfl, ?_⟩
    simp only [stepLoop, hphase]
    split <;> rfl
  | single c =>
    exact ⟨.handle ⟨.ok 0, .ok (), .ok false⟩, rfl, by simp [stepLoop, hphase]⟩
  | stopped => exact absurd hphase hstop
  | panicked => exact absurd hphase halive

/-- Whatever arrives when, the loop handles what was put on the channel exactly once and in that
order. When it stops it has handled and answered all of it, and once the channel is closed it gets
there. -/
theorem run_loop_exact (h : Reach (stepLoop ctx cfg) anyStep .start s) :
    Exact cfg s ∧
    (s.phase = .stopped → s.handled.flatMap Handled.commands = s.put ∧
      (s.sent.map Prod.fst).Perm (s.put.filterMap WriteCommand.reply?)) ∧
    (s.phase ≠ .stopped → s.isOpen = false ∨ s.queue ≠ [] →
      ∃ a, a.own = true ∧ (stepLoop ctx cfg s a).isSome = true) ∧
    ∀ a s', a.own = true → stepLoop ctx cfg s a = some s' → s'.work < s.work := by
  have hinv : Exact cfg s ∧ s.Held cfg := by
    refine h.inv (fun s => Exact cfg s ∧ s.Held cfg) ?_ fun t a u ht _ hstep =>
      exact_step ht.1 ht.2 hstep
    exact ⟨⟨rfl, fun _ hx => (List.not_mem_nil hx).elim, .nil, by simp [Loop.start]⟩, trivial⟩
  obtain ⟨hexact, hheld⟩ := hinv
  refine ⟨hexact, fun hstop => ?_, fun hrun hmore => loop_moves ctx cfg hexact.alive hrun hmore,
    fun a s' hown hstep => work_step hown hstep⟩
  simp only [Loop.Held, hstop] at hheld
  have hall : s.put = s.handled.flatMap Handled.commands := by
    simpa [hstop, hheld.1, hheld.2.1, Phase.commands] using hexact.inOrder
  exact ⟨hall.symm, hall ▸ hexact.answered⟩

/-- A snapshot comes between two creates and a delete, and is parked until the creates are done. -/
def mixedRun : List LoopAct :=
  [.put (.create "notes" .null 0), .put (.create "notes" .null 1), .put (.snapshot "copy" 2),
   .next, .tryRecv true, .put (.delete "notes" "a" 3), .tryRecv true,
   .process (fun i => envAt (toString i) 0) (.open .empty [.none, .statement]), .close,
   .next, .handle ⟨.ok 1, .ok (), .ok true⟩, .next, .tryRecv false,
   .process (fun _ => envAt "x" 1) (.open .empty [.statement]), .next]

theorem run_loop_exact_mixed :
    ∃ s, exec (stepLoop noLimits ⟨true, 64⟩) .start mixedRun = some s ∧ s.handled.length = 3 ∧
      (s.sent.map Prod.fst).Perm [0, 1, 2, 3] := by
  obtain ⟨s, hs⟩ : ∃ s, exec (stepLoop noLimits ⟨true, 64⟩) .start mixedRun = some s := ⟨_, rfl⟩
  have hreach : Reach (stepLoop noLimits ⟨true, 64⟩) anyStep .start s :=
    .of_exec mixedRun (by simp [mixedRun, Allowed, anyStep]) hs
  obtain ⟨-, hdone, -⟩ := run_loop_exact hreach
  cases hs
  exact ⟨_, rfl, rfl, (hdone rfl).2⟩

end TinyLord
