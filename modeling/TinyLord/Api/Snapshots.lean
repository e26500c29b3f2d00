import TinyLord.Api.Store
import TinyLord.Lib.Onlooker
import TinyLord.Lib.Sql.Lexer

/-!
# Snapshots

A snapshot is one more command on the writer's channel, and its file is a copy of the database as it
is when that command is handled. Who opens the file after the answer sees the store as it was at one
moment between the call and the answer.
-/

open Lib Lib.Linear Lib.Run Lib.Transaction

namespace TinyLord.Snapshots

open Store (Node Docs Next inFlight)

/-! ## Files -/

inductive File where
  | empty
  | torn
  | database (cat : Catalog)

abbrev Files := String → Option File

/-- `VACUUM INTO` wants no file, or an empty one. -/
def Files.vacant (files : Files) (path : String) : Bool :=
  match files path with
  | none | some .empty => true
  | some .torn | some (.database _) => false

/-- What stops early may leave anything where it was about to write. -/
def Files.leave (files : Files) (path : String) (left : Option File) : Files :=
  if files.vacant path then Function.update files path left else files

/-- The documents that are found in the file. -/
def Files.docs (files : Files) (path : String) : Docs :=
  match files path with
  | some (.database cat) => visible cat.tables
  | _ => fun _ => []

/-! ## The statement that writes the file -/

def escaped (path : List Char) : List Char :=
  path.flatMap fun c => if c = '\'' then ['\'', '\''] else [c]

def vacuumInto (dest : String) : String :=
  String.ofList ("VACUUM INTO '".toList ++ escaped dest.toList ++ ['\''])

/-- The path that the statement names. -/
def target (sql : String) : Option String :=
  match (Sql.lex sql : Option (List (Sql.Tok Value))) with
  | some [.name verb, .name into, .text path] =>
    if verb = "VACUUM" ∧ into = "INTO" then some path else none
  | _ => none

theorem run_escaped (path read : List Char) :
    Sql.run (ν := Value) (.text read) (escaped path) = some ([], .text (read ++ path)) := by
  induction path generalizing read with
  | nil => simp [escaped, Sql.run]
  | cons c path ih =>
    have hrest := ih (read ++ [c])
    rw [List.append_assoc, List.singleton_append] at hrest
    unfold escaped at hrest ⊢
    rw [List.flatMap_cons]
    split_ifs with hc
    · subst hc
      simp [Sql.run, Sql.stepMode, hrest]
    · simp [Sql.run, Sql.stepMode, hc, hrest]

theorem target_vacuumInto (dest : String) : target (vacuumInto dest) = some dest := by
  have hopen : Sql.run (ν := Value) .start "VACUUM INTO '".toList =
      some ([.name "VACUUM", .name "INTO"], .text []) := rfl
  have hpath : Sql.run (ν := Value) .start ("VACUUM INTO '".toList ++ escaped dest.toList) =
      some ([.name "VACUUM", .name "INTO"], .text dest.toList) := by
    rw [Sql.run_append hopen, run_escaped]
    rfl
  have hall : Sql.run (ν := Value) .start (vacuumInto dest).toList =
      some ([.name "VACUUM", .name "INTO"], .closed dest.toList) := by
    have htext : (vacuumInto dest).toList =
        "VACUUM INTO '".toList ++ escaped dest.toList ++ ['\''] := String.toList_ofList
    rw [htext, Sql.run_append hpath]
    rfl
  have hlast : (Sql.Mode.closed dest.toList).last = some [(.text dest : Sql.Tok Value)] := by
    rw [Sql.Mode.last, String.ofList_toList]
  have hlex := Sql.Lexes.lex ⟨_, _, _, hall, hlast, rfl⟩
  simp [target, hlex]

/-! ## The writer's arm -/

/-- What `VACUUM INTO` comes to. -/
inductive Fate where
  | copied (bytes : Nat)
  | failed (e : SqlError) (left : Option File)

/-- SQLite refuses a file that is there. -/
def doSnapshot (cat : Catalog) (files : Files) (dest : String) :
    Fate → Except ApiError Nat × Files
  | .copied bytes =>
    match target (vacuumInto dest) with
    | some path =>
      if files.vacant path then
        (.ok bytes, Function.update files path (some (.database cat)))
      else (.error .internal, files)
    | none => (.error .internal, files)
  | .failed e left => (.error (mapSqliteErr e), files.leave dest left)

/-! ## The node and its snapshots -/

/-- How far the handler of a snapshot is. -/
inductive Stage where
  | idle
  /-- Before the command is put on the channel. -/
  | sending (dest : String)
  | waiting (dest : String)
  | done

def Stage.lost : Stage → Stage
  | .idle => .idle
  | _ => .done

/-- What is seen of a snapshot: the documents in its file. -/
abbrev Shot := Except ApiError Docs

structure State where
  node : Node
  files : Files
  stage : Nat → Stage
  /-- For the statements only: the snapshots, and then these and the requests in one. -/
  shots : List (Mark Nat String Shot)
  marks : List (Mark (Nat ⊕ Nat) (Store.Request ⊕ String) (Store.Answer ⊕ Shot))

def State.start (files : Files) : State where
  node := .start
  files := files
  stage := fun _ => .idle
  shots := []
  marks := []

def State.put (s : State) (j : Nat) (stage : Stage) : State :=
  { s with stage := Function.update s.stage j stage }

def State.record (s : State) (m : Mark Nat String Shot) : State :=
  { s with shots := s.shots ++ [m], marks := s.marks ++ [m.right] }

/-- The node has gone on. -/
def State.follow (s : State) (node : Node) : State :=
  let more := node.marks.drop s.node.marks.length
  { s with node, marks := s.marks ++ more.map Mark.left }

inductive Act where
  /-- A step that is not about snapshots. -/
  | node (a : Store.Act)
  | call (j : Nat) (dest : String)
  /-- The handler makes the directory, and puts the command on the channel. -/
  | send (j : Nat) (made : Bool)
  /-- The writer's loop handles the command. -/
  | copy (fate : Fate)
  | answer (j : Nat)
  | restart (left : Option File)

def shot? : WriteCommand → Option (String × Nat)
  | .snapshot dest reply => some (dest, reply)
  | _ => none

/-- The snapshots among the commands, with their channels. -/
def shotsIn (cmds : List WriteCommand) : List (String × Nat) := cmds.filterMap shot?

/-- The snapshot in the hands of the writer's loop. -/
def inHand (n : Node) : Option (String × Nat) :=
  match n.writer.phase with
  | .single c => shot? c
  | _ => none

def received (sent : List Sent) (j : Nat) : Option (Except ApiError Nat) :=
  sent.findSome? fun s =>
    match s.2 with
    | .snapshot r => if s.1 = j then some r else none
    | _ => none

/-- The answer names the file, and the file is opened. -/
def Files.opened (files : Files) (dest : String) (r : Except ApiError Nat) : Shot :=
  r.map fun _ => files.docs dest

def isApart (n : Node) : Store.Act → Bool
  | .restart => false
  | .other c => (shot? c).isNone
  | .single .. => (inHand n).isNone
  | _ => true

section

variable (sq : QueryEp.Sqlite) (max : UInt32) (ctx : Ctx) (cfg : WriterConfig) (sql : IndexSql)

def step (s : State) : Act → Option State
  | .node a =>
    if isApart s.node a then (Store.step sq max ctx cfg sql s.node a).map s.follow else none
  | .call j dest =>
    match s.stage j with
    | .idle => some ((s.put j (.sending dest)).record (.invoke j dest))
    | _ => none
  | .send j made =>
    match s.stage j, made with
    | .sending dest, false =>
      some (((s.put j .done).record (.commit ⟨j, dest, .error .internal⟩)).record
        (.respond j (.error .internal)))
    | .sending dest, true =>
      (Store.step sq max ctx cfg sql s.node (.other (.snapshot dest j))).map
        (s.put j (.waiting dest)).follow
    | _, _ => none
  | .copy fate =>
    match inHand s.node with
    | some (dest, j) =>
      let (r, files) := doSnapshot s.node.cat s.files dest fate
      (Store.step sq max ctx cfg sql s.node (.single [] r)).map fun node =>
        ({ s with files }.follow node).record (.commit ⟨j, dest, files.opened dest r⟩)
    | none => none
  | .answer j =>
    match s.stage j with
    | .waiting dest => (received s.node.writer.sent j).map fun r =>
        (s.put j .done).record (.respond j (s.files.opened dest r))
    | _ => none
  | .restart left =>
    (Store.step sq max ctx cfg sql s.node .restart).map fun node =>
      { s with
        stage := fun j => (s.stage j).lost
        files := match inHand s.node with
          | some (dest, _) => s.files.leave dest left
          | none => s.files }.follow node

end

/-- As for the store. -/
def proper (ctx : Ctx) (names : Set String) (s : State) : Act → Prop
  | .node a => Store.proper ctx names s.node a
  | _ => True

/-- A snapshot shows all documents, or fails. -/
inductive Look (docs : Docs) (dest : String) : Shot → Prop
  | copied : Look docs dest (.ok docs)
  | failed (e : ApiError) : Look docs dest (.error e)

/-! ## What an answer says of the store -/

section

variable {sq : QueryEp.Sqlite} {max : UInt32}

/-- The answer to a write tells all that the write did. -/
def after (docs : Docs) : Store.Request → Store.Answer → Docs
  | .write (.create coll doc), .wrote (.created (.ok rec)) =>
    docs.set coll (appendRow ⟨rec.id, doc, rec.createdAt, rec.updatedAt⟩ (docs coll))
  | .write (.replace coll id doc), .wrote (.replaced (.ok (rec, true))) =>
    docs.set coll (appendRow ⟨id, doc, rec.createdAt, rec.updatedAt⟩ (docs coll))
  | .write (.replace coll id doc), .wrote (.replaced (.ok (rec, false))) =>
    docs.set coll (updateRow id doc rec.updatedAt (docs coll))
  | .write (.delete coll id), .wrote (.deleted (.ok true)) =>
    docs.set coll (removeRow id (docs coll))
  | _, _ => docs

theorem next_after {docs docs' : Docs} {rq : Store.Request} {a : Store.Answer}
    (h : Next sq max docs rq a docs') : docs' = after docs rq a := by
  cases h with
  | failed cmd e => cases cmd <;> rfl
  | created | inserted | updated | deleted | missed | unread | read => rfl

theorem next_functional : Functional (Next sq max) := by
  intro docs rq a t u ht hu
  rw [next_after ht, next_after hu]

end

/-! ## What a step of the store leaves of the snapshots -/

section

variable {sq : QueryEp.Sqlite} {max : UInt32} {ctx : Ctx} {cfg : WriterConfig} {sql : IndexSql}
  {names : Set String} {n n' : Node} {w : Loop} {c : WriteCommand} {a : Store.Act} {j : Nat}

/-- No snapshot comes or goes, and none is answered. -/
structure Steady (n n' : Node) : Prop where
  marks : n.marks <+: n'.marks
  queued : shotsIn (inFlight n'.writer) = shotsIn (inFlight n.writer)
  sent : ∀ j r, (j, .snapshot r) ∈ n'.writer.sent → (j, .snapshot r) ∈ n.writer.sent

theorem shotsIn_append (cs cs' : List WriteCommand) :
    shotsIn (cs ++ cs') = shotsIn cs ++ shotsIn cs' :=
  List.filterMap_append

theorem shotsIn_single (h : shot? c = none) : shotsIn [c] = [] := by
  simp [shotsIn, h]

theorem shot_of_batchable (h : isBatchable c = true) : shot? c = none := by
  cases c with
  | create | replace | delete => rfl
  | createIndex | dropIndex | snapshot | checkpoint => cases h

theorem shotsIn_batch {cmds : List WriteCommand} (h : ∀ c ∈ cmds, isBatchable c = true) :
    shotsIn cmds = [] := by
  rw [shotsIn, List.filterMap_eq_nil_iff]
  exact fun c hc => shot_of_batchable (h c hc)

theorem Steady.mark {marks : List (Mark Nat Store.Request Store.Answer)}
    (hmarks : n'.marks = n.marks ++ marks) (hwriter : n'.writer = n.writer) : Steady n n' where
  marks := ⟨marks, hmarks.symm⟩
  queued := by rw [hwriter]
  sent j r := by rw [hwriter]; exact id

theorem Steady.push (hput : stepLoop ctx cfg n.writer (.put c) = some w) (hc : shot? c = none)
    (hmarks : n'.marks = n.marks) (hwriter : n'.writer = w) : Steady n n' := by
  obtain ⟨hflight, hsent⟩ := Store.put_inFlight hput
  subst hwriter
  refine ⟨⟨[], by rw [hmarks, List.append_nil]⟩, ?_, ?_⟩
  · rw [hflight, shotsIn_append, shotsIn_single hc, List.append_nil]
  · rw [hsent]
    exact fun _ _ => id

theorem steady_handler (ha : (∃ i rq, a = .call i rq) ∨ (∃ i failed, a = .look i failed) ∨
      (∃ i sorter failed, a = .select i sorter failed) ∨ ∃ i, a = .answer i)
    (hstep : Store.step sq max ctx cfg sql n a = some n') : Steady n n' := by
  rcases ha with ⟨i, rq, rfl⟩ | ⟨i, failed, rfl⟩ | ⟨i, sorter, failed, rfl⟩ | ⟨i, rfl⟩ <;>
    simp only [Store.step] at hstep <;> split at hstep
  · cases hstep
    exact .mark rfl rfl
  · cases hstep
  · cases hstep
    exact .mark rfl rfl
  · split_ifs at hstep
    · cases hstep
      exact .mark (List.append_nil _).symm rfl
    · cases hstep
      exact .mark rfl rfl
  · cases hstep
  · cases hstep
    exact .mark rfl rfl
  · cases hstep
    exact .mark rfl rfl
  · cases hstep
  · obtain ⟨r, -, rfl⟩ := Option.map_eq_some_iff.mp hstep
    exact .mark rfl rfl
  · cases hstep
    exact .mark rfl rfl
  · cases hstep

theorem steady_turn {b : LoopAct} (h : Store.Inv sq max cfg names n)
    (hstep : Store.step sq max ctx cfg sql n (.turn b) = some n') : Steady n n' := by
  obtain ⟨hb, w, hw, rfl⟩ := Store.step_turn hstep
  obtain ⟨hexact, -⟩ := exact_step h.exact h.held hw
  obtain ⟨hflight, hsent⟩ := Store.turn_inFlight hb h.exact hexact hw
  exact ⟨List.prefix_rfl, congrArg shotsIn hflight, fun j r hr => hsent ▸ hr⟩

theorem steady_batch {env : Nat → Env} {faults : List Fault} (h : Store.Inv sq max cfg names n)
    (hstep : Store.step sq max ctx cfg sql n (.batch env faults) = some n') : Steady n n' := by
  simp only [Store.step] at hstep
  split at hstep
  · next cmds hphase =>
    obtain ⟨w, hw, rfl⟩ := Option.map_eq_some_iff.mp hstep
    obtain ⟨hflight, hsent⟩ := Store.process_inFlight hphase h.held hw
    have hheld := h.held
    simp only [Loop.Held, hphase] at hheld
    refine ⟨List.prefix_append _ _, ?_, ?_⟩
    · rw [hflight, shotsIn_append, shotsIn_batch hheld.2.2, List.nil_append]
    · intro j r hr
      rcases hsent _ hr with hr | ⟨_, _, hdata, -⟩
      · exact hr
      · cases hdata
  · cases hstep

theorem handle_writer {results : Results} (hphase : n.writer.phase = .single c)
    (hw : stepLoop ctx cfg n.writer (.handle results) = some w) :
    inFlight n.writer = c :: inFlight w ∧ w.sent = n.writer.sent ++ TinyLord.answer results c := by
  simp only [stepLoop, hphase, Option.some.injEq] at hw
  subst hw
  exact ⟨by simp [inFlight, hphase, Phase.commands], rfl⟩

theorem steady_single {faults : List Fault} {snapshot : Except ApiError Nat}
    (hapart : (inHand n).isNone = true)
    (hstep : Store.step sq max ctx cfg sql n (.single faults snapshot) = some n') :
    Steady n n' := by
  simp only [Store.step] at hstep
  split at hstep
  · next c hphase =>
    obtain ⟨w, hw, rfl⟩ := Option.map_eq_some_iff.mp hstep
    obtain ⟨hflight, hsent⟩ := handle_writer hphase hw
    rw [inHand, hphase, Option.isNone_iff_eq_none] at hapart
    refine ⟨List.prefix_rfl, ?_, ?_⟩
    · rw [hflight, ← List.singleton_append, shotsIn_append, shotsIn_single hapart, List.nil_append]
    · intro j r hr
      rw [hsent, List.mem_append] at hr
      refine hr.resolve_right fun hr => ?_
      cases c with
      | snapshot => cases hapart
      | create | replace | delete | createIndex | dropIndex | checkpoint =>
        simp [TinyLord.answer] at hr
  · cases hstep

theorem steady_step (h : Store.Inv sq max cfg names n) (hapart : isApart n a = true)
    (hstep : Store.step sq max ctx cfg sql n a = some n') : Steady n n' := by
  cases a with
  | call i rq => exact steady_handler (Or.inl ⟨i, rq, rfl⟩) hstep
  | look i failed => exact steady_handler (Or.inr (Or.inl ⟨i, failed, rfl⟩)) hstep
  | select i sorter failed =>
    exact steady_handler (Or.inr (Or.inr (Or.inl ⟨i, sorter, failed, rfl⟩))) hstep
  | answer i => exact steady_handler (Or.inr (Or.inr (Or.inr ⟨i, rfl⟩))) hstep
  | send i =>
    simp only [Store.step] at hstep
    split at hstep
    · next cmd _ =>
      obtain ⟨w, hput, rfl⟩ := Option.map_eq_some_iff.mp hstep
      exact .push hput (by cases cmd <;> rfl) rfl rfl
    · cases hstep
  | other c =>
    simp only [Store.step] at hstep
    split_ifs at hstep
    obtain ⟨w, hput, rfl⟩ := Option.map_eq_some_iff.mp hstep
    exact .push hput (Option.isNone_iff_eq_none.mp hapart) rfl rfl
  | turn b => exact steady_turn h hstep
  | batch env faults => exact steady_batch h hstep
  | single faults snapshot => exact steady_single hapart hstep
  | restart => cases hapart

end

/-! ## The invariant -/

/-- What the handler at a stage can rely on. -/
def Stage.Sound (shots : List (Mark Nat String Shot)) (j : Nat) : Stage → Prop
  | .idle => ∀ dest, .invoke j dest ∉ shots
  | .sending dest => .invoke j dest ∈ shots ∧ j ∉ committed shots
  | .waiting dest => .invoke j dest ∈ shots
  | .done => True

/-- What holds of the snapshots when these are in flight and these answers are sent. -/
structure Aside (flight : List (String × Nat)) (sent : List Sent) (files : Files)
    (stage : Nat → Stage) (shots : List (Mark Nat String Shot)) : Prop where
  timed : Timed shots
  queued : ∀ shot ∈ flight, stage shot.2 = .waiting shot.1 ∧ shot.2 ∉ committed shots
  channels : (flight.map Prod.snd).Nodup
  sent : ∀ j r, (j, .snapshot r) ∈ sent → ∃ dest shot, .commit ⟨j, dest, shot⟩ ∈ shots ∧
    shot.map (fun _ => ()) = r.map fun _ => ()
  /-- A file with a snapshot is not written again. -/
  kept : ∀ j dest docs, .commit ⟨j, dest, .ok docs⟩ ∈ shots →
    ∃ cat, files dest = some (.database cat) ∧ visible cat.tables = docs
  stages : ∀ j, (stage j).Sound shots j

structure Inv (sq : QueryEp.Sqlite) (max : UInt32) (cfg : WriterConfig) (names : Set String)
    (s : State) : Prop where
  node : Store.Inv sq max cfg names s.node
  merged : Merged s.node.marks s.shots s.marks
  legal : Sequential (Beside (Next sq max) Look) (fun _ => []) (commits s.marks)
    (visible s.node.cat.tables)
  aside : Aside (shotsIn (inFlight s.node.writer)) s.node.writer.sent s.files s.stage s.shots

section

variable {sq : QueryEp.Sqlite} {max : UInt32} {ctx : Ctx} {cfg : WriterConfig} {sql : IndexSql}
  {names : Set String} {s s' : State} {n n' : Node} {i j : Nat} {dest : String} {st : Stage}
  {files files' : Files} {stage : Nat → Stage} {shots : List (Mark Nat String Shot)}
  {m : Mark Nat String Shot} {flight : List (String × Nat)} {sent : List Sent}

theorem Stage.Sound.other (h : st.Sound shots i) (hne : m.id ≠ i) : st.Sound (shots ++ [m]) i := by
  have hcommit : i ∈ committed (shots ++ [m]) → i ∈ committed shots := by
    intro hc
    refine (committed_concat hc).resolve_right ?_
    rintro ⟨d, rfl, rfl⟩
    exact hne rfl
  cases st with
  | idle =>
    intro dest hmem
    rcases List.mem_append.mp hmem with hmem | hmem
    · exact h dest hmem
    · cases List.mem_singleton.mp hmem
      exact hne rfl
  | sending dest => exact ⟨List.mem_append_left _ h.1, fun hc => h.2 (hcommit hc)⟩
  | waiting dest => exact List.mem_append_left _ h
  | done => trivial

theorem Aside.of_idle (h : Aside flight sent files stage shots) (hidle : stage j = .idle) :
    j ∉ committed shots := by
  intro hc
  obtain ⟨d, hd, rfl⟩ := mem_committed.mp hc
  have hst := h.stages d.id
  rw [hidle] at hst
  exact hst d.op (h.timed.invoked hd)

theorem Aside.out (h : Aside flight sent files stage shots)
    (hstage : ∀ dest, stage j ≠ .waiting dest) : ∀ shot ∈ flight, shot.2 ≠ j := by
  rintro shot hshot rfl
  exact hstage _ (h.queued shot hshot).1

theorem Aside.put (h : Aside flight sent files stage shots) (j : Nat) (st : Stage)
    (hout : ∀ shot ∈ flight, shot.2 ≠ j) (hst : st.Sound shots j) :
    Aside flight sent files (Function.update stage j st) shots where
  timed := h.timed
  queued shot hshot := by
    rw [Function.update_of_ne (hout shot hshot)]
    exact h.queued shot hshot
  channels := h.channels
  sent := h.sent
  kept := h.kept
  stages i := by
    by_cases hi : i = j
    · subst hi
      rw [Function.update_self]
      exact hst
    · rw [Function.update_of_ne hi]
      exact h.stages i

theorem Aside.record (h : Aside flight sent files stage shots) (j : Nat) (st : Stage)
    (m : Mark Nat String Shot) (hid : m.id = j) (hout : ∀ shot ∈ flight, shot.2 ≠ j)
    (hm : m.After shots)
    (hkept : ∀ i dest docs, m = .commit ⟨i, dest, .ok docs⟩ →
      ∃ cat, files dest = some (.database cat) ∧ visible cat.tables = docs)
    (hst : st.Sound (shots ++ [m]) j) :
    Aside flight sent files (Function.update stage j st) (shots ++ [m]) where
  timed := h.timed.concat hm
  queued shot hshot := by
    obtain ⟨hwait, hnew⟩ := h.queued shot hshot
    refine ⟨(Function.update_of_ne (hout shot hshot) _ _).trans hwait, fun hc => ?_⟩
    rcases committed_concat hc with hc | ⟨d, rfl, hd⟩
    · exact hnew hc
    · exact hout shot hshot (hd.symm.trans hid)
  channels := h.channels
  sent i r hr := by
    obtain ⟨dest, shot, hshot, hsame⟩ := h.sent i r hr
    exact ⟨dest, shot, List.mem_append_left _ hshot, hsame⟩
  kept i dest docs hd := by
    rcases List.mem_append.mp hd with hd | hd
    · exact h.kept i dest docs hd
    · exact hkept i dest docs (List.mem_singleton.mp hd).symm
  stages i := by
    by_cases hi : i = j
    · subst hi
      rw [Function.update_self]
      exact hst
    · rw [Function.update_of_ne hi]
      exact (h.stages i).other fun hm => hi (hm.symm.trans hid)

theorem legal_record {docs : Docs}
    {marks : List (Mark (Nat ⊕ Nat) (Store.Request ⊕ String) (Store.Answer ⊕ Shot))}
    (h : Sequential (Beside (Next sq max) Look) (fun _ => []) (commits marks) docs)
    (hlook : ∀ d, m = .commit d → Look docs d.op d.answer) :
    Sequential (Beside (Next sq max) Look) (fun _ => []) (commits (marks ++ [m.right])) docs := by
  rw [commits_concat]
  cases m with
  | commit d => exact .concat d.right h (.look (hlook d rfl))
  | invoke | respond => simpa [Mark.right, Mark.map, Mark.done?] using h

theorem Inv.follow_marks (h : Inv sq max cfg names s) (hnode : Store.Inv sq max cfg names n')
    (hmarks : s.node.marks <+: n'.marks) :
    Merged n'.marks s.shots (s.follow n').marks ∧
      Sequential (Beside (Next sq max) Look) (fun _ => []) (commits (s.follow n').marks)
        (visible n'.cat.tables) := by
  obtain ⟨more, hmore⟩ := hmarks
  have hdrop : n'.marks.drop s.node.marks.length = more := by
    rw [← hmore, List.drop_left]
  have hcommits : commits n'.marks = commits s.node.marks ++ commits more := by
    rw [← hmore, commits, List.filterMap_append]
    rfl
  have hnew := hnode.legal
  rw [hcommits] at hnew
  simp only [State.follow, hdrop]
  constructor
  · rw [← hmore]
    exact h.merged.lefts more
  · rw [commits_lefts]
    exact h.legal.trans (h.node.legal.after next_functional hnew).left

theorem Inv.follow (h : Inv sq max cfg names s) (hnode : Store.Inv sq max cfg names n')
    (hmarks : s.node.marks <+: n'.marks)
    (haside : Aside (shotsIn (inFlight n'.writer)) n'.writer.sent files stage s.shots) :
    Inv sq max cfg names ({ s with files, stage }.follow n') := by
  obtain ⟨hmerged, hlegal⟩ := h.follow_marks hnode hmarks
  exact ⟨hnode, hmerged, hlegal, haside⟩

/-! ## The steps -/

theorem Files.leave_database {path : String} {cat : Catalog} (left : Option File)
    (h : files path = some (.database cat)) : files.leave dest left path = some (.database cat) := by
  unfold Files.leave
  split_ifs with hvacant
  · have hne : path ≠ dest := by
      rintro rfl
      simp [Files.vacant, h] at hvacant
    exact (Function.update_of_ne hne _ _).trans h
  · exact h

/-- `do_snapshot` writes no snapshot over another, and none that it does not report. -/
theorem doSnapshot_spec {cat : Catalog} {fate : Fate} {r : Except ApiError Nat}
    (h : doSnapshot cat files dest fate = (r, files')) :
    (∀ path cat', files path = some (.database cat') → files' path = some (.database cat')) ∧
      ∀ bytes, r = .ok bytes → files' dest = some (.database cat) := by
  cases fate with
  | copied bytes =>
    simp only [doSnapshot, target_vacuumInto] at h
    split_ifs at h with hvacant <;> cases h
    · refine ⟨fun path cat' hpath => ?_, fun _ _ => Function.update_self ..⟩
      have hne : path ≠ dest := by
        rintro rfl
        simp [Files.vacant, hpath] at hvacant
      exact (Function.update_of_ne hne _ _).trans hpath
    · exact ⟨fun _ _ => id, nofun⟩
  | failed e left =>
    cases h
    exact ⟨fun _ _ => Files.leave_database left, nofun⟩

theorem received_mem {r : Except ApiError Nat} (h : received sent j = some r) :
    (j, .snapshot r) ∈ sent := by
  obtain ⟨s, hs, hdata⟩ := List.exists_of_findSome?_eq_some h
  obtain ⟨k, a⟩ := s
  cases a with
  | snapshot r' =>
    simp only at hdata
    split_ifs at hdata with hk
    cases hdata
    exact hk ▸ hs
  | data | indexed | dropped => cases hdata

theorem inv_node {a : Store.Act} (hnames : Store.Distinct names) (h : Inv sq max cfg names s)
    (hok : Store.proper ctx names s.node a)
    (hstep : step sq max ctx cfg sql s (.node a) = some s') : Inv sq max cfg names s' := by
  simp only [step] at hstep
  split_ifs at hstep with hapart
  obtain ⟨n', hnode, rfl⟩ := Option.map_eq_some_iff.mp hstep
  have hsteady := steady_step h.node hapart hnode
  refine h.follow (Store.inv_step hnames h.node hok hnode) hsteady.marks ?_
  rw [hsteady.queued]
  exact { h.aside with sent := fun j r hr => h.aside.sent j r (hsteady.sent j r hr) }

theorem inv_call (h : Inv sq max cfg names s)
    (hstep : step sq max ctx cfg sql s (.call j dest) = some s') : Inv sq max cfg names s' := by
  simp only [step] at hstep
  split at hstep
  · next hidle =>
    cases hstep
    have hfresh : ∀ op, .invoke j op ∉ s.shots := by
      have hst := h.aside.stages j
      rw [hidle] at hst
      exact hst
    refine ⟨h.node, h.merged.right _, legal_record h.legal nofun, ?_⟩
    refine h.aside.record j (.sending dest) (.invoke j dest) rfl
      (h.aside.out (by simp [hidle])) hfresh nofun ⟨by simp, fun hc => ?_⟩
    rcases committed_concat hc with hc | ⟨_, hd, -⟩
    · exact h.aside.of_idle hidle hc
    · cases hd
  · cases hstep

theorem inv_send {made : Bool} (hnames : Store.Distinct names) (h : Inv sq max cfg names s)
    (hstep : step sq max ctx cfg sql s (.send j made) = some s') : Inv sq max cfg names s' := by
  simp only [step] at hstep
  split at hstep
  · next dest hstage =>
    have hst : (Stage.sending dest).Sound s.shots j := hstage ▸ h.aside.stages j
    have hout := h.aside.out (j := j) (by simp [hstage])
    cases hstep
    have hcommit := h.aside.record j .done (.commit ⟨j, dest, .error .internal⟩) rfl hout hst nofun
      trivial
    have hrespond := hcommit.record j .done (.respond j (.error .internal)) rfl hout
      ⟨_, List.mem_append_right _ (List.mem_singleton_self _), rfl, rfl⟩ nofun trivial
    rw [Function.update_idem] at hrespond
    refine ⟨h.node, (h.merged.right _).right _, ?_, hrespond⟩
    refine legal_record (legal_record h.legal ?_) nofun
    rintro d ⟨⟩
    exact .failed _
  · next dest hstage =>
    have hst : (Stage.sending dest).Sound s.shots j := hstage ▸ h.aside.stages j
    obtain ⟨n', hnode, rfl⟩ := Option.map_eq_some_iff.mp hstep
    have hok : Store.proper ctx names s.node (.other (.snapshot dest j)) := trivial
    refine h.follow (Store.inv_step hnames h.node hok hnode) ?_ ?_
    all_goals
      simp only [Store.step] at hnode
      split_ifs at hnode
      obtain ⟨w, hput, rfl⟩ := Option.map_eq_some_iff.mp hnode
    · exact List.prefix_rfl
    · obtain ⟨hflight, hsent⟩ := Store.put_inFlight hput
      have hout := h.aside.out (j := j) (by simp [hstage])
      have hput := h.aside.put j (.waiting dest) hout hst.1
      have hone : shotsIn [.snapshot dest j] = [(dest, j)] := rfl
      rw [hflight, hsent, shotsIn_append, hone]
      refine { hput with queued := ?_, channels := ?_ }
      · intro shot hshot
        rcases List.mem_append.mp hshot with hshot | hshot
        · exact hput.queued shot hshot
        · cases List.mem_singleton.mp hshot
          exact ⟨Function.update_self .., hst.2⟩
      · rw [List.map_append]
        refine hput.channels.append (List.nodup_singleton _) ?_
        rw [List.map_singleton, List.disjoint_singleton]
        intro hj
        obtain ⟨shot, hshot, heq⟩ := List.mem_map.mp hj
        exact hout shot hshot heq
  · cases hstep

theorem inHand_phase {shot : String × Nat} (h : inHand n = some shot) :
    n.writer.phase = .single (.snapshot shot.1 shot.2) := by
  unfold inHand at h
  split at h
  · next c hphase =>
    rw [hphase]
    cases c <;> cases h
    rfl
  · cases h

theorem inv_copy {fate : Fate} (hnames : Store.Distinct names) (h : Inv sq max cfg names s)
    (hstep : step sq max ctx cfg sql s (.copy fate) = some s') : Inv sq max cfg names s' := by
  simp only [step] at hstep
  split at hstep
  · next dest j hhand =>
    have hphase := inHand_phase hhand
    rcases hdo : doSnapshot s.node.cat s.files dest fate with ⟨r, files'⟩
    obtain ⟨hkeeps, hwritten⟩ := doSnapshot_spec hdo
    rw [hdo] at hstep
    obtain ⟨n', hnode, rfl⟩ := Option.map_eq_some_iff.mp hstep
    have hok : Store.proper ctx names s.node (.single [] r) := trivial
    have hinv := Store.inv_step hnames h.node hok hnode
    simp only [Store.step, hphase] at hnode
    obtain ⟨w, hw, rfl⟩ := Option.map_eq_some_iff.mp hnode
    obtain ⟨hflight, hsent⟩ := handle_writer hphase hw
    obtain ⟨hmerged, hlegal⟩ := h.follow_marks hinv List.prefix_rfl
    have hshots : shotsIn (inFlight s.node.writer) = (dest, j) :: shotsIn (inFlight w) := by
      rw [hflight]
      rfl
    have haside := h.aside
    rw [hshots] at haside
    obtain ⟨⟨hwait, hnew⟩, hrest⟩ := List.forall_mem_cons.mp haside.queued
    obtain ⟨hout, hchannels⟩ := List.nodup_cons.mp haside.channels
    have hinvoke : (Stage.waiting dest).Sound s.shots j := hwait ▸ haside.stages j
    -- The command has left the channel, and the file is written.
    have hhandled : Aside (shotsIn (inFlight w)) s.node.writer.sent files' s.stage s.shots := by
      refine ⟨haside.timed, hrest, hchannels, haside.sent, fun i dest docs hd => ?_, haside.stages⟩
      obtain ⟨cat, hcat, hdocs⟩ := haside.kept i dest docs hd
      exact ⟨cat, hkeeps _ _ hcat, hdocs⟩
    have hdocs : ∀ bytes, r = .ok bytes → files'.docs dest = visible s.node.cat.tables := by
      intro bytes hr
      rw [Files.docs, hwritten bytes hr]
    have hrecord := hhandled.record j (.waiting dest) (.commit ⟨j, dest, files'.opened dest r⟩)
      rfl ?_ ⟨hinvoke, hnew⟩ ?_ (List.mem_append_left _ hinvoke)
    · refine ⟨hinv, hmerged.right _, legal_record hlegal ?_, ?_⟩
      · rintro d ⟨⟩
        cases r with
        | error e => exact .failed e
        | ok bytes =>
          simp only [Files.opened, Except.map, hdocs bytes rfl]
          exact .copied
      · rw [← hwait, Function.update_eq_self] at hrecord
        refine { hrecord with sent := fun i r' hr => ?_ }
        simp only [State.record, State.follow, hsent, List.mem_append] at hr
        rcases hr with hr | hr
        · exact hrecord.sent i r' hr
        · cases List.mem_singleton.mp hr
          refine ⟨dest, files'.opened dest r, List.mem_append_right _ (by simp), ?_⟩
          cases r <;> rfl
    · rintro shot hshot rfl
      exact hout (List.mem_map.mpr ⟨shot, hshot, rfl⟩)
    · rintro i dest' docs heq
      obtain ⟨rfl, rfl, hopened⟩ : j = i ∧ dest = dest' ∧ files'.opened dest r = .ok docs := by
        simpa using heq
      cases r with
      | error e => cases hopened
      | ok bytes =>
        simp only [Files.opened, Except.map, hdocs bytes rfl, Except.ok.injEq] at hopened
        exact ⟨_, hwritten bytes rfl, hopened⟩
  · cases hstep

theorem inv_answer (h : Inv sq max cfg names s)
    (hstep : step sq max ctx cfg sql s (.answer j) = some s') : Inv sq max cfg names s' := by
  simp only [step] at hstep
  split at hstep
  · next dest hstage =>
    obtain ⟨r, hr, rfl⟩ := Option.map_eq_some_iff.mp hstep
    have hinvoke : (Stage.waiting dest).Sound s.shots j := hstage ▸ h.aside.stages j
    obtain ⟨dest', shot, hshot, hsame⟩ := h.aside.sent j r (received_mem hr)
    obtain rfl : dest = dest' := h.aside.timed.invoke_unique hinvoke (h.aside.timed.invoked hshot)
    have hopened : s.files.opened dest r = shot := by
      cases r with
      | error e =>
        cases shot <;> cases hsame
        rfl
      | ok bytes =>
        cases shot with
        | error => cases hsame
        | ok docs =>
          obtain ⟨cat, hcat, hdocs⟩ := h.aside.kept j dest docs hshot
          simp only [Files.opened, Except.map, Files.docs, hcat, hdocs]
    have hout : ∀ op ∈ shotsIn (inFlight s.node.writer), op.2 ≠ j := by
      rintro op hop rfl
      exact (h.aside.queued op hop).2 (mem_committed.mpr ⟨_, hshot, rfl⟩)
    refine ⟨h.node, h.merged.right _, legal_record h.legal nofun, ?_⟩
    exact h.aside.record j .done _ rfl hout ⟨_, hshot, rfl, hopened.symm⟩ nofun trivial
  · cases hstep

theorem inv_restart {left : Option File} (hnames : Store.Distinct names)
    (h : Inv sq max cfg names s)
    (hstep : step sq max ctx cfg sql s (.restart left) = some s') : Inv sq max cfg names s' := by
  simp only [step] at hstep
  obtain ⟨n', hnode, rfl⟩ := Option.map_eq_some_iff.mp hstep
  have hok : Store.proper ctx names s.node .restart := trivial
  refine h.follow (Store.inv_step hnames h.node hok hnode) ?_ ?_ <;> cases hnode
  · exact List.prefix_rfl
  · refine ⟨h.aside.timed, nofun, .nil, nofun, ?_, fun j => ?_⟩
    · intro j dest docs hd
      obtain ⟨cat, hcat, hdocs⟩ := h.aside.kept j dest docs hd
      refine ⟨cat, ?_, hdocs⟩
      cases inHand s.node with
      | none => exact hcat
      | some shot => exact Files.leave_database left hcat
    · have hst := h.aside.stages j
      change (s.stage j).lost.Sound s.shots j
      generalize s.stage j = st at hst
      cases st with
      | idle => exact hst
      | sending | waiting | done => trivial

theorem inv_step {a : Act} (hnames : Store.Distinct names) (h : Inv sq max cfg names s)
    (hok : proper ctx names s a) (hstep : step sq max ctx cfg sql s a = some s') :
    Inv sq max cfg names s' := by
  cases a with
  | node a => exact inv_node hnames h hok hstep
  | call j dest => exact inv_call h hstep
  | send j made => exact inv_send hnames h hstep
  | copy fate => exact inv_copy hnames h hstep
  | answer j => exact inv_answer h hstep
  | restart left => exact inv_restart hnames h hstep

theorem inv_start (sq : QueryEp.Sqlite) (max : UInt32) (cfg : WriterConfig) (names : Set String)
    (files : Files) : Inv sq max cfg names (.start files) where
  node := Store.inv_start sq max cfg names
  merged := .nil
  legal := .nil
  aside := ⟨.nil, nofun, .nil, nofun, nofun, fun _ => nofun⟩

/-- Snapshots and requests overlap, and the process stops and starts again wherever it may. Each
snapshot holds all that was written before one moment between its call and its answer and nothing
that was written later, and a file that was promised stays as it is. -/
theorem snapshots_linearizable (hnames : Store.Distinct names)
    (h : Reach (step sq max ctx cfg sql) (proper ctx names) (.start files) s) :
    Linearizable (Beside (Next sq max) Look) (fun _ => []) (history s.marks) ∧
      ∀ j docs, .respond (.inr j) (.inr (.ok docs)) ∈ history s.marks → ∃ dest cat,
        .invoke (.inr j) (.inr dest) ∈ history s.marks ∧
        s.files dest = some (.database cat) ∧ visible cat.tables = docs := by
  have hinv : Inv sq max cfg names s := h.inv (Inv sq max cfg names)
    (inv_start sq max cfg names files) fun _ _ _ ht hok hstep => inv_step hnames ht hok hstep
  have htimed := hinv.merged.timed hinv.node.timed hinv.aside.timed
  refine ⟨htimed.linearizable hinv.legal, fun j docs hr => ?_⟩
  obtain ⟨d, hd, hid, hanswer⟩ := htimed.answered (respond_mem_history.mp hr)
  have hinvoke := htimed.invoked hd
  obtain ⟨m, -, hm⟩ | ⟨m, hm, heq⟩ := hinv.merged.mem.mp hd
  · cases m <;> cases hm
    cases hid
  · cases m <;> cases heq
    next d =>
      obtain ⟨i, dest, shot⟩ := d
      cases hid
      cases hanswer
      obtain ⟨cat, hcat, hdocs⟩ := hinv.aside.kept i dest docs hm
      exact ⟨dest, cat, invoke_mem_history.mpr hinvoke, hcat, hdocs⟩

/-- The snapshot is asked for when the first document is on its way, and is behind it in the
channel. The second document is put when the snapshot is in hand. -/
def behindPut : List Act :=
  [.node (.call 0 (.write (.replace "notes" "a" .null))), .node (.send 0), .call 0 "s/it's.db",
   .send 0 true, .node (.turn .next), .node (.turn (.tryRecv true)),
   .node (.batch (fun _ => envAt "x" 5) []), .node (.turn .next),
   .node (.call 1 (.write (.replace "notes" "b" .null))), .copy (.copied 4096), .answer 0]

theorem snapshots_linearizable_behindPut :
    ∃ s docs, exec (step Store.plainSqlite 100 noLimits ⟨true, 64⟩ Reserved.plainSql)
        (.start fun _ => none) behindPut = some s ∧
      .respond (.inr 0) (.inr (.ok docs)) ∈ history s.marks ∧ docs "notes" = [⟨"a", .null, 5, 5⟩] ∧
      Linearizable (Beside (Next Store.plainSqlite 100) Look) (fun _ => []) (history s.marks) := by
  obtain ⟨s, docs, hs, hrespond, hdocs⟩ : ∃ s docs,
      exec (step Store.plainSqlite 100 noLimits ⟨true, 64⟩ Reserved.plainSql)
        (.start fun _ => none) behindPut = some s ∧
      .respond (.inr 0) (.inr (.ok docs)) ∈ history s.marks ∧
      docs "notes" = [⟨"a", .null, 5, 5⟩] := ⟨_, _, rfl, List.mem_of_getElem? (i := 3) rfl, rfl⟩
  have hallowed : Allowed (step Store.plainSqlite 100 noLimits ⟨true, 64⟩ Reserved.plainSql)
      (proper noLimits {"notes"}) (.start fun _ => none) behindPut := by
    refine .cons rfl rfl (.cons trivial rfl (.cons trivial rfl (.cons trivial rfl
      (.cons trivial rfl (.cons trivial rfl (.cons ?_ rfl (.cons trivial rfl (.cons rfl rfl
      (.cons trivial rfl (.cons trivial rfl trivial))))))))))
    exact fun _ _ => contained_healthy _ _ _
  have hdistinct : Store.Distinct {"notes"} := by
    rintro a rfl b rfl -
    rfl
  have hlin := (snapshots_linearizable hdistinct (.of_exec behindPut hallowed hs)).1
  exact ⟨s, docs, hs, hrespond, hdocs, hlin⟩

end

end TinyLord.Snapshots
