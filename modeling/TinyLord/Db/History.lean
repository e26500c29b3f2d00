import Mathlib.Computability.Language
import TinyLord.Db.Replies

/-!
# The change log as a history of the tables

Replaying the rows of one document gives the document. So the log says which documents there
are, and its rows come in the order of a life: inserted, updated, deleted, and so on again.
-/

open Lib.Transaction Lib.Sequence Computability

namespace TinyLord

/-! ## The statement -/

def Database.history (db : Database) (c x : String) : List ChangelogRow :=
  db.changelog.filter fun r => r.collection == c && r.docId == x

/-- `(insert update* delete)*` -/
def lifecycle : Language Op := ({[.insert]} * ({[.update]} : Language Op)∗ * {[.delete]})∗

/-- What the log says about one document. -/
structure History (db : Database) (c x : String) : Prop where
  lifecycle : ∃ w ∈ lifecycle, (db.history c x).map (·.op) <+: w.map Op.asStr
  present : (db.find c x).isSome ↔
    ∃ r, (db.history c x).getLast? = some r ∧ (r.op = "insert" ∨ r.op = "update")
  row : ∀ row, db.find c x = some row → ∃ r first, (db.history c x).getLast? = some r ∧
    r.doc = some row.doc ∧ r.ts = row.updatedAt ∧
    ((db.history c x).filter (·.op == "insert")).getLast? = some first ∧ first.ts = row.createdAt

def Command.collection : Command → String
  | .create c _ | .replace c _ _ | .delete c _ => c

/-- A database that batches lead to, from an empty one. The commands name collections of the set,
and whatever fails, `COMMIT` too, no failing statement has taken the transaction back. -/
inductive Reached (ctx : Ctx) (names : Set String) : Database → Prop
  | empty : Reached ctx names .empty
  | batch {D : Database} (batch : List (Command × Env)) (faults : List Fault) :
      Reached ctx names D → (∀ op ∈ batch, op.1.collection ∈ names) →
      KeepsTransaction ctx batch (.open D faults) →
      Reached ctx names (processBatch ctx batch (.open D faults)).conn.committed

def Reply.isAck : Reply → Bool
  | .created (.ok _) | .replaced (.ok _) | .deleted (.ok true) => true
  | _ => false

/-- The flag of a replace says whether its row in the log is an insert. -/
def FlagTrue (reply : Reply) (ev : ChangeEvent) : Prop :=
  ∀ rec created, reply = .replaced (.ok (rec, created)) → (created = true ↔ ev.op = .insert)

/-! ## The life of one document -/

/-- What a change makes of the document, if it may come at that point. -/
def follow (st : Option DocRow) (c : Change) : Option (Option DocRow) :=
  match c.op, st, c.doc with
  | .insert, none, some doc => some (some ⟨c.docId, doc, c.ts, c.ts⟩)
  | .update, some old, some doc => some (some { old with doc, updatedAt := c.ts })
  | .delete, some _, none => some none
  | _, _, _ => none

theorem follow_cases {st st' : Option DocRow} {c : Change} (h : follow st c = some st') :
    (c.op = .insert ∧ st = none ∧ ∃ doc, c.doc = some doc ∧ st' = some ⟨c.docId, doc, c.ts, c.ts⟩) ∨
    (c.op = .update ∧ ∃ old doc, st = some old ∧ c.doc = some doc ∧
      st' = some { old with doc, updatedAt := c.ts }) ∨
    (c.op = .delete ∧ (∃ old, st = some old) ∧ st' = none) := by
  unfold follow at h
  split at h
  · exact Or.inl ⟨by assumption, rfl, _, by assumption, (Option.some.inj h).symm⟩
  · exact Or.inr (Or.inl ⟨by assumption, _, _, rfl, by assumption, (Option.some.inj h).symm⟩)
  · exact Or.inr (Or.inr ⟨by assumption, ⟨_, rfl⟩, (Option.some.inj h).symm⟩)
  · cases h

theorem mem_lifecycle_append {w v : List Op} (hw : w ∈ lifecycle)
    (hv : v ∈ ({[.insert]} * ({[.update]} : Language Op)∗ * {[.delete]} : Language Op)) :
    w ++ v ∈ lifecycle := by
  obtain ⟨L, rfl, hL⟩ := Language.mem_kstar.mp hw
  refine Language.mem_kstar.mpr ⟨L ++ [v], by simp, ?_⟩
  intro y hy
  rcases List.mem_append.mp hy with hy | hy
  · exact hL y hy
  · rw [List.mem_singleton.mp hy]
    exact hv

theorem life_mem (k : Nat) : Op.insert :: List.replicate k .update ++ [.delete] ∈
    ({[.insert]} * ({[.update]} : Language Op)∗ * {[.delete]} : Language Op) := by
  refine Language.append_mem_mul ?_ rfl
  refine Language.append_mem_mul (a := [Op.insert]) rfl ?_
  refine Language.mem_kstar.mpr ⟨List.replicate k [.update], by simp, ?_⟩
  intro y hy
  exact List.eq_of_mem_replicate hy

/-- What the changes of a document have come to: between two lives, or in the middle of one. -/
def Life (cs : List Change) : Option DocRow → Prop
  | none => cs.map (·.op) ∈ lifecycle ∧ ∀ c, cs.getLast? = some c → c.op = .delete
  | some row => (∃ w ∈ lifecycle, ∃ k, cs.map (·.op) = w ++ .insert :: List.replicate k .update) ∧
    (∃ c, cs.getLast? = some c ∧ c.op ≠ .delete ∧ c.doc = some row.doc ∧ c.ts = row.updatedAt) ∧
    ∃ c, (cs.filter (·.op = .insert)).getLast? = some c ∧ c.ts = row.createdAt

theorem life_of_follow {cs : List Change} {st : Option DocRow}
    (h : cs.foldlM follow none = some st) : Life cs st := by
  induction cs using List.reverseRecOn generalizing st with
  | nil =>
    have : none = st := by simpa using h
    subst this
    exact ⟨Language.nil_mem_kstar _, by simp⟩
  | append_singleton cs c ih =>
    rw [List.foldlM_append] at h
    obtain ⟨st₀, h₀, hc⟩ := Option.bind_eq_some_iff.mp h
    have hlife := ih h₀
    have hc : follow st₀ c = some st := by simpa using hc
    rcases follow_cases hc with ⟨hop, rfl, doc, hdoc, rfl⟩ | ⟨hop, old, doc, rfl, hdoc, rfl⟩ |
      ⟨hop, ⟨old, rfl⟩, rfl⟩
    · refine ⟨⟨_, hlife.1, 0, by simp [hop]⟩, ⟨c, by simp, by simp [hop], hdoc, rfl⟩, c, ?_, rfl⟩
      simp [List.filter_append, hop]
    · obtain ⟨⟨w, hw, k, hk⟩, -, first, hfirst, hts⟩ := hlife
      refine ⟨⟨w, hw, k + 1, ?_⟩, ⟨c, by simp, by simp [hop], hdoc, rfl⟩, first, ?_, hts⟩
      · rw [List.map_append, hk, List.replicate_succ']
        simp [hop]
      · simpa [List.filter_append, hop] using hfirst
    · obtain ⟨⟨w, hw, k, hk⟩, -, -⟩ := hlife
      refine ⟨?_, by simp [hop]⟩
      rw [List.map_append, hk, List.append_assoc]
      simpa [hop] using mem_lifecycle_append hw (life_mem k)

/-! ## The rows of the log as changes -/

def ChangelogRow.change (r : ChangelogRow) : Change :=
  { collection := r.collection, op := parseOp r.op, docId := r.docId, doc := r.doc, ts := r.ts }

@[simp] theorem row_change (c : Change) (n : Int) : (c.row n).change = c := by
  simp [Change.row, ChangelogRow.change]

/-- The log is in order, its ops are spelled right, and the rows of each document lead to it. -/
structure Replayed (names : Set String) (db : Database) : Prop where
  increasing : Increasing (·.seq) db.changelog
  spelled : ∀ r ∈ db.changelog, r.op = (parseOp r.op).asStr
  replay : ∀ c ∈ names, ∀ x,
    ((db.history c x).map ChangelogRow.change).foldlM follow none = some (db.find c x)

theorem asStr_live (op : Op) : (op.asStr = "insert" ∨ op.asStr = "update") ↔ op ≠ .delete := by
  cases op <;> decide

theorem history_of_life {db : Database} {c x : String}
    (hspelled : ∀ r ∈ db.changelog, r.op = (parseOp r.op).asStr)
    (h : Life ((db.history c x).map ChangelogRow.change) (db.find c x)) : History db c x := by
  have hop : ∀ r ∈ db.history c x, r.op = r.change.op.asStr := fun r hr =>
    hspelled r (List.mem_filter.mp hr).1
  have hops : (db.history c x).map (·.op) =
      (((db.history c x).map ChangelogRow.change).map (·.op)).map Op.asStr := by
    rw [List.map_map, List.map_map]
    exact List.map_congr_left hop
  have hlast : ∀ d, ((db.history c x).map ChangelogRow.change).getLast? = some d →
      ∃ r, (db.history c x).getLast? = some r ∧ r.change = d ∧ r.op = d.op.asStr := by
    intro d hd
    rw [List.getLast?_map, Option.map_eq_some_iff] at hd
    obtain ⟨r, hr, rfl⟩ := hd
    exact ⟨r, hr, rfl, hop r (List.mem_of_getLast? hr)⟩
  have hfilter : ((db.history c x).map ChangelogRow.change).filter (·.op = .insert) =
      ((db.history c x).filter (·.op == "insert")).map ChangelogRow.change := by
    rw [List.filter_map]
    congr 1
    apply List.filter_congr
    intro r hr
    rw [Function.comp_apply, hop r hr]
    cases r.change.op <;> decide
  cases hfind : db.find c x with
  | none =>
    rw [hfind] at h
    obtain ⟨hlife, hdel⟩ := h
    refine ⟨⟨_, hlife, hops ▸ List.prefix_refl _⟩, ?_, by simp [hfind]⟩
    refine iff_of_false (by simp [hfind]) ?_
    rintro ⟨r, hr, hlive⟩
    rw [hop r (List.mem_of_getLast? hr), asStr_live] at hlive
    exact hlive (hdel r.change (by rw [List.getLast?_map, hr]; rfl))
  | some row =>
    rw [hfind] at h
    obtain ⟨⟨w, hw, k, hk⟩, ⟨d, hd, hne, hdoc, hts⟩, first, hfirst, hcreated⟩ := h
    obtain ⟨r, hr, rfl, hrop⟩ := hlast d hd
    refine ⟨?_, ?_, ?_⟩
    · refine ⟨_, mem_lifecycle_append hw (life_mem k), ?_⟩
      rw [hops, hk, List.map_append, List.map_append, List.prefix_append_right_inj]
      simp
    · exact iff_of_true (by simp [hfind]) ⟨r, hr, hrop ▸ (asStr_live _).mpr hne⟩
    · rintro row' hrow
      rw [hfind, Option.some.injEq] at hrow
      subst hrow
      rw [hfilter, List.getLast?_map, Option.map_eq_some_iff] at hfirst
      obtain ⟨r', hr', rfl⟩ := hfirst
      exact ⟨r, r', hr, hdoc, hts, hr', hcreated⟩

/-! ## One op -/

variable {D D' D₁ : Database} {env : Env} {cmd : Command} {reply : Reply} {ev : ChangeEvent}
  {coll id : String} {ctx : Ctx} {names : Set String} {batch : List (Command × Env)}

/-- From `D` to `D'` one change is logged. It takes the document it names from what it was to what
it is, and no other document is touched. -/
structure Changed (D D' : Database) (c : Change) (ev : ChangeEvent) : Prop where
  log : D'.changelog = insertChangelog D.changelog c
  event : ev = c.event (nextSeq D.changelog)
  self : ∀ n, fold n = fold c.collection → follow (D.find n c.docId) c = some (D'.find n c.docId)
  other : ∀ n x, ¬ (fold n = fold c.collection ∧ x = c.docId) → D'.find n x = D.find n x

theorem Written.changed {base : Database} {f : List DocRow → List DocRow} {c : Change}
    (h : Written base D' coll f c ev) (hcoll : c.collection = coll)
    (hrows : ∀ n, base.rows n = D.rows n) (hlog : base.changelog = D.changelog)
    (hself : follow (D.find coll c.docId) c =
      some ((f (D.rows coll)).find? fun r => r.id == c.docId))
    (hother : ∀ x, x ≠ c.docId → (f (D.rows coll)).find? (fun r => r.id == x) = D.find coll x) :
    Changed D D' c ev := by
  subst hcoll
  refine ⟨by rw [h.log, hlog], by rw [h.event, hlog], ?_, ?_⟩
  · intro n hn
    rw [h.find, if_pos hn, hrows, rows_congr D hn, find_congr D hn, hself]
  · intro n x hne
    rw [h.find]
    split
    · next hn => rw [hrows, rows_congr D hn, find_congr D hn, hother x fun hx => hne ⟨hn, hx⟩]
    · rw [Database.find, hrows, Database.find]

theorem Effect.changed (h : Effect env cmd D reply ev D') :
    ∃ c : Change, c.collection = cmd.collection ∧ Changed D D' c ev ∧ FlagTrue reply ev ∧
      reply.isAck = true := by
  cases cmd with
  | create coll doc =>
    obtain ⟨hnew, rfl, hw⟩ := h
    refine ⟨_, rfl, hw.changed rfl (rows_ensureCollection D coll)
      (ensureCollection_changelog D coll) ?_ ?_, by simp [FlagTrue], rfl⟩
    · rw [hnew, find_appendRow _ (find_none.mp hnew), if_pos rfl]
      rfl
    · intro x hx
      rw [find_appendRow _ (find_none.mp hnew), if_neg hx]
      rfl
  | replace coll id doc =>
    simp only [Effect] at h
    cases hfind : D.find coll id with
    | none =>
      simp only [hfind] at h
      obtain ⟨rfl, hw⟩ := h
      refine ⟨_, rfl, hw.changed rfl (rows_ensureCollection D coll)
        (ensureCollection_changelog D coll) ?_ ?_, ?_, rfl⟩
      · simp only [hfind]
        rw [find_appendRow _ (find_none.mp hfind), if_pos rfl]
        rfl
      · intro x hx
        rw [find_appendRow _ (find_none.mp hfind), if_neg hx]
        rfl
      · rintro rec created ⟨⟩
        simp [hw.event, Change.event]
    | some old =>
      simp only [hfind] at h
      obtain ⟨rfl, hw⟩ := h
      refine ⟨_, rfl, hw.changed rfl (rows_ensureCollection D coll)
        (ensureCollection_changelog D coll) ?_ ?_, ?_, rfl⟩
      · have hold : (D.rows coll).find? (fun r => r.id == id) = some old := hfind
        simp only [hfind]
        rw [find_updateRow, if_pos rfl, hold]
        rfl
      · intro x hx
        rw [find_updateRow, if_neg hx]
        rfl
      · rintro rec created ⟨⟩
        simp [hw.event, Change.event]
  | delete coll id =>
    obtain ⟨hp, rfl, hw⟩ := h
    rw [Database.present, Bool.and_eq_true, Option.isSome_iff_exists] at hp
    obtain ⟨-, old, hold⟩ := hp
    refine ⟨_, rfl, hw.changed rfl (fun _ => rfl) rfl ?_ ?_, by simp [FlagTrue], rfl⟩
    · simp only [hold]
      rw [find_removeRow, if_pos rfl]
      rfl
    · intro x hx
      rw [find_removeRow, if_neg hx]
      rfl

/-! ## From one op to all runs -/

theorem Replayed.changed {c : Change} (h : Replayed names D) (hmem : c.collection ∈ names)
    (hnames : ∀ a ∈ names, ∀ b ∈ names, fold a = fold b → a = b) (hc : Changed D D' c ev) :
    Replayed names D' := by
  refine ⟨?_, ?_, ?_⟩
  · rw [hc.log, insertChangelog]
    exact h.increasing.append fun r hr => lt_nextSeq hr
  · intro r hr
    rw [hc.log, insertChangelog, List.mem_append, List.mem_singleton] at hr
    rcases hr with hr | rfl
    · exact h.spelled r hr
    · simp [Change.row]
  · intro n hn x
    have hold := h.replay n hn x
    rw [Database.history, hc.log, insertChangelog, List.filter_append, ← Database.history]
    by_cases hself : c.collection = n ∧ c.docId = x
    · obtain ⟨rfl, rfl⟩ := hself
      have hrow : [c.row (nextSeq D.changelog)].filter
          (fun r => r.collection == c.collection && r.docId == c.docId) =
          [c.row (nextSeq D.changelog)] := by simp [Change.row]
      rw [hrow, List.map_append, List.foldlM_append, hold]
      simpa using hc.self _ rfl
    · have hrow : [c.row (nextSeq D.changelog)].filter
          (fun r => r.collection == n && r.docId == x) = [] := by simpa [Change.row] using hself
      rw [hrow, List.append_nil, hold, hc.other]
      rintro ⟨hfold, rfl⟩
      exact hself ⟨(hnames n hn _ hmem hfold).symm, rfl⟩

theorem Serial.replayed {replies : List Reply} {evs : List ChangeEvent}
    (h : Serial D batch replies evs D') (hrep : Replayed names D)
    (hnames : ∀ a ∈ names, ∀ b ∈ names, fold a = fold b → a = b)
    (hbatch : ∀ op ∈ batch, op.1.collection ∈ names) : Replayed names D' := by
  induction h with
  | nil D => exact hrep
  | failed e _ ih => exact ih hrep (List.forall_mem_cons.mp hbatch).2
  | missed _ _ ih => exact ih hrep (List.forall_mem_cons.mp hbatch).2
  | acked heff _ ih =>
    obtain ⟨hop, hrest⟩ := List.forall_mem_cons.mp hbatch
    obtain ⟨c, hcoll, hc, -, -⟩ := heff.changed
    exact ih (hrep.changed (hcoll ▸ hop) hnames hc) hrest

theorem Serial.flags {replies : List Reply} {evs : List ChangeEvent}
    (h : Serial D batch replies evs D') :
    D'.changelog.map ChangelogRow.toEvent = D.changelog.map ChangelogRow.toEvent ++ evs ∧
      List.Forall₂ FlagTrue (replies.filter Reply.isAck) evs := by
  induction h with
  | nil D => exact ⟨by simp, .nil⟩
  | @failed _ _ cmd _ _ _ _ e _ ih =>
    refine ⟨ih.1, ?_⟩
    rw [List.filter_cons_of_neg (by cases cmd <;> simp [Command.error, Reply.isAck])]
    exact ih.2
  | missed _ _ ih => exact ih
  | acked heff _ ih =>
    obtain ⟨c, -, hc, hflag, hack⟩ := heff.changed
    refine ⟨?_, ?_⟩
    · rw [ih.1, hc.log, hc.event, insertChangelog, List.map_append, List.map_cons, row_toEvent]
      simp
    · rw [List.filter_cons_of_pos hack]
      exact .cons hflag ih.2

/-- When no failure takes the transaction back, a batch commits all it acknowledges, or
leaves the database alone and acknowledges nothing. -/
theorem runBatch_calm (ctx : Ctx) (batch : List (Command × Env)) (D : Database)
    {faults : List Fault} (hkeep : KeepsTransaction ctx batch (.open D faults)) :
    let o := runBatch ctx batch (.open D faults)
    Truthful D batch o ∨
      (o.conn.committed = D ∧ o.events = [] ∧ o.replies.filter Reply.isAck = []) := by
  rcases runBatch_cases ctx batch D hkeep with ⟨-, htrue⟩ | ⟨-, hsame, hevents, hserial⟩
  · exact Or.inl htrue
  · exact Or.inr ⟨hsame, hevents, List.forall₂_nil_right_iff.mp hserial.flags.2⟩

theorem processBatch_conn (hret : ctx.retention ≤ 0) (batch : List (Command × Env))
    (conn : Conn Database) : processBatch ctx batch conn = runBatch ctx batch conn := by
  simp [processBatch, trim, hret]

theorem trim_committed (ctx : Ctx) (conn : Conn Database) :
    (trim ctx conn).committed = conn.committed ∨
    (trim ctx conn).committed = { conn.committed with
      changelog := trimChangelog ctx.retention conn.committed.changelog } := by
  unfold trim
  split
  · exact Or.inl rfl
  · obtain ⟨fault, fs, hnext, -⟩ := nextFault_cases conn
    unfold Sql.write
    rw [hnext]
    cases fault with
    | statement | rollback => exact Or.inl rfl
    | none => cases conn.txn <;> simp [Conn.put, Conn.current]

theorem Reached.replayed (hret : ctx.retention ≤ 0)
    (hnames : ∀ a ∈ names, ∀ b ∈ names, fold a = fold b → a = b) (h : Reached ctx names D) :
    Replayed names D := by
  induction h with
  | empty => exact ⟨List.Pairwise.nil, by simp [Database.empty], fun _ _ _ => rfl⟩
  | batch batch faults _ hbatch hkeep ih =>
    rw [processBatch_conn hret]
    rcases runBatch_calm ctx batch _ hkeep with htrue | ⟨hsame, -, -⟩
    · exact htrue.replayed ih hnames hbatch
    · rw [hsame]
      exact ih

/-- The change log is a faithful history of the tables, and the flag of a replace is true. -/
theorem changelog_history (hret : ctx.retention ≤ 0)
    (hnames : ∀ a ∈ names, ∀ b ∈ names, fold a = fold b → a = b) (h : Reached ctx names D) :
    Increasing (·.seq) D.changelog ∧ (∀ c ∈ names, ∀ x, History D c x) ∧
      ∀ (batch : List (Command × Env)) (faults : List Fault),
        KeepsTransaction ctx batch (.open D faults) →
        let o := processBatch ctx batch (.open D faults)
        o.conn.committed.changelog.map ChangelogRow.toEvent =
            D.changelog.map ChangelogRow.toEvent ++ o.events ∧
          List.Forall₂ FlagTrue (o.replies.filter Reply.isAck) o.events := by
  have hrep := h.replayed hret hnames
  refine ⟨hrep.increasing, ?_, ?_⟩
  · intro c hc x
    exact history_of_life hrep.spelled (life_of_follow (hrep.replay c hc x))
  · intro batch faults hkeep
    simp only [processBatch_conn hret]
    rcases runBatch_calm ctx batch D hkeep with htrue | ⟨hsame, hevents, hacks⟩
    · exact htrue.flags
    · rw [hsame, hevents, hacks]
      exact ⟨by simp, .nil⟩

def replaceAndDelete : List (Command × Env) :=
  [(.replace "notes" "a" (.bool true), envAt "x" 3), (.delete "notes" "b", envAt "y" 4)]

theorem reached_notes : ∃ D, Reached noLimits {"notes"} D ∧ D.changelog.length = 4 := by
  refine ⟨_, .batch replaceAndDelete [] (.batch twoCreates [.none, .none, .statement] (.batch
    twoCreates [] .empty ?_ (keeps_of_calm _ _ _ (by decide))) ?_ (keeps_of_calm _ _ _ (by decide)))
    ?_ (keeps_of_calm _ _ _ (by decide)), rfl⟩ <;>
  · intro op hop
    simp only [twoCreates, replaceAndDelete, List.mem_cons, List.not_mem_nil, or_false] at hop
    rcases hop with rfl | rfl <;> exact rfl

/-- Two creates, the same again with a failing statement and with ids that are taken, then a
replace and a delete. -/
theorem changelog_history_notes :
    ∃ D, D.changelog.length = 4 ∧ History D "notes" "a" ∧ History D "notes" "b" := by
  obtain ⟨D, hD, hlen⟩ := reached_notes
  have hnames : ∀ a ∈ ({"notes"} : Set String), ∀ b ∈ ({"notes"} : Set String),
      fold a = fold b → a = b := by
    rintro a rfl b rfl -
    rfl
  obtain ⟨-, hhist, -⟩ := changelog_history (by decide) hnames hD
  exact ⟨D, hlen, hhist "notes" rfl "a", hhist "notes" rfl "b"⟩

end TinyLord
