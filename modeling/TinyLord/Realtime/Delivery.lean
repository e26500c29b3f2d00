import Mathlib.Data.List.Induction
import TinyLord.Realtime.Subscribe

/-!
# What a subscriber gets to see

`LogInv` ties the log, the channel and the events ever committed together. `StreamInv` is
what the stream keeps about one point of the sequence: every wanted event above it that the
stream has gone past was yielded, or a resync stands in its place.
-/

open Lib.Run Lib.Broadcast Lib.Sequence

namespace TinyLord.Realtime

/-! ## What the statements are about -/

def changes (out : List Sse) : List ChangeEvent :=
  out.filterMap fun
    | .change ev => some ev
    | .resync => none

/-- An event of the subscriber's collection that passes its filter. -/
def Wanted (rq : Request) (ev : ChangeEvent) : Prop :=
  ev.collection = rq.coll ∧ eventPasses ev.op ev.doc rq.filter = true

/-- A resync stands where event number `n` would: the changes before it are older, and the
changes after it are newer. -/
def Bridged (out : List Sse) (n : Int) : Prop :=
  ∃ before after, out = before ++ .resync :: after ∧
    (∀ ev ∈ changes before, ev.seq < n) ∧ ∀ ev ∈ changes after, n < ev.seq

def Writer.pending : Writer → List ChangeEvent
  | .idle => []
  | .broadcasting events => events

/-- A server that has just opened a database: any log, no subscriber and nothing broadcast
yet. The log holds the newest of the events committed before. -/
structure Start (rq : Request) (s : Hub) : Prop where
  increasing : Increasing (·.seq) s.committed
  log : ∃ cut, s.changelog.map ChangelogRow.toEvent = above (·.seq) cut s.committed
  newest : s.changelog = [] → s.committed = []
  channel : s.channel = channel (max rq.capacity 1)
  writer : s.writer = .idle
  subscriber : s.subscriber = .idle
  out : s.out = []
  overflowed : s.overflowed = false

@[simp] theorem changes_append (xs ys : List Sse) : changes (xs ++ ys) = changes xs ++ changes ys :=
  List.filterMap_append

@[simp] theorem changes_nil : changes [] = [] := rfl
@[simp] theorem changes_resync : changes [.resync] = [] := rfl
@[simp] theorem changes_change (ev : ChangeEvent) : changes [.change ev] = [ev] := rfl

@[simp] theorem changes_map (evs : List ChangeEvent) : changes (evs.map .change) = evs := by
  induction evs with
  | nil => rfl
  | cons ev evs ih => simp [changes]

@[simp] theorem changes_openStream (plan : ResumePlan) : changes (openStream plan) = plan.replay := by
  rw [openStream, changes_append, changes_map]
  cases plan.resync <;> rfl

/-! ## Gaps in an output -/

theorem bridged_resync (out : List Sse) (n : Int) (h : ∀ ev ∈ changes out, ev.seq < n) :
    Bridged (out ++ [.resync]) n :=
  ⟨out, [], rfl, h, by simp⟩

theorem Bridged.append {out : List Sse} {n : Int} (h : Bridged out n) (items : List Sse)
    (hnew : ∀ ev ∈ changes items, n < ev.seq) : Bridged (out ++ items) n := by
  obtain ⟨before, after, rfl, hb, ha⟩ := h
  refine ⟨before, after ++ items, by simp, hb, ?_⟩
  intro ev hev
  rw [changes_append, List.mem_append] at hev
  rcases hev with hev | hev
  · exact ha ev hev
  · exact hnew ev hev

/-! ## The log and the channel -/

/-- The part of the state the writer owns: the log is the newest part of what was ever
committed, and what was committed is what was broadcast, then what still will be. -/
structure LogInv (s : Hub) : Prop where
  increasing : Increasing (·.seq) s.committed
  log : ∃ cut, s.changelog.map ChangelogRow.toEvent = above (·.seq) cut s.committed
  newest : s.changelog = [] → s.committed = []
  sent : ∃ old, s.committed = old ++ s.channel.sent ++ s.writer.pending

def IsLogOf (log : List ChangelogRow) (committed : List ChangeEvent) : Prop :=
  Increasing (·.seq) committed ∧
  (∃ cut, log.map ChangelogRow.toEvent = above (·.seq) cut committed) ∧
  (log = [] → committed = [])

theorem IsLogOf.maxSeq {log : List ChangelogRow} {committed : List ChangeEvent}
    (h : IsLogOf log committed) : maxSeq log = maxKey (·.seq) committed := by
  obtain ⟨-, ⟨cut, hcut⟩, hnil⟩ := h
  rw [TinyLord.maxSeq, ← maxKey_map (fun e : ChangeEvent => e.seq) ChangelogRow.toEvent
    toEvent_seq log]
  by_cases hlog : log = []
  · rw [hnil hlog, hlog]
    rfl
  · rw [hcut]
    apply maxKey_above
    rw [← hcut]
    simpa using hlog

theorem IsLogOf.lt_nextSeq {log : List ChangelogRow} {committed : List ChangeEvent}
    (h : IsLogOf log committed) {ev : ChangeEvent} (hev : ev ∈ committed) :
    ev.seq < nextSeq log := by
  have : ev.seq ≤ maxKey (·.seq) committed := le_maxKey (·.seq) hev
  rw [nextSeq, h.maxSeq]
  omega

theorem IsLogOf.insert {log : List ChangelogRow} {committed : List ChangeEvent}
    (h : IsLogOf log committed) (c : Change) :
    IsLogOf (insertChangelog log c) (committed ++ [c.event (nextSeq log)]) := by
  have hlt : ∀ ev ∈ committed, ev.seq < nextSeq log := fun ev hev => h.lt_nextSeq hev
  obtain ⟨hinc, ⟨cut, hcut⟩, hnil⟩ := h
  refine ⟨hinc.append hlt, ?_, by simp [insertChangelog]⟩
  -- The new row is the newest, so a cut that keeps it is at most `maxSeq log`.
  refine ⟨min cut (nextSeq log - 1), ?_⟩
  have hold : above (·.seq) (min cut (nextSeq log - 1)) committed = above (·.seq) cut committed := by
    by_cases hle : cut ≤ nextSeq log - 1
    · rw [min_eq_left hle]
    · -- Nothing is above `cut`, so the log is empty and nothing was ever committed.
      have hempty : above (fun e : ChangeEvent => e.seq) cut committed = [] := by
        rw [List.eq_nil_iff_forall_not_mem]
        intro ev hev
        have := hlt ev (mem_above.mp hev).1
        have := (mem_above.mp hev).2
        omega
      rw [hempty, List.map_eq_nil_iff] at hcut
      rw [hnil hcut]
      rfl
  rw [insertChangelog, List.map_append, above_append, hold, hcut]
  simp only [List.map_cons, List.map_nil, row_toEvent, above]
  rw [List.filter_cons_of_pos]
  · rfl
  · exact decide_eq_true (by rw [event_seq]; omega)

theorem IsLogOf.trim {log : List ChangelogRow} {committed : List ChangeEvent}
    (h : IsLogOf log committed) (retention : Int) :
    IsLogOf (trimChangelog retention log) committed := by
  obtain ⟨hinc, ⟨cut, hcut⟩, hnil⟩ := h
  refine ⟨hinc, ?_, ?_⟩
  · rw [trimChangelog_eq]
    split
    · exact ⟨cut, hcut⟩
    · refine ⟨max (TinyLord.maxSeq log - retention) cut, ?_⟩
      rw [map_above (fun e : ChangeEvent => e.seq) _ toEvent_seq, hcut, above_above]
  · intro he
    by_cases hlog : log = []
    · exact hnil hlog
    · exact absurd he (trimChangelog_ne_nil retention log hlog)

theorem commitBatch_spec (log : List ChangelogRow) (committed : List ChangeEvent)
    (batch : List Change) (h : IsLogOf log committed) :
    IsLogOf (commitBatch log batch).1 (committed ++ (commitBatch log batch).2) ∧
      ∀ ev ∈ (commitBatch log batch).2, maxKey (·.seq) committed < ev.seq := by
  induction batch generalizing log committed with
  | nil => simpa [commitBatch] using h
  | cons c cs ih =>
    obtain ⟨hlog, hgt⟩ := ih _ _ (h.insert c)
    rw [maxKey_append (fun e : ChangeEvent => e.seq)
      (fun ev hev => le_of_lt (h.lt_nextSeq hev))] at hgt
    have hmax := h.maxSeq
    refine ⟨by simpa [commitBatch] using hlog, ?_⟩
    intro ev hev
    rw [commitBatch, List.mem_cons] at hev
    rcases hev with rfl | hev
    · rw [event_seq, nextSeq]
      omega
    · have := hgt ev hev
      rw [event_seq, nextSeq] at this
      omega

/-! ## The writer keeps the log -/

theorem LogInv.isLogOf {s : Hub} (h : LogInv s) : IsLogOf s.changelog s.committed :=
  ⟨h.increasing, h.log, h.newest⟩

theorem LogInv.maxSeq {s : Hub} (h : LogInv s) :
    maxSeq s.changelog = maxKey (·.seq) s.committed := h.isLogOf.maxSeq

theorem LogInv.sent_mem {s : Hub} (h : LogInv s) {ev : ChangeEvent} (hev : ev ∈ s.channel.sent) :
    ev ∈ s.committed := by
  obtain ⟨old, ho⟩ := h.sent
  rw [ho]
  simp [hev]

theorem stepWriter_cases {rq : Request} {s s' : Hub} {a : Act} (h : stepWriter rq s a = some s') :
    (∃ batch, s.writer = .idle ∧ s' = { s with
      changelog := (commitBatch s.changelog batch).1
      writer := if (commitBatch s.changelog batch).2.isEmpty then .idle
        else .broadcasting (commitBatch s.changelog batch).2
      committed := s.committed ++ (commitBatch s.changelog batch).2 }) ∨
    (∃ ev evs, s.writer = .broadcasting (ev :: evs) ∧
      s' = { s with channel := s.channel.send ev, writer := .broadcasting evs }) ∨
    (a = .trim ∧ s.writer = .broadcasting [] ∧
      s' = { s with changelog := trimChangelog rq.retention s.changelog, writer := .idle }) ∨
    (s.writer = .broadcasting [] ∧ s' = { s with writer := .idle }) := by
  cases a with
  | commit batch =>
    cases hw : s.writer with
    | idle => exact Or.inl ⟨batch, rfl, by simpa [stepWriter, hw] using h.symm⟩
    | broadcasting evs => simp [stepWriter, hw] at h
  | broadcast =>
    match hw : s.writer with
    | .idle => simp [stepWriter, hw] at h
    | .broadcasting [] => simp [stepWriter, hw] at h
    | .broadcasting (ev :: evs) =>
      exact Or.inr (Or.inl ⟨ev, evs, rfl, by simpa [stepWriter, hw] using h.symm⟩)
  | trim =>
    match hw : s.writer with
    | .idle => simp [stepWriter, hw] at h
    | .broadcasting [] =>
      exact Or.inr (Or.inr (Or.inl ⟨rfl, rfl, by simpa [stepWriter, hw] using h.symm⟩))
    | .broadcasting (ev :: evs) => simp [stepWriter, hw] at h
  | trimFailed =>
    match hw : s.writer with
    | .idle => simp [stepWriter, hw] at h
    | .broadcasting [] =>
      exact Or.inr (Or.inr (Or.inr ⟨rfl, by simpa [stepWriter, hw] using h.symm⟩))
    | .broadcasting (ev :: evs) => simp [stepWriter, hw] at h
  | attach _ | readMax | readMin | replay | recv => simp [stepWriter] at h

theorem LogInv.stepWriter {rq : Request} {s s' : Hub} {a : Act} (h : LogInv s)
    (hs : stepWriter rq s a = some s') : LogInv s' := by
  rcases stepWriter_cases hs with ⟨batch, hw, rfl⟩ | ⟨ev, evs, hw, rfl⟩ | ⟨-, hw, rfl⟩ | ⟨hw, rfl⟩
  · obtain ⟨⟨hinc, hlog, hnew⟩, -⟩ := commitBatch_spec _ _ batch h.isLogOf
    obtain ⟨old, ho⟩ := h.sent
    refine ⟨hinc, hlog, hnew, old, ?_⟩
    rw [hw, Writer.pending, List.append_nil] at ho
    cases hb : (commitBatch s.changelog batch).2 with
    | nil => simpa [Writer.pending] using ho
    | cons ev evs => simp [Writer.pending, ho]
  · obtain ⟨old, ho⟩ := h.sent
    refine ⟨h.increasing, h.log, h.newest, old, ?_⟩
    simpa [hw, Writer.pending] using ho
  · obtain ⟨hinc, hlog, hnew⟩ := h.isLogOf.trim rq.retention
    obtain ⟨old, ho⟩ := h.sent
    refine ⟨hinc, hlog, hnew, old, ?_⟩
    simpa [hw, Writer.pending] using ho
  · obtain ⟨old, ho⟩ := h.sent
    refine ⟨h.increasing, h.log, h.newest, old, ?_⟩
    simpa [hw, Writer.pending] using ho

/-! ## The stream -/

/-- The committed events that a receiver at position `next` has still to get. -/
def Hub.ahead (s : Hub) (next : Nat) : List ChangeEvent :=
  s.channel.sent.drop next ++ s.writer.pending

/-- What the loop of `event_stream` keeps. `base` is any number: a change above it is the committed
event, and each wanted event above it was yielded, or is bridged by a resync, or is ahead of the
receiver and above the watermark. -/
structure StreamInv (rq : Request) (s : Hub) (next : Nat) (maxSent base : Int) : Prop where
  position : next ≤ s.channel.sent.length
  mark : maxSent ≤ maxKey (·.seq) s.committed
  below : ∀ ev ∈ changes s.out, ev.seq ≤ maxSent
  genuine : ∀ ev ∈ changes s.out, base < ev.seq → ev ∈ s.committed ∧ Wanted rq ev
  increasing : Increasing (·.seq) (changes s.out)
  cover : ∀ ev ∈ s.committed, Wanted rq ev → base < ev.seq →
    ev ∈ changes s.out ∨ Bridged s.out ev.seq ∨ (maxSent < ev.seq ∧ ev ∈ s.ahead next)

variable {rq : Request} {s s' : Hub} {next : Nat} {maxSent base : Int}

theorem le_maxKey_seq {evs : List ChangeEvent} {ev : ChangeEvent} (h : ev ∈ evs) :
    ev.seq ≤ maxKey (·.seq) evs := le_maxKey (·.seq) h

theorem LogInv.split (h : LogInv s) (next : Nat) :
    ∃ before, s.committed = before ++ s.ahead next := by
  obtain ⟨old, ho⟩ := h.sent
  refine ⟨old ++ s.channel.sent.take next, ?_⟩
  rw [ho, Hub.ahead, List.append_assoc old (s.channel.sent.take next), ← List.append_assoc _ _
    s.writer.pending, List.take_append_drop, List.append_assoc]

theorem LogInv.not_ahead (h : LogInv s) {e : ChangeEvent} (he : e ∈ s.channel.sent.take next) :
    e ∉ s.ahead next := by
  intro hah
  obtain ⟨old, ho⟩ := h.sent
  have hinc := h.increasing
  rw [ho, ← List.take_append_drop next s.channel.sent, List.append_assoc, List.append_assoc,
    Increasing, List.pairwise_append, List.pairwise_append] at hinc
  obtain ⟨-, ⟨-, -, hlt⟩, -⟩ := hinc
  exact lt_irrefl _ (hlt e he e hah)

theorem LogInv.ahead_cons (h : LogInv s) {ev : ChangeEvent} (hev : s.channel.sent[next]? = some ev) :
    s.ahead next = ev :: s.ahead (next + 1) ∧ (∀ e ∈ s.ahead (next + 1), ev.seq < e.seq) ∧
      ∀ e ∈ s.committed, ev.seq < e.seq → e ∈ s.ahead (next + 1) := by
  obtain ⟨hn, rfl⟩ := List.getElem?_eq_some_iff.mp hev
  have hcons : s.ahead next = s.channel.sent[next] :: s.ahead (next + 1) := by
    rw [Hub.ahead, List.drop_eq_getElem_cons hn, List.cons_append, Hub.ahead]
  obtain ⟨before, hb⟩ := h.split next
  have hinc := h.increasing
  rw [hb, hcons, Increasing, List.pairwise_append, List.pairwise_cons] at hinc
  obtain ⟨-, ⟨hrest, -⟩, hbefore⟩ := hinc
  refine ⟨hcons, hrest, ?_⟩
  intro e he hlt
  rw [hb, hcons, List.mem_append, List.mem_cons] at he
  rcases he with he | rfl | he
  · have := hbefore e he _ List.mem_cons_self
    omega
  · omega
  · exact he

theorem StreamInv.stepWriter {a : Act} (h : StreamInv rq s next maxSent base) (hl : LogInv s)
    (hs : stepWriter rq s a = some s') : StreamInv rq s' next maxSent base := by
  rcases stepWriter_cases hs with ⟨batch, hw, rfl⟩ | ⟨ev, evs, hw, rfl⟩ | ⟨-, hw, rfl⟩ | ⟨hw, rfl⟩
  · obtain ⟨hlog, hgt⟩ := commitBatch_spec _ _ batch hl.isLogOf
    have hmark := h.mark
    have hpend : ∀ w : Writer, w = (if (commitBatch s.changelog batch).2.isEmpty then .idle
        else .broadcasting (commitBatch s.changelog batch).2) →
        w.pending = (commitBatch s.changelog batch).2 := by
      rintro w rfl
      cases (commitBatch s.changelog batch).2 <;> rfl
    refine ⟨h.position, ?_, h.below, ?_, h.increasing, ?_⟩
    · cases hb : (commitBatch s.changelog batch).2 with
      | nil => simpa [hb] using h.mark
      | cons ev evs =>
        have hev : ev ∈ (commitBatch s.changelog batch).2 := by simp [hb]
        have hle := le_maxKey_seq (List.mem_append_right s.committed hev)
        have := hgt ev hev
        rw [hb] at hle
        simp only
        omega
    · intro ev hev hbase
      exact ⟨List.mem_append_left _ (h.genuine ev hev hbase).1, (h.genuine ev hev hbase).2⟩
    · intro ev hev hwant hbase
      rw [Hub.ahead, hpend _ rfl]
      rcases List.mem_append.mp hev with hev | hev
      · rcases h.cover ev hev hwant hbase with hout | hbr | ⟨hlt, hah⟩
        · exact Or.inl hout
        · exact Or.inr (Or.inl hbr)
        · rw [Hub.ahead, hw, Writer.pending, List.append_nil] at hah
          exact Or.inr (Or.inr ⟨hlt, List.mem_append_left _ hah⟩)
      · have := hgt ev hev
        exact Or.inr (Or.inr ⟨by omega, List.mem_append_right _ hev⟩)
  · have hahead : Hub.ahead { s with channel := s.channel.send ev, writer := .broadcasting evs }
        next = s.ahead next := by
      simp [Hub.ahead, hw, Writer.pending, List.drop_append_of_le_length h.position]
    refine ⟨?_, h.mark, h.below, h.genuine, h.increasing, ?_⟩
    · rw [Channel.send_sent, List.length_append]
      have := h.position
      omega
    · rw [hahead]
      exact h.cover
  · refine ⟨h.position, h.mark, h.below, h.genuine, h.increasing, ?_⟩
    simpa [Hub.ahead, hw, Writer.pending] using h.cover
  · refine ⟨h.position, h.mark, h.below, h.genuine, h.increasing, ?_⟩
    simpa [Hub.ahead, hw, Writer.pending] using h.cover

theorem onEvent_cases (rq : Request) (maxSent : Int) (ev : ChangeEvent) :
    (onEvent rq maxSent ev = (maxSent, []) ∧ (ev.seq ≤ maxSent ∨ ¬ Wanted rq ev)) ∨
    (onEvent rq maxSent ev = (ev.seq, []) ∧ maxSent < ev.seq ∧ ¬ Wanted rq ev) ∨
    (onEvent rq maxSent ev = (ev.seq, [.change ev]) ∧ maxSent < ev.seq ∧ Wanted rq ev) := by
  unfold onEvent Wanted
  split_ifs with hskip hpass
  · refine Or.inl ⟨rfl, ?_⟩
    rcases hskip with hcoll | hseq
    · exact Or.inr fun hw => hcoll hw.1
    · exact Or.inl hseq
  · exact Or.inr (Or.inr ⟨rfl, by omega, by tauto, hpass⟩)
  · refine Or.inr (Or.inl ⟨rfl, by omega, ?_⟩)
    rintro ⟨-, hp⟩
    exact hpass hp

theorem StreamInv.skip {ev : ChangeEvent} {max' start planned : Int}
    (h : StreamInv rq s next maxSent base) (hl : LogInv s)
    (hev : s.channel.sent[next]? = some ev) (hle : maxSent ≤ max')
    (hmax : max' = maxSent ∨ max' = ev.seq) (hskip : ev.seq ≤ maxSent ∨ ¬ Wanted rq ev) :
    StreamInv rq { s with subscriber := .streaming (next + 1) max' start planned, out := s.out ++ [] }
      (next + 1) max' base := by
  obtain ⟨hcons, hrest, -⟩ := hl.ahead_cons hev
  have hmem := le_maxKey_seq (hl.sent_mem (List.mem_of_getElem? hev))
  have hmark := h.mark
  refine ⟨(List.getElem?_eq_some_iff.mp hev).1, ?_, ?_, ?_, ?_, ?_⟩ <;>
    simp only [List.append_nil]
  · rcases hmax with rfl | rfl <;> assumption
  · intro e he
    exact le_trans (h.below e he) hle
  · exact h.genuine
  · exact h.increasing
  · intro e he hwant hbase
    rcases h.cover e he hwant hbase with hout | hbr | ⟨hlt, hah⟩
    · exact Or.inl hout
    · exact Or.inr (Or.inl hbr)
    · rw [hcons, List.mem_cons] at hah
      rcases hah with rfl | hah
      · rcases hskip with hseq | hnot
        · omega
        · exact absurd hwant hnot
      · have := hrest e hah
        exact Or.inr (Or.inr ⟨by rcases hmax with rfl | rfl <;> omega, hah⟩)

theorem StreamInv.yield {ev : ChangeEvent} {start planned : Int}
    (h : StreamInv rq s next maxSent base) (hl : LogInv s)
    (hev : s.channel.sent[next]? = some ev) (hlt : maxSent < ev.seq) (hwant : Wanted rq ev) :
    StreamInv rq { s with
        subscriber := .streaming (next + 1) ev.seq start planned
        out := s.out ++ [.change ev] } (next + 1) ev.seq base := by
  obtain ⟨hcons, hrest, hnewer⟩ := hl.ahead_cons hev
  have hmem := hl.sent_mem (List.mem_of_getElem? hev)
  refine ⟨(List.getElem?_eq_some_iff.mp hev).1, le_maxKey_seq hmem, ?_, ?_, ?_, ?_⟩ <;>
    simp only [changes_append, changes_change]
  · intro e he
    rw [List.mem_append, List.mem_singleton] at he
    rcases he with he | rfl
    · have := h.below e he
      omega
    · exact le_refl _
  · intro e he hbase
    rw [List.mem_append, List.mem_singleton] at he
    rcases he with he | rfl
    · exact h.genuine e he hbase
    · exact ⟨hmem, hwant⟩
  · apply h.increasing.append
    intro e he
    have := h.below e he
    omega
  · intro e he hw hbase
    rw [List.mem_append, List.mem_singleton]
    rcases lt_trichotomy e.seq ev.seq with hcmp | hcmp | hcmp
    · rcases h.cover e he hw hbase with hout | hbr | ⟨-, hah⟩
      · exact Or.inl (Or.inl hout)
      · refine Or.inr (Or.inl (hbr.append _ ?_))
        simpa using hcmp
      · rw [hcons, List.mem_cons] at hah
        rcases hah with rfl | hah
        · omega
        · have := hrest e hah
          omega
    · exact Or.inl (Or.inr (hl.increasing.eq_of_key he hmem hcmp))
    · exact Or.inr (Or.inr ⟨hcmp, hnewer e he hcmp⟩)

theorem StreamInv.lagged {next' : Nat} {start planned : Int}
    (h : StreamInv rq s next maxSent base) (hpos : next' ≤ s.channel.sent.length) :
    StreamInv rq { s with
        subscriber := .streaming next' maxSent start planned
        out := s.out ++ [.resync] } next' maxSent base := by
  refine ⟨hpos, h.mark, ?_, ?_, ?_, ?_⟩ <;>
    simp only [changes_append, changes_resync, List.append_nil]
  · exact h.below
  · exact h.genuine
  · exact h.increasing
  · intro e he hw hbase
    rcases h.cover e he hw hbase with hout | hbr | ⟨hlt, -⟩
    · exact Or.inl hout
    · exact Or.inr (Or.inl (hbr.append _ (by simp)))
    · refine Or.inr (Or.inl (bridged_resync _ _ ?_))
      intro c hc
      have := h.below c hc
      omega

theorem StreamInv.recv {start planned : Int} (h : StreamInv rq s next maxSent base)
    (hl : LogInv s) (hsub : s.subscriber = .streaming next maxSent start planned)
    (hs : stepSubscriber rq s .recv = some s') :
    ∃ next' maxSent', s'.subscriber = .streaming next' maxSent' start planned ∧
      StreamInv rq s' next' maxSent' base ∧ maxSent ≤ maxSent' ∧
      ∀ e ∈ changes s'.out, e ∈ changes s.out ∨ maxSent < e.seq := by
  simp only [stepSubscriber, hsub] at hs
  rcases s.channel.recv_cases next with ⟨ev, hr, hev⟩ | ⟨k, hr, -⟩ | ⟨hr, -⟩ <;> rw [hr] at hs
  · simp only [Option.some.injEq] at hs
    rcases onEvent_cases rq maxSent ev with ⟨ho, hskip⟩ | ⟨ho, hlt, hnot⟩ | ⟨ho, hlt, hwant⟩ <;>
      rw [ho] at hs <;> subst hs
    · refine ⟨_, _, rfl, h.skip hl hev (le_refl _) (Or.inl rfl) hskip, le_refl _, ?_⟩
      intro e he
      exact Or.inl (by simpa using he)
    · refine ⟨_, _, rfl, h.skip hl hev hlt.le (Or.inr rfl) (Or.inr hnot), hlt.le, ?_⟩
      intro e he
      exact Or.inl (by simpa using he)
    · refine ⟨_, _, rfl, h.yield hl hev hlt hwant, hlt.le, ?_⟩
      intro e he
      simp only [changes_append, changes_change, List.mem_append, List.mem_singleton] at he
      rcases he with he | rfl
      · exact Or.inl he
      · exact Or.inr hlt
  · simp only [Option.some.injEq] at hs
    subst hs
    refine ⟨_, _, rfl, h.lagged (by omega), le_refl _, ?_⟩
    intro e he
    exact Or.inl (by simpa using he)
  · simp at hs

/-! ## The replay -/

/-- What the loop over the rows has built: the watermark covers every row, and the passing rows
are replayed in order. -/
theorem replayPlan_spec (rq : Request) (last : Int) (log : List ChangelogRow) :
    let plan := replayPlan rq last log
    let rows := replayRows rq last log
    plan.resync = false ∧ last ≤ plan.maxSent ∧ (∀ r ∈ rows, r.seq ≤ plan.maxSent) ∧
      (plan.maxSent = last ∨ ∃ r ∈ rows, plan.maxSent = r.seq) ∧
      plan.replay = (rows.map (·.readBack rq.readFloat)).filter
        fun ev => eventPasses ev.op ev.doc rq.filter := by
  have hcoll : ∀ r ∈ replayRows rq last log, r.collection = rq.coll := by
    intro r hr
    have hr := (List.mem_filter.mp hr).2
    rw [Bool.and_eq_true, beq_iff_eq] at hr
    exact hr.2
  simp only [replayPlan]
  generalize replayRows rq last log = rows at hcoll ⊢
  induction rows using List.reverseRecOn with
  | nil => simp
  | append_singleton rows r ih =>
    obtain ⟨h1, h2, h3, h4, h5⟩ := ih fun r' hr' => hcoll r' (List.mem_append_left _ hr')
    have hr : { r.readBack rq.readFloat with collection := rq.coll } = r.readBack rq.readFloat := by
      rw [← hcoll r (by simp)]
      rfl
    rw [List.foldl_append, List.foldl_cons, List.foldl_nil, List.map_append, List.filter_append,
      ← h5]
    generalize rows.foldl (replayRow rq) { resync := false, replay := [], maxSent := last } = plan
      at h1 h2 h3 h4 h5
    have hmax : (replayRow rq plan r).maxSent = max plan.maxSent r.seq := by
      unfold replayRow
      dsimp only
      split <;> rfl
    rw [hmax]
    refine ⟨?_, by omega, ?_, ?_, ?_⟩
    · unfold replayRow
      dsimp only
      split <;> exact h1
    · intro r' hr'
      rw [List.mem_append, List.mem_singleton] at hr'
      rcases hr' with hr' | rfl
      · have := h3 r' hr'
        omega
      · omega
    · rcases le_total plan.maxSent r.seq with hle | hle
      · exact Or.inr ⟨r, by simp, max_eq_right hle⟩
      · rw [max_eq_left hle]
        rcases h4 with h4 | ⟨r', hr', h4⟩
        · exact Or.inl h4
        · exact Or.inr ⟨r', List.mem_append_left _ hr', h4⟩
    · unfold replayRow
      rw [hr]
      by_cases hp : eventPasses (r.readBack rq.readFloat).op (r.readBack rq.readFloat).doc
        rq.filter <;> simp [hp]

end TinyLord.Realtime
