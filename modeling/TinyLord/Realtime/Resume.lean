import TinyLord.Realtime.Delivery

/-!
# Resuming a stream

The steps of `subscribe` up to the plan, and what holds of the stream in every run. Three
conditions on a run matter: that no trim between the read of `MIN(seq)` and the replay query
takes a row the replay needs, that the documents which the query reads back are those that were
written, and that the resume point is not above the log.
-/

open Lib.Run Lib.Broadcast Lib.Sequence

namespace TinyLord.Realtime

variable {rq : Request} {s s' : Hub} {next : Nat} {last base : Int}

/-! ## The three plans -/

theorem mem_replayRows {r : ChangelogRow} {log : List ChangelogRow} :
    r ∈ replayRows rq last log ↔ r ∈ log ∧ last < r.seq ∧ r.collection = rq.coll := by
  rw [replayRows, List.mem_filter, Bool.and_eq_true, decide_eq_true_iff, beq_iff_eq]

theorem mem_replay (ev : ChangeEvent) (log : List ChangelogRow) :
    ev ∈ (replayPlan rq last log).replay ↔
      (∃ r ∈ replayRows rq last log, r.readBack rq.readFloat = ev) ∧
        eventPasses ev.op ev.doc rq.filter = true := by
  obtain ⟨-, -, -, -, hreplay⟩ := replayPlan_spec rq last log
  rw [hreplay, List.mem_filter, List.mem_map]

theorem replay_row {ev : ChangeEvent} {log : List ChangelogRow}
    (h : ev ∈ (replayPlan rq last log).replay) :
    ∃ r ∈ log, last < r.seq ∧ r.seq = ev.seq ∧ r ∈ replayRows rq last log := by
  obtain ⟨⟨r, hr, rfl⟩, -⟩ := (mem_replay ev log).mp h
  obtain ⟨hlog, hlt, -⟩ := mem_replayRows.mp hr
  exact ⟨r, hlog, hlt, rfl, hr⟩

/-- When the documents survive, the replay is the wanted part of the log. -/
theorem mem_replay_of_survives {log : List ChangelogRow}
    (hs : ∀ r ∈ replayRows rq last log, r.survives rq.readFloat = true) (ev : ChangeEvent) :
    ev ∈ (replayPlan rq last log).replay ↔
      ev ∈ log.map ChangelogRow.toEvent ∧ Wanted rq ev ∧ last < ev.seq := by
  rw [mem_replay, List.mem_map]
  constructor
  · rintro ⟨⟨r, hr, rfl⟩, hpass⟩
    rw [readBack_of_survives (hs r hr)] at hpass ⊢
    obtain ⟨hlog, hlt, hcoll⟩ := mem_replayRows.mp hr
    exact ⟨⟨r, hlog, rfl⟩, ⟨hcoll, hpass⟩, hlt⟩
  · rintro ⟨⟨r, hr, rfl⟩, ⟨hcoll, hpass⟩, hlt⟩
    have hrow : r ∈ replayRows rq last log := mem_replayRows.mpr ⟨hr, hlt, hcoll⟩
    exact ⟨⟨r, hrow, readBack_of_survives (hs r hrow)⟩, hpass⟩

theorem IsLogOf.mem_committed {log : List ChangelogRow} {committed : List ChangeEvent}
    (h : IsLogOf log committed) {ev : ChangeEvent} (hev : ev ∈ log.map ChangelogRow.toEvent) :
    ev ∈ committed := by
  obtain ⟨-, ⟨cut, hcut⟩, -⟩ := h
  rw [hcut] at hev
  exact (mem_above.mp hev).1

theorem increasing_replay {log : List ChangelogRow} {committed : List ChangeEvent}
    (h : IsLogOf log committed) : Increasing (·.seq) (replayPlan rq last log).replay := by
  obtain ⟨-, -, -, -, hreplay⟩ := replayPlan_spec rq last log
  obtain ⟨hinc, ⟨cut, hcut⟩, -⟩ := h
  have hlog : Increasing (·.seq) (log.map ChangelogRow.toEvent) := by
    rw [hcut]
    exact hinc.above
  have hrows : log.Pairwise fun a b => a.seq < b.seq := by
    rwa [Increasing, List.pairwise_map] at hlog
  rw [hreplay]
  apply List.Pairwise.filter
  exact List.pairwise_map.mpr (hrows.sublist List.filter_sublist)

theorem freshPlan_inv (hl : LogInv s) (hpos : next ≤ s.channel.sent.length)
    (hbase : maxSeq s.changelog ≤ base) (start : Int) :
    StreamInv rq (s.startStream next (freshPlan (maxSeq s.changelog)) start) next
      (maxSeq s.changelog) base := by
  refine ⟨hpos, le_of_eq hl.maxSeq, ?_, ?_, ?_, ?_⟩ <;>
    simp only [Hub.startStream, changes_openStream, freshPlan]
  · simp
  · simp
  · exact List.Pairwise.nil
  · intro e he _ hgt
    have := le_maxKey_seq he
    rw [← hl.maxSeq] at this
    omega

theorem resyncPlan_inv (hpos : next ≤ s.channel.sent.length) {currentMax : Int}
    (hmax : currentMax ≤ maxKey (·.seq) s.committed) (start : Int) :
    StreamInv rq (s.startStream next (resyncPlan currentMax) start) next currentMax base := by
  refine ⟨hpos, hmax, ?_, ?_, ?_, ?_⟩ <;>
    simp only [Hub.startStream, changes_openStream, resyncPlan]
  · simp
  · simp
  · exact List.Pairwise.nil
  · intro e _ _ _
    exact Or.inr (Or.inl (bridged_resync [] _ (by simp)))

theorem replayPlan_inv (hl : LogInv s) (hpos : next ≤ s.channel.sent.length)
    (hlast : last ≤ maxKey (·.seq) s.committed)
    (hreplay : ∀ e, base < e.seq →
      (e ∈ (replayPlan rq last s.changelog).replay ↔ e ∈ s.committed ∧ Wanted rq e))
    (start : Int) :
    StreamInv rq (s.startStream next (replayPlan rq last s.changelog) start) next
      (replayPlan rq last s.changelog).maxSent base := by
  obtain ⟨-, -, hrows, hmax, -⟩ := replayPlan_spec rq last s.changelog
  refine ⟨hpos, ?_, ?_, ?_, ?_, ?_⟩ <;> simp only [Hub.startStream, changes_openStream]
  · rcases hmax with hmax | ⟨r, hr, hmax⟩ <;> rw [hmax]
    · exact hlast
    · have hmem := List.mem_map_of_mem (f := ChangelogRow.toEvent) (List.mem_filter.mp hr).1
      exact le_maxKey_seq (hl.isLogOf.mem_committed hmem)
  · intro e he
    obtain ⟨r, -, -, hseq, hr⟩ := replay_row he
    rw [← hseq]
    exact hrows r hr
  · intro e he hgt
    exact (hreplay e hgt).mp he
  · exact increasing_replay hl.isLogOf
  · intro e he hwant hgt
    exact Or.inl ((hreplay e hgt).mpr ⟨he, hwant⟩)

/-- When the check against `MIN(seq)` lets the resume point pass, the log still holds every
event after it. -/
theorem LogInv.kept_of_min (hl : LogInv s) {min : Int} (hmin : minSeq s.changelog = some min)
    (hle : min ≤ last + 1) {e : ChangeEvent} (he : e ∈ s.committed) (hlt : last < e.seq) :
    e ∈ s.changelog.map ChangelogRow.toEvent := by
  obtain ⟨cut, hcut⟩ := hl.log
  obtain ⟨r, hr, hseq⟩ := minKey_mem hmin
  have hmem := List.mem_map_of_mem (f := ChangelogRow.toEvent) hr
  rw [hcut] at hmem ⊢
  have := (mem_above.mp hmem).2
  simp only [toEvent_seq] at this
  exact mem_above.mpr ⟨he, by omega⟩

/-! ## What each step of `subscribe` does -/

theorem addOne_le {checks : Bool} {n m : Int} (h : addOne checks n = some m) : m ≤ n + 1 := by
  unfold addOne i64Max at h
  split_ifs at h <;> cases h
  · omega
  · have hmod := Int.bmod_def (n + 1) (2 ^ 64)
    omega

theorem readMax_cases (h : stepSubscriber rq s .readMax = some s') :
    (∃ next, s.subscriber = .attached next none ∧
      s' = s.startStream next (freshPlan (maxSeq s.changelog)) (maxSeq s.changelog)) ∨
    (∃ next last, s.subscriber = .attached next (some last) ∧
      s' = { s with subscriber := .readMax next last (maxSeq s.changelog) }) := by
  match hsub : s.subscriber with
  | .attached next none => exact Or.inl ⟨next, rfl, by simpa [stepSubscriber, hsub] using h.symm⟩
  | .attached next (some last) =>
    exact Or.inr ⟨next, last, rfl, by simpa [stepSubscriber, hsub] using h.symm⟩
  | .idle | .readMax .. | .readMin .. | .streaming .. | .panicked => simp [stepSubscriber, hsub] at h

theorem readMin_cases (h : stepSubscriber rq s .readMin = some s') :
    ∃ next last currentMax, s.subscriber = .readMax next last currentMax ∧
      ((s.changelog = [] ∧ s' = { s with subscriber := .readMin next last }) ∨
      (s.changelog ≠ [] ∧
        ∃ t, t = { s with overflowed := s.overflowed || i64Max < last + 1 } ∧
          (s' = { t with subscriber := .panicked } ∨
          s' = t.startStream next (resyncPlan currentMax) last ∨
          ∃ min, minSeq s.changelog = some min ∧ min ≤ last + 1 ∧
            s' = { t with subscriber := .readMin next last }))) := by
  match hsub : s.subscriber with
  | .readMax next last currentMax =>
    refine ⟨next, last, currentMax, rfl, ?_⟩
    simp only [stepSubscriber, hsub] at h
    cases hmin : minSeq s.changelog with
    | none =>
      rw [hmin] at h
      exact Or.inl ⟨minKey_none.mp hmin, by simpa using h.symm⟩
    | some min =>
      rw [hmin] at h
      refine Or.inr ⟨?_, _, rfl, ?_⟩
      · intro hnil
        rw [minSeq, minKey_none.mpr hnil] at hmin
        cases hmin
      · cases hsum : addOne rq.overflowChecks last with
        | none =>
          rw [hsum] at h
          exact Or.inl (by simpa using h.symm)
        | some sum =>
          simp only [hsum] at h
          have := addOne_le hsum
          split_ifs at h
          · exact Or.inr (Or.inl (by simpa using h.symm))
          · exact Or.inr (Or.inr ⟨min, rfl, by omega, by simpa using h.symm⟩)
  | .idle | .attached .. | .readMin .. | .streaming .. | .panicked => simp [stepSubscriber, hsub] at h

theorem replay_cases (h : stepSubscriber rq s .replay = some s') :
    ∃ next last, s.subscriber = .readMin next last ∧
      s' = s.startStream next (replayPlan rq last s.changelog) last := by
  match hsub : s.subscriber with
  | .readMin next last => exact ⟨next, last, rfl, by simpa [stepSubscriber, hsub] using h.symm⟩
  | .idle | .attached .. | .readMax .. | .streaming .. | .panicked => simp [stepSubscriber, hsub] at h

theorem attach_cases {lastEventId : Option Int}
    (h : stepSubscriber rq s (.attach lastEventId) = some s') :
    s.subscriber = .idle ∧
      s' = { s with subscriber := .attached s.channel.sent.length lastEventId } := by
  match hsub : s.subscriber with
  | .idle => exact ⟨rfl, by simpa [stepSubscriber, hsub, Channel.subscribe] using h.symm⟩
  | .attached .. | .readMax .. | .readMin .. | .streaming .. | .panicked =>
    simp [stepSubscriber, hsub] at h

theorem recv_streaming (h : stepSubscriber rq s .recv = some s') :
    ∃ next maxSent start planned, s.subscriber = .streaming next maxSent start planned := by
  match hsub : s.subscriber with
  | .streaming next maxSent start planned => exact ⟨_, _, _, _, rfl⟩
  | .idle | .attached .. | .readMax .. | .readMin .. | .panicked => simp [stepSubscriber, hsub] at h

theorem stepWriter_frame {a : Act} (h : stepWriter rq s a = some s') :
    s'.subscriber = s.subscriber ∧ s'.out = s.out ∧ s'.overflowed = s.overflowed ∧
      s.channel.sent.length ≤ s'.channel.sent.length := by
  rcases stepWriter_cases h with ⟨batch, -, rfl⟩ | ⟨ev, evs, -, rfl⟩ | ⟨-, -, rfl⟩ | ⟨-, rfl⟩ <;>
    simp

theorem step_cases {a : Act} (h : step rq s a = some s') :
    stepWriter rq s a = some s' ∨ stepSubscriber rq s a = some s' := by
  cases a <;> first | exact Or.inl h | exact Or.inr h

theorem stepSubscriber_frame {a : Act} (h : stepSubscriber rq s a = some s') :
    s'.changelog = s.changelog ∧ s'.channel = s.channel ∧ s'.writer = s.writer ∧
      s'.committed = s.committed := by
  cases a with
  | commit _ | broadcast | trim | trimFailed => simp [stepSubscriber] at h
  | attach _ =>
    obtain ⟨-, rfl⟩ := attach_cases h
    simp
  | readMax =>
    rcases readMax_cases h with ⟨_, -, rfl⟩ | ⟨_, _, -, rfl⟩ <;> simp [Hub.startStream]
  | readMin =>
    obtain ⟨_, _, _, -, ⟨-, rfl⟩ | ⟨-, t, rfl, rfl | rfl | ⟨_, -, -, rfl⟩⟩⟩ := readMin_cases h <;>
      simp [Hub.startStream]
  | replay =>
    obtain ⟨_, _, -, rfl⟩ := replay_cases h
    simp [Hub.startStream]
  | recv =>
    obtain ⟨next, maxSent, start, planned, hsub⟩ := recv_streaming h
    simp only [stepSubscriber, hsub] at h
    rcases s.channel.recv_cases next with ⟨ev, hr, -⟩ | ⟨k, hr, -⟩ | ⟨hr, -⟩ <;> rw [hr] at h <;>
      simp only [Option.some.injEq, reduceCtorEq] at h <;> subst h <;> simp

theorem LogInv.step {a : Act} (hl : LogInv s) (h : step rq s a = some s') : LogInv s' := by
  rcases step_cases h with hw | hsub
  · exact hl.stepWriter hw
  · obtain ⟨hlog, hchan, hwriter, hcom⟩ := stepSubscriber_frame hsub
    obtain ⟨hinc, hl1, hl2, hl3⟩ := hl
    exact ⟨hcom ▸ hinc, hlog ▸ hcom ▸ hl1, hlog ▸ hcom ▸ hl2, hcom ▸ hchan ▸ hwriter ▸ hl3⟩

/-! ## What the writer does to a waiting subscriber -/

theorem commitBatch_log (log : List ChangelogRow) (batch : List Change) :
    (commitBatch log batch).1.map ChangelogRow.toEvent =
      log.map ChangelogRow.toEvent ++ (commitBatch log batch).2 := by
  induction batch generalizing log with
  | nil => simp [commitBatch]
  | cons c cs ih =>
    rw [commitBatch, ih, insertChangelog, List.map_append, List.map_cons, row_toEvent]
    simp

theorem LogInv.maxKey_mono {a : Act} (hl : LogInv s) (h : Realtime.stepWriter rq s a = some s') :
    maxKey (·.seq) s.committed ≤ maxKey (·.seq) s'.committed := by
  rcases stepWriter_cases h with ⟨batch, -, rfl⟩ | ⟨ev, evs, -, rfl⟩ | ⟨-, -, rfl⟩ | ⟨-, rfl⟩
  · obtain ⟨-, hgt⟩ := commitBatch_spec _ _ batch hl.isLogOf
    cases hb : (commitBatch s.changelog batch).2 with
    | nil => simp
    | cons ev evs =>
      have hev : ev ∈ (commitBatch s.changelog batch).2 := by simp [hb]
      have hle := le_maxKey_seq (List.mem_append_right s.committed hev)
      have := hgt ev hev
      rw [hb] at hle
      simp only
      omega
  all_goals exact le_refl _

def Kept (rq : Request) (s : Hub) (last : Int) : Prop :=
  ∀ e ∈ s.committed, Wanted rq e → last < e.seq → e ∈ s.changelog.map ChangelogRow.toEvent

def Subscriber.waiting : Subscriber → Option Int
  | .readMin _ last => some last
  | _ => none

def Subscriber.checking : Subscriber → Option Int
  | .readMax _ last _ => some last
  | _ => none

def Act.isTrim : Act → Bool
  | .trim => true
  | _ => false

def Act.isReadMin : Act → Bool
  | .readMin => true
  | _ => false

def Act.isReplay : Act → Bool
  | .replay => true
  | _ => false

/-- A trim between the read of `MIN(seq)` and the replay query takes no row the query wants. -/
def trimSpares (rq : Request) (s : Hub) (a : Act) : Prop :=
  a.isTrim → ∀ last ∈ s.subscriber.waiting, ∀ r ∈ s.changelog, Wanted rq r.toEvent →
    last < r.seq → 0 < rq.retention → maxSeq s.changelog - rq.retention < r.seq

theorem Kept.stepWriter {a : Act} (hk : Kept rq s last) (hspare : trimSpares rq s a)
    (hsub : s.subscriber = .readMin next last) (h : stepWriter rq s a = some s') :
    Kept rq s' last := by
  intro e he hwant hlt
  rcases stepWriter_cases h with ⟨batch, -, rfl⟩ | ⟨ev, evs, -, rfl⟩ | ⟨rfl, -, rfl⟩ | ⟨-, rfl⟩
  · simp only at he ⊢
    rw [commitBatch_log, List.mem_append]
    rcases List.mem_append.mp he with he | he
    · exact Or.inl (hk e he hwant hlt)
    · exact Or.inr he
  · exact hk e he hwant hlt
  · obtain ⟨r, hr, rfl⟩ := List.mem_map.mp (hk e he hwant hlt)
    apply List.mem_map_of_mem
    rw [mem_trimChangelog]
    exact ⟨hr, hspare rfl last (by rw [hsub]; rfl) r hr hwant hlt⟩
  · exact hk e he hwant hlt

/-! ## No change is lost or repeated -/

def Act.lastEventId : Act → Option Int
  | .attach last => last
  | _ => none

/-- The Last-Event-ID of a client is 0 or more and not above `MAX(seq)` when it connects. -/
def inRange (s : Hub) (a : Act) : Prop :=
  ∀ last ∈ a.lastEventId, 0 ≤ last ∧ last ≤ maxSeq s.changelog

instance (s : Hub) (a : Act) : Decidable (inRange s a) :=
  inferInstanceAs (Decidable (∀ last ∈ a.lastEventId, 0 ≤ last ∧ last ≤ maxSeq s.changelog))

instance (rq : Request) (ev : ChangeEvent) : Decidable (Wanted rq ev) :=
  inferInstanceAs (Decidable (_ ∧ _))

/-- Every document that the replay query reads, it reads back as it was written. -/
def readsBack (rq : Request) (s : Hub) (a : Act) : Prop :=
  a.isReplay → ∀ last ∈ s.subscriber.waiting, ∀ r ∈ replayRows rq last s.changelog,
    r.survives rq.readFloat = true

instance (rq : Request) (s : Hub) (a : Act) : Decidable (readsBack rq s a) :=
  inferInstanceAs (Decidable (a.isReplay → ∀ last ∈ s.subscriber.waiting,
    ∀ r ∈ replayRows rq last s.changelog, r.survives rq.readFloat = true))

instance (rq : Request) (s : Hub) (a : Act) : Decidable (trimSpares rq s a) :=
  inferInstanceAs (Decidable (a.isTrim → ∀ last ∈ s.subscriber.waiting, ∀ r ∈ s.changelog,
    Wanted rq r.toEvent → last < r.seq → 0 < rq.retention →
      maxSeq s.changelog - rq.retention < r.seq))

/-- What a subscriber may rely on: the numbers increase, each change is the committed event of
its number, and where a wanted event is left out a resync stands before the next change. -/
structure Faithful (rq : Request) (s : Hub) (start : Int) : Prop where
  increasing : Increasing (·.seq) (changes s.out)
  genuine : ∀ ev ∈ changes s.out, ev ∈ s.committed ∧ Wanted rq ev
  after : ∀ ev ∈ changes s.out, start < ev.seq
  announced : ∀ ev ∈ changes s.out, ∀ e ∈ s.committed, Wanted rq e → start < e.seq →
    e.seq < ev.seq → e ∈ changes s.out ∨ Bridged s.out e.seq

/-- The invariant, by the subscriber's place. Between `MIN(seq)` and the replay query it is
`Kept` that carries the check on to the plan. -/
def ResumeInv (rq : Request) (s : Hub) : Prop :=
  match s.subscriber with
  | .idle | .panicked => True
  | .attached next lastEventId => next ≤ s.channel.sent.length ∧
      ∀ last, lastEventId = some last → last ≤ maxKey (·.seq) s.committed
  | .readMax next last currentMax => next ≤ s.channel.sent.length ∧
      last ≤ currentMax ∧ currentMax ≤ maxKey (·.seq) s.committed
  | .readMin next last => next ≤ s.channel.sent.length ∧
      last ≤ maxKey (·.seq) s.committed ∧ Kept rq s last
  | .streaming next maxSent start _ => StreamInv rq s next maxSent start ∧
      start ≤ maxSent ∧ ∀ ev ∈ changes s.out, start < ev.seq

theorem ResumeInv.stepWriter {a : Act} (hi : ResumeInv rq s) (hl : LogInv s)
    (hspare : trimSpares rq s a) (h : stepWriter rq s a = some s') : ResumeInv rq s' := by
  obtain ⟨hsub, hout, -, hlen⟩ := stepWriter_frame h
  have hmono := hl.maxKey_mono h
  unfold ResumeInv at hi ⊢
  rw [hsub]
  cases hs : s.subscriber with
  | idle | panicked => trivial
  | attached next lastEventId =>
    rw [hs] at hi
    refine ⟨le_trans hi.1 hlen, ?_⟩
    intro last heq
    exact le_trans (hi.2 last heq) hmono
  | readMax next last currentMax =>
    rw [hs] at hi
    exact ⟨le_trans hi.1 hlen, hi.2.1, le_trans hi.2.2 hmono⟩
  | readMin next last =>
    rw [hs] at hi
    exact ⟨le_trans hi.1 hlen, le_trans hi.2.1 hmono, hi.2.2.stepWriter hspare hs h⟩
  | streaming next maxSent start planned =>
    rw [hs] at hi
    simp only
    rw [hout]
    exact ⟨hi.1.stepWriter hl h, hi.2⟩

theorem ResumeInv.stepSubscriber {a : Act} (hi : ResumeInv rq s) (hl : LogInv s)
    (hrange : inRange s a) (hread : readsBack rq s a) (h : stepSubscriber rq s a = some s') :
    ResumeInv rq s' := by
  cases a with
  | commit _ | broadcast | trim | trimFailed => simp [Realtime.stepSubscriber] at h
  | attach lastEventId =>
    obtain ⟨-, rfl⟩ := attach_cases h
    refine ⟨le_refl _, ?_⟩
    rintro last rfl
    rw [← hl.maxSeq]
    exact (hrange last rfl).2
  | readMax =>
    rcases readMax_cases h with ⟨next, hsub, rfl⟩ | ⟨next, last, hsub, rfl⟩ <;>
      rw [ResumeInv, hsub] at hi
    · refine ⟨freshPlan_inv hl hi.1 (le_refl _) _, le_refl _, ?_⟩
      simp [Hub.startStream, freshPlan]
    · refine ⟨hi.1, ?_, le_of_eq hl.maxSeq⟩
      rw [hl.maxSeq]
      exact hi.2 last rfl
  | readMin =>
    obtain ⟨next, last, currentMax, hsub, hcases⟩ := readMin_cases h
    rw [ResumeInv, hsub] at hi
    have hlast := le_trans hi.2.1 hi.2.2
    rcases hcases with ⟨hnil, rfl⟩ | ⟨-, t, rfl, rfl | rfl | ⟨min, hmin, hle, rfl⟩⟩
    · refine ⟨hi.1, hlast, ?_⟩
      intro e he
      simp [hl.newest hnil] at he
    · trivial
    · refine ⟨?_, hi.2.1, ?_⟩
      · apply resyncPlan_inv
        · exact hi.1
        · exact hi.2.2
      · simp [Hub.startStream, resyncPlan]
    · refine ⟨hi.1, hlast, ?_⟩
      intro e he _ hlt
      exact hl.kept_of_min hmin hle he hlt
  | replay =>
    obtain ⟨next, last, hsub, rfl⟩ := replay_cases h
    rw [ResumeInv, hsub] at hi
    obtain ⟨-, hle, -⟩ := replayPlan_spec rq last s.changelog
    have hsurvive := hread rfl last (by rw [hsub]; rfl)
    refine ⟨replayPlan_inv hl hi.1 hi.2.1 ?_ _, hle, ?_⟩
    · intro e hlt
      rw [mem_replay_of_survives hsurvive]
      constructor
      · rintro ⟨hlog, hwant, -⟩
        exact ⟨hl.isLogOf.mem_committed hlog, hwant⟩
      · rintro ⟨he, hwant⟩
        exact ⟨hi.2.2 e he hwant hlt, hwant, hlt⟩
    · intro ev hev
      simp only [Hub.startStream, changes_openStream] at hev
      exact ((mem_replay_of_survives hsurvive ev).mp hev).2.2
  | recv =>
    obtain ⟨next, maxSent, start, planned, hsub⟩ := recv_streaming h
    rw [ResumeInv, hsub] at hi
    obtain ⟨next', maxSent', hsub', hinv, hle, hnew⟩ := hi.1.recv hl hsub h
    rw [ResumeInv, hsub']
    refine ⟨hinv, by omega, ?_⟩
    intro ev hev
    rcases hnew ev hev with hold | hlt
    · exact hi.2.2 ev hold
    · have := hi.2.1
      omega

theorem Start.logInv (h : Start rq s) : LogInv s := by
  refine ⟨h.increasing, h.log, h.newest, s.committed, ?_⟩
  simp [h.channel, h.writer, Lib.Broadcast.channel, Writer.pending]

/-- In a run without a trim at the wrong place, in which what the replay reads back is what was
written, what the stream has yielded is faithful. -/
theorem resume_faithful (rq : Request) (s₀ s : Hub) (h₀ : Start rq s₀)
    (h : Reach (step rq) (fun s a => inRange s a ∧ trimSpares rq s a ∧ readsBack rq s a) s₀ s)
    (next : Nat) (maxSent start planned : Int)
    (hsub : s.subscriber = .streaming next maxSent start planned) : Faithful rq s start := by
  have hinv : LogInv s ∧ ResumeInv rq s := by
    apply h.inv fun s => LogInv s ∧ ResumeInv rq s
    · refine ⟨h₀.logInv, ?_⟩
      rw [ResumeInv, h₀.subscriber]
      trivial
    · rintro t a u ⟨hl, hi⟩ ⟨hrange, hspare, hread⟩ hstep
      refine ⟨hl.step hstep, ?_⟩
      rcases step_cases hstep with hw | hs
      · exact hi.stepWriter hl hspare hw
      · exact hi.stepSubscriber hl hrange hread hs
  obtain ⟨-, hi⟩ := hinv
  rw [ResumeInv, hsub] at hi
  obtain ⟨hstream, -, hafter⟩ := hi
  refine ⟨hstream.increasing, fun ev hev => hstream.genuine ev hev (hafter ev hev), hafter, ?_⟩
  intro ev hev e he hwant hstart hlt
  rcases hstream.cover e he hwant hstart with hout | hbr | ⟨hpast, -⟩
  · exact Or.inl hout
  · exact Or.inr hbr
  · have := hstream.below ev hev
    omega

theorem fresh_start (rq : Request) : Start rq (Hub.fresh rq) :=
  ⟨List.Pairwise.nil, ⟨0, rfl⟩, fun _ => rfl, rfl, rfl, rfl, rfl, rfl⟩

/-! A log that keeps one row, and a subscriber that has seen nothing. -/

def oneRow : Request :=
  { coll := "notes", filter := none, retention := 1, capacity := 16, overflowChecks := false
    readFloat := id }

def note (id : String) : Change :=
  { collection := "notes", op := .insert, docId := id, doc := some .null, ts := 0 }

/-- The second trim runs between `MIN(seq)` and the replay query. -/
def lossyRun : List Act :=
  [.commit [note "a"], .broadcast, .trim, .attach (some 0), .readMax, .readMin,
    .commit [note "b"], .broadcast, .trim, .replay]

theorem Faithful.no_gap {start : Int} {ev e : ChangeEvent} (h : Faithful rq s start)
    (hout : s.out = [.change ev]) (he : e ∈ s.committed) (hwant : Wanted rq e)
    (hstart : start < e.seq) : ev.seq ≤ e.seq := by
  by_contra hlt
  have hev : ev ∈ changes s.out := by simp [hout]
  rcases h.announced ev hev e he hwant hstart (by omega) with hin | ⟨before, after, hgap, -⟩
  · rw [hout, changes_change, List.mem_singleton] at hin
    rw [hin] at hlt
    omega
  · have hmem : Sse.resync ∈ s.out := by simp [hgap]
    simp [hout] at hmem

/-- 51.248178375505404, which `serde_json` without `float_roundtrip` reads as 51.24817837550541. -/
def printed : BitVec 64 := 0x40499fc44f1b2f60

def oneUlpOff : Request :=
  { oneRow with readFloat := fun bits => if bits == printed then printed + 1 else bits }

def measured (bits : BitVec 64) : Change :=
  { note "a" with doc := some (.object [("x", .number (.float bits))]) }

def rereadRun : List Act :=
  [.commit [measured printed], .broadcast, .trim, .attach (some 0), .readMax, .readMin, .replay]

/-- The replayed change has another document than the committed one. -/
theorem replay_changes_document :
    Allowed (step oneUlpOff) inRange (Hub.fresh oneUlpOff) rereadRun ∧
      ∃ s, exec (step oneUlpOff) (Hub.fresh oneUlpOff) rereadRun = some s ∧
        s.out = [.change ((measured (printed + 1)).event 1)] ∧ ¬ Faithful oneUlpOff s 0 := by
  have hrun : ∃ s, exec (step oneUlpOff) (Hub.fresh oneUlpOff) rereadRun = some s ∧
      s.out = [.change ((measured (printed + 1)).event 1)] ∧
      s.committed = [(measured printed).event 1] := ⟨_, rfl, rfl, rfl⟩
  obtain ⟨s, hexec, hout, hcom⟩ := hrun
  refine ⟨by decide, s, hexec, hout, ?_⟩
  intro h
  obtain ⟨hmem, -⟩ := h.genuine ((measured (printed + 1)).event 1) (by simp [hout])
  rw [hcom, List.mem_singleton] at hmem
  have hdoc := congrArg ChangeEvent.doc hmem
  simp [Change.event, measured, printed] at hdoc

/-- Change 1 is gone, change 2 comes, and no resync stands between. And a document that is replayed
is not the one that was committed. -/
theorem trim_loses_change :
    Start oneRow (Hub.fresh oneRow) ∧
      Allowed (step oneRow) inRange (Hub.fresh oneRow) lossyRun ∧
      (∃ s, exec (step oneRow) (Hub.fresh oneRow) lossyRun = some s ∧
        s.subscriber = .streaming 1 2 0 2 ∧ s.out = [.change ((note "b").event 2)] ∧
        ¬ Faithful oneRow s 0) ∧
      Allowed (step oneUlpOff) inRange (Hub.fresh oneUlpOff) rereadRun ∧
      ∃ s, exec (step oneUlpOff) (Hub.fresh oneUlpOff) rereadRun = some s ∧
        s.out = [.change ((measured (printed + 1)).event 1)] ∧ ¬ Faithful oneUlpOff s 0 := by
  have hrun : ∃ s, exec (step oneRow) (Hub.fresh oneRow) lossyRun = some s ∧
      s.subscriber = .streaming 1 2 0 2 ∧ s.out = [.change ((note "b").event 2)] ∧
      s.committed = [(note "a").event 1, (note "b").event 2] := ⟨_, rfl, rfl, rfl, rfl⟩
  obtain ⟨s, hexec, hsub, hout, hcom⟩ := hrun
  refine ⟨fresh_start _, by decide, ⟨s, hexec, hsub, hout, ?_⟩, replay_changes_document⟩
  intro h
  have ha : (note "a").event 1 ∈ s.committed := by simp [hcom]
  have hle := h.no_gap hout ha ⟨rfl, rfl⟩ (by decide)
  simp at hle

def plainRun : List Act :=
  [.commit [note "a"], .broadcast, .trim, .attach (some 0), .readMax, .readMin,
    .commit [note "b"], .broadcast, .replay, .trim, .recv]

theorem resume_faithful_plainRun :
    ∃ s, exec (step oneRow) (Hub.fresh oneRow) plainRun = some s ∧
      changes s.out = [(note "a").event 1, (note "b").event 2] ∧ Faithful oneRow s 0 :=
  ⟨_, rfl, rfl, resume_faithful oneRow (Hub.fresh oneRow) _ (fresh_start _)
    (Reach.of_exec plainRun (by decide) rfl) 2 2 0 2 rfl⟩

/-! ## No resume point silences the live stream -/

/-- The sum is computed only for a resume point it does not overflow at, and a plan with replayed
rows is built only from a resume point that the log has reached. -/
def planInRange (s : Hub) (a : Act) : Prop :=
  (a.isReadMin → ∀ last ∈ s.subscriber.checking, s.changelog.isEmpty ∨ last < i64Max) ∧
  (a.isReplay → ∀ last ∈ s.subscriber.waiting, last ≤ maxSeq s.changelog)

instance (s : Hub) (a : Act) : Decidable (planInRange s a) :=
  inferInstanceAs (Decidable (_ ∧ _))

/-- Each wanted event committed after the plan that the receiver has gone past was yielded, or a
resync stands in its place. -/
def Delivered (rq : Request) (s : Hub) (next : Nat) (planned : Int) : Prop :=
  ∀ e ∈ s.committed, Wanted rq e → planned < e.seq → e ∈ s.channel.sent.take next →
    e ∈ changes s.out ∨ Bridged s.out e.seq

/-- The invariant, by the subscriber's place. The Last-Event-ID may be any number until the plan
is built. -/
def LiveInv (rq : Request) (s : Hub) : Prop :=
  match s.subscriber with
  | .idle | .panicked => True
  | .attached next _ | .readMin next _ => next ≤ s.channel.sent.length
  | .readMax next _ currentMax => next ≤ s.channel.sent.length ∧
      currentMax ≤ maxKey (·.seq) s.committed
  | .streaming next maxSent _ planned => StreamInv rq s next maxSent planned

theorem LiveInv.stepWriter {a : Act} (hi : LiveInv rq s) (hl : LogInv s)
    (h : stepWriter rq s a = some s') : LiveInv rq s' := by
  obtain ⟨hsub, -, -, hlen⟩ := stepWriter_frame h
  unfold LiveInv at hi ⊢
  rw [hsub]
  cases hs : s.subscriber with
  | idle | panicked => trivial
  | attached next _ | readMin next _ =>
    rw [hs] at hi
    exact le_trans hi hlen
  | readMax next last currentMax =>
    rw [hs] at hi
    exact ⟨le_trans hi.1 hlen, le_trans hi.2 (hl.maxKey_mono h)⟩
  | streaming next maxSent start planned =>
    rw [hs] at hi
    exact StreamInv.stepWriter hi hl h

theorem LiveInv.stepSubscriber {a : Act} (hi : LiveInv rq s) (hl : LogInv s)
    (hplan : planInRange s a) (h : stepSubscriber rq s a = some s') : LiveInv rq s' := by
  cases a with
  | commit _ | broadcast | trim | trimFailed => simp [Realtime.stepSubscriber] at h
  | attach _ =>
    obtain ⟨-, rfl⟩ := attach_cases h
    exact le_refl s.channel.sent.length
  | readMax =>
    rcases readMax_cases h with ⟨next, hsub, rfl⟩ | ⟨next, last, hsub, rfl⟩ <;>
      rw [LiveInv, hsub] at hi
    · exact freshPlan_inv hl hi (le_refl _) _
    · exact ⟨hi, le_of_eq hl.maxSeq⟩
  | readMin =>
    obtain ⟨next, last, currentMax, hsub, hcases⟩ := readMin_cases h
    rw [LiveInv, hsub] at hi
    rcases hcases with ⟨-, rfl⟩ | ⟨-, t, rfl, rfl | rfl | ⟨min, -, -, rfl⟩⟩
    · exact hi.1
    · trivial
    · apply resyncPlan_inv
      · exact hi.1
      · exact hi.2
    · exact hi.1
  | replay =>
    obtain ⟨next, last, hsub, rfl⟩ := replay_cases h
    rw [LiveInv, hsub] at hi
    have hlast : last ≤ maxSeq s.changelog := hplan.2 rfl last (by rw [hsub]; rfl)
    -- Nothing above `MAX(seq)` is committed, so the plan has nothing to cover yet.
    refine replayPlan_inv hl hi (hl.maxSeq ▸ hlast) ?_ _
    intro e hgt
    constructor
    · intro he
      obtain ⟨r, hr, -, hseq, -⟩ := replay_row he
      have : r.seq ≤ maxSeq s.changelog := le_maxKey (·.seq) hr
      omega
    · rintro ⟨he, -⟩
      have := le_maxKey_seq he
      rw [← hl.maxSeq] at this
      omega
  | recv =>
    obtain ⟨next, maxSent, start, planned, hsub⟩ := recv_streaming h
    rw [LiveInv, hsub] at hi
    obtain ⟨next', maxSent', hsub', hinv, -, -⟩ := StreamInv.recv hi hl hsub h
    rw [LiveInv, hsub']
    exact hinv

theorem overflowed_step {a : Act} (ho : s.overflowed = false) (hplan : planInRange s a)
    (h : step rq s a = some s') : s'.overflowed = false := by
  rcases step_cases h with hw | hs
  · rw [(stepWriter_frame hw).2.2.1, ho]
  · cases a with
    | commit _ | broadcast | trim | trimFailed => simp [stepSubscriber] at hs
    | attach _ =>
      obtain ⟨-, rfl⟩ := attach_cases hs
      exact ho
    | readMax => rcases readMax_cases hs with ⟨_, -, rfl⟩ | ⟨_, _, -, rfl⟩ <;> exact ho
    | readMin =>
      obtain ⟨next, last, currentMax, hsub, ⟨-, rfl⟩ | ⟨hne, t, rfl, hcases⟩⟩ := readMin_cases hs
      · exact ho
      · have hlt : s.changelog.isEmpty ∨ last < i64Max := hplan.1 rfl last (by rw [hsub]; rfl)
        rw [List.isEmpty_iff, or_iff_right hne] at hlt
        have hsum : (s.overflowed || decide (i64Max < last + 1)) = false := by
          rw [ho, Bool.false_or, decide_eq_false_iff_not]
          omega
        rcases hcases with rfl | rfl | ⟨min, -, -, rfl⟩ <;> exact hsum
    | replay =>
      obtain ⟨_, _, -, rfl⟩ := replay_cases hs
      exact ho
    | recv =>
      obtain ⟨next, maxSent, start, planned, hsub⟩ := recv_streaming hs
      simp only [stepSubscriber, hsub] at hs
      rcases s.channel.recv_cases next with ⟨ev, hr, -⟩ | ⟨k, hr, -⟩ | ⟨hr, -⟩ <;> rw [hr] at hs <;>
        simp only [Option.some.injEq, reduceCtorEq] at hs <;> subst hs <;> exact ho

theorem recv_progress {maxSent start planned : Int}
    (hsub : s.subscriber = .streaming next maxSent start planned)
    (hbehind : next < s.channel.sent.length) :
    ∃ s' next' maxSent', step rq s .recv = some s' ∧ next < next' ∧
      s'.subscriber = .streaming next' maxSent' start planned := by
  simp only [step, stepSubscriber, hsub]
  unfold Channel.recv
  split_ifs with hlag
  · exact ⟨_, _, _, rfl, by omega, rfl⟩
  · rw [List.getElem?_eq_getElem hbehind]
    exact ⟨_, _, _, rfl, Nat.lt_succ_self next, rfl⟩

/-- In a run where the plan is built from a resume point the log has reached, no sum overflows,
the live events are delivered, and the receiver never stays behind the channel. -/
theorem live_stream_not_silenced (rq : Request) (s₀ s : Hub) (h₀ : Start rq s₀)
    (h : Reach (step rq) planInRange s₀ s) :
    s.overflowed = false ∧
      ∀ next maxSent start planned, s.subscriber = .streaming next maxSent start planned →
        Delivered rq s next planned ∧
        (next < s.channel.sent.length → ∃ s' next' maxSent', step rq s .recv = some s' ∧
          next < next' ∧ s'.subscriber = .streaming next' maxSent' start planned) := by
  have hinv : LogInv s ∧ LiveInv rq s ∧ s.overflowed = false := by
    apply h.inv fun s => LogInv s ∧ LiveInv rq s ∧ s.overflowed = false
    · refine ⟨h₀.logInv, ?_, h₀.overflowed⟩
      rw [LiveInv, h₀.subscriber]
      trivial
    · rintro t a u ⟨hl, hi, ho⟩ hplan hstep
      refine ⟨hl.step hstep, ?_, overflowed_step ho hplan hstep⟩
      rcases step_cases hstep with hw | hs
      · exact hi.stepWriter hl hw
      · exact hi.stepSubscriber hl hplan hs
  obtain ⟨hl, hi, ho⟩ := hinv
  refine ⟨ho, ?_⟩
  intro next maxSent start planned hsub
  rw [LiveInv, hsub] at hi
  refine ⟨?_, recv_progress hsub⟩
  intro e he hwant hnew hpast
  rcases StreamInv.cover hi e he hwant hnew with hout | hbr | ⟨-, hah⟩
  · exact Or.inl hout
  · exact Or.inr hbr
  · exact absurd hah (hl.not_ahead hpast)

/-- A client comes back with number 5 to a database that was created anew. -/
def silentRun : List Act :=
  [.attach (some 5), .readMax, .readMin, .replay, .commit [note "a"], .broadcast, .recv]

def overflowRun : List Act :=
  [.commit [note "a"], .broadcast, .trim, .attach (some i64Max), .readMax, .readMin]

/-- Change 1 is committed after the plan, read from the channel and dropped in silence. And the
greatest number overflows the sum. -/
theorem stale_id_silences_stream :
    Start oneRow (Hub.fresh oneRow) ∧
      (∃ s, exec (step oneRow) (Hub.fresh oneRow) silentRun = some s ∧
        s.subscriber = .streaming 1 5 5 0 ∧ s.out = [] ∧ ¬ Delivered oneRow s 1 0) ∧
      ∃ s, exec (step oneRow) (Hub.fresh oneRow) overflowRun = some s ∧ s.overflowed = true := by
  have hrun : ∃ s, exec (step oneRow) (Hub.fresh oneRow) silentRun = some s ∧
      s.subscriber = .streaming 1 5 5 0 ∧ s.out = [] ∧ s.committed = [(note "a").event 1] ∧
      s.channel.sent = [(note "a").event 1] := ⟨_, rfl, rfl, rfl, rfl, rfl⟩
  obtain ⟨s, hexec, hsub, hout, hcom, hsent⟩ := hrun
  refine ⟨fresh_start _, ⟨s, hexec, hsub, hout, ?_⟩, _, rfl, rfl⟩
  intro h
  rcases h ((note "a").event 1) (by simp [hcom]) ⟨rfl, rfl⟩ (by decide) (by simp [hsent]) with
    hin | ⟨before, after, hgap, -⟩
  · simp [hout] at hin
  · simp [hout] at hgap

def liveRun : List Act :=
  [.commit [note "a"], .broadcast, .trim, .attach (some 1), .readMax, .readMin, .replay,
    .commit [note "b"], .broadcast, .recv]

theorem live_stream_not_silenced_liveRun :
    ∃ s, exec (step oneRow) (Hub.fresh oneRow) liveRun = some s ∧
      changes s.out = [(note "b").event 2] ∧ s.overflowed = false :=
  ⟨_, rfl, rfl, (live_stream_not_silenced oneRow (Hub.fresh oneRow) _ (fresh_start _)
    (Reach.of_exec liveRun (by decide) rfl)).1⟩

end TinyLord.Realtime
