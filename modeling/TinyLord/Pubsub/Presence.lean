import Mathlib.Algebra.Order.Ring.Int
import Mathlib.Data.List.AList
import TinyLord.Lib.Run

/-!
# The presence map

For each channel the clients that are on it, each with the number of its subscriptions. A
subscription is a guard: made by `register`, which may announce a join, and dropped later, which
may announce a leave. The announcement is a step of its own, after the lock is released.
-/

open Lib.Run

namespace TinyLord.Pubsub

/-! ## The map -/

structure PresenceEntry where
  connectedAt : Int
  count : UInt32
  deriving DecidableEq

abbrev Clients := AList fun _ : String => PresenceEntry

abbrev PresenceMap := AList fun _ : String => Clients

/-- The update of `PresenceGuard::register`, and whether the client is there for the first time. -/
def register (map : PresenceMap) (channel clientId : String) (now : Int) : Bool × PresenceMap :=
  let clients := (map.lookup channel).getD ∅
  match clients.lookup clientId with
  | some entry =>
    (false, map.insert channel (clients.insert clientId { entry with count := entry.count + 1 }))
  | none => (true, map.insert channel (clients.insert clientId { connectedAt := now, count := 1 }))

def decrement (clients : Clients) (clientId : String) : Bool × Clients :=
  match clients.lookup clientId with
  | some entry =>
    let count := entry.count - 1
    if count = 0 then (true, clients.erase clientId)
    else (false, clients.insert clientId { entry with count })
  | none => (false, clients)

/-- The update of `PresenceGuard::drop`, and whether it was the client's last subscription. -/
def drop (map : PresenceMap) (channel clientId : String) : Bool × PresenceMap :=
  match map.lookup channel with
  | some clients =>
    let (last, clients) := decrement clients clientId
    (last, if clients.entries.isEmpty then map.erase channel else map.insert channel clients)
  | none => (false, map)

/-! ## Guards and events -/

inductive PresenceKind where
  | join
  | leave
  deriving DecidableEq

structure PubSubEvent where
  channel : String
  clientId : String
  ts : Int
  kind : PresenceKind
  deriving DecidableEq

inductive GuardPhase where
  /-- `register` has not returned. -/
  | joining
  | live
  | dropped
  deriving DecidableEq

structure PresenceGuard where
  channel : String
  clientId : String
  phase : GuardPhase

/-- `register` returns, and the guard can be dropped. -/
def PresenceGuard.returned (g : PresenceGuard) : PresenceGuard :=
  if g.phase = .joining then { g with phase := .live } else g

/-- A `register` or `drop` that has released the lock and has an event to send. -/
structure Call where
  guard : Nat
  channel : String
  clientId : String
  kind : PresenceKind
  deriving DecidableEq

/-- An update of the map, for the statements. -/
inductive Update where
  | registered (channel clientId : String) (now : Int)
  | dropped (channel clientId : String)

structure State where
  map : PresenceMap
  guards : List PresenceGuard
  /-- In the order of their updates. -/
  calls : List Call
  /-- The presence events that were broadcast. -/
  sent : List PubSubEvent
  /-- For the statements only: the updates, in order. -/
  log : List Update

def State.start : State := { map := ∅, guards := [], calls := [], sent := [], log := [] }

inductive Act where
  | register (channel clientId : String) (now : Int)
  | drop (n : Nat)
  /-- One of the calls in progress sends its event and returns. -/
  | send (i : Nat) (ts : Int)

def step (s : State) : Act → Option State
  | .register channel clientId now =>
    let (first, map) := register s.map channel clientId now
    some { s with
      map
      guards := s.guards ++ [{ channel, clientId, phase := if first then .joining else .live }]
      calls := if first then s.calls ++ [⟨s.guards.length, channel, clientId, .join⟩] else s.calls
      log := s.log ++ [.registered channel clientId now] }
  | .drop n =>
    match s.guards[n]? with
    | some g =>
      if g.phase = .live then
        let (last, map) := drop s.map g.channel g.clientId
        some { s with
          map
          guards := s.guards.set n { g with phase := .dropped }
          calls := if last then s.calls ++ [⟨n, g.channel, g.clientId, .leave⟩] else s.calls
          log := s.log ++ [.dropped g.channel g.clientId] }
      else none
    | none => none
  | .send i ts =>
    match s.calls[i]? with
    | some call =>
      some { s with
        guards := if call.kind = .join then
            s.guards.modify call.guard PresenceGuard.returned
          else s.guards
        calls := s.calls.eraseIdx i
        sent := s.sent ++ [⟨call.channel, call.clientId, ts, call.kind⟩] }
    | none => none

/-! ## The statement -/

def entryAt (map : PresenceMap) (channel clientId : String) : Option PresenceEntry :=
  (map.lookup channel).bind fun clients => clients.lookup clientId

def PresenceGuard.of (channel clientId : String) (g : PresenceGuard) : Bool :=
  g.channel = channel && g.clientId = clientId && g.phase != .dropped

/-- How many guards of the pair are live. -/
def live (guards : List PresenceGuard) (channel clientId : String) : Nat :=
  guards.countP (PresenceGuard.of channel clientId)

/-- How many guards of the pair are live after the updates. -/
def liveAfter (channel clientId : String) (log : List Update) : Nat :=
  log.foldl (fun n u => match u with
    | .registered c x _ => if c = channel ∧ x = clientId then n + 1 else n
    | .dropped c x => if c = channel ∧ x = clientId then n - 1 else n) 0

/-- The time of the first registration since the pair was last absent. -/
def Since (log : List Update) (channel clientId : String) (t : Int) : Prop :=
  ∃ before after, log = before ++ .registered channel clientId t :: after ∧
    liveAfter channel clientId before = 0 ∧
    ∀ mid, mid <+: after →
      0 < liveAfter channel clientId (before ++ .registered channel clientId t :: mid)

/-- What the map says about a pair with `n` live guards. -/
def Entered (n : Nat) (log : List Update) (channel clientId : String) :
    Option PresenceEntry → Prop
  | none => n = 0
  | some entry => 0 < n ∧ entry.count.toNat = n ∧ Since log channel clientId entry.connectedAt

structure Counted (s : State) : Prop where
  entry : ∀ channel clientId, Entered (live s.guards channel clientId) s.log channel clientId
    (entryAt s.map channel clientId)
  channel : ∀ channel, (s.map.lookup channel).isSome ↔
    ∃ clientId, (entryAt s.map channel clientId).isSome

/-- Fewer than 2^32 guards live at a time. -/
def bounded (s : State) : Act → Prop
  | .register .. => s.guards.countP (fun g => g.phase != .dropped) + 1 < 2 ^ 32
  | _ => True

/-! ## What the two updates do -/

variable {map : PresenceMap} {c x c' x' : String} {now : Int} {clients : Clients} {log : List Update}

theorem entryAt_insert : entryAt (map.insert c clients) c' x =
    if c' = c then clients.lookup x else entryAt map c' x := by
  unfold entryAt
  split
  · next h =>
    subst h
    simp
  · next h => rw [AList.lookup_insert_ne h]

theorem entryAt_erase : entryAt (map.erase c) c' x =
    if c' = c then none else entryAt map c' x := by
  unfold entryAt
  split
  · next h =>
    subst h
    simp
  · next h => rw [AList.lookup_erase_ne h]

theorem lookup_getD (map : PresenceMap) (c x : String) :
    ((map.lookup c).getD ∅).lookup x = entryAt map c x := by
  unfold entryAt
  cases map.lookup c <;> rfl

def PresenceEntry.next (now : Int) : Option PresenceEntry → PresenceEntry
  | some entry => { entry with count := entry.count + 1 }
  | none => { connectedAt := now, count := 1 }

theorem register_first : (register map c x now).1 = (entryAt map c x).isNone := by
  unfold register
  rw [← lookup_getD]
  simp only
  split <;> simp [*]

theorem entryAt_register (map : PresenceMap) (c x c' x' : String) (now : Int) :
    entryAt (register map c x now).2 c' x' =
    if c' = c ∧ x' = x then some (.next now (entryAt map c x)) else entryAt map c' x' := by
  have hnew : (register map c x now).2 = map.insert c
      (((map.lookup c).getD ∅).insert x (.next now (entryAt map c x))) := by
    unfold register
    rw [← lookup_getD]
    simp only
    split <;> simp [PresenceEntry.next, *]
  rw [hnew, entryAt_insert]
  by_cases hc : c' = c
  · subst hc
    by_cases hx : x' = x
    · subst hx
      simp
    · simp [hx, AList.lookup_insert_ne hx, lookup_getD]
  · simp [hc]

/-- The entry without one of its subscriptions. -/
def PresenceEntry.less (entry : PresenceEntry) : Option PresenceEntry :=
  if entry.count - 1 = 0 then none else some { entry with count := entry.count - 1 }

theorem decrement_last : (decrement clients x).1 =
    (clients.lookup x).any fun entry => entry.less.isNone := by
  unfold decrement PresenceEntry.less
  cases clients.lookup x with
  | none => rfl
  | some entry => by_cases h : entry.count - 1 = 0 <;> simp [h]

theorem decrement_lookup : (decrement clients x).2.lookup x' =
    if x' = x then (clients.lookup x).bind PresenceEntry.less else clients.lookup x' := by
  unfold decrement PresenceEntry.less
  by_cases hx : x' = x
  · subst hx
    cases h : clients.lookup x' with
    | none => simp [h]
    | some entry => by_cases h0 : entry.count - 1 = 0 <;> simp [h0]
  · cases h : clients.lookup x with
    | none => simp [hx]
    | some entry =>
      by_cases h0 : entry.count - 1 = 0 <;>
        simp [h0, hx, AList.lookup_erase_ne hx, AList.lookup_insert_ne hx]

theorem lookup_of_isEmpty (h : clients.entries.isEmpty = true) : clients.lookup x = none := by
  rw [AList.lookup_eq_none, AList.mem_keys, AList.keys, List.isEmpty_iff.mp h]
  simp

theorem drop_last : (drop map c x).1 = (entryAt map c x).any fun entry => entry.less.isNone := by
  unfold drop entryAt
  cases map.lookup c with
  | none => rfl
  | some clients => exact decrement_last

theorem entryAt_drop (map : PresenceMap) (c x c' x' : String) :
    entryAt (drop map c x).2 c' x' =
    if c' = c ∧ x' = x then (entryAt map c x).bind PresenceEntry.less else entryAt map c' x' := by
  have hlookup : ∀ clients, map.lookup c = some clients → ∀ y, entryAt map c y = clients.lookup y := by
    intro clients h y
    rw [entryAt, h]
    rfl
  have hpair : ∀ y, (if c' = c ∧ y = x then (entryAt map c x).bind PresenceEntry.less
      else entryAt map c' y) = if c' = c then (if y = x then (entryAt map c x).bind PresenceEntry.less
        else entryAt map c y) else entryAt map c' y := by
    intro y
    by_cases hc : c' = c <;> by_cases hy : y = x <;> simp [hc, hy]
  rw [hpair]
  unfold drop
  cases h : map.lookup c with
  | none =>
    have hnone : ∀ y, entryAt map c y = none := by
      intro y
      rw [entryAt, h]
      rfl
    by_cases hc : c' = c <;> simp [hc, hnone]
  | some clients =>
    simp only [hlookup clients h]
    rw [← decrement_lookup]
    split
    · next hempty =>
      rw [entryAt_erase, lookup_of_isEmpty hempty]
    · rw [entryAt_insert]

/-- Every channel in the map has a client. -/
def NoEmptyChannel (map : PresenceMap) : Prop :=
  ∀ channel clients, map.lookup channel = some clients → clients.entries ≠ []

theorem NoEmptyChannel.insert (h : NoEmptyChannel map) (hne : clients.entries ≠ []) (c : String) :
    NoEmptyChannel (map.insert c clients) := by
  intro channel clients' hl
  by_cases hc : channel = c
  · subst hc
    rw [AList.lookup_insert, Option.some.injEq] at hl
    exact hl ▸ hne
  · rw [AList.lookup_insert_ne hc] at hl
    exact h channel clients' hl

theorem NoEmptyChannel.register (h : NoEmptyChannel map) (c x : String) (now : Int) :
    NoEmptyChannel (register map c x now).2 := by
  unfold Pubsub.register
  simp only
  split <;> exact h.insert (by simp [AList.entries_insert]) c

theorem NoEmptyChannel.drop (h : NoEmptyChannel map) (c x : String) :
    NoEmptyChannel (drop map c x).2 := by
  unfold Pubsub.drop
  split
  · simp only
    split
    · intro channel clients' hl
      by_cases hc : channel = c
      · subst hc
        simp at hl
      · rw [AList.lookup_erase_ne hc] at hl
        exact h channel clients' hl
    · next hne => exact h.insert (by simpa using hne) c
  · exact h

theorem NoEmptyChannel.channel (h : NoEmptyChannel map) (c : String) :
    (map.lookup c).isSome ↔ ∃ x, (entryAt map c x).isSome := by
  unfold entryAt
  cases hl : map.lookup c with
  | none => simp
  | some clients =>
    obtain ⟨⟨x, entry⟩, rest, hentries⟩ := List.exists_cons_of_ne_nil (h c clients hl)
    refine iff_of_true rfl ⟨x, ?_⟩
    rw [Option.bind_some, AList.lookup_isSome, AList.mem_keys, AList.keys, hentries]
    exact List.mem_cons_self

/-! ## Counting the guards and the updates -/

variable {s s' : State} {a : Act} {t : Int} {u : Update}

theorem liveAfter_append (log : List Update) (u : Update) :
    liveAfter c x (log ++ [u]) = match u with
      | .registered c' x' _ => if c' = c ∧ x' = x then liveAfter c x log + 1 else liveAfter c x log
      | .dropped c' x' => if c' = c ∧ x' = x then liveAfter c x log - 1 else liveAfter c x log := by
  rw [liveAfter, List.foldl_append, ← liveAfter]
  cases u <;> rfl

theorem Since.append (h : Since log c x t) (hlive : 0 < liveAfter c x (log ++ [u])) :
    Since (log ++ [u]) c x t := by
  obtain ⟨before, after, rfl, hzero, hpos⟩ := h
  refine ⟨before, after ++ [u], by simp, hzero, ?_⟩
  intro mid hmid
  rcases List.prefix_concat_iff.mp hmid with rfl | hmid
  · simpa using hlive
  · exact hpos mid hmid

theorem Since.first (h : liveAfter c x log = 0) (t : Int) :
    Since (log ++ [.registered c x t]) c x t := by
  refine ⟨log, [], rfl, h, ?_⟩
  intro mid hmid
  rw [List.prefix_nil.mp hmid, liveAfter_append]
  simp

theorem countP_modify {α : Type} {p : α → Bool} {f : α → α} (hf : ∀ a, p (f a) = p a) (l : List α)
    (n : Nat) : (l.modify n f).countP p = l.countP p := by
  induction l generalizing n with
  | nil => cases n <;> rfl
  | cons a l ih => cases n <;> simp [List.countP_cons, hf, ih]

@[simp] theorem returned_of (c x : String) (g : PresenceGuard) : g.returned.of c x = g.of c x := by
  unfold PresenceGuard.returned
  split
  · next h => simp only [PresenceGuard.of, h]; rfl
  · rfl

@[simp] theorem returned_dropped (g : PresenceGuard) :
    (g.returned.phase != .dropped) = (g.phase != .dropped) := by
  unfold PresenceGuard.returned
  split
  · next h => rw [h]; rfl
  · rfl

theorem countP_dropped {p : PresenceGuard → Bool} {guards : List PresenceGuard} {n : Nat}
    {g g' : PresenceGuard} (hn : guards[n]? = some g) (hg : p g' = false) :
    (guards.set n g').countP p = guards.countP p - if p g then 1 else 0 := by
  obtain ⟨hlt, rfl⟩ := List.getElem?_eq_some_iff.mp hn
  rw [List.countP_set hlt, hg]
  simp

/-! ## One pair -/

variable {n : Nat} {entry : PresenceEntry} {entries : Option PresenceEntry}

theorem Entered.next (h : Entered n log c x entries) (hn : n = liveAfter c x log)
    (hlt : n + 1 < 2 ^ 32) (now : Int) :
    Entered (n + 1) (log ++ [.registered c x now]) c x (some (.next now entries)) := by
  have hlive : liveAfter c x (log ++ [.registered c x now]) = n + 1 := by
    rw [liveAfter_append, hn]
    simp
  cases entries with
  | none =>
    rw [Entered] at h
    subst h
    exact ⟨by omega, rfl, Since.first hn.symm now⟩
  | some entry =>
    obtain ⟨hpos, hcount, hsince⟩ := h
    refine ⟨by omega, ?_, hsince.append (by omega)⟩
    simp only [PresenceEntry.next, UInt32.toNat_add, hcount]
    exact Nat.mod_eq_of_lt hlt

theorem count_pred (h : 0 < entry.count.toNat) :
    (entry.count - 1).toNat = entry.count.toNat - 1 := by
  rw [UInt32.toNat_sub_of_le]
  · rfl
  · exact UInt32.le_iff_toNat_le.mpr h

theorem Entered.less (h : Entered n log c x (some entry)) (hn : n = liveAfter c x log) :
    Entered (n - 1) (log ++ [.dropped c x]) c x entry.less := by
  obtain ⟨hpos, hcount, hsince⟩ := h
  have hlive : liveAfter c x (log ++ [.dropped c x]) = n - 1 := by
    rw [liveAfter_append, hn]
    simp
  have hpred : (entry.count - 1).toNat = entry.count.toNat - 1 := count_pred (by omega)
  unfold PresenceEntry.less
  split
  · next hzero =>
    rw [hzero] at hpred
    simp only [Entered]
    have : (0 : UInt32).toNat = 0 := rfl
    omega
  · next hzero =>
    have hne : (entry.count - 1).toNat ≠ 0 := fun h => hzero (UInt32.toNat_inj.mp h)
    refine ⟨by omega, ?_, hsince.append (by omega)⟩
    simp only [hpred, hcount]

theorem Entered.other (h : Entered n log c x entries) (hn : n = liveAfter c x log)
    (hu : liveAfter c x (log ++ [u]) = liveAfter c x log) :
    Entered n (log ++ [u]) c x entries := by
  cases entries with
  | none => exact h
  | some entry =>
    obtain ⟨hpos, hcount, hsince⟩ := h
    exact ⟨hpos, hcount, hsince.append (by omega)⟩

/-! ## The invariant -/

structure Inv (s : State) : Prop where
  entry : ∀ c x, Entered (live s.guards c x) s.log c x (entryAt s.map c x)
  channels : NoEmptyChannel s.map
  log : ∀ c x, live s.guards c x = liveAfter c x s.log
  total : s.guards.countP (fun g => g.phase != .dropped) < 2 ^ 32

theorem live_le (guards : List PresenceGuard) (c x : String) :
    live guards c x ≤ guards.countP fun g => g.phase != .dropped := by
  apply List.countP_mono_left
  intro g _ hg
  simp only [PresenceGuard.of, Bool.and_eq_true] at hg
  exact hg.2

theorem Inv.held {g : PresenceGuard} (h : Inv s) (hn : s.guards[n]? = some g)
    (hlive : g.phase ≠ .dropped) : ∃ e, entryAt s.map g.channel g.clientId = some e ∧
      0 < e.count.toNat := by
  have hpos : 0 < live s.guards g.channel g.clientId := by
    refine List.countP_pos_iff.mpr ⟨g, List.mem_of_getElem? hn, ?_⟩
    simp [PresenceGuard.of, hlive]
  have hentry := h.entry g.channel g.clientId
  cases he : entryAt s.map g.channel g.clientId with
  | none =>
    rw [he, Entered] at hentry
    omega
  | some e =>
    rw [he, Entered] at hentry
    exact ⟨e, rfl, by omega⟩

theorem inv_register (h : Inv s) (hok : bounded s (.register c x now))
    (hstep : step s (.register c x now) = some s') : Inv s' := by
  simp only [step, Option.some.injEq] at hstep
  subst hstep
  generalize hphase : (if (register s.map c x now).1 then GuardPhase.joining else .live) = phase
  have halive : (phase != .dropped) = true := by
    rw [← hphase]
    split <;> rfl
  have hlive : ∀ c' x', live (s.guards ++ [⟨c, x, phase⟩]) c' x' =
      live s.guards c' x' + if c = c' ∧ x = x' then 1 else 0 := by
    intro c' x'
    rw [live, List.countP_append, ← live, List.countP_singleton]
    simp [PresenceGuard.of, halive]
  have hlog : ∀ c' x', liveAfter c' x' (s.log ++ [.registered c x now]) =
      liveAfter c' x' s.log + if c = c' ∧ x = x' then 1 else 0 := by
    intro c' x'
    by_cases hpair : c = c' ∧ x = x' <;> simp [liveAfter_append, hpair]
  refine ⟨?_, h.channels.register c x now, ?_, ?_⟩
  · intro c' x'
    rw [entryAt_register, hlive]
    by_cases hpair : c' = c ∧ x' = x
    · obtain ⟨rfl, rfl⟩ := hpair
      have hle := live_le s.guards c' x'
      simp only [and_self, if_true]
      exact (h.entry c' x').next (h.log c' x') (by simp only [bounded] at hok; omega) now
    · have hpair' : ¬ (c = c' ∧ x = x') := fun h => hpair ⟨h.1.symm, h.2.symm⟩
      rw [if_neg hpair, if_neg hpair']
      exact (h.entry c' x').other (h.log c' x') (by rw [hlog, if_neg hpair']; rfl)
  · intro c' x'
    rw [hlive, hlog, h.log]
  · rw [List.countP_append, List.countP_singleton, if_pos halive]
    exact hok

theorem inv_drop (h : Inv s) (hstep : step s (.drop n) = some s') : Inv s' := by
  simp only [step] at hstep
  split at hstep
  · next g hn =>
    by_cases hphase : g.phase = .live
    swap
    · simp [hphase] at hstep
    rw [if_pos hphase, Option.some.injEq] at hstep
    subst hstep
    obtain ⟨e, he, hpos⟩ := h.held hn (by simp [hphase])
    have hlive : ∀ c x, live (s.guards.set n { g with phase := .dropped }) c x =
        live s.guards c x - if g.channel = c ∧ g.clientId = x then 1 else 0 := by
      intro c x
      rw [live, countP_dropped hn (by simp [PresenceGuard.of]), ← live]
      simp [PresenceGuard.of, hphase]
    have hlog : ∀ c x, liveAfter c x (s.log ++ [.dropped g.channel g.clientId]) =
        liveAfter c x s.log - if g.channel = c ∧ g.clientId = x then 1 else 0 := by
      intro c x
      by_cases hpair : g.channel = c ∧ g.clientId = x <;> simp [liveAfter_append, hpair]
    refine ⟨?_, h.channels.drop _ _, ?_, ?_⟩
    · intro c x
      rw [entryAt_drop, hlive]
      by_cases hpair : c = g.channel ∧ x = g.clientId
      · obtain ⟨rfl, rfl⟩ := hpair
        have hentry := h.entry g.channel g.clientId
        rw [he] at hentry
        simp only [and_self, if_true, he, Option.bind_some]
        exact hentry.less (h.log _ _)
      · have hpair' : ¬ (g.channel = c ∧ g.clientId = x) := fun h => hpair ⟨h.1.symm, h.2.symm⟩
        rw [if_neg hpair, if_neg hpair']
        exact (h.entry c x).other (h.log c x) (by rw [hlog, if_neg hpair']; rfl)
    · intro c x
      rw [hlive, hlog, h.log]
    · rw [countP_dropped hn (by simp)]
      have := h.total
      omega
  · cases hstep

theorem inv_step (h : Inv s) (hok : bounded s a) (hstep : step s a = some s') : Inv s' := by
  cases a with
  | register c x now => exact inv_register h hok hstep
  | drop n => exact inv_drop h hstep
  | send i ts =>
    simp only [step] at hstep
    split at hstep
    · next call hcall =>
      simp only [Option.some.injEq] at hstep
      subst hstep
      have hlive : ∀ c x, live (if call.kind = .join then
          s.guards.modify call.guard PresenceGuard.returned else s.guards) c x =
          live s.guards c x := by
        intro c x
        split
        · exact countP_modify (returned_of c x) _ _
        · rfl
      refine ⟨fun c x => ?_, h.channels, fun c x => ?_, ?_⟩
      · simp only [hlive]
        exact h.entry c x
      · simp only [hlive]
        exact h.log c x
      · split
        · rw [countP_modify returned_dropped]
          exact h.total
        · exact h.total
    · cases hstep

/-- The map counts the live guards of each pair, and nothing else. -/
theorem presence_counts (h : Reach step bounded .start s) :
    Counted s ∧
    (∀ n s', step s (.drop n) = some s' → ∃ g entry, s.guards[n]? = some g ∧
      entryAt s.map g.channel g.clientId = some entry ∧ 0 < entry.count.toNat ∧
      ∀ c x, ¬ (c = g.channel ∧ x = g.clientId) → entryAt s'.map c x = entryAt s.map c x) ∧
    ∀ c x now s', step s (.register c x now) = some s' →
      ∀ c' x', ¬ (c' = c ∧ x' = x) → entryAt s'.map c' x' = entryAt s.map c' x' := by
  have hstart : Inv .start := by
    refine ⟨fun c x => rfl, ?_, fun c x => rfl, by simp [State.start]⟩
    intro channel clients hl
    simp [State.start] at hl
  have hinv := h.inv Inv hstart fun t a u ht hok hstep => inv_step ht hok hstep
  refine ⟨⟨hinv.entry, hinv.channels.channel⟩, ?_, ?_⟩
  · intro n s' hstep
    simp only [step] at hstep
    split at hstep
    · next g hn =>
      by_cases hphase : g.phase = .live
      · rw [if_pos hphase, Option.some.injEq] at hstep
        obtain ⟨e, he, hpos⟩ := hinv.held hn (by simp [hphase])
        refine ⟨g, e, hn, he, hpos, ?_⟩
        intro c x hne
        rw [← hstep]
        simp only [entryAt_drop, if_neg hne]
      · simp [hphase] at hstep
    · cases hstep
  · intro c x now s' hstep c' x' hne
    simp only [step, Option.some.injEq] at hstep
    rw [← hstep]
    simp only [entryAt_register, if_neg hne]

instance (s : State) : (a : Act) → Decidable (bounded s a)
  | .register .. => inferInstanceAs (Decidable (_ < _))
  | .drop _ | .send .. => isTrue trivial

/-- Two subscriptions of one client, the first of them closed, and another client elsewhere. -/
def twoTabs : List Act :=
  [.register "room" "ada" 1, .send 0 1, .register "room" "ada" 2, .drop 0,
   .register "lobby" "bob" 3]

theorem presence_counts_twoTabs :
    ∃ s, exec step .start twoTabs = some s ∧ entryAt s.map "room" "ada" = some ⟨1, 1⟩ ∧
      Counted s := by
  obtain ⟨s, hs⟩ : ∃ s, exec step .start twoTabs = some s := ⟨_, rfl⟩
  have hcounted := (presence_counts (.of_exec twoTabs (by decide) hs)).1
  cases hs
  exact ⟨_, rfl, by decide, hcounted⟩

end TinyLord.Pubsub
