import TinyLord.Pubsub.Presence

/-!
# The order of the presence events

The map is updated under the lock, and the event is sent after it. As long as the events of a pair
are sent in the order of their updates, they alternate and the last one agrees with the map.
-/

open Lib.Run

namespace TinyLord.Pubsub

/-! ## The statement -/

/-- Join, leave, join and so on. -/
def Alternates (kinds : List PresenceKind) : Prop :=
  ∀ (i : Nat) (k : PresenceKind), kinds[i]? = some k → k = if i % 2 = 0 then .join else .leave

def PubSubEvent.of (channel clientId : String) (e : PubSubEvent) : Bool :=
  e.channel = channel && e.clientId = clientId

def Call.of (channel clientId : String) (c : Call) : Bool :=
  c.channel = channel && c.clientId = clientId

/-- The presence events of a pair, in the order they were sent. -/
def State.events (s : State) (channel clientId : String) : List PresenceKind :=
  (s.sent.filter (PubSubEvent.of channel clientId)).map (·.kind)

/-- Those that are still to be sent, in the order of their updates. -/
def State.waiting (s : State) (channel clientId : String) : List PresenceKind :=
  (s.calls.filter (Call.of channel clientId)).map (·.kind)

/-- The events of a pair alternate, and when none of its calls is in progress the last one tells
whether the client is in the map. -/
def Agrees (s : State) (channel clientId : String) : Prop :=
  Alternates (s.events channel clientId) ∧
  (s.waiting channel clientId = [] →
    ((s.events channel clientId).getLast? = some .join ↔
      (entryAt s.map channel clientId).isSome = true))

/-- No call sends its event while an earlier one of the same pair has not. -/
def inOrder (s : State) : Act → Prop
  | .send i _ => ∀ call, s.calls[i]? = some call → ∀ j < i, ∀ earlier, s.calls[j]? = some earlier →
      ¬ (earlier.channel = call.channel ∧ earlier.clientId = call.clientId)
  | _ => True

/-! ## Lists that alternate -/

variable {kinds : List PresenceKind} {k : PresenceKind} {s s' : State} {a : Act}
  {channel clientId : String}

theorem Alternates.of_append {more : List PresenceKind} (h : Alternates (kinds ++ more)) :
    Alternates kinds := by
  intro i k hk
  exact h i k (by rw [List.getElem?_append_left (List.getElem?_eq_some_iff.mp hk).1, hk])

theorem Alternates.append (h : Alternates kinds)
    (hk : k = if kinds.length % 2 = 0 then .join else .leave) : Alternates (kinds ++ [k]) := by
  intro i k' hi
  rcases Nat.lt_trichotomy i kinds.length with hlt | rfl | hgt
  · rw [List.getElem?_append_left hlt] at hi
    exact h i k' hi
  · simp only [List.getElem?_concat_length, Option.some.injEq] at hi
    exact hi ▸ hk
  · rw [List.getElem?_eq_none (by simp; omega)] at hi
    cases hi

theorem Alternates.last (h : Alternates kinds) :
    kinds.getLast? = some .join ↔ kinds.length % 2 = 1 := by
  rw [List.getLast?_eq_getElem?]
  cases hl : kinds[kinds.length - 1]? with
  | none =>
    have := List.getElem?_eq_none_iff.mp hl
    simp only [reduceCtorEq, false_iff]
    omega
  | some k =>
    have hlt := (List.getElem?_eq_some_iff.mp hl).1
    rw [h _ k hl]
    split <;> simp <;> omega

/-! ## Taking one element out of a list -/

theorem filter_eraseIdx {α : Type} {p : α → Bool} {l : List α} {i : Nat} {x : α}
    (hi : l[i]? = some x) (hx : p x = false) : (l.eraseIdx i).filter p = l.filter p := by
  induction l generalizing i with
  | nil => simp at hi
  | cons y l ih =>
    cases i with
    | zero =>
      simp only [List.getElem?_cons_zero, Option.some.injEq] at hi
      simp [hi, hx]
    | succ i => simp [List.filter_cons, ih (by simpa using hi)]

theorem filter_eraseIdx_first {α : Type} {p : α → Bool} {l : List α} {i : Nat} {x : α}
    (hi : l[i]? = some x) (hx : p x = true)
    (hfirst : ∀ j < i, ∀ y, l[j]? = some y → p y = false) :
    l.filter p = x :: (l.eraseIdx i).filter p := by
  induction l generalizing i with
  | nil => simp at hi
  | cons y l ih =>
    cases i with
    | zero =>
      simp only [List.getElem?_cons_zero, Option.some.injEq] at hi
      simp [hi, hx]
    | succ i =>
      have hy : p y = false := hfirst 0 (by omega) y rfl
      have hrest := ih (by simpa using hi) fun j hj z hz => hfirst (j + 1) (by omega) z (by simpa)
      simpa [hy] using hrest

/-! ## The invariant -/

/-- What was sent and what is still to be sent alternates, and tells whether the client is in the
map by now. -/
def Announced (s : State) (channel clientId : String) : Prop :=
  let kinds := s.events channel clientId ++ s.waiting channel clientId
  Alternates kinds ∧ (kinds.length % 2 = 1 ↔ (entryAt s.map channel clientId).isSome = true)

theorem Announced.agrees (h : Announced s channel clientId) : Agrees s channel clientId := by
  obtain ⟨halt, hmap⟩ := h
  refine ⟨halt.of_append, fun hnone => ?_⟩
  rw [hnone, List.append_nil] at halt hmap
  rw [halt.last, hmap]

theorem Announced.update (h : Announced s channel clientId) {map : PresenceMap}
    {guards : List PresenceGuard} {log : List Update} {calls : List Call} {call : Call}
    (hcall : call.of channel clientId = true)
    (hcalls : calls = s.calls ++ [call])
    (hkind : (call.kind = .join ∧ entryAt s.map channel clientId = none ∧
        (entryAt map channel clientId).isSome = true) ∨
      (call.kind = .leave ∧ (entryAt s.map channel clientId).isSome = true ∧
        entryAt map channel clientId = none)) :
    Announced { s with map, guards, calls, log } channel clientId := by
  obtain ⟨halt, hmap⟩ := h
  have hwaiting : State.waiting { s with map, guards, calls, log } channel clientId =
      s.waiting channel clientId ++ [call.kind] := by
    simp [State.waiting, hcalls, hcall]
  have hevents : State.events { s with map, guards, calls, log } channel clientId =
      s.events channel clientId := rfl
  unfold Announced
  rw [hwaiting, hevents, ← List.append_assoc]
  rcases hkind with ⟨hk, hold, hnew⟩ | ⟨hk, hold, hnew⟩
  · have heven : (s.events channel clientId ++ s.waiting channel clientId).length % 2 = 0 := by
      simp only [hold, Option.isSome_none, Bool.false_eq_true, iff_false] at hmap
      omega
    refine ⟨halt.append (by rw [hk, if_pos heven]), ?_⟩
    simp only [List.length_append, List.length_singleton, hnew, iff_true] at heven ⊢
    omega
  · have hodd := hmap.mpr hold
    refine ⟨halt.append (by rw [hk, if_neg (by omega)]), ?_⟩
    simp only [List.length_append, List.length_singleton, hnew, Option.isSome_none,
      Bool.false_eq_true, iff_false] at hodd ⊢
    omega

theorem Announced.silent (h : Announced s channel clientId) {map : PresenceMap}
    {guards : List PresenceGuard} {log : List Update} {calls : List Call}
    (hcalls : calls.filter (Call.of channel clientId) = s.calls.filter (Call.of channel clientId))
    (hmap : (entryAt map channel clientId).isSome = (entryAt s.map channel clientId).isSome) :
    Announced { s with map, guards, calls, log } channel clientId := by
  have hwaiting : State.waiting { s with map, guards, calls, log } channel clientId =
      s.waiting channel clientId := by simp only [State.waiting, hcalls]
  unfold Announced at h ⊢
  rw [hwaiting, hmap]
  exact h

theorem call_of_pair (n : Nat) (kind : PresenceKind) :
    Call.of channel clientId ⟨n, channel, clientId, kind⟩ = true := by
  simp [Call.of]

theorem call_of_other {c x : String} (h : ¬(channel = c ∧ clientId = x)) (n : Nat)
    (kind : PresenceKind) : Call.of channel clientId ⟨n, c, x, kind⟩ = false := by
  simp only [Call.of, Bool.and_eq_false_iff, decide_eq_false_iff_not]
  by_contra hboth
  simp only [not_or, not_not] at hboth
  exact h ⟨hboth.1.symm, hboth.2.symm⟩

theorem announced_register {c x : String} {now : Int} (h : Announced s channel clientId)
    (hstep : step s (.register c x now) = some s') : Announced s' channel clientId := by
  simp only [step, Option.some.injEq] at hstep
  subst hstep
  have hentry := entryAt_register s.map c x channel clientId now
  rw [register_first]
  by_cases hpair : channel = c ∧ clientId = x
  · obtain ⟨rfl, rfl⟩ := hpair
    simp only [and_self, if_true] at hentry
    cases hold : entryAt s.map channel clientId with
    | none =>
      refine h.update (call_of_pair s.guards.length .join) rfl (Or.inl ⟨rfl, hold, ?_⟩)
      rw [hentry]
      rfl
    | some entry =>
      refine h.silent rfl ?_
      rw [hentry, hold]
      rfl
  · rw [if_neg hpair] at hentry
    refine h.silent ?_ (by rw [hentry])
    split
    · simp [call_of_other hpair]
    · rfl

theorem announced_drop {n : Nat} (h : Announced s channel clientId)
    (hstep : step s (.drop n) = some s') : Announced s' channel clientId := by
  simp only [step] at hstep
  split at hstep
  · next g hn =>
    by_cases hphase : g.phase = .live
    swap
    · simp [hphase] at hstep
    rw [if_pos hphase, Option.some.injEq] at hstep
    subst hstep
    have hentry := entryAt_drop s.map g.channel g.clientId channel clientId
    rw [drop_last]
    by_cases hpair : channel = g.channel ∧ clientId = g.clientId
    · obtain ⟨rfl, rfl⟩ := hpair
      simp only [and_self, if_true] at hentry
      cases hold : entryAt s.map g.channel g.clientId with
      | none =>
        refine h.silent rfl ?_
        rw [hentry, hold]
        rfl
      | some entry =>
        rw [hold, Option.bind_some] at hentry
        cases hless : entry.less with
        | none =>
          refine h.update (call_of_pair n .leave) (by simp [hless])
            (Or.inr ⟨rfl, by simp [hold], ?_⟩)
          rw [hentry, hless]
        | some less =>
          refine h.silent (by simp [hless]) ?_
          rw [hentry, hless, hold]
          rfl
    · rw [if_neg hpair] at hentry
      refine h.silent ?_ (by rw [hentry])
      split
      · simp [call_of_other hpair]
      · rfl
  · cases hstep

theorem announced_send {i : Nat} {ts : Int} (h : Announced s channel clientId)
    (hok : inOrder s (.send i ts)) (hstep : step s (.send i ts) = some s') :
    Announced s' channel clientId := by
  simp only [step] at hstep
  split at hstep
  · next call hcall =>
    rw [Option.some.injEq] at hstep
    have hsame : s'.events channel clientId ++ s'.waiting channel clientId =
        s.events channel clientId ++ s.waiting channel clientId := by
      rw [← hstep]
      simp only [State.events, State.waiting, List.filter_append, List.map_append,
        List.append_assoc]
      congr 1
      cases hof : call.of channel clientId with
      | true =>
        have hevent : PubSubEvent.of channel clientId
            ⟨call.channel, call.clientId, ts, call.kind⟩ = true := hof
        have hfirst : ∀ j < i, ∀ y, s.calls[j]? = some y → y.of channel clientId = false := by
          intro j hj y hy
          have hearlier := hok call hcall j hj y hy
          simp only [Call.of, Bool.and_eq_true, decide_eq_true_eq] at hof
          rw [hof.1, hof.2] at hearlier
          simpa [Call.of] using hearlier
        rw [filter_eraseIdx_first hcall hof hfirst]
        simp [hevent]
      | false =>
        have hevent : PubSubEvent.of channel clientId
            ⟨call.channel, call.clientId, ts, call.kind⟩ = false := hof
        simp [hevent, filter_eraseIdx hcall hof]
    have hmap : s'.map = s.map := by rw [← hstep]
    unfold Announced at h ⊢
    rw [hsame, hmap]
    exact h
  · cases hstep

theorem announced_step (h : Announced s channel clientId) (hok : inOrder s a)
    (hstep : step s a = some s') : Announced s' channel clientId := by
  cases a with
  | register c x now => exact announced_register h hstep
  | drop n => exact announced_drop h hstep
  | send i ts => exact announced_send h hok hstep

/-- As long as the events of each pair are sent in the order of their updates, they agree with the
roster. -/
theorem presence_events_agree (h : Reach step inOrder .start s) (channel clientId : String) :
    Agrees s channel clientId := by
  refine Announced.agrees (h.inv (fun s => Announced s channel clientId) ?_ fun t a u ht hok hstep =>
    announced_step ht hok hstep)
  refine ⟨fun i k hk => by simp [State.events, State.waiting, State.start] at hk, ?_⟩
  simp [State.events, State.waiting, State.start, entryAt]

/-! ## A reconnect -/

/-- The last subscription is closed and its leave is still to be sent when the client comes back:
the new join overtakes it. -/
def reconnect : List Act :=
  [.register "room" "ada" 1, .send 0 1, .drop 0, .register "room" "ada" 2, .send 1 2, .send 0 3]

theorem leave_overtaken :
    ∃ s, exec step .start reconnect = some s ∧ s.calls = [] ∧
      s.events "room" "ada" = [.join, .join, .leave] ∧
      entryAt s.map "room" "ada" = some ⟨2, 1⟩ ∧ ¬ Agrees s "room" "ada" := by
  refine ⟨_, rfl, rfl, by decide, by decide, ?_⟩
  intro h
  exact absurd (h.1 1 .join rfl) (by decide)

theorem presence_events_agree_twoTabs :
    ∃ s, exec step .start twoTabs = some s ∧ Agrees s "room" "ada" := by
  obtain ⟨s, hs⟩ : ∃ s, exec step .start twoTabs = some s := ⟨_, rfl⟩
  have hallowed : Allowed step inOrder .start twoTabs := by
    refine ⟨trivial, fun t ht => ?_⟩
    cases ht
    refine ⟨fun _ _ j hj => absurd hj (Nat.not_lt_zero j), fun t ht => ?_⟩
    cases ht
    refine ⟨trivial, fun t ht => ?_⟩
    cases ht
    refine ⟨trivial, fun t ht => ?_⟩
    cases ht
    exact ⟨trivial, fun t ht => trivial⟩
  exact ⟨s, hs, presence_events_agree (.of_exec twoTabs hallowed hs) "room" "ada"⟩

end TinyLord.Pubsub
