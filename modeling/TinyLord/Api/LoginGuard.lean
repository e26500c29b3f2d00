import Mathlib.Algebra.Ring.Nat
import Mathlib.Data.List.Perm.Basic
import TinyLord.Lib.History
import TinyLord.Lib.Run

/-!
# The limit on failed logins

`login` asks the guard, verifies the password, and tells the guard how that went. The guard's lock
is held for each of its calls and not between them. Times are nanoseconds of the monotonic clock.
-/

open Lib.Run Lib.History

namespace TinyLord.Login

/-! ## `LoginGuard` -/

/-- The failures of a key, a `u32`, and when its window began. -/
structure Attempts where
  count : Nat
  since : Nat
  deriving DecidableEq, Repr

abbrev LoginGuard := String → Option Attempts

def window : Nat := 60 * 10 ^ 9

/-- `Instant::elapsed` never goes below zero. -/
def Attempts.expired (e : Attempts) (now : Nat) : Bool := decide (window ≤ now - e.since)

/-- The clock is read for `or_insert`, for `elapsed`, and for the new window. -/
structure Readings where
  insert : Nat
  elapsed : Nat
  reset : Nat

def LoginGuard.entry (g : LoginGuard) (key : String) (now : Nat) : Attempts :=
  (g key).getD ⟨0, now⟩

def LoginGuard.expired (g : LoginGuard) (key : String) (now : Readings) : Bool :=
  (g.entry key now.insert).expired now.elapsed

/-- The entry that `check` leaves for the key. -/
def LoginGuard.checked (g : LoginGuard) (key : String) (now : Readings) : Attempts :=
  if g.expired key now then ⟨0, now.reset⟩ else g.entry key now.insert

def LoginGuard.check (g : LoginGuard) (key : String) (now : Readings) : Bool × LoginGuard :=
  let e := g.checked key now
  (decide (e.count < 5), Function.update g key (some e))

/-- A release build wraps around. -/
def LoginGuard.fail (g : LoginGuard) (key : String) (now : Nat) : LoginGuard :=
  let e := g.entry key now
  Function.update g key (some { e with count := (e.count + 1) % 2 ^ 32 })

def LoginGuard.success (g : LoginGuard) (key : String) : LoginGuard := Function.update g key none

/-! ## `login` -/

inductive Stage where
  /-- The guard has let the request through. -/
  | admitted
  /-- The password was verified, and is not the user's. -/
  | rejected
  /-- The password was verified, and is the user's. -/
  | verified
  deriving DecidableEq, Repr

structure Request where
  key : String
  stage : Stage
  deriving DecidableEq, Repr

inductive Event where
  | admitted (key : String)
  | refused (key : String)
  | verified (key : String) (ok : Bool)
  | failed (key : String)
  /-- The window has expired, or a login has succeeded. -/
  | reset (key : String)
  deriving DecidableEq, Repr

structure System where
  guard : LoginGuard
  clock : Nat
  requests : List Request
  log : List Event

def init : System := { guard := fun _ => none, clock := 0, requests := [], log := [] }

def loginKey (ip username : String) : String := ip ++ ":" ++ username

inductive Act where
  /-- A new request asks the guard. -/
  | check (ip username : String) (now : Readings)
  /-- Request `i` looks up the user and verifies the password. -/
  | verify (i : Nat) (ok : Bool)
  /-- Request `i` cannot look up the user, and ends with an internal error. -/
  | abort (i : Nat)
  | fail (i : Nat) (now : Nat)
  | success (i : Nat)

/-- What a check puts in the log. -/
def checkEvents (g : LoginGuard) (key : String) (now : Readings) : List Event :=
  (if g.expired key now then [.reset key] else []) ++
    [if (g.check key now).1 then .admitted key else .refused key]

def step (s : System) : Act → Option System
  | .check ip username now =>
    let key := loginKey ip username
    if s.clock ≤ now.insert ∧ now.insert ≤ now.elapsed ∧ now.elapsed ≤ now.reset then
      some {
        guard := (s.guard.check key now).2
        clock := now.reset
        requests :=
          if (s.guard.check key now).1 then s.requests ++ [⟨key, .admitted⟩] else s.requests
        log := s.log ++ checkEvents s.guard key now }
    else none
  | .verify i ok =>
    match s.requests[i]? with
    | some ⟨key, .admitted⟩ =>
      some { s with
        requests := s.requests.set i ⟨key, if ok then .verified else .rejected⟩
        log := s.log ++ [.verified key ok] }
    | _ => none
  | .abort i =>
    match s.requests[i]? with
    | some ⟨_, .admitted⟩ => some { s with requests := s.requests.eraseIdx i }
    | _ => none
  | .fail i now =>
    match s.requests[i]? with
    | some ⟨key, .rejected⟩ =>
      if s.clock ≤ now then
        some {
          guard := s.guard.fail key now
          clock := now
          requests := s.requests.eraseIdx i
          log := s.log ++ [.failed key] }
      else none
    | _ => none
  | .success i =>
    match s.requests[i]? with
    | some ⟨key, .verified⟩ =>
      some { s with
        guard := s.guard.success key
        requests := s.requests.eraseIdx i
        log := s.log ++ [.reset key] }
    | _ => none

/-! ## The limit -/

def isReset (key : String) (e : Event) : Bool := e == .reset key

def isFailed (key : String) (e : Event) : Bool := e == .failed key

def isRejected (key : String) (e : Event) : Bool := e == .verified key false

def failures (key : String) (log : List Event) : Nat := countSince (isFailed key) (isReset key) log

def rejections (key : String) (log : List Event) : Nat :=
  countSince (isRejected key) (isReset key) log

def Stage.mayFail : Stage → Bool
  | .admitted | .rejected => true
  | .verified => false

def Stage.isRejected : Stage → Bool
  | .rejected => true
  | .admitted | .verified => false

/-- The request is on its way, and may still fail. -/
def Request.mayFail (key : String) (r : Request) : Bool := r.key == key && r.stage.mayFail

def Request.isRejected (key : String) (r : Request) : Bool := r.key == key && r.stage.isRejected

def inFlight (key : String) (requests : List Request) : Nat :=
  requests.countP (Request.mayFail key)

/-- A request is let through only while the failures of its key, and the requests with that key that
may still fail, are together fewer than five. -/
def Act.limited (s : System) : Act → Prop
  | .check ip username now =>
    let count := (s.guard.checked (loginKey ip username) now).count
    count < 5 → count + inFlight (loginKey ip username) s.requests < 5
  | _ => True

/-- Between two resets of the key, five logins fail at most, and as many passwords are rejected. -/
def Bounded (key : String) (log : List Event) : Prop :=
  Limited (isFailed key) (isReset key) 5 log ∧ Limited (isRejected key) (isReset key) 5 log

/-! ## What each action does -/

variable {s s' : System} {g : LoginGuard} {key k ip username : String} {e : Event}
  {log : List Event} {now : Readings} {a : Act} {i t : Nat} {ok : Bool}

theorem step_check (h : step s (.check ip username now) = some s') :
    s'.guard = (s.guard.check (loginKey ip username) now).2 ∧
    s'.requests = (if (s.guard.check (loginKey ip username) now).1 then
      s.requests ++ [⟨loginKey ip username, .admitted⟩] else s.requests) ∧
    s'.log = s.log ++ checkEvents s.guard (loginKey ip username) now := by
  simp only [step] at h
  split at h
  · cases h
    exact ⟨rfl, rfl, rfl⟩
  · contradiction

theorem step_verify (h : step s (.verify i ok) = some s') :
    ∃ key, s.requests[i]? = some ⟨key, .admitted⟩ ∧ s' = { s with
      requests := s.requests.set i ⟨key, if ok then .verified else .rejected⟩
      log := s.log ++ [.verified key ok] } := by
  simp only [step] at h
  split at h
  · next key hi => exact ⟨key, hi, (Option.some.inj h).symm⟩
  · contradiction

theorem step_abort (h : step s (.abort i) = some s') :
    ∃ key, s.requests[i]? = some ⟨key, .admitted⟩ ∧
      s' = { s with requests := s.requests.eraseIdx i } := by
  simp only [step] at h
  split at h
  · next key hi => exact ⟨key, hi, (Option.some.inj h).symm⟩
  · contradiction

theorem step_fail (h : step s (.fail i t) = some s') :
    ∃ key, s.requests[i]? = some ⟨key, .rejected⟩ ∧ s' = {
      guard := s.guard.fail key t
      clock := t
      requests := s.requests.eraseIdx i
      log := s.log ++ [.failed key] } := by
  simp only [step] at h
  split at h
  · next key hi =>
    split_ifs at h
    exact ⟨key, hi, (Option.some.inj h).symm⟩
  · contradiction

theorem step_success (h : step s (.success i) = some s') :
    ∃ key, s.requests[i]? = some ⟨key, .verified⟩ ∧ s' = { s with
      guard := s.guard.success key
      requests := s.requests.eraseIdx i
      log := s.log ++ [.reset key] } := by
  simp only [step] at h
  split at h
  · next key hi => exact ⟨key, hi, (Option.some.inj h).symm⟩
  · contradiction

/-! ## Counting requests and events -/

section

variable {ρ : Type*} {rs : List ρ} {r : ρ}

theorem countP_eraseIdx (p : ρ → Bool) (h : rs[i]? = some r) :
    (rs.eraseIdx i).countP p + (p r).toNat = rs.countP p := by
  obtain ⟨hi, rfl⟩ := List.getElem?_eq_some_iff.mp h
  rw [← (List.getElem_cons_eraseIdx_perm hi).countP_eq p, List.countP_cons]
  cases p rs[i] <;> rfl

theorem countP_set (p : ρ → Bool) (r' : ρ) (h : rs[i]? = some r) :
    (rs.set i r').countP p + (p r).toNat = rs.countP p + (p r').toNat := by
  obtain ⟨hi, -⟩ := List.getElem?_eq_some_iff.mp h
  have herase := countP_eraseIdx p h
  rw [(List.set_perm_cons_eraseIdx hi r').countP_eq p, List.countP_cons]
  cases p r' <;> simp only [Bool.toNat_true, Bool.toNat_false, if_true, if_false,
    Bool.false_eq_true] <;> omega

end

theorem failures_concat : failures key (log ++ [e]) =
    if e = .reset key then 0 else if e = .failed key then failures key log + 1
    else failures key log := by
  simp [failures, countSince_concat, isReset, isFailed]

theorem rejections_concat : rejections key (log ++ [e]) =
    if e = .reset key then 0 else if e = .verified key false then rejections key log + 1
    else rejections key log := by
  simp [rejections, countSince_concat, isReset, isRejected]

theorem Bounded.concat (h : Bounded key log) (hf : failures key (log ++ [e]) ≤ 5)
    (hr : rejections key (log ++ [e]) ≤ 5) : Bounded key (log ++ [e]) :=
  ⟨h.1.concat hf, h.2.concat hr⟩

@[simp] theorem mayFail_mk (k : String) (stage : Stage) :
    (Request.mk k stage).mayFail key = (k == key && stage.mayFail) := rfl

@[simp] theorem isRejected_mk (k : String) (stage : Stage) :
    (Request.mk k stage).isRejected key = (k == key && stage.isRejected) := rfl

theorem inFlight_eq (key : String) (rs : List Request) : inFlight key rs =
    rs.countP (Request.isRejected key) + rs.count ⟨key, .admitted⟩ := by
  unfold inFlight
  induction rs with
  | nil => rfl
  | cons r rs ih =>
    obtain ⟨k, stage⟩ := r
    rw [List.countP_cons, List.countP_cons, List.count_cons, ih]
    by_cases hk : k = key
    · cases stage <;> simp [hk, Stage.mayFail, Stage.isRejected] <;> omega
    · simp [hk, beq_eq_false_iff_ne.mpr hk]

theorem rejected_le_inFlight (key : String) (rs : List Request) :
    rs.countP (Request.isRejected key) ≤ inFlight key rs := by
  rw [inFlight_eq]
  exact Nat.le_add_right _ _

/-! ## What the guard does to the count of a key -/

def LoginGuard.count (g : LoginGuard) (key : String) : Nat :=
  match g key with
  | some e => e.count
  | none => 0

theorem entry_count (now : Nat) : (g.entry key now).count = g.count key := by
  unfold LoginGuard.entry LoginGuard.count
  cases g key <;> rfl

theorem checked_count :
    (g.checked key now).count = if g.expired key now then 0 else g.count key := by
  unfold LoginGuard.checked
  split
  · rfl
  · exact entry_count now.insert

theorem update_count (e : Option Attempts) : LoginGuard.count (Function.update g key e) k =
    if k = key then (match e with | some e => e.count | none => 0) else g.count k := by
  unfold LoginGuard.count
  by_cases hk : k = key
  · rw [hk, Function.update_self, if_pos rfl]
  · rw [Function.update_of_ne hk, if_neg hk]

theorem fail_count (t : Nat) : (g.fail key t).count k =
    if k = key then (g.count key + 1) % 2 ^ 32 else g.count k := by
  unfold LoginGuard.fail
  rw [update_count, ← @entry_count g key t]

theorem success_count : (g.success key).count k = if k = key then 0 else g.count k :=
  update_count none

/-! ## The invariant -/

/-- The guard counts the failures of the key, and leaves room for the requests that are on their
way. A rejected password is a failure, or about to be one. -/
structure Inv (key : String) (s : System) : Prop where
  count : s.guard.count key = failures key s.log
  room : failures key s.log + inFlight key s.requests ≤ 5
  rejected : rejections key s.log ≤
    failures key s.log + s.requests.countP (Request.isRejected key)
  bounded : Bounded key s.log

theorem inv_init (key : String) : Inv key init where
  count := rfl
  room := Nat.zero_le 5
  rejected := Nat.zero_le _
  bounded := ⟨Limited.nil, Limited.nil⟩

theorem Inv.concat (h : Inv key s) (hlog : s'.log = s.log ++ [e])
    (hcount : s'.guard.count key = failures key s'.log)
    (hroom : failures key s'.log + inFlight key s'.requests ≤ 5)
    (hrejected : rejections key s'.log ≤
      failures key s'.log + s'.requests.countP (Request.isRejected key)) : Inv key s' := by
  have hle := rejected_le_inFlight key s'.requests
  refine ⟨hcount, hroom, hrejected, ?_⟩
  rw [hlog] at hroom hrejected ⊢
  exact h.bounded.concat (by omega) (by omega)

theorem inv_verify (h : Inv key s) (hstep : step s (.verify i ok) = some s') : Inv key s' := by
  obtain ⟨k, hi, rfl⟩ := step_verify hstep
  have hflight := countP_set (Request.mayFail key)
    ⟨k, if ok then .verified else .rejected⟩ hi
  have hrej := countP_set (Request.isRejected key)
    ⟨k, if ok then .verified else .rejected⟩ hi
  have hroom := h.room
  have hrejected := h.rejected
  have hf : failures key (s.log ++ [.verified k ok]) = failures key s.log := by
    simp [failures_concat]
  unfold inFlight at hroom
  simp only [mayFail_mk, isRejected_mk] at hflight hrej
  refine h.concat rfl (hf ▸ h.count) ?_ ?_
  · simp only [hf, inFlight]
    by_cases hk : k = key
    · cases ok <;> simp [hk, Stage.mayFail] at hflight ⊢ <;> omega
    · simp [beq_eq_false_iff_ne.mpr hk] at hflight
      omega
  · simp only [hf, rejections_concat]
    by_cases hk : k = key
    · cases ok <;> simp [hk, Stage.isRejected] at hrej ⊢ <;> omega
    · simp [hk, beq_eq_false_iff_ne.mpr hk] at hrej ⊢
      omega

theorem inv_abort (h : Inv key s) (hstep : step s (.abort i) = some s') : Inv key s' := by
  obtain ⟨k, hi, rfl⟩ := step_abort hstep
  have hflight := countP_eraseIdx (Request.mayFail key) hi
  have hrej := countP_eraseIdx (Request.isRejected key) hi
  have hroom := h.room
  have hrejected := h.rejected
  unfold inFlight at hroom
  simp [Stage.isRejected] at hrej
  refine ⟨h.count, ?_, ?_, h.bounded⟩
  · simp only [inFlight]
    omega
  · simp only
    omega

theorem inv_fail (h : Inv key s) (hstep : step s (.fail i t) = some s') : Inv key s' := by
  obtain ⟨k, hi, rfl⟩ := step_fail hstep
  have hflight := countP_eraseIdx (Request.mayFail key) hi
  have hrej := countP_eraseIdx (Request.isRejected key) hi
  have hcount := h.count
  have hroom := h.room
  have hrejected := h.rejected
  have hr : rejections key (s.log ++ [.failed k]) = rejections key s.log := by
    simp [rejections_concat]
  unfold inFlight at hroom
  by_cases hk : k = key
  · subst hk
    have hf : failures k (s.log ++ [.failed k]) = failures k s.log + 1 := by
      simp [failures_concat]
    simp [Stage.mayFail, Stage.isRejected] at hflight hrej
    refine h.concat rfl ?_ ?_ ?_
    · simp only [hf, fail_count, if_true, hcount]
      omega
    · simp only [hf, inFlight]
      omega
    · simp only [hf, hr]
      omega
  · have hf : failures key (s.log ++ [.failed k]) = failures key s.log := by
      simp [failures_concat, hk]
    simp [beq_eq_false_iff_ne.mpr hk] at hflight hrej
    refine h.concat rfl ?_ ?_ ?_
    · simp only [hf, fail_count]
      rw [if_neg (Ne.symm hk), hcount]
    · simp only [hf, inFlight]
      omega
    · simp only [hf, hr]
      omega

theorem inv_success (h : Inv key s) (hstep : step s (.success i) = some s') : Inv key s' := by
  obtain ⟨k, hi, rfl⟩ := step_success hstep
  have hflight := countP_eraseIdx (Request.mayFail key) hi
  have hrej := countP_eraseIdx (Request.isRejected key) hi
  have hcount := h.count
  have hroom := h.room
  have hrejected := h.rejected
  unfold inFlight at hroom
  simp [Stage.mayFail, Stage.isRejected] at hflight hrej
  by_cases hk : k = key
  · refine h.concat rfl ?_ ?_ ?_
    · simp [success_count, failures_concat, hk]
    · simp only [failures_concat, hk, if_true, inFlight]
      omega
    · simp only [rejections_concat, hk, if_true]
      omega
  · have hf : failures key (s.log ++ [.reset k]) = failures key s.log := by
      simp [failures_concat, hk]
    have hr : rejections key (s.log ++ [.reset k]) = rejections key s.log := by
      simp [rejections_concat, hk]
    refine h.concat rfl ?_ ?_ ?_
    · simp only [hf, success_count]
      rw [if_neg (Ne.symm hk), hcount]
    · simp only [hf, inFlight]
      omega
    · simp only [hf, hr]
      omega

/-- The log with the reset of a check that finds the window expired. -/
def expiredLog (g : LoginGuard) (key : String) (now : Readings) (log : List Event) : List Event :=
  log ++ if g.expired key now then [.reset key] else []

theorem inv_expired (h : Inv key s) (k : String) (now : Readings) :
    Inv key { s with
      guard := Function.update s.guard k (some (s.guard.checked k now))
      log := expiredLog s.guard k now s.log } := by
  have hcount := h.count
  have hroom := h.room
  have hrejected := h.rejected
  unfold expiredLog
  by_cases hexpired : s.guard.expired k now = true
  · simp only [hexpired, if_true]
    by_cases hk : k = key
    · refine h.concat rfl ?_ ?_ ?_
      · simp [update_count, failures_concat, checked_count, hk, hk ▸ hexpired]
      · simp only [failures_concat, hk, if_true]
        omega
      · simp only [rejections_concat, hk, if_true]
        omega
    · refine h.concat rfl ?_ ?_ ?_
      · simp only [update_count, failures_concat, Event.reset.injEq, hk, if_false,
          if_neg (Ne.symm hk)]
        simpa using hcount
      · simpa [failures_concat, hk] using hroom
      · simpa [failures_concat, rejections_concat, hk] using hrejected
  · simp only [hexpired, Bool.false_eq_true, if_false, List.append_nil]
    refine ⟨?_, hroom, hrejected, h.bounded⟩
    simp only [update_count, checked_count, hexpired, Bool.false_eq_true, if_false]
    split_ifs with hk
    · subst hk
      exact hcount
    · exact hcount

theorem checked_failures (h : Inv key s) (now : Readings) :
    (s.guard.checked key now).count = failures key (expiredLog s.guard key now s.log) := by
  have hcount := (inv_expired h key now).count
  simpa only [update_count, if_true] using hcount

theorem checkEvents_eq : s.log ++ checkEvents g k now = expiredLog g k now s.log ++
    [if (g.check k now).1 then .admitted k else .refused k] := by
  rw [checkEvents, expiredLog, List.append_assoc]

theorem inv_check (h : Inv key s) (hlimited : Act.limited s (.check ip username now))
    (hstep : step s (.check ip username now) = some s') : Inv key s' := by
  obtain ⟨hguard, hrequests, hlog⟩ := step_check hstep
  have h₁ := inv_expired h (loginKey ip username) now
  rw [checkEvents_eq] at hlog
  have hf : failures key s'.log =
      failures key (expiredLog s.guard (loginKey ip username) now s.log) := by
    rw [hlog]
    split <;> simp [failures_concat]
  have hr : rejections key s'.log =
      rejections key (expiredLog s.guard (loginKey ip username) now s.log) := by
    rw [hlog]
    split <;> simp [rejections_concat]
  have hroom := h₁.room
  have hrejected := h₁.rejected
  simp only at hroom hrejected
  refine h₁.concat hlog ?_ ?_ ?_
  · rw [hf, hguard]
    exact h₁.count
  · rw [hf, hrequests]
    unfold inFlight at hroom ⊢
    split_ifs with hpassed
    · have hlt : (s.guard.checked (loginKey ip username) now).count < 5 := by
        simpa [LoginGuard.check] using hpassed
      have hfew := hlimited hlt
      rw [List.countP_append, List.countP_singleton, mayFail_mk]
      by_cases hk : loginKey ip username = key
      · rw [hk] at hfew hroom ⊢
        rw [checked_failures h, inFlight] at hfew
        simp only [Stage.mayFail, BEq.rfl, Bool.and_self, if_true]
        omega
      · rw [beq_eq_false_iff_ne.mpr hk]
        simpa using hroom
    · exact hroom
  · rw [hf, hr, hrequests]
    split_ifs
    · simpa [Stage.isRejected] using hrejected
    · exact hrejected

theorem inv_step (h : Inv key s) (hlimited : a.limited s) (hstep : step s a = some s') :
    Inv key s' := by
  cases a with
  | check ip username now => exact inv_check h hlimited hstep
  | verify i ok => exact inv_verify h hstep
  | abort i => exact inv_abort h hstep
  | fail i now => exact inv_fail h hstep
  | success i => exact inv_success h hstep

/-! ## Requests that all fail -/

theorem exists_mayFail {rs : List Request} (h : 0 < inFlight key rs) :
    ∃ i : Nat, rs[i]? = some ⟨key, .admitted⟩ ∨ rs[i]? = some ⟨key, .rejected⟩ := by
  obtain ⟨⟨k, stage⟩, hr, hmay⟩ := List.countP_pos_iff.mp h
  obtain ⟨i, hi⟩ := List.mem_iff_getElem?.mp hr
  rw [mayFail_mk, Bool.and_eq_true, beq_iff_eq] at hmay
  obtain ⟨rfl, hstage⟩ := hmay
  refine ⟨i, ?_⟩
  cases stage with
  | admitted => exact Or.inl hi
  | rejected => exact Or.inr hi
  | verified => contradiction

theorem fail_rejected (hi : s.requests[i]? = some ⟨key, .rejected⟩) :
    ∃ s', Reach step anyStep s s' ∧ failures key s'.log = failures key s.log + 1 ∧
      inFlight key s'.requests + 1 = inFlight key s.requests := by
  have hstep : step s (.fail i s.clock) = some {
      guard := s.guard.fail key s.clock
      clock := s.clock
      requests := s.requests.eraseIdx i
      log := s.log ++ [.failed key] } := by
    simp [step, hi]
  refine ⟨_, .tail _ .refl trivial hstep, ?_, ?_⟩
  · simp [failures_concat]
  · have hflight := countP_eraseIdx (Request.mayFail key) hi
    simpa [inFlight, Stage.mayFail] using hflight

theorem fail_admitted (hi : s.requests[i]? = some ⟨key, .admitted⟩) :
    ∃ s', Reach step anyStep s s' ∧ failures key s'.log = failures key s.log + 1 ∧
      inFlight key s'.requests + 1 = inFlight key s.requests := by
  have hstep : step s (.verify i false) = some { s with
      requests := s.requests.set i ⟨key, .rejected⟩
      log := s.log ++ [.verified key false] } := by
    simp [step, hi]
  obtain ⟨hlt, -⟩ := List.getElem?_eq_some_iff.mp hi
  have hi' : (s.requests.set i ⟨key, .rejected⟩)[i]? = some ⟨key, .rejected⟩ := by
    simp [hlt]
  obtain ⟨s', hreach, hf, hflight⟩ := fail_rejected (s := { s with
    requests := s.requests.set i ⟨key, .rejected⟩, log := s.log ++ [.verified key false] }) hi'
  refine ⟨s', Reach.trans (.tail _ .refl trivial hstep) hreach, ?_, ?_⟩
  · rw [hf]
    simp [failures_concat]
  · have hset := countP_set (Request.mayFail key) ⟨key, .rejected⟩ hi
    rw [hflight]
    simpa [inFlight, Stage.mayFail] using hset

theorem fail_all (key : String) (n : Nat) : ∀ s, inFlight key s.requests = n →
    ∃ s', Reach step anyStep s s' ∧ failures key s'.log = failures key s.log + n := by
  induction n with
  | zero => exact fun s _ => ⟨s, .refl, rfl⟩
  | succ n ih =>
    intro s hn
    have hone : ∃ s₁, Reach step anyStep s s₁ ∧ failures key s₁.log = failures key s.log + 1 ∧
        inFlight key s₁.requests + 1 = inFlight key s.requests := by
      obtain ⟨i, hi | hi⟩ := exists_mayFail (by omega : 0 < inFlight key s.requests)
      · exact fail_admitted hi
      · exact fail_rejected hi
    obtain ⟨s₁, hreach, hf, hflight⟩ := hone
    obtain ⟨s₂, hreach', hf'⟩ := ih s₁ (by omega)
    exact ⟨s₂, hreach.trans hreach', by omega⟩

/-- A request too many is let through, and some run from there has too many failures. -/
theorem exceeds (h : ∀ key, Inv key s) (hstep : step s a = some s') (hnot : ¬a.limited s) :
    ∃ t key, Reach step anyStep s' t ∧ ¬Bounded key t.log := by
  cases a with
  | verify i ok => exact absurd trivial hnot
  | abort i => exact absurd trivial hnot
  | fail i now => exact absurd trivial hnot
  | success i => exact absurd trivial hnot
  | check ip username now =>
    obtain ⟨-, hrequests, hlog⟩ := step_check hstep
    rw [checkEvents_eq] at hlog
    unfold Act.limited at hnot
    obtain ⟨hlt, hmany⟩ := Classical.not_imp.mp hnot
    have hpassed : (s.guard.check (loginKey ip username) now).1 = true := by
      simpa [LoginGuard.check] using hlt
    have hf : failures (loginKey ip username) s'.log =
        (s.guard.checked (loginKey ip username) now).count := by
      rw [checked_failures (h _), hlog]
      split <;> simp [failures_concat]
    have hflight : inFlight (loginKey ip username) s'.requests =
        inFlight (loginKey ip username) s.requests + 1 := by
      rw [hrequests, if_pos hpassed]
      simp [inFlight, Stage.mayFail]
    obtain ⟨t, hreach, ht⟩ := fail_all (loginKey ip username) _ s' rfl
    refine ⟨t, loginKey ip username, hreach, ?_⟩
    rintro ⟨hlimit, -⟩
    obtain ⟨w, hw, hcount⟩ := exists_window (isFailed (loginKey ip username))
      (isReset (loginKey ip username)) t.log
    have hle := hlimit w hw
    rw [hcount] at hle
    unfold failures at hf ht
    omega

/-! ## The result -/

/-- Once five have failed, none with the key waits for its verification, and a check refuses. -/
theorem refused_after_five (h : Inv key s)
    (hfive : 5 ≤ failures key s.log ∨ 5 ≤ rejections key s.log) :
    ⟨key, .admitted⟩ ∉ s.requests ∧ 5 ≤ failures key s.log + inFlight key s.requests := by
  have hroom := h.room
  have hrejected := h.rejected
  have hle := rejected_le_inFlight key s.requests
  have heq := inFlight_eq key s.requests
  refine ⟨?_, by omega⟩
  rw [← List.count_eq_zero]
  omega

theorem check_refused (h : Inv (loginKey ip username) s)
    (hfive :
      5 ≤ failures (loginKey ip username) s.log ∨ 5 ≤ rejections (loginKey ip username) s.log)
    (hwindow : s.guard.expired (loginKey ip username) now = false)
    (hlimited : Act.limited s (.check ip username now))
    (hstep : step s (.check ip username now) = some s') :
    s'.requests = s.requests ∧ s'.log = s.log ++ [.refused (loginKey ip username)] := by
  obtain ⟨-, hrequests, hlog⟩ := step_check hstep
  have hcount : (s.guard.checked (loginKey ip username) now).count =
      failures (loginKey ip username) s.log := by
    rw [checked_count, hwindow, h.count]
    rfl
  have hmany := (refused_after_five h hfive).2
  have hpassed : (s.guard.check (loginKey ip username) now).1 = false := by
    rw [LoginGuard.check, decide_eq_false_iff_not]
    intro hlt
    have hfew := hlimited hlt
    rw [hcount] at hfew
    omega
  rw [checkEvents, hwindow, hpassed] at hlog
  rw [hpassed] at hrequests
  exact ⟨hrequests, hlog⟩

/-- In a run that lets no request through while five may fail: between two resets of a key five
logins fail at most, and after five every request is refused before its password is verified.
A step that lets one more through leads to a run where this does not hold. -/
theorem at_most_five_failures (h : Reach step (fun s a => a.limited s) init s) :
    (∀ key, Bounded key s.log) ∧
    (∀ key, 5 ≤ failures key s.log ∨ 5 ≤ rejections key s.log → ⟨key, .admitted⟩ ∉ s.requests) ∧
    (∀ ip username now s', s.guard.expired (loginKey ip username) now = false →
      5 ≤ failures (loginKey ip username) s.log ∨ 5 ≤ rejections (loginKey ip username) s.log →
      Act.limited s (.check ip username now) → step s (.check ip username now) = some s' →
      s'.requests = s.requests ∧ s'.log = s.log ++ [.refused (loginKey ip username)]) ∧
    ∀ a s', step s a = some s' → ¬a.limited s →
      ∃ t key, Reach step anyStep s' t ∧ ¬Bounded key t.log := by
  have hinv : ∀ key, Inv key s := fun key =>
    h.inv (Inv key) (inv_init key) fun _ _ _ ht hok hstep => inv_step ht hok hstep
  refine ⟨fun key => (hinv key).bounded, ?_, ?_, ?_⟩
  · intro key hfive
    exact (refused_after_five (hinv key) hfive).1
  · intro ip username now s' hwindow hfive hlimited hstep
    exact check_refused (hinv _) hfive hwindow hlimited hstep
  · intro a s' hstep hnot
    exact exceeds hinv hstep hnot

instance (s : System) (a : Act) : Decidable (a.limited s) :=
  match a with
  | .check _ _ _ => inferInstanceAs (Decidable (_ → _))
  | .verify .. | .abort .. | .fail .. | .success .. => inferInstanceAs (Decidable True)

/-- `n` requests with wrong passwords ask the guard at the same time, before any of them fails. -/
def burst (n : Nat) : List Act :=
  List.replicate n (.check "10.0.0.1" "bob" ⟨0, 0, 0⟩) ++
    (List.range n).map (fun i => .verify i false) ++ List.replicate n (.fail 0 0)

/-- Five at the same time, and a sixth after them. -/
theorem at_most_five_failures_burst :
    ∃ s, exec step init (burst 5 ++ [.check "10.0.0.1" "bob" ⟨1, 1, 1⟩]) = some s ∧
      s.log.getLast? = some (.refused "10.0.0.1:bob") ∧ Bounded "10.0.0.1:bob" s.log := by
  have hruns : ((exec step init (burst 5 ++ [.check "10.0.0.1" "bob" ⟨1, 1, 1⟩])).map
      fun s => s.log.getLast?) = some (some (.refused "10.0.0.1:bob")) := by decide
  obtain ⟨s, hs, hlast⟩ := Option.map_eq_some_iff.mp hruns
  have hok : Allowed step (fun s a => a.limited s) init
      (burst 5 ++ [.check "10.0.0.1" "bob" ⟨1, 1, 1⟩]) := by decide
  exact ⟨s, hs, hlast, (at_most_five_failures (.of_exec _ hok hs)).1 _⟩

/-- Six at the same time, in one window. -/
theorem six_failures :
    ∃ s, exec step init (burst 6) = some s ∧ (∀ e ∈ s.log, e ≠ .reset "10.0.0.1:bob") ∧
      s.log.count (.failed "10.0.0.1:bob") = 6 ∧ ¬Bounded "10.0.0.1:bob" s.log := by
  have hruns : ((exec step init (burst 6)).map fun s =>
      (decide (∀ e ∈ s.log, e ≠ .reset "10.0.0.1:bob"), s.log.count (.failed "10.0.0.1:bob"))) =
      some (true, 6) := by decide
  obtain ⟨s, hs, heq⟩ := Option.map_eq_some_iff.mp hruns
  obtain ⟨hnone, hcount⟩ := Prod.mk.inj heq
  rw [decide_eq_true_iff] at hnone
  refine ⟨s, hs, hnone, hcount, ?_⟩
  rintro ⟨hlimit, -⟩
  have hle := hlimit s.log ⟨⟨[], [], by simp⟩, fun e he => by simpa [isReset] using hnone e he⟩
  have hsix : s.log.countP (isFailed "10.0.0.1:bob") = 6 := hcount
  omega

end TinyLord.Login
