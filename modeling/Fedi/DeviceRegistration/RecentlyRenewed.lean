import Fedi.Lib.Runs

/-!
# Waiting for a recent renewal (`device-registration/src/lib.rs`)

One task renews the registration and puts the time of each success into a watch channel.  A call of
`wait_for_recently_renewed` checks the value of the channel at once, and again when a renewal wakes it.  How long a
registration takes, how it ends and when a woken call runs are events; the clock does not go back.

    a call returns at its first check after some renewal             (recentlyRenewed_of_le)
    every return is recent iff every such check happens in time      (returns_recent_iff)
-/

namespace DeviceRegistration

open Runs

/-! ## The service -/

/-- In nanoseconds, as all times and durations here. -/
def deviceRegistrationFrequency : ℕ := 900_000_000_000

def oneMinute : ℕ := 60_000_000_000

/-- A watch channel holds the last value sent; a receiver knows the version it saw. -/
structure Watch (α : Type) where
  value : α
  version : ℕ

def Watch.sendReplace {α : Type} (w : Watch α) (value : α) : Watch α := ⟨value, w.version + 1⟩

/-- Where the loop of `renew_registration_periodically` is. -/
inductive Renewing where
  | registering
  | sleeping (wakesAt : ℕ)
  | ended
deriving DecidableEq

/-- When a call returned, and when the registration had last been renewed. -/
structure Return where
  moment : ℕ
  lastRenewed : Option ℕ
deriving DecidableEq

structure Service where
  now : ℕ
  renewing : Renewing
  justRenewedTick : Watch (Option ℕ)
  /-- The version that each waiting call saw. -/
  waiting : List ℕ
  -- history
  lastRenewed : Option ℕ
  returns : List Return

def Service.new (now : ℕ) : Service := ⟨now, .registering, ⟨none, 0⟩, [], none, []⟩

inductive Event where
  | elapse (duration : ℕ)
  /-- `register_device_with_backoff` ends. -/
  | registered (ok : Bool)
  | wake
  | waitForRecentlyRenewed
  /-- A call that waits runs again. -/
  | resume (i : ℕ)

/-- What `wait_for` waits for. -/
def recentlyRenewed (now : ℕ) (lastRenewedTime : Option ℕ) : Bool :=
  lastRenewedTime.any fun t => decide (now + oneMinute > t)

/-- A check of `wait_for`: the call returns, or waits for the next version. -/
def Service.check (s : Service) (others : List ℕ) : Service :=
  if recentlyRenewed s.now s.justRenewedTick.value then
    { s with waiting := others, returns := ⟨s.now, s.lastRenewed⟩ :: s.returns }
  else { s with waiting := others ++ [s.justRenewedTick.version] }

def Service.step (s : Service) : Event → Except Unit Service
  | .elapse duration => .ok { s with now := s.now + duration }
  | .registered ok =>
    if s.renewing = .registering then
      if ok then
        .ok { s with
          renewing := .sleeping (s.now + deviceRegistrationFrequency)
          justRenewedTick := s.justRenewedTick.sendReplace (some s.now)
          lastRenewed := some s.now }
      else .ok { s with renewing := .ended }
    else .error ()
  | .wake =>
    match s.renewing with
    | .sleeping wakesAt => if wakesAt ≤ s.now then .ok { s with renewing := .registering } else .error ()
    | _ => .error ()
  | .waitForRecentlyRenewed => .ok (s.check s.waiting)
  | .resume i =>
    match s.waiting[i]? with
    | some seen => if seen ≠ s.justRenewedTick.version then .ok (s.check (s.waiting.eraseIdx i)) else .error ()
    | none => .error ()

/-! ## What is promised, and when it is kept -/

/-- The registration had been renewed at most a minute before. -/
def Return.Recent (r : Return) : Prop := ∃ t, r.lastRenewed = some t ∧ r.moment ≤ t + oneMinute

/-- A call that is made after some renewal, or that a renewal wakes, runs within a minute of the last one. -/
def Service.InTime (s : Service) : Event → Prop
  | .waitForRecentlyRenewed => ∀ t, s.lastRenewed = some t → s.now ≤ t + oneMinute
  | .resume _ => ∀ t, s.lastRenewed = some t → s.now ≤ t + oneMinute
  | _ => True

/-- The channel holds the time of the last renewal, which is past. -/
structure Service.Timed (s : Service) : Prop where
  tick : s.justRenewedTick.value = s.lastRenewed
  past : ∀ t, s.lastRenewed = some t → t ≤ s.now

variable {s s' : Service} {e : Event}

/-! ## Steps -/

/-- No renewal of the past is too old. -/
theorem recentlyRenewed_of_le {now t : ℕ} (h : t ≤ now) : recentlyRenewed now (some t) = true := by
  have hpos : 0 < oneMinute := by decide
  have hlt : now + oneMinute > t := by omega
  unfold recentlyRenewed
  rw [Option.any_some, decide_eq_true hlt]

/-- A check returns as soon as there was a renewal. -/
theorem check_cases (h : s.Timed) (others : List ℕ) :
    (s.lastRenewed = none ∧ (s.check others).returns = s.returns) ∨
      (∃ t, s.lastRenewed = some t ∧ (s.check others).returns = ⟨s.now, some t⟩ :: s.returns) := by
  unfold Service.check
  rw [h.tick]
  cases hlast : s.lastRenewed with
  | none => exact .inl ⟨rfl, rfl⟩
  | some t =>
    refine .inr ⟨t, rfl, ?_⟩
    rw [if_pos (recentlyRenewed_of_le (h.past t hlast))]

theorem check_timed (h : s.Timed) (others : List ℕ) : (s.check others).Timed := by
  unfold Service.check
  by_cases hrecent : recentlyRenewed s.now s.justRenewedTick.value = true
  · rw [if_pos hrecent]
    exact ⟨h.tick, h.past⟩
  · rw [if_neg hrecent]
    exact ⟨h.tick, h.past⟩

/-- What a step returns: nothing, and it was in time; or one call, and it was in time iff the return is recent. -/
def Returns (s : Service) (e : Event) (s' : Service) : Prop :=
  (s'.returns = s.returns ∧ s.InTime e) ∨
    ∃ r : Return, s'.returns = r :: s.returns ∧ (s.InTime e ↔ r.Recent)

theorem check_returns (h : s.Timed) (others : List ℕ)
    (he : s.InTime e ↔ ∀ t, s.lastRenewed = some t → s.now ≤ t + oneMinute) : Returns s e (s.check others) := by
  rcases check_cases h others with ⟨hnone, hreturns⟩ | ⟨t, hlast, hreturns⟩
  · refine .inl ⟨hreturns, he.mpr ?_⟩
    intro t hlast
    rw [hnone] at hlast
    cases hlast
  · refine .inr ⟨⟨s.now, some t⟩, hreturns, ?_⟩
    rw [he, hlast]
    constructor
    · intro hintime
      exact ⟨t, rfl, hintime t rfl⟩
    · rintro ⟨t', hlast', hle⟩ t'' heq
      cases hlast'
      cases heq
      exact hle

theorem step_timed (h : s.Timed) (hstep : s.step e = .ok s') : s'.Timed := by
  cases e with
  | elapse duration =>
    cases hstep
    refine ⟨h.tick, ?_⟩
    intro t hlast
    exact Nat.le_add_right_of_le (h.past t hlast)
  | registered ok =>
    simp only [Service.step] at hstep
    split_ifs at hstep
    · cases hstep
      refine ⟨rfl, ?_⟩
      intro t hlast
      cases hlast
      exact le_refl _
    · cases hstep
      exact ⟨h.tick, h.past⟩
  | wake =>
    simp only [Service.step] at hstep
    split at hstep
    · split_ifs at hstep
      cases hstep
      exact ⟨h.tick, h.past⟩
    · cases hstep
  | waitForRecentlyRenewed =>
    cases hstep
    exact check_timed h _
  | resume i =>
    simp only [Service.step] at hstep
    split at hstep
    · split_ifs at hstep
      cases hstep
      exact check_timed h _
    · cases hstep

theorem step_returns (h : s.Timed) (hstep : s.step e = .ok s') : Returns s e s' := by
  cases e with
  | elapse duration =>
    cases hstep
    exact .inl ⟨rfl, trivial⟩
  | registered ok =>
    simp only [Service.step] at hstep
    split_ifs at hstep
    · cases hstep
      exact .inl ⟨rfl, trivial⟩
    · cases hstep
      exact .inl ⟨rfl, trivial⟩
  | wake =>
    simp only [Service.step] at hstep
    split at hstep
    · split_ifs at hstep
      cases hstep
      exact .inl ⟨rfl, trivial⟩
    · cases hstep
  | waitForRecentlyRenewed =>
    cases hstep
    exact check_returns h _ Iff.rfl
  | resume i =>
    simp only [Service.step] at hstep
    split at hstep
    · split_ifs at hstep
      cases hstep
      exact check_returns h _ Iff.rfl
    · cases hstep

/-! ## Main result -/

theorem new_timed (start : ℕ) : (Service.new start).Timed := by
  refine ⟨rfl, ?_⟩
  intro t hlast
  cases hlast

theorem run_timed {start : ℕ} {events : List Event} (h : run Service.step (Service.new start) events = .ok s) : s.Timed :=
  run_invariant (fun _ _ _ hs hstep => step_timed hs hstep) (new_timed start) h

/-- In a run every return is recent iff every check is in time. -/
theorem returns_recent_iff (start : ℕ) (events : List Event) (s : Service)
    (h : run Service.step (Service.new start) events = .ok s) :
    (∀ r ∈ s.returns, r.Recent) ↔ EveryStep Service.step (Service.new start) (fun s e _ => s.InTime e) events := by
  apply run_induction (P := fun es s => (∀ r ∈ s.returns, r.Recent) ↔
    EveryStep Service.step (Service.new start) (fun s e _ => s.InTime e) es) _ _ h
  · simp [Service.new, everyStep_nil]
  · intro es s e s' hrun ih hstep
    rw [everyStep_snoc hrun hstep, ← ih]
    rcases step_returns (run_timed hrun) hstep with ⟨hreturns, hintime⟩ | ⟨r, hreturns, hrecent⟩
    · rw [hreturns]
      simp only [hintime, and_true]
    · rw [hreturns, List.forall_mem_cons, hrecent, and_comm]

theorem returns_recent_iff_one_return :
    let events : List Event := [.waitForRecentlyRenewed, .registered true, .elapse 1_000_000_000, .resume 0]
    ∃ s, run Service.step (Service.new 0) events = .ok s ∧ s.returns.length = 1 ∧
      ((∀ r ∈ s.returns, r.Recent) ↔
        EveryStep Service.step (Service.new 0) (fun s e _ => s.InTime e) events) := by
  intro events
  refine ⟨_, rfl, rfl, returns_recent_iff 0 events _ rfl⟩

/-- Ten minutes after the renewal the call returns at once. -/
theorem ten_minutes_are_recent :
    ¬ ∀ (start : ℕ) (events : List Event) (s : Service),
      run Service.step (Service.new start) events = .ok s → ∀ r ∈ s.returns, r.Recent := by
  intro hall
  have hrecent := hall 0 [.registered true, .elapse (10 * oneMinute), .waitForRecentlyRenewed] _ rfl
    ⟨10 * oneMinute, some 0⟩ (by decide)
  obtain ⟨t, hlast, hle⟩ := hrecent
  cases hlast
  exact absurd hle (by decide)

end DeviceRegistration
