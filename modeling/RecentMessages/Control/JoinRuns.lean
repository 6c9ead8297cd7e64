/-
RecentMessages/Control/JoinRuns.lean

Runs of the join state (`db.rs`).

Transactions of the listener come in any order, with stale and repeated events among them, and
with times that may even go backwards.  All that follows is about the rows that such a run can
reach: a transaction changes the row of a channel in one of a few ways, which `JoinMove` lists.

* `step_cases` — what a transaction does to the row of a channel;
* `consistent_run` — the fields of a row fit its state;
* `pending_of_run` — a pending row is of the last attempt of its channel;
* `inFlight_foldl` — an attempt stays in flight until it is settled;
* `timed_out_alike` — an attempt and the sweep time a row out to the same row;
* `join_state_machine` — all of it, for every run.
-/
import RecentMessages.Control.JoinState

namespace RecentMessages

/-! ### What a transaction means for a channel -/

namespace JoinEvent

/-- The transaction begins an attempt of the channel. -/
def Begins (t : JoinTable) (channelLogin : String) (confirmationTimeout : ℕ) : JoinEvent → Prop
  | ⟨now, .beginJoinAttemptIfDue login timeout retryMin retryMax⟩ =>
    toAsciiLowercase login = channelLogin ∧ timeout = confirmationTimeout ∧
      ∃ t', t.beginJoinAttemptIfDue now login timeout retryMin retryMax = .ok (t', true)
  | _ => False

/-- The transaction confirms the channel. -/
def Confirms (channelLogin : String) : JoinEvent → Prop
  | ⟨_, .markJoinConfirmed login⟩ => toAsciiLowercase login = channelLogin
  | _ => False

/-- The transaction marks the channel unavailable. -/
def MarksUnavailable (channelLogin : String) : JoinEvent → Prop
  | ⟨_, .markJoinUnavailable login _ _⟩ => toAsciiLowercase login = channelLogin
  | _ => False

/-- The transaction looks for overdue attempts of the channel, with this back-off. -/
def Sweeps (channelLogin : String) (retryMin retryMax : ℕ) : JoinEvent → Prop
  | ⟨_, .beginJoinAttemptIfDue login _ least most⟩ =>
    toAsciiLowercase login = channelLogin ∧ least = retryMin ∧ most = retryMax
  | ⟨_, .failStaleJoinAttempts least most⟩ => least = retryMin ∧ most = retryMax
  | _ => False

/-- The transaction times the attempt of the channel out. -/
def TimesOut (t : JoinTable) (channelLogin : String) (event : JoinEvent) : Prop :=
  ∃ row retryMin retryMax, t.lookup channelLogin = some row ∧ row.Overdue event.now ∧
    event.Sweeps channelLogin retryMin retryMax ∧
    (t.step event).lookup channelLogin =
      some (row.timeOut (satAdd event.now (retryDelay retryMin retryMax row.consecutiveFailures)))

/-- The transaction settles what became of an attempt of the channel. -/
def Settles (t : JoinTable) (channelLogin : String) (event : JoinEvent) : Prop :=
  event.Confirms channelLogin ∨ event.MarksUnavailable channelLogin ∨
    event.TimesOut t channelLogin

end JoinEvent

/-- What the row of a channel can be after a transaction. -/
inductive JoinMove (t : JoinTable) (event : JoinEvent) (channelLogin : String) :
    Option JoinRow → Prop
  | same (h : ∀ timeout, ¬ event.Begins t channelLogin timeout) :
    JoinMove t event channelLogin (t.lookup channelLogin)
  | begun {timeout : ℕ} (h : event.Begins t channelLogin timeout)
      (hdue : t.Due channelLogin event.now)
      (hu32 : ∀ row, t.lookup channelLogin = some row → row.consecutiveFailures ≤ u32Max) :
    JoinMove t event channelLogin
      (some (((t.lookup channelLogin).getD { channelLogin, state := .pending }).attempt event.now
        (satAdd event.now (durationMs timeout))))
  | confirmed (h : event.Confirms channelLogin) :
    JoinMove t event channelLogin
      (some (((t.lookup channelLogin).map (JoinRow.confirm event.now)).getD
        { channelLogin, state := .joined, lastConfirmedMs := some event.now }))
  | unavailable {failureKind : String} {nextRetry : ℤ}
      (h : event.MarksUnavailable channelLogin) :
    JoinMove t event channelLogin
      (some (((t.lookup channelLogin).map (JoinRow.fail failureKind nextRetry)).getD
        { channelLogin, state := .unavailable, consecutiveFailures := 1, nextRetryMs := nextRetry
          failureKind := some failureKind }))
  | timedOut {row : JoinRow} {nextRetry : ℤ} (h : event.TimesOut t channelLogin)
      (hrow : t.lookup channelLogin = some row) (hover : row.Overdue event.now) :
    JoinMove t event channelLogin (some (row.timeOut nextRetry))

namespace JoinTable

variable {t : JoinTable}

theorem lookup_attempt (t : JoinTable) (channelLogin : String) (now deadline : ℤ) :
    (t.attempt channelLogin now deadline).lookup channelLogin =
      some (((t.lookup channelLogin).getD { channelLogin, state := .pending }).attempt
        now deadline) := by
  refine (KeyTable.lookup_upsert_self t _).trans ?_
  cases t.lookup channelLogin <;> rfl

section

variable {now : ℤ} {login channelLogin : String} {timeout retryMin retryMax : ℕ}

theorem move_beginJoinAttemptIfDue :
    JoinMove t ⟨now, .beginJoinAttemptIfDue login timeout retryMin retryMax⟩ channelLogin
      ((t.step ⟨now, .beginJoinAttemptIfDue login timeout retryMin retryMax⟩).lookup
        channelLogin) := by
  rcases hbegin : t.beginJoinAttemptIfDue now login timeout retryMin retryMax with
    e | ⟨t', begun⟩
  · have hstep : t.step ⟨now, .beginJoinAttemptIfDue login timeout retryMin retryMax⟩ = t := by
      simp only [step, hbegin]
    rw [hstep]
    apply JoinMove.same
    rintro _ ⟨-, -, t', ht'⟩
    rw [hbegin] at ht'
    cases ht'
  have hstep : t.step ⟨now, .beginJoinAttemptIfDue login timeout retryMin retryMax⟩ = t' := by
    simp only [step, hbegin]
  rw [hstep]
  by_cases hk : toAsciiLowercase login = channelLogin
  · subst hk
    rcases beginJoinAttemptIfDue_cases hbegin with
      ⟨rfl, hdue, hu32, rfl⟩ | ⟨rfl, rfl⟩ | ⟨row, rfl, hrow, hover, rfl⟩
    · rw [lookup_attempt]
      exact .begun ⟨rfl, rfl, _, hbegin⟩ hdue hu32
    · -- the answer was no, and it is the only one
      apply JoinMove.same
      rintro _ ⟨-, -, t'', ht''⟩
      rw [hbegin] at ht''
      cases ht''
    · have hlookup := lookup_timeOut t (toAsciiLowercase login)
        (satAdd now (retryDelay retryMin retryMax row.consecutiveFailures))
      rw [hrow] at hlookup
      rw [hlookup]
      refine .timedOut ⟨row, retryMin, retryMax, hrow, hover, ⟨rfl, rfl, rfl⟩, ?_⟩ hrow hover
      rw [hstep]
      exact hlookup
  · -- the row of another channel
    have hsame : t'.lookup channelLogin = t.lookup channelLogin := by
      rcases beginJoinAttemptIfDue_cases hbegin with
        ⟨-, -, -, rfl⟩ | ⟨-, rfl⟩ | ⟨row, -, -, -, rfl⟩
      · exact KeyTable.lookup_upsert_ne t hk
      · rfl
      · exact KeyTable.lookup_modify_ne t (Ne.symm hk)
    rw [hsame]
    exact .same fun _ h => hk h.1

theorem move_failStaleJoinAttempts :
    JoinMove t ⟨now, .failStaleJoinAttempts retryMin retryMax⟩ channelLogin
      ((t.step ⟨now, .failStaleJoinAttempts retryMin retryMax⟩).lookup channelLogin) := by
  rcases hfail : t.failStaleJoinAttempts now retryMin retryMax with e | ⟨t', n⟩
  · have hstep : t.step ⟨now, .failStaleJoinAttempts retryMin retryMax⟩ = t := by
      simp only [step, hfail]
    rw [hstep]
    exact .same nofun
  have hstep : t.step ⟨now, .failStaleJoinAttempts retryMin retryMax⟩ = t' := by
    simp only [step, hfail]
  have hlookup := lookup_failStaleJoinAttempts hfail channelLogin
  rw [hstep]
  rcases hrow : t.lookup channelLogin with - | row
  · rw [hlookup, hrow, Option.map_none, ← hrow]
    exact .same nofun
  · rw [hrow, Option.map_some] at hlookup
    by_cases hover : row.Overdue now
    · rw [if_pos hover] at hlookup
      rw [hlookup]
      refine .timedOut ⟨row, retryMin, retryMax, hrow, hover, ⟨rfl, rfl⟩, ?_⟩ hrow hover
      rw [hstep]
      exact hlookup
    · rw [hlookup, if_neg hover, ← hrow]
      exact .same nofun

end

/-- **What a transaction does to the row of a channel.** -/
theorem step_cases (t : JoinTable) (event : JoinEvent) (channelLogin : String) :
    JoinMove t event channelLogin ((t.step event).lookup channelLogin) := by
  obtain ⟨now, call⟩ := event
  cases call with
  | beginJoinAttemptIfDue => exact move_beginJoinAttemptIfDue
  | markJoinConfirmed login =>
    show JoinMove _ _ _ ((t.markJoinConfirmed now login).lookup channelLogin)
    by_cases hk : toAsciiLowercase login = channelLogin
    · subst hk
      rw [markJoinConfirmed, KeyTable.lookup_upsert_self]
      exact .confirmed rfl
    · rw [markJoinConfirmed, KeyTable.lookup_upsert_ne t hk]
      exact .same nofun
  | markJoinUnavailable login failureKind retryAfter =>
    show JoinMove _ _ _ ((t.markJoinUnavailable now login failureKind retryAfter).lookup _)
    by_cases hk : toAsciiLowercase login = channelLogin
    · subst hk
      rw [markJoinUnavailable, KeyTable.lookup_upsert_self]
      exact .unavailable rfl
    · rw [markJoinUnavailable, KeyTable.lookup_upsert_ne t hk]
      exact .same nofun
  | failStaleJoinAttempts => exact move_failStaleJoinAttempts

end JoinTable

/-! ### Consistent rows -/

/-- The fields of a row fit its state. -/
structure JoinRow.Consistent (row : JoinRow) : Prop where
  joined : row.state = .joined →
    row.consecutiveFailures = 0 ∧ row.nextRetryMs = 0 ∧ row.failureKind = none
  pending : row.state = .pending → row.failureKind = none ∧ row.consecutiveFailures ≤ u32Max
  unavailable : row.state = .unavailable → 1 ≤ row.consecutiveFailures

variable {t : JoinTable} {event : JoinEvent} {channelLogin : String}

theorem JoinRow.consistent_fail (failureKind : String) (nextRetry : ℤ) (row : JoinRow) :
    (row.fail failureKind nextRetry).Consistent :=
  ⟨nofun, nofun, fun _ => Nat.le_add_left 1 _⟩

theorem JoinRow.consistent_timeOut (nextRetry : ℤ) (row : JoinRow) :
    (row.timeOut nextRetry).Consistent :=
  ⟨nofun, nofun, fun _ => Nat.le_add_left 1 _⟩

theorem JoinRow.consistent_attempt {row : JoinRow} (h : row.consecutiveFailures ≤ u32Max)
    (now deadline : ℤ) : (row.attempt now deadline).Consistent :=
  ⟨nofun, fun _ => ⟨rfl, h⟩, nofun⟩

theorem JoinRow.state_confirm (now : ℤ) (row : JoinRow) : (row.confirm now).state = .joined := by
  unfold confirm
  split
  · assumption
  · rfl

theorem JoinRow.Consistent.confirm {row : JoinRow} (h : row.Consistent) (now : ℤ) :
    (row.confirm now).Consistent := by
  unfold JoinRow.confirm
  split
  · exact h
  · exact ⟨fun _ => ⟨rfl, rfl, rfl⟩, nofun, nofun⟩

/-- **Every transaction keeps the rows consistent.** -/
theorem JoinMove.consistent {after : Option JoinRow} (h : JoinMove t event channelLogin after)
    (ht : ∀ row, t.lookup channelLogin = some row → row.Consistent) :
    ∀ row, after = some row → row.Consistent := by
  rintro row' hrow'
  cases h with
  | same => exact ht row' hrow'
  | begun h hdue hu32 =>
    obtain rfl := Option.some.inj hrow'
    apply JoinRow.consistent_attempt
    rcases hrow : t.lookup channelLogin with - | row
    · exact Nat.zero_le _
    · exact hu32 row hrow
  | confirmed =>
    obtain rfl := Option.some.inj hrow'
    rcases hrow : t.lookup channelLogin with - | row
    · exact ⟨fun _ => ⟨rfl, rfl, rfl⟩, nofun, nofun⟩
    · exact (ht row hrow).confirm event.now
  | unavailable =>
    obtain rfl := Option.some.inj hrow'
    rcases hrow : t.lookup channelLogin with - | row
    · exact ⟨nofun, nofun, fun _ => Nat.le_refl 1⟩
    · exact JoinRow.consistent_fail _ _ row
  | timedOut =>
    obtain rfl := Option.some.inj hrow'
    exact JoinRow.consistent_timeOut _ _

namespace JoinTable

theorem consistent_run (events : List JoinEvent) (channelLogin : String) :
    ∀ row, (run events).lookup channelLogin = some row → row.Consistent := by
  induction events using List.reverseRecOn with
  | nil => exact nofun
  | append_singleton events event ih =>
    rw [run_concat]
    exact (step_cases (run events) event channelLogin).consistent ih

/-! ### The attempt in flight -/

/-- The last attempt of a channel in a run, with the time that it began at. -/
def LatestAttempt (events : List JoinEvent) (channelLogin : String) (now : ℤ)
    (confirmationTimeout : ℕ) : Prop :=
  ∃ before event after, events = before ++ event :: after ∧ event.now = now ∧
    event.Begins (run before) channelLogin confirmationTimeout ∧
    ∀ mid next rest timeout, after = mid ++ next :: rest →
      ¬ next.Begins (run (before ++ event :: mid)) channelLogin timeout

theorem latestAttempt_begins {events : List JoinEvent} {timeout : ℕ}
    (h : event.Begins (run events) channelLogin timeout) :
    LatestAttempt (events ++ [event]) channelLogin event.now timeout := by
  refine ⟨events, event, [], rfl, rfl, h, fun mid next rest _ hnil => ?_⟩
  simp at hnil

theorem LatestAttempt.concat {events : List JoinEvent} {now : ℤ} {timeout : ℕ}
    (h : LatestAttempt events channelLogin now timeout)
    (hevent : ∀ timeout, ¬ event.Begins (run events) channelLogin timeout) :
    LatestAttempt (events ++ [event]) channelLogin now timeout := by
  obtain ⟨before, first, after, rfl, hnow, hbegins, hafter⟩ := h
  refine ⟨before, first, after ++ [event], by simp, hnow, hbegins, ?_⟩
  intro mid next rest timeout' hsplit
  rcases List.eq_nil_or_concat' rest with rfl | ⟨rest, last, rfl⟩
  · obtain ⟨rfl, hlast⟩ := List.append_inj' hsplit rfl
    obtain rfl := (List.cons.inj hlast).1
    exact hevent timeout'
  · rw [← List.cons_append, ← List.append_assoc] at hsplit
    exact hafter mid next rest timeout' (List.append_inj' hsplit rfl).1

/-- **A pending row is of the last attempt of its channel.** -/
theorem pending_of_run (events : List JoinEvent) {row : JoinRow}
    (h : (run events).lookup channelLogin = some row) (hpending : row.state = .pending) :
    ∃ now timeout, LatestAttempt events channelLogin now timeout ∧
      row.lastAttemptMs = some now ∧ row.nextRetryMs = satAdd now (durationMs timeout) := by
  induction events using List.reverseRecOn generalizing row with
  | nil => cases h
  | append_singleton events event ih =>
    rw [run_concat] at h
    have hmove := step_cases (run events) event channelLogin
    rw [h] at hmove
    generalize hafter : some row = after at hmove
    cases hmove with
    | same hnot =>
      -- the row is as it was, and no later attempt began
      obtain ⟨now, timeout, hlatest, hrow⟩ := ih hafter.symm hpending
      exact ⟨now, timeout, hlatest.concat hnot, hrow⟩
    | begun hbegins =>
      obtain rfl := Option.some.inj hafter
      exact ⟨_, _, latestAttempt_begins hbegins, rfl, rfl⟩
    | confirmed =>
      -- the other transactions leave no pending row
      obtain rfl := Option.some.inj hafter
      cases hlookup : (run events).lookup channelLogin with
      | none => simp [hlookup] at hpending
      | some old => simp [hlookup, JoinRow.state_confirm] at hpending
    | unavailable =>
      obtain rfl := Option.some.inj hafter
      cases hlookup : (run events).lookup channelLogin with
      | none => simp [hlookup] at hpending
      | some old => simp [hlookup, JoinRow.fail] at hpending
    | timedOut =>
      obtain rfl := Option.some.inj hafter
      simp [JoinRow.timeOut] at hpending

/-- The channel has an attempt in flight. -/
def InFlight (t : JoinTable) (channelLogin : String) : Prop :=
  ∃ row, t.lookup channelLogin = some row ∧ row.state = .pending

theorem due_of_begins {timeout : ℕ} (h : event.Begins t channelLogin timeout) :
    t.Due channelLogin event.now := by
  obtain ⟨now, call⟩ := event
  cases call with
  | beginJoinAttemptIfDue =>
    obtain ⟨rfl, -, t', hbegin⟩ := h
    rcases beginJoinAttemptIfDue_cases hbegin with ⟨-, hdue, -⟩ | ⟨hfalse, -⟩ | ⟨-, hfalse, -⟩
    · exact hdue
    · cases hfalse
    · cases hfalse
  | _ => exact h.elim

/-- **No second attempt begins while one is in flight.** -/
theorem not_begins (h : t.InFlight channelLogin) (timeout : ℕ) :
    ¬ event.Begins t channelLogin timeout := by
  intro hbegins
  obtain ⟨row, hrow, hpending⟩ := h
  rcases due_of_begins hbegins row hrow with hstate | ⟨hstate, -⟩
  · rw [hpending] at hstate
    cases hstate
  · rw [hpending] at hstate
    cases hstate

theorem inFlight_of_begins {timeout : ℕ} (h : event.Begins t channelLogin timeout) :
    (t.step event).InFlight channelLogin := by
  have hmove := step_cases t event channelLogin
  generalize hafter : (t.step event).lookup channelLogin = after at hmove
  cases hmove with
  | same hnot => exact absurd h (hnot timeout)
  | begun => exact ⟨_, hafter, rfl⟩
  | confirmed hconfirms =>
    obtain ⟨now, call⟩ := event
    cases call <;> first | exact h.elim | exact hconfirms.elim
  | unavailable hmarks =>
    obtain ⟨now, call⟩ := event
    cases call <;> first | exact h.elim | exact hmarks.elim
  | timedOut _ hrow hover => exact absurd h (not_begins ⟨_, hrow, hover.1⟩ timeout)

theorem inFlight_step (h : t.InFlight channelLogin) (hevent : ¬ event.Settles t channelLogin) :
    (t.step event).InFlight channelLogin := by
  have hmove := step_cases t event channelLogin
  generalize hafter : (t.step event).lookup channelLogin = after at hmove
  cases hmove with
  | same =>
    obtain ⟨row, hrow, hpending⟩ := h
    exact ⟨row, hafter.trans hrow, hpending⟩
  | begun hbegins => exact absurd hbegins (not_begins h _)
  | confirmed hconfirms => exact absurd (.inl hconfirms) hevent
  | unavailable hmarks => exact absurd (.inr (.inl hmarks)) hevent
  | timedOut htimes => exact absurd (.inr (.inr htimes)) hevent

/-- **An attempt stays in flight until it is settled.** -/
theorem inFlight_foldl (events : List JoinEvent) (h : t.InFlight channelLogin)
    (hnot : ∀ before event after, events = before ++ event :: after →
      ¬ event.Settles (before.foldl step t) channelLogin) :
    (events.foldl step t).InFlight channelLogin := by
  induction events generalizing t with
  | nil => exact h
  | cons event events ih =>
    apply ih (inFlight_step h (hnot [] event events rfl))
    rintro before next after rfl
    exact hnot (event :: before) next after rfl

/-! ### Timing out -/

/-- **An overdue row is timed out to the same row, whoever does it.** -/
theorem timed_out_alike (events : List JoinEvent) {row : JoinRow} {now : ℤ}
    (hrow : (run events).lookup (toAsciiLowercase channelLogin) = some row)
    (hover : row.Overdue now) (confirmationTimeout retryMin retryMax : ℕ) :
    ∃ t₁ t₂ n,
      (run events).beginJoinAttemptIfDue now channelLogin confirmationTimeout retryMin retryMax =
        .ok (t₁, false) ∧
      (run events).failStaleJoinAttempts now retryMin retryMax = .ok (t₂, n) ∧
      t₁.lookup (toAsciiLowercase channelLogin) =
        some (row.timeOut
          (satAdd now (retryDelay retryMin retryMax row.consecutiveFailures))) ∧
      t₂.lookup (toAsciiLowercase channelLogin) =
        t₁.lookup (toAsciiLowercase channelLogin) := by
  have hu32 : ∀ row ∈ (run events).stale now, row.consecutiveFailures ≤ u32Max := by
    intro row hmem
    obtain ⟨hmem, hover⟩ := mem_stale.mp hmem
    exact ((consistent_run events row.channelLogin row
      (KeyTable.lookup_of_mem hmem)).pending hover.1).2
  have hbegin := beginJoinAttemptIfDue_overdue hrow hover
    (hu32 row (mem_stale.mpr ⟨KeyTable.mem_of_lookup hrow, hover⟩)) confirmationTimeout
    retryMin retryMax
  obtain ⟨t₂, n, hfail⟩ := exists_failStaleJoinAttempts hu32 retryMin retryMax
  have htimed := lookup_timeOut (run events) (toAsciiLowercase channelLogin)
    (satAdd now (retryDelay retryMin retryMax row.consecutiveFailures))
  rw [hrow, Option.map_some] at htimed
  refine ⟨_, t₂, n, hbegin, hfail, htimed, ?_⟩
  rw [htimed, lookup_failStaleJoinAttempts hfail, hrow, Option.map_some, if_pos hover]

/-- An attempt that is not confirmed within 100 ms, and the back-off of 20 ms. -/
example : (run [⟨0, .beginJoinAttemptIfDue "Example" 100000000 20000000 40000000⟩,
    ⟨110, .failStaleJoinAttempts 20000000 40000000⟩]).rows =
      [{ channelLogin := "example", state := .unavailable, consecutiveFailures := 1
         lastAttemptMs := some 0, nextRetryMs := 130
         failureKind := some "confirmation_timeout" }] := by
  decide

/-! ### The machine -/

/-- What holds of the join state after a run. -/
structure JoinMachine (events : List JoinEvent) : Prop where
  /-- A joined row has no failures, no retry and no failure kind. -/
  joined : ∀ row ∈ (run events).rows, row.state = .joined →
    row.consecutiveFailures = 0 ∧ row.nextRetryMs = 0 ∧ row.failureKind = none
  /-- A pending row is of the last attempt of its channel, and waits for that one's timeout. -/
  pending : ∀ row ∈ (run events).rows, row.state = .pending → row.failureKind = none ∧
    ∃ now timeout, LatestAttempt events row.channelLogin now timeout ∧
      row.lastAttemptMs = some now ∧ row.nextRetryMs = satAdd now (durationMs timeout)
  /-- An unavailable row has a failure. -/
  unavailable : ∀ row ∈ (run events).rows, row.state = .unavailable →
    1 ≤ row.consecutiveFailures
  /-- An attempt begins only for a channel that has no row, is joined, or is unavailable with
  its retry due. -/
  due : ∀ now channelLogin confirmationTimeout retryMin retryMax t',
    (run events).beginJoinAttemptIfDue now channelLogin confirmationTimeout retryMin retryMax =
        .ok (t', true) →
      (run events).Due (toAsciiLowercase channelLogin) now
  /-- Between two attempts of a channel, the first one is settled. -/
  settled : ∀ before first between second after channelLogin timeout timeout',
    events = before ++ first :: between ++ second :: after →
    first.Begins (run before) channelLogin timeout →
    second.Begins (run (before ++ first :: between)) channelLogin timeout' →
    ∃ between₁ event between₂, between = between₁ ++ event :: between₂ ∧
      event.Settles (run (before ++ first :: between₁)) channelLogin
  /-- An attempt and the sweep time a row out to the same row. -/
  alike : ∀ now channelLogin confirmationTimeout retryMin retryMax row,
    (run events).lookup (toAsciiLowercase channelLogin) = some row → row.Overdue now →
    ∃ t₁ t₂ n,
      (run events).beginJoinAttemptIfDue now channelLogin confirmationTimeout retryMin retryMax =
        .ok (t₁, false) ∧
      (run events).failStaleJoinAttempts now retryMin retryMax = .ok (t₂, n) ∧
      t₁.lookup (toAsciiLowercase channelLogin) =
        some (row.timeOut
          (satAdd now (retryDelay retryMin retryMax row.consecutiveFailures))) ∧
      t₂.lookup (toAsciiLowercase channelLogin) =
        t₁.lookup (toAsciiLowercase channelLogin)

/-- **Between two attempts, the first one is settled.** -/
theorem exists_settles {before between : List JoinEvent} {first second : JoinEvent}
    {timeout timeout' : ℕ} (hfirst : first.Begins (run before) channelLogin timeout)
    (hsecond : second.Begins (run (before ++ first :: between)) channelLogin timeout') :
    ∃ between₁ event between₂, between = between₁ ++ event :: between₂ ∧
      event.Settles (run (before ++ first :: between₁)) channelLogin := by
  have hrun : ∀ rest, run (before ++ first :: rest) =
      rest.foldl step ((run before).step first) := by
    intro rest
    rw [run, List.foldl_append]
    rfl
  by_contra hnone
  rw [hrun] at hsecond
  refine not_begins (inFlight_foldl between (inFlight_of_begins hfirst) ?_) timeout' hsecond
  rintro between₁ event between₂ hsplit hsettles
  exact hnone ⟨between₁, event, between₂, hsplit, by rwa [hrun]⟩

/-- **The join state machine**: for every run, whatever its clock does, the rows are
consistent and a channel has at most one attempt in flight.  The back-off is the product of the
least delay and a power of two, bounded by the largest delay; it does not overflow and does not
decrease as failures grow. -/
theorem join_state_machine : (∀ events, JoinMachine events) ∧ ∀ retryMin retryMax : ℕ,
    (∀ failures, retryDelay retryMin retryMax failures =
        min (retryMaxMs retryMin retryMax) (retryMinMs retryMin * 2 ^ min failures 30) ∧
      retryDelay retryMin retryMax failures ≤ i64Max) ∧
    Monotone (retryDelay retryMin retryMax) := by
  refine ⟨fun events => ?_, fun retryMin retryMax => ⟨fun failures => ⟨?_, ?_⟩, ?_⟩⟩
  · have hconsistent : ∀ row ∈ (run events).rows, row.Consistent := fun row hrow =>
      consistent_run events row.channelLogin row (KeyTable.lookup_of_mem hrow)
    exact {
      joined := fun row hrow => (hconsistent row hrow).joined
      pending := fun row hrow hpending => ⟨((hconsistent row hrow).pending hpending).1,
        pending_of_run events (KeyTable.lookup_of_mem hrow) hpending⟩
      unavailable := fun row hrow => (hconsistent row hrow).unavailable
      due := fun now login timeout least most t' hbegin => by
        have hbegins : JoinEvent.Begins (run events) (toAsciiLowercase login) timeout
            ⟨now, .beginJoinAttemptIfDue login timeout least most⟩ := ⟨rfl, rfl, t', hbegin⟩
        exact due_of_begins hbegins
      settled := by
        rintro before first between second after login timeout timeout' - hfirst hsecond
        exact exists_settles hfirst hsecond
      alike := fun now login timeout least most row hrow hover =>
        timed_out_alike events hrow hover timeout least most }
  · exact retryDelay_eq retryMin retryMax failures
  · exact retryDelay_le retryMin retryMax failures
  · exact retryDelay_mono retryMin retryMax

end JoinTable

end RecentMessages
