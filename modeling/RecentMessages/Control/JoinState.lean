/-
RecentMessages/Control/JoinState.lean

The join state of channels (`db.rs`).

A channel that the listener asked to join is `pending` until it is confirmed, marked
unavailable or timed out, by the next attempt or by the sweep for stale attempts.  Both of
these back off in the same way.

* `retryDelay_eq`, `retryDelay_mono` — the delay neither overflows nor decreases;
* `beginJoinAttemptIfDue_cases`, `lookup_failStaleJoinAttempts` — what the transactions that
  time attempts out do.
-/
import RecentMessages.Control.ControlStore
import RecentMessages.Library.Fallible
import Mathlib.Data.Int.ConditionallyCompleteOrder
import Mathlib.Tactic.Positivity

namespace RecentMessages

/-- `duration_ms`, of a duration in nanoseconds. -/
def durationMs (duration : ℕ) : ℤ := min ((duration / 1000000 : ℕ) : ℤ) i64Max

/-- The values of the column `state`. -/
inductive JoinState
  | pending
  | joined
  | unavailable
  deriving DecidableEq, Repr

/-- A row of `join_state`. -/
structure JoinRow where
  channelLogin : String
  state : JoinState
  consecutiveFailures : ℕ := 0
  lastAttemptMs : Option ℤ := none
  lastConfirmedMs : Option ℤ := none
  nextRetryMs : ℤ := 0
  failureKind : Option String := none
  deriving DecidableEq, Repr

/-- The largest unsigned 32-bit integer. -/
def u32Max : ℕ := 2 ^ 32 - 1

/-- `row.get::<_, u32>`. -/
def getU32 (index value : ℕ) : Except StorageError ℕ :=
  if value ≤ u32Max then .ok value
  else .error (.sqlite s!"Integer {value} out of range at index {index}")

/-! ### Back-off -/

/-- `duration_ms(retry_min).max(1)`. -/
def retryMinMs (retryMin : ℕ) : ℤ := max (durationMs retryMin) 1

/-- `duration_ms(retry_max).max(retry_min_ms)`. -/
def retryMaxMs (retryMin retryMax : ℕ) : ℤ := max (durationMs retryMax) (retryMinMs retryMin)

/-- How long a channel is left alone after an attempt was not confirmed. -/
def retryDelay (retryMin retryMax failures : ℕ) : ℤ :=
  let shift := min failures 30
  -- `checked_shl` is `None` from the width on
  let factor := if shift < 64 then (2 : ℤ) ^ shift else i64Max
  min (satI64 (retryMinMs retryMin * factor)) (retryMaxMs retryMin retryMax)

section Delay

variable (retryMin retryMax : ℕ)

theorem durationMs_le (duration : ℕ) : durationMs duration ≤ i64Max := min_le_right _ _

theorem retryMinMs_pos : 1 ≤ retryMinMs retryMin := le_max_right _ _

theorem retryMinMs_le : retryMinMs retryMin ≤ i64Max := by
  have hone : (1 : ℤ) ≤ i64Max := by decide
  exact max_le (durationMs_le retryMin) hone

theorem retryMaxMs_le : retryMaxMs retryMin retryMax ≤ i64Max :=
  max_le (durationMs_le retryMax) (retryMinMs_le retryMin)

/-- **The delay does not overflow**: it is what the unbounded product gives. -/
theorem retryDelay_eq (failures : ℕ) : retryDelay retryMin retryMax failures =
    min (retryMaxMs retryMin retryMax) (retryMinMs retryMin * 2 ^ min failures 30) := by
  have hshift : min failures 30 < 64 := by omega
  have hpos : i64Min ≤ retryMinMs retryMin * 2 ^ min failures 30 := by
    have hmin : i64Min ≤ 0 := by decide
    have hone := retryMinMs_pos retryMin
    exact hmin.trans (by positivity)
  have hmax := retryMaxMs_le retryMin retryMax
  show min (satI64 (retryMinMs retryMin * if min failures 30 < 64 then _ else _)) _ = _
  rw [if_pos hshift, satI64]
  generalize retryMinMs retryMin * 2 ^ min failures 30 = delay at hpos ⊢
  omega

theorem retryDelay_le (failures : ℕ) : retryDelay retryMin retryMax failures ≤ i64Max := by
  rw [retryDelay_eq]
  exact (min_le_left _ _).trans (retryMaxMs_le retryMin retryMax)

/-- **More failures, no shorter delay.** -/
theorem retryDelay_mono : Monotone (retryDelay retryMin retryMax) := by
  intro m n h
  rw [retryDelay_eq, retryDelay_eq]
  have hone := retryMinMs_pos retryMin
  have htwo : (1 : ℤ) ≤ 2 := by decide
  gcongr

end Delay

/-! ### Updates of a row -/

namespace JoinRow

/-- `DO UPDATE SET` of `begin_join_attempt_if_due`. -/
def attempt (now deadline : ℤ) (row : JoinRow) : JoinRow :=
  { row with
    state := .pending
    lastAttemptMs := some now
    nextRetryMs := deadline
    failureKind := none }

/-- The update that ends an attempt which was not confirmed. -/
def timeOut (nextRetry : ℤ) (row : JoinRow) : JoinRow :=
  { row with
    state := .unavailable
    consecutiveFailures := row.consecutiveFailures + 1
    nextRetryMs := nextRetry
    failureKind := some "confirmation_timeout" }

/-- The row is of an attempt whose time to be confirmed is over. -/
def Overdue (now : ℤ) (row : JoinRow) : Prop := row.state = .pending ∧ row.nextRetryMs ≤ now

instance decidableOverdue (now : ℤ) (row : JoinRow) : Decidable (row.Overdue now) :=
  inferInstanceAs (Decidable (_ ∧ _))

/-- `DO UPDATE SET` of `mark_join_confirmed`. -/
def confirm (now : ℤ) (row : JoinRow) : JoinRow :=
  if row.state = .joined then row
  else
    { row with
      state := .joined
      consecutiveFailures := 0
      lastConfirmedMs := some now
      nextRetryMs := 0
      failureKind := none }

/-- `DO UPDATE SET` of `mark_join_unavailable`. -/
def fail (failureKind : String) (nextRetry : ℤ) (row : JoinRow) : JoinRow :=
  { row with
    state := .unavailable
    consecutiveFailures := row.consecutiveFailures + 1
    nextRetryMs := max row.nextRetryMs nextRetry
    failureKind := if row.nextRetryMs ≤ nextRetry then some failureKind else row.failureKind }

theorem channelLogin_attempt (now deadline : ℤ) (row : JoinRow) :
    (row.attempt now deadline).channelLogin = row.channelLogin := rfl

theorem channelLogin_timeOut (nextRetry : ℤ) (row : JoinRow) :
    (row.timeOut nextRetry).channelLogin = row.channelLogin := rfl

theorem channelLogin_fail (failureKind : String) (nextRetry : ℤ) (row : JoinRow) :
    (row.fail failureKind nextRetry).channelLogin = row.channelLogin := rfl

theorem channelLogin_confirm (now : ℤ) (row : JoinRow) :
    (row.confirm now).channelLogin = row.channelLogin := by
  unfold confirm
  split <;> rfl

end JoinRow

/-! ### Transactions -/

/-- The table `join_state`. -/
abbrev JoinTable := KeyTable JoinRow.channelLogin

namespace JoinTable

/-- The upsert of `begin_join_attempt_if_due`. -/
def attempt (t : JoinTable) (channelLogin : String) (now deadline : ℤ) : JoinTable :=
  t.upsert { channelLogin, state := .pending, lastAttemptMs := some now, nextRetryMs := deadline }
    (JoinRow.attempt now deadline) (JoinRow.channelLogin_attempt now deadline)

/-- The update that ends the attempt of a channel. -/
def timeOut (t : JoinTable) (channelLogin : String) (nextRetry : ℤ) : JoinTable :=
  t.modify channelLogin (JoinRow.timeOut nextRetry) (JoinRow.channelLogin_timeOut nextRetry)

/-- `begin_join_attempt_if_due`, at a time of the clock. -/
def beginJoinAttemptIfDue (t : JoinTable) (now : ℤ) (channelLogin : String)
    (confirmationTimeout retryMin retryMax : ℕ) : Except StorageError (JoinTable × Bool) :=
  let channelLogin := toAsciiLowercase channelLogin
  let confirmationDeadline := satAdd now (durationMs confirmationTimeout)
  match t.lookup channelLogin with
  | none => .ok (t.attempt channelLogin now confirmationDeadline, true)
  | some row => do
    let failures ← getU32 2 row.consecutiveFailures
    if row.state ≠ .joined ∧ now < row.nextRetryMs then
      return (t, false)
    if row.state = .pending then
      let delay := retryDelay retryMin retryMax failures
      return (t.timeOut channelLogin (satAdd now delay), false)
    return (t.attempt channelLogin now confirmationDeadline, true)

/-- `mark_join_confirmed`. -/
def markJoinConfirmed (t : JoinTable) (now : ℤ) (channelLogin : String) : JoinTable :=
  t.upsert
    { channelLogin := toAsciiLowercase channelLogin, state := .joined, consecutiveFailures := 0
      lastConfirmedMs := some now, nextRetryMs := 0 }
    (JoinRow.confirm now) (JoinRow.channelLogin_confirm now)

/-- `mark_join_unavailable`. -/
def markJoinUnavailable (t : JoinTable) (now : ℤ) (channelLogin failureKind : String)
    (retryAfter : ℕ) : JoinTable :=
  let nextRetry := satAdd now (durationMs retryAfter)
  t.upsert
    { channelLogin := toAsciiLowercase channelLogin, state := .unavailable
      consecutiveFailures := 1, nextRetryMs := nextRetry, failureKind := some failureKind }
    (JoinRow.fail failureKind nextRetry) (JoinRow.channelLogin_fail failureKind nextRetry)

/-- The rows that `fail_stale_join_attempts` selects. -/
def stale (t : JoinTable) (now : ℤ) : List JoinRow :=
  t.rows.filter fun row => row.Overdue now

/-- `fail_stale_join_attempts`, at a time of the clock. -/
def failStaleJoinAttempts (t : JoinTable) (now : ℤ) (retryMin retryMax : ℕ) :
    Except StorageError (JoinTable × ℕ) := do
  let stale ← (t.stale now).mapM fun row => do
    let failures ← getU32 1 row.consecutiveFailures
    return (row.channelLogin, failures)
  let t := stale.foldl (fun t pair =>
    t.timeOut pair.1 (satAdd now (retryDelay retryMin retryMax pair.2))) t
  return (t, stale.length)

end JoinTable

/-! ### Runs -/

/-- A transaction on the table. -/
inductive JoinCall
  | beginJoinAttemptIfDue (channelLogin : String) (confirmationTimeout retryMin retryMax : ℕ)
  | markJoinConfirmed (channelLogin : String)
  | markJoinUnavailable (channelLogin failureKind : String) (retryAfter : ℕ)
  | failStaleJoinAttempts (retryMin retryMax : ℕ)
  deriving DecidableEq, Repr

/-- A transaction and the time that it took from the clock.  Nothing is assumed of the times
of a run: transactions may well run in another order than the one they took their times in. -/
structure JoinEvent where
  now : ℤ
  call : JoinCall
  deriving DecidableEq, Repr

namespace JoinTable

/-- The table after a transaction; one that fails changes nothing. -/
def step (t : JoinTable) (event : JoinEvent) : JoinTable :=
  match event.call with
  | .beginJoinAttemptIfDue channelLogin confirmationTimeout retryMin retryMax =>
    match t.beginJoinAttemptIfDue event.now channelLogin confirmationTimeout retryMin retryMax with
    | .ok (t', _) => t'
    | .error _ => t
  | .markJoinConfirmed channelLogin => t.markJoinConfirmed event.now channelLogin
  | .markJoinUnavailable channelLogin failureKind retryAfter =>
    t.markJoinUnavailable event.now channelLogin failureKind retryAfter
  | .failStaleJoinAttempts retryMin retryMax =>
    match t.failStaleJoinAttempts event.now retryMin retryMax with
    | .ok (t', _) => t'
    | .error _ => t

/-- The table after transactions on a new one. -/
def run (events : List JoinEvent) : JoinTable := events.foldl step KeyTable.empty

theorem run_concat (events : List JoinEvent) (event : JoinEvent) :
    run (events ++ [event]) = (run events).step event := by
  rw [run, List.foldl_append]
  rfl

/-! ### What a transaction does -/

/-- An attempt of the channel may begin. -/
def Due (t : JoinTable) (channelLogin : String) (now : ℤ) : Prop :=
  ∀ row, t.lookup channelLogin = some row →
    row.state = .joined ∨ row.state = .unavailable ∧ row.nextRetryMs ≤ now

variable {t t' : JoinTable} {now : ℤ} {channelLogin : String}
  {confirmationTimeout retryMin retryMax : ℕ}

theorem getU32_eq_ok {index value n : ℕ} :
    getU32 index value = .ok n ↔ value ≤ u32Max ∧ n = value := by
  unfold getU32
  split
  · rename_i h
    simp [h, eq_comm]
  · rename_i h
    simp [h]

theorem lookup_timeOut (t : JoinTable) (channelLogin : String) (nextRetry : ℤ) :
    (t.timeOut channelLogin nextRetry).lookup channelLogin =
      (t.lookup channelLogin).map (JoinRow.timeOut nextRetry) :=
  KeyTable.lookup_modify_self t channelLogin

/-- **What `begin_join_attempt_if_due` does**: it begins an attempt, does nothing, or ends the
attempt before. -/
theorem beginJoinAttemptIfDue_cases {begun : Bool}
    (h : t.beginJoinAttemptIfDue now channelLogin confirmationTimeout retryMin retryMax =
      .ok (t', begun)) :
    (begun = true ∧ t.Due (toAsciiLowercase channelLogin) now ∧
        (∀ row, t.lookup (toAsciiLowercase channelLogin) = some row →
          row.consecutiveFailures ≤ u32Max) ∧
        t' = t.attempt (toAsciiLowercase channelLogin) now
          (satAdd now (durationMs confirmationTimeout))) ∨
      (begun = false ∧ t' = t) ∨
      ∃ row, begun = false ∧ t.lookup (toAsciiLowercase channelLogin) = some row ∧
        row.Overdue now ∧ t' = t.timeOut (toAsciiLowercase channelLogin)
          (satAdd now (retryDelay retryMin retryMax row.consecutiveFailures)) := by
  unfold beginJoinAttemptIfDue at h
  rcases hlookup : t.lookup (toAsciiLowercase channelLogin) with - | row
  -- without a row an attempt begins
  · simp only [hlookup, Except.ok.injEq, Prod.mk.injEq] at h
    obtain ⟨rfl, rfl⟩ := h
    refine .inl ⟨rfl, fun row hrow => ?_, fun row hrow => ?_, rfl⟩
    · rw [hlookup] at hrow
      cases hrow
    · cases hrow
  -- the column is read before anything is decided
  · simp only [hlookup] at h
    obtain ⟨failures, hfailures, h⟩ := Except.bind_eq_ok.mp h
    obtain ⟨hu32, rfl⟩ := getU32_eq_ok.mp hfailures
    -- it is too early, unless the channel is joined
    by_cases hearly : row.state ≠ .joined ∧ now < row.nextRetryMs
    · rw [if_pos hearly] at h
      obtain ⟨rfl, rfl⟩ := Prod.mk.inj (Except.ok.inj h)
      exact .inr (.inl ⟨rfl, rfl⟩)
    rw [if_neg hearly] at h
    -- the attempt before was not confirmed in time; this call only ends it
    by_cases hpending : row.state = .pending
    · rw [if_pos hpending] at h
      obtain ⟨rfl, rfl⟩ := Prod.mk.inj (Except.ok.inj h)
      have hover : row.nextRetryMs ≤ now := by
        rw [hpending] at hearly
        simpa using hearly
      exact .inr (.inr ⟨row, rfl, rfl, ⟨hpending, hover⟩, rfl⟩)
    · rw [if_neg hpending] at h
      obtain ⟨rfl, rfl⟩ := Prod.mk.inj (Except.ok.inj h)
      -- a joined channel, or one whose back-off is over
      refine .inl ⟨rfl, fun row' hrow' => ?_, fun row' hrow' => ?_, rfl⟩
      · rw [hlookup] at hrow'
        obtain rfl := Option.some.inj hrow'
        rcases hstate : row.state with - | - | -
        · exact absurd hstate hpending
        · exact .inl rfl
        · rw [hstate] at hearly
          exact .inr ⟨rfl, by simpa using hearly⟩
      · obtain rfl := Option.some.inj hrow'
        exact hu32

/-- An overdue row whose failures can be read is timed out by an attempt. -/
theorem beginJoinAttemptIfDue_overdue {row : JoinRow}
    (hlookup : t.lookup (toAsciiLowercase channelLogin) = some row) (hover : row.Overdue now)
    (hu32 : row.consecutiveFailures ≤ u32Max) (confirmationTimeout retryMin retryMax : ℕ) :
    t.beginJoinAttemptIfDue now channelLogin confirmationTimeout retryMin retryMax =
      .ok (t.timeOut (toAsciiLowercase channelLogin)
        (satAdd now (retryDelay retryMin retryMax row.consecutiveFailures)), false) := by
  have hearly : ¬ (row.state ≠ .joined ∧ now < row.nextRetryMs) :=
    fun h => absurd hover.2 (Int.not_le.mpr h.2)
  simp only [beginJoinAttemptIfDue, hlookup]
  apply Except.bind_eq_ok.mpr
  refine ⟨row.consecutiveFailures, getU32_eq_ok.mpr ⟨hu32, rfl⟩, ?_⟩
  rw [if_neg hearly, if_pos hover.1]
  rfl

theorem mem_stale {row : JoinRow} : row ∈ t.stale now ↔ row ∈ t.rows ∧ row.Overdue now := by
  simp [stale]

section Foldl

variable {pairs : List (String × ℕ)} {nextRetry : String × ℕ → ℤ}

theorem lookup_foldl_timeOut_ne (t : JoinTable) (h : ∀ pair ∈ pairs, pair.1 ≠ channelLogin) :
    (pairs.foldl (fun t pair => t.timeOut pair.1 (nextRetry pair)) t).lookup channelLogin =
      t.lookup channelLogin :=
  KeyTable.lookup_foldl_modify_ne t h

theorem lookup_foldl_timeOut (t : JoinTable) (hnodup : (pairs.map Prod.fst).Nodup)
    {pair : String × ℕ} (h : pair ∈ pairs) :
    (pairs.foldl (fun t pair => t.timeOut pair.1 (nextRetry pair)) t).lookup pair.1 =
      (t.lookup pair.1).map (JoinRow.timeOut (nextRetry pair)) :=
  KeyTable.lookup_foldl_modify t hnodup h

end Foldl

/-- The sweep succeeds if the failures of every overdue row can be read. -/
theorem exists_failStaleJoinAttempts
    (h : ∀ row ∈ t.stale now, row.consecutiveFailures ≤ u32Max) (retryMin retryMax : ℕ) :
    ∃ t' n, t.failStaleJoinAttempts now retryMin retryMax = .ok (t', n) := by
  obtain ⟨pairs, hpairs⟩ := Except.exists_mapM (f := fun (row : JoinRow) => do
    let failures ← getU32 1 row.consecutiveFailures
    return (row.channelLogin, failures)) (l := t.stale now) fun row hrow =>
      ⟨_, Except.bind_eq_ok.mpr ⟨_, getU32_eq_ok.mpr ⟨h row hrow, rfl⟩, rfl⟩⟩
  exact ⟨_, _, Except.bind_eq_ok.mpr ⟨pairs, hpairs, rfl⟩⟩

/-- **What `fail_stale_join_attempts` does**: it times out every overdue row, by its own
failures. -/
theorem lookup_failStaleJoinAttempts {n : ℕ}
    (h : t.failStaleJoinAttempts now retryMin retryMax = .ok (t', n)) (channelLogin : String) :
    t'.lookup channelLogin = (t.lookup channelLogin).map fun row =>
      if row.Overdue now then
        row.timeOut (satAdd now (retryDelay retryMin retryMax row.consecutiveFailures))
      else row := by
  obtain ⟨pairs, hpairs, h⟩ := Except.bind_eq_ok.mp h
  obtain ⟨rfl, rfl⟩ := Prod.mk.inj (Except.ok.inj h)
  -- the logins and failures are read before the first update
  have hread : pairs = (t.stale now).map fun row =>
      (row.channelLogin, row.consecutiveFailures) := by
    rw [← List.map_id pairs]
    refine Except.map_eq_of_mapM (fun row pair hpair => ?_) hpairs
    obtain ⟨failures, hfailures, hpair⟩ := Except.bind_eq_ok.mp hpair
    rw [(getU32_eq_ok.mp hfailures).2] at hpair
    exact (Except.ok.inj hpair).symm
  have hnodup : (pairs.map Prod.fst).Nodup := by
    rw [hread, List.map_map]
    exact t.nodup_filter
  -- the updates leave a channel alone that is not among them
  have hloop : ∀ k, (∀ row ∈ t.stale now, row.channelLogin ≠ k) →
      (pairs.foldl (fun t pair => t.timeOut pair.1
        (satAdd now (retryDelay retryMin retryMax pair.2))) t).lookup k = t.lookup k := by
    intro k hk
    apply lookup_foldl_timeOut_ne
    rintro pair hpair
    rw [hread] at hpair
    obtain ⟨row, hrow, rfl⟩ := List.mem_map.mp hpair
    exact hk row hrow
  -- a channel without a row is not
  rcases hlookup : t.lookup channelLogin with - | row
  · refine (hloop channelLogin fun row hrow => ?_).trans hlookup
    exact KeyTable.lookup_eq_none.mp hlookup row (mem_stale.mp hrow).1
  · obtain ⟨hrow, rfl⟩ := KeyTable.lookup_eq_some.mp hlookup
    rw [Option.map_some]
    -- a row is updated if it is overdue, by its own failures, and at most once
    by_cases hover : row.Overdue now
    · have hpair : (row.channelLogin, row.consecutiveFailures) ∈ pairs := by
        rw [hread]
        exact List.mem_map_of_mem (mem_stale.mpr ⟨hrow, hover⟩)
      rw [if_pos hover]
      exact (lookup_foldl_timeOut t hnodup hpair).trans (congrArg _ hlookup)
    · rw [if_neg hover]
      refine (hloop row.channelLogin fun row' hrow' heq => ?_).trans hlookup
      obtain ⟨hrow', hover'⟩ := mem_stale.mp hrow'
      exact hover (t.eq_of_key hrow' hrow heq ▸ hover')

end JoinTable

end RecentMessages
