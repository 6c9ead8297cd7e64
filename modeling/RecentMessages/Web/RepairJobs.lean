/-
RecentMessages/Web/RepairJobs.lean

Repairs that run in the background (`RepairCoordinator` in `web/repair.rs`).

A request that finds a gap attaches to the repair of its channel, or starts one if there is none
(`start_or_attach`).  The job asks the providers, appends what each of them returns to the store
as it comes in, and tells its waiters of the progress over a watch channel, which keeps the last
value only.  Its parts interleave with the jobs of other channels in any order; the events of
`RepairEvent` are the points between which a job does not wait.

* `RepairJob.Sound` — the invariant of a job, in every phase;
* `RepairCoordinator.Sound` — that of all jobs, and of the checkpoints they leave;
* `repair_job_outcome` — what a finished job did and what it told its waiters.
-/
import RecentMessages.Control.RepairCheckpoints
import RecentMessages.Library.Fallible

namespace RecentMessages

/-- Why a fetch failed. -/
inductive RepairFetchError
  | deadline
  | allFailed
  deriving DecidableEq, Repr

/-- The result of a fetch: whether a provider succeeded. -/
abbrev RepairResult := Except RepairFetchError Bool

/-- How far a job has come: it selects between the fetch and the updates, it drains the updates
that the fetch left, or it has sent its completion. -/
inductive RepairPhase
  | fetching
  | draining (result : RepairResult)
  | finished (completion : RepairOutcome)

/-- A job of `run_job`. -/
structure RepairJob where
  channelLogin : String
  requestedStartMs : ℤ
  requestedEndMs : ℤ
  /-- The requests to providers that are still open. -/
  requests : ℕ
  anySucceeded : Bool
  /-- What providers returned and the job has not appended yet. -/
  updates : List (List CanonicalRecord)
  persistedCount : ℕ
  phase : RepairPhase
  /-- What was sent over the watch channel, oldest first; waiters read the last one. -/
  completions : List RepairOutcome
  /-- History: what the providers returned, `none` for a failure. -/
  responses : List (Option (List CanonicalRecord))
  /-- History: what was appended, and whether that succeeded. -/
  offered : List (List CanonicalRecord × Bool)

/-- After how long a repair may be tried again. -/
structure RepairRetries where
  successRetry : ℕ
  partialRetry : ℕ
  failureRetry : ℕ

namespace RepairRetries

/-- The milliseconds to the next attempt. -/
def after (retries : RepairRetries) : RepairOutcome → ℕ
  | .success => retries.successRetry
  | .incomplete => retries.partialRetry
  | .failed => retries.failureRetry

/-- `next_retry_ms`. -/
def nextRetryMs (retries : RepairRetries) (outcome : RepairOutcome) (completedAtMs : ℤ) : ℤ :=
  satAdd completedAtMs (min (retries.after outcome) i64Max)

end RepairRetries

namespace RepairJob

/-- A job that has asked its providers. -/
def new (channelLogin : String) (requestedStartMs requestedEndMs : ℤ) (requests : ℕ) :
    RepairJob where
  channelLogin
  requestedStartMs
  requestedEndMs
  requests
  anySucceeded := false
  updates := []
  persistedCount := 0
  phase := .fetching
  completions := []
  responses := []
  offered := []

/-- One turn of the loop of `fetch`: a request ends, and what it brought becomes an update. -/
def respond (response : Option (List CanonicalRecord)) (job : RepairJob) : RepairJob :=
  match job.phase, job.requests with
  | .fetching, requests + 1 =>
    let job := { job with requests, responses := job.responses ++ [response] }
    match response with
    | none => job
    | some records =>
      { job with
        anySucceeded := true
        updates := if records.isEmpty then job.updates else job.updates ++ [records] }
  | _, _ => job

/-- The completion that the job has sent. -/
def completion (job : RepairJob) : Option RepairOutcome :=
  match job.phase with
  | .finished completion => some completion
  | _ => none

/-- The oldest update is appended to the store, which may fail. -/
def persist (stored : Bool) (job : RepairJob) : RepairJob :=
  match job.completion, job.updates with
  | none, records :: updates =>
    let job := { job with updates, offered := job.offered ++ [(records, stored)] }
    if stored then
      { job with
        persistedCount := satAddU job.persistedCount records.length
        completions := job.completions ++ [.incomplete] }
    else
      job
  | _, _ => job

/-- The end of `fetch`. -/
def fetchResult (pastDeadline : Bool) (job : RepairJob) : RepairResult :=
  if job.anySucceeded then .ok true
  else if pastDeadline then .error .deadline
  else .error .allFailed

/-- `fetch` returns when no request is open, and ends the first loop. -/
def fetched (pastDeadline : Bool) (job : RepairJob) : RepairJob :=
  match job.phase, job.requests with
  | .fetching, 0 => { job with phase := .draining (job.fetchResult pastDeadline) }
  | _, _ => job

/-- The outcome of a job, with the number of records that goes into its checkpoint. -/
def outcome (result : RepairResult) (persistedCount : ℕ) : RepairOutcome × ℕ :=
  match result with
  | .ok anyProviderSucceeded =>
    if 0 < persistedCount then (.success, persistedCount)
    else if anyProviderSucceeded then (.incomplete, persistedCount)
    else (.failed, 0)
  | .error _ => (.failed, 0)

theorem outcome_snd (result : RepairResult) (persistedCount : ℕ) :
    (outcome result persistedCount).2 =
      if (outcome result persistedCount).1 = .failed then 0 else persistedCount := by
  rcases result with e | anyProviderSucceeded
  · rfl
  · by_cases hpos : 0 < persistedCount
    · simp [outcome, hpos]
    · cases anyProviderSucceeded <;> simp [outcome, hpos]

/-- The checkpoint of a job. -/
def checkpoint (retries : RepairRetries) (result : RepairResult) (completedAtMs : ℤ)
    (job : RepairJob) : RepairCheckpoint where
  outcome := (outcome result job.persistedCount).1
  completedAtMs
  requestedStartMs := job.requestedStartMs
  requestedEndMs := job.requestedEndMs
  nextRetryMs := retries.nextRetryMs (outcome result job.persistedCount).1 completedAtMs
  recordCount := (outcome result job.persistedCount).2

/-- The fetch has returned and no update is left. -/
def ready (job : RepairJob) : Option RepairResult :=
  match job.phase, job.updates with
  | .draining result, [] => some result
  | _, _ => none

/-- The job sends its completion. -/
def finish (result : RepairResult) (job : RepairJob) : RepairJob :=
  { job with
    phase := .finished (outcome result job.persistedCount).1
    completions := job.completions ++ [(outcome result job.persistedCount).1] }

@[simp] theorem channelLogin_respond (response : Option (List CanonicalRecord)) (job : RepairJob) :
    (job.respond response).channelLogin = job.channelLogin := by
  unfold respond
  split
  · cases response <;> rfl
  · rfl

@[simp] theorem channelLogin_persist (stored : Bool) (job : RepairJob) :
    (job.persist stored).channelLogin = job.channelLogin := by
  unfold persist
  split
  · cases stored <;> rfl
  · rfl

@[simp] theorem channelLogin_fetched (pastDeadline : Bool) (job : RepairJob) :
    (job.fetched pastDeadline).channelLogin = job.channelLogin := by
  unfold fetched
  split <;> rfl

@[simp] theorem channelLogin_finish (result : RepairResult) (job : RepairJob) :
    (job.finish result).channelLogin = job.channelLogin := rfl

end RepairJob

/-! ### The coordinator -/

/-- The jobs of a node and the checkpoints of its control store. -/
structure RepairCoordinator where
  inFlight : KeyTable RepairJob.channelLogin
  repairCheckpoints : RepairCheckpoints
  /-- History: the jobs that have left the map, oldest first. -/
  done : List RepairJob
  /-- History: the calls on the checkpoints. -/
  calls : List RepairCheckpoints.Call

/-- What can happen next. -/
inductive RepairEvent
  /-- `start_or_attach`; `requests` providers let a request through. -/
  | start (channelLogin : String) (requestedStartMs requestedEndMs : ℤ) (requests : ℕ)
  | respond (channelLogin : String) (response : Option (List CanonicalRecord))
  | persist (channelLogin : String) (stored : Bool)
  | fetched (channelLogin : String) (pastDeadline : Bool)
  /-- The checkpoint is recorded, or the control store fails, and the completion sent. -/
  | finish (channelLogin : String) (completedAtMs : ℤ) (recorded : Bool)
  /-- The job leaves the map. -/
  | remove (channelLogin : String)
  /-- The control store forgets the history of some channels. -/
  | clear (channels : String → Bool)

namespace RepairCoordinator

/-- A coordinator without jobs. -/
def empty : RepairCoordinator := ⟨KeyTable.empty, KeyTable.empty, [], []⟩

instance : Inhabited RepairCoordinator := ⟨empty⟩

/-- A call on the checkpoints. -/
def record (s : RepairCoordinator) (call : RepairCheckpoints.Call) : RepairCoordinator :=
  { s with
    repairCheckpoints := s.repairCheckpoints.call call
    calls := s.calls ++ [call] }

/-- The job of a channel, when it is ready. -/
def readyJob (s : RepairCoordinator) (login : String) : Option (RepairJob × RepairResult) :=
  (s.inFlight.lookup login).bind fun job => job.ready.map (job, ·)

/-- The job of a channel, when it has sent its completion. -/
def finishedJob (s : RepairCoordinator) (login : String) : Option RepairJob :=
  (s.inFlight.lookup login).filter (·.completion.isSome)

/-- One event. -/
def step (retries : RepairRetries) (s : RepairCoordinator) : RepairEvent → RepairCoordinator
  | .start channelLogin requestedStartMs requestedEndMs requests =>
    { s with
      inFlight := s.inFlight.insertIgnore
        (.new (toAsciiLowercase channelLogin) requestedStartMs requestedEndMs requests) }
  | .respond channelLogin response =>
    { s with
      inFlight := s.inFlight.modify channelLogin (RepairJob.respond response)
        (RepairJob.channelLogin_respond response) }
  | .persist channelLogin stored =>
    { s with
      inFlight := s.inFlight.modify channelLogin (RepairJob.persist stored)
        (RepairJob.channelLogin_persist stored) }
  | .fetched channelLogin pastDeadline =>
    { s with
      inFlight := s.inFlight.modify channelLogin (RepairJob.fetched pastDeadline)
        (RepairJob.channelLogin_fetched pastDeadline) }
  | .finish channelLogin completedAtMs recorded =>
    match s.readyJob channelLogin with
    | none => s
    | some (job, result) =>
      let s := if recorded then
          s.record (.record channelLogin (job.checkpoint retries result completedAtMs))
        else
          s
      { s with
        inFlight := s.inFlight.modify channelLogin (RepairJob.finish result)
          (RepairJob.channelLogin_finish result) }
  | .remove channelLogin =>
    match s.finishedJob channelLogin with
    | none => s
    | some job => { s with inFlight := s.inFlight.erase channelLogin, done := s.done ++ [job] }
  | .clear channels => s.record (.clear channels)

/-- The coordinator after a run. -/
def run (retries : RepairRetries) (events : List RepairEvent) : RepairCoordinator :=
  events.foldl (step retries) empty

end RepairCoordinator

/-! ### The invariant of a job -/

namespace RepairJob

/-- The batches that providers returned, in the order in which they came. -/
def delivered (job : RepairJob) : List (List CanonicalRecord) :=
  (job.responses.filterMap id).filter fun records => !records.isEmpty

/-- The batches that were appended. -/
def persisted (job : RepairJob) : List (List CanonicalRecord) :=
  (job.offered.filter (·.2)).map Prod.fst

/-- A fetch of providers of which some succeeded or none. -/
def Tells (result : RepairResult) (anySucceeded : Bool) : Prop :=
  if anySucceeded then result = .ok true else ∃ e, result = .error e

/-- What holds in every phase. -/
structure Sound (job : RepairJob) : Prop where
  delivered : job.delivered = job.offered.map Prod.fst ++ job.updates
  succeeded : job.anySucceeded = job.responses.any Option.isSome
  counted : job.persistedCount = min usizeMax (job.persisted.map List.length).sum
  told : job.completions =
    List.replicate job.persisted.length .incomplete ++ job.completion.toList
  drained : ∀ result, job.phase = .draining result →
    job.requests = 0 ∧ Tells result job.anySucceeded
  finished : ∀ completion, job.phase = .finished completion →
    job.requests = 0 ∧ job.updates = [] ∧
      ∃ result, Tells result job.anySucceeded ∧ completion = (outcome result job.persistedCount).1

theorem sound_new (channelLogin : String) (requestedStartMs requestedEndMs : ℤ) (requests : ℕ) :
    (new channelLogin requestedStartMs requestedEndMs requests).Sound where
  delivered := rfl
  succeeded := rfl
  counted := rfl
  told := rfl
  drained := by rintro result ⟨⟩
  finished := by rintro completion ⟨⟩

variable {job : RepairJob}

/-- A job that fetches is neither draining nor finished. -/
theorem Sound.of_fetching {job' : RepairJob} (hphase : job'.phase = .fetching)
    (hdelivered : job'.delivered = job'.offered.map Prod.fst ++ job'.updates)
    (hsucceeded : job'.anySucceeded = job'.responses.any Option.isSome)
    (hcounted : job'.persistedCount = min usizeMax (job'.persisted.map List.length).sum)
    (htold : job'.completions =
      List.replicate job'.persisted.length .incomplete ++ job'.completion.toList) : job'.Sound where
  delivered := hdelivered
  succeeded := hsucceeded
  counted := hcounted
  told := htold
  drained := by
    intro result hresult
    rw [hphase] at hresult
    cases hresult
  finished := by
    intro completion hcompletion
    rw [hphase] at hcompletion
    cases hcompletion

/-- A response is counted, and its records wait to be appended. -/
theorem sound_respond (h : job.Sound) (response : Option (List CanonicalRecord)) :
    (job.respond response).Sound := by
  unfold respond
  split
  · rename_i requests hphase hrequests
    cases response with
    | none =>
      -- a provider that failed counts as one that has answered
      refine Sound.of_fetching hphase ?_ ?_ h.counted h.told
      · show ((job.responses ++ [none]).filterMap id).filter _ = _
        rw [List.filterMap_append]
        exact (congrArg (List.filter _) (List.append_nil _)).trans h.delivered
      · show job.anySucceeded = (job.responses ++ [none]).any Option.isSome
        rw [List.any_append, h.succeeded]
        exact (Bool.or_false _).symm
    | some records =>
      -- an answer without records is not passed on
      refine Sound.of_fetching hphase ?_ ?_ h.counted h.told
      · show ((job.responses ++ [some records]).filterMap id).filter _ = job.offered.map Prod.fst ++
          if records.isEmpty then job.updates else job.updates ++ [records]
        have hsplit : ((job.responses ++ [some records]).filterMap id).filter
            (fun records => !records.isEmpty) =
              job.delivered ++ [records].filter fun records => !records.isEmpty := by
          rw [List.filterMap_append, List.filter_append]
          rfl
        rw [hsplit, h.delivered]
        by_cases hempty : records.isEmpty = true
        · rw [if_pos hempty, List.filter_cons_of_neg (by simpa using hempty), List.filter_nil,
            List.append_nil]
        · rw [if_neg hempty, List.filter_cons_of_pos (by simpa using hempty), List.filter_nil,
            List.append_assoc]
      · show true = (job.responses ++ [some records]).any Option.isSome
        rw [List.any_append]
        exact (Bool.or_true _).symm
  · exact h

/-- An update is appended, and told to the waiters if the store took it. -/
theorem sound_persist (h : job.Sound) (stored : Bool) : (job.persist stored).Sound := by
  unfold persist
  split
  · rename_i records updates hnone hupdates
    have hdelivered :
        job.delivered = (job.offered ++ [(records, stored)]).map Prod.fst ++ updates := by
      rw [h.delivered, hupdates, List.map_append, List.append_assoc]
      rfl
    have htold := h.told
    rw [hnone, Option.toList_none, List.append_nil] at htold
    have hunfinished : ∀ completion, job.phase ≠ .finished completion := by
      intro completion hphase
      rw [RepairJob.completion, hphase] at hnone
      cases hnone
    -- only a job that has not finished persists anything
    cases stored with
    | true =>
      -- the records count as persisted, and the waiters are told that there is more
      have hpersisted : ((job.offered ++ [(records, true)]).filter (·.2)).map Prod.fst =
          job.persisted ++ [records] := by
        rw [List.filter_append, List.map_append]
        rfl
      refine ⟨hdelivered, h.succeeded, ?_, ?_, h.drained,
        fun completion hphase => absurd hphase (hunfinished completion)⟩
      · show satAddU job.persistedCount records.length =
          min usizeMax ((((job.offered ++ [(records, true)]).filter (·.2)).map Prod.fst).map
            List.length).sum
        rw [hpersisted, List.map_append, List.sum_append, satAddU, h.counted]
        show _ = min usizeMax (_ + (records.length + 0))
        omega
      · show job.completions ++ [.incomplete] =
          List.replicate (((job.offered ++ [(records, true)]).filter (·.2)).map Prod.fst).length
            .incomplete ++ job.completion.toList
        rw [hpersisted, htold, hnone, List.length_append, List.length_singleton,
          List.replicate_succ', Option.toList_none, List.append_nil]
    | false =>
      -- they were offered, which is all
      have hpersisted : ((job.offered ++ [(records, false)]).filter (·.2)).map Prod.fst =
          job.persisted := by
        rw [List.filter_append, List.map_append]
        exact List.append_nil _
      refine ⟨hdelivered, h.succeeded, ?_, ?_, h.drained,
        fun completion hphase => absurd hphase (hunfinished completion)⟩
      · show job.persistedCount = min usizeMax
          ((((job.offered ++ [(records, false)]).filter (·.2)).map Prod.fst).map List.length).sum
        rw [hpersisted]
        exact h.counted
      · show job.completions = List.replicate
          (((job.offered ++ [(records, false)]).filter (·.2)).map Prod.fst).length .incomplete ++
            job.completion.toList
        rw [hpersisted]
        exact h.told
  · exact h

theorem tells_fetchResult (pastDeadline : Bool) (job : RepairJob) :
    Tells (job.fetchResult pastDeadline) job.anySucceeded := by
  unfold fetchResult Tells
  cases job.anySucceeded with
  | true => rfl
  | false => cases pastDeadline <;> exact ⟨_, rfl⟩

/-- The fetch returns. -/
theorem sound_fetched (h : job.Sound) (pastDeadline : Bool) : (job.fetched pastDeadline).Sound := by
  unfold fetched
  split
  · rename_i hphase hrequests
    have hnone : job.completion = none := by rw [completion, hphase]
    refine ⟨h.delivered, h.succeeded, h.counted, ?_, ?_, ?_⟩
    · have htold := h.told
      rw [hnone] at htold
      exact htold
    · rintro result ⟨⟩
      exact ⟨hrequests, tells_fetchResult pastDeadline job⟩
    · rintro completion ⟨⟩
  · exact h

/-- A job that is ready sends its completion. -/
theorem sound_finish (h : job.Sound) {result : RepairResult} (hready : job.ready = some result) :
    (job.finish result).Sound := by
  unfold ready at hready
  split at hready
  · rename_i result' hphase hupdates
    obtain rfl := Option.some.inj hready
    obtain ⟨hrequests, htells⟩ := h.drained _ hphase
    have hnone : job.completion = none := by rw [completion, hphase]
    refine ⟨h.delivered, h.succeeded, h.counted, ?_, ?_, ?_⟩
    · have htold := h.told
      rw [hnone, Option.toList_none, List.append_nil] at htold
      show job.completions ++ _ = _
      rw [htold]
      rfl
    · rintro result ⟨⟩
    · rintro completion ⟨⟩
      exact ⟨hrequests, hupdates, _, htells, rfl⟩
  · cases hready

/-! ### A finished job -/

theorem phase_of_completion {completion : RepairOutcome}
    (h : job.completion = some completion) : job.phase = .finished completion := by
  unfold RepairJob.completion at h
  split at h
  · rename_i hphase
    rw [hphase, Option.some.inj h]
  · cases h

theorem isSome_of_mem_delivered {records : List CanonicalRecord} (h : records ∈ job.delivered) :
    records ≠ [] ∧ some records ∈ job.responses := by
  obtain ⟨hmem, hne⟩ := List.mem_filter.mp h
  obtain ⟨response, hresponse, rfl⟩ := List.mem_filterMap.mp hmem
  refine ⟨?_, hresponse⟩
  rintro rfl
  cases hne

theorem mem_delivered_of_persisted (h : job.Sound) {records : List CanonicalRecord}
    (hmem : records ∈ job.persisted) : records ∈ job.delivered := by
  rw [h.delivered]
  refine List.mem_append_left _ ?_
  obtain ⟨b, hb, rfl⟩ := List.mem_map.mp hmem
  exact List.mem_map_of_mem (List.mem_filter.mp hb).1

/-- Records were counted exactly if a batch was persisted. -/
theorem persistedCount_pos_iff (h : job.Sound) : 0 < job.persistedCount ↔ job.persisted ≠ [] := by
  rw [h.counted]
  constructor
  · intro hpos hnil
    rw [hnil] at hpos
    exact absurd hpos (Nat.lt_irrefl 0)
  · intro hne
    obtain ⟨records, hmem⟩ := List.exists_mem_of_ne_nil _ hne
    obtain ⟨hnonempty, -⟩ := isSome_of_mem_delivered (mem_delivered_of_persisted h hmem)
    have hle := List.single_le_sum (fun _ _ => Nat.zero_le _) records.length
      (List.mem_map_of_mem hmem)
    have hpos := List.length_pos_iff.mpr hnonempty
    exact lt_min (Nat.succ_pos _) (hpos.trans_le hle)

theorem anySucceeded_iff (h : job.Sound) :
    job.anySucceeded = false ↔ ∀ response ∈ job.responses, response = none := by
  rw [h.succeeded, List.any_eq_false]
  refine forall₂_congr fun response _ => ?_
  cases response <;> simp

/-- What a finished job did, and what it told its waiters. -/
structure Settled (job : RepairJob) (completion : RepairOutcome) : Prop where
  /-- Every request to a provider has ended. -/
  answered : job.requests = 0
  /-- Every batch that a provider returned was appended once, in order. -/
  offered : job.offered.map Prod.fst = job.delivered
  /-- The waiters were told of every batch that the store took, and then of the completion. -/
  told : job.completions = List.replicate job.persisted.length .incomplete ++ [completion]
  success : completion = .success ↔ job.persisted ≠ []
  failed : completion = .failed ↔ ∀ response ∈ job.responses, response = none

theorem settled_of_completion (h : job.Sound) {completion : RepairOutcome}
    (hcompletion : job.completion = some completion) : job.Settled completion := by
  obtain ⟨hrequests, hupdates, result, htells, hvalue⟩ :=
    h.finished completion (phase_of_completion hcompletion)
  have htold := h.told
  rw [hcompletion, Option.toList_some] at htold
  have hoffered : job.offered.map Prod.fst = job.delivered := by
    rw [h.delivered, hupdates, List.append_nil]
  have hcount := persistedCount_pos_iff h
  have hnone := anySucceeded_iff h
  rcases hany : job.anySucceeded with - | -
  · -- no provider succeeded, so nothing came in
    rw [Tells, hany] at htells
    obtain ⟨e, rfl⟩ := htells
    have hresponses := hnone.mp hany
    have hpersisted : job.persisted = [] := by
      rw [List.eq_nil_iff_forall_not_mem]
      intro records hmem
      obtain ⟨-, hsome⟩ := isSome_of_mem_delivered (mem_delivered_of_persisted h hmem)
      cases hresponses _ hsome
    obtain rfl : completion = .failed := hvalue
    exact ⟨hrequests, hoffered, htold, ⟨by rintro ⟨⟩, fun hne => absurd hpersisted hne⟩,
      ⟨fun _ => hresponses, fun _ => rfl⟩⟩
  · rw [Tells, hany] at htells
    obtain rfl : result = .ok true := htells
    have hsome : ¬ ∀ response ∈ job.responses, response = none := by
      rw [← hnone, hany]
      exact Bool.false_ne_true.symm
    rw [outcome] at hvalue
    by_cases hpos : 0 < job.persistedCount
    · rw [if_pos hpos] at hvalue
      obtain rfl : completion = .success := hvalue
      exact ⟨hrequests, hoffered, htold, ⟨fun _ => hcount.mp hpos, fun _ => rfl⟩,
        ⟨by rintro ⟨⟩, fun hall => absurd hall hsome⟩⟩
    · rw [if_neg hpos] at hvalue
      obtain rfl : completion = .incomplete := hvalue
      exact ⟨hrequests, hoffered, htold, ⟨by rintro ⟨⟩, fun hne => absurd (hcount.mpr hne) hpos⟩,
        ⟨by rintro ⟨⟩, fun hall => absurd hall hsome⟩⟩

/-! ### A finished job stays as it is -/

theorem respond_of_completion {completion : RepairOutcome}
    (h : job.completion = some completion) (response : Option (List CanonicalRecord)) :
    job.respond response = job := by
  rw [respond, phase_of_completion h]

theorem persist_of_completion {completion : RepairOutcome}
    (h : job.completion = some completion) (stored : Bool) : job.persist stored = job := by
  rw [persist, h]

theorem fetched_of_completion {completion : RepairOutcome}
    (h : job.completion = some completion) (pastDeadline : Bool) :
    job.fetched pastDeadline = job := by
  rw [fetched, phase_of_completion h]

theorem ready_of_completion {completion : RepairOutcome}
    (h : job.completion = some completion) : job.ready = none := by
  rw [ready, phase_of_completion h]

end RepairJob

/-! ### The invariant of the coordinator -/

namespace RepairCoordinator

/-- A checkpoint says what a finished job did. -/
def Reports (job : RepairJob) (login : String) (checkpoint : RepairCheckpoint) : Prop :=
  job.channelLogin = login ∧ job.completion = some checkpoint.outcome ∧
    checkpoint.requestedStartMs = job.requestedStartMs ∧
    checkpoint.requestedEndMs = job.requestedEndMs ∧
    checkpoint.recordCount = if checkpoint.outcome = .failed then 0 else job.persistedCount

/-- What holds after every event. -/
structure Sound (s : RepairCoordinator) : Prop where
  jobs : ∀ job ∈ s.inFlight.rows, job.Sound ∧ toAsciiLowercase job.channelLogin = job.channelLogin
  done : ∀ job ∈ s.done, job.Sound ∧ job.completion ≠ none
  repairCheckpoints : s.repairCheckpoints = RepairCheckpoints.run s.calls
  recorded : ∀ login checkpoint, .record login checkpoint ∈ s.calls →
    ∃ job ∈ s.inFlight.rows ++ s.done, Reports job login checkpoint

variable {s : RepairCoordinator}

theorem sound_empty : empty.Sound where
  jobs := by rintro job ⟨⟩
  done := by rintro job ⟨⟩
  repairCheckpoints := rfl
  recorded := by rintro login checkpoint ⟨⟩

/-- An event of one job that leaves finished jobs alone. -/
theorem Sound.modify (h : s.Sound) (login : String) {f : RepairJob → RepairJob}
    (hf : ∀ job, (f job).channelLogin = job.channelLogin)
    (hsound : ∀ job, job.Sound → (f job).Sound)
    (hfinished : ∀ (job : RepairJob) (completion : RepairOutcome),
      job.completion = some completion → f job = job) :
    Sound { s with inFlight := s.inFlight.modify login f hf } where
  jobs := by
    intro job hjob
    replace hjob : job ∈ (s.inFlight.modify login f hf).rows := hjob
    rw [KeyTable.mem_modify] at hjob
    rcases hjob with ⟨hold, -⟩ | ⟨job', hjob', -, rfl⟩
    · exact h.jobs job hold
    · rw [hf]
      exact ⟨hsound job' (h.jobs job' hjob').1, (h.jobs job' hjob').2⟩
  done := h.done
  repairCheckpoints := h.repairCheckpoints
  recorded := by
    intro channel checkpoint hcall
    obtain ⟨job, hjob, hreports⟩ := h.recorded channel checkpoint hcall
    refine ⟨job, ?_, hreports⟩
    rcases List.mem_append.mp hjob with hjob | hjob
    · have hmem : job ∈ (s.inFlight.modify login f hf).rows := by
        rw [KeyTable.mem_modify]
        by_cases hlogin : job.channelLogin = login
        · exact .inr ⟨job, hjob, hlogin, (hfinished job _ hreports.2.1).symm⟩
        · exact .inl ⟨hjob, hlogin⟩
      exact List.mem_append_left _ hmem
    · exact List.mem_append_right _ hjob

/-- A call on the checkpoints that reports nothing new. -/
theorem Sound.record (h : s.Sound) {call : RepairCheckpoints.Call}
    (hcall : ∀ login checkpoint, call = .record login checkpoint →
      ∃ job ∈ s.inFlight.rows ++ s.done, Reports job login checkpoint) : (s.record call).Sound where
  jobs := h.jobs
  done := h.done
  repairCheckpoints := by
    show s.repairCheckpoints.call call = RepairCheckpoints.run (s.calls ++ [call])
    rw [RepairCheckpoints.run, List.foldl_append, h.repairCheckpoints]
    rfl
  recorded := by
    intro login checkpoint hmem
    rcases List.mem_append.mp hmem with hmem | hmem
    · exact h.recorded login checkpoint hmem
    · exact hcall login checkpoint (List.mem_singleton.mp hmem).symm

theorem readyJob_eq_some {login : String} {job : RepairJob} {result : RepairResult} :
    s.readyJob login = some (job, result) ↔
      s.inFlight.lookup login = some job ∧ job.ready = some result := by
  simp [readyJob, Option.bind_eq_some_iff]

theorem finishedJob_eq_some {login : String} {job : RepairJob} :
    s.finishedJob login = some job ↔
      s.inFlight.lookup login = some job ∧ job.completion ≠ none := by
  simp [finishedJob, Option.filter_eq_some_iff, Option.ne_none_iff_isSome]

/-- A job that is ready finishes. -/
theorem Sound.finish (h : s.Sound) {login : String} {job : RepairJob} {result : RepairResult}
    (hjob : s.readyJob login = some (job, result)) :
    Sound { s with
      inFlight := s.inFlight.modify login (RepairJob.finish result)
        (RepairJob.channelLogin_finish result) } := by
  obtain ⟨hlookup, hready⟩ := readyJob_eq_some.mp hjob
  have hself : ∀ job' ∈ s.inFlight.rows, job'.channelLogin = login → job' = job := by
    rintro job' hjob' rfl
    exact Option.some.inj ((KeyTable.lookup_of_mem hjob').symm.trans hlookup)
  refine ⟨fun job' hjob' => ?_, h.done, h.repairCheckpoints, fun channel checkpoint hcall => ?_⟩
  · replace hjob' : job' ∈ (s.inFlight.modify login (RepairJob.finish result)
        (RepairJob.channelLogin_finish result)).rows := hjob'
    rw [KeyTable.mem_modify] at hjob'
    rcases hjob' with ⟨hold, -⟩ | ⟨old, hold, hlogin, rfl⟩
    · exact h.jobs job' hold
    · obtain rfl := hself old hold hlogin
      exact ⟨RepairJob.sound_finish (h.jobs old hold).1 hready, (h.jobs old hold).2⟩
  · obtain ⟨job', hjob', hreports⟩ := h.recorded channel checkpoint hcall
    refine ⟨job', ?_, hreports⟩
    rcases List.mem_append.mp hjob' with hjob' | hjob'
    · have hmem : job' ∈ (s.inFlight.modify login (RepairJob.finish result)
          (RepairJob.channelLogin_finish result)).rows := by
        rw [KeyTable.mem_modify]
        refine .inl ⟨hjob', fun hlogin => ?_⟩
        -- a finished job is not ready
        obtain rfl := hself job' hjob' hlogin
        rw [RepairJob.ready_of_completion hreports.2.1] at hready
        cases hready
      exact List.mem_append_left _ hmem
    · exact List.mem_append_right _ hjob'

/-- The checkpoint of a job reports it, once it has finished. -/
theorem reports_checkpoint {job : RepairJob} {result : RepairResult} (retries : RepairRetries)
    (completedAtMs : ℤ) :
    Reports (job.finish result) job.channelLogin (job.checkpoint retries result completedAtMs) :=
  ⟨rfl, rfl, rfl, rfl, RepairJob.outcome_snd result job.persistedCount⟩

/-- **Every event keeps the invariant.** -/
theorem sound_step (retries : RepairRetries) (h : s.Sound) (event : RepairEvent) :
    (s.step retries event).Sound := by
  cases event with
  | start channelLogin requestedStartMs requestedEndMs requests =>
    -- a job that is under way is kept, and a new one has done nothing
    refine ⟨fun job hjob => ?_, h.done, h.repairCheckpoints, fun channel checkpoint hcall => ?_⟩
    · rcases KeyTable.mem_insertIgnore.mp hjob with hold | ⟨rfl, -⟩
      · exact h.jobs job hold
      · exact ⟨RepairJob.sound_new .., toAsciiLowercase_toAsciiLowercase channelLogin⟩
    · obtain ⟨job, hjob, hreports⟩ := h.recorded channel checkpoint hcall
      refine ⟨job, ?_, hreports⟩
      rcases List.mem_append.mp hjob with hjob | hjob
      · exact List.mem_append_left _ (KeyTable.mem_insertIgnore.mpr (.inl hjob))
      · exact List.mem_append_right _ hjob
  | respond channelLogin response =>
    -- what becomes of a fetch concerns the job of its channel alone
    exact h.modify channelLogin _ (fun _ hjob => RepairJob.sound_respond hjob response)
      fun _ _ hjob => RepairJob.respond_of_completion hjob response
  | persist channelLogin stored =>
    exact h.modify channelLogin _ (fun _ hjob => RepairJob.sound_persist hjob stored)
      fun _ _ hjob => RepairJob.persist_of_completion hjob stored
  | fetched channelLogin pastDeadline =>
    exact h.modify channelLogin _ (fun _ hjob => RepairJob.sound_fetched hjob pastDeadline)
      fun _ _ hjob => RepairJob.fetched_of_completion hjob pastDeadline
  | finish channelLogin completedAtMs recorded =>
    -- the checkpoint of a job is written last, and the write may fail
    rw [step]
    split
    · exact h
    · rename_i job result hjob
      have hfinish := h.finish hjob
      cases recorded with
      | false => exact hfinish
      | true =>
        -- the checkpoint reports the job as it has just finished
        obtain ⟨hlookup, hready⟩ := readyJob_eq_some.mp hjob
        obtain ⟨hmem, rfl⟩ := KeyTable.lookup_eq_some.mp hlookup
        rw [if_pos rfl]
        show (RepairCoordinator.record { s with
          inFlight := s.inFlight.modify job.channelLogin (RepairJob.finish result)
            (RepairJob.channelLogin_finish result) } (.record job.channelLogin
              (job.checkpoint retries result completedAtMs))).Sound
        refine hfinish.record fun login checkpoint heq => ?_
        cases heq
        refine ⟨job.finish result, List.mem_append_left _ ?_, reports_checkpoint retries _⟩
        show job.finish result ∈ (s.inFlight.modify job.channelLogin (RepairJob.finish result)
          (RepairJob.channelLogin_finish result)).rows
        rw [KeyTable.mem_modify]
        exact .inr ⟨job, hmem, rfl, rfl⟩
  | remove channelLogin =>
    -- a finished job moves from `in_flight` to the history
    rw [step]
    split
    · exact h
    · rename_i job hjob
      obtain ⟨hlookup, hfinished⟩ := finishedJob_eq_some.mp hjob
      obtain ⟨hmem, rfl⟩ := KeyTable.lookup_eq_some.mp hlookup
      refine ⟨fun job' hjob' => h.jobs job' (KeyTable.mem_erase.mp hjob').1, fun job' hjob' => ?_,
        h.repairCheckpoints, fun channel checkpoint hcall => ?_⟩
      · rcases List.mem_append.mp hjob' with hold | hnew
        · exact h.done job' hold
        · obtain rfl := List.mem_singleton.mp hnew
          exact ⟨(h.jobs _ hmem).1, hfinished⟩
      -- what a checkpoint reports moves with it
      · obtain ⟨job', hjob', hreports⟩ := h.recorded channel checkpoint hcall
        refine ⟨job', ?_, hreports⟩
        rcases List.mem_append.mp hjob' with hold | hdone
        · by_cases hsame : job'.channelLogin = job.channelLogin
          · obtain rfl := KeyTable.eq_of_key _ hold hmem hsame
            exact List.mem_append_right _ (List.mem_append_right _ (List.mem_singleton_self _))
          · exact List.mem_append_left _ (KeyTable.mem_erase.mpr ⟨hold, hsame⟩)
        · exact List.mem_append_right _ (List.mem_append_left _ hdone)
  | clear channels => exact h.record (by rintro login checkpoint ⟨⟩)

theorem sound_run (retries : RepairRetries) (events : List RepairEvent) :
    (run retries events).Sound :=
  List.foldlRecOn events _ sound_empty fun _ hs event _ => sound_step retries hs event

/-- **What a repair job does.**  In every run, for every job, however it interleaves with others:

* a job that has sent its completion has heard from every provider it asked, has appended every
  batch that came back once and in order, and has told its waiters of progress once for every
  batch that the store took, and then of the completion; it succeeded exactly if the store took a
  batch, and failed exactly if all providers did, in which case nobody was told of progress;
* what a waiter is told before that is progress, and the store has taken a batch by then;
* and every checkpoint reports the window and the completion of a job. -/
theorem repair_job_outcome (retries : RepairRetries) (events : List RepairEvent) :
    (∀ job ∈ (run retries events).inFlight.rows ++ (run retries events).done,
      (∀ completion, job.completion = some completion → job.Settled completion) ∧
      (job.completion = none → ∀ told, job.completions.getLast? = some told →
        told = .incomplete ∧ job.persisted ≠ [])) ∧
    (∀ job ∈ (run retries events).done, job.completion ≠ none) ∧
    ∀ login checkpoint, .record login checkpoint ∈ (run retries events).calls →
      ∃ job ∈ (run retries events).inFlight.rows ++ (run retries events).done,
        Reports job login checkpoint := by
  have h := sound_run retries events
  generalize run retries events = s at h
  refine ⟨fun job hjob => ?_, fun job hjob => (h.done job hjob).2, h.recorded⟩
  have hsound : job.Sound := by
    rcases List.mem_append.mp hjob with hjob | hjob
    · exact (h.jobs job hjob).1
    · exact (h.done job hjob).1
  refine ⟨fun completion => RepairJob.settled_of_completion hsound, fun hnone told htold => ?_⟩
  rw [hsound.told, hnone, Option.toList_none, List.append_nil] at htold
  have hmem := List.mem_of_getLast? htold
  refine ⟨List.eq_of_mem_replicate hmem, ?_⟩
  rintro hnil
  rw [hnil] at hmem
  exact List.not_mem_nil hmem

end RepairCoordinator

end RecentMessages
