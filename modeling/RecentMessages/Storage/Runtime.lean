/-
RecentMessages/Storage/Runtime.lean

`RawIngestRuntime::run` (`storage/ingest_runtime.rs`): the task that owns durable ingest.

Sources send batches into one bounded queue and everything else sends into another; `run`
recovers the journal, takes batches from both, and drains them when it is cancelled.  It
does so in three loops: while source tasks are left it takes batches and joins tasks, then
it empties the queue of the sources, then it takes what the external senders still send
until the last of them is dropped.  At last it checkpoints.

A step is a move of `run`, a step of the call that it has running on ingest, a move of a
sender or of a source task, or an access of another task to the store or to the open blocks
(`RawIngestRuntime.step`).  Any order of these is a run.
-/
import RecentMessages.Storage.Conservation
import RecentMessages.Storage.Maintenance

namespace RecentMessages

/-- The errors of `run`; those of the calls it makes are one. -/
inductive IngestRuntimeError
  | call
  | sourceTask (message : String)
  | allSourcesStopped
  deriving DecidableEq, Repr

/-- A source task, until it is joined. -/
inductive SourceTask
  | running
  /-- Its sender is dropped. -/
  | closing
  | ended (result : Except String Unit)
  deriving DecidableEq

/-- Where `run` is; a call on ingest may be running as well. -/
inductive RunPhase
  /-- `recover_pending`. -/
  | recovering
  /-- The main loop. -/
  | looping
  /-- `while !tasks.is_empty()`. -/
  | joining
  /-- `while let Ok(batch) = input.try_recv()`. -/
  | emptying
  /-- `while let Some(batch) = external.recv().await`. -/
  | draining
  /-- The last checkpoint. -/
  | closing
  | returned (result : Except IngestRuntimeError Unit)
  deriving DecidableEq

/-- What a runtime is set up with. -/
structure RuntimeEnv (β : Type) where
  settings : Settings β
  sources : ℕ
  /-- The capacity of the queue of the sources. -/
  queueBatches : ℕ
  /-- The capacity of the queue of the external senders. -/
  externalBatches : ℕ

/-- The state of a runtime; the oldest batch of a queue comes first. -/
structure RawIngestRuntime (β : Type) where
  ingest : Ingest β
  tasks : List SourceTask
  input : List RawSourceBatch
  /-- The queue of the external senders, if there is one. -/
  external : Option (List RawSourceBatch)
  /-- An external sender is left. -/
  externalSender : Bool
  sourceOpen : Bool
  externalOpen : Bool
  cancelled : Bool
  phase : RunPhase
  /-- History: the batches whose send succeeded. -/
  sent : List RawSourceBatch

/-- A step. -/
inductive RuntimeAction
  | send (source : ℕ) (batch : RawSourceBatch)
  | dropSender (source : ℕ)
  | endSource (source : ℕ) (result : Except String Unit)
  | sendExternal (batch : RawSourceBatch)
  | dropExternal
  | cancel
  /-- A call of another task on the store. -/
  | store (call : StoreCall)
  /-- A purge of another task. -/
  | purgeOpenBlocks (channelLogin : String)
  | recover (nowMs : ℕ)
  /-- The running call on ingest goes on. -/
  | work
  | retire (order : List (String × String))
  /-- The journal is recovered: spawn the sources. -/
  | spawn
  /-- `input.recv()`, or `input.try_recv()`. -/
  | receive (nowMs : ℕ)
  /-- `external.recv()`. -/
  | receiveExternal (nowMs : ℕ)
  /-- `tasks.join_next()`. -/
  | join (source : ℕ)
  | sealDue (nowMs : ℕ) (order : List String)
  | checkpoint (order : List String)
  /-- `cancellation.cancelled()`. -/
  | stop
  /-- A loop of the shutdown ends; `order` is for the checkpoint after the last. -/
  | leave (order : List String)
  | finish
  /-- A call that `run` makes fails. -/
  | fail

/-- The check of `accept_source_batch`. -/
def RawSourceBatch.Valid (batch : RawSourceBatch) : Prop :=
  batch.firstSequence ≤ batch.lastSequence ∧ batch.lastSequence - batch.firstSequence < 2 ^ 64 - 1 ∧
    batch.records ≠ [] ∧ batch.records.length = batch.lastSequence - batch.firstSequence + 1

instance RawSourceBatch.decidableValid (batch : RawSourceBatch) : Decidable batch.Valid :=
  inferInstanceAs (Decidable (_ ∧ _))

namespace RawIngestRuntime

variable {β : Type} (env : RuntimeEnv β)

/-- Before `run`: a store as an earlier process left it, and two empty queues. -/
def start (ingest : Ingest β) (external : Bool) : RawIngestRuntime β where
  ingest := ingest.crash
  tasks := []
  input := []
  external := if external then some [] else none
  externalSender := true
  sourceOpen := true
  externalOpen := external
  cancelled := false
  phase := .recovering
  sent := []

/-- `run` returns. -/
def ret (s : RawIngestRuntime β) (result : Except IngestRuntimeError Unit) : RawIngestRuntime β :=
  { s with phase := .returned result }

/-- `run` has returned. -/
def Stopped (s : RawIngestRuntime β) : Prop := ∃ result, s.phase = .returned result

instance (s : RawIngestRuntime β) : Decidable s.Stopped :=
  match h : s.phase with
  | .returned result => isTrue ⟨result, h⟩
  | .recovering | .looping | .joining | .emptying | .draining | .closing =>
    isFalse fun ⟨_, h'⟩ => by cases h.symm.trans h'

/-- No source has a sender. -/
def Closed (s : RawIngestRuntime β) : Prop := .running ∉ s.tasks

instance (s : RawIngestRuntime β) : Decidable s.Closed :=
  inferInstanceAs (Decidable (_ ∉ _))

/-- A step of ingest.  A call that fails ends the process, as `?` does. -/
def callStep (s : RawIngestRuntime β) (a : IngestAction) : RawIngestRuntime β :=
  match s.ingest.step env.settings a with
  | none => s
  | some ingest =>
    if ingest.task.running then { s with ingest } else { s with ingest }.ret (.error .call)

/-- `accept`, of a batch that was taken from a queue. -/
def accept (s : RawIngestRuntime β) (batch : RawSourceBatch) (nowMs : ℕ) : RawIngestRuntime β :=
  if batch.Valid then s.callStep env (.accept batch nowMs) else s.ret (.error .call)

/-- `input.recv()`. -/
def receive (s : RawIngestRuntime β) (nowMs : ℕ) : RawIngestRuntime β :=
  match s.phase, s.input with
  | .looping, batch :: input =>
    if s.sourceOpen then { s with input }.accept env batch nowMs else s
  | .looping, [] =>
    if s.sourceOpen ∧ s.Closed then
      if s.externalOpen then { s with sourceOpen := false } else s.ret (.error .allSourcesStopped)
    else s
  | .joining, batch :: input =>
    if s.tasks = [] then s else { s with input }.accept env batch nowMs
  | .emptying, batch :: input => { s with input }.accept env batch nowMs
  | _, _ => s

/-- `external.recv()`. -/
def receiveExternal (s : RawIngestRuntime β) (nowMs : ℕ) : RawIngestRuntime β :=
  match s.phase, s.external with
  | .looping, some (batch :: external) =>
    if s.externalOpen then { s with external := some external }.accept env batch nowMs else s
  | .looping, some [] =>
    if s.externalOpen ∧ ¬s.externalSender then
      if s.sourceOpen then { s with externalOpen := false }
      else { s with externalOpen := false }.ret (.error .allSourcesStopped)
    else s
  | .draining, some (batch :: external) =>
    { s with external := some external }.accept env batch nowMs
  | _, _ => s

/-- `tasks.join_next()`. -/
def join (s : RawIngestRuntime β) (source : ℕ) : RawIngestRuntime β :=
  match s.tasks[source]? with
  | some (.ended result) =>
    match result with
    | .ok () => { s with tasks := s.tasks.eraseIdx source }
    | .error message =>
      { s with tasks := s.tasks.eraseIdx source }.ret (.error (.sourceTask message))
  | _ => s

/-- A loop of the shutdown ends. -/
def leave (s : RawIngestRuntime β) (order : List String) : RawIngestRuntime β :=
  match s.phase with
  | .joining => if s.tasks = [] then { s with phase := .emptying } else s
  | .emptying => if s.input = [] then { s with phase := .draining } else s
  | .draining =>
    if s.external = none ∨ (s.external = some [] ∧ s.externalSender = false) then
      match s.ingest.step env.settings (.checkpoint order) with
      | none => s
      | some ingest => { s with ingest, phase := .closing }
    else s
  | _ => s

/-- A move of `run` between two calls. -/
def move (s : RawIngestRuntime β) : RuntimeAction → RawIngestRuntime β
  | .spawn =>
    if s.phase = .recovering then
      { s with tasks := List.replicate env.sources .running, phase := .looping }
    else s
  | .receive nowMs => s.receive env nowMs
  | .receiveExternal nowMs => s.receiveExternal env nowMs
  | .join source => if s.phase = .looping ∨ s.phase = .joining then s.join source else s
  | .sealDue nowMs order => if s.phase = .looping then s.callStep env (.sealDue nowMs order) else s
  | .checkpoint order => if s.phase = .looping then s.callStep env (.checkpoint order) else s
  | .stop => if s.phase = .looping ∧ s.cancelled then { s with phase := .joining } else s
  | .leave order => s.leave env order
  | .finish => if s.phase = .closing then s.ret (.ok ()) else s
  | _ => s

/-- A step; one that is not possible changes nothing. -/
def step (s : RawIngestRuntime β) (a : RuntimeAction) : RawIngestRuntime β :=
  match a with
  | .send source batch =>
    -- a send waits for room, and fails once the receiver is dropped
    if s.tasks[source]? = some .running ∧ s.input.length < env.queueBatches ∧ ¬s.Stopped then
      { s with input := s.input ++ [batch], sent := s.sent ++ [batch] }
    else s
  | .dropSender source =>
    if s.tasks[source]? = some .running then { s with tasks := s.tasks.set source .closing } else s
  | .endSource source result =>
    if s.tasks[source]? = some .closing then { s with tasks := s.tasks.set source (.ended result) }
    else s
  | .sendExternal batch =>
    match s.external with
    | some external =>
      if s.externalSender ∧ external.length < env.externalBatches ∧ ¬s.Stopped then
        { s with external := some (external ++ [batch]), sent := s.sent ++ [batch] }
      else s
    | none => s
  | .dropExternal => { s with externalSender := false }
  | .cancel => { s with cancelled := true }
  | .store call =>
    { s with ingest := { s.ingest with
        db := s.ingest.db.call env.settings.codec env.settings.store call } }
  | .purgeOpenBlocks channelLogin =>
    { s with ingest := { s.ingest with
        openBlocks := s.ingest.openBlocks.purgeChannel (toAsciiLowercase channelLogin) } }
  | .recover nowMs =>
    if s.phase = .recovering ∧ s.ingest.task.running = false then
      match s.ingest.step env.settings (.restart nowMs) with
      | none => s.ret (.error .call)
      | some ingest => { s with ingest }
    else s
  | .work => if s.Stopped then s else s.callStep env .advance
  | .retire order => if s.Stopped then s else s.callStep env (.retire order)
  | .fail => if s.Stopped then s else s.ret (.error .call)
  | a =>
    match s.ingest.task with
    | .idle => s.move env a
    | _ => s

/-- The main loop moves on only between two batches. -/
def moveIdle (s : RawIngestRuntime β) (a : RuntimeAction) : RawIngestRuntime β :=
  match s.ingest.task with
  | .idle => s.move env a
  | _ => s

theorem moveIdle_cases (s : RawIngestRuntime β) (a : RuntimeAction) :
    s.ingest.task = .idle ∧ s.moveIdle env a = s.move env a ∨ s.moveIdle env a = s := by
  unfold moveIdle
  split
  · exact .inl ⟨‹_›, rfl⟩
  · exact .inr rfl

end RawIngestRuntime

end RecentMessages
