/-
RecentMessages/Control/IrcListener.lean

The task that forwards the node's own IRC connection to ingest (`irc_listener.rs`,
`run_forwarder`).

Messages wait in a queue, become records in a `DirectIrcBatcher` and go as batches into the
external queue of `RawIngestRuntime`.  What the connection covered is noted in the control
store at once: coverage begins with a JOIN, and a PART or a notice that the channel is
unavailable ends it.

A step is a turn of the forwarder's loop, or one half of it where it waits in between, a
message that the connection puts into the queue, a step of the runtime, or a restart of the
process (`Forwarder.step`).  Clock readings are arguments of the steps.
-/
import RecentMessages.Control.ControlStore
import RecentMessages.Storage.DirectIrc
import RecentMessages.Storage.Runtime

namespace RecentMessages

/-- What the forwarder can tell of a message. -/
inductive ServerMessageKind
  | clearChat (channelLogin : String)
  | clearMsg (channelLogin : String)
  | join (channelLogin : String)
  | notice (channelLogin messageId : Option String)
  | part (channelLogin : String)
  | privmsg (channelLogin : String)
  | roomState (channelLogin : String)
  | userNotice (channelLogin : String)
  | userState (channelLogin : String)
  /-- A message that is not of one channel. -/
  | other
  deriving DecidableEq, Repr

/-- A message of the connection; `raw` is `source().as_raw_irc()`. -/
structure ServerMessage where
  kind : ServerMessageKind
  raw : String
  deriving DecidableEq, Repr

namespace ServerMessage

/-- `channel_login`. -/
def channelLogin (message : ServerMessage) : Option String :=
  match message.kind with
  | .clearChat channelLogin => some channelLogin
  | .clearMsg channelLogin => some channelLogin
  | .join channelLogin => some channelLogin
  | .notice channelLogin _ => channelLogin
  | .part channelLogin => some channelLogin
  | .privmsg channelLogin => some channelLogin
  | .roomState channelLogin => some channelLogin
  | .userNotice channelLogin => some channelLogin
  | .userState channelLogin => some channelLogin
  | .other => none

/-- The channel of an `unavailable_notice`; `joined` is what the connection says of it. -/
def unavailableNotice (message : ServerMessage) (joined : Bool) : Option String :=
  match message.kind with
  | .notice (some channelLogin) (some messageId) =>
    if messageId = "msg_channel_suspended" ∨ messageId = "tos_ban" ∨
        (messageId = "msg_banned" ∧ joined = false) then
      some channelLogin
    else none
  | _ => none

/-- The channel whose coverage a message ends. -/
def endsCoverage (message : ServerMessage) (joined : Bool) : Option String :=
  match message.kind with
  | .part channelLogin => some channelLogin
  | _ => message.unavailableNotice joined

end ServerMessage

/-- A message in the queue. -/
structure Incoming where
  message : ServerMessage
  /-- History: when it was put there. -/
  putAtMs : ℤ
  /-- History: how many were put there before. -/
  number : ℕ
  deriving DecidableEq, Repr

/-- Where the forwarder is in its loop. -/
inductive ForwarderPhase
  /-- `tokio::select!`. -/
  | selecting
  /-- `output.send(batch).await`, in a turn of the loop or in the shutdown. -/
  | sending (batch : RawSourceBatch) (shutdown : Bool)
  /-- In the shutdown, before the coverage is finalized. -/
  | finalizing (directFlushSucceeded : Bool)
  | ended
  deriving DecidableEq

structure ForwarderEnv (β : Type) extends RuntimeEnv β where
  irc : IrcCodec
  batchMessages : ℕ

/-- The state of a node: the forwarder, the queue before it and the runtime after it.  What
comes first in a queue is the oldest. -/
structure Forwarder (β : Type) where
  runtime : RawIngestRuntime β
  control : ControlStore
  incoming : List Incoming
  directBatcher : Option DirectIrcBatcher
  phase : ForwarderPhase
  /-- History: the messages that were put into the queue. -/
  put : List Incoming
  /-- History: the messages whose records the forwarder holds, in the batcher or in a batch
  that it is about to send. -/
  held : List Incoming
  /-- History: the messages whose records were sent, and in which batch. -/
  sent : List (Incoming × RawSourceBatch)

inductive ForwarderAction
  | put (message : ServerMessage) (nowMs : ℤ)
  /-- `flush.tick()`. -/
  | tick
  /-- `incoming_messages.recv()`. -/
  | receive (nowMs : ℤ) (joined : Bool)
  /-- `output.send(batch)` returns. -/
  | send
  /-- `forward_shutdown.cancelled()`. -/
  | shutdown
  | finalize (nowMs : ℤ)
  /-- The connection is gone, and the queue is empty. -/
  | hangUp
  | runtime (action : RuntimeAction)
  /-- The process ends, wherever it is, and a new one starts. -/
  | restart (streamId : String)

namespace Forwarder

variable {β : Type} (env : ForwarderEnv β)

/-- A new process; opening the control store deletes the live coverage. -/
def start (ingest : Ingest β) (control : ControlStore) (enabled : Bool) (streamId : String) :
    Forwarder β where
  runtime := .start ingest enabled
  control := control.discardAllLiveCoverage
  incoming := []
  directBatcher :=
    -- `main` has checked the configuration
    if enabled then (DirectIrcBatcher.new "owned-irc" streamId env.batchMessages).toOption else none
  phase := .selecting
  put := []
  held := []
  sent := []

/-- A call on the control store; the forwarder only logs that it failed. -/
def call (s : Forwarder β) (call : ControlCall) : Forwarder β :=
  { s with control := s.control.call call }

/-- What a message does to the coverage. -/
def updateCoverage (s : Forwarder β) (message : ServerMessage) (receivedAtMs : ℤ) (joined : Bool) :
    Forwarder β :=
  if s.directBatcher.isSome then
    match message.kind with
    | .join channelLogin => s.call (.beginLiveCoverage channelLogin "direct-irc" receivedAtMs)
    | _ =>
      match message.endsCoverage joined with
      | some channelLogin => s.call (.endLiveCoverage channelLogin receivedAtMs)
      | none => s
  else s

/-- A message goes into the batcher; a full batch is about to be sent. -/
def forward (s : Forwarder β) (entry : Incoming) (receivedAtMs : ℤ) : Forwarder β :=
  match entry.message.channelLogin, s.directBatcher with
  | some channelLogin, some batcher =>
    match batcher.pushRaw env.irc entry.message.raw receivedAtMs with
    | .ok (some batch, batcher) =>
      { s with
        directBatcher := some batcher
        held := s.held ++ [entry]
        phase := .sending batch false }
    | .ok (none, batcher) =>
      { s with directBatcher := some batcher, held := s.held ++ [entry] }
    | .error (.unsupportedCommand _) => s
    | .error _ => s.call (.discardLiveCoverage channelLogin)
  | _, _ => s

/-- A turn of the loop with a message. -/
def receive (s : Forwarder β) (nowMs : ℤ) (joined : Bool) : Forwarder β :=
  match s.phase, s.incoming with
  | .selecting, entry :: incoming =>
    ({ s with incoming }.updateCoverage entry.message nowMs joined).forward env entry nowMs
  | _, _ => s

/-- `flush.tick()`. -/
def tick (s : Forwarder β) : Forwarder β :=
  match s.phase, s.directBatcher with
  | .selecting, some batcher =>
    match batcher.flush with
    | (some batch, batcher) =>
      { s with directBatcher := some batcher, phase := .sending batch false }
    | (none, _) => s
  | _, _ => s

/-- There is room in the queue of the runtime. -/
def HasRoom (s : Forwarder β) : Prop :=
  (∃ external ∈ s.runtime.external, external.length < env.externalBatches) ∧
    s.runtime.externalSender = true

instance (s : Forwarder β) : Decidable (s.HasRoom env) :=
  inferInstanceAs (Decidable ((∃ external ∈ s.runtime.external, _) ∧ _))

/-- `output.send(batch)` waits for room, and fails once the runtime has stopped. -/
def send (s : Forwarder β) : Forwarder β :=
  match s.phase with
  | .sending batch shutdown =>
    if s.runtime.Stopped then
      if shutdown then
        { s with held := [], phase := .finalizing false }
      else
        { s with
          held := []
          directBatcher := none
          phase := .selecting }.call .discardAllLiveCoverage
    else if s.HasRoom env then
      { s with
        runtime := s.runtime.step env.toRuntimeEnv (.sendExternal batch)
        held := []
        sent := s.sent ++ s.held.map fun entry => (entry, batch)
        phase := if shutdown then .finalizing true else .selecting }
    else s
  | _ => s

/-- The shutdown of the forwarder flushes the batcher. -/
def shutdown (s : Forwarder β) : Forwarder β :=
  if s.phase = .selecting ∧ s.runtime.cancelled then
    match s.directBatcher.map DirectIrcBatcher.flush with
    | some (some batch, batcher) =>
      { s with directBatcher := some batcher, phase := .sending batch true }
    | _ => { s with phase := .finalizing true }
  else s

/-- The forwarder returns; the queue before it and the sender of the one after it are dropped. -/
def ret (s : Forwarder β) : Forwarder β :=
  { s with
    runtime := s.runtime.step env.toRuntimeEnv .dropExternal
    incoming := []
    directBatcher := none
    phase := .ended
    held := [] }

/-- The shutdown closes the coverage where it is now, or discards it. -/
def finalize (s : Forwarder β) (nowMs : ℤ) : Forwarder β :=
  match s.phase with
  | .finalizing true => (s.call (.closeAllLiveCoverage nowMs)).ret env
  | .finalizing false => (s.call .discardAllLiveCoverage).ret env
  | _ => s

/-- A step; one that is not possible changes nothing. -/
def step (s : Forwarder β) : ForwarderAction → Forwarder β
  | .put message nowMs =>
    if s.phase = .ended then s
    else
      let entry : Incoming := ⟨message, nowMs, s.put.length⟩
      { s with incoming := s.incoming ++ [entry], put := s.put ++ [entry] }
  | .tick => s.tick
  | .receive nowMs joined => s.receive env nowMs joined
  | .send => s.send env
  | .shutdown => s.shutdown
  | .finalize nowMs => s.finalize env nowMs
  | .hangUp => if s.phase = .selecting ∧ s.incoming = [] then s.ret env else s
  -- the forwarder has the only sender
  | .runtime (.sendExternal _) => s
  | .runtime .dropExternal => s
  | .runtime action => { s with runtime := s.runtime.step env.toRuntimeEnv action }
  | .restart streamId =>
    { start env s.runtime.ingest s.control s.runtime.external.isSome streamId with
      put := s.put
      sent := s.sent }

/-- A run of the node. -/
def run (ingest : Ingest β) (control : ControlStore) (enabled : Bool) (streamId : String)
    (actions : List ForwarderAction) : Forwarder β :=
  actions.foldl (step env) (start env ingest control enabled streamId)

end Forwarder

end RecentMessages
