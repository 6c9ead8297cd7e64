/-
RecentMessages/Storage/RawFirehose.lean

The source that reads a raw firehose (`storage/raw_firehose.rs`).

`run` connects, batches the lines that come in, and connects again when the connection ends, with
a delay that doubles up to a maximum and starts anew after a connection that lasted.  Every
connection is a stream of its own.  What the socket brings, when the token is cancelled, and when
the receiver of the output goes away is up to the environment; the lines of one message are steps
of their own, since each of them may wait for the output.

* `raw_firehose_delivers` — what goes out: for each connection, under an identity that no other
  connection has, the accepted lines in their order, and all of them unless the output is closed;
* `raw_firehose_reconnects` — the delay before each attempt, and when and how the source ends.
-/
import RecentMessages.Storage.SourceStreams
import RecentMessages.Library.Lists

namespace RecentMessages

/-! ### Configuration -/

/-- `RawFirehoseConfig`; the delays are in nanoseconds. -/
structure RawFirehoseConfig where
  sourceId : String
  url : String
  origin : String
  batchMessages : ℕ
  batchMaxDelay : ℕ
  reconnectMinDelay : ℕ
  reconnectMaxDelay : ℕ
  deriving DecidableEq, Repr

/-- `RawFirehoseError`. -/
inductive RawFirehoseError
  | invalidConfig (message : String)
  | connection (message : String)
  | outputClosed
  deriving DecidableEq, Repr

/-- A configuration that passed the checks, and which channels the node keeps. -/
structure RawFirehoseSource where
  config : RawFirehoseConfig
  placement : Option CachePlacement
  batchMessages_pos : 0 < config.batchMessages
  reconnectMinDelay_pos : 0 < config.reconnectMinDelay
  reconnectMinDelay_le : config.reconnectMinDelay ≤ config.reconnectMaxDelay

namespace RawFirehoseSource

/-- `RawFirehoseSource::new`. -/
def new (config : RawFirehoseConfig) : Except RawFirehoseError RawFirehoseSource :=
  if h : config.sourceId = "" ∨ config.url = "" ∨ config.batchMessages = 0 ∨
      config.batchMaxDelay = 0 ∨ config.reconnectMinDelay = 0 ∨
      config.reconnectMaxDelay < config.reconnectMinDelay then
    .error (.invalidConfig "IDs, URL, batch bounds, and reconnect bounds must be valid")
  else
    .ok {
      config
      placement := none
      batchMessages_pos := Nat.pos_of_ne_zero fun hb => h (.inr (.inr (.inl hb)))
      reconnectMinDelay_pos :=
        Nat.pos_of_ne_zero fun hd => h (.inr (.inr (.inr (.inr (.inl hd)))))
      reconnectMinDelay_le :=
        Nat.le_of_not_lt fun hlt => h (.inr (.inr (.inr (.inr (.inr hlt))))) }

/-- `with_placement`. -/
def withPlacement (source : RawFirehoseSource) (placement : Option CachePlacement) :
    RawFirehoseSource :=
  { source with placement }

/-- The identity of a stream; `connectedAt` is in Unix milliseconds. -/
def streamId (source : RawFirehoseSource) (connectedAt generation : ℕ) : String :=
  source.config.sourceId ++ "-" ++ toString connectedAt ++ "-" ++ toString generation

end RawFirehoseSource

/-! ### Lines -/

/-- `char::is_whitespace`: the code points with the property White_Space. -/
def isWhiteSpace (c : Char) : Bool :=
  let n := c.toNat
  (0x9 ≤ n && n ≤ 0xd) || n = 0x20 || n = 0x85 || n = 0xa0 || n = 0x1680 ||
    (0x2000 ≤ n && n ≤ 0x200a) || n = 0x2028 || n = 0x2029 || n = 0x202f || n = 0x205f || n = 0x3000

/-- `str::trim_end`. -/
def trimEnd (line : String) : String := String.ofList (line.toList.rdropWhile isWhiteSpace)

/-- `str::lines`: a line ends with a newline, or with a carriage return and a newline; the text
may end without one. -/
def textLines (text : String) : List String :=
  let pieces := text.toList.splitOn '\n'
  let ended := pieces.dropLast.map fun line =>
    if line.getLast? = some '\r' then line.dropLast else line
  (ended ++ pieces.getLast?.toList.filter (· ≠ [])).map String.ofList

/-- The lines that `accept_lines` goes through. -/
def firehoseLines (text : String) : List String :=
  ((textLines text).map trimEnd).filter (· ≠ "")

/-! ### The source -/

/-- What comes in over the socket; a ping may be impossible to answer. -/
inductive SocketMessage
  | text (text : String)
  | binary (bytes : ByteArray)
  | ping (answered : Bool)
  /-- A close frame, an error, or the end of the stream. -/
  | close
  | other

/-- The history of a connection. -/
structure FirehoseConnection where
  streamId : String
  generation : ℕ
  /-- The messages with text that came in, and when. -/
  texts : List (String × ℤ)
  /-- The lines that `accept_lines` has got through. -/
  handled : List (String × ℤ)
  /-- The batches that went out. -/
  sent : List RawSourceBatch
  deriving DecidableEq, Repr

/-- Where `run` is. -/
inductive FirehosePhase
  | connecting
  /-- In the loop of `run_connection`, or in `accept_lines` if there are lines. -/
  | connected (connection : FirehoseConnection) (batcher : RawBatcher)
      (lines : List (String × ℤ))
  /-- Before the next attempt. -/
  | waiting
  | stopped
  /-- `OutputClosed`, in this connection. -/
  | failed (connection : FirehoseConnection)
  deriving DecidableEq, Repr

/-- A running source with its surroundings. -/
structure RawFirehose where
  phase : FirehosePhase
  generation : ℕ
  backoff : ℕ
  cancelled : Bool
  outputOpen : Bool
  output : List RawSourceBatch
  /-- History: the connections that have ended, oldest first. -/
  ended : List FirehoseConnection
  /-- History: how many attempts have ended since one that lasted. -/
  shortAttempts : ℕ
  deriving DecidableEq, Repr

/-- What can happen next.  The times are in Unix milliseconds, and `elapsed` are the nanoseconds
since the attempt began. -/
inductive FirehoseEvent
  | cancel
  /-- The receiver of the output is dropped. -/
  | closeOutput
  | connect (connectedAt : ℕ)
  /-- There is no connection. -/
  | refuse (elapsed : ℕ)
  | tick
  | message (message : SocketMessage) (now elapsed : ℕ)
  /-- The next line of a message. -/
  | line
  /-- The loop of a connection sees the cancelled token. -/
  | notice (elapsed : ℕ)
  /-- The wait before the next attempt is over, or has seen the cancelled token. -/
  | wake (cancelled : Bool)

/-- The events that bring nothing new: an attempt fails, or the source goes on by itself. -/
def FirehoseEvent.own : FirehoseEvent → Bool
  | .refuse _ | .line | .notice _ | .wake _ => true
  | _ => false

namespace RawFirehose

variable (irc : IrcCodec) (hash : List UInt8 → Digest) (source : RawFirehoseSource)

/-- The record that `accept_lines` pushes for a line. -/
def accept (line : String × ℤ) : Option CanonicalRecord :=
  match canonicalizeRawIrcFrom irc line.1 line.2 source.config.sourceId .reconstructed with
  | .ok record =>
    if source.placement.any fun p => !p.retains hash record.channelKey then none else some record
  | .error _ => none

/-- The top of the loop of `run`. -/
def attempt (s : RawFirehose) : RawFirehose :=
  if s.cancelled then { s with phase := .stopped }
  else { s with generation := satAddU s.generation 1, phase := .connecting }

/-- `run` before its first attempt. -/
def start (cancelled : Bool) : RawFirehose :=
  attempt {
    phase := .waiting
    generation := 0
    backoff := source.config.reconnectMinDelay
    cancelled
    outputOpen := true
    output := []
    ended := []
    shortAttempts := 0 }

/-- A connection that lasted: 30 seconds. -/
def lasting : ℕ := 30 * 10 ^ 9

/-- An attempt has ended.  The product saturates, but at no less than any maximum. -/
def backOff (elapsed : ℕ) (s : RawFirehose) : RawFirehose :=
  { s with
    backoff := if lasting ≤ elapsed then source.config.reconnectMinDelay
      else min (2 * s.backoff) source.config.reconnectMaxDelay
    phase := .waiting
    shortAttempts := if lasting ≤ elapsed then 0 else s.shortAttempts + 1 }

/-- `run_connection` has returned `Ok`. -/
def leave (elapsed : ℕ) (s : RawFirehose) (c : FirehoseConnection) : RawFirehose :=
  let s := { s with ended := s.ended ++ [c] }
  if s.cancelled then { s with phase := .stopped } else s.backOff source elapsed

/-- `send_if_some`, and what comes after it. -/
def sendIfSome (s : RawFirehose) (c : FirehoseConnection) (batch : Option RawSourceBatch)
    (next : RawFirehose → FirehoseConnection → RawFirehose) : RawFirehose :=
  match batch with
  | none => next s c
  | some batch =>
    if s.outputOpen then
      next { s with output := s.output ++ [batch] } { c with sent := c.sent ++ [batch] }
    else
      { s with phase := .failed c }

/-- `accept_lines` begins. -/
def receive (s : RawFirehose) (c : FirehoseConnection) (batcher : RawBatcher) (text : String)
    (now : ℕ) : RawFirehose :=
  let nowMs := min (now : ℤ) i64Max
  { s with
    phase := .connected { c with texts := c.texts ++ [(text, nowMs)] } batcher
      ((firehoseLines text).map (·, nowMs)) }

/-- The turn of a connection that waits for its socket, the ticks and the token. -/
def turn (s : RawFirehose) (c : FirehoseConnection) (batcher : RawBatcher) :
    FirehoseEvent → RawFirehose
  | .tick =>
    s.sendIfSome c batcher.flush.1 fun s c =>
      { s with phase := .connected c batcher.flush.2 [] }
  | .message (.text text) now _ => s.receive c batcher text now
  | .message (.binary bytes) now _ =>
    match String.fromUTF8? bytes with
    | some text => s.receive c batcher text now
    | none => s
  | .message (.ping answered) _ elapsed =>
    if answered then s else s.sendIfSome c batcher.flush.1 (leave source elapsed)
  | .message .close _ elapsed => s.sendIfSome c batcher.flush.1 (leave source elapsed)
  | .notice elapsed =>
    if s.cancelled then s.sendIfSome c batcher.flush.1 (leave source elapsed) else s
  | _ => s

/-- One line of `accept_lines`. -/
def takeLine (s : RawFirehose) (c : FirehoseConnection) (batcher : RawBatcher)
    (line : String × ℤ) (lines : List (String × ℤ)) : RawFirehose :=
  let c := { c with handled := c.handled ++ [line] }
  match accept irc hash source line with
  | none => { s with phase := .connected c batcher lines }
  | some record =>
    s.sendIfSome c (batcher.push record).1 fun s c =>
      { s with phase := .connected c (batcher.push record).2 lines }

/-- One event. -/
def step (s : RawFirehose) (event : FirehoseEvent) : RawFirehose :=
  match event, s.phase with
  | .cancel, _ => { s with cancelled := true }
  | .closeOutput, _ => { s with outputOpen := false }
  | .connect connectedAt, .connecting =>
    let streamId := source.streamId connectedAt s.generation
    { s with
      phase := .connected ⟨streamId, s.generation, [], [], []⟩
        (.new source.config.sourceId streamId source.config.batchMessages) [] }
  | .refuse elapsed, .connecting => s.backOff source elapsed
  | .line, .connected c batcher (line :: lines) => s.takeLine irc hash source c batcher line lines
  | event, .connected c batcher [] => s.turn source c batcher event
  | .wake cancelled, .waiting =>
    if cancelled then
      if s.cancelled then { s with phase := .stopped } else s
    else s.attempt
  | _, _ => s

/-- A run of `run`. -/
def run (cancelled : Bool) (events : List FirehoseEvent) : RawFirehose :=
  events.foldl (step irc hash source) (start source cancelled)

end RawFirehose


/-! ### What a connection has done -/

namespace FirehoseConnection

variable (irc : IrcCodec) (hash : List UInt8 → Digest) (source : RawFirehoseSource)

/-- The lines of the messages that came in. -/
def lines (c : FirehoseConnection) : List (String × ℤ) :=
  c.texts.flatMap fun text => (firehoseLines text.1).map (·, text.2)

/-- The records of the lines that `accept_lines` has got through. -/
def accepted (c : FirehoseConnection) : List CanonicalRecord :=
  c.handled.filterMap (RawFirehose.accept irc hash source)

/-- The batches `sent` and `unsent` are those of a batcher that took what was accepted. -/
def Produced (c : FirehoseConnection) (batcher : RawBatcher) (unsent : List RawSourceBatch) :
    Prop :=
  ∃ calls : List (BatchingCall CanonicalRecord),
    calls.filterMap BatchingCall.item = c.accepted irc hash source ∧
      (RawBatcher.new source.config.sourceId c.streamId source.config.batchMessages).run calls =
        (c.sent ++ unsent, batcher)

/-- Everything that came in has been handled, and everything that was accepted has gone out. -/
def Complete (c : FirehoseConnection) : Prop :=
  c.handled = c.lines ∧ ∃ batcher, c.Produced irc hash source batcher [] ∧ batcher.records = []

/-- A batch could not be sent. -/
def Failed (c : FirehoseConnection) : Prop :=
  c.handled <+: c.lines ∧
    ∃ batcher batch, c.Produced irc hash source batcher [batch] ∧ batcher.records = []

variable {irc hash source} {c : FirehoseConnection} {batcher : RawBatcher}

/-- The batcher is told to flush. -/
theorem Produced.flush (h : c.Produced irc hash source batcher []) :
    c.Produced irc hash source batcher.flush.2 batcher.flush.1.toList := by
  obtain ⟨calls, hitems, hrun⟩ := h
  refine ⟨calls ++ [.flush], ?_, ?_⟩
  · rw [List.filterMap_append, hitems]
    exact List.append_nil _
  · rw [RawBatcher.run] at hrun ⊢
    rw [collect_concat, hrun, List.append_nil]
    rfl

/-- The batcher takes the record of a line. -/
theorem Produced.push (h : c.Produced irc hash source batcher []) {line : String × ℤ}
    {record : CanonicalRecord} (haccept : RawFirehose.accept irc hash source line = some record) :
    Produced irc hash source { c with handled := c.handled ++ [line] } (batcher.push record).2
      (batcher.push record).1.toList := by
  obtain ⟨calls, hitems, hrun⟩ := h
  refine ⟨calls ++ [.push record], ?_, ?_⟩
  · rw [List.filterMap_append, hitems, accepted, accepted, List.filterMap_append]
    show _ = _ ++ [line].filterMap (RawFirehose.accept irc hash source)
    rw [List.filterMap_cons_some haccept]
    rfl
  · rw [RawBatcher.run] at hrun ⊢
    rw [collect_concat, hrun, List.append_nil]
    rfl

/-- A line that is not accepted. -/
theorem Produced.skip (h : c.Produced irc hash source batcher []) {line : String × ℤ}
    (haccept : RawFirehose.accept irc hash source line = none) :
    Produced irc hash source { c with handled := c.handled ++ [line] } batcher [] := by
  obtain ⟨calls, hitems, hrun⟩ := h
  refine ⟨calls, ?_, hrun⟩
  rw [hitems, accepted, accepted, List.filterMap_append]
  show _ = _ ++ [line].filterMap (RawFirehose.accept irc hash source)
  rw [List.filterMap_cons_none haccept]
  exact (List.append_nil _).symm

/-- The unsent batch goes out. -/
theorem Produced.send {batch : RawSourceBatch} (h : c.Produced irc hash source batcher [batch]) :
    Produced irc hash source { c with sent := c.sent ++ [batch] } batcher [] := by
  obtain ⟨calls, hitems, hrun⟩ := h
  exact ⟨calls, hitems, hrun.trans (by rw [List.append_nil])⟩

end FirehoseConnection

namespace RawBatcher

/-- A batch holds everything. -/
theorem records_flush (b : RawBatcher) : b.flush.2.records = [] := by
  unfold flush
  split
  · assumption
  · rfl

theorem records_push {b : RawBatcher} {record : CanonicalRecord}
    (h : (b.push record).1 ≠ none) : (b.push record).2.records = [] := by
  unfold push at h ⊢
  dsimp only at h ⊢
  split at h
  · rename_i hfull
    rw [if_pos hfull]
    rfl
  · exact absurd rfl h

end RawBatcher

/-! ### The invariant -/

namespace RawFirehose

variable {irc : IrcCodec} {hash : List UInt8 → Digest} {source : RawFirehoseSource}
  {s : RawFirehose} {n : ℕ} {c : FirehoseConnection} {batcher : RawBatcher}
  {lines : List (String × ℤ)} {unsent : List RawSourceBatch}

/-- The connection that has not ended, if there is one. -/
def current (s : RawFirehose) : Option FirehoseConnection :=
  match s.phase with
  | .connected c _ _ => some c
  | .failed c => some c
  | _ => none

/-- All connections, oldest first. -/
def connections (s : RawFirehose) : List FirehoseConnection := s.ended ++ s.current.toList

/-- What holds of the connections after `n` events. -/
structure Recorded (source : RawFirehoseSource) (s : RawFirehose)
    (connections : List FirehoseConnection) (n : ℕ) : Prop where
  output : s.output = connections.flatMap (·.sent)
  generation_le : s.generation ≤ n + 1
  streamId : ∀ c ∈ connections, ∃ connectedAt, c.streamId = source.streamId connectedAt c.generation
  ascending : connections.Pairwise fun c c' => c.generation < c'.generation
  earlier : ∀ c ∈ connections, c.generation ≤ s.generation
  handled_le : ∀ c ∈ connections, c.handled.length ≤ n
  backoff : s.backoff = min (source.config.reconnectMinDelay * 2 ^ s.shortAttempts)
    source.config.reconnectMaxDelay

/-- What holds in a connection, when a batch may be about to be sent. -/
structure InConnection (irc : IrcCodec) (hash : List UInt8 → Digest) (source : RawFirehoseSource)
    (s : RawFirehose) (c : FirehoseConnection) (batcher : RawBatcher)
    (lines : List (String × ℤ)) (unsent : List RawSourceBatch) (n : ℕ) : Prop where
  recorded : Recorded source s (s.ended ++ [c]) n
  ended : ∀ c ∈ s.ended, c.Complete irc hash source
  produced : c.Produced irc hash source batcher unsent
  lines : c.lines = c.handled ++ lines

/-- What holds of a phase. -/
def PhaseSound (irc : IrcCodec) (hash : List UInt8 → Digest) (source : RawFirehoseSource)
    (s : RawFirehose) : FirehosePhase → Prop
  | .connecting => ∀ c ∈ s.ended, c.generation < s.generation
  | .connected c batcher lines =>
    c.Produced irc hash source batcher [] ∧ c.lines = c.handled ++ lines
  | .waiting => True
  | .stopped => s.cancelled = true
  | .failed c => c.Failed irc hash source ∧ s.outputOpen = false

/-- What holds after `n` events. -/
structure Sound (irc : IrcCodec) (hash : List UInt8 → Digest) (source : RawFirehoseSource)
    (s : RawFirehose) (n : ℕ) : Prop where
  recorded : Recorded source s s.connections n
  ended : ∀ c ∈ s.ended, c.Complete irc hash source
  phase : s.PhaseSound irc hash source s.phase

theorem Recorded.mono {connections : List FirehoseConnection} {m : ℕ}
    (h : Recorded source s connections n) (hle : n ≤ m) : Recorded source s connections m where
  output := h.output
  generation_le := h.generation_le.trans (Nat.add_le_add_right hle 1)
  streamId := h.streamId
  ascending := h.ascending
  earlier := h.earlier
  handled_le := fun c hc => (h.handled_le c hc).trans hle
  backoff := h.backoff

/-- What is recorded does not depend on the phase, the token and the receiver. -/
theorem Recorded.congr {s' : RawFirehose} {connections : List FirehoseConnection}
    (h : Recorded source s connections n) (houtput : s'.output = s.output)
    (hgeneration : s'.generation = s.generation) (hbackoff : s'.backoff = s.backoff)
    (hshort : s'.shortAttempts = s.shortAttempts) : Recorded source s' connections n where
  output := houtput.trans h.output
  generation_le := hgeneration ▸ h.generation_le
  streamId := h.streamId
  ascending := h.ascending
  earlier := hgeneration ▸ h.earlier
  handled_le := h.handled_le
  backoff := by rw [hbackoff, hshort, h.backoff]

/-- The last connection goes on. -/
theorem Recorded.update {connections : List FirehoseConnection} {c' : FirehoseConnection}
    {output : List RawSourceBatch} (h : Recorded source s (connections ++ [c]) n)
    (hstream : c'.streamId = c.streamId) (hgeneration : c'.generation = c.generation)
    (hhandled : c'.handled.length ≤ n)
    (houtput : output = (connections ++ [c']).flatMap (·.sent)) :
    Recorded source { s with output } (connections ++ [c']) n := by
  have hlast : c ∈ connections ++ [c] := List.mem_append_right _ (List.mem_singleton_self c)
  -- the connections before the last one are as they were
  have hcase : ∀ x ∈ connections ++ [c'], x ∈ connections ∨ x = c' := by
    intro x hx
    rcases List.mem_append.mp hx with hold | hnew
    · exact .inl hold
    · exact .inr (List.mem_singleton.mp hnew)
  refine ⟨houtput, h.generation_le, fun x hx => ?_, ?_, fun x hx => ?_, fun x hx => ?_, h.backoff⟩
  · rcases hcase x hx with hold | rfl
    · exact h.streamId x (List.mem_append_left _ hold)
    · rw [hstream, hgeneration]
      exact h.streamId c hlast
  · obtain ⟨hold, -, hcross⟩ := List.pairwise_append.mp h.ascending
    refine List.pairwise_append.mpr ⟨hold, List.pairwise_singleton _ _, fun x hx y hy => ?_⟩
    obtain rfl := List.mem_singleton.mp hy
    rw [hgeneration]
    exact hcross x hx c (List.mem_singleton_self c)
  · rcases hcase x hx with hold | rfl
    · exact h.earlier x (List.mem_append_left _ hold)
    · rw [hgeneration]
      exact h.earlier c hlast
  · rcases hcase x hx with hold | rfl
    · exact h.handled_le x (List.mem_append_left _ hold)
    · exact hhandled

theorem connections_of_current_none (h : s.current = none) : s.connections = s.ended := by
  rw [connections, h, Option.toList_none, List.append_nil]

theorem Sound.mono {m : ℕ} (h : s.Sound irc hash source n) (hle : n ≤ m) :
    s.Sound irc hash source m :=
  ⟨h.recorded.mono hle, h.ended, h.phase⟩

/-- A connection of a sound state. -/
theorem Sound.inConnection (h : s.Sound irc hash source n)
    (hphase : s.phase = .connected c batcher lines) :
    s.InConnection irc hash source c batcher lines [] n := by
  have hcurrent : s.current = some c := by rw [current, hphase]
  have hconnections : s.connections = s.ended ++ [c] := by
    rw [connections, hcurrent, Option.toList_some]
  obtain ⟨hproduced, hlines⟩ : PhaseSound irc hash source s (.connected c batcher lines) :=
    hphase ▸ h.phase
  exact ⟨hconnections ▸ h.recorded, h.ended, hproduced, hlines⟩

/-- The loop goes on. -/
theorem InConnection.connected (h : s.InConnection irc hash source c batcher lines [] n) :
    Sound irc hash source { s with phase := .connected c batcher lines } n where
  recorded := h.recorded.congr rfl rfl rfl rfl
  ended := h.ended
  phase := ⟨h.produced, h.lines⟩

/-- An attempt has ended, and the delay grows or starts anew. -/
theorem Recorded.backOff (h : Recorded source s s.ended n) (elapsed : ℕ) :
    Recorded source (s.backOff source elapsed) s.ended n where
  output := h.output
  generation_le := h.generation_le
  streamId := h.streamId
  ascending := h.ascending
  earlier := h.earlier
  handled_le := h.handled_le
  backoff := by
    have hmin := source.reconnectMinDelay_le
    show (if lasting ≤ elapsed then _ else _) = _
    unfold RawFirehose.backOff
    dsimp only
    split
    · rw [pow_zero, mul_one, min_eq_left hmin]
    · rw [h.backoff, pow_succ, ← mul_assoc]
      generalize source.config.reconnectMinDelay * 2 ^ s.shortAttempts = delay
      omega

theorem sound_backOff (h : Recorded source s s.ended n)
    (hended : ∀ c ∈ s.ended, c.Complete irc hash source) (elapsed : ℕ) :
    (s.backOff source elapsed).Sound irc hash source n where
  recorded := by
    rw [connections_of_current_none rfl]
    exact h.backOff elapsed
  ended := hended
  phase := trivial

/-- A connection that has sent everything may end. -/
theorem InConnection.leave (h : s.InConnection irc hash source c batcher [] [] n)
    (hempty : batcher.records = []) (elapsed : ℕ) :
    (RawFirehose.leave source elapsed s c).Sound irc hash source n := by
  have hlines : c.handled = c.lines := by rw [h.lines, List.append_nil]
  have hended : ∀ c' ∈ s.ended ++ [c], c'.Complete irc hash source := by
    intro c' hc'
    rcases List.mem_append.mp hc' with hold | hnew
    · exact h.ended c' hold
    · obtain rfl := List.mem_singleton.mp hnew
      exact ⟨hlines, batcher, h.produced, hempty⟩
  have hrecorded : Recorded source { s with ended := s.ended ++ [c] } (s.ended ++ [c]) n :=
    h.recorded.congr rfl rfl rfl rfl
  unfold RawFirehose.leave
  dsimp only
  split
  · rename_i hcancelled
    refine ⟨?_, hended, hcancelled⟩
    rw [connections_of_current_none rfl]
    exact hrecorded.congr rfl rfl rfl rfl
  · exact sound_backOff hrecorded hended elapsed

/-- **Sending a batch** either goes on without it, or ends the source. -/
theorem InConnection.sendIfSome {batch : Option RawSourceBatch}
    {next : RawFirehose → FirehoseConnection → RawFirehose}
    (h : s.InConnection irc hash source c batcher lines batch.toList n)
    (hempty : batch ≠ none → batcher.records = [])
    (hnext : ∀ s c, InConnection irc hash source s c batcher lines [] n →
      (next s c).Sound irc hash source n) :
    (s.sendIfSome c batch next).Sound irc hash source n := by
  unfold RawFirehose.sendIfSome
  cases batch with
  | none => exact hnext s c h
  | some batch =>
    have hrecords := hempty (Option.some_ne_none batch)
    dsimp only
    split
    · have hlast : c ∈ s.ended ++ [c] := List.mem_append_right _ (List.mem_singleton_self c)
      refine hnext _ _ ⟨?_, h.ended, h.produced.send, h.lines⟩
      refine h.recorded.update rfl rfl (h.recorded.handled_le c hlast) ?_
      rw [h.recorded.output, List.flatMap_append, List.flatMap_append, List.append_assoc]
      simp
    · rename_i hclosed
      refine ⟨h.recorded.congr rfl rfl rfl rfl, h.ended,
        ⟨⟨lines, h.lines.symm⟩, batcher, batch, h.produced, hrecords⟩, ?_⟩
      exact Bool.eq_false_iff.mpr hclosed

/-! ### Steps -/

/-- A message with text comes in. -/
theorem InConnection.receive (h : s.InConnection irc hash source c batcher [] [] n) (text : String)
    (now : ℕ) : (s.receive c batcher text now).Sound irc hash source n := by
  have hlast : c ∈ s.ended ++ [c] := List.mem_append_right _ (List.mem_singleton_self c)
  have hlines : c.lines = c.handled := by rw [h.lines, List.append_nil]
  refine InConnection.connected ⟨?_, h.ended, h.produced, ?_⟩
  · refine h.recorded.update rfl rfl (h.recorded.handled_le c hlast) ?_
    rw [h.recorded.output, List.flatMap_append, List.flatMap_append]
    rfl
  · rw [FirehoseConnection.lines, List.flatMap_append]
    show c.lines ++ _ = _
    rw [hlines]
    exact congrArg (c.handled ++ ·) (List.append_nil _)

/-- A line is taken from a message. -/
theorem InConnection.takeLine {line : String × ℤ}
    (h : s.InConnection irc hash source c batcher (line :: lines) [] n) :
    (s.takeLine irc hash source c batcher line lines).Sound irc hash source (n + 1) := by
  have hlast : c ∈ s.ended ++ [c] := List.mem_append_right _ (List.mem_singleton_self c)
  have hrecorded : Recorded source s
      (s.ended ++ [{ c with handled := c.handled ++ [line] }]) (n + 1) := by
    refine (h.recorded.mono (Nat.le_succ n)).update rfl rfl ?_ ?_
    · rw [List.length_append]
      exact Nat.add_le_add_right (h.recorded.handled_le c hlast) 1
    · rw [h.recorded.output, List.flatMap_append, List.flatMap_append]
      rfl
  have hlines : FirehoseConnection.lines { c with handled := c.handled ++ [line] } =
      (c.handled ++ [line]) ++ lines := by
    rw [List.append_assoc]
    exact h.lines
  unfold RawFirehose.takeLine
  dsimp only
  split
  · rename_i haccept
    exact InConnection.connected ⟨hrecorded, h.ended, h.produced.skip haccept, hlines⟩
  · rename_i record haccept
    refine InConnection.sendIfSome ⟨hrecorded, h.ended, h.produced.push haccept, hlines⟩
      RawBatcher.records_push fun s c hs => hs.connected

/-- The batcher is flushed, and the loop goes on or ends. -/
theorem InConnection.flush {next : RawFirehose → FirehoseConnection → RawFirehose}
    (h : s.InConnection irc hash source c batcher [] [] n)
    (hnext : ∀ s c, InConnection irc hash source s c batcher.flush.2 [] [] n →
      (next s c).Sound irc hash source n) :
    (s.sendIfSome c batcher.flush.1 next).Sound irc hash source n :=
  InConnection.sendIfSome ⟨h.recorded, h.ended, h.produced.flush, h.lines⟩
    (fun _ => batcher.records_flush) hnext

/-- A turn of the loop of a connection. -/
theorem InConnection.turn (h : s.InConnection irc hash source c batcher [] [] n)
    (hs : s.Sound irc hash source n) (event : FirehoseEvent) :
    (s.turn source c batcher event).Sound irc hash source n := by
  have hleave : ∀ elapsed s c, InConnection irc hash source s c batcher.flush.2 [] [] n →
      (RawFirehose.leave source elapsed s c).Sound irc hash source n :=
    fun elapsed s c hc => hc.leave batcher.records_flush elapsed
  unfold RawFirehose.turn
  split
  · exact h.flush fun s c hc => hc.connected
  · exact h.receive _ _
  · split
    · exact h.receive _ _
    · exact hs
  · split
    · exact hs
    · exact h.flush (hleave _)
  · exact h.flush (hleave _)
  · split
    · exact h.flush (hleave _)
    · exact hs
  · exact hs

/-- The top of the loop of `run`. -/
theorem sound_attempt (hrecorded : Recorded source s s.ended n)
    (hended : ∀ c ∈ s.ended, c.Complete irc hash source) (hn : n < 2 ^ 63) :
    s.attempt.Sound irc hash source (n + 1) := by
  unfold attempt
  split
  · rename_i hcancelled
    refine ⟨?_, hended, hcancelled⟩
    rw [connections_of_current_none rfl]
    exact (hrecorded.mono (Nat.le_succ n)).congr rfl rfl rfl rfl
  · have hle := hrecorded.generation_le
    have hroom : s.generation + 1 ≤ 2 ^ 63 + 1 := by omega
    have hnext : satAddU s.generation 1 = s.generation + 1 :=
      satAddU_eq (hroom.trans (by decide))
    refine ⟨?_, hended, fun c hc => ?_⟩
    · rw [connections_of_current_none rfl]
      refine ⟨hrecorded.output, ?_, hrecorded.streamId, hrecorded.ascending, fun c hc => ?_,
        fun c hc => (hrecorded.handled_le c hc).trans (Nat.le_succ n), hrecorded.backoff⟩
      · show satAddU s.generation 1 ≤ n + 1 + 1
        omega
      · show c.generation ≤ satAddU s.generation 1
        rw [hnext]
        exact (hrecorded.earlier c hc).trans (Nat.le_succ _)
    · show c.generation < satAddU s.generation 1
      rw [hnext]
      exact Nat.lt_succ_of_le (hrecorded.earlier c hc)

/-- A connection begins. -/
theorem sound_connect (hrecorded : Recorded source s s.ended n)
    (hended : ∀ c ∈ s.ended, c.Complete irc hash source)
    (hearlier : ∀ c ∈ s.ended, c.generation < s.generation) (connectedAt : ℕ) :
    Sound irc hash source { s with
      phase := .connected ⟨source.streamId connectedAt s.generation, s.generation, [], [], []⟩
        (.new source.config.sourceId (source.streamId connectedAt s.generation)
          source.config.batchMessages) [] } n := by
  refine InConnection.connected ⟨⟨?_, hrecorded.generation_le, fun c hc => ?_, ?_, fun c hc => ?_,
    fun c hc => ?_, hrecorded.backoff⟩, hended, ⟨[], rfl, rfl⟩, rfl⟩
  · rw [hrecorded.output, List.flatMap_append]
    exact (List.append_nil _).symm
  · rcases List.mem_append.mp hc with hold | hnew
    · exact hrecorded.streamId c hold
    · obtain rfl := List.mem_singleton.mp hnew
      exact ⟨connectedAt, rfl⟩
  · refine List.pairwise_append.mpr ⟨hrecorded.ascending, List.pairwise_singleton _ _,
      fun c hc c' hc' => ?_⟩
    obtain rfl := List.mem_singleton.mp hc'
    exact hearlier c hc
  · rcases List.mem_append.mp hc with hold | hnew
    · exact hrecorded.earlier c hold
    · obtain rfl := List.mem_singleton.mp hnew
      exact Nat.le_refl _
  · rcases List.mem_append.mp hc with hold | hnew
    · exact hrecorded.handled_le c hold
    · obtain rfl := List.mem_singleton.mp hnew
      exact Nat.zero_le n

/-- Between connections. -/
theorem Sound.idle (hs : s.Sound irc hash source n) {phase : FirehosePhase}
    (hphase : s.phase = phase)
    (hidle : current { s with phase } = none) : Recorded source s s.ended n := by
  have hcurrent : s.current = none := by
    rw [← hidle, current, current, hphase]
  exact connections_of_current_none hcurrent ▸ hs.recorded

/-- The token and the receiver. -/
theorem Sound.signal (hs : s.Sound irc hash source n) {cancelled outputOpen : Bool}
    (hcancelled : s.cancelled = true → cancelled = true)
    (hopen : s.outputOpen = false → outputOpen = false) :
    Sound irc hash source { s with cancelled, outputOpen } n where
  recorded := hs.recorded.congr rfl rfl rfl rfl
  ended := hs.ended
  phase := by
    have hphase := hs.phase
    show PhaseSound irc hash source _ s.phase
    generalize s.phase = phase at hphase ⊢
    cases phase with
    | connecting => exact hphase
    | connected c batcher lines => exact hphase
    | waiting => trivial
    | stopped => exact hcancelled hphase
    | failed c => exact ⟨hphase.1, hopen hphase.2⟩

/-- **Every event keeps the invariant.** -/
theorem sound_step (hs : s.Sound irc hash source n) (hn : n < 2 ^ 63) (event : FirehoseEvent) :
    (s.step irc hash source event).Sound irc hash source (n + 1) := by
  have hstay := hs.mono (Nat.le_succ n)
  unfold step
  split
  · exact hstay.signal (fun _ => rfl) id
  · exact hstay.signal id fun _ => rfl
  · rename_i connectedAt hphase
    have hearlier : PhaseSound irc hash source s .connecting := hphase ▸ hs.phase
    exact (sound_connect (hs.idle hphase rfl) hs.ended hearlier connectedAt).mono (Nat.le_succ n)
  · rename_i elapsed hphase
    exact (sound_backOff (hs.idle hphase rfl) hs.ended elapsed).mono (Nat.le_succ n)
  · rename_i c batcher line lines hphase
    exact (hs.inConnection hphase).takeLine
  · rename_i event c batcher _ _ _ _ hphase
    exact ((hs.inConnection hphase).turn hs event).mono (Nat.le_succ n)
  · rename_i cancelled hphase
    split
    · split
      · rename_i hcancelled
        refine ⟨?_, hs.ended, hcancelled⟩
        rw [connections_of_current_none rfl]
        exact ((hs.idle hphase rfl).mono (Nat.le_succ n)).congr rfl rfl rfl rfl
      · exact hstay
    · exact sound_attempt (hs.idle hphase rfl) hs.ended hn
  · exact hstay

theorem sound_start (irc : IrcCodec) (hash : List UInt8 → Digest) (source : RawFirehoseSource)
    (cancelled : Bool) : (start source cancelled).Sound irc hash source 0 := by
  unfold start attempt
  dsimp only
  have hbackoff : source.config.reconnectMinDelay =
      min (source.config.reconnectMinDelay * 2 ^ 0) source.config.reconnectMaxDelay := by
    rw [pow_zero, mul_one, min_eq_left source.reconnectMinDelay_le]
  have hnone : ∀ (p : FirehoseConnection → Prop), ∀ c ∈ ([] : List FirehoseConnection), p c :=
    fun p c hc => absurd hc List.not_mem_nil
  split
  · rename_i hcancelled
    exact ⟨⟨rfl, Nat.zero_le _, hnone _, List.Pairwise.nil, hnone _, hnone _, hbackoff⟩, hnone _,
      hcancelled⟩
  · exact ⟨⟨rfl, Nat.le_refl _, hnone _, List.Pairwise.nil, hnone _, hnone _, hbackoff⟩, hnone _,
      hnone _⟩

theorem sound_run (irc : IrcCodec) (hash : List UInt8 → Digest) (source : RawFirehoseSource)
    (cancelled : Bool) {events : List FirehoseEvent} (hevents : events.length < 2 ^ 63) :
    (run irc hash source cancelled events).Sound irc hash source events.length := by
  induction events using List.reverseRecOn with
  | nil => exact sound_start irc hash source cancelled
  | append_singleton events event ih =>
    rw [List.length_append] at hevents ⊢
    have hbefore : events.length < 2 ^ 63 := Nat.lt_of_le_of_lt (Nat.le_add_right _ _) hevents
    rw [run, List.foldl_append]
    exact sound_step (ih hbefore) hbefore event

end RawFirehose

/-! ### What goes out -/

section Emitted

variable {sourceId streamId : String} {n : ℕ}

theorem SequenceTiles.left {first : ℕ} {batches rest : List RawSourceBatch}
    (h : SequenceTiles first (batches ++ rest)) : SequenceTiles first batches := by
  induction batches generalizing first with
  | nil => trivial
  | cons batch batches ih => exact ⟨h.1, h.2.1, ih h.2.2⟩

/-- The first batches of a stream. -/
theorem Emitted.left {first : ℕ} {accepted rest : List CanonicalRecord}
    {batches unsent : List RawSourceBatch}
    (h : Emitted sourceId streamId n first accepted (batches ++ unsent) rest) :
    Emitted sourceId streamId n first accepted batches (unsent.flatMap (·.records) ++ rest) where
  sizes := fun batch hbatch => h.sizes batch (List.mem_append_left _ hbatch)
  tiles := h.tiles.left
  records := by
    rw [← h.records, List.flatMap_append, List.append_assoc]
  valid := fun batch hbatch => h.valid batch (List.mem_append_left _ hbatch)
  stream := fun batch hbatch => h.stream batch (List.mem_append_left _ hbatch)

end Emitted

namespace RawFirehoseSource

/-- **Connections of one source are told apart** by when they began and their number. -/
theorem streamId_injective (source : RawFirehoseSource) {connectedAt connectedAt' g g' : ℕ}
    (h : source.streamId connectedAt g = source.streamId connectedAt' g') :
    connectedAt = connectedAt' ∧ g = g' := by
  have hdigits : ∀ m : ℕ, '-' ∉ (toString m).toList := by
    intro m hmem
    have hrepr : (toString m).toList = Nat.toDigits 10 m := Nat.toList_repr
    rw [hrepr] at hmem
    exact absurd (Nat.isDigit_of_mem_toDigits (by decide) (by decide) hmem) (by decide)
  have hinj : ∀ m m' : ℕ, (toString m).toList = (toString m').toList → m = m' := by
    intro m m' heq
    have hvalue := congrArg (fun l : List Char => Nat.ofDigitChars 10 l 0) heq
    simpa using hvalue
  have hlist : ∀ m k : ℕ, (source.streamId m k).toList =
      (source.config.sourceId.toList ++ '-' :: (toString m).toList) ++
        '-' :: (toString k).toList := by
    intro m k
    simp [streamId]
  have hchars := congrArg String.toList h
  rw [hlist, hlist] at hchars
  have hgeneration := eq_of_append_cons (hdigits g) (hdigits g') hchars
  rw [hgeneration] at hchars
  have hprefix := List.append_cancel_right hchars
  exact ⟨hinj _ _ (eq_of_append_cons (hdigits connectedAt) (hdigits connectedAt') hprefix),
    hinj _ _ hgeneration⟩

end RawFirehoseSource

namespace FirehoseConnection

variable {irc : IrcCodec} {hash : List UInt8 → Digest} {source : RawFirehoseSource}
  {c : FirehoseConnection} {batcher : RawBatcher} {unsent : List RawSourceBatch}

/-- The batches of a connection are those of a stream. -/
theorem Produced.emitted (h : c.Produced irc hash source batcher unsent)
    (hhandled : c.handled.length < 2 ^ 63) :
    Emitted source.config.sourceId c.streamId source.config.batchMessages 0
        (c.accepted irc hash source) (c.sent ++ unsent) batcher.records := by
  obtain ⟨calls, hitems, hrun⟩ := h
  have hbound : (calls.filterMap BatchingCall.item).length < 2 ^ 63 := by
    rw [hitems]
    exact Nat.lt_of_le_of_lt (List.length_filterMap_le _ _) hhandled
  have hemitted : Emitted source.config.sourceId c.streamId source.config.batchMessages 0 _ _ _ :=
    emitted_raw source.batchMessages_pos calls hbound
  rw [hitems, hrun] at hemitted
  exact hemitted

/-- A batcher holds less than a batch. -/
theorem Produced.length_lt (h : c.Produced irc hash source batcher unsent)
    (hhandled : c.handled.length < 2 ^ 63) :
    batcher.records.length < source.config.batchMessages := by
  obtain ⟨calls, hitems, hrun⟩ := h
  have hbound : (calls.filterMap BatchingCall.item).length < 2 ^ 63 := by
    rw [hitems]
    exact Nat.lt_of_le_of_lt (List.length_filterMap_le _ _) hhandled
  have hheld := (@batches_raw source.config.sourceId c.streamId source.config.batchMessages calls
    hbound).2
  rw [hrun] at hheld
  rw [hheld]
  exact (Batching.batched_collect calls source.batchMessages_pos).room

end FirehoseConnection

namespace RawFirehose

variable {irc : IrcCodec} {hash : List UInt8 → Digest} {source : RawFirehoseSource}
  {s : RawFirehose} {n : ℕ} {c : FirehoseConnection}

/-- What a connection has sent of what it has accepted; `rest` is what it has not sent. -/
structure Delivered (irc : IrcCodec) (hash : List UInt8 → Digest) (source : RawFirehoseSource)
    (c : FirehoseConnection) (rest : List CanonicalRecord) : Prop where
  /-- What was accepted are records of a beginning of the lines that came in. -/
  handled : c.handled <+: c.lines
  emitted : Emitted source.config.sourceId c.streamId source.config.batchMessages 0
    (c.accepted irc hash source) c.sent rest
  rest_le : rest.length ≤ source.config.batchMessages

theorem delivered_of_complete (h : c.Complete irc hash source)
    (hhandled : c.handled.length < 2 ^ 63) : Delivered irc hash source c [] := by
  obtain ⟨hlines, batcher, hproduced, hempty⟩ := h
  have hemitted := hproduced.emitted hhandled
  rw [List.append_nil, hempty] at hemitted
  exact ⟨hlines ▸ List.prefix_refl _, hemitted, Nat.zero_le _⟩

theorem exists_delivered (hs : s.Sound irc hash source n) (hn : n < 2 ^ 63)
    (hc : c ∈ s.connections) : ∃ rest, Delivered irc hash source c rest := by
  have hhandled : c.handled.length < 2 ^ 63 := Nat.lt_of_le_of_lt (hs.recorded.handled_le c hc) hn
  rcases List.mem_append.mp hc with hended | hcurrent
  · exact ⟨[], delivered_of_complete (hs.ended c hended) hhandled⟩
  · have hphase := hs.phase
    unfold current at hcurrent
    split at hcurrent
    · rename_i c' batcher lines heq
      obtain rfl := List.mem_singleton.mp hcurrent
      rw [heq] at hphase
      obtain ⟨hproduced, hlines⟩ := hphase
      have hemitted := hproduced.emitted hhandled
      rw [List.append_nil] at hemitted
      exact ⟨_, ⟨⟨lines, hlines.symm⟩, hemitted, (hproduced.length_lt hhandled).le⟩⟩
    · rename_i c' heq
      obtain rfl := List.mem_singleton.mp hcurrent
      rw [heq] at hphase
      obtain ⟨⟨hlines, batcher, batch, hproduced, hempty⟩, -⟩ := hphase
      have hemitted := hproduced.emitted hhandled
      have hsize := (hemitted.sizes batch (List.mem_append_right _ (List.mem_singleton_self _))).2
      refine ⟨_, ⟨hlines, hemitted.left, ?_⟩⟩
      rw [hempty]
      simpa using hsize
    · cases hcurrent

/-- **What a raw firehose puts out**, whatever its sockets bring, however often it has to
reconnect, and whenever it is cancelled or its receiver goes away.  The output is that of its
connections, one after the other.  No two of them have the same stream identity.  Each of them
sends the records of its lines in their order, in batches that are numbered from 0 without a gap
and that the journal acknowledges in full; what it has not sent is at most a batch.  A connection
that has ended has handled all its lines and sent everything, unless the output was closed. -/
theorem raw_firehose_delivers {β : Type} (cfg : Settings β) (irc : IrcCodec)
    (hash : List UInt8 → Digest) (source : RawFirehoseSource) (cancelled : Bool)
    (events : List FirehoseEvent) (hevents : events.length < 2 ^ 63) :
    let s := run irc hash source cancelled events
    s.output = s.connections.flatMap (·.sent) ∧
      (s.connections.map (·.streamId)).Nodup ∧
      (∀ c ∈ s.connections, (∃ rest, Delivered irc hash source c rest) ∧
        Ingest.Acknowledged cfg source.config.sourceId c.streamId c.sent) ∧
      ∀ c ∈ s.ended, c.handled = c.lines ∧ Delivered irc hash source c [] := by
  intro s
  have hs : s.Sound irc hash source events.length := sound_run irc hash source cancelled hevents
  refine ⟨hs.recorded.output, ?_, fun c hc => ?_, fun c hc => ?_⟩
  · rw [List.Nodup, List.pairwise_map]
    refine hs.recorded.ascending.imp_of_mem fun {c c'} hc hc' hlt heq => ?_
    obtain ⟨connectedAt, hid⟩ := hs.recorded.streamId c hc
    obtain ⟨connectedAt', hid'⟩ := hs.recorded.streamId c' hc'
    rw [hid, hid'] at heq
    exact absurd (source.streamId_injective heq).2 hlt.ne
  · obtain ⟨rest, hdelivered⟩ := exists_delivered hs hevents hc
    exact ⟨⟨rest, hdelivered⟩, Ingest.acknowledged_of_emitted hdelivered.emitted⟩
  · have hmem : c ∈ s.connections := List.mem_append_left _ hc
    exact ⟨(hs.ended c hc).1, delivered_of_complete (hs.ended c hc)
      (Nat.lt_of_le_of_lt (hs.recorded.handled_le c hmem) hevents)⟩

/-! ### How the source ends -/

/-- With an open output a line is taken and the loop goes on. -/
theorem takeLine_open (hopen : s.outputOpen = true) (c : FirehoseConnection) (batcher : RawBatcher)
    (line : String × ℤ) (lines : List (String × ℤ)) :
    (∃ c' batcher', (s.takeLine irc hash source c batcher line lines).phase =
        .connected c' batcher' lines) ∧
      (s.takeLine irc hash source c batcher line lines).cancelled = s.cancelled ∧
        (s.takeLine irc hash source c batcher line lines).outputOpen = true := by
  unfold takeLine
  dsimp only
  split
  · exact ⟨⟨_, _, rfl⟩, rfl, hopen⟩
  · unfold sendIfSome
    split
    · exact ⟨⟨_, _, rfl⟩, rfl, hopen⟩
    · rw [if_pos hopen]
      exact ⟨⟨_, _, rfl⟩, rfl, hopen⟩

/-- All lines of a message are taken. -/
theorem exists_lines_taken {batcher : RawBatcher} {lines : List (String × ℤ)}
    (hphase : s.phase = .connected c batcher lines) (hopen : s.outputOpen = true) :
    ∃ s' c' batcher',
      (List.replicate lines.length FirehoseEvent.line).foldl (step irc hash source) s = s' ∧
        s'.phase = .connected c' batcher' [] ∧ s'.cancelled = s.cancelled ∧
          s'.outputOpen = true := by
  induction lines generalizing s c batcher with
  | nil => exact ⟨s, c, batcher, rfl, hphase, rfl, hopen⟩
  | cons line lines ih =>
    have hstep :
        s.step irc hash source .line = s.takeLine irc hash source c batcher line lines := by
      simp only [step, hphase]
    obtain ⟨⟨c₁, batcher₁, hphase₁⟩, hcancelled₁, hopen₁⟩ :=
      @takeLine_open irc hash source s hopen c batcher line lines
    obtain ⟨s', c', batcher', hrun, hphase', hcancelled', hopen'⟩ := ih hphase₁ hopen₁
    refine ⟨s', c', batcher', ?_, hphase', hcancelled'.trans hcancelled₁, hopen'⟩
    rw [List.length_cons, List.replicate_succ, List.foldl_cons, hstep]
    exact hrun

/-- **A cancelled source can end**, if nobody closes its output. -/
theorem exists_stopped (hs : s.Sound irc hash source n) (hcancelled : s.cancelled = true)
    (hopen : s.outputOpen = true) :
    ∃ events : List FirehoseEvent, (∀ event ∈ events, event.own = true) ∧
      (events.foldl (step irc hash source) s).phase = .stopped := by
  rcases hphase : s.phase with - | ⟨c, batcher, lines⟩ | - | - | c
  · -- the attempt ends without a connection, and the wait sees the token
    refine ⟨[.refuse 0, .wake true], by decide, ?_⟩
    simp only [List.foldl_cons, List.foldl_nil, step, hphase, backOff, hcancelled, if_true]
  · -- the message is finished, and the loop sees the token
    obtain ⟨s', c', batcher', hrun, hphase', hcancelled', hopen'⟩ :=
      @exists_lines_taken irc hash source s c batcher lines hphase hopen
    refine ⟨List.replicate lines.length .line ++ [.notice 0], ?_, ?_⟩
    · intro event hevent
      rcases List.mem_append.mp hevent with hline | hnotice
      · obtain rfl := List.eq_of_mem_replicate hline
        rfl
      · obtain rfl := List.mem_singleton.mp hnotice
        rfl
    · rw [List.foldl_append, hrun]
      have hnow : s'.cancelled = true := hcancelled'.trans hcancelled
      simp only [List.foldl_cons, List.foldl_nil, step, hphase', turn, if_pos hnow, sendIfSome,
        leave, if_pos hopen']
      split <;> rfl
  · refine ⟨[.wake true], by decide, ?_⟩
    simp only [List.foldl_cons, List.foldl_nil, step, hphase, hcancelled, if_true]
  · exact ⟨[], by decide, hphase⟩
  · -- a source that has failed has seen its output closed
    have hfailed : PhaseSound irc hash source s (.failed c) := hphase ▸ hs.phase
    exact absurd (hopen.symm.trans hfailed.2) (by decide)

/-- A source that sends two records at a time. -/
def sampleFirehose : RawFirehoseSource where
  config := ⟨"justlog", "wss://example", "https://example", 2, 1, 5, 20⟩
  placement := none
  batchMessages_pos := Nat.succ_pos _
  reconnectMinDelay_pos := Nat.succ_pos _
  reconnectMinDelay_le := by decide

/-- A connection that brings three lines that are kept, a refused one, and another connection. -/
def firehoseEvents : List FirehoseEvent :=
  [.connect 7, .message (.text (untimedText ++ "\n" ++ untimedText ++ "\r\nPING\n" ++ untimedText))
      8 0, .line, .line, .line, .line, .message .close 9 0, .wake false, .refuse 0, .wake false,
    .connect 10, .tick]

theorem raw_firehose_delivers_sample :
    let s := run untimedLine (fun _ => 0) sampleFirehose false firehoseEvents
    s.output = s.connections.flatMap (·.sent) ∧ s.output.map (·.lastSequence) = [1, 2] := by
  have h := raw_firehose_delivers .plain untimedLine (fun _ => 0) sampleFirehose false
    firehoseEvents (by decide)
  exact ⟨h.1, by decide +kernel⟩

end RawFirehose

end RecentMessages
