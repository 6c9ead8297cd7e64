/-
RecentMessages/Storage/DirectIrc.lean

The batcher of the node's own IRC connection (`storage/direct_irc.rs`).

Lines that are kept become records, and records become batches with contiguous sequence
numbers; a line that is not kept takes no number.
-/
import RecentMessages.Storage.Ingest
import RecentMessages.Storage.RawIrc

namespace RecentMessages

/-- Direct IRC source and stream IDs and batch size must be non-empty. -/
inductive DirectIrcBatcherError
  | invalidConfig
  deriving DecidableEq, Repr

structure DirectIrcBatcher where
  sourceId : String
  streamId : String
  batchMessages : ℕ
  nextSequence : ℕ
  records : List CanonicalRecord
  deriving DecidableEq, Repr

namespace DirectIrcBatcher

/-- `DirectIrcBatcher::new`. -/
def new (sourceId streamId : String) (batchMessages : ℕ) :
    Except DirectIrcBatcherError DirectIrcBatcher :=
  if sourceId = "" ∨ streamId = "" ∨ batchMessages = 0 then .error .invalidConfig
  else .ok ⟨sourceId, streamId, batchMessages, 1, []⟩

/-- `flush`. -/
def flush (b : DirectIrcBatcher) : Option RawSourceBatch × DirectIrcBatcher :=
  if b.records = [] then
    (none, b)
  else
    let lastSequence := satAddU b.nextSequence (b.records.length - 1)
    (some ⟨b.sourceId, b.streamId, b.nextSequence, lastSequence, b.records⟩,
      { b with nextSequence := satAddU lastSequence 1, records := [] })

/-- `push_raw`. -/
def pushRaw (irc : IrcCodec) (b : DirectIrcBatcher) (raw : String) (receivedAtMs : ℤ) :
    Except RawIrcError (Option RawSourceBatch × DirectIrcBatcher) := do
  let record ← canonicalizeRawIrcFrom irc raw receivedAtMs b.sourceId .directIrc
  let b := { b with records := b.records ++ [record] }
  return if b.batchMessages ≤ b.records.length then b.flush else (none, b)

variable {b b' : DirectIrcBatcher} {batch : RawSourceBatch}

/-- Without a batch nothing was held, and the batcher is as it was. -/
theorem flush_none (h : b.flush = (none, b')) : b.records = [] ∧ b' = b := by
  unfold flush at h
  split at h
  · exact ⟨‹_›, (Prod.mk.inj h).2.symm⟩
  · cases (Prod.mk.inj h).1

/-- A batch holds everything that was held. -/
theorem flush_some (h : b.flush = (some batch, b')) :
    batch.records = b.records ∧ b'.records = [] := by
  unfold flush at h
  split at h
  · cases (Prod.mk.inj h).1
  · cases h
    exact ⟨rfl, rfl⟩

/-- **What a push does**: the record of the line comes last, in a batch or in the batcher. -/
theorem pushRaw_eq_ok {irc : IrcCodec} {raw : String} {receivedAtMs : ℤ}
    {output : Option RawSourceBatch} (h : b.pushRaw irc raw receivedAtMs = .ok (output, b')) :
    ∃ record, canonicalizeRawIrcFrom irc raw receivedAtMs b.sourceId .directIrc = .ok record ∧
      (output = none ∧ b'.records = b.records ++ [record] ∨
        ∃ batch, output = some batch ∧ batch.records = b.records ++ [record] ∧
          b'.records = []) := by
  obtain ⟨record, hrecord, h⟩ := Except.bind_eq_ok.mp h
  refine ⟨record, hrecord, ?_⟩
  have h := Except.ok.inj h
  split at h
  · obtain - | batch := output
    · -- a flush right after a push is never empty
      have hempty := (flush_none h).1
      simp at hempty
    · exact .inr ⟨batch, rfl, flush_some h⟩
  · cases h
    exact .inl ⟨rfl, rfl⟩

/-- A line that is kept is not rejected. -/
theorem pushRaw_ne_error {irc : IrcCodec} {raw channel : String} {receivedAtMs : ℤ}
    {message : IRCMessage} (hparse : irc.parse (trimLine raw) = .ok message)
    (h : message.Retained channel) (error : RawIrcError) :
    b.pushRaw irc raw receivedAtMs ≠ .error error := by
  unfold pushRaw
  rw [canonicalize_of_retained hparse h]
  nofun

end DirectIrcBatcher

end RecentMessages
