/-
RecentMessages/Storage/Append.lean

Appending records to the sealed store (`SqliteBlockStore::append_transaction`,
`append_channel_batches`).

A batch of one channel is filtered by the channel's policy, merged with the
blocks whose event range overlaps its own, and the records that are new are cut
into blocks behind the existing ones; per-channel retention then deletes the
oldest blocks.  An overlapping block changes only by fidelity upgrades: a record
is replaced in place by a better copy of the same event.
-/
import RecentMessages.Library.IndexedList
import RecentMessages.Storage.Sqlite

namespace RecentMessages

/-- A sealed block that overlaps an append, decoded. -/
structure RetainedBlock where
  id : ℤ
  records : List CanonicalRecord
  dirty : Bool
  deriving DecidableEq, Repr

/-- Where the sealed copy of an event is: block and record position. -/
abbrev RetainedIndex := EventKey → Option (ℕ × ℕ)

/-- Enter the records of one block into the index. -/
def indexRecords (blockIndex : ℕ) (records : List CanonicalRecord) (retained : RetainedIndex) :
    RetainedIndex :=
  records.zipIdx.foldl
    (fun retained (r, i) => Function.update retained r.eventKey (some (blockIndex, i))) retained

/-- The state of the merge loop; `newRecords` stands for `new_records` together
with `new_indices`. -/
structure MergeState where
  retained : List RetainedBlock
  newRecords : IndexedList CanonicalRecord.eventKey

/-- One round of the merge loop. -/
def absorb (index : RetainedIndex) (m : MergeState) (record : CanonicalRecord) : MergeState :=
  match index record.eventKey with
  | some (blockIndex, recordIndex) =>
    match m.retained[blockIndex]?.bind (·.records[recordIndex]?) with
    | none => m  -- an index entry always points at a record
    | some old =>
      if record.shouldReplace old then
        { m with retained := m.retained.modify blockIndex fun block =>
            { block with records := block.records.set recordIndex record, dirty := true } }
      else m
  | none => { m with newRecords := m.newRecords.upsert CanonicalRecord.shouldReplace record }

namespace Db

variable {β : Type} (codec : Codec β) (store : SqliteBlockStore)

/-- The blocks whose event range meets `[first, last]`, `ORDER BY block_sequence`. -/
def overlapping (db : Db β) (channelKey : String) (first last : ℤ) : List (MessageBlock β) :=
  (db.blocksOf channelKey).filter fun row =>
    first ≤ row.block.lastEventAtMs ∧ row.block.firstEventAtMs ≤ last

/-- Decode the overlapping blocks and index their records; of two copies of one
event the later one is indexed. -/
def loadRetained (rows : List (MessageBlock β)) :
    Except StoreError (List RetainedBlock × RetainedIndex) :=
  rows.foldlM
    (fun (blocks, index) row => do
      let decoded ← (row.block.decode codec).mapError .block
      return (blocks ++ [⟨row.id, decoded, false⟩], indexRecords blocks.length decoded index))
    ([], fun _ => none)

/-- Write the blocks with upgraded records back. -/
def rewriteDirty (db : Db β) (retained : List RetainedBlock) : Except StoreError (Db β) :=
  retained.foldlM
    (fun db block =>
      if block.dirty then do
        let encoded ← (EncodedBlock.encode codec block.records store.compressionLevel).mapError .block
        return db.updateBlock codec block.id encoded
      else
        .ok db)
    db

/-- Cut the new records into blocks; the result carries `next_sequence` and
`retained_messages`. -/
def insertChunks (db : Db β) (channelKey : String) (records : List CanonicalRecord)
    (nextSequence retainedMessages : ℤ) : Except StoreError (Db β × ℤ × ℤ) :=
  (chunks store.blockMessages records).foldlM
    (fun (db, nextSequence, retainedMessages) chunk => do
      let encoded ← (EncodedBlock.encode codec chunk store.compressionLevel).mapError .block
      let db ← db.insertBlock codec channelKey nextSequence encoded
      return (db, nextSequence + 1, retainedMessages + encoded.messageCount))
    (db, nextSequence, retainedMessages)

/-- `allowed_messages`. -/
def allowedMessages : ℕ :=
  satAddU store.targetMessagesPerChannel (store.blockMessages - 1)

/-- `i64::try_from(allowed_messages).unwrap_or(i64::MAX)`. -/
def allowed : ℤ := min (allowedMessages store) i64Max

/-- Delete the oldest blocks of a channel while it holds more than `allowed`.
Every round deletes a block, so as many rounds as there are blocks suffice. -/
def evictOldest (channelKey : String) : ℕ → Db β → ℤ → Db β × ℤ
  | 0, db, retainedMessages => (db, retainedMessages)
  | rounds + 1, db, retainedMessages =>
    if allowed store < retainedMessages then
      match db.blocksOf channelKey with
      | [] => (db, retainedMessages)
      | oldest :: _ =>
        -- `saturating_sub` on two counts that an `i64` holds
        evictOldest channelKey rounds
          { db.deleteBlock codec oldest.id with evicted := db.evicted ++ [oldest] }
          (retainedMessages - oldest.messageCount)
    else (db, retainedMessages)

/-- The records of a batch that the channel's purge cutoff lets through. -/
def admitted (db : Db β) (channelKey : String) (records : List CanonicalRecord) :
    List CanonicalRecord :=
  match db.purgeCutoff channelKey with
  | some cutoff => records.filter (cutoff < ·.receivedAtMs)
  | none => records

/-- Merge admitted records into a channel that has a row. -/
def appendAdmitted (db : Db β) (channelKey : String) (records : List CanonicalRecord)
    (first last : ℤ) : Except StoreError (Db β) := do
  let (retained, index) ← loadRetained codec (db.overlapping channelKey first last)
  let merged := (sortByKey CanonicalRecord.eventOrder records).foldl (absorb index)
    ⟨retained, IndexedList.empty⟩
  let db ← db.rewriteDirty codec store merged.retained
  if merged.newRecords.items.isEmpty then
    return db
  else
    match db.channels.lookup channelKey with
    | none => .error (.backend "Query returned no rows")
    | some row =>
      let (db, nextSequence, retainedMessages) ← db.insertChunks codec store channelKey
        merged.newRecords.items row.nextBlockSequence row.retainedMessages
      let (db, retainedMessages) := evictOldest codec store channelKey
        db.messageBlocks.rows.length db retainedMessages
      return db.retainMessages channelKey nextSequence retainedMessages

/-- `append_transaction`, for a batch of records of `channelKey`. -/
def appendTransaction (db : Db β) (channelKey : String) (records : List CanonicalRecord) :
    Except StoreError (Db β) :=
  if db.blocked channelKey then
    .ok db
  else
    let records := db.admitted channelKey records
    match minEventAtMs records, maxEventAtMs records with
    | some first, some last =>
      (db.insertChannel channelKey).appendAdmitted codec store channelKey records first last
    -- nothing is left after purge filtering; callers pass nonempty batches
    | _, _ => .ok db

/-- One batch of `append_channel_batches`. -/
def appendBatch (db : Db β) (records : List CanonicalRecord) : Except StoreError (Db β) :=
  match records with
  | [] => .ok db
  | first :: _ =>
    if records.any fun r => r.channelKey ≠ first.channelKey then
      .error .mixedChannelBatch
    else
      db.appendTransaction codec store first.channelKey records

/-- `append_channel_batches`: one transaction for all batches, so an error
leaves the store as it was. -/
def appendChannelBatches (db : Db β) (batches : List (List CanonicalRecord)) :
    Except StoreError (Db β) :=
  batches.foldlM (appendBatch codec store) db

end Db

end RecentMessages
