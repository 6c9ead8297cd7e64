/-
RecentMessages/Storage/Maintenance.lean

The calls on the sealed store that do not append: pressure eviction, expiry,
purges, blocking, request tracking and queries (`storage/sqlite.rs`).

`evict_block_ids` and `sync_blocked_channels` may fail and are rolled back.
`expire_blocks_before` runs in transactions of `expiryBatchBlocks` blocks and
may stop between two of them, when the checkpoint of the write-ahead log fails;
`expireTransactions` is therefore indexed by the number of transactions.

`StoreCall` lists all calls that change blocks or policies, `Db.call` runs one.
-/
import RecentMessages.Storage.Append

namespace RecentMessages

/-- `EXPIRY_BATCH_BLOCKS`. -/
def expiryBatchBlocks : ℕ := 1024

/-- What an expiry removed. -/
structure ExpireStats where
  blocks : ℕ
  messages : ℕ
  deriving DecidableEq, Repr

/-- `SET received_at_ms = MAX(received_at_ms, excluded.received_at_ms)`. -/
def PurgeCutoff.raise (receivedAtMs : ℤ) (row : PurgeCutoff) : PurgeCutoff :=
  { row with receivedAtMs := max row.receivedAtMs receivedAtMs }

theorem PurgeCutoff.channelKey_raise (receivedAtMs : ℤ) (row : PurgeCutoff) :
    (row.raise receivedAtMs).channelKey = row.channelKey := rfl

/-- `SET last_requested_at_ms`. -/
def ChannelRow.touch (requestedAtMs : ℤ) (row : ChannelRow) : ChannelRow :=
  { row with lastRequestedAtMs := requestedAtMs }

theorem ChannelRow.channelKey_touch (requestedAtMs : ℤ) (row : ChannelRow) :
    (row.touch requestedAtMs).channelKey = row.channelKey := rfl

namespace Db

variable {β : Type} (codec : Codec β)

/-- Delete a block that was read before, and take its messages off its
channel. -/
def removeBlock (db : Db β) (row : MessageBlock β) : Db β :=
  (db.deleteBlock codec row.id).releaseMessages row.channelKey row.messageCount

/-! ### Eviction and expiry -/

/-- `evict_block_ids`; the result is the number of deleted blocks. -/
def evictBlockIds (db : Db β) (ids : List ℕ) : Except StoreError (ℕ × Db β) :=
  ids.foldlM
    (fun (deleted, db) id => do
      let id ← tryFromU64 id
      match db.messageBlocks.lookup id with
      | none => return (deleted, db)
      | some row => return (deleted + 1, db.removeBlock codec row))
    (0, db)

/-- The blocks of one expiry transaction, `ORDER BY last_event_at_ms, id LIMIT`. -/
def expired (db : Db β) (cutoffMs : ℤ) : List (MessageBlock β) :=
  (sortByKey (fun row : MessageBlock β => toLex (row.block.lastEventAtMs, row.id))
    (db.messageBlocks.rows.filter (·.block.lastEventAtMs < cutoffMs))).take expiryBatchBlocks

/-- The channel rows that an expiry drops. -/
def idle (cutoffMs : ℤ) (row : ChannelRow) : Bool :=
  row.retainedMessages = 0 && (row.lastRequestedAtMs = 0 || row.lastRequestedAtMs < cutoffMs)

/-- Up to `n` transactions of `expire_blocks_before`; the last one finds no block
and drops idle channels. -/
def expireTransactions (cutoffMs : ℤ) : ℕ → Db β → ExpireStats → Db β × ExpireStats
  | 0, db, stats => (db, stats)
  | n + 1, db, stats =>
    match db.expired cutoffMs with
    | [] => (db.deleteChannelsWhere codec (idle cutoffMs), stats)
    | row :: rows =>
      expireTransactions cutoffMs n ((row :: rows).foldl (removeBlock codec) db)
        { blocks := satAddU stats.blocks (row :: rows).length
          messages := (row :: rows).foldl (fun n row => satAddU n row.block.messageCount)
            stats.messages }

/-- `expire_blocks_before`: each transaction but the last deletes a block. -/
def expireBlocksBefore (db : Db β) (cutoffMs : ℤ) : Db β × ExpireStats :=
  expireTransactions codec cutoffMs (db.messageBlocks.rows.length + 1) db ⟨0, 0⟩

/-! ### Policy -/

/-- `INSERT INTO channel_purge_cutoffs … ON CONFLICT DO UPDATE`. -/
def raiseCutoff (db : Db β) (channelKey : String) (receivedAtMs : ℤ) : Db β :=
  { db with
    channelPurgeCutoffs := (db.channelPurgeCutoffs.insertIgnore ⟨channelKey, receivedAtMs⟩).modify
      channelKey (PurgeCutoff.raise receivedAtMs) (PurgeCutoff.channelKey_raise receivedAtMs) }

/-- Delete a channel with its blocks. -/
def dropChannel (db : Db β) (channelKey : String) : Db β :=
  (db.deleteBlocksOf codec channelKey).deleteChannelsWhere codec (·.channelKey = channelKey)

/-- `purge_channel`; the result is the number of deleted blocks. -/
def purgeChannel (db : Db β) (channelKey : String) (receivedAtMs : ℤ) : ℕ × Db β :=
  ((db.blocksOf channelKey).length,
    (db.raiseCutoff channelKey receivedAtMs).dropChannel codec channelKey)

/-- `set_channel_blocked`; the result is the number of deleted blocks. -/
def setChannelBlocked (db : Db β) (channelKey : String) (blocked : Bool) : ℕ × Db β :=
  if blocked then
    ((db.blocksOf channelKey).length,
      { db with blockedChannels := db.blockedChannels.insertIgnore channelKey }.dropChannel codec
        channelKey)
  else
    (0, { db with blockedChannels := db.blockedChannels.erase channelKey })

/-- One channel of `sync_blocked_channels`. -/
def syncBlocked (db : Db β) (channelKey : String) : Except StoreError (Db β) :=
  match db.blockedChannels.insert? channelKey with
  | none => .error (.backend "UNIQUE constraint failed: blocked_channels.channel_key")
  | some blockedChannels => .ok ({ db with blockedChannels }.dropChannel codec channelKey)

/-- `sync_blocked_channels`. -/
def syncBlockedChannels (db : Db β) (channels : List String) : Except StoreError (Db β) :=
  channels.foldlM (syncBlocked codec) { db with blockedChannels := KeyTable.empty }

/-- `touch_channel_requested`; the result says whether a row changed. -/
def touchChannelRequested (db : Db β) (channelKey : String)
    (requestedAtMs coalesceBeforeMs : ℕ) : Except StoreError (Bool × Db β) := do
  let requested ← tryFromU64 requestedAtMs
  let coalesceBefore ← tryFromU64 coalesceBeforeMs
  match db.channels.lookup channelKey with
  | none =>
    return (true, { db with channels := db.channels.insertIgnore ⟨channelKey, 0, 0, requested⟩ })
  | some row =>
    if row.lastRequestedAtMs < coalesceBefore then
      return (true, { db with
        channels := db.channels.modify channelKey (ChannelRow.touch requested)
          (ChannelRow.channelKey_touch requested) })
    else
      return (false, db)

/-! ### Queries -/

/-- `query`. -/
def query (db : Db β) (request : QueryRequest) : Except StoreError LocalResult :=
  if request.limit = 0 then
    .error .invalidLimit
  else do
    let decoded ← (db.blocksOf request.channelKey).mapM fun row =>
      (row.block.decode codec).mapError .block
    let records := sortByKey CanonicalRecord.receiptOrder decoded.flatten
    return {
      records := takeNewest request.limit (records.filter request.admits)
      oldestRetainedAtMs := records.head?.map (·.receivedAtMs)
      newestRetainedAtMs := records.getLast?.map (·.receivedAtMs) }

end Db

/-! ### Calls -/

/-- A call on the sealed store. -/
inductive StoreCall
  | appendChannelBatches (batches : List (List CanonicalRecord))
  | evictBlockIds (ids : List ℕ)
  /-- `expire_blocks_before`, stopped after a number of transactions. -/
  | expireBlocksBefore (cutoffMs : ℤ) (transactions : ℕ)
  | purgeChannel (channelKey : String) (receivedAtMs : ℤ)
  | setChannelBlocked (channelKey : String) (blocked : Bool)
  | syncBlockedChannels (channels : List String)
  | touchChannelRequested (channelKey : String) (requestedAtMs coalesceBeforeMs : ℕ)

namespace Db

variable {β : Type} (codec : Codec β) (store : SqliteBlockStore)

/-- The store after a call; a failed transaction changes nothing. -/
def call (db : Db β) : StoreCall → Db β
  | .appendChannelBatches batches =>
    match db.appendChannelBatches codec store batches with
    | .ok db' => db'
    | .error _ => db
  | .evictBlockIds ids =>
    match db.evictBlockIds codec ids with
    | .ok (_, db') => db'
    | .error _ => db
  | .expireBlocksBefore cutoffMs transactions =>
    (expireTransactions codec cutoffMs transactions db ⟨0, 0⟩).1
  | .purgeChannel channelKey receivedAtMs => (db.purgeChannel codec channelKey receivedAtMs).2
  | .setChannelBlocked channelKey blocked => (db.setChannelBlocked codec channelKey blocked).2
  | .syncBlockedChannels channels =>
    match db.syncBlockedChannels codec channels with
    | .ok db' => db'
    | .error _ => db
  | .touchChannelRequested channelKey requestedAtMs coalesceBeforeMs =>
    match db.touchChannelRequested channelKey requestedAtMs coalesceBeforeMs with
    | .ok (_, db') => db'
    | .error _ => db

end Db

end RecentMessages
