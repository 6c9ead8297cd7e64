/-
RecentMessages/Storage/Sqlite.lean

The tables of the sealed store (`storage/sqlite.rs`) and the statements on them.

`message_blocks` references `channels` with `ON DELETE CASCADE`, and three
triggers on it maintain `store_totals`, so a deletion from either table has
effects on the other ones.  The statements here carry these effects:

* `insertBlock` — `INSERT INTO message_blocks`, with its two constraints;
* `updateBlock` — `UPDATE message_blocks … WHERE id`;
* `deleteBlock`, `deleteBlocks` — `DELETE FROM message_blocks`;
* `deleteChannelsWhere` — `DELETE FROM channels`, cascading;
* `releaseMessages` — `UPDATE channels SET retained_messages = MAX(0, …)`.

Two fields of `Db` are not tables but history: `clamps` counts the `MAX(0, …)`
expressions that changed their argument, and `evicted` collects the blocks that
per-channel retention removed.
-/
import RecentMessages.Storage.Journal

namespace RecentMessages

/-- The settings of a store, none of which may be zero. -/
structure SqliteBlockStore where
  blockMessages : ℕ
  targetMessagesPerChannel : ℕ
  compressionLevel : ℤ
  blockMessages_pos : 0 < blockMessages
  target_pos : 0 < targetMessagesPerChannel

/-- `MAX(0, a - b)`. -/
def clampedSub (a b : ℤ) : ℤ := max 0 (a - b)

/-- Whether the `MAX` in `clampedSub` took effect. -/
def clampCount (a b : ℤ) : ℕ := if a - b < 0 then 1 else 0

/-- A row of `channels`. -/
structure ChannelRow where
  channelKey : String
  nextBlockSequence : ℤ
  retainedMessages : ℤ
  lastRequestedAtMs : ℤ
  deriving DecidableEq, Repr

/-- `SET retained_messages = MAX(0, retained_messages - ?)`. -/
def ChannelRow.release (messages : ℤ) (row : ChannelRow) : ChannelRow :=
  { row with retainedMessages := clampedSub row.retainedMessages messages }

theorem ChannelRow.channelKey_release (messages : ℤ) (row : ChannelRow) :
    (ChannelRow.release messages row).channelKey = row.channelKey := rfl

/-- `SET next_block_sequence, retained_messages`. -/
def ChannelRow.retain (nextSequence retained : ℤ) (row : ChannelRow) : ChannelRow :=
  { row with nextBlockSequence := nextSequence, retainedMessages := retained }

theorem ChannelRow.channelKey_retain (nextSequence retained : ℤ) (row : ChannelRow) :
    (ChannelRow.retain nextSequence retained row).channelKey = row.channelKey := rfl

/-- A row of `message_blocks`. -/
structure MessageBlock (β : Type) where
  id : ℤ
  blockSequence : ℤ
  block : EncodedBlock β
  deriving DecidableEq, Repr

/-- The `channel_key` column of a block. -/
def MessageBlock.channelKey {β : Type} (row : MessageBlock β) : String := row.block.channelKey

/-- The `message_count` column of a block. -/
def MessageBlock.messageCount {β : Type} (row : MessageBlock β) : ℤ := row.block.messageCount

/-- The columns that `UPDATE message_blocks` sets: all of the block but its
channel. -/
def MessageBlock.rewrite {β : Type} (new : EncodedBlock β) (row : MessageBlock β) : MessageBlock β :=
  { row with block := { new with channelKey := row.block.channelKey } }

theorem MessageBlock.id_rewrite {β : Type} (new : EncodedBlock β) (row : MessageBlock β) :
    (MessageBlock.rewrite new row).id = row.id := rfl

/-- A row of `channel_purge_cutoffs`. -/
structure PurgeCutoff where
  channelKey : String
  receivedAtMs : ℤ
  deriving DecidableEq, Repr

/-- The single row of `store_totals`. -/
structure StoreTotals where
  blocks : ℤ
  messages : ℤ
  compressedBytes : ℤ
  uncompressedBytes : ℤ
  deriving DecidableEq, Repr

/-- The tables of a store. -/
structure Db (β : Type) where
  channels : KeyTable ChannelRow.channelKey
  blockedChannels : KeyTable (id : String → String)
  channelPurgeCutoffs : KeyTable PurgeCutoff.channelKey
  messageBlocks : KeyTable (MessageBlock.id (β := β))
  storeTotals : StoreTotals
  journal : Journal β
  /-- History: how often a `MAX(0, …)` changed its argument. -/
  clamps : ℕ
  /-- History: the blocks that per-channel retention removed, oldest first. -/
  evicted : List (MessageBlock β)

namespace Db

variable {β : Type}

/-- A new store. -/
def empty : Db β where
  channels := KeyTable.empty
  blockedChannels := KeyTable.empty
  channelPurgeCutoffs := KeyTable.empty
  messageBlocks := KeyTable.empty
  storeTotals := ⟨0, 0, 0, 0⟩
  journal := Journal.empty
  clamps := 0
  evicted := []

instance : Inhabited (Db β) := ⟨empty⟩

/-! ### Rows -/

/-- `EXISTS(SELECT 1 FROM blocked_channels …)`. -/
def blocked (db : Db β) (channelKey : String) : Bool :=
  (db.blockedChannels.lookup channelKey).isSome

/-- `SELECT received_at_ms FROM channel_purge_cutoffs`. -/
def purgeCutoff (db : Db β) (channelKey : String) : Option ℤ :=
  (db.channelPurgeCutoffs.lookup channelKey).map (·.receivedAtMs)

/-- The blocks of a channel, `ORDER BY block_sequence`. -/
def blocksOf (db : Db β) (channelKey : String) : List (MessageBlock β) :=
  sortByKey (·.blockSequence) (db.messageBlocks.rows.filter (·.channelKey = channelKey))

/-- The rowid of the next insertion: one more than the largest. -/
def nextId (db : Db β) : ℤ := (db.messageBlocks.rows.map (·.id)).foldr max 0 + 1

theorem mem_blocksOf {db : Db β} {channelKey : String} {row : MessageBlock β} :
    row ∈ db.blocksOf channelKey ↔
      row ∈ db.messageBlocks.rows ∧ row.channelKey = channelKey := by
  simp [blocksOf]

theorem lt_nextId {db : Db β} {row : MessageBlock β} (h : row ∈ db.messageBlocks.rows) :
    row.id < db.nextId :=
  KeyTable.lt_nextKey h

/-- The rowid of the next insertion is free. -/
theorem lookup_nextId (db : Db β) : db.messageBlocks.lookup db.nextId = none :=
  KeyTable.lookup_nextKey db.messageBlocks

/-! ### Statements -/

/-- `message_blocks_totals_insert`. -/
def onInsert (codec : Codec β) (b : EncodedBlock β) (t : StoreTotals) : StoreTotals where
  blocks := t.blocks + 1
  messages := t.messages + b.messageCount
  compressedBytes := t.compressedBytes + codec.len b.payload
  uncompressedBytes := t.uncompressedBytes + b.uncompressedBytes

/-- `message_blocks_totals_update`. -/
def onUpdate (codec : Codec β) (old new : EncodedBlock β) (t : StoreTotals) : StoreTotals where
  blocks := t.blocks
  messages := t.messages + new.messageCount - old.messageCount
  compressedBytes := t.compressedBytes + codec.len new.payload - codec.len old.payload
  uncompressedBytes := t.uncompressedBytes + new.uncompressedBytes - old.uncompressedBytes

/-- `message_blocks_totals_delete`. -/
def onDelete (codec : Codec β) (old : EncodedBlock β) (t : StoreTotals) : StoreTotals where
  blocks := clampedSub t.blocks 1
  messages := clampedSub t.messages old.messageCount
  compressedBytes := clampedSub t.compressedBytes (codec.len old.payload)
  uncompressedBytes := clampedSub t.uncompressedBytes old.uncompressedBytes

/-- The clamps of `message_blocks_totals_delete` that take effect. -/
def onDeleteClamps (codec : Codec β) (old : EncodedBlock β) (t : StoreTotals) : ℕ :=
  clampCount t.blocks 1 + clampCount t.messages old.messageCount +
    clampCount t.compressedBytes (codec.len old.payload) +
    clampCount t.uncompressedBytes old.uncompressedBytes

/-- `INSERT OR IGNORE INTO channels(channel_key)`. -/
def insertChannel (db : Db β) (channelKey : String) : Db β :=
  { db with channels := db.channels.insertIgnore ⟨channelKey, 0, 0, 0⟩ }

/-- `INSERT INTO message_blocks`: the channel row must exist, and a channel's
block sequences are unique. -/
def insertBlock (codec : Codec β) (db : Db β) (channelKey : String) (blockSequence : ℤ)
    (b : EncodedBlock β) : Except StoreError (Db β) :=
  if db.messageBlocks.rows.any fun row =>
      row.channelKey = channelKey && row.blockSequence = blockSequence then
    .error (.backend
      "UNIQUE constraint failed: message_blocks.channel_key, message_blocks.block_sequence")
  else if db.channels.lookup channelKey = none then
    .error (.backend "FOREIGN KEY constraint failed")
  else
    .ok { db with
      messageBlocks :=
        db.messageBlocks.insertIgnore ⟨db.nextId, blockSequence, { b with channelKey }⟩
      storeTotals := onInsert codec b db.storeTotals }

/-- `UPDATE message_blocks … WHERE id`. -/
def updateBlock (codec : Codec β) (db : Db β) (id : ℤ) (new : EncodedBlock β) : Db β :=
  match db.messageBlocks.lookup id with
  | none => db
  | some row =>
    { db with
      messageBlocks := db.messageBlocks.modify id (MessageBlock.rewrite new)
        (MessageBlock.id_rewrite new)
      storeTotals := onUpdate codec row.block new db.storeTotals }

/-- `DELETE FROM message_blocks WHERE id`. -/
def deleteBlock (codec : Codec β) (db : Db β) (id : ℤ) : Db β :=
  match db.messageBlocks.lookup id with
  | none => db
  | some row =>
    { db with
      messageBlocks := db.messageBlocks.erase id
      storeTotals := onDelete codec row.block db.storeTotals
      clamps := db.clamps + onDeleteClamps codec row.block db.storeTotals }

/-- Delete several blocks, one after the other. -/
def deleteBlocks (codec : Codec β) (db : Db β) (ids : List ℤ) : Db β :=
  ids.foldl (deleteBlock codec) db

/-- `DELETE FROM message_blocks WHERE channel_key`. -/
def deleteBlocksOf (codec : Codec β) (db : Db β) (channelKey : String) : Db β :=
  db.deleteBlocks codec ((db.blocksOf channelKey).map (·.id))

/-- `DELETE FROM channels WHERE …`, with the cascade to their blocks. -/
def deleteChannelsWhere (codec : Codec β) (db : Db β) (p : ChannelRow → Bool) : Db β :=
  let doomed := (db.channels.rows.filter p).map (·.channelKey)
  let db := doomed.foldl (deleteBlocksOf codec) db
  { db with channels := db.channels.deleteWhere p }

/-- `UPDATE channels SET retained_messages = MAX(0, retained_messages - ?)`. -/
def releaseMessages (db : Db β) (channelKey : String) (messages : ℤ) : Db β :=
  match db.channels.lookup channelKey with
  | none => db
  | some row =>
    { db with
      channels := db.channels.modify channelKey (ChannelRow.release messages)
        (ChannelRow.channelKey_release messages)
      clamps := db.clamps + clampCount row.retainedMessages messages }

/-- `UPDATE channels SET next_block_sequence, retained_messages`. -/
def retainMessages (db : Db β) (channelKey : String) (nextSequence retained : ℤ) : Db β :=
  { db with
    channels := db.channels.modify channelKey (ChannelRow.retain nextSequence retained)
      (ChannelRow.channelKey_retain nextSequence retained) }

end Db

end RecentMessages
