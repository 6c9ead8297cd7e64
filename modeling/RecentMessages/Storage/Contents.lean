/-
RecentMessages/Storage/Contents.lean

What the sealed store contains.  `Db.sealedRecords` is the list of all records
of all blocks, `Db.Readable` says that every block decodes.

Each statement of the store is described by its effect on these two and on the
list of block shapes (`Db.shape`), which forgets which copy of an event a block
holds: `updateBlock` with a fidelity upgrade leaves the shape, `insertBlock`
appends to it, `deleteBlock` takes from it.
-/
import RecentMessages.Storage.Append
import Mathlib.Data.List.Flatten

namespace RecentMessages

namespace MessageBlock

variable {β : Type} (codec : Codec β)

/-- The records of a block, none if it does not decode. -/
def records (row : MessageBlock β) : List CanonicalRecord :=
  match row.block.decode codec with
  | .ok records => records
  | .error _ => []

/-- The block decodes. -/
def Readable (row : MessageBlock β) : Prop := row.block.decode codec = .ok (row.records codec)

/-- A block up to the choice of copies: where it is and which events it holds. -/
def shape (row : MessageBlock β) : ℤ × String × ℤ × List (String × EventKey) :=
  (row.id, row.channelKey, row.blockSequence, (row.records codec).map CanonicalRecord.event)

variable {codec} {row : MessageBlock β} {records : List CanonicalRecord}

theorem records_of_decode (h : row.block.decode codec = .ok records) :
    row.records codec = records := by
  rw [MessageBlock.records, h]

theorem Readable.describes (h : row.Readable codec) : row.block.Describes (row.records codec) :=
  (EncodedBlock.decode_eq_ok h).2.2

theorem Readable.channel (h : row.Readable codec) {r : CanonicalRecord}
    (hr : r ∈ row.records codec) : r.channelKey = row.channelKey :=
  h.describes.channel r hr

theorem Readable.count (h : row.Readable codec) :
    row.messageCount = (row.records codec).length := by
  rw [messageCount, h.describes.count]

end MessageBlock

namespace Db

variable {β : Type} (codec : Codec β)

/-- Every block decodes. -/
def Readable (db : Db β) : Prop := ∀ row ∈ db.messageBlocks.rows, row.Readable codec

/-- All sealed records, block by block. -/
def sealedRecords (db : Db β) : List CanonicalRecord :=
  db.messageBlocks.rows.flatMap (·.records codec)

/-- The shapes of all blocks. -/
def shape (db : Db β) : List (ℤ × String × ℤ × List (String × EventKey)) :=
  db.messageBlocks.rows.map (·.shape codec)

/-- The policy tables and the journal are untouched. -/
structure SamePolicy (db db' : Db β) : Prop where
  blocked : db'.blockedChannels = db.blockedChannels
  cutoffs : db'.channelPurgeCutoffs = db.channelPurgeCutoffs
  journal : db'.journal = db.journal

theorem SamePolicy.refl (db : Db β) : SamePolicy db db := ⟨rfl, rfl, rfl⟩

theorem SamePolicy.trans {db db' db'' : Db β} (h : SamePolicy db db')
    (h' : SamePolicy db' db'') : SamePolicy db db'' :=
  ⟨h'.blocked.trans h.blocked, h'.cutoffs.trans h.cutoffs, h'.journal.trans h.journal⟩

variable {codec} {db db' : Db β}

theorem readable_empty : (empty : Db β).Readable codec := by rintro row ⟨⟩

@[simp] theorem sealedRecords_empty : (empty : Db β).sealedRecords codec = [] := rfl

theorem mem_sealedRecords {r : CanonicalRecord} :
    r ∈ db.sealedRecords codec ↔ ∃ row ∈ db.messageBlocks.rows, r ∈ row.records codec :=
  List.mem_flatMap

/-- The events of the store, read off the shapes of its blocks. -/
theorem events_eq_shape : (db.sealedRecords codec).map CanonicalRecord.event =
    (db.shape codec).flatMap (·.2.2.2) := by
  rw [sealedRecords, shape, List.map_flatMap, List.flatMap_map]
  rfl

theorem blocked_congr (h : SamePolicy db db') (c : String) : db'.blocked c = db.blocked c := by
  rw [Db.blocked, Db.blocked, h.blocked]

theorem purgeCutoff_congr (h : SamePolicy db db') (c : String) :
    db'.purgeCutoff c = db.purgeCutoff c := by
  rw [purgeCutoff, purgeCutoff, h.cutoffs]

/-! ### Insertion -/

/-- What a committed insertion did to the table. -/
theorem insertBlock_eq_ok {c : String} {seq : ℤ} {b : EncodedBlock β}
    (h : db.insertBlock codec c seq b = .ok db') :
    (∀ row ∈ db.messageBlocks.rows, row.channelKey = c → row.blockSequence ≠ seq) ∧
      db.channels.lookup c ≠ none ∧
      db' = { db with
        messageBlocks :=
          db.messageBlocks.insertIgnore ⟨db.nextId, seq, { b with channelKey := c }⟩
        storeTotals := onInsert codec b db.storeTotals } := by
  unfold insertBlock at h
  split at h
  · cases h
  rename_i hunique
  split at h
  · cases h
  rename_i hforeign
  refine ⟨fun row hrow hc hseq => hunique ?_, hforeign, (Except.ok.inj h).symm⟩
  rw [List.any_eq_true]
  exact ⟨row, hrow, by simp [hc, hseq]⟩

theorem rows_insertBlock {c : String} {seq : ℤ} {b : EncodedBlock β}
    (h : db.insertBlock codec c seq b = .ok db') :
    db'.messageBlocks.rows =
      db.messageBlocks.rows ++ [⟨db.nextId, seq, { b with channelKey := c }⟩] := by
  obtain ⟨-, -, rfl⟩ := insertBlock_eq_ok h
  exact KeyTable.insertIgnore_of_none db.lookup_nextId

/-- An encoded list of records of one channel keeps its channel. -/
theorem channelKey_of_encode {c : String} {records : List CanonicalRecord} {level : ℤ}
    {b : EncodedBlock β} (hb : EncodedBlock.encode codec records level = .ok b)
    (hc : ∀ r ∈ records, r.channelKey = c) : { b with channelKey := c } = b := by
  have hdesc := EncodedBlock.describes_of_encode hb
  obtain ⟨r, hr⟩ := List.exists_mem_of_ne_nil _ hdesc.nonempty
  rw [← hc r hr, hdesc.channel r hr]

/-- **Inserting an encoded chunk** appends its records. -/
theorem contents_insertBlock {c : String} {seq level : ℤ} {b : EncodedBlock β}
    {records : List CanonicalRecord} (hb : EncodedBlock.encode codec records level = .ok b)
    (hc : ∀ r ∈ records, r.channelKey = c) (h : db.insertBlock codec c seq b = .ok db')
    (hdb : db.Readable codec) :
    db'.Readable codec ∧ db'.sealedRecords codec = db.sealedRecords codec ++ records ∧
      db.SamePolicy db' ∧ db'.evicted = db.evicted := by
  have hrows := rows_insertBlock h
  rw [channelKey_of_encode hb hc] at hrows
  have hdecode : (MessageBlock.mk db.nextId seq b).block.decode codec = .ok records :=
    EncodedBlock.decode_of_encode hb
  have hrecords := MessageBlock.records_of_decode hdecode
  obtain ⟨-, -, heq⟩ := insertBlock_eq_ok h
  refine ⟨fun row hrow => ?_, ?_, ?_, ?_⟩
  · rw [hrows, List.mem_append, List.mem_singleton] at hrow
    rcases hrow with hold | rfl
    · exact hdb row hold
    · rw [MessageBlock.Readable, hrecords, hdecode]
  · rw [sealedRecords, sealedRecords, hrows, List.flatMap_append, List.flatMap_singleton, hrecords]
  · rw [heq]; exact ⟨rfl, rfl, rfl⟩
  · rw [heq]

/-! ### Update in place -/

/-- What a rewrite of an existing block does to the table. -/
theorem rows_updateBlock (codec : Codec β) {id : ℤ} (b : EncodedBlock β) {row : MessageBlock β}
    (h : db.messageBlocks.lookup id = some row) :
    (db.updateBlock codec id b).messageBlocks.rows =
      db.messageBlocks.rows.map fun q => if q.id = id then MessageBlock.rewrite b q else q := by
  rw [updateBlock, h]
  rfl

theorem policy_updateBlock (codec : Codec β) (db : Db β) (id : ℤ) (b : EncodedBlock β) :
    db.SamePolicy (db.updateBlock codec id b) ∧
      (db.updateBlock codec id b).evicted = db.evicted ∧
      (db.updateBlock codec id b).channels = db.channels := by
  unfold updateBlock
  split <;> exact ⟨⟨rfl, rfl, rfl⟩, rfl, rfl⟩

/-- A block rewritten with upgraded copies of its records holds them. -/
theorem decode_rewrite {level : ℤ} {b : EncodedBlock β} {row : MessageBlock β}
    {records : List CanonicalRecord} (hb : EncodedBlock.encode codec records level = .ok b)
    (hread : row.Readable codec)
    (hevents : records.map CanonicalRecord.event =
      (row.records codec).map CanonicalRecord.event) :
    (MessageBlock.rewrite b row).block.decode codec = .ok records := by
  have hchannel : ∀ r ∈ records, r.channelKey = row.channelKey := by
    intro r hr
    have hmem : r.event ∈ (row.records codec).map CanonicalRecord.event :=
      hevents ▸ List.mem_map_of_mem hr
    obtain ⟨q, hq, heq⟩ := List.mem_map.mp hmem
    rw [← (CanonicalRecord.event_eq_iff.mp heq).1]
    exact hread.channel hq
  have hrewrite : MessageBlock.rewrite b row = { row with block := b } := by
    have hblock := channelKey_of_encode hb hchannel
    exact congrArg (fun block => { row with block }) hblock
  rw [hrewrite]
  exact EncodedBlock.decode_of_encode hb

/-- **Rewriting a block with upgraded copies of its records** leaves the shape of
the store, and every record is an old one or one of the copies. -/
theorem contents_updateBlock {id level : ℤ} {b : EncodedBlock β} {row : MessageBlock β}
    {records : List CanonicalRecord} (hb : EncodedBlock.encode codec records level = .ok b)
    (hlookup : db.messageBlocks.lookup id = some row)
    (hevents : records.map CanonicalRecord.event =
      (row.records codec).map CanonicalRecord.event) (hdb : db.Readable codec) :
    (db.updateBlock codec id b).Readable codec ∧
      (db.updateBlock codec id b).shape codec = db.shape codec ∧
      ∀ r ∈ (db.updateBlock codec id b).sealedRecords codec,
        r ∈ db.sealedRecords codec ∨ r ∈ records := by
  have hrow := KeyTable.mem_of_lookup hlookup
  have hid := KeyTable.key_of_lookup hlookup
  have hdecode := decode_rewrite hb (hdb row hrow) hevents
  have hrecords := MessageBlock.records_of_decode hdecode
  -- the rewritten row is the only one that changes
  have hsame : ∀ q ∈ db.messageBlocks.rows, q.id = id → q = row := fun q hq hqid =>
    db.messageBlocks.eq_of_key hq hrow (hqid.trans hid.symm)
  have hrows := rows_updateBlock codec b hlookup
  refine ⟨fun q hq => ?_, ?_, fun r hr => ?_⟩
  · rw [hrows, List.mem_map] at hq
    obtain ⟨q, hq, rfl⟩ := hq
    split
    · rename_i hqid
      rw [hsame q hq hqid, MessageBlock.Readable, hrecords, hdecode]
    · exact hdb q hq
  · rw [shape, shape, hrows, List.map_map]
    refine List.map_congr_left fun q hq => ?_
    rw [Function.comp_apply]
    split
    · rename_i hqid
      rw [hsame q hq hqid, MessageBlock.shape, MessageBlock.shape, hrecords, hevents]
      rfl
    · rfl
  · obtain ⟨q, hq, hr⟩ := mem_sealedRecords.mp hr
    rw [hrows, List.mem_map] at hq
    obtain ⟨q, hq, rfl⟩ := hq
    split at hr
    · rename_i hqid
      rw [hsame q hq hqid, hrecords] at hr
      exact .inr hr
    · exact .inl (mem_sealedRecords.mpr ⟨q, hq, hr⟩)

/-! ### Deletion -/

theorem mem_deleteBlock {id : ℤ} {row : MessageBlock β} :
    row ∈ (db.deleteBlock codec id).messageBlocks.rows ↔
      row ∈ db.messageBlocks.rows ∧ row.id ≠ id := by
  unfold deleteBlock
  split
  · rename_i h
    exact ⟨fun hr => ⟨hr, KeyTable.lookup_eq_none.mp h row hr⟩, And.left⟩
  · exact KeyTable.mem_erase

theorem rows_deleteBlock_sublist (id : ℤ) :
    (db.deleteBlock codec id).messageBlocks.rows.Sublist db.messageBlocks.rows := by
  unfold deleteBlock
  split
  · exact List.Sublist.refl _
  · exact List.filter_sublist

theorem policy_deleteBlock (codec : Codec β) (db : Db β) (id : ℤ) :
    db.SamePolicy (db.deleteBlock codec id) ∧ (db.deleteBlock codec id).evicted = db.evicted ∧
      (db.deleteBlock codec id).channels = db.channels := by
  unfold deleteBlock
  split <;> exact ⟨⟨rfl, rfl, rfl⟩, rfl, rfl⟩

/-- Fewer blocks hold fewer records. -/
theorem sealedRecords_sublist (codec : Codec β)
    (h : db'.messageBlocks.rows.Sublist db.messageBlocks.rows) :
    (db'.sealedRecords codec).Sublist (db.sealedRecords codec) :=
  h.flatMap _

end Db

end RecentMessages
