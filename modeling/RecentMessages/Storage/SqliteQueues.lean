/-
RecentMessages/Storage/SqliteQueues.lean

The sealed store as queues of blocks.

`append_transaction` looks for known events in the blocks that overlap the batch in
time, and upgrades the copies it finds there.  If all copies of an event have one
time, every known event is in such a block; if they have one fidelity, nothing is
upgraded.  The merge loop then collects what a set of all known events would let
through (`absorb_foldl_eq`), no block is rewritten, and the transaction is an append
of the queues (`Shows.append`).
-/
import RecentMessages.Storage.Maintenance
import RecentMessages.Storage.MessageStore
import RecentMessages.Storage.Retention
import RecentMessages.Storage.Fidelity

namespace RecentMessages

open CanonicalRecord EncodedBlock

/-! ### The merge loop -/

/-- One round with a record that is better than none of the copies there are. -/
theorem absorb_eq {index : RetainedIndex} {known : Finset EventKey} {m : MergeState}
    {r : CanonicalRecord} (hindex : index r.eventKey ≠ none ↔ r.eventKey ∈ known)
    (hretained : ∀ block ∈ m.retained, ∀ q ∈ block.records, r.shouldReplace q = false)
    (hnew : ∀ q ∈ m.newRecords.items, r.shouldReplace q = false) :
    (absorb index m r).retained = m.retained ∧
      (absorb index m r).newRecords.items =
        if r.eventKey ∈ known ∪ (m.newRecords.items.map eventKey).toFinset then m.newRecords.items
        else m.newRecords.items ++ [r] := by
  rcases e : index r.eventKey with - | ⟨b, i⟩
  · -- no overlapping block has the event: it may be among the new records
    have hfresh : r.eventKey ∉ known := fun h => hindex.mpr h e
    rw [absorb, e]
    refine ⟨rfl, ?_⟩
    show (m.newRecords.upsert shouldReplace r).items = _
    rcases hi : m.newRecords.index r.eventKey with - | i
    · have hkey : r.eventKey ∉ (m.newRecords.items.map eventKey).toFinset := fun h =>
        IndexedList.index_ne_none.mpr (List.mem_toFinset.mp h) hi
      rw [IndexedList.items_upsert_of_none hi, if_neg]
      exact fun h => (Finset.mem_union.mp h).elim hfresh hkey
    · have hkey : r.eventKey ∈ (m.newRecords.items.map eventKey).toFinset :=
        List.mem_toFinset.mpr (IndexedList.index_ne_none.mp (hi ▸ Option.some_ne_none i))
      obtain ⟨old, hold, -, ⟨hbetter, -⟩ | ⟨-, heq⟩⟩ :=
        IndexedList.upsert_of_some shouldReplace hi
      · rw [hnew old (List.mem_of_getElem? hold)] at hbetter
        cases hbetter
      · rw [heq, if_pos (Finset.mem_union_right _ hkey)]
  · -- the retained copy stays, as the record is not better
    have hknown : r.eventKey ∈ known := hindex.mp (e ▸ Option.some_ne_none _)
    have hsame : absorb index m r = m := by
      rw [absorb, e]
      dsimp only
      split
      · rfl
      · rename_i old hold
        obtain ⟨block, hblock, hrecord⟩ := Option.bind_eq_some_iff.mp hold
        have hworse := hretained block (List.mem_of_getElem? hblock) old
          (List.mem_of_getElem? hrecord)
        rw [hworse]
        rfl
    rw [hsame, if_pos (Finset.mem_union_left _ hknown)]
    exact ⟨rfl, rfl⟩

/-- **The merge loop keeps the first copy of every new event**, if no copy is better
than another one; `known` are the events that the index has among those of the
records. -/
theorem absorb_foldl_eq {index : RetainedIndex} {known : Finset EventKey}
    {records : List CanonicalRecord} {m : MergeState}
    (hindex : ∀ r ∈ records, index r.eventKey ≠ none ↔ r.eventKey ∈ known)
    (hretained : ∀ r ∈ records, ∀ block ∈ m.retained, ∀ q ∈ block.records,
      r.shouldReplace q = false)
    (hnew : ∀ r ∈ records, ∀ q, q ∈ m.newRecords.items ∨ q ∈ records → r.shouldReplace q = false) :
    (records.foldl (absorb index) m).retained = m.retained ∧
      (records.foldl (absorb index) m).newRecords.items = m.newRecords.items ++
        (retainNew eventKey (known ∪ (m.newRecords.items.map eventKey).toFinset) records).1 := by
  induction records generalizing m with
  | nil => exact ⟨rfl, (List.append_nil _).symm⟩
  | cons r records ih =>
    obtain ⟨hblocks, hitems⟩ := absorb_eq (hindex r List.mem_cons_self)
      (hretained r List.mem_cons_self) fun q hq => hnew r List.mem_cons_self q (.inl hq)
    -- the round adds no record but `r`
    have hkeep : ∀ q ∈ (absorb index m r).newRecords.items,
        q ∈ m.newRecords.items ∨ q ∈ r :: records := by
      intro q hq
      rw [hitems] at hq
      split at hq
      · exact .inl hq
      · exact (List.mem_append.mp hq).imp_right fun hq =>
          List.mem_cons.mpr (.inl (List.mem_singleton.mp hq))
    obtain ⟨hblocks', hitems'⟩ := ih (m := absorb index m r)
      (fun q hq => hindex q (List.mem_cons_of_mem r hq))
      (fun q hq => by
        rw [hblocks]
        exact hretained q (List.mem_cons_of_mem r hq))
      fun q hq p hp => hnew q (List.mem_cons_of_mem r hq) p <|
        hp.elim (hkeep p) fun hp => .inr (List.mem_cons_of_mem r hp)
    rw [List.foldl_cons]
    refine ⟨hblocks'.trans hblocks, ?_⟩
    rw [hitems', hitems]
    by_cases hr : r.eventKey ∈ known ∪ (m.newRecords.items.map eventKey).toFinset
    · rw [if_pos hr, retainNew_of_mem hr]
    · have hgrown : known ∪ ((m.newRecords.items ++ [r]).map eventKey).toFinset =
          insert r.eventKey (known ∪ (m.newRecords.items.map eventKey).toFinset) := by
        ext k
        simp
      rw [if_neg hr, retainNew_of_not_mem hr, hgrown, List.append_assoc]
      rfl

/-- A store of these sizes in SQLite. -/
def BlockSizes.sqlite (sizes : BlockSizes) : SqliteBlockStore where
  blockMessages := sizes.blockMessages
  targetMessagesPerChannel := sizes.targetMessagesPerChannel
  compressionLevel := storeCompressionLevel
  blockMessages_pos := sizes.blockMessages_pos
  target_pos := sizes.target_pos

namespace Db

variable {β : Type} (codec : Codec β)

/-! ### Statistics -/

/-- A column of `store_totals`, which is an integer as long as it fits an `i64`. -/
def readTotal (x : ℤ) : Except StoreError ℤ :=
  if x ≤ i64Max then .ok x else .error (.backend "Invalid column type Real")

/-- `stats`. -/
def stats (db : Db β) : Except StoreError StoreStats := do
  let blocks ← readTotal db.storeTotals.blocks
  let messages ← readTotal db.storeTotals.messages
  let compressedBytes ← readTotal db.storeTotals.compressedBytes
  let uncompressedBytes ← readTotal db.storeTotals.uncompressedBytes
  return {
    channels := db.channels.rows.length
    blocks := ← tryToU64 blocks
    messages := ← tryToU64 messages
    compressedBytes := ← tryToU64 compressedBytes
    uncompressedBytes := ← tryToU64 uncompressedBytes }

/-! ### The queues of a store -/

/-- The blocks of every channel are those of `q`. -/
def Lists (q : BlockQueues β) (db : Db β) : Prop :=
  ∀ c, (db.blocksOf c).map (·.block) = q.blocks c

/-- The store has the channels of `q`, each with its blocks; its books are in order, and
there is no policy. -/
structure Shows (q : BlockQueues β) (db : Db β) : Prop where
  accounted : db.Accounted codec
  unrestricted : empty.SamePolicy db
  channels : db.channels.keysWhere (fun _ => true) = q.channels
  lists : db.Lists q

variable {codec} {store : SqliteBlockStore} {db db' : Db β} {q : BlockQueues β} {c : String}
  {next retained : ℤ} {b : EncodedBlock β}

theorem shows_empty : (empty : Db β).Shows codec .empty where
  accounted := accounted_empty
  unrestricted := SamePolicy.refl _
  channels := rfl
  lists := fun _ => rfl

theorem mem_blocks (h : db.Lists q) {row : MessageBlock β} (hrow : row ∈ db.messageBlocks.rows) :
    row.block ∈ q.blocks row.channelKey := by
  rw [← h]
  exact List.mem_map_of_mem (mem_blocksOf.mpr ⟨hrow, rfl⟩)

/-- **Inserting a block** puts its row behind those of its channel. -/
theorem blocksOf_insertBlock (hdb : db.Balanced codec c next retained)
    (h : db.insertBlock codec c next b = .ok db') :
    db'.blocksOf c = db.blocksOf c ++ [⟨db.nextId, next, { b with channelKey := c }⟩] ∧
      ∀ c', c' ≠ c → db'.blocksOf c' = db.blocksOf c' := by
  obtain ⟨-, -, rfl⟩ := insertBlock_eq_ok h
  have hspaced : KeyTable.Spaced MessageBlock.channelKey MessageBlock.blockSequence
      db.messageBlocks := hdb.others.books.distinct
  have hlast : ∀ row ∈ db.messageBlocks.rows, row.channelKey = c → row.blockSequence < next :=
    hdb.own_next
  exact ⟨KeyTable.queueOf_insertIgnore (r := MessageBlock.mk db.nextId next
      { b with channelKey := c }) hspaced db.lookup_nextId hlast,
    fun c' hc => KeyTable.queueOf_insertIgnore_ne (r := MessageBlock.mk db.nextId next
      { b with channelKey := c }) (Ne.symm hc)⟩

theorem lists_insertBlock (hdb : db.Balanced codec c next retained) (h : db.Lists q)
    (hb : b.channelKey = c) : ∃ db', db.insertBlock codec c next b = .ok db' ∧
      db'.Balanced codec c (next + 1) (retained + b.messageCount) ∧
      db'.Lists (q.withBlocks c (q.blocks c ++ [b])) ∧ db'.channels = db.channels ∧
      db.SamePolicy db' := by
  have hunique : (db.messageBlocks.rows.any fun row =>
      row.channelKey = c && row.blockSequence = next) = false :=
    KeyTable.any_place_eq_false hdb.own_next
  have hinsert : db.insertBlock codec c next b = .ok { db with
      messageBlocks :=
        db.messageBlocks.insertIgnore ⟨db.nextId, next, { b with channelKey := c }⟩
      storeTotals := onInsert codec b db.storeTotals } := by
    rw [insertBlock, hunique, if_neg Bool.false_ne_true, if_neg hdb.present]
  have hsame : { b with channelKey := c } = b := by rw [← hb]
  obtain ⟨hown, hothers⟩ := blocksOf_insertBlock hdb hinsert
  refine ⟨_, hinsert, balanced_insertBlock hinsert hdb, fun c' => ?_, rfl, ⟨rfl, rfl, rfl⟩⟩
  by_cases hc : c' = c
  · rw [hc, hown, List.map_append, h c, BlockQueues.blocks_withBlocks_self, List.map_singleton,
      hsame]
  · rw [hothers c' hc, h c', BlockQueues.blocks_withBlocks_ne hc]

/-- **Deleting the oldest block** takes its row off the queue. -/
theorem blocksOf_deleteOldest (hdb : db.Balanced codec c next retained) {oldest : MessageBlock β}
    {rest : List (MessageBlock β)} (hqueue : db.blocksOf c = oldest :: rest) :
    ({ db.deleteBlock codec oldest.id with evicted := db.evicted ++ [oldest] } : Db β).blocksOf c =
        rest ∧
      ∀ c', c' ≠ c → ({ db.deleteBlock codec oldest.id with
        evicted := db.evicted ++ [oldest] } : Db β).blocksOf c' = db.blocksOf c' := by
  obtain ⟨hmem, hc⟩ :=
    mem_blocksOf.mp (show oldest ∈ db.blocksOf c from hqueue ▸ List.mem_cons_self)
  have hspaced : KeyTable.Spaced MessageBlock.channelKey MessageBlock.blockSequence
      db.messageBlocks := hdb.others.books.distinct
  have hrows : ∀ c', ({ db.deleteBlock codec oldest.id with evicted := db.evicted ++ [oldest] } :
      Db β).blocksOf c' = KeyTable.queueOf MessageBlock.channelKey MessageBlock.blockSequence
        (db.messageBlocks.erase oldest.id) c' := by
    intro c'
    rw [deleteBlock, KeyTable.lookup_of_mem hmem]
    rfl
  refine ⟨?_, fun c' hne => ?_⟩
  · rw [hrows, KeyTable.queueOf_erase hspaced hqueue]
  · rw [hrows, KeyTable.queueOf_erase_ne hmem (hc ▸ Ne.symm hne)]
    rfl

theorem Lists.withBlocks_self (h : db.Lists q) : db.Lists (q.withBlocks c (q.blocks c)) := by
  intro c'
  rw [BlockQueues.blocks_withBlocks_own]
  exact h c'

/-- **Inserting chunks** that can be encoded puts their blocks behind. -/
theorem lists_insertChunks (hdb : db.Balanced codec c next retained) (h : db.Lists q)
    {sizes : BlockSizes} {records : List CanonicalRecord} {new : List (EncodedBlock β)}
    (hchannel : ∀ r ∈ records, r.channelKey = c)
    (hnew : encodeChunks codec sizes records = .ok new) :
    ∃ db' next' retained',
      db.insertChunks codec sizes.sqlite c records next retained = .ok (db', next', retained') ∧
        db'.Balanced codec c next' retained' ∧ db'.Lists (q.withBlocks c (q.blocks c ++ new)) ∧
        db'.channels = db.channels ∧ db.SamePolicy db' := by
  refine layChunks_run (fun db next b => db.insertBlock codec c next b)
    (fun done next retained db' => db'.Balanced codec c next retained ∧
      db'.Lists (q.withBlocks c (q.blocks c ++ done)) ∧ db'.channels = db.channels ∧
      db.SamePolicy db') hnew ?_ ⟨hdb, ?_, rfl, SamePolicy.refl db⟩
  · rintro done b next₁ retained₁ db₁ - ⟨piece, hpiece, hb⟩ ⟨hdb₁, h₁, hchannels₁, hpolicy₁⟩
    have hown := channel_of_encode
      (fun r hr => hchannel r (mem_of_mem_chunks hpiece hr)) hb
    obtain ⟨db₂, hinsert, hdb₂, h₂, hchannels₂, hpolicy₂⟩ := lists_insertBlock hdb₁ h₁ hown
    rw [BlockQueues.withBlocks_withBlocks, BlockQueues.blocks_withBlocks_self,
      List.append_assoc] at h₂
    exact ⟨db₂, hinsert, hdb₂, h₂, hchannels₂.trans hchannels₁, hpolicy₁.trans hpolicy₂⟩
  · rw [List.append_nil]
    exact h.withBlocks_self

/-- The messages of a channel, from its queue. -/
theorem held_eq_sum (db : Db β) (c : String) :
    db.held c = ((db.blocksOf c).map fun row => row.block.messageCount).sum := by
  have hsum : db.held c = ((db.blocksOf c).map (·.messageCount)).sum :=
    KeyTable.total_ite_eq_sum_queueOf db.messageBlocks c MessageBlock.messageCount
  rw [hsum, Nat.cast_list_sum, List.map_map]
  rfl

theorem allowed_nonneg (store : SqliteBlockStore) : 0 ≤ allowed store :=
  le_min (Int.natCast_nonneg _) (by decide)

/-- **Retention** trims the queue of the channel. -/
theorem blocksOf_evictOldest (store : SqliteBlockStore) (hdb : db.Balanced codec c next retained)
    {rounds : ℕ} (hrounds : (db.blocksOf c).length ≤ rounds) :
    (evictOldest codec store c rounds db retained).1.blocksOf c =
        trimFront (fun row => row.block.messageCount) (allowed store).toNat (db.blocksOf c) ∧
      ∀ c', c' ≠ c →
        (evictOldest codec store c rounds db retained).1.blocksOf c' = db.blocksOf c' := by
  have hallowed := allowed_nonneg store
  induction rounds generalizing db retained with
  | zero =>
    have hnil : db.blocksOf c = [] := List.length_eq_zero_iff.mp (Nat.le_zero.mp hrounds)
    rw [evictOldest, hnil]
    exact ⟨rfl, fun _ _ => rfl⟩
  | succ rounds ih =>
    -- a round of the loop is a step of `trimFront`
    have hretained := hdb.own_retained.trans (held_eq_sum db c)
    rw [evictOldest]
    split
    · rename_i hlt
      rcases hqueue : db.blocksOf c with - | ⟨oldest, rest⟩
      · exact ⟨hqueue, fun _ _ => rfl⟩
      · obtain ⟨hmem, hc⟩ :=
          mem_blocksOf.mp (show oldest ∈ db.blocksOf c from hqueue ▸ List.mem_cons_self)
        obtain ⟨hrest, hothers⟩ := blocksOf_deleteOldest hdb hqueue
        rw [hqueue, List.length_cons] at hrounds
        obtain ⟨hown, hkept⟩ := ih (balanced_deleteOldest hdb hmem hc) (by rw [hrest]; omega)
        rw [hqueue] at hretained
        rw [trimFront_of_lt (by omega)]
        rw [hrest] at hown
        exact ⟨hown, fun c' hne => (hkept c' hne).trans (hothers c' hne)⟩
    -- the channel is within its limit
    · rename_i hle
      rw [trimFront_of_le (by omega)]
      exact ⟨rfl, fun _ _ => rfl⟩

theorem lists_evictOldest (sizes : BlockSizes) (hdb : db.Balanced codec c next retained)
    (h : db.Lists q) {rounds : ℕ} (hrounds : (db.blocksOf c).length ≤ rounds) :
    (evictOldest codec sizes.sqlite c rounds db retained).1.Lists
      (q.withBlocks c (trimFront (fun b => b.messageCount)
        (min sizes.allowedMessages i64Max.toNat) (q.blocks c))) := by
  have hallowed : (allowed sizes.sqlite).toNat = min sizes.allowedMessages i64Max.toNat := by
    have hmax : (i64Max : ℤ) = 2 ^ 63 - 1 := rfl
    have hsame : allowedMessages sizes.sqlite = sizes.allowedMessages := rfl
    rw [allowed, hsame]
    omega
  obtain ⟨hown, hothers⟩ := blocksOf_evictOldest sizes.sqlite hdb hrounds
  intro c'
  by_cases hc : c' = c
  · rw [hc, hown, hallowed, BlockQueues.blocks_withBlocks_self, ← h c, trimFront_map]
  · rw [hothers c' hc, BlockQueues.blocks_withBlocks_ne hc, h c']

/-! ### Appends -/

variable {sizes : BlockSizes} {bound : ℕ} {history : List CanonicalRecord}

theorem Shows.readable (h : db.Shows codec q) (hq : q.Valid codec bound history) :
    db.Readable codec := by
  intro row hrow
  exact (hq.sound row.channelKey).readable row.block (mem_blocks h.lists hrow)

/-- What is sealed in a channel, and where it comes from. -/
theorem Shows.mem_recordsOf (h : db.Shows codec q) {row : MessageBlock β}
    (hrow : row ∈ db.messageBlocks.rows) {r : CanonicalRecord} (hr : r ∈ row.records codec) :
    r ∈ recordsOf codec (q.blocks row.channelKey) :=
  List.mem_flatMap.mpr ⟨row.block, mem_blocks h.lists hrow, hr⟩

theorem Shows.insertChannel (h : db.Shows codec q) (c : String) :
    (db.insertChannel c).Shows codec (q.withBlocks c (q.blocks c)) where
  accounted := accounted_insertChannel h.accounted c
  unrestricted := ⟨h.unrestricted.blocked, h.unrestricted.cutoffs, h.unrestricted.journal⟩
  channels := by
    show (db.channels.insertIgnore ⟨c, 0, 0, 0⟩).keysWhere (fun _ => true) = insert c q.channels
    rw [KeyTable.keys_insertIgnore, h.channels]
  lists := fun c' => by
    rw [BlockQueues.blocks_withBlocks_own]
    exact h.lists c'

theorem keys_retainMessages (db : Db β) (c : String) (next retained : ℤ) :
    (db.retainMessages c next retained).channels.keysWhere (fun _ => true) =
      db.channels.keysWhere fun _ => true := by
  show (db.channels.modify c (ChannelRow.retain next retained)
    (ChannelRow.channelKey_retain next retained)).keysWhere (fun _ => true) = _
  rw [KeyTable.keys_modify]

section Admitted

variable {batch : List CanonicalRecord} {first last : ℤ}

theorem Shows.sealed_history (h : db.Shows codec q) (hq : q.Valid codec bound history) :
    ∀ row ∈ db.messageBlocks.rows, ∀ r ∈ row.records codec, r ∈ history :=
  fun row hrow r hr => (hq.sound row.channelKey).source r (h.mem_recordsOf hrow hr)

/-- **The index has every known event** of a batch, as its copies agree on its time. -/
theorem Shows.index_iff (h : db.Shows codec q) (hq : q.Valid codec bound history)
    (hagree : CopiesAgree history) (hmin : minEventAtMs batch = some first)
    (hmax : maxEventAtMs batch = some last) {index : RetainedIndex}
    (hindex : ∀ k, index k ≠ none ↔
      ∃ row ∈ db.overlapping c first last, k ∈ (row.records codec).map eventKey)
    {r : CanonicalRecord} (hr : r ∈ batch) (hchannel : r.channelKey = c) (hhistory : r ∈ history) :
    index r.eventKey ≠ none ↔ r.eventKey ∈ keysOf codec (q.blocks c) := by
  have hread := h.readable hq
  rw [mem_keysOf]
  constructor
  · intro hne
    obtain ⟨row, hrow, hk⟩ := (hindex r.eventKey).mp hne
    obtain ⟨hrow, hc⟩ := mem_overlapping hrow
    obtain ⟨p, hp, hkey⟩ := List.mem_map.mp hk
    exact List.mem_map.mpr ⟨p, hc ▸ h.mem_recordsOf hrow hp, hkey⟩
  · intro hk
    obtain ⟨p, hp, hkey⟩ := List.mem_map.mp hk
    obtain ⟨b, hb, hpb⟩ := List.mem_flatMap.mp hp
    rw [← h.lists c] at hb
    obtain ⟨row, hrow, rfl⟩ := List.mem_map.mp hb
    obtain ⟨hrow, hc⟩ := mem_blocksOf.mp hrow
    have hpc : p.channelKey = r.channelKey := by
      rw [(hread row hrow).channel hpb, hc, hchannel]
    exact index_ne_none_of_sealed hindex rfl hmin hmax hread
      (mem_sealedRecords.mpr ⟨row, hrow, hpb⟩) hr hchannel (event_eq_iff.mpr ⟨hpc, hkey⟩)
      (hagree p (h.sealed_history hq row hrow p hpb) r hhistory hkey).1

/-- **The merge** leaves the loaded blocks alone and finds the new records: copies of an event
have one fidelity, so that none is upgraded. -/
theorem Shows.merge (h : db.Shows codec q) (hq : q.Valid codec bound history)
    (hagree : CopiesAgree history) (hmin : minEventAtMs batch = some first)
    (hmax : maxEventAtMs batch = some last) (hchannel : ∀ r ∈ batch, r.channelKey = c)
    (hbatch : ∀ r ∈ batch, r ∈ history) {blocks : List RetainedBlock} {index : RetainedIndex}
    (hload : loadRetained codec (db.overlapping c first last) = .ok (blocks, index)) :
    ((sortByKey eventOrder batch).foldl (absorb index) ⟨blocks, IndexedList.empty⟩).retained =
        blocks ∧
      ((sortByKey eventOrder batch).foldl (absorb index)
        ⟨blocks, IndexedList.empty⟩).newRecords.items = q.newRecords codec c batch := by
  obtain ⟨hblocks, hindex⟩ := loadRetained_eq_ok hload
  -- the index knows the events of the blocks that overlap the batch
  have hknows : ∀ r ∈ sortByKey eventOrder batch,
      index r.eventKey ≠ none ↔ r.eventKey ∈ keysOf codec (q.blocks c) := by
    intro r hr
    have hr := mem_sortByKey.mp hr
    exact h.index_iff hq hagree hmin hmax hindex hr (hchannel r hr) (hbatch r hr)
  -- no copy is better than one that is sealed
  have hworse : ∀ r ∈ sortByKey eventOrder batch, ∀ block ∈ blocks, ∀ p ∈ block.records,
      r.shouldReplace p = false := by
    intro r hr block hblock p hp
    obtain ⟨row, hrow, -, hrecords, -⟩ := hblocks block hblock
    rw [hrecords] at hp
    exact hagree.not_shouldReplace (hbatch r (mem_sortByKey.mp hr))
      (h.sealed_history hq row (mem_overlapping hrow).1 p hp)
  -- or than one of the same batch
  have hnew : ∀ r ∈ sortByKey eventOrder batch, ∀ p,
      p ∈ (IndexedList.empty : IndexedList CanonicalRecord.eventKey).items ∨
        p ∈ sortByKey eventOrder batch → r.shouldReplace p = false := by
    rintro r hr p (hp | hp)
    · exact absurd hp List.not_mem_nil
    · exact hagree.not_shouldReplace (hbatch r (mem_sortByKey.mp hr))
        (hbatch p (mem_sortByKey.mp hp))
  obtain ⟨hretained, hitems⟩ :=
    absorb_foldl_eq (m := ⟨blocks, IndexedList.empty⟩) hknows hworse hnew
  refine ⟨hretained, ?_⟩
  rw [hitems]
  simp [BlockQueues.newRecords]

/-- **Laying and trimming**: the new blocks go behind, the oldest ones go, and the channel's row
is written. -/
theorem Shows.lay (h : db.Shows codec q) (hknown : c ∈ q.channels)
    {records : List CanonicalRecord} {new : List (EncodedBlock β)}
    (hchannel : ∀ r ∈ records, r.channelKey = c)
    (hnew : encodeChunks codec sizes records = .ok new)
    (hmessages : (messagesOf (q.blocks c ++ new) : ℤ) ≤ i64Max) :
    ∃ row db₁ next retained, db.channels.lookup c = some row ∧
      db.insertChunks codec sizes.sqlite c records row.nextBlockSequence row.retainedMessages =
        .ok (db₁, next, retained) ∧
      let kept := evictOldest codec sizes.sqlite c db₁.messageBlocks.rows.length db₁ retained
      (kept.1.retainMessages c next kept.2).Shows codec (q.append sizes.allowedMessages c new) := by
  obtain ⟨row, hrow⟩ : ∃ row, db.channels.lookup c = some row := by
    rw [← h.channels, KeyTable.mem_keysWhere] at hknown
    cases e : db.channels.lookup c with
    | none => rw [e] at hknown; cases hknown
    | some row => exact ⟨row, rfl⟩
  obtain ⟨db₁, next, retained, hrun, hdb₁, hlists₁, hchannels₁, hpolicy₁⟩ :=
    lists_insertChunks (h.accounted.balanced hrow) h.lists hchannel hnew
  -- the messages of the channel can be counted
  have hsum : ((q.blocks c ++ new).map fun b => b.messageCount).sum ≤ i64Max.toNat := by
    show messagesOf (q.blocks c ++ new) ≤ i64Max.toNat
    omega
  have hlists := lists_evictOldest sizes hdb₁ hlists₁
    (KeyTable.length_queueOf_le db₁.messageBlocks c)
  rw [BlockQueues.withBlocks_withBlocks, BlockQueues.blocks_withBlocks_self,
    trimFront_min hsum] at hlists
  -- deleting the oldest blocks keeps the books, and no policy is set by it
  have hdb₂ := balanced_evictOldest sizes.sqlite db₁.messageBlocks.rows.length hdb₁
  obtain ⟨-, -, -, -, -, hpolicy₂⟩ := evictOldest_contents codec sizes.sqlite c
    db₁.messageBlocks.rows.length db₁ retained
  have hpolicy := h.unrestricted.trans (hpolicy₁.trans hpolicy₂)
  refine ⟨row, db₁, next, retained, hrow, hrun, accounted_retainMessages hdb₂,
    ⟨hpolicy.blocked, hpolicy.cutoffs, hpolicy.journal⟩, ?_, hlists⟩
  rw [keys_retainMessages, channels_evictOldest, hchannels₁, h.channels]
  exact (Finset.insert_eq_of_mem hknown).symm

/-- **Admitted records whose blocks can be encoded** are an append of the new ones among
them. -/
theorem Shows.appendAdmitted (h : db.Shows codec q)
    (hq : q.Valid codec sizes.allowedMessages history) (hagree : CopiesAgree history)
    {new : List (EncodedBlock β)}
    (hmin : minEventAtMs batch = some first) (hmax : maxEventAtMs batch = some last)
    (hchannel : ∀ r ∈ batch, r.channelKey = c) (hbatch : ∀ r ∈ batch, r ∈ history)
    (hknown : c ∈ q.channels)
    (hnew : encodeChunks codec sizes (q.newRecords codec c batch) = .ok new)
    (hmessages : (messagesOf (q.blocks c ++ new) : ℤ) ≤ i64Max) :
    ∃ db', db.appendAdmitted codec sizes.sqlite c batch first last = .ok db' ∧
      db'.Shows codec (q.append sizes.allowedMessages c new) := by
  have hoverlap : ∀ row ∈ db.overlapping c first last, row.Readable codec :=
    fun row hrow => h.readable hq row (mem_overlapping hrow).1
  obtain ⟨blocks, index, hload⟩ := loadRetained_of_readable hoverlap
  obtain ⟨hretained, hfresh⟩ := h.merge hq hagree hmin hmax hchannel hbatch hload
  -- no block is dirty, so none is rewritten
  have hclean : db.rewriteDirty codec sizes.sqlite ((sortByKey eventOrder batch).foldl
      (absorb index) ⟨blocks, IndexedList.empty⟩).retained = .ok db := by
    rw [hretained]
    refine rewriteDirty_of_clean fun block hblock => ?_
    obtain ⟨row, -, -, -, hdirty⟩ := (loadRetained_eq_ok hload).1 block hblock
    exact hdirty
  by_cases hempty : q.newRecords codec c batch = []
  · have hnil : new = [] := by
      rw [hempty] at hnew
      exact (Except.ok.inj hnew).symm
    refine ⟨db, ?_, ?_⟩
    · simp only [Db.appendAdmitted, hload, hclean, hfresh, hempty, bind, Except.bind, pure,
        Except.pure, List.isEmpty_nil, ↓reduceIte]
    · rw [hnil, BlockQueues.append, List.append_nil, trimFront_of_le (hq.sound c).bounded,
        BlockQueues.withBlocks_self hknown]
      exact h
  · have hnot : (q.newRecords codec c batch).isEmpty = false := by
      simpa using hempty
    obtain ⟨row, db₁, next, retained, hrow, hrun, hshows⟩ := h.lay hknown
      (fun r hr => hchannel r (BlockQueues.mem_newRecords hr).1) hnew hmessages
    refine ⟨_, ?_, hshows⟩
    simp only [Db.appendAdmitted, hload, hclean, hfresh, hnot, hrow, hrun, bind, Except.bind,
      pure, Except.pure, Bool.false_eq_true, ↓reduceIte]

end Admitted

/-- **A batch whose blocks can be encoded** is an append of its new records. -/
theorem Shows.append (h : db.Shows codec q) (hq : q.Valid codec sizes.allowedMessages history)
    (hagree : CopiesAgree history) {batch : List CanonicalRecord} {new : List (EncodedBlock β)}
    (hne : batch ≠ []) (hchannel : ∀ r ∈ batch, r.channelKey = c)
    (hbatch : ∀ r ∈ batch, r ∈ history)
    (hnew : encodeChunks codec sizes (q.newRecords codec c batch) = .ok new)
    (hmessages : (messagesOf (q.blocks c ++ new) : ℤ) ≤ i64Max) :
    ∃ db', db.appendBatch codec sizes.sqlite batch = .ok db' ∧
      db'.Shows codec (q.append sizes.allowedMessages c new) := by
  obtain ⟨first, hmin⟩ := exists_minEventAtMs hne
  obtain ⟨last, hmax⟩ := exists_maxEventAtMs hne
  have hown : (q.withBlocks c (q.blocks c)).blocks c = q.blocks c :=
    BlockQueues.blocks_withBlocks_self _
  -- the channel has a row from now on, and no new blocks yet
  have hvalid : (q.withBlocks c (q.blocks c)).Valid codec sizes.allowedMessages history := by
    refine ⟨fun c' => ?_, fun c' hne => ?_⟩
    · rw [BlockQueues.blocks_withBlocks_own]
      exact hq.sound c'
    · rw [BlockQueues.blocks_withBlocks_own] at hne
      exact Finset.mem_insert_of_mem (hq.known c' hne)
  have hfresh : (q.withBlocks c (q.blocks c)).newRecords codec c batch =
      q.newRecords codec c batch := by
    rw [BlockQueues.newRecords, hown]
    rfl
  obtain ⟨db', hrun, hshows⟩ := (h.insertChannel c).appendAdmitted hvalid hagree hmin hmax
    hchannel hbatch (Finset.mem_insert_self _ _) (hfresh ▸ hnew) (hown.symm ▸ hmessages)
  -- the row was there or is new; the queue is the same
  have happend : (q.withBlocks c (q.blocks c)).append sizes.allowedMessages c new =
      q.append sizes.allowedMessages c new := by
    rw [BlockQueues.append, BlockQueues.withBlocks_withBlocks, hown]
    rfl
  rw [happend] at hshows
  refine ⟨db', ?_, hshows⟩
  -- no policy is set, so every record is admitted
  have hblocked : db.blocked c = false := blocked_congr h.unrestricted c
  have hadmitted : db.admitted c batch = batch := by
    have hcutoff : db.purgeCutoff c = none := purgeCutoff_congr h.unrestricted c
    rw [admitted, hcutoff]
  obtain ⟨r, rest, rfl⟩ := List.exists_cons_of_ne_nil hne
  -- the batch is of a single channel
  have hsingle : ((r :: rest).any fun p => p.channelKey ≠ r.channelKey) = false :=
    CanonicalRecord.mixed_eq_false.mpr fun p hp =>
      (hchannel p hp).trans (hchannel r List.mem_cons_self).symm
  rw [Db.appendBatch, hsingle, if_neg Bool.false_ne_true, hchannel r List.mem_cons_self,
    appendTransaction, hblocked, if_neg Bool.false_ne_true]
  simp only [hadmitted, hmin, hmax]
  exact hrun

/-! ### Reads -/

/-- **A query** reads the queue of its channel. -/
theorem Shows.query (h : db.Shows codec q) (hq : q.Valid codec bound history)
    (request : QueryRequest) :
    db.query codec request = request.answer (.ok (q.loaded codec request.channelKey)) := by
  have hload : ((db.blocksOf request.channelKey).mapM fun row =>
      (row.block.decode codec).mapError StoreError.block) =
        .ok (q.loaded codec request.channelKey) := by
    rw [BlockQueues.loaded, ← h.lists request.channelKey, List.map_map]
    refine Except.mapM_of_ok fun row hrow => ?_
    obtain ⟨hrow, -⟩ := mem_blocksOf.mp hrow
    rw [(h.readable hq) row hrow]
    rfl
  rw [Db.query, hload]
  rfl

/-- **The totals** are those of the queues. -/
theorem Shows.storeTotals_eq (h : db.Shows codec q) :
    db.storeTotals = ⟨(q.total fun _ => 1 : ℕ), (q.total fun b => b.messageCount : ℕ),
      (q.total fun b => codec.len b.payload : ℕ), (q.total fun b => b.uncompressedBytes : ℕ)⟩ := by
  have hgroups : ∀ row ∈ db.messageBlocks.rows, row.channelKey ∈ q.channels := by
    intro b hb
    obtain ⟨row, hrow, hkey, -⟩ := h.accounted.tracked b hb
    rw [← h.channels, ← hkey, KeyTable.mem_keysWhere, KeyTable.lookup_of_mem hrow]
    rfl
  have hcolumn : ∀ g : EncodedBlock β → ℕ,
      (db.messageBlocks.total fun row => (g row.block : ℤ)) = (q.total g : ℤ) := by
    intro g
    have hsplit : (db.messageBlocks.total fun row => (g row.block : ℤ)) =
        ∑ c ∈ q.channels, ((db.blocksOf c).map fun row => (g row.block : ℤ)).sum :=
      KeyTable.total_eq_sum_queueOf hgroups
    rw [hsplit, BlockQueues.total_natCast]
    refine Finset.sum_congr rfl fun c _ => ?_
    rw [← h.lists c, List.map_map]
    rfl
  rw [h.accounted.totals, blockTotals, ← hcolumn, ← hcolumn, ← hcolumn, ← hcolumn]
  rfl

/-- **The statistics** are those of the queues, as long as the sums fit an `i64`. -/
theorem Shows.stats (h : db.Shows codec q)
    (hblocks : ((q.total fun _ => 1 : ℕ) : ℤ) ≤ i64Max)
    (hmessages : ((q.total fun b => b.messageCount : ℕ) : ℤ) ≤ i64Max)
    (hcompressed : ((q.total fun b => codec.len b.payload : ℕ) : ℤ) ≤ i64Max)
    (huncompressed : ((q.total fun b => b.uncompressedBytes : ℕ) : ℤ) ≤ i64Max) :
    db.stats = .ok (q.stats codec) := by
  have hchannels : db.channels.rows.length = q.channels.card := by
    rw [← h.channels, KeyTable.card_keysWhere, List.filter_eq_self.mpr fun _ _ => rfl]
  have hread : ∀ n : ℕ, (n : ℤ) ≤ i64Max → readTotal n = .ok (n : ℤ) := fun n hn => if_pos hn
  have htry : ∀ n : ℕ, tryToU64 n = .ok n := fun n => by
    rw [tryToU64_of_nonneg (Int.natCast_nonneg n), Int.toNat_natCast]
  simp only [Db.stats, h.storeTotals_eq, hread _ hblocks, hread _ hmessages, hread _ hcompressed,
    hread _ huncompressed, htry, hchannels, bind, Except.bind, pure, Except.pure,
    BlockQueues.stats]

end Db

end RecentMessages
