/-
RecentMessages/Storage/Agreement.lean

The three stores side by side.

Every call is given to all three.  A call that fails changes nothing in SQLite and in
the segment store; the store in memory keeps what it did before the error.  A call
that meets `Fits` does not fail: the blocks of its new records can be encoded, and
file and totals stay within an `i64`.  As long as all calls do, the three stores show
the same queues of blocks (`Simulated`), so they give the same answers
(`answers_agree`).

`oversized` is a call that does not: behind a small record is one whose block would
take more than 4 GiB.  The store in memory keeps the small record and reports the
error; the other two keep nothing.
-/
import RecentMessages.Library.Runs
import RecentMessages.Storage.Memory
import RecentMessages.Storage.Segment
import RecentMessages.Storage.SqliteQueues

namespace RecentMessages

open CanonicalRecord EncodedBlock

/-- The columns fit an `i64`. -/
def StoreTotals.Fits (t : StoreTotals) : Prop :=
  t.blocks ≤ i64Max ∧ t.messages ≤ i64Max ∧ t.compressedBytes ≤ i64Max ∧
    t.uncompressedBytes ≤ i64Max

instance decidableStoreTotalsFits (t : StoreTotals) : Decidable t.Fits :=
  inferInstanceAs (Decidable (t.blocks ≤ i64Max ∧ t.messages ≤ i64Max ∧
    t.compressedBytes ≤ i64Max ∧ t.uncompressedBytes ≤ i64Max))

/-- The three implementations of `MessageStore`. -/
structure Stores (β : Type) where
  sqlite : Db β
  segment : SegmentState β
  memory : MemoryBlockStore β

namespace Stores

variable {β : Type} (codec : Codec β) (sizes : BlockSizes)

/-- New stores. -/
def new : Stores β := ⟨Db.empty, SegmentState.new, MemoryBlockStore.new⟩

/-- One call of `append_batch`, to each of the stores. -/
def appendBatch (s : Stores β) (batch : List CanonicalRecord) : Stores β where
  sqlite :=
    match s.sqlite.appendBatch codec sizes.sqlite batch with
    | .ok db => db
    | .error _ => s.sqlite
  segment :=
    match s.segment.appendBatch codec sizes batch with
    | .ok state => state
    | .error _ => s.segment
  memory := (s.memory.appendBatch codec sizes batch).1

/-- All stores answer all requests alike, and report the same statistics. -/
structure Agree (s : Stores β) : Prop where
  query_segment : ∀ request, s.segment.query codec request = s.sqlite.query codec request
  query_memory : ∀ request, s.memory.query codec request = s.sqlite.query codec request
  stats_segment : s.segment.stats = s.sqlite.stats
  stats_memory : s.memory.stats codec = s.sqlite.stats

/-- The blocks of the records of a batch that are new to their channel. -/
def newBlocks (s : Stores β) (channelKey : String) (batch : List CanonicalRecord) :
    Except BlockError (List (EncodedBlock β)) :=
  encodeChunks codec sizes
    (retainNew eventKey (s.memory.entry channelKey).seenEventKeys (sortByKey eventOrder batch)).1

/-- The blocks can be encoded, and file and totals stay within an `i64`. -/
def FitsBlocks (s : Stores β) : Except BlockError (List (EncodedBlock β)) → Prop
  | .error _ => False
  | .ok new =>
    ((SegmentState.fileLength codec s.segment.data +
      (new.map fun b => codec.len b.payload).sum : ℕ) : ℤ) ≤ i64Max ∧
    (new.foldl (fun t b => Db.onInsert codec b t) s.sqlite.storeTotals).Fits

/-- The blocks of a batch fit.  Nothing is asked of a batch of several channels, which
every store refuses. -/
def Fits (s : Stores β) : List CanonicalRecord → Prop
  | [] => True
  | first :: rest =>
    (∀ r ∈ first :: rest, r.channelKey = first.channelKey) →
      s.FitsBlocks codec (s.newBlocks codec sizes first.channelKey (first :: rest))

instance decidableFitsBlocks (s : Stores β) :
    ∀ blocks, Decidable (s.FitsBlocks codec blocks)
  | .error _ => inferInstanceAs (Decidable False)
  | .ok new =>
    inferInstanceAs (Decidable (((SegmentState.fileLength codec s.segment.data +
      (new.map fun b => codec.len b.payload).sum : ℕ) : ℤ) ≤ i64Max ∧
      (new.foldl (fun t b => Db.onInsert codec b t) s.sqlite.storeTotals).Fits))

instance decidableFits (s : Stores β) : ∀ batch, Decidable (s.Fits codec sizes batch)
  | [] => inferInstanceAs (Decidable True)
  | first :: rest =>
    inferInstanceAs (Decidable ((∀ r ∈ first :: rest, r.channelKey = first.channelKey) →
      s.FitsBlocks codec (s.newBlocks codec sizes first.channelKey (first :: rest))))

variable {codec} {sizes}

/-! ### What all three stores show -/

/-- All stores show the same queues of records of `history`, and the totals fit. -/
structure Simulated (codec : Codec β) (sizes : BlockSizes) (history : List CanonicalRecord)
    (q : BlockQueues β) (s : Stores β) : Prop where
  valid : q.Valid codec sizes.allowedMessages history
  sqlite : s.sqlite.Shows codec q
  segment : s.segment.Shows codec q
  memory : s.memory.Shows codec q
  fits : s.sqlite.storeTotals.Fits

variable {history : List CanonicalRecord} {q : BlockQueues β} {s : Stores β}

theorem simulated_new : Simulated codec sizes history .empty new where
  valid := BlockQueues.valid_empty
  sqlite := Db.shows_empty
  segment := SegmentState.shows_new
  memory := MemoryBlockStore.shows_new
  fits := by
    show (⟨0, 0, 0, 0⟩ : StoreTotals).Fits
    decide

/-- **Stores of the same queues agree.** -/
theorem Simulated.agree (h : Simulated codec sizes history q s) : s.Agree codec := by
  obtain ⟨hblocks, hmessages, hcompressed, huncompressed⟩ := h.fits
  rw [h.sqlite.storeTotals_eq] at hblocks hmessages hcompressed huncompressed
  have hstats := h.sqlite.stats hblocks hmessages hcompressed huncompressed
  constructor
  case query_segment =>
    intro request
    rw [h.segment.query h.valid, h.sqlite.query h.valid]
  case query_memory =>
    intro request
    rw [h.memory.query h.valid, h.sqlite.query h.valid]
  case stats_segment => rw [h.segment.stats hmessages hcompressed huncompressed, hstats]
  case stats_memory => rw [h.memory.stats, hstats]

/-- The totals after the insertion of blocks. -/
theorem foldl_onInsert (t : StoreTotals) (new : List (EncodedBlock β)) :
    new.foldl (fun t b => Db.onInsert codec b t) t =
      ⟨t.blocks + ((new.map fun _ => 1).sum : ℕ), t.messages + (messagesOf new : ℕ),
        t.compressedBytes + ((new.map fun b => codec.len b.payload).sum : ℕ),
        t.uncompressedBytes + ((new.map fun b => b.uncompressedBytes).sum : ℕ)⟩ := by
  induction new generalizing t with
  | nil => simp [messagesOf]
  | cons b new ih =>
    rw [List.foldl_cons, ih]
    simp only [Db.onInsert, messagesOf, List.map_cons, List.sum_cons, Nat.cast_add, Nat.cast_one,
      add_assoc]

/-- **A batch of one channel** that fits is an append of the queues, in all stores. -/
theorem Simulated.append (hcompress : ∀ level b b', codec.compress level b = .ok b' →
      0 < codec.len b') (h : Simulated codec sizes history q s) (hagree : CopiesAgree history)
    {c : String} {batch : List CanonicalRecord} {new : List (EncodedBlock β)} (hne : batch ≠ [])
    (hchannel : ∀ r ∈ batch, r.channelKey = c) (hbatch : ∀ r ∈ batch, r ∈ history)
    (hnew : s.newBlocks codec sizes c batch = .ok new)
    (hfile : ((SegmentState.fileLength codec s.segment.data +
      (new.map fun b => codec.len b.payload).sum : ℕ) : ℤ) ≤ i64Max)
    (htotals : (new.foldl (fun t b => Db.onInsert codec b t) s.sqlite.storeTotals).Fits) :
    Simulated codec sizes history (q.append sizes.allowedMessages c new)
      (s.appendBatch codec sizes batch) := by
  have hnew : encodeChunks codec sizes (q.newRecords codec c batch) = .ok new := by
    obtain ⟨-, hholds⟩ := h.memory.entry h.valid c
    rw [newBlocks, hholds.seen] at hnew
    exact hnew
  rw [foldl_onInsert, h.sqlite.storeTotals_eq] at htotals
  obtain ⟨hblocks, hmessages, hcompressed, huncompressed⟩ := htotals
  have hheld : (messagesOf (q.blocks c ++ new) : ℤ) ≤ i64Max := by
    have hown := q.sum_blocks_le_total (h.valid.known c) fun b => b.messageCount
    have hsplit := messagesOf_append (q.blocks c) new
    have hsum : messagesOf (q.blocks c) ≤ q.total fun b => b.messageCount := hown
    dsimp only at hmessages
    omega
  obtain ⟨db, hdb, hsqlite⟩ :=
    h.sqlite.append h.valid hagree hne hchannel hbatch hnew hheld
  obtain ⟨state, hstate, hsegment⟩ :=
    h.segment.append hcompress h.valid hne hchannel hnew hfile hheld
  have hmemory := h.memory.append h.valid hne hchannel hnew
  have hrun : s.appendBatch codec sizes batch =
      ⟨db, state, (s.memory.appendBatch codec sizes batch).1⟩ := by
    rw [appendBatch, hdb, hstate]
  -- an append only adds its own blocks, so what fitted before retention fits after it
  have hle : ∀ g, (q.append sizes.allowedMessages c new).total g ≤ q.total g + (new.map g).sum :=
    fun g => BlockQueues.total_append_le (h.valid.known c) g new
  rw [hrun]
  refine ⟨h.valid.append hchannel hbatch hnew, hsqlite, hsegment, hmemory, ?_⟩
  rw [hsqlite.storeTotals_eq]
  have hb := hle fun _ => 1
  have hm := hle fun b => b.messageCount
  have hc := hle fun b => codec.len b.payload
  have hu := hle fun b => b.uncompressedBytes
  dsimp only [messagesOf] at hblocks hmessages hcompressed huncompressed
  refine ⟨?_, ?_, ?_, ?_⟩ <;> dsimp only <;> omega

/-- A batch of several channels changes nothing. -/
theorem appendBatch_mixed {first : CanonicalRecord} {rest : List CanonicalRecord}
    (h : ¬∀ r ∈ first :: rest, r.channelKey = first.channelKey) :
    s.appendBatch codec sizes (first :: rest) = s := by
  have hmixed : ((first :: rest).any fun r => r.channelKey ≠ first.channelKey) = true :=
    CanonicalRecord.mixed_eq_true.mpr h
  have hsqlite : s.sqlite.appendBatch codec sizes.sqlite (first :: rest) =
      .error .mixedChannelBatch := by
    rw [Db.appendBatch, if_pos hmixed]
  have hsegment : s.segment.appendBatch codec sizes (first :: rest) =
      .error .mixedChannelBatch := by
    have hany : [first :: rest].any SegmentState.mixedChannels = true := by
      rw [List.any_cons, SegmentState.mixedChannels, hmixed, Bool.true_or]
    rw [SegmentState.appendBatch, SegmentState.appendChannelBatches, if_pos hany]
  have hmemory : s.memory.appendBatch codec sizes (first :: rest) =
      (s.memory, .error .mixedChannelBatch) := by
    rw [MemoryBlockStore.appendBatch, if_pos hmixed]
  rw [appendBatch, hsqlite, hsegment, hmemory]

/-- **A batch that fits** keeps the three stores together. -/
theorem Simulated.step (hcompress : ∀ level b b', codec.compress level b = .ok b' →
      0 < codec.len b') (h : Simulated codec sizes history q s) (hagree : CopiesAgree history)
    {batch : List CanonicalRecord} (hbatch : ∀ r ∈ batch, r ∈ history)
    (hfits : s.Fits codec sizes batch) :
    ∃ q', Simulated codec sizes history q' (s.appendBatch codec sizes batch) := by
  cases batch with
  | nil => exact ⟨q, h⟩
  | cons first rest =>
    by_cases hchannel : ∀ r ∈ first :: rest, r.channelKey = first.channelKey
    · have hblocks := hfits hchannel
      rcases hnew : s.newBlocks codec sizes first.channelKey (first :: rest) with e | new
      · rw [hnew] at hblocks
        exact hblocks.elim
      · rw [hnew] at hblocks
        obtain ⟨hfile, htotals⟩ := hblocks
        exact ⟨_, h.append hcompress hagree (List.cons_ne_nil _ _) hchannel hbatch hnew hfile
          htotals⟩
    · rw [appendBatch_mixed hchannel]
      exact ⟨q, h⟩

/-- **The three stores give the same answers** throughout a run whose calls fit. -/
theorem answers_agree (hcompress : ∀ level b b', codec.compress level b = .ok b' →
      0 < codec.len b') (sizes : BlockSizes) {calls : List (List CanonicalRecord)}
    (hagree : CopiesAgree calls.flatten)
    (hfits : Along (appendBatch codec sizes) (Fits codec sizes) new calls) :
    Throughout (appendBatch codec sizes) (Agree codec) new calls := by
  have hstep : ∀ s batch, (∃ q, Simulated codec sizes calls.flatten q s) → s.Agree codec →
      batch ∈ calls ∧ s.Fits codec sizes batch →
      (∃ q, Simulated codec sizes calls.flatten q (s.appendBatch codec sizes batch)) ∧
        (s.appendBatch codec sizes batch).Agree codec := by
    rintro s batch ⟨q, h⟩ - ⟨hmem, hbatch⟩
    obtain ⟨q', h'⟩ := h.step hcompress hagree
      (fun r hr => List.mem_flatten_of_mem hmem hr) hbatch
    exact ⟨⟨q', h'⟩, h'.agree⟩
  have hnew : Simulated codec sizes calls.flatten .empty new := simulated_new
  exact throughout_of_along hstep ⟨_, hnew⟩ hnew.agree hfits.with_mem

/-- Blocks of one message, and two messages for a channel. -/
def singleBlocks : BlockSizes := ⟨1, 2, Nat.one_pos, Nat.two_pos⟩

/-- The third message pushes the first one out, which then comes again. -/
def returningMessage : List (List CanonicalRecord) :=
  [[messageAt "quiet" 2, messageAt "quiet" 1], [messageAt "busy" 1],
    [messageAt "quiet" 3, messageAt "quiet" 2], [messageAt "quiet" 1]]

theorem answers_agree_sample :
    Throughout (appendBatch Plain.codec singleBlocks) (Agree Plain.codec) new returningMessage :=
  answers_agree (fun _ _ _ h => by cases h; exact Nat.succ_pos _) singleBlocks
    (by decide +kernel) (by decide +kernel)

/-! ### A block that is too large -/

/-- The bytes of the messages, and one for every layer. -/
def rawBytes : Plain → ℕ
  | .records l => (l.map fun r => r.rawIrc.length).sum
  | .journal _ l => (l.map fun r => r.rawIrc.length).sum + 1
  | .compressed _ b => rawBytes b + 1

/-- The codec that shows what it encodes, with the sizes of the messages. -/
def sizedCodec : Codec Plain := { Plain.codec with len := rawBytes }

/-- The second message of a channel, of these bytes. -/
def large (raw : List UInt8) : CanonicalRecord := { messageAt "quiet" 2 with rawIrc := raw }

/-- A small message, and a large one behind it. -/
def smallAndLarge (raw : List UInt8) : List CanonicalRecord := [messageAt "quiet" 1, large raw]

theorem copiesAgree_smallAndLarge (raw : List UInt8) : CopiesAgree (smallAndLarge raw) := by
  simp [CopiesAgree, smallAndLarge, large, messageAt]

theorem sortByKey_smallAndLarge (raw : List UInt8) :
    sortByKey eventOrder (smallAndLarge raw) = smallAndLarge raw := by
  simp [sortByKey, smallAndLarge, large, eventOrder, messageAt, Prod.Lex.le_iff]

theorem chunks_smallAndLarge (raw : List UInt8) :
    chunks singleBlocks.blockMessages (smallAndLarge raw) = [[messageAt "quiet" 1], [large raw]] :=
  rfl

/-- The block of the large message cannot be encoded. -/
theorem encode_large {raw : List UInt8} (h : 2 ^ 32 ≤ raw.length) :
    ∃ e, EncodedBlock.encode sizedCodec [large raw] storeCompressionLevel = .error e := by
  rcases e : EncodedBlock.encode sizedCodec [large raw] storeCompressionLevel with error | b
  · exact ⟨error, rfl⟩
  · obtain ⟨uncompressed, hpack, -, hlen, -⟩ := EncodedBlock.encode_eq_ok e
    have hbytes := (EncodedBlock.counts_lt_of_encode e).2
    cases hpack
    have hraw : raw.length + 0 = b.uncompressedBytes := hlen
    omega

/-- The store in memory keeps the small message. -/
theorem memory_small {raw : List UInt8} (h : 2 ^ 32 ≤ raw.length) :
    (new.memory.appendBatch sizedCodec singleBlocks (smallAndLarge raw)).1.stats sizedCodec =
      .ok ⟨1, 1, 1, 5, 4⟩ := by
  obtain ⟨e, hlarge⟩ := encode_large h
  have hsmall : ∃ b, EncodedBlock.encode sizedCodec [messageAt "quiet" 1] storeCompressionLevel =
      .ok b ∧ sizedCodec.len b.payload = 5 ∧ b.uncompressedBytes = 4 := ⟨_, rfl, rfl, rfl⟩
  obtain ⟨b, hb, hlen, hbytes⟩ := hsmall
  have hpush : ∀ channel : ChannelBlocks Plain,
      ChannelBlocks.pushChunks sizedCodec [[messageAt "quiet" 1], [large raw]] channel =
        ({ channel with
            blocks := channel.blocks ++ [b]
            messageCount := channel.messageCount + 1 }, .error (.block e)) := by
    intro channel
    simp only [ChannelBlocks.pushChunks, hb, hlarge, List.length_singleton]
  let seen := (retainNew eventKey ∅ (smallAndLarge raw)).2
  have hrun : (ChannelBlocks.default "quiet").appendRecords sizedCodec singleBlocks
      (smallAndLarge raw) = (⟨"quiet", [b], seen, 1⟩, .error (.block e)) := by
    have hnew : retainNew eventKey (ChannelBlocks.default "quiet" : ChannelBlocks Plain).seenEventKeys
        (smallAndLarge raw) = (smallAndLarge raw, seen) := rfl
    simp only [ChannelBlocks.appendRecords, sortByKey_smallAndLarge, hnew, chunks_smallAndLarge,
      hpush]
    rfl
  have hcall : (new.memory.appendBatch sizedCodec singleBlocks (smallAndLarge raw)).1 =
      ⟨KeyTable.empty.put ⟨"quiet", [b], seen, 1⟩⟩ := by
    show (⟨KeyTable.empty.put ((ChannelBlocks.default "quiet").appendRecords sizedCodec
      singleBlocks (smallAndLarge raw)).1⟩ : MemoryBlockStore Plain) = _
    rw [hrun]
  rw [hcall]
  show Except.ok (StoreStats.mk 1 1 1 (sizedCodec.len b.payload + 0) (b.uncompressedBytes + 0)) = _
  rw [hlen, hbytes]

/-- The store in SQLite keeps nothing. -/
theorem sqlite_small {raw : List UInt8} (h : 2 ^ 32 ≤ raw.length) :
    ∃ e, new.sqlite.appendBatch sizedCodec singleBlocks.sqlite (smallAndLarge raw) = .error e := by
  obtain ⟨e, hlarge⟩ := encode_large h
  have hstart : new.sqlite.appendBatch sizedCodec singleBlocks.sqlite (smallAndLarge raw) =
      (Db.empty.insertChannel "quiet").appendAdmitted sizedCodec singleBlocks.sqlite "quiet"
        (smallAndLarge raw) 1 2 := rfl
  -- there is nothing to merge with
  have hload : Db.loadRetained sizedCodec
      ((Db.empty.insertChannel "quiet").overlapping "quiet" 1 2) = .ok ([], fun _ => none) := rfl
  have hmerged : ((smallAndLarge raw).foldl (absorb fun _ => none)
      ⟨[], IndexedList.empty⟩).newRecords.items = smallAndLarge raw := rfl
  have hclean : ((smallAndLarge raw).foldl (absorb fun _ => none)
      ⟨[], IndexedList.empty⟩).retained = [] := rfl
  have hrow : ((Db.empty : Db Plain).insertChannel "quiet").channels.lookup "quiet" =
      some ⟨"quiet", 0, 0, 0⟩ := rfl
  -- the first block is inserted, the second one cannot be encoded, and all is rolled back
  have hrun : ((Db.empty : Db Plain).insertChannel "quiet").insertChunks sizedCodec
      singleBlocks.sqlite "quiet" (smallAndLarge raw) 0 0 = .error (.block e) := by
    obtain ⟨b, hb⟩ : ∃ b, EncodedBlock.encode sizedCodec [messageAt "quiet" 1]
      storeCompressionLevel = .ok b := ⟨_, rfl⟩
    obtain ⟨db, hdb⟩ : ∃ db, ((Db.empty : Db Plain).insertChannel "quiet").insertBlock sizedCodec
      "quiet" 0 b = .ok db := ⟨_, rfl⟩
    have hchunks : chunks singleBlocks.sqlite.blockMessages (smallAndLarge raw) =
      [[messageAt "quiet" 1], [large raw]] := rfl
    have hlevel : singleBlocks.sqlite.compressionLevel = storeCompressionLevel := rfl
    rw [Db.insertChunks, hchunks]
    simp only [List.foldlM_cons, hlevel, hb, hdb, hlarge, Except.mapError, bind, Except.bind, pure,
      Except.pure]
  refine ⟨.block e, ?_⟩
  rw [hstart]
  simp only [Db.appendAdmitted, hload, bind, Except.bind, sortByKey_smallAndLarge, hmerged, hclean,
    Db.rewriteDirty, List.foldlM_nil, pure, Except.pure, hrow, hrun]
  rfl

/-- A large message behind a small one drives the stores apart. -/
theorem large_disagrees {raw : List UInt8} (h : 2 ^ 32 ≤ raw.length) :
    ¬Throughout (appendBatch sizedCodec singleBlocks) (Agree sizedCodec) new
      [smallAndLarge raw] := by
  intro hrun
  have hmemory := hrun.last.stats_memory
  rw [List.foldl_cons, List.foldl_nil] at hmemory
  obtain ⟨e, hsqlite⟩ := sqlite_small h
  have hrolled : (new.appendBatch sizedCodec singleBlocks (smallAndLarge raw)).sqlite =
      Db.empty := by
    rw [appendBatch, hsqlite]
    rfl
  have hkept := (memory_small h).symm.trans (hmemory.trans (congrArg Db.stats hrolled))
  cases hkept

/-- One call, with a message of 4 GiB in it. -/
def oversized : List (List CanonicalRecord) := [smallAndLarge (List.replicate (2 ^ 32) 0)]

/-- After it the store in memory has a message that the store in SQLite does not have. -/
theorem oversized_disagrees : CopiesAgree oversized.flatten ∧
    ¬Throughout (appendBatch sizedCodec singleBlocks) (Agree sizedCodec) new oversized := by
  constructor
  · rw [oversized, List.flatten_singleton]
    exact copiesAgree_smallAndLarge _
  · exact large_disagrees List.length_replicate.ge

end Stores

end RecentMessages
