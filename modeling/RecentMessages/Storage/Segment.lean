/-
RecentMessages/Storage/Segment.lean

The store that keeps its payloads in a file and an index of them in SQLite
(`storage/segment.rs`).

Payloads are only ever appended to the file, one in a piece, and a row of
`segment_blocks` says where its payload is.  So the file is modelled as the list of
the payloads that were written, and a read finds the piece that starts at its offset
and has its length.  An evicted block loses its row; its payload stays.

A batch is one transaction.  When it fails, the index is rolled back and the file is
cut to its old length, so the state is the one before the call.

`Shows` says which queues of blocks a store is.  An append keeps it as long as the
blocks can be encoded and the file does not outgrow an `i64` (`Shows.append`), if no
compressed payload is empty: an empty one could not be told from its neighbours.
-/
import RecentMessages.Storage.MessageStore

namespace RecentMessages

open CanonicalRecord EncodedBlock

/-- A row of `channels`. -/
structure SegmentChannel where
  channelKey : String
  nextBlockSequence : ℤ
  retainedMessages : ℤ
  deriving DecidableEq, Repr

/-- `SET next_block_sequence, retained_messages`. -/
def SegmentChannel.retain (nextSequence retained : ℤ) (row : SegmentChannel) : SegmentChannel :=
  { row with nextBlockSequence := nextSequence, retainedMessages := retained }

theorem SegmentChannel.channelKey_retain (nextSequence retained : ℤ) (row : SegmentChannel) :
    (row.retain nextSequence retained).channelKey = row.channelKey := rfl

/-- A row of `segment_blocks`. -/
structure SegmentBlock where
  id : ℤ
  channelKey : String
  blockSequence : ℤ
  formatVersion : ℤ
  firstEventAtMs : ℤ
  lastEventAtMs : ℤ
  messageCount : ℤ
  uncompressedBytes : ℤ
  checksum : Digest
  fileOffset : ℤ
  payloadBytes : ℤ
  deriving DecidableEq, Repr

/-- The file and the tables of the index. -/
structure SegmentState (β : Type) where
  data : List β
  channels : KeyTable SegmentChannel.channelKey
  segmentBlocks : KeyTable SegmentBlock.id

/-- `try_from` on a signed value, to an unsigned type of a number of bits. -/
def tryToUnsigned (bits : ℕ) (x : ℤ) : Except StoreError ℕ :=
  if 0 ≤ x ∧ x < 2 ^ bits then .ok x.toNat
  else .error (.backend "out of range integral type conversion attempted")

theorem tryToUnsigned_natCast {bits n : ℕ} (h : n < 2 ^ bits) :
    tryToUnsigned bits n = .ok n := by
  rw [tryToUnsigned, if_pos ⟨Int.natCast_nonneg n, by exact_mod_cast h⟩, Int.toNat_natCast]

namespace SegmentState

variable {β : Type} (codec : Codec β) (sizes : BlockSizes)

/-- A store whose file and index are new. -/
def new : SegmentState β := ⟨[], KeyTable.empty, KeyTable.empty⟩

/-! ### The file -/

/-- `seek(SeekFrom::End(0))`. -/
def fileLength (data : List β) : ℕ := (data.map codec.len).sum

/-- `seek(SeekFrom::Start(offset))`, then `read_exact` of `n` bytes. -/
def readExact : List β → ℕ → ℕ → Except StoreError β
  | [], _, _ => .error (.backend "failed to fill whole buffer")
  | payload :: rest, offset, n =>
    if offset = 0 ∧ codec.len payload = n then
      .ok payload
    else if codec.len payload ≤ offset then
      readExact rest (offset - codec.len payload) n
    else
      -- no row describes a part of a payload
      .error (.backend "failed to fill whole buffer")

/-- `read_block`. -/
def readBlock (data : List β) (channel : String) (d : SegmentBlock) :
    Except StoreError (EncodedBlock β) := do
  let payloadBytes ← tryToUnsigned 64 d.payloadBytes
  let fileOffset ← tryToUnsigned 64 d.fileOffset
  let payload ← readExact codec data fileOffset payloadBytes
  let formatVersion ← tryToUnsigned 16 d.formatVersion
  let messageCount ← tryToUnsigned 32 d.messageCount
  let uncompressedBytes ← tryToUnsigned 32 d.uncompressedBytes
  return {
    formatVersion
    channelKey := channel
    firstEventAtMs := d.firstEventAtMs
    lastEventAtMs := d.lastEventAtMs
    messageCount
    uncompressedBytes
    checksum := d.checksum
    payload }

/-! ### Appends -/

/-- The blocks of a channel, `ORDER BY block_sequence`. -/
def blocksOf (state : SegmentState β) (channel : String) : List SegmentBlock :=
  KeyTable.queueOf SegmentBlock.channelKey SegmentBlock.blockSequence state.segmentBlocks channel

/-- `load_channel_blocks`. -/
def loadChannelBlocks (state : SegmentState β) (channel : String) :
    Except StoreError (List (EncodedBlock β)) :=
  (state.blocksOf channel).mapM (readBlock codec state.data channel)

/-- Decode blocks that were read. -/
def decodeBlocks (blocks : List (EncodedBlock β)) :
    Except StoreError (List (List CanonicalRecord)) :=
  blocks.mapM fun block => (block.decode codec).mapError .block

/-- `INSERT OR IGNORE INTO channels(channel_key)`. -/
def insertChannel (state : SegmentState β) (channelKey : String) : SegmentState β :=
  { state with channels := state.channels.insertIgnore ⟨channelKey, 0, 0⟩ }

/-- The row of a block whose payload is written at the end of the file. -/
def rowOf (state : SegmentState β) (channelKey : String) (sequence : ℤ)
    (block : EncodedBlock β) : SegmentBlock where
  id := state.segmentBlocks.nextKey
  channelKey
  blockSequence := sequence
  formatVersion := block.formatVersion
  firstEventAtMs := block.firstEventAtMs
  lastEventAtMs := block.lastEventAtMs
  messageCount := block.messageCount
  uncompressedBytes := block.uncompressedBytes
  checksum := block.checksum
  fileOffset := fileLength codec state.data
  payloadBytes := codec.len block.payload

/-- Write a payload and `INSERT INTO segment_blocks`, which is `UNIQUE` in channel and
sequence. -/
def insertBlock (state : SegmentState β) (channelKey : String) (sequence : ℤ)
    (block : EncodedBlock β) : Except StoreError (SegmentState β) := do
  let _ ← tryFromU64 (fileLength codec state.data)
  let _ ← tryFromU64 (codec.len block.payload)
  if state.segmentBlocks.rows.any fun row =>
      row.channelKey = channelKey && row.blockSequence = sequence then
    .error (.backend
      "UNIQUE constraint failed: segment_blocks.channel_key, segment_blocks.block_sequence")
  else
    return { state with
      data := state.data ++ [block.payload]
      segmentBlocks :=
        state.segmentBlocks.insertIgnore (state.rowOf codec channelKey sequence block) }

/-- Cut the new records into blocks; the result carries `sequence` and `retained`. -/
def insertChunks (state : SegmentState β) (channelKey : String) (records : List CanonicalRecord)
    (sequence retained : ℤ) : Except StoreError (SegmentState β × ℤ × ℤ) :=
  (chunks sizes.blockMessages records).foldlM
    (fun (state, sequence, retained) chunk => do
      let block ← (EncodedBlock.encode codec chunk storeCompressionLevel).mapError .block
      let state ← state.insertBlock codec channelKey sequence block
      return (state, sequence + 1, retained + block.messageCount))
    (state, sequence, retained)

/-- `i64::try_from(allowed_messages).unwrap_or(i64::MAX)`. -/
def allowed : ℤ := min sizes.allowedMessages i64Max

/-- Delete the oldest rows of a channel while it holds more than `allowed`.  Every
round deletes a row. -/
def evictOldest (channelKey : String) : ℕ → SegmentState β → ℤ → SegmentState β × ℤ
  | 0, state, retained => (state, retained)
  | rounds + 1, state, retained =>
    if allowed sizes < retained then
      match state.blocksOf channelKey with
      | [] => (state, retained)
      | oldest :: _ =>
        -- `saturating_sub` on two counts that an `i64` holds
        evictOldest channelKey rounds
          { state with segmentBlocks := state.segmentBlocks.erase oldest.id }
          (retained - oldest.messageCount)
    else
      (state, retained)

/-- `UPDATE channels SET next_block_sequence, retained_messages`. -/
def retainMessages (state : SegmentState β) (channelKey : String) (sequence retained : ℤ) :
    SegmentState β :=
  { state with
    channels := state.channels.modify channelKey (SegmentChannel.retain sequence retained)
      (SegmentChannel.channelKey_retain sequence retained) }

/-- `append_transaction`. -/
def appendTransaction (state : SegmentState β) (channelKey : String)
    (batch : List CanonicalRecord) : Except StoreError (SegmentState β) := do
  let state := state.insertChannel channelKey
  let blocks ← state.loadChannelBlocks codec channelKey
  let decoded ← decodeBlocks codec blocks
  let retainedKeys := (decoded.flatten.map eventKey).toFinset
  let records := (retainNew eventKey retainedKeys (sortByKey eventOrder batch)).1
  if records.isEmpty then
    return state
  else
    match state.channels.lookup channelKey with
    | none => .error (.backend "Query returned no rows")
    | some row =>
      let (state, sequence, retained) ← state.insertChunks codec sizes channelKey records
        row.nextBlockSequence row.retainedMessages
      let (state, retained) := evictOldest sizes channelKey state.segmentBlocks.rows.length state
        retained
      return state.retainMessages channelKey sequence retained

/-- The check of every batch, before anything is written. -/
def mixedChannels (batch : List CanonicalRecord) : Bool :=
  match batch with
  | [] => false
  | first :: _ => batch.any fun r => r.channelKey ≠ first.channelKey

/-- `append_channel_batches`. -/
def appendChannelBatches (state : SegmentState β) (batches : List (List CanonicalRecord)) :
    Except StoreError (SegmentState β) :=
  if batches.any mixedChannels then
    .error .mixedChannelBatch
  else
    batches.foldlM
      (fun state batch =>
        match batch with
        | [] => .ok state
        | first :: _ => state.appendTransaction codec sizes first.channelKey batch)
      state

/-- `append_batch`. -/
def appendBatch (state : SegmentState β) (batch : List CanonicalRecord) :
    Except StoreError (SegmentState β) :=
  state.appendChannelBatches codec sizes [batch]

/-! ### Reads -/

/-- `query`. -/
def query (state : SegmentState β) (request : QueryRequest) : Except StoreError LocalResult :=
  request.answer <| (state.blocksOf request.channelKey).mapM fun descriptor => do
    let block ← readBlock codec state.data request.channelKey descriptor
    (block.decode codec).mapError .block

/-- `stats`. -/
def stats (state : SegmentState β) : Except StoreError StoreStats := do
  let rows := state.segmentBlocks.rows
  let messages ← sqlSum (rows.map (·.messageCount))
  let compressedBytes ← sqlSum (rows.map (·.payloadBytes))
  let uncompressedBytes ← sqlSum (rows.map (·.uncompressedBytes))
  return {
    channels := state.channels.rows.length
    blocks := rows.length
    messages := ← tryToU64 messages
    compressedBytes := ← tryToU64 compressedBytes
    uncompressedBytes := ← tryToU64 uncompressedBytes }

variable {codec} {sizes} {data more : List β} {channel c : String} {d : SegmentBlock}
  {b : EncodedBlock β}

/-! ### Reading what was written -/

/-- What is in the file stays where it is. -/
theorem readExact_append {offset n : ℕ} {payload : β}
    (h : readExact codec data offset n = .ok payload) :
    readExact codec (data ++ more) offset n = .ok payload := by
  induction data generalizing offset with
  | nil => cases h
  | cons p data ih =>
    rw [List.cons_append]
    unfold readExact at h ⊢
    split
    · -- the payload begins here
      rename_i hhere
      rwa [if_pos hhere] at h
    · rename_i hhere
      rw [if_neg hhere] at h
      split
      · -- it lies behind this payload
        rename_i hbehind
        rw [if_pos hbehind] at h
        exact ih h
      · rename_i hbehind
        rw [if_neg hbehind] at h
        cases h

/-- **The payload at the end** is found there, if it is not empty. -/
theorem readExact_end (data : List β) {payload : β} (h : 0 < codec.len payload) :
    readExact codec (data ++ [payload]) (fileLength codec data) (codec.len payload) =
      .ok payload := by
  induction data with
  | nil => exact if_pos ⟨rfl, rfl⟩
  | cons p data ih =>
    have hlength : fileLength codec (p :: data) = codec.len p + fileLength codec data := rfl
    rw [List.cons_append, readExact, if_neg, if_pos, hlength, Nat.add_sub_cancel_left]
    · exact ih
    · exact hlength ▸ Nat.le_add_right _ _
    · rintro ⟨hzero, hlen⟩
      omega

theorem len_of_readExact {offset n : ℕ} {payload : β}
    (h : readExact codec data offset n = .ok payload) : codec.len payload = n := by
  induction data generalizing offset with
  | nil => cases h
  | cons p data ih =>
    unfold readExact at h
    split at h
    · rename_i hhere
      rw [← Except.ok.inj h]
      exact hhere.2
    · split at h
      · exact ih h
      · cases h

/-- The steps of a successful read. -/
theorem readBlock_eq_ok : readBlock codec data channel d = .ok b ↔
    ∃ n offset payload version count bytes, tryToUnsigned 64 d.payloadBytes = .ok n ∧
      tryToUnsigned 64 d.fileOffset = .ok offset ∧
      readExact codec data offset n = .ok payload ∧
      tryToUnsigned 16 d.formatVersion = .ok version ∧
      tryToUnsigned 32 d.messageCount = .ok count ∧
      tryToUnsigned 32 d.uncompressedBytes = .ok bytes ∧
      ⟨version, channel, d.firstEventAtMs, d.lastEventAtMs, count, bytes, d.checksum, payload⟩ =
        b := by
  simp only [readBlock, Except.bind_eq_ok, pure, Except.pure, Except.ok.injEq, exists_and_left]

theorem tryToUnsigned_eq_ok {bits n : ℕ} {x : ℤ} (h : tryToUnsigned bits x = .ok n) :
    (n : ℤ) = x := by
  unfold tryToUnsigned at h
  split at h
  · rename_i hx
    rw [← Except.ok.inj h]
    exact Int.toNat_of_nonneg hx.1
  · cases h

/-- A row that can be read counts what its block does. -/
theorem columns_of_readBlock (h : readBlock codec data channel d = .ok b) :
    (b.messageCount : ℤ) = d.messageCount ∧ (b.uncompressedBytes : ℤ) = d.uncompressedBytes ∧
      (codec.len b.payload : ℤ) = d.payloadBytes := by
  obtain ⟨n, offset, payload, version, count, bytes, hn, -, hread, -, hcount, hbytes, rfl⟩ :=
    readBlock_eq_ok.mp h
  refine ⟨tryToUnsigned_eq_ok hcount, tryToUnsigned_eq_ok hbytes, ?_⟩
  show (codec.len payload : ℤ) = d.payloadBytes
  rw [len_of_readExact hread]
  exact tryToUnsigned_eq_ok hn

theorem readBlock_append (more : List β) (h : readBlock codec data channel d = .ok b) :
    readBlock codec (data ++ more) channel d = .ok b := by
  obtain ⟨n, offset, payload, version, count, bytes, hn, hoffset, hread, hversion, hcount, hbytes,
    rfl⟩ := readBlock_eq_ok.mp h
  exact readBlock_eq_ok.mpr ⟨n, offset, payload, version, count, bytes, hn, hoffset,
    readExact_append hread, hversion, hcount, hbytes, rfl⟩

/-- A block that the columns of its row can hold. -/
structure Storable (codec : Codec β) (c : String) (b : EncodedBlock β) : Prop where
  channel : b.channelKey = c
  version : b.formatVersion < 2 ^ 16
  count : b.messageCount < 2 ^ 32
  bytes : b.uncompressedBytes < 2 ^ 32
  payload : 0 < codec.len b.payload

/-- Encoded blocks are storable, as no compressed payload is empty. -/
theorem storable_of_encode (hcompress : ∀ level b b', codec.compress level b = .ok b' →
    0 < codec.len b') {level : ℤ} {records : List CanonicalRecord}
    (hchannel : ∀ r ∈ records, r.channelKey = c)
    (h : EncodedBlock.encode codec records level = .ok b) : Storable codec c b := by
  obtain ⟨uncompressed, -, hpayload, -, hversion, -⟩ := EncodedBlock.encode_eq_ok h
  obtain ⟨hcount, hbytes⟩ := EncodedBlock.counts_lt_of_encode h
  refine ⟨channel_of_encode hchannel h, ?_, hcount, hbytes, hcompress _ _ _ hpayload⟩
  rw [hversion, blockFormatVersion]
  omega

variable {state : SegmentState β}

/-- **A block that is written can be read**, from its row. -/
theorem readBlock_rowOf (hb : Storable codec c b)
    (hfile : ((fileLength codec state.data + codec.len b.payload : ℕ) : ℤ) ≤ i64Max) (next : ℤ) :
    readBlock codec (state.data ++ [b.payload]) c (state.rowOf codec c next b) = .ok b := by
  have hmax : (i64Max : ℤ) = 2 ^ 63 - 1 := rfl
  refine readBlock_eq_ok.mpr ⟨codec.len b.payload, fileLength codec state.data, b.payload,
    b.formatVersion, b.messageCount, b.uncompressedBytes, tryToUnsigned_natCast (by omega),
    tryToUnsigned_natCast (by omega), readExact_end state.data hb.payload,
    tryToUnsigned_natCast hb.version, tryToUnsigned_natCast hb.count,
    tryToUnsigned_natCast hb.bytes, ?_⟩
  rw [← hb.channel]
  rfl

/-! ### The rows of a channel -/

/-- The rows of a channel have distinct sequences. -/
def Spaced (state : SegmentState β) : Prop :=
  KeyTable.Spaced SegmentBlock.channelKey SegmentBlock.blockSequence state.segmentBlocks

/-- The messages that a list of rows counts. -/
def countOf (rows : List SegmentBlock) : ℤ := (rows.map (·.messageCount)).sum

theorem mem_blocksOf : d ∈ state.blocksOf c ↔
    d ∈ state.segmentBlocks.rows ∧ d.channelKey = c :=
  KeyTable.mem_queueOf

theorem sum_toNat {rows : List SegmentBlock} (h : ∀ d ∈ rows, 0 ≤ d.messageCount) :
    (((rows.map fun d => d.messageCount.toNat).sum : ℕ) : ℤ) = countOf rows := by
  induction rows with
  | nil => rfl
  | cons d rows ih =>
    have hd := h d List.mem_cons_self
    have hrest := ih fun d' hd' => h d' (List.mem_cons_of_mem d hd')
    rw [countOf] at hrest ⊢
    rw [List.map_cons, List.sum_cons, List.map_cons, List.sum_cons]
    omega

/-- **A row that comes last** is put behind those of its channel. -/
theorem blocksOf_insertRow (codec : Codec β) (b : EncodedBlock β) {next : ℤ}
    (hspaced : state.Spaced) (hlast : ∀ d ∈ state.blocksOf c, d.blockSequence < next) (data : List β) :
    SegmentState.Spaced { state with
        data
        segmentBlocks := state.segmentBlocks.insertIgnore (state.rowOf codec c next b) } ∧
      SegmentState.blocksOf { state with
        data
        segmentBlocks := state.segmentBlocks.insertIgnore (state.rowOf codec c next b) } c =
          state.blocksOf c ++ [state.rowOf codec c next b] ∧
      ∀ c', c' ≠ c → SegmentState.blocksOf { state with
        data
        segmentBlocks := state.segmentBlocks.insertIgnore (state.rowOf codec c next b) } c' =
          state.blocksOf c' := by
  have hlast : ∀ d ∈ state.segmentBlocks.rows,
      d.channelKey = (state.rowOf codec c next b).channelKey →
        d.blockSequence < (state.rowOf codec c next b).blockSequence :=
    fun d hd hc => hlast d (mem_blocksOf.mpr ⟨hd, hc⟩)
  exact ⟨KeyTable.spaced_insertIgnore hspaced hlast,
    KeyTable.queueOf_insertIgnore hspaced (KeyTable.lookup_nextKey state.segmentBlocks) hlast,
    fun c' hc => KeyTable.queueOf_insertIgnore_ne (Ne.symm hc)⟩

/-- **Deleting the oldest row** takes it off its queue. -/
theorem blocksOf_erase (hspaced : state.Spaced) {oldest : SegmentBlock} {rest : List SegmentBlock}
    (hqueue : state.blocksOf c = oldest :: rest) :
    SegmentState.Spaced
        { state with segmentBlocks := state.segmentBlocks.erase oldest.id } ∧
      SegmentState.blocksOf
        { state with segmentBlocks := state.segmentBlocks.erase oldest.id } c = rest ∧
      ∀ c', c' ≠ c → SegmentState.blocksOf
        { state with segmentBlocks := state.segmentBlocks.erase oldest.id } c' =
          state.blocksOf c' := by
  obtain ⟨hmem, hc⟩ := mem_blocksOf.mp (hqueue ▸ List.mem_cons_self)
  exact ⟨KeyTable.spaced_erase hspaced, KeyTable.queueOf_erase hspaced hqueue,
    fun c' hne => KeyTable.queueOf_erase_ne hmem (hc ▸ Ne.symm hne)⟩

theorem allowed_nonneg (sizes : BlockSizes) : 0 ≤ allowed sizes :=
  le_min (Int.natCast_nonneg _) (by decide)

/-- What retention does to the rows of channel `c`. -/
structure Evicted (sizes : BlockSizes) (c : String) (state : SegmentState β)
    (out : SegmentState β × ℤ) : Prop where
  spaced : out.1.Spaced
  own : out.1.blocksOf c =
    trimFront (fun d => d.messageCount.toNat) (allowed sizes).toNat (state.blocksOf c)
  others : ∀ c', c' ≠ c → out.1.blocksOf c' = state.blocksOf c'
  retained : out.2 = countOf (out.1.blocksOf c)
  channels : out.1.channels = state.channels
  data : out.1.data = state.data

/-- **Retention** trims the rows of the channel. -/
theorem evicted_evictOldest (sizes : BlockSizes) (hspaced : state.Spaced) {retained : ℤ}
    (hcounts : ∀ d ∈ state.blocksOf c, 0 ≤ d.messageCount)
    (hretained : retained = countOf (state.blocksOf c)) {rounds : ℕ}
    (hrounds : (state.blocksOf c).length ≤ rounds) :
    Evicted sizes c state (evictOldest sizes c rounds state retained) := by
  have hallowed := allowed_nonneg sizes
  -- the rows of a channel that has few enough messages stay
  have hstay : ∀ {state : SegmentState β} {retained : ℤ}, state.Spaced →
      (∀ d ∈ state.blocksOf c, 0 ≤ d.messageCount) → retained = countOf (state.blocksOf c) →
      retained ≤ allowed sizes → Evicted sizes c state (state, retained) := by
    intro state retained hspaced hcounts hretained hle
    refine ⟨hspaced, ?_, fun _ _ => rfl, hretained, rfl, rfl⟩
    rw [trimFront_of_le]
    rw [← sum_toNat hcounts] at hretained
    omega
  induction rounds generalizing state retained with
  | zero =>
    have hnil : state.blocksOf c = [] := List.length_eq_zero_iff.mp (Nat.le_zero.mp hrounds)
    apply hstay hspaced hcounts hretained
    rw [hretained, hnil]
    exact hallowed
  | succ rounds ih =>
    rw [evictOldest]
    split
    · rename_i hlt
      split
      · rename_i hnil
        apply hstay hspaced hcounts hretained
        rw [hretained, hnil]
        exact hallowed
      · rename_i oldest rest hqueue
        obtain ⟨hspaced', hrest, hothers⟩ := blocksOf_erase hspaced hqueue
        have hsum : retained - oldest.messageCount = countOf rest := by
          rw [hretained, hqueue, countOf, List.map_cons, List.sum_cons, countOf]
          omega
        rw [hqueue, List.length_cons] at hrounds
        have hrun := ih hspaced'
          (fun d hd => hcounts d (hqueue ▸ List.mem_cons_of_mem oldest (hrest ▸ hd)))
          (hsum.trans (congrArg countOf hrest.symm)) (by rw [hrest]; omega)
        refine ⟨hrun.spaced, ?_, fun c' hne => (hrun.others c' hne).trans (hothers c' hne),
          hrun.retained, hrun.channels, hrun.data⟩
        rw [hrun.own, hrest, hqueue, trimFront_of_lt]
        have hnat := sum_toNat hcounts
        rw [hqueue] at hnat hretained
        omega
    · rename_i hle
      exact hstay hspaced hcounts hretained (Int.not_lt.mp hle)

/-! ### The queues of a store -/

variable {q : BlockQueues β} {next retained : ℤ}

/-- The store has the channels of `q`, each with its blocks, and its books are in order. -/
structure Shows (codec : Codec β) (q : BlockQueues β) (state : SegmentState β) : Prop where
  spaced : KeyTable.Spaced SegmentBlock.channelKey SegmentBlock.blockSequence state.segmentBlocks
  channels : state.channels.keysWhere (fun _ => true) = q.channels
  counted : ∀ row ∈ state.channels.rows,
    row.retainedMessages = messagesOf (q.blocks row.channelKey)
  tracked : ∀ d ∈ state.segmentBlocks.rows, ∃ row ∈ state.channels.rows,
    row.channelKey = d.channelKey ∧ d.blockSequence < row.nextBlockSequence
  loads : ∀ c, state.loadChannelBlocks codec c = .ok (q.blocks c)

theorem shows_new : (new : SegmentState β).Shows codec .empty where
  spaced := fun _ hrow => absurd hrow List.not_mem_nil
  channels := rfl
  counted := fun _ hrow => absurd hrow List.not_mem_nil
  tracked := fun _ hrow => absurd hrow List.not_mem_nil
  loads := fun _ => rfl

/-- A running append to channel `c`: the store will show `q` once `next` and `retained`
are written back. -/
structure Filling (codec : Codec β) (c : String) (next retained : ℤ) (q : BlockQueues β)
    (state : SegmentState β) : Prop where
  known : c ∈ q.channels
  shows : (state.retainMessages c next retained).Shows codec q

theorem mem_retainMessages {row : SegmentChannel} :
    row ∈ (state.retainMessages c next retained).channels.rows ↔
      (row ∈ state.channels.rows ∧ row.channelKey ≠ c) ∨
        ∃ r ∈ state.channels.rows, r.channelKey = c ∧ row = r.retain next retained := by
  show row ∈ (state.channels.modify c (SegmentChannel.retain next retained)
    (SegmentChannel.channelKey_retain next retained)).rows ↔ _
  exact KeyTable.mem_modify

namespace Filling

/-- The channel has a row. -/
theorem exists_row (h : Filling codec c next retained q state) :
    ∃ row ∈ state.channels.rows, row.channelKey = c := by
  have hmem := h.known
  rw [← h.shows.channels] at hmem
  obtain ⟨row, hrow, hkey⟩ := List.mem_map.mp (List.mem_toFinset.mp hmem)
  rcases mem_retainMessages.mp (List.mem_of_mem_filter hrow) with ⟨hrow, hne⟩ | ⟨r, hr, hc, -⟩
  · exact absurd hkey hne
  · exact ⟨r, hr, hc⟩

theorem retained_eq (h : Filling codec c next retained q state) :
    retained = messagesOf (q.blocks c) := by
  obtain ⟨row, hrow, hkey⟩ := h.exists_row
  have hcount := h.shows.counted _ (mem_retainMessages.mpr (.inr ⟨row, hrow, hkey, rfl⟩))
  rw [SegmentChannel.channelKey_retain, hkey] at hcount
  exact hcount

theorem lt_next (h : Filling codec c next retained q state) {d : SegmentBlock}
    (hd : d ∈ state.segmentBlocks.rows) (hc : d.channelKey = c) : d.blockSequence < next := by
  obtain ⟨row, hrow, hkey, hlt⟩ := h.shows.tracked d hd
  rcases mem_retainMessages.mp hrow with ⟨-, hne⟩ | ⟨r, -, -, rfl⟩
  · exact absurd (hkey.trans hc) hne
  · exact hlt

/-- **What a step of the append has to show**: the blocks of channel `c` are another
list, `next` is above its sequences, and nothing else has changed. -/
theorem step {state' : SegmentState β} {next' retained' : ℤ} {blocks : List (EncodedBlock β)}
    (h : Filling codec c next retained q state) (hchannels : state'.channels = state.channels)
    (hspaced : KeyTable.Spaced SegmentBlock.channelKey SegmentBlock.blockSequence
      state'.segmentBlocks)
    (hretained : retained' = messagesOf blocks)
    (hown : ∀ d ∈ state'.segmentBlocks.rows, d.channelKey = c → d.blockSequence < next')
    (hothers : ∀ d ∈ state'.segmentBlocks.rows, d.channelKey ≠ c → d ∈ state.segmentBlocks.rows)
    (hloads : state'.loadChannelBlocks codec c = .ok blocks)
    (hkeeps : ∀ c', c' ≠ c → ∀ l, state.loadChannelBlocks codec c' = .ok l →
      state'.loadChannelBlocks codec c' = .ok l) :
    Filling codec c next' retained' (q.withBlocks c blocks) state' := by
  obtain ⟨own, hown', hkey⟩ := h.exists_row
  -- written back, only the row of `c` is another one
  have hrows : ∀ row, row ∈ (state'.retainMessages c next' retained').channels.rows ↔
      (row ∈ state.channels.rows ∧ row.channelKey ≠ c) ∨
        ∃ r ∈ state.channels.rows, r.channelKey = c ∧ row = r.retain next' retained' := by
    intro row
    rw [mem_retainMessages, hchannels]
  refine ⟨Finset.mem_insert_self _ _, hspaced, ?_, fun row hrow => ?_, fun d hd => ?_,
    fun c' => ?_⟩
  · show (state'.channels.modify c (SegmentChannel.retain next' retained')
      (SegmentChannel.channelKey_retain next' retained')).keysWhere (fun _ => true) =
        insert c q.channels
    have hold : (state.channels.modify c (SegmentChannel.retain next retained)
      (SegmentChannel.channelKey_retain next retained)).keysWhere (fun _ => true) = q.channels :=
        h.shows.channels
    rw [KeyTable.keys_modify] at hold
    rw [KeyTable.keys_modify, hchannels, hold, Finset.insert_eq_of_mem h.known]
  · rcases (hrows row).mp hrow with ⟨hrow, hne⟩ | ⟨r, -, hc, rfl⟩
    · rw [BlockQueues.blocks_withBlocks_ne hne]
      exact h.shows.counted row (mem_retainMessages.mpr (.inl ⟨hrow, hne⟩))
    · show retained' = _
      rw [SegmentChannel.channelKey_retain, hc, BlockQueues.blocks_withBlocks_self, hretained]
  · by_cases hc : d.channelKey = c
    · exact ⟨own.retain next' retained', (hrows _).mpr (.inr ⟨own, hown', hkey, rfl⟩),
        hkey.trans hc.symm, hown d hd hc⟩
    · obtain ⟨row, hrow, hrc, hlt⟩ := h.shows.tracked d (hothers d hd hc)
      rcases mem_retainMessages.mp hrow with ⟨hrow, hne⟩ | ⟨r, -, hr, rfl⟩
      · exact ⟨row, (hrows row).mpr (.inl ⟨hrow, hne⟩), hrc, hlt⟩
      · exact absurd (hrc.symm.trans hr) hc
  · by_cases hc : c' = c
    · subst hc
      rw [BlockQueues.blocks_withBlocks_self]
      exact hloads
    · rw [BlockQueues.blocks_withBlocks_ne hc]
      exact hkeeps c' hc _ (h.shows.loads c')

/-- **Writing a block** puts it behind those of its channel. -/
theorem insertBlock (h : Filling codec c next retained q state) (hb : Storable codec c b)
    (hfile : ((fileLength codec state.data + codec.len b.payload : ℕ) : ℤ) ≤ i64Max) :
    ∃ state', state.insertBlock codec c next b = .ok state' ∧
      Filling codec c (next + 1) (retained + b.messageCount)
        (q.withBlocks c (q.blocks c ++ [b])) state' ∧
      fileLength codec state'.data = fileLength codec state.data + codec.len b.payload := by
  have hdistinct : state.Spaced := h.shows.spaced
  obtain ⟨hspaced, hown, hothers⟩ := blocksOf_insertRow codec b hdistinct
    (fun d hd => h.lt_next (mem_blocksOf.mp hd).1 (mem_blocksOf.mp hd).2)
    (state.data ++ [b.payload])
  have hunique : (state.segmentBlocks.rows.any fun row =>
      row.channelKey = c && row.blockSequence = next) = false :=
    KeyTable.any_place_eq_false fun d hd hc => h.lt_next hd hc
  refine ⟨{ state with
    data := state.data ++ [b.payload]
    segmentBlocks := state.segmentBlocks.insertIgnore (state.rowOf codec c next b) }, ?_, ?_, ?_⟩
  · have hoffset : tryFromU64 (fileLength codec state.data) = .ok (fileLength codec state.data : ℤ) :=
      tryFromU64_eq_ok.mpr ⟨rfl, by omega⟩
    have hlength : tryFromU64 (codec.len b.payload) = .ok (codec.len b.payload : ℤ) :=
      tryFromU64_eq_ok.mpr ⟨rfl, by omega⟩
    simp only [SegmentState.insertBlock, hoffset, hlength, hunique, bind, Except.bind, pure,
      Except.pure, Bool.false_eq_true, ↓reduceIte]
  · refine h.step rfl hspaced ?_ ?_ ?_ ?_ ?_
    · -- the count of the channel
      rw [messagesOf_append, h.retained_eq]
      simp [messagesOf]
    · intro d hd hc
      rcases KeyTable.mem_insertIgnore.mp hd with hd | ⟨rfl, -⟩
      · exact (h.lt_next hd hc).trans (lt_add_one next)
      · exact lt_add_one next
    · intro d hd hc
      rcases KeyTable.mem_insertIgnore.mp hd with hd | ⟨rfl, -⟩
      · exact hd
      · exact absurd rfl hc
    · have hload : (state.blocksOf c).mapM (readBlock codec (state.data ++ [b.payload]) c) =
          .ok (q.blocks c) :=
        Except.mapM_mono (fun _ _ => readBlock_append [b.payload]) (h.shows.loads c)
      rw [loadChannelBlocks, hown]
      exact Except.mapM_concat hload (readBlock_rowOf hb hfile next)
    · intro c' hc l hl
      rw [loadChannelBlocks, hothers c' hc]
      exact Except.mapM_mono (fun _ _ => readBlock_append [b.payload]) hl
  · simp [fileLength]

/-- **Writing chunks** that can be encoded puts their blocks behind. -/
theorem insertChunks (hcompress : ∀ level b b', codec.compress level b = .ok b' →
    0 < codec.len b') (h : Filling codec c next retained q state)
    {records : List CanonicalRecord} {new : List (EncodedBlock β)}
    (hchannel : ∀ r ∈ records, r.channelKey = c)
    (hnew : encodeChunks codec sizes records = .ok new)
    (hfile : ((fileLength codec state.data + (new.map fun b => codec.len b.payload).sum : ℕ) : ℤ) ≤
      i64Max) :
    ∃ state' next' retained',
      state.insertChunks codec sizes c records next retained = .ok (state', next', retained') ∧
        Filling codec c next' retained' (q.withBlocks c (q.blocks c ++ new)) state' := by
  have hloop := layChunks_run (fun state next b => state.insertBlock codec c next b)
    (fun done next retained state' =>
      Filling codec c next retained (q.withBlocks c (q.blocks c ++ done)) state' ∧
        fileLength codec state'.data =
          fileLength codec state.data + (done.map fun b => codec.len b.payload).sum) hnew ?_
    ⟨by rw [List.append_nil, BlockQueues.withBlocks_self h.known]; exact h, rfl⟩
  · obtain ⟨state', next', retained', hrun, h', -⟩ := hloop
    exact ⟨state', next', retained', hrun, h'⟩
  · rintro done b next₁ retained₁ state₁ ⟨rest, hsplit⟩ ⟨piece, hpiece, hb⟩ ⟨h₁, hlength₁⟩
    have hstorable := storable_of_encode hcompress
      (fun r hr => hchannel r (mem_of_mem_chunks hpiece hr)) hb
    -- the file with this block is no longer than the file with all of them
    rw [← hsplit, List.map_append, List.sum_append, List.map_append, List.sum_append,
      List.map_singleton, List.sum_singleton] at hfile
    obtain ⟨state₂, hinsert, h₂, hlength₂⟩ := h₁.insertBlock hstorable (by omega)
    rw [BlockQueues.withBlocks_withBlocks, BlockQueues.blocks_withBlocks_self,
      List.append_assoc] at h₂
    refine ⟨state₂, hinsert, h₂, ?_⟩
    rw [hlength₂, hlength₁, List.map_append, List.sum_append, List.map_singleton,
      List.sum_singleton, Nat.add_assoc]

/-- **Retention** trims the queue of the channel. -/
theorem evictOldest (sizes : BlockSizes) (h : Filling codec c next retained q state) {rounds : ℕ}
    (hrounds : (state.blocksOf c).length ≤ rounds) :
    Filling codec c next (evictOldest sizes c rounds state retained).2
      (q.withBlocks c
        (trimFront (fun b => b.messageCount) (min sizes.allowedMessages i64Max.toNat) (q.blocks c)))
      (evictOldest sizes c rounds state retained).1 := by
  have hallowed : (allowed sizes).toNat = min sizes.allowedMessages i64Max.toNat := by
    have hmax : (i64Max : ℤ) = 2 ^ 63 - 1 := rfl
    rw [allowed]
    omega
  have hload : (state.blocksOf c).mapM (readBlock codec state.data c) = .ok (q.blocks c) :=
    h.shows.loads c
  have hcount : ∀ d b, readBlock codec state.data c d = .ok b → (b.messageCount : ℤ) =
      d.messageCount := fun _ _ hb => (columns_of_readBlock hb).1
  -- rows that can be read have a count
  have hcounts : ∀ d ∈ state.blocksOf c, 0 ≤ d.messageCount := by
    intro d hd
    obtain ⟨b, -, hb⟩ := (Except.mapM_eq_ok hload).1 d hd
    rw [← hcount d b hb]
    exact Int.natCast_nonneg _
  have hsum : ∀ {rows : List SegmentBlock} {blocks : List (EncodedBlock β)},
      rows.mapM (readBlock codec state.data c) = .ok blocks → countOf rows = messagesOf blocks := by
    intro rows blocks hrows
    rw [countOf, ← Except.map_eq_of_mapM hcount hrows, messagesOf, Nat.cast_list_sum,
      List.map_map]
    rfl
  have hdistinct : state.Spaced := h.shows.spaced
  obtain ⟨hspaced, hown, hothers, hretained, hchannels, hdata⟩ := evicted_evictOldest sizes
    hdistinct hcounts (h.retained_eq.trans (hsum hload).symm) hrounds
  generalize SegmentState.evictOldest sizes c rounds state retained = out at *
  rw [hallowed] at hown
  have htrimmed : (out.1.blocksOf c).mapM (readBlock codec state.data c) =
      .ok (trimFront (fun b => b.messageCount) (min sizes.allowedMessages i64Max.toNat)
        (q.blocks c)) := by
    rw [hown]
    refine mapM_trimFront (fun d b hb => ?_) hload
    rw [← hcount d b hb, Int.toNat_natCast]
  -- retention adds no row
  have hkept : ∀ d ∈ out.1.segmentBlocks.rows, d ∈ state.segmentBlocks.rows := by
    intro d hd
    by_cases hc : d.channelKey = c
    · have hmem : d ∈ out.1.blocksOf c := mem_blocksOf.mpr ⟨hd, hc⟩
      rw [hown] at hmem
      exact (mem_blocksOf.mp ((trimFront_suffix _ _ _).subset hmem)).1
    · have hmem : d ∈ out.1.blocksOf d.channelKey := mem_blocksOf.mpr ⟨hd, rfl⟩
      rw [hothers _ hc] at hmem
      exact (mem_blocksOf.mp hmem).1
  refine h.step hchannels hspaced (hretained.trans (hsum htrimmed))
    (fun d hd => h.lt_next (hkept d hd)) (fun d hd _ => hkept d hd) ?_ fun c' hne l hl => ?_
  · rw [loadChannelBlocks, hdata]
    exact htrimmed
  · rw [loadChannelBlocks, hdata, hothers c' hne]
    exact hl

end Filling

namespace Shows

variable {bound : ℕ} {history : List CanonicalRecord}

/-- An append starts with the values of its channel's row. -/
theorem filling (h : state.Shows codec q) {row : SegmentChannel}
    (hrow : state.channels.lookup c = some row) :
    Filling codec c row.nextBlockSequence row.retainedMessages q state := by
  obtain ⟨hmem, hkey⟩ := KeyTable.lookup_eq_some.mp hrow
  have hsame : state.retainMessages c row.nextBlockSequence row.retainedMessages = state := by
    rw [retainMessages, KeyTable.modify_eq_self hrow rfl]
  refine ⟨?_, by rw [hsame]; exact h⟩
  rw [← h.channels, KeyTable.mem_keysWhere, hrow]
  rfl

/-- **A new channel** has no block yet. -/
theorem insertChannel (h : state.Shows codec q) (hq : q.Valid codec bound history) (c : String) :
    (state.insertChannel c).Shows codec (q.withBlocks c (q.blocks c)) := by
  refine ⟨h.spaced, ?_, fun row hrow => ?_, fun d hd => ?_, fun c' => ?_⟩
  · show (state.channels.insertIgnore ⟨c, 0, 0⟩).keysWhere (fun _ => true) = insert c q.channels
    rw [KeyTable.keys_insertIgnore, h.channels]
  · rw [BlockQueues.blocks_withBlocks_own]
    rcases KeyTable.mem_insertIgnore.mp hrow with hrow | ⟨rfl, hnone⟩
    · exact h.counted row hrow
    · have hnil : q.blocks c = [] := by
        by_contra hne
        have hmem := hq.known c hne
        rw [← h.channels, KeyTable.mem_keysWhere, hnone] at hmem
        cases hmem
      show (0 : ℤ) = messagesOf (q.blocks c)
      rw [hnil]
      rfl
  · obtain ⟨row, hrow, hkey, hlt⟩ := h.tracked d hd
    exact ⟨row, KeyTable.mem_insertIgnore.mpr (.inl hrow), hkey, hlt⟩
  · rw [BlockQueues.blocks_withBlocks_own]
    exact h.loads c'

theorem decodeBlocks_eq (hq : q.Valid codec bound history) (c : String) :
    decodeBlocks codec (q.blocks c) = .ok (q.loaded codec c) := by
  refine Except.mapM_of_ok fun b hb => ?_
  rw [(hq.sound c).readable b hb]
  rfl

/-- **A batch whose blocks can be encoded** is an append of its new records, as long as
file and counts fit an `i64`. -/
theorem append (hcompress : ∀ level b b', codec.compress level b = .ok b' → 0 < codec.len b')
    (h : state.Shows codec q) (hq : q.Valid codec sizes.allowedMessages history)
    {batch : List CanonicalRecord} {new : List (EncodedBlock β)} (hne : batch ≠ [])
    (hchannel : ∀ r ∈ batch, r.channelKey = c)
    (hnew : encodeChunks codec sizes (q.newRecords codec c batch) = .ok new)
    (hfile : ((fileLength codec state.data + (new.map fun b => codec.len b.payload).sum : ℕ) : ℤ) ≤
      i64Max)
    (hmessages : (messagesOf (q.blocks c ++ new) : ℤ) ≤ i64Max) :
    ∃ state', state.appendBatch codec sizes batch = .ok state' ∧
      state'.Shows codec (q.append sizes.allowedMessages c new) := by
  have hinsert := h.insertChannel hq c
  have hown : (q.withBlocks c (q.blocks c)).blocks c = q.blocks c :=
    BlockQueues.blocks_withBlocks_self _
  have htransaction : ∃ state', state.appendTransaction codec sizes c batch = .ok state' ∧
      state'.Shows codec (q.append sizes.allowedMessages c new) := by
    have hload := hinsert.loads c
    rw [hown] at hload
    have hkeys : (((q.loaded codec c).flatten).map eventKey).toFinset =
        keysOf codec (q.blocks c) := rfl
    have hfresh : (retainNew eventKey (((q.loaded codec c).flatten).map eventKey).toFinset
        (sortByKey eventOrder batch)).1 = q.newRecords codec c batch := rfl
    by_cases hempty : q.newRecords codec c batch = []
    · -- all records are known: the channel gets a row, and no block
      have hnil : new = [] := by
        rw [hempty] at hnew
        exact (Except.ok.inj hnew).symm
      refine ⟨state.insertChannel c, ?_, ?_⟩
      · simp only [appendTransaction, hload, decodeBlocks_eq hq, hfresh, hempty, bind, Except.bind,
          pure, Except.pure, List.isEmpty_nil, ↓reduceIte]
      · rw [hnil, BlockQueues.append, List.append_nil, trimFront_of_le (hq.sound c).bounded]
        exact hinsert
    · obtain ⟨row, hrow⟩ : ∃ row, (state.insertChannel c).channels.lookup c = some row :=
        ⟨_, KeyTable.lookup_insertIgnore_self state.channels rfl⟩
      obtain ⟨state₁, next, retained, hrun, hfilling⟩ := (hinsert.filling hrow).insertChunks
        hcompress (fun r hr => hchannel r (BlockQueues.mem_newRecords hr).1) hnew hfile
      rw [BlockQueues.withBlocks_withBlocks, hown] at hfilling
      have hevict := hfilling.evictOldest sizes (KeyTable.length_queueOf_le state₁.segmentBlocks c)
      -- the bound of `evict_oldest` is capped at an `i64`, which is above this sum
      have hsum : ((q.blocks c ++ new).map fun b => b.messageCount).sum ≤ i64Max.toNat := by
        show messagesOf (q.blocks c ++ new) ≤ i64Max.toNat
        omega
      rw [BlockQueues.withBlocks_withBlocks, BlockQueues.blocks_withBlocks_self,
        trimFront_min hsum] at hevict
      have hnot : (q.newRecords codec c batch).isEmpty = false := by
        simpa using hempty
      refine ⟨_, ?_, hevict.shows⟩
      simp only [appendTransaction, hload, decodeBlocks_eq hq, hfresh, hnot, hrow, hrun, bind,
        Except.bind, pure, Except.pure, Bool.false_eq_true, ↓reduceIte]
  obtain ⟨state', hrun, hshows⟩ := htransaction
  refine ⟨state', ?_, hshows⟩
  obtain ⟨first, rest, rfl⟩ := List.exists_cons_of_ne_nil hne
  have hfirst : first.channelKey = c := hchannel first List.mem_cons_self
  have hsingle : mixedChannels (first :: rest) = false :=
    CanonicalRecord.mixed_eq_false.mpr fun r hr => (hchannel r hr).trans hfirst.symm
  simp only [appendBatch, appendChannelBatches, List.any_cons, List.any_nil, hsingle,
    List.foldlM_cons, List.foldlM_nil, hfirst, hrun, Bool.or_false, Bool.false_eq_true, ↓reduceIte,
    bind, Except.bind, pure, Except.pure]

/-- **A query** reads the queue of its channel. -/
theorem query (h : state.Shows codec q) (hq : q.Valid codec bound history)
    (request : QueryRequest) :
    state.query codec request = request.answer (.ok (q.loaded codec request.channelKey)) := by
  rw [SegmentState.query]
  congr 1
  have hload : (state.blocksOf request.channelKey).mapM
      (readBlock codec state.data request.channelKey) = .ok (q.blocks request.channelKey) :=
    h.loads request.channelKey
  have hread := (hq.sound request.channelKey).readable
  rw [BlockQueues.loaded]
  generalize state.blocksOf request.channelKey = rows at hload
  generalize q.blocks request.channelKey = blocks at hload hread
  induction rows generalizing blocks with
  | nil =>
    rw [List.mapM_nil] at hload
    rw [← Except.ok.inj hload]
    rfl
  | cons d rows ih =>
    obtain ⟨b, rest, hb, hrest, rfl⟩ := Except.mapM_cons_eq_ok.mp hload
    rw [List.mapM_cons, hb, ih rest hrest fun b' hb' => hread b' (List.mem_cons_of_mem b hb')]
    simp only [bind, Except.bind, hread b List.mem_cons_self, Except.mapError, pure, Except.pure,
      List.map_cons]

/-- **The statistics** are those of the queues, as long as the sums fit an `i64`. -/
theorem stats (h : state.Shows codec q)
    (hmessages : ((q.total fun b => b.messageCount : ℕ) : ℤ) ≤ i64Max)
    (hcompressed : ((q.total fun b => codec.len b.payload : ℕ) : ℤ) ≤ i64Max)
    (huncompressed : ((q.total fun b => b.uncompressedBytes : ℕ) : ℤ) ≤ i64Max) :
    state.stats = .ok (q.stats codec) := by
  have hgroups : ∀ d ∈ state.segmentBlocks.rows, d.channelKey ∈ q.channels := by
    intro d hd
    obtain ⟨row, hrow, hkey, -⟩ := h.tracked d hd
    rw [← h.channels, ← hkey, KeyTable.mem_keysWhere, KeyTable.lookup_of_mem hrow]
    rfl
  -- a column of the index sums up to what the blocks say
  have hcolumn : ∀ (f : SegmentBlock → ℤ) (g : EncodedBlock β → ℕ),
      (∀ channel d b, readBlock codec state.data channel d = .ok b → (g b : ℤ) = f d) →
      (state.segmentBlocks.rows.map f).sum = (q.total g : ℤ) := by
    intro f g hfg
    have hsplit : (state.segmentBlocks.rows.map f).sum =
        ∑ c ∈ q.channels, ((state.blocksOf c).map f).sum := KeyTable.total_eq_sum_queueOf hgroups
    rw [hsplit, BlockQueues.total_natCast]
    refine Finset.sum_congr rfl fun c _ => ?_
    rw [Except.map_eq_of_mapM (hfg c) (h.loads c)]
  have hblocks : state.segmentBlocks.rows.length = q.total fun _ => 1 := by
    have hone := hcolumn (fun _ => 1) (fun _ => 1) fun _ _ _ _ => rfl
    have hlength : (state.segmentBlocks.rows.map fun _ => (1 : ℤ)).sum =
        state.segmentBlocks.rows.length := by simp
    rw [hlength] at hone
    exact Int.ofNat_inj.mp hone
  have hchannels : state.channels.rows.length = q.channels.card := by
    rw [← h.channels, KeyTable.card_keysWhere, List.filter_eq_self.mpr fun _ _ => rfl]
  have hsum : ∀ (f : SegmentBlock → ℤ) (n : ℕ), (state.segmentBlocks.rows.map f).sum = (n : ℤ) →
      (n : ℤ) ≤ i64Max → sqlSum (state.segmentBlocks.rows.map f) = .ok (n : ℤ) := by
    intro f n hn hle
    rw [sqlSum, hn, if_pos hle]
  have htry : ∀ n : ℕ, tryToU64 n = .ok n := fun n => by
    rw [tryToU64_of_nonneg (Int.natCast_nonneg n), Int.toNat_natCast]
  have hm := hsum _ _ (hcolumn _ _ fun _ _ _ hb => (columns_of_readBlock hb).1) hmessages
  have hc := hsum _ _ (hcolumn _ _ fun _ _ _ hb => (columns_of_readBlock hb).2.2) hcompressed
  have hu := hsum _ _ (hcolumn _ _ fun _ _ _ hb => (columns_of_readBlock hb).2.1) huncompressed
  simp only [SegmentState.stats, hm, hc, hu, htry, hblocks, hchannels, bind, Except.bind, pure,
    Except.pure, BlockQueues.stats]

end Shows

end SegmentState

end RecentMessages
