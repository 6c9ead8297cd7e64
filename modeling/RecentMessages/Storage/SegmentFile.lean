/-
RecentMessages/Storage/SegmentFile.lean

The segment store as it lies on the disk (`storage/segment.rs`): a file of bytes and an index in
SQLite, with everything that may go wrong between them.

An append writes its payloads behind the file, syncs the file and commits the index.  A plan says
how each of these operations ends (`AppendPlan`): it is done, it fails, or the process dies in it.
A call that fails cuts the file to its old length.  After a crash the file has kept some of the
bytes that were not synced, and a committed index the bytes that were; `openFiles` cuts the file
behind its last indexed block.

* `Consistent` — the blocks of the index lie in the file, apart from each other, and all of them
  can be read and decoded; every append and every reopening keeps it;
* `segment_store_crash_consistent` — a crash leaves the records from before the append or those
  from after it, and a failed append leaves everything.
-/
import RecentMessages.Library.Extents
import RecentMessages.Library.Outcomes
import RecentMessages.Storage.Segment

namespace RecentMessages

open CanonicalRecord EncodedBlock Extent

/-- The state on the disk: the file is a list of bytes. -/
abbrev SegmentFiles := SegmentState UInt8

/-- How an operation on the file ends. -/
inductive FileOutcome
  | done
  /-- Some bytes may have been written. -/
  | fails (error : String) (written : ℕ)
  /-- Some of the bytes that are not synced stay. -/
  | crash (kept : ℕ)

/-- How the commit of the index ends. -/
inductive CommitOutcome
  | done
  | fails (error : String)
  | crash (committed : Bool)

/-- How the operations of an append end. -/
structure AppendPlan where
  /-- Writes that are not listed are done. -/
  writes : List FileOutcome
  sync : FileOutcome
  commit : CommitOutcome
  /-- A crash while the file is cut after a failure. -/
  truncation : Option ℕ

/-- Nothing goes wrong. -/
def AppendPlan.faultless : AppendPlan := ⟨[], .done, .done, none⟩

/-- What stops an append, with the file as it is then. -/
inductive Interrupt
  | failed (error : StoreError) (data : List UInt8)
  | crashed (data : List UInt8) (kept : ℕ)
  | crashedAfterCommit (state : SegmentFiles)

/-- What a caller sees. -/
inductive AppendOutcome
  | returned (result : Except StoreError Unit)
  | crashed

namespace SegmentFiles

variable (codec : Codec (List UInt8)) (sizes : BlockSizes)

/-! ### Reading -/

/-- `seek(SeekFrom::Start(offset))`, then `read_exact` of `n` bytes. -/
def readExact (data : List UInt8) (offset n : ℕ) : Except StoreError (List UInt8) :=
  let payload := (data.drop offset).take n
  if payload.length = n then .ok payload else .error (.backend "failed to fill whole buffer")

/-- `read_block`. -/
def readBlock (data : List UInt8) (channel : String) (d : SegmentBlock) :
    Except StoreError (EncodedBlock (List UInt8)) := do
  let payloadBytes ← tryToUnsigned 64 d.payloadBytes
  let fileOffset ← tryToUnsigned 64 d.fileOffset
  let payload ← readExact data fileOffset payloadBytes
  let formatVersion ← tryToUnsigned 16 d.formatVersion
  let messageCount ← tryToUnsigned 32 d.messageCount
  let uncompressedBytes ← tryToUnsigned 32 d.uncompressedBytes
  return {
    formatVersion
    channelKey := channel
    firstEventAtMs := d.firstEventAtMs
    lastEventAtMs := d.lastEventAtMs
    messageCount
    uncompressedBytes
    checksum := d.checksum
    payload }

/-- `load_channel_blocks`. -/
def loadChannelBlocks (state : SegmentFiles) (channel : String) :
    Except StoreError (List (EncodedBlock (List UInt8))) :=
  (state.blocksOf channel).mapM (readBlock state.data channel)

/-- `query`. -/
def query (state : SegmentFiles) (request : QueryRequest) : Except StoreError LocalResult :=
  request.answer <| (state.blocksOf request.channelKey).mapM fun descriptor => do
    let block ← readBlock state.data request.channelKey descriptor
    (block.decode codec).mapError .block

/-! ### Appends -/

/-- `write_all` at the end of the file, whose length fits an `off_t`. -/
def writeAll (data payload : List UInt8) : FileOutcome → Except Interrupt (List UInt8)
  | .done =>
    if data.length + payload.length ≤ i64Max then
      .ok (data ++ payload)
    else
      .error (.failed (.backend "File too large (os error 27)") data)
  | .fails error written => .error (.failed (.backend error) (data ++ payload.take written))
  | .crash kept => .error (.crashed (data ++ payload) kept)

/-- The row of a block whose payload was written at `offset`. -/
def rowOf (state : SegmentFiles) (channelKey : String) (sequence : ℤ)
    (block : EncodedBlock (List UInt8)) (offset : ℕ) : SegmentBlock where
  id := state.segmentBlocks.nextKey
  channelKey
  blockSequence := sequence
  formatVersion := block.formatVersion
  firstEventAtMs := block.firstEventAtMs
  lastEventAtMs := block.lastEventAtMs
  messageCount := block.messageCount
  uncompressedBytes := block.uncompressedBytes
  checksum := block.checksum
  fileOffset := offset
  payloadBytes := block.payload.length

/-- `INSERT INTO segment_blocks`, which is `UNIQUE` in channel and sequence. -/
def insertRow (state : SegmentFiles) (channelKey : String) (sequence : ℤ)
    (block : EncodedBlock (List UInt8)) (offset : ℕ) : Except StoreError SegmentFiles := do
  let _ ← tryFromU64 offset
  let _ ← tryFromU64 block.payload.length
  if state.segmentBlocks.rows.any fun row =>
      row.channelKey = channelKey && row.blockSequence = sequence then
    .error (.backend
      "UNIQUE constraint failed: segment_blocks.channel_key, segment_blocks.block_sequence")
  else
    return { state with
      segmentBlocks :=
        state.segmentBlocks.insertIgnore (rowOf state channelKey sequence block offset) }

/-- Write a payload, then its row. -/
def insertBlock (state : SegmentFiles) (channelKey : String) (sequence : ℤ)
    (block : EncodedBlock (List UInt8)) (outcome : FileOutcome) :
    Except Interrupt SegmentFiles := do
  let data ← writeAll state.data block.payload outcome
  (insertRow { state with data } channelKey sequence block state.data.length).mapError
    (.failed · data)

/-- What the loop over the chunks of a batch carries. -/
structure Progress where
  state : SegmentFiles
  sequence : ℤ
  retained : ℤ
  /-- How the next writes end. -/
  writes : List FileOutcome

/-- Cut the new records into blocks. -/
def insertChunks (channelKey : String) (records : List CanonicalRecord) (progress : Progress) :
    Except Interrupt Progress :=
  (chunks sizes.blockMessages records).foldlM
    (fun progress chunk => do
      let block ← (EncodedBlock.encode codec chunk storeCompressionLevel).mapError fun e =>
        Interrupt.failed (.block e) progress.state.data
      let state ← insertBlock progress.state channelKey progress.sequence block
        (progress.writes.headD .done)
      return ⟨state, progress.sequence + 1, progress.retained + block.messageCount,
        progress.writes.tail⟩)
    progress

/-- `append_transaction`, with how the writes end. -/
def appendTransaction (state : SegmentFiles) (channelKey : String)
    (batch : List CanonicalRecord) (writes : List FileOutcome) :
    Except Interrupt (SegmentFiles × List FileOutcome) := do
  let state := SegmentState.insertChannel state channelKey
  let blocks ← (loadChannelBlocks state channelKey).mapError (.failed · state.data)
  let decoded ← (SegmentState.decodeBlocks codec blocks).mapError (.failed · state.data)
  let retainedKeys := (decoded.flatten.map eventKey).toFinset
  let records := (retainNew eventKey retainedKeys (sortByKey eventOrder batch)).1
  if records.isEmpty then
    return (state, writes)
  else
    match state.channels.lookup channelKey with
    | none => .error (.failed (.backend "Query returned no rows") state.data)
    | some row =>
      let progress ← insertChunks codec sizes channelKey records
        ⟨state, row.nextBlockSequence, row.retainedMessages, writes⟩
      let (state, retained) := SegmentState.evictOldest sizes channelKey
        progress.state.segmentBlocks.rows.length progress.state progress.retained
      return (SegmentState.retainMessages state channelKey progress.sequence retained,
        progress.writes)

/-- The batches of an append, one after the other. -/
def appendBatches (state : SegmentFiles) (batches : List (List CanonicalRecord))
    (writes : List FileOutcome) : Except Interrupt (SegmentFiles × List FileOutcome) :=
  batches.foldlM
    (fun (state, writes) batch =>
      match batch with
      | [] => .ok (state, writes)
      | first :: _ => appendTransaction codec sizes state first.channelKey batch writes)
    (state, writes)

/-- The closure of `append_channel_batches`. -/
def commitBatches (plan : AppendPlan) (state : SegmentFiles)
    (batches : List (List CanonicalRecord)) : Except Interrupt SegmentFiles := do
  let (state, _) ← appendBatches codec sizes state batches plan.writes
  match plan.sync with
  | .fails error _ => .error (.failed (.backend error) state.data)
  | .crash kept => .error (.crashed state.data kept)
  | .done =>
    match plan.commit with
    | .done => return state
    | .fails error => .error (.failed (.backend error) state.data)
    | .crash true => .error (.crashedAfterCommit state)
    -- the file is synced
    | .crash false => .error (.crashed state.data state.data.length)

/-- `append_channel_batches`: how it ends, and what is on the disk then.  Where the index is not
committed it is as it was. -/
def appendChannelBatches (plan : AppendPlan) (state : SegmentFiles)
    (batches : List (List CanonicalRecord)) : AppendOutcome × SegmentFiles :=
  if batches.any SegmentState.mixedChannels then
    (.returned (.error .mixedChannelBatch), state)
  else
    let uncommittedStart := state.data.length
    match commitBatches codec sizes plan state batches with
    | .ok committed => (.returned (.ok ()), committed)
    | .error (.failed error data) =>
      match plan.truncation with
      | none => (.returned (.error error), { state with data := data.take uncommittedStart })
      | some kept => (.crashed, { state with data := data.take (uncommittedStart + kept) })
    | .error (.crashed data kept) =>
      (.crashed, { state with data := data.take (uncommittedStart + kept) })
    | .error (.crashedAfterCommit committed) => (.crashed, committed)

/-! ### Opening -/

/-- `COALESCE(MAX(file_offset + payload_bytes), 0)`. -/
def indexedEnd (state : SegmentFiles) : ℤ :=
  ((state.segmentBlocks.rows.map fun row => row.fileOffset + row.payloadBytes).max?).getD 0

/-- `open`, on the files of an earlier process. -/
def openFiles (state : SegmentFiles) : Except StoreError SegmentFiles :=
  if i64Max < indexedEnd state then
    -- SQLite goes over to floating point
    .error (.backend "Invalid column type Real at index: 0")
  else do
    let indexedEnd ← tryToUnsigned 64 (indexedEnd state)
    if state.data.length < indexedEnd then
      .error (.backend "segment file is shorter than its committed index")
    else
      return { state with data := state.data.take indexedEnd }

/-! ### What a row reads -/

/-- Where the payload of a row is. -/
def extentOf (row : SegmentBlock) : Extent := ⟨row.fileOffset.toNat, row.payloadBytes.toNat⟩

variable {codec} {sizes} {state before : SegmentFiles} {data data' : List UInt8} {c : String}
  {d : SegmentBlock} {block : EncodedBlock (List UInt8)}

theorem tryToUnsigned_toNat {bits n : ℕ} {x : ℤ} (h : tryToUnsigned bits x = .ok n) :
    n = x.toNat := by
  unfold tryToUnsigned at h
  split at h
  · exact (Except.ok.inj h).symm
  · cases h

/-- A read depends on its extent only. -/
theorem readBlock_congr (h : slice data (extentOf d) = slice data' (extentOf d)) :
    readBlock data c d = readBlock data' c d := by
  unfold readBlock
  rcases hn : tryToUnsigned 64 d.payloadBytes with e | n
  · rfl
  · rcases hoffset : tryToUnsigned 64 d.fileOffset with e | offset
    · rfl
    · have hread : readExact data offset n = readExact data' offset n := by
        obtain rfl := tryToUnsigned_toNat hn
        obtain rfl := tryToUnsigned_toNat hoffset
        have hslice : (data.drop d.fileOffset.toNat).take d.payloadBytes.toNat =
            (data'.drop d.fileOffset.toNat).take d.payloadBytes.toNat := h
        simp only [readExact, hslice]
      simp only [bind, Except.bind, hread]

/-- The steps of a successful read. -/
theorem readBlock_eq_ok : readBlock data c d = .ok block ↔
    ∃ n offset payload version count bytes, tryToUnsigned 64 d.payloadBytes = .ok n ∧
      tryToUnsigned 64 d.fileOffset = .ok offset ∧ readExact data offset n = .ok payload ∧
      tryToUnsigned 16 d.formatVersion = .ok version ∧
      tryToUnsigned 32 d.messageCount = .ok count ∧
      tryToUnsigned 32 d.uncompressedBytes = .ok bytes ∧
      ⟨version, c, d.firstEventAtMs, d.lastEventAtMs, count, bytes, d.checksum, payload⟩ =
        block := by
  simp only [readBlock, Except.bind_eq_ok, pure, Except.pure, Except.ok.injEq, exists_and_left]

/-- **What was written is read**, by way of its row. -/
theorem readBlock_rowOf {next : ℤ} {written : SegmentFiles} (hchannel : block.channelKey = c)
    (hversion : block.formatVersion < 2 ^ 16) (hcount : block.messageCount < 2 ^ 32)
    (hbytes : block.uncompressedBytes < 2 ^ 32)
    (hlength : ((data.length + block.payload.length : ℕ) : ℤ) ≤ i64Max) :
    readBlock (data ++ block.payload) c (rowOf written c next block data.length) = .ok block := by
  have hmax : (i64Max : ℤ) = 2 ^ 63 - 1 := rfl
  have hread : readExact (data ++ block.payload) data.length block.payload.length =
      .ok block.payload := by
    have hslice : ((data ++ block.payload).drop data.length).take block.payload.length =
        block.payload := slice_end data block.payload
    simp only [readExact, hslice, if_true]
  refine readBlock_eq_ok.mpr ⟨block.payload.length, data.length, block.payload,
    block.formatVersion, block.messageCount, block.uncompressedBytes,
    tryToUnsigned_natCast (by omega), tryToUnsigned_natCast (by omega), hread,
    tryToUnsigned_natCast hversion, tryToUnsigned_natCast hcount, tryToUnsigned_natCast hbytes, ?_⟩
  rw [← hchannel]
  rfl

/-! ### Files that can be read -/

/-- The blocks of the index lie in the file, apart from each other, and can be read and decoded. -/
structure Consistent (codec : Codec (List UInt8)) (state : SegmentFiles) : Prop where
  nonneg : ∀ row ∈ state.segmentBlocks.rows, 0 ≤ row.fileOffset ∧ 0 ≤ row.payloadBytes
  packed : Packed extentOf (· ∈ state.segmentBlocks.rows) state.data.length
  decodes : ∀ row ∈ state.segmentBlocks.rows, ∃ block records,
    readBlock state.data row.channelKey row = .ok block ∧ block.decode codec = .ok records
  /-- The end of a block fits a column. -/
  fits : ∀ row ∈ state.segmentBlocks.rows, ((extentOf row).stop : ℤ) ≤ i64Max

/-- The same records under another file. -/
structure SameRecords (codec : Codec (List UInt8)) (state state' : SegmentFiles) : Prop where
  channels : state.channels = state'.channels
  segmentBlocks : state.segmentBlocks = state'.segmentBlocks
  query : ∀ request, query codec state request = query codec state' request

theorem consistent_new : Consistent codec (SegmentState.new : SegmentFiles) where
  nonneg _ hrow := absurd hrow List.not_mem_nil
  packed := ⟨fun _ hrow => absurd hrow List.not_mem_nil,
    fun _ _ hrow => absurd hrow List.not_mem_nil⟩
  decodes _ hrow := absurd hrow List.not_mem_nil
  fits _ hrow := absurd hrow List.not_mem_nil

/-- **A file that reads the same** where blocks are is as good. -/
theorem Consistent.withData (h : Consistent codec state)
    (hroom : ∀ row ∈ state.segmentBlocks.rows, (extentOf row).stop ≤ data.length)
    (hslice : ∀ row ∈ state.segmentBlocks.rows,
      slice data (extentOf row) = slice state.data (extentOf row)) :
    Consistent codec { state with data } ∧ SameRecords codec { state with data } state := by
  refine ⟨⟨h.nonneg, h.packed.room hroom, fun row hrow => ?_, h.fits⟩, rfl, rfl, fun request => ?_⟩
  · obtain ⟨block, records, hread, hdecode⟩ := h.decodes row hrow
    refine ⟨block, records, ?_, hdecode⟩
    rw [← hread]
    exact readBlock_congr (hslice row hrow)
  · show request.answer _ = request.answer _
    congr 1
    refine Except.mapM_congr fun row hrow => ?_
    have hmem := (SegmentState.mem_blocksOf.mp hrow).1
    rw [readBlock_congr (hslice row hmem)]

/-- A file with more bytes. -/
theorem Consistent.extend (h : Consistent codec state) (hdata : state.data <+: data) :
    Consistent codec { state with data } ∧ SameRecords codec { state with data } state := by
  obtain ⟨more, rfl⟩ := hdata
  refine h.withData (fun row hrow => ?_) fun row hrow => slice_append (h.packed.inside row hrow)
  have hstop := h.packed.inside row hrow
  rw [List.length_append]
  omega

/-! ### What an append does to the file -/

/-- An append has come from `before` to `state`. -/
structure Grows (codec : Codec (List UInt8)) (before state : SegmentFiles) : Prop where
  consistent : Consistent codec state
  data : before.data <+: state.data

/-- What was there before an append is still in the file when it is stopped. -/
def Keeps (data : List UInt8) : Interrupt → Prop
  | .failed _ data' => data <+: data'
  | .crashed data' _ => data <+: data'
  | .crashedAfterCommit _ => False

theorem Keeps.trans {interrupt : Interrupt} (hdata : data <+: data') (h : Keeps data' interrupt) :
    Keeps data interrupt := by
  cases interrupt with
  | failed error written => exact hdata.trans h
  | crashed written kept => exact hdata.trans h
  | crashedAfterCommit committed => exact h

theorem writeAll_meets (data payload : List UInt8) (outcome : FileOutcome) :
    (writeAll data payload outcome).Meets
      (fun data' => data' = data ++ payload ∧ ((data.length + payload.length : ℕ) : ℤ) ≤ i64Max)
      (Keeps data) := by
  cases outcome with
  | done =>
    rw [writeAll]
    split
    · rename_i hfits
      exact ⟨rfl, by exact_mod_cast hfits⟩
    · exact List.prefix_rfl
  | fails error written => exact List.prefix_append _ _
  | crash kept => exact List.prefix_append _ _

/-- **The row of a payload** that was just written. -/
theorem Grows.insertRow {level : ℤ} {records : List CanonicalRecord} (h : Grows codec before state)
    (hchannel : ∀ r ∈ records, r.channelKey = c)
    (hblock : EncodedBlock.encode codec records level = .ok block)
    (hlength : ((state.data.length + block.payload.length : ℕ) : ℤ) ≤ i64Max)
    {row : SegmentBlock} {written : SegmentFiles} {next : ℤ}
    (hrow : row = rowOf written c next block state.data.length) :
    Grows codec before { state with
      data := state.data ++ block.payload
      segmentBlocks := state.segmentBlocks.insertIgnore row } := by
  -- the payload is behind all others, so their rows read as before
  obtain ⟨hold, -⟩ := h.consistent.extend (List.prefix_append state.data block.payload)
  have hoffset : (extentOf row).offset = state.data.length := by
    rw [hrow]
    exact Int.toNat_natCast _
  have hsize : (extentOf row).size = block.payload.length := by
    rw [hrow]
    exact Int.toNat_natCast _
  have hstop : (extentOf row).stop = state.data.length + block.payload.length := by
    rw [stop, hoffset, hsize]
  -- the index has one row more
  have hrows : ∀ r, r ∈ (state.segmentBlocks.insertIgnore row).rows →
      r ∈ state.segmentBlocks.rows ∨ r = row :=
    fun r hr => (KeyTable.mem_insertIgnore.mp hr).imp id And.left
  refine ⟨⟨?_, ?_, ?_, ?_⟩, h.data.trans (List.prefix_append _ _)⟩
  -- no offset or length is negative
  · intro r hr
    rcases hrows r hr with hr | rfl
    · exact hold.nonneg r hr
    · rw [hrow]
      exact ⟨Int.natCast_nonneg _, Int.natCast_nonneg _⟩
  -- the payloads lie apart
  · refine h.consistent.packed.concat hrows hoffset ?_
    rw [hstop, List.length_append]
  -- every row can be read and decoded
  · intro r hr
    rcases hrows r hr with hr | rfl
    · exact hold.decodes r hr
    · obtain ⟨-, -, -, -, hversion, -⟩ := EncodedBlock.encode_eq_ok hblock
      obtain ⟨hcount, hbytes⟩ := EncodedBlock.counts_lt_of_encode hblock
      have hsmall : block.formatVersion < 2 ^ 16 := by
        rw [hversion, blockFormatVersion]
        omega
      have hread : readBlock (state.data ++ block.payload) c
          (rowOf written c next block state.data.length) = .ok block :=
        readBlock_rowOf (channel_of_encode hchannel hblock) hsmall hcount hbytes hlength
      rw [← hrow] at hread
      refine ⟨block, records, ?_, EncodedBlock.decode_of_encode hblock⟩
      have hc : r.channelKey = c := by rw [hrow]; rfl
      rw [hc]
      exact hread
  -- the offsets fit a column
  · intro r hr
    rcases hrows r hr with hr | rfl
    · exact hold.fits r hr
    · rw [hstop]
      exact hlength

/-- **A block and its row.** -/
theorem insertBlock_meets {level : ℤ} {records : List CanonicalRecord}
    (h : Grows codec before state) (hchannel : ∀ r ∈ records, r.channelKey = c)
    (hblock : EncodedBlock.encode codec records level = .ok block) (sequence : ℤ)
    (outcome : FileOutcome) :
    (insertBlock state c sequence block outcome).Meets (Grows codec before)
      (Keeps before.data) := by
  have hwrite := (writeAll_meets state.data block.payload outcome).mono (fun _ hd => hd)
    fun interrupt hkeeps => Keeps.trans h.data hkeeps
  refine hwrite.bind ?_
  rintro data ⟨rfl, hlength⟩
  have hdata : before.data <+: state.data ++ block.payload :=
    h.data.trans (List.prefix_append _ _)
  have hconvert : ∀ n : ℕ, (tryFromU64 n).Meets (fun _ => True)
      fun e => Keeps before.data (.failed e (state.data ++ block.payload)) := by
    intro n
    unfold tryFromU64
    split
    · trivial
    · exact hdata
  rw [Except.meets_mapError]
  refine (hconvert _).bind fun _ _ => (hconvert _).bind fun _ _ => ?_
  split
  · exact hdata
  · exact h.insertRow hchannel hblock hlength rfl

/-- **The blocks of a batch.** -/
theorem insertChunks_meets {records : List CanonicalRecord}
    (hchannel : ∀ r ∈ records, r.channelKey = c) {progress : Progress}
    (h : Grows codec before progress.state) :
    (insertChunks codec sizes c records progress).Meets (fun p => Grows codec before p.state)
      (Keeps before.data) := by
  refine Except.foldlM_meets (fun p chunk hchunk hp => ?_) h
  have hchunk : ∀ r ∈ chunk, r.channelKey = c :=
    fun r hr => hchannel r (mem_of_mem_chunks hchunk hr)
  refine Except.Meets.bind_eq ?_ fun block hblock => ?_
  · rw [Except.meets_mapError]
    rcases EncodedBlock.encode codec chunk storeCompressionLevel with e | block
    · exact hp.data
    · trivial
  · have hblock := Except.mapError_eq_ok.mp hblock
    exact (insertBlock_meets hp hchunk hblock p.sequence _).bind fun _ hgrows => hgrows

/-- Retention leaves the file, and rows. -/
theorem evictOldest_rows (sizes : BlockSizes) (c : String) (rounds : ℕ) (state : SegmentFiles)
    (retained : ℤ) :
    (SegmentState.evictOldest sizes c rounds state retained).1.data = state.data ∧
      ∀ row ∈ (SegmentState.evictOldest sizes c rounds state retained).1.segmentBlocks.rows,
        row ∈ state.segmentBlocks.rows := by
  induction rounds generalizing state retained with
  | zero => exact ⟨rfl, fun _ hrow => hrow⟩
  | succ rounds ih =>
    rw [SegmentState.evictOldest]
    split
    · split
      · exact ⟨rfl, fun _ hrow => hrow⟩
      · obtain ⟨hdata, hrows⟩ := ih { state with segmentBlocks := _ } _
        exact ⟨hdata, fun row hrow => (KeyTable.mem_erase.mp (hrows row hrow)).1⟩
    · exact ⟨rfl, fun _ hrow => hrow⟩

/-- Rows may go. -/
theorem Grows.fewer {state' : SegmentFiles} (h : Grows codec before state)
    (hdata : state'.data = state.data)
    (hrows : ∀ row ∈ state'.segmentBlocks.rows, row ∈ state.segmentBlocks.rows) :
    Grows codec before state' := by
  refine ⟨⟨fun row hrow => h.consistent.nonneg row (hrows row hrow), ?_, fun row hrow => ?_,
    fun row hrow => h.consistent.fits row (hrows row hrow)⟩, by rw [hdata]; exact h.data⟩
  · rw [hdata]
    exact h.consistent.packed.subset hrows
  · rw [hdata]
    exact h.consistent.decodes row (hrows row hrow)

/-- **A batch.** -/
theorem appendTransaction_meets (h : Grows codec before state) {batch : List CanonicalRecord}
    (hchannel : ∀ r ∈ batch, r.channelKey = c) (writes : List FileOutcome) :
    (appendTransaction codec sizes state c batch writes).Meets (fun p => Grows codec before p.1)
      (Keeps before.data) := by
  have hinsert : Grows codec before (SegmentState.insertChannel state c) :=
    h.fewer rfl fun _ hrow => hrow
  -- what is read before anything is written changes nothing
  have hreads : ∀ {α : Type} (x : Except StoreError α), (x.mapError fun e =>
      Interrupt.failed e (SegmentState.insertChannel state c).data).Meets (fun _ => True)
        (Keeps before.data) := by
    intro α x
    rw [Except.meets_mapError]
    cases x with
    | ok a => trivial
    | error e => exact hinsert.data
  refine (hreads _).bind fun blocks _ => (hreads _).bind fun decoded _ => ?_
  dsimp only
  split
  · exact hinsert
  · split
    · exact hinsert.data
    · rename_i row hrow
      refine (insertChunks_meets (fun r hr => ?_) hinsert).bind fun p hp => ?_
      · exact hchannel r ((mem_sortByKey.mp (mem_of_mem_retainNew hr).1))
      · obtain ⟨hdata, hrows⟩ := evictOldest_rows sizes c
          p.state.segmentBlocks.rows.length p.state p.retained
        exact hp.fewer hdata hrows

/-- **The batches of an append.** -/
theorem appendBatches_meets (sizes : BlockSizes) (h : Consistent codec before)
    {batches : List (List CanonicalRecord)}
    (hbatches : batches.any SegmentState.mixedChannels = false) (writes : List FileOutcome) :
    (appendBatches codec sizes before batches writes).Meets (fun p => Grows codec before p.1)
      (Keeps before.data) := by
  have hnew : Grows codec before before := ⟨h, List.prefix_rfl⟩
  unfold appendBatches
  refine Except.foldlM_meets ?_ hnew
  rintro ⟨state, writes⟩ batch hbatch hgrows
  cases batch with
  | nil => exact hgrows
  | cons first rest =>
    have hmixed : SegmentState.mixedChannels (first :: rest) = false := by
      have hall := List.any_eq_false.mp hbatches (first :: rest) hbatch
      simpa using hall
    exact appendTransaction_meets hgrows (CanonicalRecord.mixed_eq_false.mp hmixed) writes

/-! ### An append that is not stopped

What an append has done when nothing stopped it does not depend on the plan. -/

theorem insertBlock_faultless {state' : SegmentFiles} {sequence : ℤ} {outcome : FileOutcome}
    (h : insertBlock state c sequence block outcome = .ok state') :
    insertBlock state c sequence block .done = .ok state' := by
  obtain ⟨data, hwrite, hrow⟩ := Except.bind_eq_ok.mp h
  cases outcome with
  | done => exact h
  | fails error written => cases hwrite
  | crash kept => cases hwrite

theorem insertChunks_faultless {records : List CanonicalRecord} {p p' : Progress}
    (h : insertChunks codec sizes c records p = .ok p') :
    insertChunks codec sizes c records { p with writes := [] } = .ok { p' with writes := [] } := by
  suffices hfollows : ∃ q, insertChunks codec sizes c records { p with writes := [] } = .ok q ∧
      q = { p' with writes := [] } by
    obtain ⟨q, hq, rfl⟩ := hfollows
    exact hq
  refine Except.foldlM_follows (I := fun p q => q = { p with writes := [] }) ?_ rfl h
  rintro p q chunk p' rfl hstep
  obtain ⟨block, hblock, hstep⟩ := Except.bind_eq_ok.mp hstep
  obtain ⟨state, hinsert, hstep⟩ := Except.bind_eq_ok.mp hstep
  cases hstep
  exact ⟨_, Except.bind_eq_ok.mpr ⟨block, hblock, Except.bind_eq_ok.mpr
    ⟨state, insertBlock_faultless hinsert, rfl⟩⟩, rfl⟩

theorem appendTransaction_faultless {batch : List CanonicalRecord} {writes : List FileOutcome}
    {out : SegmentFiles × List FileOutcome}
    (h : appendTransaction codec sizes state c batch writes = .ok out) :
    appendTransaction codec sizes state c batch [] = .ok (out.1, []) := by
  obtain ⟨blocks, hblocks, h⟩ := Except.bind_eq_ok.mp h
  obtain ⟨decoded, hdecoded, h⟩ := Except.bind_eq_ok.mp h
  refine Except.bind_eq_ok.mpr ⟨blocks, hblocks, Except.bind_eq_ok.mpr ⟨decoded, hdecoded, ?_⟩⟩
  dsimp only at h ⊢
  split at h
  · rename_i hempty
    cases h
    exact if_pos hempty
  · rename_i hnew
    rw [if_neg hnew]
    split at h
    · cases h
    · obtain ⟨p, hp, h⟩ := Except.bind_eq_ok.mp h
      cases h
      exact Except.bind_eq_ok.mpr ⟨_, insertChunks_faultless hp, rfl⟩

theorem appendBatches_faultless {batches : List (List CanonicalRecord)}
    {writes : List FileOutcome} {out : SegmentFiles × List FileOutcome}
    (h : appendBatches codec sizes state batches writes = .ok out) :
    appendBatches codec sizes state batches [] = .ok (out.1, []) := by
  suffices hfollows : ∃ q, appendBatches codec sizes state batches [] = .ok q ∧
      q = (out.1, []) by
    obtain ⟨q, hq, rfl⟩ := hfollows
    exact hq
  refine Except.foldlM_follows (I := fun p q => q = (p.1, [])) ?_ rfl h
  rintro ⟨state, writes⟩ q batch p' rfl hstep
  cases batch with
  | nil =>
    cases hstep
    exact ⟨_, rfl, rfl⟩
  | cons first rest => exact ⟨_, appendTransaction_faultless hstep, rfl⟩

/-! ### What an append can do -/

/-- The append of `batches` that nothing disturbs ends in `state`. -/
def Commits (codec : Codec (List UInt8)) (sizes : BlockSizes) (before : SegmentFiles)
    (batches : List (List CanonicalRecord)) (state : SegmentFiles) : Prop :=
  appendChannelBatches codec sizes .faultless before batches = (.returned (.ok ()), state)

/-- The ways in which an append can end. -/
inductive Appended (codec : Codec (List UInt8)) (sizes : BlockSizes) (before : SegmentFiles)
    (batches : List (List CanonicalRecord)) : AppendOutcome × SegmentFiles → Prop
  | committed (state : SegmentFiles) (hgrows : Grows codec before state)
      (hcommits : Commits codec sizes before batches state) :
      Appended codec sizes before batches (.returned (.ok ()), state)
  | failed (error : StoreError) :
      Appended codec sizes before batches (.returned (.error error), before)
  /-- The index is as it was; the file may be longer. -/
  | crashedBefore (data : List UInt8) (hdata : before.data <+: data) :
      Appended codec sizes before batches (.crashed, { before with data })
  | crashedAfter (state : SegmentFiles) (hgrows : Grows codec before state)
      (hcommits : Commits codec sizes before batches state) :
      Appended codec sizes before batches (.crashed, state)

theorem take_length_of_extends (h : before.data <+: data) :
    data.take before.data.length = before.data :=
  (List.prefix_iff_eq_take.mp h).symm

theorem extends_take (h : before.data <+: data) (kept : ℕ) :
    before.data <+: data.take (before.data.length + kept) := by
  obtain ⟨more, rfl⟩ := h
  rw [List.take_length_add_append]
  exact List.prefix_append _ _

/-- **What an append can do.** -/
theorem appended (sizes : BlockSizes) (h : Consistent codec before) (plan : AppendPlan)
    (batches : List (List CanonicalRecord)) :
    Appended codec sizes before batches
      (appendChannelBatches codec sizes plan before batches) := by
  rw [appendChannelBatches]
  split
  · exact .failed _
  · rename_i hmixed
    have hmixed : batches.any SegmentState.mixedChannels = false := Bool.eq_false_iff.mpr hmixed
    -- an interrupt that leaves the index
    have hfailed : ∀ error data, before.data <+: data → Appended codec sizes before batches
        (match plan.truncation with
        | none => (.returned (.error error),
          { before with data := data.take before.data.length })
        | some kept => (.crashed,
          { before with data := data.take (before.data.length + kept) })) := by
      intro error data hdata
      split
      · rw [take_length_of_extends hdata]
        exact .failed error
      · exact .crashedBefore _ (extends_take hdata _)
    have hmeets := appendBatches_meets sizes h hmixed plan.writes
    rw [commitBatches]
    rcases happend : appendBatches codec sizes before batches plan.writes with
      interrupt | ⟨state, writes⟩ <;> rw [happend] at hmeets
    · cases interrupt with
      | failed error data => exact hfailed error data hmeets
      | crashed data kept => exact .crashedBefore _ (extends_take hmeets _)
      | crashedAfterCommit state => exact hmeets.elim
    · have hgrows : Grows codec before state := hmeets
      have hcommits : Commits codec sizes before batches state := by
        rw [Commits, appendChannelBatches, hmixed, commitBatches,
          AppendPlan.faultless, appendBatches_faultless happend]
        rfl
      dsimp only [bind, Except.bind]
      cases plan.sync with
      | fails error written => exact hfailed _ _ hgrows.data
      | crash kept => exact .crashedBefore _ (extends_take hgrows.data _)
      | done =>
        cases plan.commit with
        | done => exact .committed state hgrows hcommits
        | fails error => exact hfailed _ _ hgrows.data
        | crash committed =>
          cases committed with
          | true => exact .crashedAfter state hgrows hcommits
          | false => exact .crashedBefore _ (extends_take hgrows.data _)

/-! ### Opening -/

/-- The indexed end is an end of the file, behind every block. -/
theorem indexedEnd_spec (h : Consistent codec state) :
    ∃ n : ℕ, indexedEnd state = n ∧ (n : ℤ) ≤ i64Max ∧ n ≤ state.data.length ∧
      ∀ row ∈ state.segmentBlocks.rows, (extentOf row).stop ≤ n := by
  have hstop : ∀ row ∈ state.segmentBlocks.rows,
      row.fileOffset + row.payloadBytes = ((extentOf row).stop : ℤ) := by
    intro row hrow
    obtain ⟨hoffset, hsize⟩ := h.nonneg row hrow
    rw [stop, extentOf, Nat.cast_add, Int.toNat_of_nonneg hoffset, Int.toNat_of_nonneg hsize]
  rw [indexedEnd]
  rcases hmax : (state.segmentBlocks.rows.map fun row =>
    row.fileOffset + row.payloadBytes).max? with - | m
  · have hnil := List.map_eq_nil_iff.mp (List.max?_eq_none_iff.mp hmax)
    refine ⟨0, by rw [hmax]; rfl, by decide, Nat.zero_le _, fun row hrow => ?_⟩
    rw [hnil] at hrow
    cases hrow
  · obtain ⟨hmem, hle⟩ := List.max?_eq_some_iff.mp hmax
    obtain ⟨last, hlast, rfl⟩ := List.mem_map.mp hmem
    refine ⟨(extentOf last).stop, by rw [hmax]; exact hstop last hlast, h.fits last hlast,
      h.packed.inside last hlast, fun row hrow => ?_⟩
    have hrow' := hle _ (List.mem_map_of_mem hrow)
    rw [hstop row hrow, hstop last hlast] at hrow'
    exact Int.ofNat_le.mp hrow'

/-- **Opening succeeds** and loses no record. -/
theorem openFiles_spec (h : Consistent codec state) :
    ∃ opened, openFiles state = .ok opened ∧ Consistent codec opened ∧
      SameRecords codec opened state := by
  obtain ⟨n, hend, hmax, hle, hstops⟩ := indexedEnd_spec h
  have hunsigned : tryToUnsigned 64 (n : ℤ) = .ok n := by
    have hi64 : (i64Max : ℤ) = 2 ^ 63 - 1 := rfl
    exact tryToUnsigned_natCast (by omega)
  have hlength : (state.data.take n).length = n := by
    rw [List.length_take, Nat.min_eq_left hle]
  obtain ⟨hconsistent, hsame⟩ : Consistent codec { state with data := state.data.take n } ∧
      SameRecords codec { state with data := state.data.take n } state :=
    h.withData (fun row hrow => by rw [hlength]; exact hstops row hrow)
      fun row hrow => slice_take (hstops row hrow)
  refine ⟨{ state with data := state.data.take n }, ?_, hconsistent, hsame⟩
  rw [openFiles, hend, if_neg (not_lt.mpr hmax), hunsigned]
  exact if_neg (Nat.not_lt.mpr hle)

end SegmentFiles

/-! ### Runs -/

/-- What happens to a store. -/
inductive SegmentEvent
  | append (batches : List (List CanonicalRecord)) (plan : AppendPlan)
  | reopen

/-- The files of a store, and whether a process has it open. -/
structure SegmentBlockStore where
  files : SegmentFiles
  opened : Bool

namespace SegmentBlockStore

open SegmentFiles

variable (codec : Codec (List UInt8)) (sizes : BlockSizes)

/-- Before it is opened for the first time. -/
def fresh : SegmentBlockStore := ⟨SegmentState.new, false⟩

/-- One event.  A process that has crashed appends nothing. -/
def step (s : SegmentBlockStore) : SegmentEvent → SegmentBlockStore
  | .append batches plan =>
    if s.opened then
      match appendChannelBatches codec sizes plan s.files batches with
      | (.returned _, files) => ⟨files, true⟩
      | (.crashed, files) => ⟨files, false⟩
    else
      s
  | .reopen =>
    match openFiles s.files with
    | .ok files => ⟨files, true⟩
    | .error _ => ⟨s.files, false⟩

/-- A run from a new store. -/
def run (events : List SegmentEvent) : SegmentBlockStore :=
  events.foldl (step codec sizes) fresh

variable {codec} {sizes} {s : SegmentBlockStore}

theorem consistent_step (h : Consistent codec s.files) (event : SegmentEvent) :
    Consistent codec (s.step codec sizes event).files := by
  cases event with
  | append batches plan =>
    rw [step]
    split
    · have happended := appended sizes h plan batches
      generalize appendChannelBatches codec sizes plan s.files batches = result at happended
      cases happended with
      | committed state hgrows hcommits => exact hgrows.consistent
      | failed error => exact h
      | crashedBefore data hdata => exact (h.extend hdata).1
      | crashedAfter state hgrows hcommits => exact hgrows.consistent
    · exact h
  | reopen =>
    obtain ⟨opened, hopen, hconsistent, -⟩ := openFiles_spec h
    rw [step, hopen]
    exact hconsistent

theorem consistent_run (codec : Codec (List UInt8)) (sizes : BlockSizes)
    (events : List SegmentEvent) :
    Consistent codec (run codec sizes events).files := by
  have hnew : Consistent codec fresh.files := consistent_new
  exact List.foldlRecOn (motive := fun s => Consistent codec s.files) events (step codec sizes)
    hnew fun _ hs event _ => consistent_step hs event

/-- **The segment store is crash consistent.**  After every run of appends, crashes and reopenings
the indexed blocks lie inside the file and apart from each other, and all of them can be read and
decoded; opening the store succeeds and shows the records that it held.  An append that crashes
leaves a store that opens with the records from before it, or with those that the append would have
left; and an append that returns an error leaves everything as it was. -/
theorem segment_store_crash_consistent (codec : Codec (List UInt8)) (sizes : BlockSizes)
    (events : List SegmentEvent) :
    Consistent codec (run codec sizes events).files ∧
    (∃ opened, openFiles (run codec sizes events).files = .ok opened ∧
      Consistent codec opened ∧ SameRecords codec opened (run codec sizes events).files) ∧
    (∀ batches plan disk,
      appendChannelBatches codec sizes plan (run codec sizes events).files batches =
        (.crashed, disk) →
      ∃ opened, openFiles disk = .ok opened ∧ Consistent codec opened ∧
        (SameRecords codec opened (run codec sizes events).files ∨
          ∃ state, Commits codec sizes (run codec sizes events).files batches state ∧
            SameRecords codec opened state)) ∧
    (∀ batches plan error disk,
      appendChannelBatches codec sizes plan (run codec sizes events).files batches =
        (.returned (.error error), disk) →
      disk = (run codec sizes events).files) := by
  have h := consistent_run codec sizes events
  generalize (run codec sizes events).files = files at h
  refine ⟨h, openFiles_spec h, fun batches plan disk hcrash => ?_,
    fun batches plan e disk hfail => ?_⟩
  · have happended := appended sizes h plan batches
    rw [hcrash] at happended
    cases happended with
    | crashedBefore data hdata =>
      -- what was written behind the indexed blocks is cut off by `open`
      obtain ⟨hdisk, hrecords⟩ := h.extend hdata
      obtain ⟨opened, hopen, hconsistent, hsame⟩ := openFiles_spec hdisk
      refine ⟨opened, hopen, hconsistent, .inl ⟨hsame.channels.trans hrecords.channels,
        hsame.segmentBlocks.trans hrecords.segmentBlocks, fun request => ?_⟩⟩
      exact (hsame.query request).trans (hrecords.query request)
    | crashedAfter state hgrows hcommits =>
      -- the index is committed, and its blocks are in the file
      obtain ⟨opened, hopen, hconsistent, hsame⟩ := openFiles_spec hgrows.consistent
      exact ⟨opened, hopen, hconsistent, .inr ⟨_, hcommits, hsame⟩⟩
  · have happended := appended sizes h plan batches
    rw [hfail] at happended
    cases happended
    rfl

end SegmentBlockStore

end RecentMessages
