/-
RecentMessages/Storage/SegmentRefinement.lean

The segment store on the disk refines the one whose file is the list of the payloads that were
written: the file on the disk has these payloads one behind the other (`laid`).

What a read finds in the list it finds in the file (`query_laid`), and an append that the list
takes is the one that commits when nothing disturbs it (`commits_laid`), as long as the file fits
an `i64`.  So a store on the disk whose appends are not disturbed is always the file of such a list
(`run_laid`).
-/
import RecentMessages.Storage.SegmentFile

namespace RecentMessages

open CanonicalRecord

namespace SegmentFiles

/-- The payloads one behind the other, under the same index. -/
def laid (state : SegmentState (List UInt8)) : SegmentFiles where
  data := state.data.flatten
  channels := state.channels
  segmentBlocks := state.segmentBlocks

/-- The end of the file fits a column. -/
def Fits (codec : Codec (List UInt8)) (state : SegmentState (List UInt8)) : Prop :=
  (SegmentState.fileLength codec state.data : ℤ) ≤ i64Max

variable {codec : Codec (List UInt8)} {sizes : BlockSizes}
  {state state' : SegmentState (List UInt8)} {data : List (List UInt8)} {c : String}
  {d : SegmentBlock} {block : EncodedBlock (List UInt8)}

/-! ### Reads -/

section Reads

variable (hlen : ∀ payload, codec.len payload = payload.length)

include hlen

theorem fileLength_eq (data : List (List UInt8)) :
    SegmentState.fileLength codec data = data.flatten.length := by
  rw [SegmentState.fileLength, List.length_flatten, List.map_congr_left fun p _ => hlen p]

/-- **A payload of the list** is where it should be in the file. -/
theorem readExact_flatten {offset n : ℕ} {payload : List UInt8}
    (h : SegmentState.readExact codec data offset n = .ok payload) :
    readExact data.flatten offset n = .ok payload := by
  induction data generalizing offset with
  | nil => cases h
  | cons p data ih =>
    unfold SegmentState.readExact at h
    split at h
    · rename_i hhere
      obtain ⟨rfl, hsize⟩ := hhere
      cases h
      have hslice : ((payload ++ data.flatten).drop 0).take n = payload := by
        rw [List.drop_zero, ← hsize, hlen, List.take_left]
      rw [List.flatten_cons, readExact, hslice, ← hlen, if_pos hsize]
    · split at h
      · -- it lies behind the first payload
        rename_i hbehind
        rw [hlen] at hbehind h
        have hslice : (p ++ data.flatten).drop offset = data.flatten.drop (offset - p.length) := by
          rw [List.drop_append, List.drop_eq_nil_of_le hbehind, List.nil_append]
        have hrest := ih h
        rw [readExact] at hrest ⊢
        rw [List.flatten_cons, hslice]
        exact hrest
      · cases h

theorem readBlock_flatten (h : SegmentState.readBlock codec data c d = .ok block) :
    readBlock data.flatten c d = .ok block := by
  obtain ⟨n, offset, payload, version, count, bytes, hn, hoffset, hread, hrest⟩ :=
    SegmentState.readBlock_eq_ok.mp h
  exact readBlock_eq_ok.mpr ⟨n, offset, payload, version, count, bytes, hn, hoffset,
    readExact_flatten hlen hread, hrest⟩

theorem loadChannelBlocks_laid {blocks : List (EncodedBlock (List UInt8))}
    (h : state.loadChannelBlocks codec c = .ok blocks) :
    loadChannelBlocks (laid state) c = .ok blocks :=
  Except.mapM_mono (fun _ _ hread => readBlock_flatten hlen hread) h

/-- **What the list answers** the file answers. -/
theorem query_laid {request : QueryRequest} {result : LocalResult}
    (h : state.query codec request = .ok result) :
    query codec (laid state) request = .ok result := by
  rw [SegmentState.query, QueryRequest.answer] at h
  rw [query, QueryRequest.answer]
  split at h
  · cases h
  · rename_i hlimit
    obtain ⟨decoded, hdecoded, hresult⟩ := Except.bind_eq_ok.mp h
    rw [if_neg hlimit]
    refine Except.bind_eq_ok.mpr ⟨decoded, Except.mapM_mono (fun d records hd => ?_) hdecoded,
      hresult⟩
    obtain ⟨block, hread, hdecode⟩ := Except.bind_eq_ok.mp hd
    exact Except.bind_eq_ok.mpr ⟨block, readBlock_flatten hlen hread, hdecode⟩

end Reads

/-! ### Appends -/

theorem fileLength_append (codec : Codec (List UInt8)) (data more : List (List UInt8)) :
    SegmentState.fileLength codec (data ++ more) =
      SegmentState.fileLength codec data + SegmentState.fileLength codec more := by
  rw [SegmentState.fileLength, List.map_append, List.sum_append]
  rfl

/-- A file that only grew fitted before. -/
theorem Fits.of_extends (h : Fits codec state') (hdata : state.data <+: state'.data) :
    Fits codec state := by
  obtain ⟨more, hmore⟩ := hdata
  rw [Fits, ← hmore, fileLength_append] at h
  rw [Fits]
  omega

theorem extends_insertBlock {sequence : ℤ}
    (h : state.insertBlock codec c sequence block = .ok state') : state.data <+: state'.data := by
  obtain ⟨_, -, h⟩ := Except.bind_eq_ok.mp h
  obtain ⟨_, -, h⟩ := Except.bind_eq_ok.mp h
  split at h
  · cases h
  · cases h
    exact List.prefix_append _ _

theorem extends_insertChunks {records : List CanonicalRecord}
    {sequence retained sequence' retained' : ℤ}
    (h : state.insertChunks codec sizes c records sequence retained =
      .ok (state', sequence', retained')) : state.data <+: state'.data := by
  refine Except.foldlM_back (P := fun p : SegmentState (List UInt8) × ℤ × ℤ =>
    p.1.data <+: state'.data) ?_ h List.prefix_rfl
  intro p chunk p' hstep hdata
  obtain ⟨_, -, hstep⟩ := Except.bind_eq_ok.mp hstep
  obtain ⟨state₁, hinsert, hstep⟩ := Except.bind_eq_ok.mp hstep
  cases hstep
  exact (extends_insertBlock hinsert).trans hdata

theorem data_evictOldest (sizes : BlockSizes) (c : String) (rounds : ℕ)
    (state : SegmentState (List UInt8)) (retained : ℤ) :
    (SegmentState.evictOldest sizes c rounds state retained).1.data = state.data := by
  induction rounds generalizing state retained with
  | zero => rfl
  | succ rounds ih =>
    rw [SegmentState.evictOldest]
    split
    · split
      · rfl
      · exact ih _ _
    · rfl

theorem extends_appendTransaction {batch : List CanonicalRecord}
    (h : state.appendTransaction codec sizes c batch = .ok state') :
    state.data <+: state'.data := by
  obtain ⟨_, -, h⟩ := Except.bind_eq_ok.mp h
  obtain ⟨_, -, h⟩ := Except.bind_eq_ok.mp h
  dsimp only at h
  split at h
  · cases h
    exact List.prefix_rfl
  · split at h
    · cases h
    · obtain ⟨⟨state₁, sequence, retained⟩, hinsert, h⟩ := Except.bind_eq_ok.mp h
      cases h
      have hdata : (state.insertChannel c).data <+: state₁.data := extends_insertChunks hinsert
      rw [← data_evictOldest sizes c state₁.segmentBlocks.rows.length state₁ retained] at hdata
      exact hdata

/-- One round of the loop over the batches. -/
theorem extends_batch {batch : List CanonicalRecord}
    (h : (match batch with
      | [] => Except.ok state
      | first :: _ => state.appendTransaction codec sizes first.channelKey batch) = .ok state') :
    state.data <+: state'.data := by
  cases batch with
  | nil =>
    cases h
    exact List.prefix_rfl
  | cons first rest => exact extends_appendTransaction h

theorem extends_appendChannelBatches {batches : List (List CanonicalRecord)}
    (h : state.appendChannelBatches codec sizes batches = .ok state') :
    state.data <+: state'.data := by
  rw [SegmentState.appendChannelBatches] at h
  split at h
  · cases h
  · exact Except.foldlM_back (P := fun p : SegmentState (List UInt8) => p.data <+: state'.data)
      (fun _ _ _ hstep hdata => (extends_batch hstep).trans hdata) h List.prefix_rfl

/-- Retention looks at the index only. -/
theorem evictOldest_laid (sizes : BlockSizes) (c : String) (rounds : ℕ)
    (state : SegmentState (List UInt8)) (retained : ℤ) :
    SegmentState.evictOldest sizes c rounds (laid state) retained =
      (laid (SegmentState.evictOldest sizes c rounds state retained).1,
        (SegmentState.evictOldest sizes c rounds state retained).2) := by
  induction rounds generalizing state retained with
  | zero => rfl
  | succ rounds ih =>
    have hblocks : (laid state).blocksOf c = state.blocksOf c := rfl
    rw [SegmentState.evictOldest, SegmentState.evictOldest, hblocks]
    split
    · split
      · rfl
      · rename_i oldest _ _
        exact ih { state with segmentBlocks := state.segmentBlocks.erase oldest.id } _
    · rfl

section Appends

variable (hlen : ∀ payload, codec.len payload = payload.length)

include hlen

/-- **A payload and its row.** -/
theorem insertBlock_laid {sequence : ℤ}
    (h : state.insertBlock codec c sequence block = .ok state') (hfits : Fits codec state') :
    insertBlock (laid state) c sequence block .done = .ok (laid state') := by
  obtain ⟨offset, hoffset, h⟩ := Except.bind_eq_ok.mp h
  obtain ⟨length, hlength, h⟩ := Except.bind_eq_ok.mp h
  split at h
  · cases h
  · rename_i hunique
    cases h
    rw [fileLength_eq hlen] at hoffset
    rw [hlen] at hlength
    have hroom : (((laid state).data.length + block.payload.length : ℕ) : ℤ) ≤ i64Max := by
      rw [Fits, fileLength_eq hlen, List.flatten_append, List.length_append,
        List.flatten_singleton] at hfits
      exact hfits
    have hwrite : writeAll (laid state).data block.payload .done =
        .ok ((laid state).data ++ block.payload) := if_pos (by exact_mod_cast hroom)
    have hrow : rowOf { laid state with data := (laid state).data ++ block.payload } c sequence
        block (laid state).data.length = state.rowOf codec c sequence block := by
      rw [SegmentState.rowOf, fileLength_eq hlen, hlen]
      rfl
    refine Except.bind_eq_ok.mpr ⟨_, hwrite, Except.mapError_eq_ok.mpr ?_⟩
    refine Except.bind_eq_ok.mpr ⟨offset, hoffset, Except.bind_eq_ok.mpr ⟨length, hlength, ?_⟩⟩
    rw [hrow]
    refine (if_neg hunique).trans (congrArg Except.ok ?_)
    simp only [laid, List.flatten_append, List.flatten_singleton]

/-- **The blocks of a batch.** -/
theorem insertChunks_laid {records : List CanonicalRecord}
    {sequence retained sequence' retained' : ℤ}
    (h : state.insertChunks codec sizes c records sequence retained =
      .ok (state', sequence', retained')) (hfits : Fits codec state') :
    insertChunks codec sizes c records ⟨laid state, sequence, retained, []⟩ =
      .ok ⟨laid state', sequence', retained', []⟩ := by
  suffices hfollows : ∃ q, insertChunks codec sizes c records ⟨laid state, sequence, retained, []⟩ =
      .ok q ∧ q = ⟨laid state', sequence', retained', []⟩ by
    obtain ⟨q, hq, rfl⟩ := hfollows
    exact hq
  refine Except.foldlM_follows_of
    (I := fun (p : SegmentState (List UInt8) × ℤ × ℤ) (q : Progress) =>
      q = ⟨laid p.1, p.2.1, p.2.2, []⟩) (P := fun p => Fits codec p.1) ?_ ?_ rfl h hfits
  · intro p chunk p' hstep hp
    obtain ⟨_, -, hstep⟩ := Except.bind_eq_ok.mp hstep
    obtain ⟨state₁, hinsert, hstep⟩ := Except.bind_eq_ok.mp hstep
    cases hstep
    exact hp.of_extends (extends_insertBlock hinsert)
  · rintro p q chunk p' rfl hstep hp
    obtain ⟨block, hblock, hstep⟩ := Except.bind_eq_ok.mp hstep
    obtain ⟨state₁, hinsert, hstep⟩ := Except.bind_eq_ok.mp hstep
    cases hstep
    have hblock := Except.mapError_eq_ok.mp hblock
    exact ⟨_, Except.bind_eq_ok.mpr ⟨block, Except.mapError_eq_ok.mpr hblock,
      Except.bind_eq_ok.mpr ⟨laid state₁, insertBlock_laid hlen hinsert hp, rfl⟩⟩, rfl⟩

/-- **A batch.** -/
theorem appendTransaction_laid {batch : List CanonicalRecord}
    (h : state.appendTransaction codec sizes c batch = .ok state') (hfits : Fits codec state') :
    appendTransaction codec sizes (laid state) c batch [] = .ok (laid state', []) := by
  obtain ⟨blocks, hblocks, h⟩ := Except.bind_eq_ok.mp h
  obtain ⟨decoded, hdecoded, h⟩ := Except.bind_eq_ok.mp h
  refine Except.bind_eq_ok.mpr ⟨blocks,
    Except.mapError_eq_ok.mpr (loadChannelBlocks_laid hlen hblocks), Except.bind_eq_ok.mpr
      ⟨decoded, Except.mapError_eq_ok.mpr hdecoded, ?_⟩⟩
  dsimp only at h ⊢
  split at h
  · rename_i hempty
    cases h
    exact if_pos hempty
  · rename_i hnew
    rw [if_neg hnew]
    split at h
    · cases h
    · rename_i row hrow
      obtain ⟨⟨state₁, sequence, retained⟩, hinsert, h⟩ := Except.bind_eq_ok.mp h
      cases h
      have hdata := data_evictOldest sizes c state₁.segmentBlocks.rows.length state₁ retained
      have hfits₁ : Fits codec state₁ := hfits.of_extends (hdata ▸ List.prefix_rfl)
      have hrow' : (SegmentState.insertChannel (laid state) c).channels.lookup c = some row := hrow
      rw [hrow']
      refine Except.bind_eq_ok.mpr ⟨_, insertChunks_laid hlen hinsert hfits₁, ?_⟩
      dsimp only
      rw [show (laid state₁).segmentBlocks = state₁.segmentBlocks from rfl, evictOldest_laid]
      rfl

/-- **An append that the list takes** commits when nothing disturbs it. -/
theorem commits_laid {batches : List (List CanonicalRecord)}
    (h : state.appendChannelBatches codec sizes batches = .ok state') (hfits : Fits codec state') :
    Commits codec sizes (laid state) batches (laid state') := by
  rw [SegmentState.appendChannelBatches] at h
  split at h
  · cases h
  · rename_i hmixed
    obtain ⟨q, hbatches, rfl⟩ : ∃ q, appendBatches codec sizes (laid state) batches [] = .ok q ∧
        q = (laid state', []) := by
      refine Except.foldlM_follows_of (I := fun p q => q = (laid p, [])) (P := Fits codec)
        (fun _ _ _ hstep hp => hp.of_extends (extends_batch hstep)) ?_ rfl h hfits
      rintro p q batch p' rfl hstep hp
      cases batch with
      | nil =>
        cases hstep
        exact ⟨_, rfl, rfl⟩
      | cons first rest => exact ⟨_, appendTransaction_laid hlen hstep hp, rfl⟩
    rw [Commits, appendChannelBatches, if_neg hmixed, commitBatches, AppendPlan.faultless, hbatches]
    rfl

end Appends

end SegmentFiles

/-! ### Runs -/

namespace SegmentBlockStore

open SegmentFiles

variable {codec : Codec (List UInt8)} {sizes : BlockSizes}
  {start state : SegmentState (List UInt8)}

theorem step_laid (hlen : ∀ payload, codec.len payload = payload.length)
    {batches : List (List CanonicalRecord)}
    (h : start.appendChannelBatches codec sizes batches = .ok state) (hfits : Fits codec state) :
    step codec sizes ⟨laid start, true⟩ (.append batches .faultless) = ⟨laid state, true⟩ := by
  have hcommits : appendChannelBatches codec sizes .faultless (laid start) batches =
      (.returned (.ok ()), laid state) := commits_laid hlen h hfits
  rw [step, if_pos rfl, hcommits]

/-- Appends to an open store. -/
theorem foldl_laid (hlen : ∀ payload, codec.len payload = payload.length)
    {appends : List (List (List CanonicalRecord))}
    (h : appends.foldlM (fun state batches => state.appendChannelBatches codec sizes batches)
      start = .ok state) (hfits : Fits codec state) :
    (appends.map fun batches => SegmentEvent.append batches .faultless).foldl (step codec sizes)
      ⟨laid start, true⟩ = ⟨laid state, true⟩ := by
  induction appends generalizing start with
  | nil =>
    cases h
    rfl
  | cons batches appends ih =>
    obtain ⟨next, happend, hrest⟩ := Except.bind_eq_ok.mp h
    have hnext : Fits codec next := Except.foldlM_back
      (fun _ _ _ hstep hp => hp.of_extends (extends_appendChannelBatches hstep)) hrest hfits
    rw [List.map_cons, List.foldl_cons, step_laid hlen happend hnext]
    exact ih hrest

/-- **The store on the disk refines the list of payloads.**  Appends that the list takes, and that
nothing disturbs, leave the payloads of the list in the file, under the index of the list. -/
theorem run_laid (hlen : ∀ payload, codec.len payload = payload.length)
    {appends : List (List (List CanonicalRecord))}
    (h : appends.foldlM (fun state batches => state.appendChannelBatches codec sizes batches)
      SegmentState.new = .ok state) (hfits : Fits codec state) :
    run codec sizes (.reopen :: appends.map fun batches => .append batches .faultless) =
      ⟨laid state, true⟩ :=
  -- opening a new store cuts nothing
  foldl_laid hlen h hfits

end SegmentBlockStore

end RecentMessages
