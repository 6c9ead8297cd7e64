/-
RecentMessages/Storage/Pressure.lean

Eviction under storage pressure (`storage/eviction.rs`, `storage/budget.rs`).

An enforcement pass reads the metadata of all blocks on a reader connection
(`Db.pressureBlocks`), chooses the blocks to give up (`planPressureEviction`) and
sends their ids to the writer, which deletes them when it gets there
(`Db.evictBlockIds`).  Other calls run in between, and a new block takes the id
after the largest one in use, so an id that was freed may be given again.

`pressure_evicts_planned` says that the pass deletes blocks of its snapshot only,
if no id of the plan is given to a new block in between;
`pressure_evicts_stranger` is a run where one is.
-/
import RecentMessages.Library.Runs
import RecentMessages.Storage.Retention

namespace RecentMessages

/-! ### The plan -/

/-- What the plan is made from. -/
structure BlockMeta where
  id : ℕ
  channelKey : String
  messageCount : ℕ
  bytes : ℕ
  lastRequestedAtMs : ℕ
  lastEventAtMs : ℕ
  alwaysJoin : Bool
  journalProtected : Bool
  deriving DecidableEq, Repr

/-- The policy, with the three thresholds that `thresholds` computes from ratios, in
floating point. -/
structure PressurePolicy where
  targetBytes : ℕ
  highWaterBytes : ℕ
  emergencyBytes : ℕ
  pressureFloorMessagesPerChannel : ℕ
  requestedAfterMs : ℕ
  deriving DecidableEq, Repr

inductive PressureMode
  | normal
  | highWater
  | emergency
  deriving DecidableEq, Repr

structure EvictionPlan where
  mode : PressureMode
  evictBlockIds : List ℕ
  bytesBefore : ℕ
  bytesAfter : ℕ
  crossedChannelFloor : Bool
  deriving DecidableEq, Repr

inductive StorageBudgetError
  | store (error : StoreError)
  /-- Protected or unavailable blocks prevent reaching the target. -/
  | targetUnreachable
  deriving DecidableEq, Repr

/-- `request_tier`. -/
def requestTier (alwaysJoin : Bool) (lastRequestedAtMs requestedAfterMs : ℕ) : ℕ :=
  if alwaysJoin then 3
  else if lastRequestedAtMs = 0 then 0
  else if lastRequestedAtMs < requestedAfterMs then 1
  else 2

namespace BlockMeta

variable (policy : PressurePolicy)

def tier (block : BlockMeta) : ℕ :=
  requestTier block.alwaysJoin block.lastRequestedAtMs policy.requestedAfterMs

/-- The order in which blocks are given up. -/
def evictionOrder (block : BlockMeta) : ℕ ×ₗ ℕ ×ₗ ℕ ×ₗ ℕ :=
  toLex (block.tier policy, toLex (block.lastRequestedAtMs, toLex (block.lastEventAtMs, block.id)))

end BlockMeta

/-- The state of the selection loop. -/
structure Selection where
  retainedByChannel : String → ℕ
  bytesAfter : ℕ
  selected : List ℕ
  deferredBelowFloor : List BlockMeta

namespace Selection

/-- Give a block up. -/
def select (s : Selection) (block : BlockMeta) : Selection :=
  { s with bytesAfter := s.bytesAfter - block.bytes, selected := s.selected ++ [block.id] }

/-- The first loop; a channel that is currently requested keeps its floor. -/
def selectAboveFloor (policy : PressurePolicy) (floor : String → ℕ) :
    List BlockMeta → Selection → Selection
  | [], s => s
  | block :: rest, s =>
    if s.bytesAfter ≤ policy.targetBytes then s
    else
      let retained := s.retainedByChannel block.channelKey
      if retained - block.messageCount < floor block.channelKey then
        selectAboveFloor policy floor rest
          { s with deferredBelowFloor := s.deferredBelowFloor ++ [block] }
      else
        selectAboveFloor policy floor rest
          { s.select block with
            retainedByChannel := Function.update s.retainedByChannel block.channelKey
              (retained - block.messageCount) }

/-- The loop over the deferred blocks. -/
def selectDeferred (policy : PressurePolicy) : List BlockMeta → Selection → Selection
  | [], s => s
  | block :: rest, s =>
    if s.bytesAfter ≤ policy.targetBytes then s
    else selectDeferred policy rest (s.select block)

end Selection

/-- `plan_pressure_eviction`. -/
def planPressureEviction (blocks : List BlockMeta) (currentStoreBytes : ℕ)
    (policy : PressurePolicy) : Except StorageBudgetError EvictionPlan :=
  if currentStoreBytes < policy.highWaterBytes then
    .ok ⟨.normal, [], currentStoreBytes, currentStoreBytes, false⟩
  else
    let mode :=
      if policy.emergencyBytes ≤ currentStoreBytes then PressureMode.emergency else .highWater
    let candidates := sortByKey (BlockMeta.evictionOrder policy)
      (blocks.filter fun block => !block.journalProtected)
    let retainedByChannel channelKey :=
      ((blocks.filter (·.channelKey = channelKey)).map (·.messageCount)).sum
    let currentlyRequested channelKey :=
      blocks.any fun block => 2 ≤ block.tier policy && block.channelKey = channelKey
    let floor channelKey :=
      if currentlyRequested channelKey then policy.pressureFloorMessagesPerChannel else 0
    let s := Selection.selectAboveFloor policy floor candidates
      ⟨retainedByChannel, currentStoreBytes, [], []⟩
    let crossed := policy.targetBytes < s.bytesAfter && mode = .emergency
    let s := if crossed then Selection.selectDeferred policy s.deferredBelowFloor s else s
    if policy.targetBytes < s.bytesAfter then
      .error .targetUnreachable
    else
      .ok ⟨mode, s.selected, currentStoreBytes, s.bytesAfter, crossed⟩

/-- `distribute_physical_overhead`: the bytes of the files that no block accounts for
are spread over the blocks. -/
def distributePhysicalOverhead (blocks : List BlockMeta) (physicalBytes : ℕ) : List BlockMeta :=
  let overhead := physicalBytes - (blocks.map (·.bytes)).sum
  let count := max blocks.length 1
  blocks.mapIdx fun i block =>
    let share := overhead / count + if i < overhead % count then 1 else 0
    { block with bytes := satAddU block.bytes share }

namespace Db

variable {β : Type} (codec : Codec β) (store : SqliteBlockStore)

/-- The metadata of a block; `u64::try_from` fails on negative columns. -/
def blockMeta (alwaysJoin : List String) (row : MessageBlock β) (channel : ChannelRow) :
    Except StoreError BlockMeta := do
  let id ← tryToU64 row.id
  return {
    id
    channelKey := row.channelKey
    messageCount := row.block.messageCount
    bytes := satAddU (codec.len row.block.payload) 384
    lastRequestedAtMs := channel.lastRequestedAtMs.toNat
    lastEventAtMs := row.block.lastEventAtMs.toNat
    alwaysJoin := row.channelKey ∈ alwaysJoin
    journalProtected := false }

/-- `pressure_blocks`: the blocks joined with their channels. -/
def pressureBlocks (db : Db β) (alwaysJoin : List String) : Except StoreError (List BlockMeta) :=
  (db.messageBlocks.rows.filterMap fun row =>
    (db.channels.lookup row.channelKey).map fun channel => (row, channel)).mapM
    fun (row, channel) => blockMeta codec alwaysJoin row channel

/-- The first half of a pass of `enforce_with`. -/
def planEviction (db : Db β) (alwaysJoin : List String) (policy : PressurePolicy)
    (physicalBytes : ℕ) : Except StorageBudgetError EvictionPlan := do
  let blocks ← (db.pressureBlocks codec alwaysJoin).mapError .store
  planPressureEviction (distributePhysicalOverhead blocks physicalBytes) physicalBytes policy

/-- The call gives an id of the list, which is free, to a new block. -/
def Reassigns (ids : List ℕ) (db : Db β) (call : StoreCall) : Prop :=
  ∃ id ∈ ids, db.messageBlocks.lookup (id : ℤ) = none ∧
    (db.call codec store call).messageBlocks.lookup (id : ℤ) ≠ none

instance [DecidableEq β] (ids : List ℕ) (db : Db β) (call : StoreCall) :
    Decidable (Reassigns codec store ids db call) :=
  inferInstanceAs (Decidable (∃ id ∈ ids, _ ∧ _))

end Db

/-! ### The plan names blocks of the snapshot -/

namespace Selection

variable {policy : PressurePolicy} {s : Selection} {blocks : List BlockMeta} {id : ℕ}

theorem mem_selectDeferred {deferred : List BlockMeta}
    (h : id ∈ (selectDeferred policy deferred s).selected) :
    id ∈ s.selected ∨ ∃ block ∈ deferred, block.id = id := by
  induction deferred generalizing s with
  | nil => exact .inl h
  | cons block rest ih =>
    rw [selectDeferred] at h
    split at h
    · exact .inl h
    · rcases ih h with hmem | ⟨b, hb, hid⟩
      · rcases List.mem_append.mp hmem with hmem | hmem
        · exact .inl hmem
        · exact .inr ⟨block, List.mem_cons_self, (List.mem_singleton.mp hmem).symm⟩
      · exact .inr ⟨b, List.mem_cons_of_mem block hb, hid⟩

/-- Everything selected or deferred is a block of the list. -/
theorem selectAboveFloor_subset {floor : String → ℕ} {candidates : List BlockMeta}
    (hcandidates : ∀ block ∈ candidates, block ∈ blocks)
    (hselected : ∀ id ∈ s.selected, ∃ block ∈ blocks, block.id = id)
    (hdeferred : ∀ block ∈ s.deferredBelowFloor, block ∈ blocks) :
    (∀ id ∈ (selectAboveFloor policy floor candidates s).selected,
      ∃ block ∈ blocks, block.id = id) ∧
    ∀ block ∈ (selectAboveFloor policy floor candidates s).deferredBelowFloor, block ∈ blocks := by
  induction candidates generalizing s with
  | nil => exact ⟨hselected, hdeferred⟩
  | cons block rest ih =>
    have hrest : ∀ b ∈ rest, b ∈ blocks := fun b hb => hcandidates b (List.mem_cons_of_mem block hb)
    have hblock : block ∈ blocks := hcandidates block List.mem_cons_self
    rw [selectAboveFloor]
    split
    · exact ⟨hselected, hdeferred⟩
    · dsimp only
      split
      · refine ih hrest hselected fun b hb => ?_
        rcases List.mem_append.mp hb with hb | hb
        · exact hdeferred b hb
        · rwa [List.mem_singleton.mp hb]
      · refine ih hrest (fun id hid => ?_) hdeferred
        rcases List.mem_append.mp hid with hid | hid
        · exact hselected id hid
        · exact ⟨block, hblock, (List.mem_singleton.mp hid).symm⟩

end Selection

/-- **The plan names blocks it was made from.** -/
theorem mem_planPressureEviction {blocks : List BlockMeta} {bytes : ℕ} {policy : PressurePolicy}
    {plan : EvictionPlan} (h : planPressureEviction blocks bytes policy = .ok plan) {id : ℕ}
    (hid : id ∈ plan.evictBlockIds) : ∃ block ∈ blocks, block.id = id := by
  unfold planPressureEviction at h
  split at h
  · cases h
    cases hid
  · extract_lets mode candidates retained requested floor s crossed s' at h
    have hcandidates : ∀ block ∈ candidates, block ∈ blocks := fun block hblock =>
      List.mem_of_mem_filter (mem_sortByKey.mp hblock)
    obtain ⟨hselected, hdeferred⟩ : (∀ id ∈ s.selected, ∃ block ∈ blocks, block.id = id) ∧
        ∀ block ∈ s.deferredBelowFloor, block ∈ blocks :=
      Selection.selectAboveFloor_subset hcandidates nofun nofun
    have hall : ∀ id ∈ s'.selected, ∃ block ∈ blocks, block.id = id := by
      intro id hid
      by_cases hcrossed : crossed = true
      · rw [show s' = Selection.selectDeferred policy s.deferredBelowFloor s from if_pos hcrossed]
          at hid
        rcases Selection.mem_selectDeferred hid with hid | ⟨block, hblock, hid⟩
        · exact hselected id hid
        · exact ⟨block, hdeferred block hblock, hid⟩
      · rw [show s' = s from if_neg hcrossed] at hid
        exact hselected id hid
    split at h
    · cases h
    · cases h
      exact hall id hid

theorem mem_distributePhysicalOverhead {blocks : List BlockMeta} {bytes : ℕ} {block : BlockMeta}
    (h : block ∈ distributePhysicalOverhead blocks bytes) :
    ∃ b ∈ blocks, b.id = block.id ∧ b.channelKey = block.channelKey := by
  obtain ⟨i, hi, rfl⟩ := List.mem_mapIdx.mp h
  exact ⟨blocks[i], List.getElem_mem hi, rfl, rfl⟩

namespace Db

variable {β : Type} {codec : Codec β} {store : SqliteBlockStore} {db db' : Db β}

/-- The snapshot holds metadata of blocks of the store. -/
theorem mem_pressureBlocks {alwaysJoin : List String} {blocks : List BlockMeta}
    (h : db.pressureBlocks codec alwaysJoin = .ok blocks) {block : BlockMeta}
    (hblock : block ∈ blocks) :
    ∃ row ∈ db.messageBlocks.rows, row.id = block.id ∧ row.channelKey = block.channelKey := by
  obtain ⟨⟨row, channel⟩, hmem, hmeta⟩ := (Except.mapM_eq_ok h).2 block hblock
  obtain ⟨row', hrow', hjoin⟩ := List.mem_filterMap.mp hmem
  obtain ⟨channel', -, heq⟩ := Option.map_eq_some_iff.mp hjoin
  obtain ⟨rfl, rfl⟩ := Prod.mk.inj heq
  obtain ⟨id, hid, hmeta⟩ := Except.bind_eq_ok.mp hmeta
  cases hmeta
  refine ⟨row', hrow', ?_, rfl⟩
  unfold tryToU64 at hid
  split at hid
  · rename_i hpos
    cases hid
    exact (Int.toNat_of_nonneg hpos).symm
  · cases hid

/-- **A plan names blocks of the store it was made from.** -/
theorem mem_planEviction {alwaysJoin : List String} {policy : PressurePolicy} {bytes : ℕ}
    {plan : EvictionPlan} (h : db.planEviction codec alwaysJoin policy bytes = .ok plan) {id : ℕ}
    (hid : id ∈ plan.evictBlockIds) : ∃ row ∈ db.messageBlocks.rows, row.id = id := by
  obtain ⟨blocks, hblocks, hplan⟩ := Except.bind_eq_ok.mp h
  obtain ⟨block, hblock, rfl⟩ := mem_planPressureEviction hplan hid
  obtain ⟨b, hb, hbid, -⟩ := mem_distributePhysicalOverhead hblock
  obtain ⟨row, hrow, hrowid, -⟩ := mem_pressureBlocks (Except.mapError_eq_ok.mp hblocks) hb
  exact ⟨row, hrow, by rw [hrowid, hbid]⟩

/-! ### Blocks from one call to the next -/

/-- Calls that do not append lay no block down. -/
theorem mem_rows_call {call : StoreCall} (hcall : ∀ batches, call ≠ .appendChannelBatches batches)
    {row : MessageBlock β} (hrow : row ∈ (db.call codec store call).messageBlocks.rows) :
    row ∈ db.messageBlocks.rows := by
  cases call with
  | appendChannelBatches batches => exact absurd rfl (hcall batches)
  | evictBlockIds ids =>
    rw [Db.call] at hrow
    split at hrow
    · rename_i h
      exact (reduced_evictBlockIds h).rows row hrow
    · exact hrow
  | expireBlocksBefore cutoff n =>
    exact (reduced_expireTransactions codec cutoff n db _).rows row hrow
  | purgeChannel c t => exact (reduced_dropChannel codec (db.raiseCutoff c t) c).rows row hrow
  | setChannelBlocked c b =>
    cases b with
    | true =>
      exact (reduced_dropChannel codec
        { db with blockedChannels := db.blockedChannels.insertIgnore c } c).rows row hrow
    | false => exact hrow
  | syncBlockedChannels channels =>
    rw [Db.call] at hrow
    split at hrow
    · rename_i h
      exact ((syncBlockedChannels_eq_ok h).1 row hrow).1
    · exact hrow
  | touchChannelRequested c requested coalesce =>
    rw [Db.call] at hrow
    split at hrow
    · rename_i h
      exact (reduced_touchChannelRequested h).rows row hrow
    · exact hrow

/-- **A block after a call** has the shape of one before, or an id that was free. -/
theorem blocks_call (hdb : db.Regular codec store) (call : StoreCall) :
    (db.call codec store call).Regular codec store ∧
      ∀ row ∈ (db.call codec store call).messageBlocks.rows,
        row.shape codec ∈ db.shape codec ∨ db.messageBlocks.lookup row.id = none := by
  have hbooks : (db.call codec store call).Readable codec ∧
      (db.call codec store call).Accounted codec :=
    accounted_call hdb.readable hdb.accounted call
  by_cases hcall : ∃ batches, call = .appendChannelBatches batches
  · obtain ⟨batches, rfl⟩ := hcall
    rw [Db.call]
    split
    · rename_i db' h
      obtain ⟨hdb', -, hrows⟩ := blocks_appendChannelBatches hdb h
      refine ⟨hdb', fun row hrow => (hrows row hrow).imp_right fun hid => ?_⟩
      exact KeyTable.lookup_eq_none.mpr fun q hq => ((lt_nextId hq).trans_le hid).ne
    · exact ⟨hdb, fun row hrow => .inl (List.mem_map_of_mem hrow)⟩
  · have hrows : ∀ row ∈ (db.call codec store call).messageBlocks.rows,
        row ∈ db.messageBlocks.rows := fun row hrow =>
      mem_rows_call (fun batches heq => hcall ⟨batches, heq⟩) hrow
    exact ⟨⟨hbooks.1, hbooks.2, fun row hrow => hdb.sized row (hrows row hrow)⟩,
      fun row hrow => .inl (List.mem_map_of_mem (hrows row hrow))⟩

/-- Pressure eviction deletes only blocks with one of the given ids. -/
theorem mem_evictBlockIds {ids : List ℕ} {deleted : ℕ}
    (h : db.evictBlockIds codec ids = .ok (deleted, db')) {row : MessageBlock β}
    (hrow : row ∈ db.messageBlocks.rows) :
    row ∈ db'.messageBlocks.rows ∨ ∃ id ∈ ids, (id : ℤ) = row.id := by
  refine Except.foldlM_invariant (fun s : ℕ × Db β => row ∈ s.2.messageBlocks.rows ∨
    ∃ id ∈ ids, (id : ℤ) = row.id) ?_ (.inl hrow) h
  rintro ⟨n, db₁⟩ s' id hid hdb₁ hstep
  rcases hdb₁ with hmem | hgone
  · obtain ⟨id', hconvert, hstep⟩ := Except.bind_eq_ok.mp hstep
    obtain ⟨rfl, -⟩ := tryFromU64_eq_ok.mp hconvert
    split at hstep
    · cases hstep
      exact .inl hmem
    · rename_i q hq
      cases hstep
      by_cases hne : row.id = q.id
      · exact .inr ⟨id, hid, by rw [hne, KeyTable.key_of_lookup hq]⟩
      · exact .inl (mem_removeBlock.mpr ⟨hmem, hne⟩)
  · exact .inr hgone

/-! ### A pass of enforcement -/

/-- The blocks with a planned id have the shapes of the snapshot. -/
structure Planned (codec : Codec β) (store : SqliteBlockStore) (ids : List ℕ)
    (snapshot : List (ℤ × String × ℤ × List (String × EventKey))) (db : Db β) : Prop where
  regular : db.Regular codec store
  same : ∀ row ∈ db.messageBlocks.rows, (∃ id ∈ ids, (id : ℤ) = row.id) →
    row.shape codec ∈ snapshot

theorem planned_call {ids : List ℕ} {snapshot : List (ℤ × String × ℤ × List (String × EventKey))}
    (hdb : db.Planned codec store ids snapshot) {call : StoreCall}
    (hcall : ¬ db.Reassigns codec store ids call) :
    (db.call codec store call).Planned codec store ids snapshot := by
  obtain ⟨hregular, hrows⟩ := blocks_call hdb.regular call
  refine ⟨hregular, fun row hrow hplanned => ?_⟩
  rcases hrows row hrow with hshape | hfree
  · obtain ⟨row₀, hrow₀, heq⟩ := List.mem_map.mp hshape
    rw [← heq]
    exact hdb.same row₀ hrow₀ (by rwa [show row₀.id = row.id from congrArg Prod.fst heq])
  · -- a planned id that was free would have been given to a new block
    obtain ⟨id, hid, heq⟩ := hplanned
    refine absurd ⟨id, hid, heq ▸ hfree, ?_⟩ hcall
    rw [heq, KeyTable.lookup_of_mem hrow]
    exact Option.some_ne_none row

/-- **Pressure eviction deletes only the blocks it planned**, if no call between the
snapshot and the deletion gives a planned id to a new block: each deleted block was
in the snapshot, in the same channel, at the same sequence and with the same
events. -/
theorem pressure_evicts_planned (codec : Codec β) (store : SqliteBlockStore)
    (before between : List StoreCall) (alwaysJoin : List String) (policy : PressurePolicy)
    (physicalBytes : ℕ) (plan : EvictionPlan)
    (hplan : (before.foldl (call codec store) empty).planEviction codec alwaysJoin policy
      physicalBytes = .ok plan)
    (hbetween : Along (call codec store)
      (fun db call => ¬ db.Reassigns codec store plan.evictBlockIds call)
      (before.foldl (call codec store) empty) between) :
    (∀ id ∈ plan.evictBlockIds,
      ∃ row ∈ (before.foldl (call codec store) empty).messageBlocks.rows, row.id = id) ∧
    ∀ row ∈ (between.foldl (call codec store)
        (before.foldl (call codec store) empty)).messageBlocks.rows,
      row ∉ ((between.foldl (call codec store) (before.foldl (call codec store) empty)).call
        codec store (.evictBlockIds plan.evictBlockIds)).messageBlocks.rows →
      (∃ id ∈ plan.evictBlockIds, (id : ℤ) = row.id) ∧
        ∃ planned ∈ (before.foldl (call codec store) empty).messageBlocks.rows,
          planned.shape codec = row.shape codec := by
  have hstart : (before.foldl (call codec store) empty).Regular codec store :=
    List.foldlRecOn before (call codec store) regular_empty
      fun db hdb call _ => (blocks_call hdb call).1
  -- along the calls between, a row with a planned id is the planned block
  have hplanned := hbetween.invariant (I := Planned codec store plan.evictBlockIds
      ((before.foldl (call codec store) empty).shape codec))
    (fun _ _ hdb hcall => planned_call hdb hcall)
    ⟨hstart, fun row hrow _ => List.mem_map_of_mem hrow⟩
  refine ⟨fun id hid => mem_planEviction hplan hid, fun row hrow hgone => ?_⟩
  -- a block that is missing after the eviction had a planned id
  have hid : ∃ id ∈ plan.evictBlockIds, (id : ℤ) = row.id := by
    rw [Db.call] at hgone
    split at hgone
    · rename_i h
      exact (mem_evictBlockIds h hrow).resolve_left hgone
    · exact absurd hrow hgone
  exact ⟨hid, List.mem_map.mp (hplanned.same row hrow hid)⟩

/-- A pass that has to free half of a thousand bytes. -/
def samplePolicy : PressurePolicy := ⟨500, 600, 900, 10, 0⟩

def twoChannels : List StoreCall :=
  [.appendChannelBatches [[messageAt "a" 1], [messageAt "b" 2]]]

def thirdChannel : List StoreCall := [.appendChannelBatches [[messageAt "c" 3]]]

theorem pressure_evicts_planned_sample :
    ∃ snapshot found : Db Plain, snapshot = twoChannels.foldl (call Plain.codec smallStore) empty ∧
      found = thirdChannel.foldl (call Plain.codec smallStore) snapshot ∧
      found.messageBlocks.rows.length = 3 ∧
      (found.call Plain.codec smallStore (.evictBlockIds [1])).messageBlocks.rows.length = 2 ∧
      ∀ row ∈ found.messageBlocks.rows,
        row ∉ (found.call Plain.codec smallStore (.evictBlockIds [1])).messageBlocks.rows →
        ∃ planned ∈ snapshot.messageBlocks.rows,
          planned.shape Plain.codec = row.shape Plain.codec := by
  refine ⟨_, _, rfl, rfl, by decide +kernel, by decide +kernel, fun row hrow hgone => ?_⟩
  have hplan := pressure_evicts_planned Plain.codec smallStore twoChannels thirdChannel []
    samplePolicy 1000 ⟨.emergency, [1], 1000, 500, false⟩ (by decide +kernel) (by decide +kernel)
  exact (hplan.2 row hrow hgone).2

/-- While the pass runs the channel `a` is purged, and `c` gets its first block. -/
def strangerCalls : List StoreCall :=
  [.purgeChannel "a" 1, .appendChannelBatches [[messageAt "c" 3]]]

/-- The plan was to evict the only block, of channel `a`; the block of channel `c` is
evicted. -/
theorem pressure_evicts_stranger :
    ∃ snapshot found after : Db Plain,
      snapshot = empty.call Plain.codec smallStore (.appendChannelBatches [[messageAt "a" 1]]) ∧
      snapshot.planEviction Plain.codec [] samplePolicy 1000 =
        .ok ⟨.emergency, [1], 1000, 0, false⟩ ∧
      found = strangerCalls.foldl (call Plain.codec smallStore) snapshot ∧
      after = found.call Plain.codec smallStore (.evictBlockIds [1]) ∧
      found.messageBlocks.rows.map MessageBlock.channelKey = ["c"] ∧
      after.messageBlocks.rows = [] := by
  refine ⟨_, _, _, rfl, ?_, rfl, rfl, ?_, ?_⟩ <;> decide +kernel

end Db

end RecentMessages
