/-
RecentMessages/Storage/OpenBlocks.lean

The open blocks (`storage/open_blocks.rs`): the newest records of each channel,
kept in memory until their block is full, idle or old, or until the bounds on
channels and bytes are exceeded.

An `OpenBlock` holds its records as an `IndexedList`, `records` together with
`event_indices`, and a proof that they belong to its channel.  Hash maps yield
their entries in no particular order, so `sealDue` and `sealAll` take the order
in which the channels come.

Records leave the open blocks only through the returned vectors: whatever takes blocks
is a chain of `takeBlock` (`Takes`), each of which conserves records, and `append_eq_ok`
says that an append conserves events.
-/
import RecentMessages.Library.IndexedList
import RecentMessages.Library.KeyTable
import RecentMessages.Storage.Record
import Mathlib.Data.String.Basic

namespace RecentMessages

/-- The limits of the open blocks, none of which may be zero. -/
structure OpenBlockLimits where
  blockMessages : ℕ
  maxOpenChannels : ℕ
  maxOpenBytes : ℕ
  idleSealAfterMs : ℕ
  maxOpenAgeMs : ℕ
  blockMessages_pos : 0 < blockMessages
  maxOpenChannels_pos : 0 < maxOpenChannels
  maxOpenBytes_pos : 0 < maxOpenBytes
  idleSealAfterMs_pos : 0 < idleSealAfterMs
  maxOpenAgeMs_pos : 0 < maxOpenAgeMs

/-- Errors of the open blocks. -/
inductive OpenBlockError
  | invalidLimits
  | clockMovedBackwards (channelKey : String)
  | lockPoisoned
  deriving DecidableEq, Repr

/-- `estimated_record_bytes`. -/
def estimatedRecordBytes (record : CanonicalRecord) : ℕ :=
  satAddU (satAddU record.rawIrc.length record.channelKey.utf8ByteSize) 128

/-- The open block of a channel. -/
structure OpenBlock where
  channelKey : String
  records : IndexedList CanonicalRecord.eventKey
  estimatedBytes : ℕ
  openedAtMs : ℕ
  lastAppendAtMs : ℕ
  channel : ∀ r ∈ records.items, r.channelKey = channelKey

namespace OpenBlock

/-- A block as `or_insert_with` creates it. -/
def fresh (channelKey : String) (nowMs : ℕ) : OpenBlock where
  channelKey := channelKey
  records := IndexedList.empty
  estimatedBytes := 0
  openedAtMs := nowMs
  lastAppendAtMs := nowMs
  channel := by rintro r ⟨⟩

/-- Append a record whose event is new to the block. -/
def push (block : OpenBlock) (record : CanonicalRecord) (nowMs : ℕ)
    (hchannel : record.channelKey = block.channelKey)
    (hnew : block.records.index record.eventKey = none) : OpenBlock where
  channelKey := block.channelKey
  records := block.records.push record hnew
  estimatedBytes := satAddU block.estimatedBytes (estimatedRecordBytes record)
  openedAtMs := block.openedAtMs
  lastAppendAtMs := nowMs
  channel := by
    intro r hr
    rcases List.mem_append.mp hr with hr | hr
    · exact block.channel r hr
    · rw [List.mem_singleton.mp hr, hchannel]

/-- Replace a record by a better copy of its event. -/
def upgrade (block : OpenBlock) (i : ℕ) (retained record : CanonicalRecord)
    (hchannel : record.channelKey = block.channelKey)
    (hindex : block.records.index record.eventKey = some i) : OpenBlock where
  channelKey := block.channelKey
  records := block.records.set i record hindex
  estimatedBytes := satAddU (block.estimatedBytes - estimatedRecordBytes retained)
    (estimatedRecordBytes record)
  openedAtMs := block.openedAtMs
  lastAppendAtMs := block.lastAppendAtMs
  channel := by
    intro r hr
    rcases List.mem_or_eq_of_mem_set hr with hr | rfl
    · exact block.channel r hr
    · exact hchannel

/-- The order in which blocks are sealed under pressure: idle longest first. -/
def sealOrder (block : OpenBlock) : ℕ ×ₗ ℕ ×ₗ String :=
  toLex (block.lastAppendAtMs, toLex (block.openedAtMs, block.channelKey))

/-- A block that is idle or old. -/
def due (limits : OpenBlockLimits) (nowMs : ℕ) (block : OpenBlock) : Bool :=
  limits.idleSealAfterMs ≤ nowMs - block.lastAppendAtMs ||
    limits.maxOpenAgeMs ≤ nowMs - block.openedAtMs

end OpenBlock

/-- All open blocks. -/
structure OpenBlockManager where
  blocks : KeyTable OpenBlock.channelKey
  estimatedBytes : ℕ
  openMessages : ℕ

namespace OpenBlockManager

/-- No open block. -/
def new : OpenBlockManager := ⟨KeyTable.empty, 0, 0⟩

instance : Inhabited OpenBlockManager := ⟨new⟩

/-- All records of all open blocks. -/
def records (m : OpenBlockManager) : List CanonicalRecord :=
  m.blocks.rows.flatMap fun block => block.records.items

/-! ### Sealing -/

/-- `take_block`. -/
def takeBlock (m : OpenBlockManager) (channelKey : String) :
    Option (List CanonicalRecord) × OpenBlockManager :=
  match m.blocks.lookup channelKey with
  | none => (none, m)
  | some block =>
    (some block.records.items,
      { blocks := m.blocks.erase channelKey
        estimatedBytes := m.estimatedBytes - block.estimatedBytes
        openMessages := m.openMessages - block.records.items.length })

/-- Take the blocks of several channels, collecting their records. -/
def takeAll (channels : List String) (m : OpenBlockManager) :
    List (List CanonicalRecord) × OpenBlockManager :=
  channels.foldl
    (fun (taken, m) channelKey =>
      match m.takeBlock channelKey with
      | (none, m) => (taken, m)
      | (some records, m) => (taken ++ [records], m))
    ([], m)

/-- `seal_due`; `order` is the order in which the hash map yields its channels. -/
def sealDue (limits : OpenBlockLimits) (m : OpenBlockManager) (nowMs : ℕ) (order : List String) :
    List (List CanonicalRecord) × OpenBlockManager :=
  m.takeAll <| order.filter fun channelKey =>
    (m.blocks.lookup channelKey).any (OpenBlock.due limits nowMs)

/-- `seal_all`. -/
def sealAll (m : OpenBlockManager) (order : List String) :
    List (List CanonicalRecord) × OpenBlockManager :=
  m.takeAll order

/-- `order` lists the channels of the hash map. -/
def IterationOrder (m : OpenBlockManager) (order : List String) : Prop :=
  order.Perm (m.blocks.rows.map (·.channelKey))

instance (m : OpenBlockManager) (order : List String) : Decidable (m.IterationOrder order) :=
  inferInstanceAs (Decidable (List.Perm _ _))

/-- The block that is sealed first under pressure. -/
def oldest (m : OpenBlockManager) : Option OpenBlock :=
  (sortByKey OpenBlock.sealOrder m.blocks.rows).head?

/-- `enforce_bounds`.  Every round takes a block, so as many rounds as there are
blocks suffice. -/
def enforceBounds (limits : OpenBlockLimits) : ℕ → OpenBlockManager →
    List (List CanonicalRecord) → List (List CanonicalRecord) × OpenBlockManager
  | 0, m, taken => (taken, m)
  | rounds + 1, m, taken =>
    if limits.maxOpenChannels < m.blocks.rows.length ∨ limits.maxOpenBytes < m.estimatedBytes then
      match m.oldest with
      | none => (taken, m)
      | some block =>
        enforceBounds limits rounds (m.takeBlock block.channelKey).2
          (taken ++ [block.records.items])
    else (taken, m)

/-! ### Appending -/

/-- The open block of a channel, or a new one. -/
def blockOf (m : OpenBlockManager) (channelKey : String) (nowMs : ℕ) : OpenBlock :=
  (m.blocks.lookup channelKey).getD (OpenBlock.fresh channelKey nowMs)

theorem channelKey_blockOf (m : OpenBlockManager) (channelKey : String) (nowMs : ℕ) :
    (m.blockOf channelKey nowMs).channelKey = channelKey := by
  unfold blockOf
  rcases e : m.blocks.lookup channelKey with - | block
  · rfl
  · exact KeyTable.key_of_lookup e

/-- The rest of `append` once a new record is in its block: seal a full block,
then enforce the bounds. -/
def settle (limits : OpenBlockLimits) (m : OpenBlockManager) (channelKey : String) :
    List (List CanonicalRecord) × OpenBlockManager :=
  match m.blocks.lookup channelKey with
  | none => enforceBounds limits m.blocks.rows.length m []
  | some block =>
    if limits.blockMessages ≤ block.records.items.length then
      enforceBounds limits m.blocks.rows.length (m.takeBlock channelKey).2 [block.records.items]
    else
      enforceBounds limits m.blocks.rows.length m []

/-- `append`; the result is the sealed vectors.  An error leaves the blocks as
they were: a block that is created here cannot be newer than `nowMs`. -/
def append (limits : OpenBlockLimits) (m : OpenBlockManager) (record : CanonicalRecord)
    (nowMs : ℕ) : Except OpenBlockError (List (List CanonicalRecord) × OpenBlockManager) :=
  let block := m.blockOf record.channelKey nowMs
  have hchannel : record.channelKey = block.channelKey :=
    (m.channelKey_blockOf record.channelKey nowMs).symm
  if nowMs < block.lastAppendAtMs then
    .error (.clockMovedBackwards record.channelKey)
  else
    match h : block.records.index record.eventKey with
    | some i =>
      match block.records.items[i]? with
      | none => .ok ([], m)  -- an index entry always points at a record
      | some retained =>
        if record.shouldReplace retained then
          .ok ([], {
            blocks := m.blocks.put (block.upgrade i retained record hchannel h)
            estimatedBytes := satAddU (m.estimatedBytes - estimatedRecordBytes retained)
              (estimatedRecordBytes record)
            openMessages := m.openMessages })
        else .ok ([], m)
    | none =>
      .ok <| settle limits
        { blocks := m.blocks.put (block.push record nowMs hchannel h)
          estimatedBytes := satAddU m.estimatedBytes (estimatedRecordBytes record)
          openMessages := m.openMessages + 1 }
        record.channelKey

/-! ### Reading and purging -/

/-- `SharedOpenBlocks::query`. -/
def query (m : OpenBlockManager) (request : QueryRequest) : List CanonicalRecord :=
  let records := ((m.blocks.lookup request.channelKey).map (·.records.items)).getD []
  takeNewest request.limit
    (sortByKey CanonicalRecord.receiptOrder (records.filter request.admits))

/-- `SharedOpenBlocks::purge_channel`. -/
def purgeChannel (m : OpenBlockManager) (channelKey : String) : OpenBlockManager :=
  (m.takeBlock channelKey).2

/-! ### Conservation -/

variable {limits : OpenBlockLimits} {m m' : OpenBlockManager}
  {taken : List (List CanonicalRecord)}

theorem mem_records {r : CanonicalRecord} :
    r ∈ m.records ↔ ∃ block ∈ m.blocks.rows, r ∈ block.records.items :=
  List.mem_flatMap

/-- A record is in the block of its channel. -/
theorem mem_records_iff_lookup {r : CanonicalRecord} :
    r ∈ m.records ↔
      ∃ block, m.blocks.lookup r.channelKey = some block ∧ r ∈ block.records.items := by
  rw [mem_records]
  constructor
  · rintro ⟨block, hblock, hr⟩
    exact ⟨block, KeyTable.lookup_eq_some.mpr ⟨hblock, (block.channel r hr).symm⟩, hr⟩
  · rintro ⟨block, hblock, hr⟩
    exact ⟨block, KeyTable.mem_of_lookup hblock, hr⟩

/-- **Taking a block** moves its records out. -/
theorem mem_takeBlock (m : OpenBlockManager) (channelKey : String) (r : CanonicalRecord) :
    r ∈ m.records ↔
      r ∈ (m.takeBlock channelKey).1.getD [] ∨ r ∈ (m.takeBlock channelKey).2.records := by
  unfold takeBlock
  rcases e : m.blocks.lookup channelKey with - | block
  · simp
  · obtain ⟨hblock, rfl⟩ := KeyTable.lookup_eq_some.mp e
    simp only [mem_records, KeyTable.mem_erase, Option.getD_some]
    constructor
    · rintro ⟨b, hb, hr⟩
      by_cases hkey : b.channelKey = block.channelKey
      · obtain rfl := m.blocks.eq_of_key hb hblock hkey
        exact .inl hr
      · exact .inr ⟨b, ⟨hb, hkey⟩, hr⟩
    · rintro (hr | ⟨b, ⟨hb, -⟩, hr⟩)
      · exact ⟨block, hblock, hr⟩
      · exact ⟨b, hb, hr⟩

/-- After a take the channel has no block, and other channels have theirs. -/
theorem mem_blocks_takeBlock {channelKey : String} {block : OpenBlock} :
    block ∈ (m.takeBlock channelKey).2.blocks.rows ↔
      block ∈ m.blocks.rows ∧ block.channelKey ≠ channelKey := by
  unfold takeBlock
  rcases e : m.blocks.lookup channelKey with - | taken
  · exact (and_iff_left_of_imp fun hblock => KeyTable.lookup_eq_none.mp e block hblock).symm
  · exact KeyTable.mem_erase

/-- After a take the channel has no record left, other channels have all. -/
theorem mem_records_takeBlock {channelKey : String} {r : CanonicalRecord} :
    r ∈ (m.takeBlock channelKey).2.records ↔ r ∈ m.records ∧ r.channelKey ≠ channelKey := by
  simp only [mem_records, mem_blocks_takeBlock]
  constructor
  · rintro ⟨b, ⟨hb, hkey⟩, hr⟩
    exact ⟨⟨b, hb, hr⟩, fun hc => hkey ((b.channel r hr).symm.trans hc)⟩
  · rintro ⟨⟨b, hb, hr⟩, hc⟩
    exact ⟨b, ⟨hb, fun hkey => hc ((b.channel r hr).trans hkey)⟩, hr⟩

/-! ### Chains of takes -/

/-- `m'` is left when blocks are taken from `m` one after the other; `taken` are their
records. -/
inductive Takes : OpenBlockManager → List (List CanonicalRecord) → OpenBlockManager → Prop
  | refl (m : OpenBlockManager) : Takes m [] m
  | take {m m' : OpenBlockManager} {block : OpenBlock} {taken : List (List CanonicalRecord)}
      (hblock : block ∈ m.blocks.rows) (rest : Takes (m.takeBlock block.channelKey).2 taken m') :
      Takes m (block.records.items :: taken) m'

theorem takeBlock_of_mem {block : OpenBlock} (h : block ∈ m.blocks.rows) :
    (m.takeBlock block.channelKey).1 = some block.records.items := by
  rw [takeBlock, KeyTable.lookup_of_mem h]

theorem Takes.mem_blocks (h : Takes m taken m') :
    ∀ block ∈ m'.blocks.rows, block ∈ m.blocks.rows := by
  induction h with
  | refl m => exact fun _ hblock => hblock
  | take hblock rest ih => exact fun b hb => (mem_blocks_takeBlock.mp (ih b hb)).1

/-- **Taking blocks** moves their records out. -/
theorem Takes.mem_records (h : Takes m taken m') (r : CanonicalRecord) :
    r ∈ m.records ↔ r ∈ taken.flatten ∨ r ∈ m'.records := by
  induction h with
  | refl m => simp
  | @take m m' block taken hblock rest ih =>
    rw [mem_takeBlock m block.channelKey r, takeBlock_of_mem hblock, ih, List.flatten_cons,
      List.mem_append, or_assoc, Option.getD_some]

/-- One round of `takeAll`. -/
def takeInto (state : List (List CanonicalRecord) × OpenBlockManager) (channelKey : String) :
    List (List CanonicalRecord) × OpenBlockManager :=
  match state.2.takeBlock channelKey with
  | (none, m) => (state.1, m)
  | (some records, m) => (state.1 ++ [records], m)

/-- `seal_due` and `seal_all` take blocks. -/
theorem takes_takeAll (channels : List String) (m : OpenBlockManager) :
    Takes m (m.takeAll channels).1 (m.takeAll channels).2 := by
  have hloop : ∀ (channels : List String) (state : List (List CanonicalRecord) × OpenBlockManager),
      ∃ more, (channels.foldl takeInto state).1 = state.1 ++ more ∧
        Takes state.2 more (channels.foldl takeInto state).2 := by
    intro channels
    induction channels with
    | nil => exact fun state => ⟨[], (List.append_nil state.1).symm, .refl state.2⟩
    | cons c channels ih =>
      rintro ⟨taken, m⟩
      rw [List.foldl_cons]
      rcases e : m.blocks.lookup c with - | block
      · -- a channel that has no block any more
        have hstep : takeInto (taken, m) c = (taken, m) := by
          simp only [takeInto, takeBlock, e]
        rw [hstep]
        exact ih (taken, m)
      · obtain ⟨hblock, rfl⟩ := KeyTable.lookup_eq_some.mp e
        have hstep : takeInto (taken, m) block.channelKey =
            (taken ++ [block.records.items], (m.takeBlock block.channelKey).2) := by
          simp only [takeInto, takeBlock, e]
        rw [hstep]
        obtain ⟨more, hmore, hrest⟩ := ih (taken ++ [block.records.items], _)
        exact ⟨block.records.items :: more, by rw [hmore]; simp, .take hblock hrest⟩
  obtain ⟨more, hmore, htakes⟩ := hloop channels ([], m)
  rwa [show more = (m.takeAll channels).1 from hmore.symm] at htakes

theorem takes_enforceBounds (limits : OpenBlockLimits) (rounds : ℕ) (m : OpenBlockManager)
    (taken : List (List CanonicalRecord)) : ∃ more,
      (enforceBounds limits rounds m taken).1 = taken ++ more ∧
        Takes m more (enforceBounds limits rounds m taken).2 := by
  induction rounds generalizing m taken with
  | zero => exact ⟨[], (List.append_nil taken).symm, .refl m⟩
  | succ rounds ih =>
    rw [enforceBounds]
    split
    · rcases e : m.oldest with - | block
      · exact ⟨[], (List.append_nil taken).symm, .refl m⟩
      · have hblock : block ∈ m.blocks.rows := mem_sortByKey.mp (List.mem_of_head? e)
        obtain ⟨more, hmore, hrest⟩ :=
          ih (m.takeBlock block.channelKey).2 (taken ++ [block.records.items])
        exact ⟨block.records.items :: more, by rw [hmore]; simp, .take hblock hrest⟩
    · exact ⟨[], (List.append_nil taken).symm, .refl m⟩

/-- **A record that is new seals blocks**, its own among them if that is full. -/
theorem takes_settle (limits : OpenBlockLimits) (m : OpenBlockManager) (channelKey : String) :
    Takes m (settle limits m channelKey).1 (settle limits m channelKey).2 := by
  have hstay : Takes m (enforceBounds limits m.blocks.rows.length m []).1
      (enforceBounds limits m.blocks.rows.length m []).2 := by
    obtain ⟨more, hmore, htakes⟩ := takes_enforceBounds limits m.blocks.rows.length m []
    rwa [show more = (enforceBounds limits m.blocks.rows.length m []).1 from hmore.symm] at htakes
  unfold settle
  split
  · exact hstay
  · rename_i block hlookup
    split
    · -- the full block goes first
      obtain ⟨hblock, rfl⟩ := KeyTable.lookup_eq_some.mp hlookup
      obtain ⟨more, hmore, htakes⟩ := takes_enforceBounds limits m.blocks.rows.length
        (m.takeBlock block.channelKey).2 [block.records.items]
      rw [hmore]
      exact .take hblock htakes
    · exact hstay

/-- **Taking several blocks** moves their records out. -/
theorem mem_takeAll (channels : List String) (m : OpenBlockManager) (r : CanonicalRecord) :
    r ∈ m.records ↔ r ∈ (m.takeAll channels).1.flatten ∨ r ∈ (m.takeAll channels).2.records :=
  (takes_takeAll channels m).mem_records r

/-- After taking several blocks their channels have none left. -/
theorem mem_blocks_takeAll {channels : List String} {block : OpenBlock} :
    block ∈ (m.takeAll channels).2.blocks.rows ↔
      block ∈ m.blocks.rows ∧ block.channelKey ∉ channels := by
  have hloop : ∀ (channels : List String) (state : List (List CanonicalRecord) × OpenBlockManager),
      block ∈ (channels.foldl takeInto state).2.blocks.rows ↔
        block ∈ state.2.blocks.rows ∧ block.channelKey ∉ channels := by
    intro channels
    induction channels with
    | nil => exact fun state => (and_iff_left List.not_mem_nil).symm
    | cons c channels ih =>
      intro state
      have hone : (takeInto state c).2 = (state.2.takeBlock c).2 := by
        rw [takeInto]
        rcases state.2.takeBlock c with ⟨_ | records, m'⟩ <;> rfl
      rw [List.foldl_cons, ih, hone, mem_blocks_takeBlock, List.mem_cons, not_or, and_assoc]
  exact hloop channels ([], m)

/-! ### Checkpoints -/

/-- A checkpoint leaves no open block. -/
theorem rows_sealAll {order : List String} (horder : m.IterationOrder order) :
    (m.sealAll order).2.blocks.rows = [] := by
  refine List.eq_nil_iff_forall_not_mem.mpr fun block hblock => ?_
  obtain ⟨hopen, hnot⟩ := mem_blocks_takeAll.mp hblock
  exact hnot (horder.mem_iff.mpr (List.mem_map_of_mem hopen))

/-- A checkpoint leaves no open record. -/
theorem mem_records_sealAll {order : List String} (horder : m.IterationOrder order)
    (r : CanonicalRecord) : r ∉ (m.sealAll order).2.records := by
  rw [records, rows_sealAll horder]
  exact List.not_mem_nil

/-! ### What an append does -/

section Cases

variable {record retained : CanonicalRecord} {nowMs i : ℕ}

/-- The blocks once `record` is in the place of the copy that it replaces. -/
def withUpgrade (m : OpenBlockManager) (record retained : CanonicalRecord) (nowMs i : ℕ)
    (hindex : (m.blockOf record.channelKey nowMs).records.index record.eventKey = some i) :
    OpenBlockManager where
  blocks := m.blocks.put <| (m.blockOf record.channelKey nowMs).upgrade i retained record
    (m.channelKey_blockOf record.channelKey nowMs).symm hindex
  estimatedBytes := satAddU (m.estimatedBytes - estimatedRecordBytes retained)
    (estimatedRecordBytes record)
  openMessages := m.openMessages

/-- The blocks once `record`, which is new, is in its block. -/
def withNew (m : OpenBlockManager) (record : CanonicalRecord) (nowMs : ℕ)
    (hindex : (m.blockOf record.channelKey nowMs).records.index record.eventKey = none) :
    OpenBlockManager where
  blocks := m.blocks.put <| (m.blockOf record.channelKey nowMs).push record nowMs
    (m.channelKey_blockOf record.channelKey nowMs).symm hindex
  estimatedBytes := satAddU m.estimatedBytes (estimatedRecordBytes record)
  openMessages := m.openMessages + 1

/-- The ways in which an append succeeds: the copy that is open is kept, or replaced, or there is
none. -/
inductive AppendCase (limits : OpenBlockLimits) (m : OpenBlockManager) (record : CanonicalRecord)
    (nowMs : ℕ) : List (List CanonicalRecord) → OpenBlockManager → Prop
  | kept {i : ℕ} {retained : CanonicalRecord}
      (hindex : (m.blockOf record.channelKey nowMs).records.index record.eventKey = some i)
      (hitem : (m.blockOf record.channelKey nowMs).records.items[i]? = some retained)
      (hworse : record.shouldReplace retained = false) : AppendCase limits m record nowMs [] m
  | replaced {i : ℕ} {retained : CanonicalRecord}
      (hindex : (m.blockOf record.channelKey nowMs).records.index record.eventKey = some i)
      (hitem : (m.blockOf record.channelKey nowMs).records.items[i]? = some retained)
      (hbetter : record.shouldReplace retained = true) :
      AppendCase limits m record nowMs [] (m.withUpgrade record retained nowMs i hindex)
  | new {sealed : List (List CanonicalRecord)} {m' : OpenBlockManager}
      (hindex : (m.blockOf record.channelKey nowMs).records.index record.eventKey = none)
      (hsettle : settle limits (m.withNew record nowMs hindex) record.channelKey = (sealed, m')) :
      AppendCase limits m record nowMs sealed m'

/-- **What an append can do**, if the clock is not behind the block. -/
theorem append_cases {sealed : List (List CanonicalRecord)}
    (h : m.append limits record nowMs = .ok (sealed, m')) :
    (m.blockOf record.channelKey nowMs).lastAppendAtMs ≤ nowMs ∧
      AppendCase limits m record nowMs sealed m' := by
  unfold append at h
  dsimp only at h
  split at h
  · cases h
  rename_i hclock
  refine ⟨not_lt.mp hclock, ?_⟩
  split at h
  · rename_i i hindex
    -- an index entry points at a record
    obtain ⟨retained, hitem, -⟩ :=
      ((m.blockOf record.channelKey nowMs).records.index_iff _ i).mp hindex
    rw [hitem] at h
    dsimp only at h
    split at h
    · rename_i hbetter
      cases h
      exact .replaced hindex hitem hbetter
    · rename_i hworse
      cases h
      exact .kept hindex hitem (Bool.eq_false_iff.mpr hworse)
  · rename_i hindex
    exact .new hindex (Except.ok.inj h)

end Cases

theorem mem_blockOf {channelKey : String} {nowMs : ℕ} {r : CanonicalRecord} :
    r ∈ (m.blockOf channelKey nowMs).records.items ↔ r ∈ m.records ∧ r.channelKey = channelKey := by
  constructor
  · intro hr
    have hc : r.channelKey = channelKey :=
      ((m.blockOf channelKey nowMs).channel r hr).trans (m.channelKey_blockOf channelKey nowMs)
    refine ⟨mem_records_iff_lookup.mpr ?_, hc⟩
    rw [blockOf] at hr
    rcases e : m.blocks.lookup channelKey with - | block
    · rw [e] at hr
      cases hr
    · rw [e] at hr
      exact ⟨block, hc ▸ e, hr⟩
  · rintro ⟨hr, rfl⟩
    obtain ⟨block, hblock, hr⟩ := mem_records_iff_lookup.mp hr
    rw [blockOf, hblock]
    exact hr

/-- Putting a block replaces the records of its channel. -/
theorem mem_records_put {block : OpenBlock} {estimatedBytes openMessages : ℕ}
    {r : CanonicalRecord} :
    r ∈ (OpenBlockManager.mk (m.blocks.put block) estimatedBytes openMessages).records ↔
      (r ∈ m.records ∧ r.channelKey ≠ block.channelKey) ∨ r ∈ block.records.items := by
  simp only [mem_records, KeyTable.mem_put]
  constructor
  · rintro ⟨b, ⟨hb, hkey⟩ | rfl, hr⟩
    · exact .inl ⟨⟨b, hb, hr⟩, fun hc => hkey ((b.channel r hr).symm.trans hc)⟩
    · exact .inr hr
  · rintro (⟨⟨b, hb, hr⟩, hc⟩ | hr)
    · exact ⟨b, .inl ⟨hb, fun hkey => hc ((b.channel r hr).trans hkey)⟩, hr⟩
    · exact ⟨block, .inr rfl, hr⟩

theorem mem_settle (m : OpenBlockManager) (channelKey : String) (r : CanonicalRecord) :
    r ∈ m.records ↔ r ∈ (settle limits m channelKey).1.flatten ∨
      r ∈ (settle limits m channelKey).2.records :=
  (takes_settle limits m channelKey).mem_records r

/-- What an append of `record` did; `sealed` are the blocks that were taken. -/
structure Appended (m m' : OpenBlockManager) (record : CanonicalRecord)
    (sealed : List (List CanonicalRecord)) : Prop where
  source : ∀ r, r ∈ m'.records ∨ r ∈ sealed.flatten → r ∈ m.records ∨ r = record
  kept : ∀ r, r ∈ m.records ∨ r = record →
    ∃ q, q.event = r.event ∧ (q ∈ m'.records ∨ q ∈ sealed.flatten)

/-- Putting a block that has the channel's events and the record's. -/
theorem Appended.of_put {block : OpenBlock} {record : CanonicalRecord}
    (hsource : ∀ r ∈ block.records.items, r ∈ m.records ∨ r = record)
    (hkept : ∀ r, (r ∈ m.records ∧ r.channelKey = block.channelKey) ∨ r = record →
      ∃ q ∈ block.records.items, q.event = r.event) (estimatedBytes openMessages : ℕ) :
    Appended m ⟨m.blocks.put block, estimatedBytes, openMessages⟩ record [] where
  source := by
    rintro r (hr | ⟨⟨⟩⟩)
    rcases mem_records_put.mp hr with hr | hr
    · exact .inl hr.1
    · exact hsource r hr
  kept := by
    intro r hr
    by_cases hput : (r ∈ m.records ∧ r.channelKey = block.channelKey) ∨ r = record
    · obtain ⟨q, hq, hevent⟩ := hkept r hput
      exact ⟨q, hevent, .inl (mem_records_put.mpr (.inr hq))⟩
    · rw [not_or, not_and] at hput
      have hopen := hr.resolve_right hput.2
      exact ⟨r, rfl, .inl (mem_records_put.mpr (.inl ⟨hopen, hput.1 hopen⟩))⟩

theorem Appended.settle {m₁ : OpenBlockManager} {record : CanonicalRecord}
    (h : Appended m m₁ record []) (limits : OpenBlockLimits) (channelKey : String) :
    Appended m (settle limits m₁ channelKey).2 record (settle limits m₁ channelKey).1 where
  source := fun r hr => h.source r (.inl ((mem_settle m₁ channelKey r).mpr hr.symm))
  kept := by
    intro r hr
    obtain ⟨q, hevent, hq⟩ := h.kept r hr
    have hopen := hq.resolve_right List.not_mem_nil
    exact ⟨q, hevent, ((mem_settle m₁ channelKey q).mp hopen).symm⟩

/-- **An append conserves events**: nothing but the record comes in, and every
event is still open or sealed. -/
theorem append_eq_ok {record : CanonicalRecord} {nowMs : ℕ}
    {sealed : List (List CanonicalRecord)} {m' : OpenBlockManager}
    (h : m.append limits record nowMs = .ok (sealed, m')) : Appended m m' record sealed := by
  have hchannel := m.channelKey_blockOf record.channelKey nowMs
  -- a record of the channel is in the block that the append finds
  have hblock : ∀ r, r ∈ m.records → r.channelKey = record.channelKey →
      r ∈ (m.blockOf record.channelKey nowMs).records.items :=
    fun r hr hc => mem_blockOf.mpr ⟨hr, hc⟩
  -- a copy that is open has the event of the record
  have hcopy : ∀ {i retained},
      (m.blockOf record.channelKey nowMs).records.index record.eventKey = some i →
      (m.blockOf record.channelKey nowMs).records.items[i]? = some retained →
        retained ∈ m.records ∧ retained.event = record.event := by
    intro i retained hindex hitem
    obtain ⟨r, hr, hkey⟩ := ((m.blockOf record.channelKey nowMs).records.index_iff _ i).mp hindex
    obtain rfl : r = retained := Option.some.inj (hr.symm.trans hitem)
    obtain ⟨hopen, hc⟩ := mem_blockOf.mp (List.mem_of_getElem? hitem)
    exact ⟨hopen, CanonicalRecord.event_eq_iff.mpr ⟨hc, hkey⟩⟩
  obtain ⟨-, hcase⟩ := append_cases h
  cases hcase with
  | kept hindex hitem hworse =>
    obtain ⟨hopen, hevent⟩ := hcopy hindex hitem
    refine ⟨fun r hr => .inl (hr.resolve_right List.not_mem_nil), ?_⟩
    rintro r (hr | rfl)
    · exact ⟨r, rfl, .inl hr⟩
    · exact ⟨_, hevent, .inl hopen⟩
  | @replaced i retained hindex hitem hbetter =>
    obtain ⟨hopen, hevent⟩ := hcopy hindex hitem
    refine .of_put (fun r hr => ?_) ?_ _ _
    · exact (List.mem_or_eq_of_mem_set hr).imp_left fun hr => (mem_blockOf.mp hr).1
    · -- the list of events of the block stays
      have hevents : ((m.blockOf record.channelKey nowMs).records.items.set i record).map
          CanonicalRecord.event = _ := map_set_of_eq hitem hevent.symm
      have hfind : ∀ r ∈ (m.blockOf record.channelKey nowMs).records.items,
          ∃ q ∈ (m.blockOf record.channelKey nowMs).records.items.set i record,
            q.event = r.event := by
        intro r hr
        have hmem := List.mem_map_of_mem (f := CanonicalRecord.event) hr
        rw [← hevents] at hmem
        exact List.mem_map.mp hmem
      rintro r (⟨hr, hc⟩ | rfl)
      · exact hfind r (hblock r hr (hc.trans hchannel))
      · obtain ⟨q, hq, hqe⟩ := hfind retained (List.mem_of_getElem? hitem)
        exact ⟨q, hq, hqe.trans hevent⟩
  | new hindex hsettle =>
    have hput : Appended m (m.withNew record nowMs hindex) record [] := by
      refine .of_put (fun r hr => ?_) ?_ _ _
      · rcases List.mem_append.mp hr with hr | hr
        · exact .inl (mem_blockOf.mp hr).1
        · exact .inr (List.mem_singleton.mp hr)
      · rintro r (⟨hr, hc⟩ | rfl)
        · exact ⟨r, List.mem_append_left _ (hblock r hr (hc.trans hchannel)), rfl⟩
        · exact ⟨r, List.mem_append_right _ (List.mem_singleton.mpr rfl), rfl⟩
    have hsealed := hput.settle limits record.channelKey
    rwa [hsettle] at hsealed

end OpenBlockManager

end RecentMessages
