/-
RecentMessages/Storage/OpenCounters.lean

The indexes and counters of the open blocks are exact (`storage/open_blocks.rs`).

`append` and `take_block` keep the bytes of a block, the bytes of all blocks and the number of
open messages by difference, with saturating arithmetic.  As long as the estimates of the records
that are open together fit `usize`, no addition saturates, and the counters are the sums that
they stand for (`Tallied`).  Every subtraction takes away what is part of such a sum.

`subtractions` lists the subtractions of an operation in the order in which the code makes them.
The idle time and the age of a block, which `seal_due` computes from its own clock, are another
matter (`ages`): they clamp when that clock is behind the block.
-/
import RecentMessages.Storage.OpenLimits

namespace RecentMessages

/-- The sum of `estimated_record_bytes` over records. -/
def estimatedSum (records : List CanonicalRecord) : ℕ := (records.map estimatedRecordBytes).sum

section Sum

variable {l l' : List CanonicalRecord}

@[simp] theorem estimatedSum_append :
    estimatedSum (l ++ l') = estimatedSum l + estimatedSum l' := by
  simp [estimatedSum]

theorem estimatedSum_eq_of_perm (h : l.Perm l') : estimatedSum l = estimatedSum l' :=
  (h.map estimatedRecordBytes).sum_eq

theorem estimatedSum_concat (record : CanonicalRecord) :
    estimatedSum (l ++ [record]) = estimatedSum l + estimatedRecordBytes record := by
  simp [estimatedSum]

theorem le_estimatedSum {record : CanonicalRecord} (h : record ∈ l) :
    estimatedRecordBytes record ≤ estimatedSum l :=
  List.single_le_sum (fun _ _ => Nat.zero_le _) _ (List.mem_map_of_mem h)

theorem le_estimatedRecordBytes (record : CanonicalRecord) : 128 ≤ estimatedRecordBytes record :=
  le_min (by decide) (Nat.le_add_left _ _)

theorem length_le_estimatedSum (l : List CanonicalRecord) : 128 * l.length ≤ estimatedSum l := by
  induction l with
  | nil => exact le_rfl
  | cons record l ih =>
    have hrecord := le_estimatedRecordBytes record
    rw [estimatedSum] at ih ⊢
    rw [List.map_cons, List.sum_cons, List.length_cons]
    omega

end Sum

/-- A saturating subtraction. -/
structure Subtraction where
  minuend : ℕ
  subtrahend : ℕ
  deriving DecidableEq, Repr

/-- The difference is negative, so the result is clamped to zero. -/
def Subtraction.Clamps (s : Subtraction) : Prop := s.minuend < s.subtrahend

instance Subtraction.Clamps.decidable (s : Subtraction) : Decidable s.Clamps :=
  inferInstanceAs (Decidable (_ < _))

/-- The counters of a block are exact. -/
structure OpenBlock.Tallied (block : OpenBlock) : Prop where
  bytes : block.estimatedBytes = estimatedSum block.records.items
  times : block.openedAtMs ≤ block.lastAppendAtMs

/-- A block is in order: `event_indices` is the inverse of the positions of the records, so that
no event is there twice; the block counts the bytes of its records, which are of its channel and
neither none nor enough to be sealed; and it was opened no later than it was appended to. -/
structure OpenBlock.Exact (limits : OpenBlockLimits) (block : OpenBlock) : Prop where
  index : ∀ key i, block.records.index key = some i ↔
    ∃ r, block.records.items[i]? = some r ∧ r.eventKey = key
  nodup : (block.records.items.map CanonicalRecord.eventKey).Nodup
  bytes : block.estimatedBytes = (block.records.items.map estimatedRecordBytes).sum
  nonempty : block.records.items ≠ []
  notFull : block.records.items.length < limits.blockMessages
  channel : ∀ r ∈ block.records.items, r.channelKey = block.channelKey
  times : block.openedAtMs ≤ block.lastAppendAtMs

namespace OpenBlockManager

variable {limits : OpenBlockLimits} {m m' : OpenBlockManager}
  {taken : List (List CanonicalRecord)} {record : CanonicalRecord} {nowMs : ℕ}

/-- The counters are exact. -/
structure Tallied (m : OpenBlockManager) : Prop where
  blocks : ∀ block ∈ m.blocks.rows, block.Tallied
  bytes : m.estimatedBytes = estimatedSum m.records
  messages : m.openMessages = m.records.length

/-- Every block is in order, and the counters of the manager are those of all open records. -/
structure Exact (limits : OpenBlockLimits) (m : OpenBlockManager) : Prop where
  blocks : ∀ block ∈ m.blocks.rows, block.Exact limits
  bytes : m.estimatedBytes = (m.records.map estimatedRecordBytes).sum
  messages : m.openMessages = m.records.length

/-- The index and the channel of a block are exact as it is built. -/
theorem Tallied.exact (h : m.Tallied) (hfill : m.Filling limits) : m.Exact limits where
  blocks block hblock :=
    { index := block.records.index_iff
      nodup := block.records.nodup_keys
      bytes := (h.blocks block hblock).bytes
      nonempty := (hfill block hblock).1
      notFull := (hfill block hblock).2
      channel := block.channel
      times := (h.blocks block hblock).times }
  bytes := h.bytes
  messages := h.messages

theorem tallied_new : new.Tallied :=
  ⟨by rintro block ⟨⟩, rfl, rfl⟩

/-- The number of messages does not overflow, as every message counts some bytes. -/
theorem Tallied.messages_le (h : m.Tallied) : 128 * m.openMessages ≤ m.estimatedBytes := by
  rw [h.messages, h.bytes]
  exact length_le_estimatedSum m.records

/-! ### The records around a block -/

theorem blocks_takeBlock (m : OpenBlockManager) (channelKey : String) :
    (m.takeBlock channelKey).2.blocks = m.blocks.erase channelKey := by
  rw [takeBlock]
  rcases e : m.blocks.lookup channelKey with - | block
  · exact (KeyTable.erase_eq_self e).symm
  · rfl

/-- The open records are those of a block and the others. -/
theorem records_perm_blockOf (m : OpenBlockManager) (channelKey : String) (nowMs : ℕ) :
    m.records.Perm
      ((m.blockOf channelKey nowMs).records.items ++ (m.takeBlock channelKey).2.records) := by
  rw [records, records, blocks_takeBlock, blockOf]
  rcases e : m.blocks.lookup channelKey with - | block
  · rw [KeyTable.erase_eq_self e]
    exact .refl _
  · exact (KeyTable.perm_cons_erase e).flatMap_right _

theorem records_perm_of_mem {block : OpenBlock} (h : block ∈ m.blocks.rows) :
    m.records.Perm (block.records.items ++ (m.takeBlock block.channelKey).2.records) := by
  have hperm := m.records_perm_blockOf block.channelKey 0
  rwa [blockOf, KeyTable.lookup_of_mem h] at hperm

/-- A block that is put takes the place of that of its channel. -/
theorem records_perm_put (m : OpenBlockManager) (block : OpenBlock)
    (estimatedBytes openMessages : ℕ) :
    (mk (m.blocks.put block) estimatedBytes openMessages).records.Perm
      (block.records.items ++ (m.takeBlock block.channelKey).2.records) := by
  rw [records, records, blocks_takeBlock, KeyTable.put,
    KeyTable.insertIgnore_of_none (KeyTable.lookup_erase_self _ _), List.flatMap_append]
  simpa using List.perm_append_comm

/-! ### Taking blocks -/

/-- The subtractions of `take_block`. -/
def takeSubtractions (m : OpenBlockManager) (channelKey : String) : List Subtraction :=
  match m.blocks.lookup channelKey with
  | none => []
  | some block =>
    [⟨m.estimatedBytes, block.estimatedBytes⟩, ⟨m.openMessages, block.records.items.length⟩]

/-- The subtractions of `take_block` on several channels, one after the other. -/
def takeAllSubtractions : List String → OpenBlockManager → List Subtraction
  | [], _ => []
  | c :: channels, m => m.takeSubtractions c ++ takeAllSubtractions channels (m.takeBlock c).2

/-- The subtractions of `enforce_bounds`. -/
def enforceSubtractions (limits : OpenBlockLimits) : ℕ → OpenBlockManager → List Subtraction
  | 0, _ => []
  | rounds + 1, m =>
    if limits.maxOpenChannels < m.blocks.rows.length ∨ limits.maxOpenBytes < m.estimatedBytes then
      match m.oldest with
      | none => []
      | some block => m.takeSubtractions block.channelKey ++
          enforceSubtractions limits rounds (m.takeBlock block.channelKey).2
    else []

/-- The subtractions of `append` once a new record is in its block. -/
def settleSubtractions (limits : OpenBlockLimits) (m : OpenBlockManager) (channelKey : String) :
    List Subtraction :=
  match m.blocks.lookup channelKey with
  | none => enforceSubtractions limits m.blocks.rows.length m
  | some block =>
    if limits.blockMessages ≤ block.records.items.length then
      m.takeSubtractions channelKey ++
        enforceSubtractions limits m.blocks.rows.length (m.takeBlock channelKey).2
    else enforceSubtractions limits m.blocks.rows.length m

/-- **Taking a block** takes what it counts from the counters. -/
theorem Tallied.takeBlock (h : m.Tallied) (channelKey : String) :
    (m.takeBlock channelKey).2.Tallied ∧ ∀ s ∈ m.takeSubtractions channelKey, ¬ s.Clamps := by
  rw [OpenBlockManager.takeBlock, takeSubtractions]
  rcases e : m.blocks.lookup channelKey with - | block
  · exact ⟨h, List.forall_mem_nil _⟩
  · obtain ⟨hblock, rfl⟩ := KeyTable.lookup_eq_some.mp e
    have hrest : (m.takeBlock block.channelKey).2.records =
        (m.blocks.erase block.channelKey).rows.flatMap fun block => block.records.items := by
      rw [records, blocks_takeBlock]
    have hperm := records_perm_of_mem hblock
    rw [hrest] at hperm
    have hbytes := estimatedSum_eq_of_perm hperm
    have hlength := hperm.length_eq
    rw [estimatedSum_append, ← h.bytes, ← (h.blocks block hblock).bytes] at hbytes
    rw [List.length_append, ← h.messages] at hlength
    refine ⟨⟨fun b hb => h.blocks b (KeyTable.mem_erase.mp hb).1, ?_, ?_⟩, ?_⟩
    · show m.estimatedBytes - block.estimatedBytes = estimatedSum _
      rw [hbytes, Nat.add_sub_cancel_left]
      rfl
    · show m.openMessages - block.records.items.length = _
      rw [hlength, Nat.add_sub_cancel_left]
      rfl
    · simp only [List.forall_mem_cons, Subtraction.Clamps]
      exact ⟨by omega, by omega, List.forall_mem_nil _⟩

theorem Takes.tallied (h : Takes m taken m') (hm : m.Tallied) : m'.Tallied := by
  induction h with
  | refl m => exact hm
  | take hblock rest ih => exact ih (hm.takeBlock _).1

theorem Tallied.takeAllSubtractions (h : m.Tallied) (channels : List String) :
    ∀ s ∈ takeAllSubtractions channels m, ¬ s.Clamps := by
  induction channels generalizing m with
  | nil => exact List.forall_mem_nil _
  | cons c channels ih =>
    obtain ⟨hrest, htake⟩ := h.takeBlock c
    exact List.forall_mem_append.mpr ⟨htake, ih hrest⟩

theorem Tallied.enforceSubtractions (h : m.Tallied) (limits : OpenBlockLimits) (rounds : ℕ) :
    ∀ s ∈ enforceSubtractions limits rounds m, ¬ s.Clamps := by
  induction rounds generalizing m with
  | zero => exact List.forall_mem_nil _
  | succ rounds ih =>
    rw [OpenBlockManager.enforceSubtractions]
    split
    · cases m.oldest with
      | none => exact List.forall_mem_nil _
      | some block =>
        obtain ⟨hrest, htake⟩ := h.takeBlock block.channelKey
        exact List.forall_mem_append.mpr ⟨htake, ih hrest⟩
    · exact List.forall_mem_nil _

theorem Tallied.settleSubtractions (h : m.Tallied) (limits : OpenBlockLimits)
    (channelKey : String) : ∀ s ∈ settleSubtractions limits m channelKey, ¬ s.Clamps := by
  rw [OpenBlockManager.settleSubtractions]
  split
  · exact h.enforceSubtractions limits _
  · split
    · obtain ⟨hrest, htake⟩ := h.takeBlock channelKey
      exact List.forall_mem_append.mpr ⟨htake, hrest.enforceSubtractions limits _⟩
    · exact h.enforceSubtractions limits _

/-! ### Appending -/

/-- The records that are open once `record` is in its block, before any block is sealed. -/
def recordsWith (m : OpenBlockManager) (record : CanonicalRecord) (nowMs : ℕ) :
    List CanonicalRecord :=
  ((m.blockOf record.channelKey nowMs).records.upsert CanonicalRecord.shouldReplace record).items ++
    (m.takeBlock record.channelKey).2.records

/-- The subtractions of `append`. -/
def appendSubtractions (limits : OpenBlockLimits) (m : OpenBlockManager) (record : CanonicalRecord)
    (nowMs : ℕ) : List Subtraction :=
  let block := m.blockOf record.channelKey nowMs
  if nowMs < block.lastAppendAtMs then []
  else
    match h : block.records.index record.eventKey with
    | some i =>
      match block.records.items[i]? with
      | none => []
      | some retained =>
        if record.shouldReplace retained then
          [⟨block.estimatedBytes, estimatedRecordBytes retained⟩,
            ⟨m.estimatedBytes, estimatedRecordBytes retained⟩]
        else []
    | none => settleSubtractions limits (m.withNew record nowMs h) record.channelKey

theorem Tallied.blockOf (h : m.Tallied) (channelKey : String) (nowMs : ℕ) :
    (m.blockOf channelKey nowMs).Tallied := by
  rw [OpenBlockManager.blockOf]
  rcases e : m.blocks.lookup channelKey with - | block
  · exact ⟨rfl, le_rfl⟩
  · exact h.blocks block (KeyTable.mem_of_lookup e)

/-- The bytes of a block are among the bytes of all. -/
theorem Tallied.bytes_eq (h : m.Tallied) (channelKey : String) (nowMs : ℕ) : m.estimatedBytes =
    (m.blockOf channelKey nowMs).estimatedBytes +
      estimatedSum (m.takeBlock channelKey).2.records := by
  rw [h.bytes, (h.blockOf channelKey nowMs).bytes,
    estimatedSum_eq_of_perm (m.records_perm_blockOf channelKey nowMs), estimatedSum_append]

theorem Tallied.messages_eq (h : m.Tallied) (channelKey : String) (nowMs : ℕ) : m.openMessages =
    (m.blockOf channelKey nowMs).records.items.length +
      (m.takeBlock channelKey).2.records.length := by
  rw [h.messages, (m.records_perm_blockOf channelKey nowMs).length_eq, List.length_append]

/-- **A block with other records** is put, and the counters gain what it gained. -/
theorem Tallied.put (h : m.Tallied) (block : OpenBlock) {channelKey : String}
    (hchannel : block.channelKey = channelKey) (hblock : block.Tallied)
    {estimatedBytes openMessages : ℕ}
    (hbytes : estimatedBytes =
      block.estimatedBytes + estimatedSum (m.takeBlock channelKey).2.records)
    (hmessages : openMessages =
      block.records.items.length + (m.takeBlock channelKey).2.records.length) :
    (OpenBlockManager.mk (m.blocks.put block) estimatedBytes openMessages).Tallied := by
  subst hchannel
  have hperm := m.records_perm_put block estimatedBytes openMessages
  refine ⟨fun b hb => ?_, ?_, ?_⟩
  · rcases KeyTable.mem_put.mp hb with ⟨hb, -⟩ | rfl
    · exact h.blocks b hb
    · exact hblock
  · rw [estimatedSum_eq_of_perm hperm, estimatedSum_append, ← hblock.bytes]
    exact hbytes
  · rw [hperm.length_eq, List.length_append]
    exact hmessages

/-- **A new record** adds its estimate, which saturates nothing. -/
theorem Tallied.withNew (h : m.Tallied)
    (hclock : (m.blockOf record.channelKey nowMs).lastAppendAtMs ≤ nowMs)
    (hfits : estimatedSum (m.recordsWith record nowMs) ≤ usizeMax)
    (hindex : (m.blockOf record.channelKey nowMs).records.index record.eventKey = none) :
    (m.withNew record nowMs hindex).Tallied := by
  have hchannel := m.channelKey_blockOf record.channelKey nowMs
  have hold := h.blockOf record.channelKey nowMs
  have hbytes := h.bytes_eq record.channelKey nowMs
  have hmessages := h.messages_eq record.channelKey nowMs
  rw [recordsWith, IndexedList.items_upsert_of_none hindex, estimatedSum_append,
    estimatedSum_concat, ← hold.bytes] at hfits
  have hblock : satAddU (m.blockOf record.channelKey nowMs).estimatedBytes
      (estimatedRecordBytes record) = (m.blockOf record.channelKey nowMs).estimatedBytes +
        estimatedRecordBytes record := satAddU_eq (by omega)
  refine h.put ((m.blockOf record.channelKey nowMs).push record nowMs hchannel.symm hindex)
    hchannel ⟨?_, hold.times.trans hclock⟩ ?_ ?_
  · show satAddU _ _ = estimatedSum (_ ++ [record])
    rw [hblock, estimatedSum_concat, hold.bytes]
  · show satAddU _ _ = satAddU _ _ + _
    rw [hblock, satAddU_eq (by omega)]
    omega
  · show m.openMessages + 1 = (_ ++ [record]).length + _
    rw [List.length_append, List.length_singleton]
    omega

/-- **A better copy** takes the estimate of the retained one away and adds its own. -/
theorem Tallied.withUpgrade (h : m.Tallied) {retained : CanonicalRecord} {i : ℕ}
    (hfits : estimatedSum (m.recordsWith record nowMs) ≤ usizeMax)
    (hindex : (m.blockOf record.channelKey nowMs).records.index record.eventKey = some i)
    (hitem : (m.blockOf record.channelKey nowMs).records.items[i]? = some retained)
    (hbetter : record.shouldReplace retained = true) :
    (m.withUpgrade record retained nowMs i hindex).Tallied := by
  have hchannel := m.channelKey_blockOf record.channelKey nowMs
  have hold := h.blockOf record.channelKey nowMs
  have hbytes := h.bytes_eq record.channelKey nowMs
  -- the sum of the estimates, with one record replaced
  have hset : estimatedSum ((m.blockOf record.channelKey nowMs).records.items.set i record) +
      estimatedRecordBytes retained = (m.blockOf record.channelKey nowMs).estimatedBytes +
        estimatedRecordBytes record := by
    rw [hold.bytes]
    exact sum_map_set hitem record
  have hle : estimatedRecordBytes retained ≤
      (m.blockOf record.channelKey nowMs).estimatedBytes := by
    rw [hold.bytes]
    exact le_estimatedSum (List.mem_of_getElem? hitem)
  rw [recordsWith, IndexedList.items_upsert_of_better hindex hitem hbetter,
    estimatedSum_append] at hfits
  -- so neither the subtraction nor the sum saturates
  have hblock : satAddU ((m.blockOf record.channelKey nowMs).estimatedBytes -
      estimatedRecordBytes retained) (estimatedRecordBytes record) =
        estimatedSum ((m.blockOf record.channelKey nowMs).records.items.set i record) := by
    rw [satAddU_eq (by omega)]
    omega
  refine h.put ((m.blockOf record.channelKey nowMs).upgrade i retained record hchannel.symm hindex)
    hchannel ⟨hblock, hold.times⟩ ?_ ?_
  · show satAddU _ _ = satAddU _ _ + _
    rw [hblock, satAddU_eq (by omega)]
    omega
  · show m.openMessages = (List.set _ i record).length + _
    rw [List.length_set]
    exact h.messages_eq record.channelKey nowMs

/-- **An append** keeps the counters exact, if the records that are open with the new one fit. -/
theorem Tallied.append {sealed : List (List CanonicalRecord)} (h : m.Tallied)
    (hfits : estimatedSum (m.recordsWith record nowMs) ≤ usizeMax)
    (happend : m.append limits record nowMs = .ok (sealed, m')) : m'.Tallied := by
  obtain ⟨hclock, hcase⟩ := append_cases happend
  cases hcase with
  | kept hindex hitem hworse => exact h
  | replaced hindex hitem hbetter => exact h.withUpgrade hfits hindex hitem hbetter
  | new hindex hsettle =>
    have htakes := takes_settle limits (m.withNew record nowMs hindex) record.channelKey
    rw [hsettle] at htakes
    exact htakes.tallied (h.withNew hclock hfits hindex)

theorem Tallied.appendSubtractions (h : m.Tallied) (limits : OpenBlockLimits)
    (hfits : (m.blockOf record.channelKey nowMs).lastAppendAtMs ≤ nowMs →
      estimatedSum (m.recordsWith record nowMs) ≤ usizeMax) :
    ∀ s ∈ appendSubtractions limits m record nowMs, ¬ s.Clamps := by
  unfold OpenBlockManager.appendSubtractions
  dsimp only
  split
  · exact List.forall_mem_nil _
  rename_i hclock
  rw [not_lt] at hclock
  split
  · split
    · exact List.forall_mem_nil _
    · rename_i retained hitem
      split
      · -- the retained copy is counted in its block, and in the manager
        have hblock : estimatedRecordBytes retained ≤
            (m.blockOf record.channelKey nowMs).estimatedBytes := by
          rw [(h.blockOf record.channelKey nowMs).bytes]
          exact le_estimatedSum (List.mem_of_getElem? hitem)
        have hall := h.bytes_eq record.channelKey nowMs
        simp only [List.forall_mem_cons, Subtraction.Clamps]
        exact ⟨by omega, by omega, List.forall_mem_nil _⟩
      · exact List.forall_mem_nil _
  · rename_i hindex
    exact (h.withNew hclock (hfits hclock) hindex).settleSubtractions limits _

/-! ### Runs -/

/-- The records that an append leaves open, before it seals blocks, fit `usize`. -/
def Fits (m : OpenBlockManager) : OpenBlockOp → Prop
  | .call (.append record nowMs) => (m.blockOf record.channelKey nowMs).lastAppendAtMs ≤ nowMs →
    estimatedSum (m.recordsWith record nowMs) ≤ usizeMax
  | _ => True

instance Fits.decidable (m : OpenBlockManager) : ∀ op, Decidable (m.Fits op)
  | .call (.append _ _) => inferInstanceAs (Decidable (_ → _))
  | .call (.sealDue _ _) => inferInstanceAs (Decidable True)
  | .call (.sealAll _) => inferInstanceAs (Decidable True)
  | .purgeChannel _ => inferInstanceAs (Decidable True)

/-- The subtractions by which an operation updates the counters. -/
def subtractions (limits : OpenBlockLimits) (m : OpenBlockManager) : OpenBlockOp → List Subtraction
  | .call (.append record nowMs) => m.appendSubtractions limits record nowMs
  | .call (.sealDue nowMs order) => takeAllSubtractions (order.filter fun channelKey =>
      (m.blocks.lookup channelKey).any (OpenBlock.due limits nowMs)) m
  | .call (.sealAll order) => takeAllSubtractions order m
  | .purgeChannel channelKey => m.takeSubtractions channelKey

/-- The subtractions by which `seal_due` finds how long a block has been idle, and open. -/
def ages (m : OpenBlockManager) : OpenBlockOp → List Subtraction
  | .call (.sealDue nowMs _) => m.blocks.rows.flatMap fun block =>
      [⟨nowMs, block.lastAppendAtMs⟩, ⟨nowMs, block.openedAtMs⟩]
  | _ => []

theorem Exact.tallied (h : m.Exact limits) : m.Tallied :=
  ⟨fun block hblock => ⟨(h.blocks block hblock).bytes, (h.blocks block hblock).times⟩, h.bytes,
    h.messages⟩

theorem Exact.filling (h : m.Exact limits) : m.Filling limits :=
  fun block hblock => ⟨(h.blocks block hblock).nonempty, (h.blocks block hblock).notFull⟩

theorem Takes.exact (h : Takes m taken m') (hm : m.Exact limits) : m'.Exact limits :=
  (h.tallied hm.tallied).exact (h.filling hm.filling)

theorem exact_new (limits : OpenBlockLimits) : new.Exact limits :=
  tallied_new.exact (by rintro block ⟨⟩)

/-- A purge takes at most one block. -/
theorem exists_takes_purgeChannel (m : OpenBlockManager) (channelKey : String) :
    ∃ taken, Takes m taken (m.purgeChannel channelKey) := by
  rw [purgeChannel]
  rcases e : m.blocks.lookup channelKey with - | block
  · rw [OpenBlockManager.takeBlock, e]
    exact ⟨[], .refl m⟩
  · obtain ⟨hblock, rfl⟩ := KeyTable.lookup_eq_some.mp e
    exact ⟨_, .take hblock (.refl _)⟩

/-- **Every operation** leaves the open blocks exact. -/
theorem Exact.step (h : m.Exact limits) (op : OpenBlockOp) (hfits : m.Fits op) :
    (m.step limits op).Exact limits := by
  cases op with
  | call c =>
    cases c with
    | append record nowMs =>
      rw [OpenBlockManager.step, call]
      rcases happend : m.append limits record nowMs with error | ⟨sealed, m'⟩
      · dsimp only
        rwa [openEntry_of_append_eq_error happend]
      · obtain ⟨m₁, hstored, htakes, hfill⟩ := append_stores h.filling happend
        exact (h.tallied.append (hfits (append_cases happend).1) happend).exact hfill
    | sealDue nowMs order => exact (takes_takeAll _ m).exact h
    | sealAll order => exact (takes_takeAll order m).exact h
  | purgeChannel channelKey =>
    obtain ⟨taken, htakes⟩ := m.exists_takes_purgeChannel channelKey
    exact htakes.exact h

theorem Exact.subtractions (h : m.Exact limits) (op : OpenBlockOp) (hfits : m.Fits op) :
    ∀ s ∈ m.subtractions limits op, ¬ s.Clamps := by
  cases op with
  | call c =>
    cases c with
    | append record nowMs => exact h.tallied.appendSubtractions limits hfits
    | sealDue nowMs order => exact h.tallied.takeAllSubtractions _
    | sealAll order => exact h.tallied.takeAllSubtractions order
  | purgeChannel channelKey => exact (h.tallied.takeBlock channelKey).2

/-- An age is clamped only if the clock is behind the last append to a block. -/
theorem Exact.ages (h : m.Exact limits) (op : OpenBlockOp) :
    ∀ s ∈ m.ages op, s.Clamps → ∃ block ∈ m.blocks.rows, s.minuend < block.lastAppendAtMs := by
  intro s hs hclamps
  cases op with
  | call c =>
    cases c with
    | append record nowMs => exact absurd hs List.not_mem_nil
    | sealDue nowMs order =>
      obtain ⟨block, hblock, hs⟩ := List.mem_flatMap.mp hs
      refine ⟨block, hblock, ?_⟩
      rw [Subtraction.Clamps] at hclamps
      rcases List.mem_pair.mp hs with rfl | rfl
      · exact hclamps
      · exact lt_of_lt_of_le hclamps (h.blocks block hblock).times
    | sealAll order => exact absurd hs List.not_mem_nil
  | purgeChannel channelKey => exact absurd hs List.not_mem_nil

/-- **The indexes and counters are exact** in every state of a run whose open records fit
`usize`, and no subtraction that updates a counter clamps; an age clamps only if the clock of
`seal_due` is behind. -/
theorem counters_exact (limits : OpenBlockLimits) (ops : List OpenBlockOp)
    (hfits : Along (step limits) Fits .new ops) :
    Throughout (step limits) (Exact limits) .new ops ∧
      Along (step limits) (fun m op => (∀ s ∈ m.subtractions limits op, ¬ s.Clamps) ∧
        ∀ s ∈ m.ages op, s.Clamps → ∃ block ∈ m.blocks.rows, s.minuend < block.lastAppendAtMs)
        .new ops := by
  constructor
  · exact throughout_of_along (I := fun _ => True)
      (fun m op _ h hop => ⟨trivial, h.step op hop⟩) trivial (exact_new limits) hfits
  · exact hfits.mono (fun m op h hop => h.step op hop)
      (fun m op h hop => ⟨h.subtractions op hop, h.ages op⟩) (exact_new limits)

/-! ### Runs whose records fit together -/

/-- The records that operations append. -/
def appendedBy (ops : List OpenBlockOp) : List CanonicalRecord :=
  ops.filterMap fun
    | .call (.append record _) => some record
    | _ => none

theorem Takes.estimatedSum_le (h : Takes m taken m') :
    estimatedSum m'.records ≤ estimatedSum m.records := by
  induction h with
  | refl m => exact le_rfl
  | @take m m' block taken hblock rest ih =>
    have hsum := estimatedSum_eq_of_perm (records_perm_of_mem hblock)
    rw [estimatedSum_append] at hsum
    omega

theorem estimatedSum_recordsWith_le (m : OpenBlockManager) (record : CanonicalRecord)
    (nowMs : ℕ) : estimatedSum (m.recordsWith record nowMs) ≤
      estimatedSum m.records + estimatedRecordBytes record := by
  rw [recordsWith, estimatedSum_append,
    estimatedSum_eq_of_perm (m.records_perm_blockOf record.channelKey nowMs), estimatedSum_append]
  rcases hindex : (m.blockOf record.channelKey nowMs).records.index record.eventKey with - | i
  · rw [IndexedList.items_upsert_of_none hindex, estimatedSum_concat]
    omega
  · obtain ⟨retained, hitem, -, ⟨-, hitems⟩ | ⟨-, hitems⟩⟩ :=
      IndexedList.upsert_of_some CanonicalRecord.shouldReplace hindex
    · have hset := sum_map_set (f := estimatedRecordBytes) hitem record
      rw [hitems]
      unfold estimatedSum
      omega
    · rw [hitems]
      omega

/-- An operation adds at most the record that it appends. -/
theorem estimatedSum_step_le (limits : OpenBlockLimits) (m : OpenBlockManager)
    (op : OpenBlockOp) : estimatedSum (m.step limits op).records ≤
      estimatedSum m.records + estimatedSum (appendedBy [op]) := by
  cases op with
  | call c =>
    cases c with
    | append record nowMs =>
      have hchannel := m.channelKey_blockOf record.channelKey nowMs
      -- what is put is the block of `recordsWith`
      have hput : ∀ (block : OpenBlock) (estimatedBytes openMessages : ℕ),
          block.channelKey = record.channelKey →
          block.records.items = ((m.blockOf record.channelKey nowMs).records.upsert
            CanonicalRecord.shouldReplace record).items →
          estimatedSum (OpenBlockManager.mk (m.blocks.put block) estimatedBytes
            openMessages).records ≤ estimatedSum m.records + estimatedRecordBytes record := by
        intro block estimatedBytes openMessages hkey hitems
        rw [estimatedSum_eq_of_perm (m.records_perm_put block estimatedBytes openMessages),
          hitems, hkey]
        exact m.estimatedSum_recordsWith_le record nowMs
      rw [OpenBlockManager.step, call]
      rcases happend : m.append limits record nowMs with error | ⟨sealed, m'⟩
      · dsimp only
        rw [openEntry_of_append_eq_error happend]
        exact Nat.le_add_right _ _
      · obtain ⟨-, hcase⟩ := append_cases happend
        cases hcase with
        | kept hindex hitem hworse => exact Nat.le_add_right _ _
        | replaced hindex hitem hbetter =>
          exact hput _ _ _ hchannel (IndexedList.items_upsert_of_better hindex hitem hbetter).symm
        | new hindex hsettle =>
          have htakes := takes_settle limits (m.withNew record nowMs hindex) record.channelKey
          rw [hsettle] at htakes
          exact htakes.estimatedSum_le.trans
            (hput _ _ _ hchannel (IndexedList.items_upsert_of_none hindex).symm)
    | sealDue nowMs order => exact (takes_takeAll _ m).estimatedSum_le
    | sealAll order => exact (takes_takeAll order m).estimatedSum_le
  | purgeChannel channelKey =>
    obtain ⟨taken, htakes⟩ := m.exists_takes_purgeChannel channelKey
    exact htakes.estimatedSum_le

/-- **Records that fit `usize` together** fit in every state of the run. -/
theorem along_fits (limits : OpenBlockLimits) {ops : List OpenBlockOp}
    (h : estimatedSum (appendedBy ops) ≤ usizeMax) : Along (step limits) Fits .new ops := by
  -- what is open and what is still to come fit together
  have hloop : ∀ (ops : List OpenBlockOp) (m : OpenBlockManager),
      estimatedSum m.records + estimatedSum (appendedBy ops) ≤ usizeMax →
        Along (step limits) Fits m ops := by
    intro ops
    induction ops with
    | nil => exact fun _ _ => trivial
    | cons op ops ih =>
      intro m hm
      have hsplit : estimatedSum (appendedBy (op :: ops)) =
          estimatedSum (appendedBy [op]) + estimatedSum (appendedBy ops) := by
        rw [← estimatedSum_append, appendedBy, appendedBy, appendedBy, ← List.filterMap_append]
        rfl
      have hstep := estimatedSum_step_le limits m op
      refine ⟨?_, ih _ (by omega)⟩
      cases op with
      | call c =>
        cases c with
        | append record nowMs =>
          have hrecord : estimatedSum (appendedBy [.call (.append record nowMs)]) =
              estimatedRecordBytes record := rfl
          have hwith := m.estimatedSum_recordsWith_le record nowMs
          exact fun _ => by omega
        | sealDue nowMs order => exact trivial
        | sealAll order => exact trivial
      | purgeChannel channelKey => exact trivial
  refine hloop ops .new ?_
  rw [show estimatedSum (new : OpenBlockManager).records = 0 from rfl]
  omega

/-- A message, a longer copy of it from a better source, a message of another channel that takes
the bytes over their bound, and seals at a clock that is behind. -/
def backwardsRun : List OpenBlockOp :=
  let copy : CanonicalRecord := ⟨"c", 0, 0, 1, "firehose", .reconstructed, List.replicate 20 0⟩
  [.call (.append copy 10),
    .call (.append { copy with fidelity := .directIrc, rawIrc := List.replicate 30 0 } 12),
    .call (.append { copy with channelKey := "d", eventKey := 2 } 11),
    .call (.sealDue 5 ["d", "c"])]

/-- The message of the other channel stays open. -/
theorem counters_exact_sample :
    (backwardsRun.foldl (step smallLimits) .new).estimatedBytes = 149 ∧
      Throughout (step smallLimits) (Exact smallLimits) .new backwardsRun :=
  ⟨by decide +kernel, (counters_exact smallLimits backwardsRun (by decide +kernel)).1⟩

/-- The clock of `seal_due` may be behind the last append, so that the idle time of the block is
clamped. -/
theorem idle_time_clamps :
    ¬ ∀ (limits : OpenBlockLimits) (ops : List OpenBlockOp), Along (step limits) Fits .new ops →
      Throughout (step limits) (Exact limits) .new ops ∧
        Along (step limits)
          (fun m op => ∀ s ∈ m.subtractions limits op ++ m.ages op, ¬ s.Clamps) .new ops := by
  intro h
  obtain ⟨-, hnone⟩ := h smallLimits backwardsRun (by decide +kernel)
  revert hnone
  decide +kernel

end OpenBlockManager

end RecentMessages
