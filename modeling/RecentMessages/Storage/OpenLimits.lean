/-
RecentMessages/Storage/OpenLimits.lean

The bounds on the open blocks.  A record that is new ends in `enforce_bounds`, which takes
blocks until both bounds hold; it ends because the manager counts no byte that is not of some
open block (`Counted`), so that without blocks both bounds hold.  Seals and purges only take
blocks.

A copy that replaces a retained one is another matter: `append` returns before the bounds are
enforced, and the new copy may be longer.  The bounds therefore hold throughout a run exactly
when no such copy takes the bytes over their limit (`within_limits_iff`).
-/
import RecentMessages.Library.Runs
import RecentMessages.Storage.Epochs

namespace RecentMessages

namespace OpenBlockManager

variable {limits : OpenBlockLimits} {m m' : OpenBlockManager}
  {taken : List (List CanonicalRecord)} {record : CanonicalRecord} {nowMs : ℕ}

/-- Both bounds hold. -/
def Within (limits : OpenBlockLimits) (m : OpenBlockManager) : Prop :=
  m.blocks.rows.length ≤ limits.maxOpenChannels ∧ m.estimatedBytes ≤ limits.maxOpenBytes

instance Within.decidable (limits : OpenBlockLimits) (m : OpenBlockManager) :
    Decidable (m.Within limits) :=
  inferInstanceAs (Decidable (_ ∧ _))

/-- The bytes of the open blocks. -/
def blockBytes (m : OpenBlockManager) : ℤ :=
  m.blocks.total fun block => block.estimatedBytes

/-- The manager counts no byte that is not of some block. -/
def Counted (m : OpenBlockManager) : Prop := (m.estimatedBytes : ℤ) ≤ m.blockBytes

/-! ### Taking blocks -/

theorem counted_takeBlock (h : m.Counted) (channelKey : String) :
    (m.takeBlock channelKey).2.Counted := by
  rw [takeBlock]
  rcases e : m.blocks.lookup channelKey with - | block
  · exact h
  · have hblock := KeyTable.le_total (g := fun block : OpenBlock => (block.estimatedBytes : ℤ))
      (KeyTable.mem_of_lookup e) fun q _ => Int.natCast_nonneg _
    rw [Counted, blockBytes] at h ⊢
    dsimp only at hblock ⊢
    rw [KeyTable.total_erase e]
    omega

theorem estimatedBytes_takeBlock (m : OpenBlockManager) (channelKey : String) :
    (m.takeBlock channelKey).2.estimatedBytes ≤ m.estimatedBytes := by
  rw [takeBlock]
  cases m.blocks.lookup channelKey with
  | none => exact le_rfl
  | some block => exact Nat.sub_le _ _

theorem length_takeBlock_of_mem {block : OpenBlock} (h : block ∈ m.blocks.rows) :
    (m.takeBlock block.channelKey).2.blocks.rows.length + 1 = m.blocks.rows.length := by
  rw [takeBlock, KeyTable.lookup_of_mem h]
  exact KeyTable.length_erase (KeyTable.lookup_of_mem h)

/-- Taking blocks breaks no bound. -/
theorem Takes.within (h : Takes m taken m') (hm : m.Within limits) : m'.Within limits := by
  induction h with
  | refl m => exact hm
  | @take m m' block taken hblock rest ih =>
    have hlength := length_takeBlock_of_mem hblock
    exact ih ⟨by have := hm.1; omega, (m.estimatedBytes_takeBlock block.channelKey).trans hm.2⟩

theorem Takes.counted (h : Takes m taken m') (hm : m.Counted) : m'.Counted := by
  induction h with
  | refl m => exact hm
  | take hblock rest ih => exact ih (counted_takeBlock hm _)

/-! ### Enforcing the bounds -/

/-- Without blocks both bounds hold. -/
theorem within_of_rows_eq_nil (h : m.Counted) (hempty : m.blocks.rows = []) :
    m.Within limits := by
  rw [Counted, blockBytes, KeyTable.total, hempty] at h
  rw [Within, hempty]
  exact ⟨Nat.zero_le _, (Int.ofNat_le.mp h).trans (Nat.zero_le _)⟩

/-- **Enforcing the bounds** ends with both: every round takes a block. -/
theorem within_enforceBounds (rounds : ℕ) (taken : List (List CanonicalRecord))
    (h : m.Counted) (hrounds : m.blocks.rows.length ≤ rounds) :
    (enforceBounds limits rounds m taken).2.Within limits := by
  induction rounds generalizing m taken with
  | zero => exact within_of_rows_eq_nil h (List.length_eq_zero_iff.mp (Nat.le_zero.mp hrounds))
  | succ rounds ih =>
    rw [enforceBounds]
    split
    · rcases e : m.oldest with - | block
      · -- there is no block to take
        have hsorted := List.head?_eq_none_iff.mp e
        refine within_of_rows_eq_nil h (List.length_eq_zero_iff.mp ?_)
        rw [← @length_sortByKey _ _ _ OpenBlock.sealOrder, hsorted]
        rfl
      · have hblock : block ∈ m.blocks.rows := mem_sortByKey.mp (List.mem_of_head? e)
        have hlength := length_takeBlock_of_mem hblock
        exact ih _ (counted_takeBlock h block.channelKey) (by omega)
    · rename_i hwithin
      rw [not_or, not_lt, not_lt] at hwithin
      exact hwithin

theorem within_settle (limits : OpenBlockLimits) (h : m.Counted) (channelKey : String) :
    (settle limits m channelKey).2.Within limits := by
  unfold settle
  split
  · exact within_enforceBounds _ _ h le_rfl
  · rename_i block hlookup
    split
    · obtain ⟨hblock, rfl⟩ := KeyTable.lookup_eq_some.mp hlookup
      refine within_enforceBounds _ _ (counted_takeBlock h _) ?_
      have hlength := length_takeBlock_of_mem hblock
      omega
    · exact within_enforceBounds _ _ h le_rfl

/-! ### Appending -/

/-- The retained copy that an append of `record` replaces. -/
def replaced (m : OpenBlockManager) (record : CanonicalRecord) (nowMs : ℕ) :
    Option CanonicalRecord :=
  let block := m.blockOf record.channelKey nowMs
  if nowMs < block.lastAppendAtMs then none
  else block.records.items.find? fun retained => record.shouldReplace retained

/-- Putting a block of the channel changes the bytes by what the block gained. -/
theorem counted_put {block : OpenBlock} {channelKey : String} {estimatedBytes openMessages : ℕ}
    (nowMs : ℕ) (hchannel : block.channelKey = channelKey)
    (h : (estimatedBytes : ℤ) ≤
      m.blockBytes - (m.blockOf channelKey nowMs).estimatedBytes + block.estimatedBytes) :
    (mk (m.blocks.put block) estimatedBytes openMessages).Counted := by
  subst hchannel
  refine h.trans_eq ?_
  rw [blockBytes, blockBytes, KeyTable.total_put, blockOf]
  rcases e : m.blocks.lookup block.channelKey with - | old
  · -- a new block, which counts nothing so far
    rw [KeyTable.erase_eq_self e]
    simp [OpenBlock.fresh]
  · rw [KeyTable.total_erase e]
    rfl

/-- The bytes of one block are among the bytes of all. -/
theorem estimatedBytes_blockOf_le (m : OpenBlockManager) (channelKey : String) (nowMs : ℕ) :
    ((m.blockOf channelKey nowMs).estimatedBytes : ℤ) ≤ m.blockBytes := by
  have hnonneg : ∀ q ∈ m.blocks.rows, 0 ≤ (q.estimatedBytes : ℤ) :=
    fun q _ => Int.natCast_nonneg _
  rw [blockOf]
  rcases e : m.blocks.lookup channelKey with - | block
  · exact KeyTable.total_nonneg hnonneg
  · exact KeyTable.le_total (KeyTable.mem_of_lookup e) hnonneg

/-- **What an append does to the bounds.**  It replaces a retained copy, or it leaves the
blocks as they were, or both bounds hold afterwards. -/
theorem append_bounds {sealed : List (List CanonicalRecord)} (hcount : m.Counted)
    (h : m.append limits record nowMs = .ok (sealed, m')) : m'.Counted ∧
      ((∃ retained, m.replaced record nowMs = some retained ∧
          m'.blocks.rows.length = m.blocks.rows.length ∧
          m'.estimatedBytes = satAddU (m.estimatedBytes - estimatedRecordBytes retained)
            (estimatedRecordBytes record)) ∨
        m.replaced record nowMs = none ∧ (m' = m ∨ m'.Within limits)) := by
  have hchannel := m.channelKey_blockOf record.channelKey nowMs
  have hblock := m.estimatedBytes_blockOf_le record.channelKey nowMs
  rw [Counted] at hcount
  obtain ⟨hclock, hcase⟩ := append_cases h
  have hreplaced : m.replaced record nowMs = (m.blockOf record.channelKey nowMs).records.items.find?
      fun retained => record.shouldReplace retained := if_neg (not_lt.mpr hclock)
  rw [hreplaced]
  -- a copy that is replaced has the key, and there is one such copy
  have hfind : ∀ {i retained},
      (m.blockOf record.channelKey nowMs).records.index record.eventKey = some i →
      (m.blockOf record.channelKey nowMs).records.items[i]? = some retained →
      ∀ q ∈ (m.blockOf record.channelKey nowMs).records.items,
        record.shouldReplace q = true → q = retained := by
    intro i retained hindex hitem q hq hbetter
    obtain ⟨r, hr, hkey⟩ := ((m.blockOf record.channelKey nowMs).records.index_iff _ i).mp hindex
    obtain rfl : r = retained := Option.some.inj (hr.symm.trans hitem)
    exact List.inj_on_of_nodup_map (m.blockOf record.channelKey nowMs).records.nodup_keys hq
      (List.mem_of_getElem? hitem)
      ((CanonicalRecord.eventKey_of_shouldReplace hbetter).symm.trans hkey.symm)
  cases hcase with
  | kept hindex hitem hworse =>
    refine ⟨hcount, .inr ⟨?_, .inl rfl⟩⟩
    refine List.find?_eq_none.mpr fun q hq hbetter => ?_
    rw [hfind hindex hitem q hq hbetter, hworse] at hbetter
    cases hbetter
  | @replaced i retained hindex hitem hbetter =>
    refine ⟨counted_put nowMs hchannel ?_, .inl ⟨retained, ?_, ?_, rfl⟩⟩
    · simp only [OpenBlock.upgrade, satAddU]
      omega
    · rcases e : (m.blockOf record.channelKey nowMs).records.items.find?
          (fun retained => record.shouldReplace retained) with - | q
      · exact absurd hbetter (List.find?_eq_none.mp e retained (List.mem_of_getElem? hitem))
      · rw [hfind hindex hitem q (List.mem_of_find?_eq_some e) (List.find?_some e)]
    · -- the block is put where its channel has one
      obtain ⟨hopen, hc⟩ := mem_blockOf.mp (List.mem_of_getElem? hitem)
      obtain ⟨old, hold, -⟩ := mem_records_iff_lookup.mp hopen
      rw [hc, ← hchannel] at hold
      exact KeyTable.length_put hold
  | new hindex hsettle =>
    have hcounted : (m.withNew record nowMs hindex).Counted := by
      refine counted_put nowMs hchannel ?_
      simp only [OpenBlock.push, satAddU]
      omega
    -- `settle` ends with the bounds
    have hwithin := within_settle limits hcounted record.channelKey
    have htakes := (takes_settle limits _ record.channelKey).counted hcounted
    rw [hsettle] at hwithin htakes
    refine ⟨htakes, .inr ⟨?_, .inr hwithin⟩⟩
    refine List.find?_eq_none.mpr fun q hq hbetter => ?_
    have hmem := List.mem_map_of_mem (f := CanonicalRecord.eventKey) hq
    rw [← CanonicalRecord.eventKey_of_shouldReplace hbetter, ← IndexedList.index_ne_none] at hmem
    exact hmem hindex

end OpenBlockManager

/-! ### Runs -/

/-- What may be done to the open blocks. -/
inductive OpenBlockOp
  | call (c : OpenBlockCall)
  | purgeChannel (channelKey : String)

namespace OpenBlockManager

variable {limits : OpenBlockLimits} {m : OpenBlockManager}

/-- The manager that an operation leaves. -/
def step (limits : OpenBlockLimits) (m : OpenBlockManager) : OpenBlockOp → OpenBlockManager
  | .call c => (m.call limits c).2
  | .purgeChannel channelKey => m.purgeChannel channelKey

/-- A copy that replaces a retained one keeps the bytes within their limit. -/
def Affords (limits : OpenBlockLimits) (m : OpenBlockManager) : OpenBlockOp → Prop
  | .call (.append record nowMs) => ∀ retained ∈ m.replaced record nowMs,
      satAddU (m.estimatedBytes - estimatedRecordBytes retained) (estimatedRecordBytes record) ≤
        limits.maxOpenBytes
  | _ => True

/-- **One operation**: whatever takes blocks keeps the bounds, and an append keeps them exactly
when it affords the copy that it retains. -/
theorem within_step_iff (hcount : m.Counted) (hm : m.Within limits) (op : OpenBlockOp) :
    (m.step limits op).Counted ∧ ((m.step limits op).Within limits ↔ m.Affords limits op) := by
  have htake : ∀ {taken m'}, Takes m taken m' → m'.Counted ∧ (m'.Within limits ↔ True) :=
    fun h => ⟨h.counted hcount, iff_of_true (h.within hm) trivial⟩
  cases op with
  | call c =>
    cases c with
    | append record nowMs =>
      rw [step, call, Affords]
      rcases happend : m.append limits record nowMs with error | ⟨sealed, m'⟩
      · -- a clock error changes nothing, and no copy is replaced
        have hnone : m.replaced record nowMs = none :=
          if_pos (clock_of_append_eq_error happend)
        dsimp only
        rw [openEntry_of_append_eq_error happend, hnone]
        exact ⟨hcount, iff_of_true hm (by rintro retained ⟨⟩)⟩
      · obtain ⟨hcount', ⟨retained, hretained, hlength, hbytes⟩ | ⟨hnone, hkept⟩⟩ :=
          append_bounds hcount happend
        · refine ⟨hcount', ?_⟩
          rw [hretained, Within, hlength, hbytes]
          simp [hm.1]
        · rw [hnone]
          refine ⟨hcount', iff_of_true ?_ (by rintro retained ⟨⟩)⟩
          rcases hkept with rfl | hwithin
          · exact hm
          · exact hwithin
    | sealDue nowMs order => exact htake (takes_takeAll _ m)
    | sealAll order => exact htake (takes_takeAll order m)
  | purgeChannel channelKey =>
    show (m.takeBlock channelKey).2.Counted ∧ ((m.takeBlock channelKey).2.Within limits ↔ True)
    rcases e : m.blocks.lookup channelKey with - | block
    · have hstay : (m.takeBlock channelKey).2 = m := by
        rw [takeBlock, e]
      rw [hstay]
      exact ⟨hcount, iff_of_true hm trivial⟩
    · obtain ⟨hblock, rfl⟩ := KeyTable.lookup_eq_some.mp e
      exact htake (.take hblock (.refl _))

/-- **Open-block memory.**  Both bounds hold after every operation of a run exactly when every
copy that replaces a retained one keeps the bytes within their limit. -/
theorem within_limits_iff (limits : OpenBlockLimits) (ops : List OpenBlockOp) :
    Throughout (step limits) (Within limits) .new ops ↔
      Along (step limits) (Affords limits) .new ops := by
  refine throughout_iff_along (I := Counted) ?_ ?_ le_rfl ⟨Nat.zero_le _, Nat.zero_le _⟩
  · exact fun m op hcount hm => (within_step_iff hcount hm op).2
  · exact fun m op hcount hm _ => (within_step_iff hcount hm op).1

/-- A reconstructed message and the same message from the channel itself, which is longer. -/
def longerCopies : List OpenBlockOp :=
  let copy : CanonicalRecord :=
    ⟨"c", 0, 0, 1, "firehose", .reconstructed, List.replicate 20 0⟩
  [.call (.append copy 0),
    .call (.append { copy with fidelity := .directIrc, rawIrc := List.replicate 400 0 } 0)]

/-- Limits of three hundred bytes. -/
def smallLimits : OpenBlockLimits :=
  ⟨100, 10, 300, 30000, 60000, Nat.succ_pos _, Nat.succ_pos _, Nat.succ_pos _, Nat.succ_pos _,
    Nat.succ_pos _⟩

/-- The longer copy takes the bytes over their limit, and no block is sealed. -/
theorem upgrade_exceeds_limits :
    ¬ ∀ (limits : OpenBlockLimits) (ops : List OpenBlockOp),
      Throughout (step limits) (Within limits) .new ops := by
  intro h
  have hlast := (h smallLimits longerCopies).last
  revert hlast
  decide +kernel

end OpenBlockManager

end RecentMessages
