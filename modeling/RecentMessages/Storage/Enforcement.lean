/-
RecentMessages/Storage/Enforcement.lean

A pass of `enforce_with` between the high water and the emergency (`storage/budget.rs`).

The pass reads the blocks, spreads the overhead of the files over them, plans and
evicts.  A plan reaches the target or there is none, so the pass evicts something
exactly if the floors let enough blocks go for the whole way
(`enforcement_progress`).  `enforcement_stalls` is a store where they let one block go,
which is not enough.
-/
import RecentMessages.Storage.EvictionPlan

namespace RecentMessages

open PressurePolicy

namespace Db

variable {β : Type} (codec : Codec β)

/-- A pass of `enforce_with` over a store at the high water; the result is the number of
evicted blocks. -/
def enforcePass (db : Db β) (alwaysJoin : List String) (policy : PressurePolicy)
    (physicalBytes : ℕ) : Except StorageBudgetError (ℕ × Db β) := do
  let plan ← db.planEviction codec alwaysJoin policy physicalBytes
  if plan.evictBlockIds.isEmpty then
    return (0, db)
  else
    (db.evictBlockIds codec plan.evictBlockIds).mapError .store

/-- One id of `evict_block_ids`, with the blocks counted so far. -/
def evictBlock (counted : ℕ × Db β) (id : ℕ) : Except StoreError (ℕ × Db β) := do
  let id ← tryFromU64 id
  match counted.2.messageBlocks.lookup id with
  | none => return counted
  | some row => return (counted.1 + 1, counted.2.removeBlock codec row)

variable {codec} {db : Db β}

theorem evictBlockIds_eq_foldlM (ids : List ℕ) :
    db.evictBlockIds codec ids = ids.foldlM (evictBlock codec) (0, db) := rfl

/-- An id that an `i64` holds is evicted; one that is in use counts. -/
theorem evictBlock_of_le {id : ℕ} (h : (id : ℤ) ≤ i64Max) (n : ℕ) (db : Db β) :
    ∃ counted, evictBlock codec (n, db) id = .ok counted ∧ n ≤ counted.1 ∧
      (db.messageBlocks.lookup (id : ℤ) ≠ none → n < counted.1) := by
  have hid : tryFromU64 id = .ok (id : ℤ) := if_pos h
  rw [evictBlock, hid]
  simp only [bind, Except.bind, pure, Except.pure]
  cases db.messageBlocks.lookup (id : ℤ) with
  | none => exact ⟨(n, db), rfl, le_rfl, fun hne => absurd rfl hne⟩
  | some row => exact ⟨(n + 1, _), rfl, Nat.le_succ n, fun _ => Nat.lt_succ_self n⟩

/-- Evictions succeed for all ids that an `i64` holds; an id that is in use counts. -/
theorem evictBlockIds_of_le {ids : List ℕ} (h : ∀ id ∈ ids, (id : ℤ) ≤ i64Max) :
    ∃ deleted db', db.evictBlockIds codec ids = .ok (deleted, db') ∧
      (∀ id ∈ ids.head?, db.messageBlocks.lookup (id : ℤ) ≠ none → 0 < deleted) := by
  rw [evictBlockIds_eq_foldlM]
  cases ids with
  | nil =>
    refine ⟨0, db, rfl, fun id hid => ?_⟩
    cases hid
  | cons id ids =>
    obtain ⟨⟨n, db₁⟩, hid, -, hcount⟩ := evictBlock_of_le (h id List.mem_cons_self) 0 db
    have hrest : ∀ counted : ℕ × Db β, ∀ i ∈ ids, n ≤ counted.1 →
        ∃ counted', evictBlock codec counted i = .ok counted' ∧ n ≤ counted'.1 := by
      intro counted i hi hle
      obtain ⟨counted', hstep, hmore, -⟩ :=
        evictBlock_of_le (h i (List.mem_cons_of_mem id hi)) counted.1 counted.2
      exact ⟨counted', hstep, hle.trans hmore⟩
    have hfirst : n ≤ (n, db₁).1 := le_rfl
    obtain ⟨⟨deleted, db'⟩, hrun, hle⟩ := Except.exists_foldlM _ hrest hfirst
    refine ⟨deleted, db', ?_, fun i hi hused => ?_⟩
    · rw [List.foldlM_cons, hid]
      exact hrun
    · obtain rfl := Option.some.inj hi
      exact (hcount hused).trans_le hle

/-- **A pass above the target makes progress exactly if the floors let enough go**: the
blocks that it may take without putting a requested channel under its floor, in the order
of eviction, free what is above the target.  Otherwise it fails. -/
theorem enforcement_progress {alwaysJoin : List String} {policy : PressurePolicy} {current : ℕ}
    {blocks : List BlockMeta} (hread : db.pressureBlocks codec alwaysJoin = .ok blocks)
    (hids : ∀ row ∈ db.messageBlocks.rows, row.id ≤ i64Max)
    (hhigh : policy.highWaterBytes ≤ current) (hcalm : current < policy.emergencyBytes)
    (hover : policy.targetBytes < current) :
    ((∃ deleted db', db.enforcePass codec alwaysJoin policy current = .ok (deleted, db') ∧
        0 < deleted) ↔
      current - policy.targetBytes ≤
        bytesOf (policy.spared (distributePhysicalOverhead blocks current))) ∧
    (¬current - policy.targetBytes ≤
        bytesOf (policy.spared (distributePhysicalOverhead blocks current)) →
      db.enforcePass codec alwaysJoin policy current = .error .targetUnreachable) := by
  have hplan : db.planEviction codec alwaysJoin policy current = planPressureEviction
      (distributePhysicalOverhead blocks current) current policy := by
    rw [planEviction, hread]
    rfl
  -- outside an emergency the queue is what the floors let go
  have hqueue : policy.queue (distributePhysicalOverhead blocks current) current =
      policy.spared (distributePhysicalOverhead blocks current) := by
    rw [queue, if_neg (Nat.not_le.mpr hcalm), List.append_nil]
  rw [planPressureEviction_eq hhigh, hqueue] at hplan
  have hfails : ¬current - policy.targetBytes ≤
        bytesOf (policy.spared (distributePhysicalOverhead blocks current)) →
      db.enforcePass codec alwaysJoin policy current = .error .targetUnreachable := by
    intro hshort
    rw [if_neg hshort] at hplan
    rw [enforcePass, hplan]
    rfl
  refine ⟨⟨?_, fun henough => ?_⟩, hfails⟩
  · rintro ⟨deleted, db', hrun, -⟩
    by_contra hshort
    rw [hfails hshort] at hrun
    cases hrun
  · rw [if_pos henough] at hplan
    have hne : (policy.victims (distributePhysicalOverhead blocks current) current).map (·.id) ≠
        [] := by
      rw [ne_eq, List.map_eq_nil_iff, victims, hqueue]
      refine enough_ne_nil (by omega) fun hnil => ?_
      rw [hnil] at henough
      exact absurd henough (Nat.not_le.mpr (Nat.sub_pos_of_lt hover))
    have hnamed : ∀ id : ℕ, id ∈ (policy.victims (distributePhysicalOverhead blocks current)
        current).map (·.id) → ∃ row ∈ db.messageBlocks.rows, row.id = id :=
      fun id hid => mem_planEviction hplan hid
    obtain ⟨deleted, db', hrun, hcount⟩ := @evictBlockIds_of_le β codec db _ fun id hid => by
      obtain ⟨row, hrow, hrowid⟩ := hnamed id hid
      exact hrowid ▸ hids row hrow
    refine ⟨deleted, db', ?_, ?_⟩
    · have hsome : ((policy.victims (distributePhysicalOverhead blocks current) current).map
          (·.id)).isEmpty = false := by
        rw [← Bool.not_eq_true, List.isEmpty_iff]
        exact hne
      rw [enforcePass, hplan]
      simp only [bind, Except.bind, hsome, Bool.false_eq_true, ↓reduceIte, hrun, Except.mapError]
    · obtain ⟨id, ids, hcons⟩ := List.exists_cons_of_ne_nil hne
      have hid : id ∈ (policy.victims (distributePhysicalOverhead blocks current) current).map
          (·.id) := hcons ▸ List.mem_cons_self
      obtain ⟨row, hrow, hrowid⟩ := hnamed id hid
      refine hcount id (by rw [hcons]; rfl) ?_
      rw [← hrowid, KeyTable.lookup_of_mem hrow]
      exact Option.some_ne_none row

/-- Each channel has a block of one message; `b` is requested. -/
def oneRequested : List StoreCall :=
  [.appendChannelBatches [[messageAt "a" 1], [messageAt "b" 2]], .touchChannelRequested "b" 5 5]

/-- The target is 400 bytes, a requested channel keeps one message. -/
def floorPolicy : PressurePolicy := ⟨400, 900, 1100, 1, 1⟩

/-- In files of 1000 bytes each block counts 500.  The one of `a` can go, but that is not
enough: the pass fails, and evicts nothing. -/
theorem enforcement_stalls :
    ∃ db : Db Plain, db = oneRequested.foldl (call Plain.codec smallStore) empty ∧
      floorPolicy.targetBytes < 1000 ∧ floorPolicy.highWaterBytes ≤ 1000 ∧
      1000 < floorPolicy.emergencyBytes ∧
      (∃ blocks, db.pressureBlocks Plain.codec [] = .ok blocks ∧
        (floorPolicy.spared (distributePhysicalOverhead blocks 1000)).map
          (fun b => (b.channelKey, b.bytes)) = [("a", 500)]) ∧
      db.enforcePass Plain.codec [] floorPolicy 1000 = .error .targetUnreachable := by
  refine ⟨_, rfl, by decide, by decide, by decide, ⟨_, rfl, by decide +kernel⟩, ?_⟩
  have hplan : (oneRequested.foldl (call Plain.codec smallStore) empty : Db Plain).planEviction
    Plain.codec [] floorPolicy 1000 = .error .targetUnreachable := by decide +kernel
  rw [enforcePass, hplan]
  rfl

/-- In files of 1000 bytes with a target of 500 the block of `a` is enough. -/
theorem enforcement_progress_sample :
    ∃ deleted db', (oneRequested.foldl (call Plain.codec smallStore) empty : Db Plain).enforcePass
      Plain.codec [] { floorPolicy with targetBytes := 500 } 1000 = .ok (deleted, db') ∧
      0 < deleted :=
  (enforcement_progress rfl (by decide +kernel) (by decide) (by decide) (by decide)).1.mpr
    (by decide +kernel)

end Db

end RecentMessages
