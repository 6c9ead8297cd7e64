/-
RecentMessages/Storage/AppendSpec.lean

What an append does to the contents of the sealed store.

The stages of `append_transaction` are taken in order: loading the overlapping
blocks (`loadRetained_eq_ok`), the merge loop (`Merged`), writing upgraded
blocks back (`rewriteDirty_eq_ok`), inserting the new ones
(`insertChunks_eq_ok`) and per-channel retention (`evictOldest_contents`).  They
combine to `Appended`:

* every sealed record was sealed before or comes with the append, past its
  channel's policy;
* the event of every record, old or new, is still sealed, or its block was
  evicted;
* no event is sealed twice, provided that copies of an event agree on its time.
-/
import RecentMessages.Storage.Contents
import Mathlib.Logic.Relation

namespace RecentMessages

open CanonicalRecord

/-! ### The index of retained records -/

/-- Enter one record of a block into the index. -/
def indexRecord (blockIndex : ℕ) (retained : RetainedIndex) (entry : CanonicalRecord × ℕ) :
    RetainedIndex :=
  Function.update retained entry.1.eventKey (some (blockIndex, entry.2))

theorem indexRecords_eq_foldl (blockIndex : ℕ) (records : List CanonicalRecord)
    (retained : RetainedIndex) : indexRecords blockIndex records retained =
      records.zipIdx.foldl (indexRecord blockIndex) retained := rfl

theorem indexRecords_ne_none (blockIndex : ℕ) (records : List CanonicalRecord)
    (retained : RetainedIndex) (k : EventKey) :
    indexRecords blockIndex records retained k ≠ none ↔
      retained k ≠ none ∨ k ∈ records.map eventKey := by
  have h : ∀ n, ∀ retained : RetainedIndex,
      (records.zipIdx n).foldl (indexRecord blockIndex) retained k ≠ none ↔
        retained k ≠ none ∨ k ∈ records.map eventKey := by
    induction records with
    | nil => simp
    | cons r records ih =>
      intro n retained
      rw [List.zipIdx_cons, List.foldl_cons, ih, List.map_cons, List.mem_cons, indexRecord]
      dsimp only
      rcases eq_or_ne k r.eventKey with rfl | hk
      · simp
      · rw [Function.update_of_ne hk]
        simp [hk]
  rw [indexRecords_eq_foldl]
  exact h 0 retained

/-- A block as it was loaded, or with some records upgraded by copies from
`incoming`. -/
structure RetainedBlock.Upgrades {β : Type} (codec : Codec β) (incoming : List CanonicalRecord)
    (row : MessageBlock β) (block : RetainedBlock) : Prop where
  id : block.id = row.id
  events : block.records.map event = (row.records codec).map event
  source : ∀ r ∈ block.records, r ∈ row.records codec ∨ r ∈ incoming

/-- The state of the merge loop over the overlapping blocks `rows`. -/
structure Merged {β : Type} (codec : Codec β) (rows : List (MessageBlock β))
    (incoming : List CanonicalRecord) (index : RetainedIndex) (m : MergeState) : Prop where
  upgraded : ∀ block ∈ m.retained, ∃ row ∈ rows, block.Upgrades codec incoming row
  fresh : ∀ r ∈ m.newRecords.items, r ∈ incoming ∧ index r.eventKey = none

section Merge

variable {β : Type} {codec : Codec β} {rows : List (MessageBlock β)}
  {incoming : List CanonicalRecord} {index : RetainedIndex} {m : MergeState} {channel : String}

/-- **One round of the merge loop** upgrades a sealed copy or collects a new
record. -/
theorem merged_absorb (hreadable : ∀ row ∈ rows, row.Readable codec ∧ row.channelKey = channel)
    {record : CanonicalRecord} (hrecord : record ∈ incoming) (hchannel : record.channelKey = channel)
    (hm : Merged codec rows incoming index m) :
    Merged codec rows incoming index (absorb index m record) := by
  unfold absorb
  split
  · rename_i blockIndex recordIndex hindex
    split
    · exact hm
    · rename_i old hold
      split
      · rename_i hreplace
        refine ⟨fun block hblock => ?_, hm.fresh⟩
        -- the only block that changed is the indexed one
        obtain ⟨i, hi⟩ := List.getElem?_of_mem hblock
        rw [List.getElem?_modify] at hi
        obtain ⟨b, hb, hbi⟩ := Option.map_eq_some_iff.mp hi
        obtain ⟨row, hrow, hup⟩ := hm.upgraded b (List.mem_of_getElem? hb)
        split at hbi
        · rename_i heq
          subst heq hbi
          rw [hb, Option.bind_some] at hold
          have hevent : record.event = old.event := by
            refine event_eq_iff.mpr ⟨?_, eventKey_of_shouldReplace hreplace⟩
            have hmem : old.event ∈ (row.records codec).map event :=
              hup.events ▸ List.mem_map_of_mem (List.mem_of_getElem? hold)
            obtain ⟨q, hq, hqe⟩ := List.mem_map.mp hmem
            obtain ⟨hread, hrc⟩ := hreadable row hrow
            rw [hchannel, ← (event_eq_iff.mp hqe).1, hread.channel hq, hrc]
          refine ⟨row, hrow, hup.id, ?_, fun r hr => ?_⟩
          · rw [map_set_of_eq hold hevent, hup.events]
          · rcases List.mem_or_eq_of_mem_set hr with hr | rfl
            · exact hup.source r hr
            · exact .inr hrecord
        · obtain rfl : b = block := hbi
          exact ⟨row, hrow, hup⟩
      · exact hm
  · rename_i hindex
    refine ⟨hm.upgraded, fun r hr => ?_⟩
    rcases IndexedList.mem_of_mem_upsert hr with hr | rfl
    · exact hm.fresh r hr
    · exact ⟨hrecord, hindex⟩

theorem merged_foldl (hreadable : ∀ row ∈ rows, row.Readable codec ∧ row.channelKey = channel)
    {records : List CanonicalRecord}
    (hrecords : ∀ r ∈ records, r ∈ incoming ∧ r.channelKey = channel)
    (hm : Merged codec rows incoming index m) :
    Merged codec rows incoming index (records.foldl (absorb index) m) := by
  induction records generalizing m with
  | nil => exact hm
  | cons r records ih =>
    obtain ⟨hin, hchannel⟩ := hrecords r List.mem_cons_self
    exact ih (fun q hq => hrecords q (List.mem_cons_of_mem r hq))
      (merged_absorb hreadable hin hchannel hm)

/-- The merge loop never forgets a new record. -/
theorem mem_newRecords_absorb {k : EventKey} (record : CanonicalRecord)
    (hk : k ∈ m.newRecords.items.map eventKey) :
    k ∈ (absorb index m record).newRecords.items.map eventKey := by
  unfold absorb
  split
  · split
    · exact hk
    · split <;> exact hk
  · exact IndexedList.mem_keys_upsert.mpr (.inl hk)

/-- Every record whose event is not indexed ends up among the new ones. -/
theorem mem_newRecords_foldl {records : List CanonicalRecord} {k : EventKey}
    (hk : k ∈ m.newRecords.items.map eventKey ∨ (k ∈ records.map eventKey ∧ index k = none)) :
    k ∈ (records.foldl (absorb index) m).newRecords.items.map eventKey := by
  induction records generalizing m with
  | nil => exact hk.elim id (fun h => absurd h.1 List.not_mem_nil)
  | cons r records ih =>
    refine ih ?_
    rcases hk with hk | ⟨hk, hnone⟩
    · exact .inl (mem_newRecords_absorb r hk)
    · rcases List.mem_cons.mp hk with rfl | hk
      · refine .inl ?_
        rw [absorb, hnone]
        exact IndexedList.mem_keys_upsert.mpr (.inr rfl)
      · exact .inr ⟨hk, hnone⟩

end Merge

namespace Db

variable {β : Type} {codec : Codec β} {store : SqliteBlockStore} {db db' : Db β}
  {channelKey : String}

/-! ### The stages -/

/-- **Loading** decodes every overlapping block and indexes exactly its events. -/
theorem loadRetained_eq_ok {rows : List (MessageBlock β)} {retained : List RetainedBlock}
    {index : RetainedIndex} (h : loadRetained codec rows = .ok (retained, index)) :
    (∀ block ∈ retained, ∃ row ∈ rows, block.id = row.id ∧
        block.records = row.records codec ∧ block.dirty = false) ∧
      ∀ k, index k ≠ none ↔ ∃ row ∈ rows, k ∈ (row.records codec).map eventKey := by
  refine Except.foldlM_done
    (fun (done : List (MessageBlock β)) (loaded : List RetainedBlock × RetainedIndex) =>
      (∀ block ∈ loaded.1, ∃ row ∈ done, block.id = row.id ∧
        block.records = row.records codec ∧ block.dirty = false) ∧
      ∀ k, loaded.2 k ≠ none ↔ ∃ row ∈ done, k ∈ (row.records codec).map eventKey) ?_
    ⟨fun block hblock => absurd hblock List.not_mem_nil, fun k => by simp⟩ h
  rintro done ⟨blocks, index⟩ loaded row - ⟨hblocks, hindex⟩ hstep
  obtain ⟨decoded, hdecode, hstep⟩ := Except.bind_eq_ok.mp hstep
  cases hstep
  have hrecords : row.records codec = decoded :=
    MessageBlock.records_of_decode (Except.mapError_eq_ok.mp hdecode)
  refine ⟨fun block hblock => ?_, fun k => ?_⟩
  · rcases List.mem_append.mp hblock with hold | hnew
    · obtain ⟨q, hq, hcopy⟩ := hblocks block hold
      exact ⟨q, List.mem_append_left _ hq, hcopy⟩
    · rw [List.mem_singleton.mp hnew]
      exact ⟨row, List.mem_append_right _ (List.mem_singleton_self row), rfl, hrecords.symm, rfl⟩
  · rw [indexRecords_ne_none, hindex k, ← hrecords]
    simp only [List.mem_append, List.mem_singleton, or_and_right, exists_or, exists_eq_left]

/-- An update that leaves the message count of its block. -/
def Rewrites (codec : Codec β) (db db' : Db β) : Prop :=
  ∃ id b row, db.messageBlocks.lookup id = some row ∧
    (b.messageCount : ℤ) = row.messageCount ∧ db' = db.updateBlock codec id b

/-- **Writing upgraded blocks back** changes copies, not events. -/
theorem rewriteDirty_eq_ok {incoming : List CanonicalRecord} {retained : List RetainedBlock}
    (hup : ∀ block ∈ retained, ∃ row ∈ db.messageBlocks.rows, block.Upgrades codec incoming row)
    (hdb : db.Readable codec) (h : db.rewriteDirty codec store retained = .ok db') :
    db'.Readable codec ∧ db'.shape codec = db.shape codec ∧
      (∀ r ∈ db'.sealedRecords codec, r ∈ db.sealedRecords codec ∨ r ∈ incoming) ∧
      db.SamePolicy db' ∧ db'.evicted = db.evicted ∧
      Relation.ReflTransGen (Rewrites codec) db db' := by
  refine Except.foldlM_invariant (fun db₁ : Db β => db₁.Readable codec ∧
      db₁.shape codec = db.shape codec ∧
      (∀ r ∈ db₁.sealedRecords codec, r ∈ db.sealedRecords codec ∨ r ∈ incoming) ∧
      db.SamePolicy db₁ ∧ db₁.evicted = db.evicted ∧
      Relation.ReflTransGen (Rewrites codec) db db₁) ?_
    ⟨hdb, rfl, fun r hr => .inl hr, SamePolicy.refl db, rfl, .refl⟩ h
  rintro db₁ db₂ block hblock ⟨hread, hshape, hsource, hpolicy, hevicted, hrewrites⟩ hstep
  split at hstep
  · obtain ⟨encoded, hencode, hstep⟩ := Except.bind_eq_ok.mp hstep
    cases hstep
    obtain ⟨row, hrow, hblockrow⟩ := hup block hblock
    -- the row still has the shape it had before the loop
    have hmem : row.shape codec ∈ db₁.shape codec := hshape ▸ List.mem_map_of_mem hrow
    obtain ⟨row₁, hrow₁, heq⟩ := List.mem_map.mp hmem
    simp only [MessageBlock.shape, Prod.mk.injEq] at heq
    have hlookup : db₁.messageBlocks.lookup block.id = some row₁ :=
      KeyTable.lookup_eq_some.mpr ⟨hrow₁, heq.1.trans hblockrow.id.symm⟩
    obtain ⟨hread₂, hshape₂, hsource₂⟩ := contents_updateBlock (Except.mapError_eq_ok.mp hencode)
      hlookup (hblockrow.events.trans heq.2.2.2.symm) hread
    obtain ⟨hpolicy₂, hevicted₂, -⟩ := policy_updateBlock codec db₁ block.id encoded
    have hcount : (encoded.messageCount : ℤ) = row₁.messageCount := by
      have hlength := congrArg List.length (hblockrow.events.trans heq.2.2.2.symm)
      rw [List.length_map, List.length_map] at hlength
      rw [(hread row₁ hrow₁).count, ← hlength,
        (EncodedBlock.describes_of_encode (Except.mapError_eq_ok.mp hencode)).count]
    refine ⟨hread₂, hshape₂.trans hshape, fun r hr => ?_, hpolicy.trans hpolicy₂,
      hevicted₂.trans hevicted, hrewrites.tail ⟨block.id, encoded, row₁, hlookup, hcount, rfl⟩⟩
    rcases hsource₂ r hr with hr | hr
    · exact hsource r hr
    · rcases hblockrow.source r hr with hr | hr
      · exact .inl (mem_sealedRecords.mpr ⟨row, hrow, hr⟩)
      · exact .inr hr
  · cases hstep
    exact ⟨hread, hshape, hsource, hpolicy, hevicted, hrewrites⟩

/-- **Inserting the new records** appends them, in order. -/
theorem insertChunks_eq_ok {records : List CanonicalRecord}
    (hchannel : ∀ r ∈ records, r.channelKey = channelKey) (hdb : db.Readable codec)
    {next retained next' retained' : ℤ}
    (h : db.insertChunks codec store channelKey records next retained =
      .ok (db', next', retained')) :
    db'.Readable codec ∧ db'.sealedRecords codec = db.sealedRecords codec ++ records ∧
      db.SamePolicy db' ∧ db'.evicted = db.evicted := by
  have hdone := Except.foldlM_done
    (fun (done : List (List CanonicalRecord)) (s : Db β × ℤ × ℤ) => s.1.Readable codec ∧
      s.1.sealedRecords codec = db.sealedRecords codec ++ done.flatten ∧ db.SamePolicy s.1 ∧
      s.1.evicted = db.evicted) ?_ ⟨hdb, (List.append_nil _).symm, SamePolicy.refl db, rfl⟩ h
  · rw [flatten_chunks store.blockMessages_pos] at hdone
    exact hdone
  · rintro done ⟨db₁, next₁, retained₁⟩ s' piece hpiece ⟨hread, hsealed, hpolicy, hevicted⟩ hstep
    obtain ⟨encoded, hencode, hstep⟩ := Except.bind_eq_ok.mp hstep
    obtain ⟨db₂, hinsert, hstep⟩ := Except.bind_eq_ok.mp hstep
    cases hstep
    obtain ⟨hread₂, hsealed₂, hpolicy₂, hevicted₂⟩ := contents_insertBlock
      (Except.mapError_eq_ok.mp hencode) (fun r hr => hchannel r (mem_of_mem_chunks hpiece hr))
      hinsert hread
    refine ⟨hread₂, ?_, hpolicy.trans hpolicy₂, hevicted₂.trans hevicted⟩
    rw [hsealed₂, hsealed, List.append_assoc, List.flatten_append, List.flatten_singleton]

/-- **Per-channel retention** moves blocks of the channel to the evicted ones. -/
theorem evictOldest_contents (codec : Codec β) (store : SqliteBlockStore) (channelKey : String)
    (rounds : ℕ) (db : Db β) (retained : ℤ) :
    ∃ gone, (evictOldest codec store channelKey rounds db retained).1.evicted =
        db.evicted ++ gone ∧
      (∀ row ∈ gone, row ∈ db.messageBlocks.rows ∧ row.channelKey = channelKey) ∧
      (∀ row ∈ db.messageBlocks.rows, row ∈ gone ∨
        row ∈ (evictOldest codec store channelKey rounds db retained).1.messageBlocks.rows) ∧
      (evictOldest codec store channelKey rounds db retained).1.messageBlocks.rows.Sublist
        db.messageBlocks.rows ∧
      db.SamePolicy (evictOldest codec store channelKey rounds db retained).1 := by
  induction rounds generalizing db retained with
  | zero =>
    exact ⟨[], (List.append_nil _).symm, by rintro row ⟨⟩, fun row hrow => .inr hrow,
      List.Sublist.refl _, SamePolicy.refl db⟩
  | succ rounds ih =>
    -- a channel over its limit without a block cannot be brought below it
    rw [evictOldest]
    split
    · rcases e : db.blocksOf channelKey with - | ⟨oldest, rest⟩
      · exact ⟨[], (List.append_nil _).symm, by rintro row ⟨⟩, fun row hrow => .inr hrow,
          List.Sublist.refl _, SamePolicy.refl db⟩
      -- otherwise its oldest block goes, and the others are left to the induction
      · obtain ⟨holdest, hchannel⟩ :=
          mem_blocksOf.mp (show oldest ∈ db.blocksOf channelKey from e ▸ List.mem_cons_self)
        obtain ⟨gone, hgone, hmem, hrest, hsub, hpolicy⟩ :=
          ih { db.deleteBlock codec oldest.id with evicted := db.evicted ++ [oldest] }
            (retained - oldest.messageCount)
        have hdelete := policy_deleteBlock codec db oldest.id
        refine ⟨oldest :: gone, ?_, fun row hrow => ?_, fun row hrow => ?_,
          hsub.trans (rows_deleteBlock_sublist oldest.id), hdelete.1.trans ?_⟩
        · rw [hgone, List.append_assoc, List.singleton_append]
        · rcases List.mem_cons.mp hrow with rfl | hrow
          · exact ⟨holdest, hchannel⟩
          · exact ⟨(rows_deleteBlock_sublist oldest.id).subset (hmem row hrow).1,
              (hmem row hrow).2⟩
        -- a row that is not this block is still there for the next round
        · by_cases hid : row.id = oldest.id
          · exact .inl (List.mem_cons.mpr (.inl (db.messageBlocks.eq_of_key hrow holdest hid)))
          · exact (hrest row (mem_deleteBlock.mpr ⟨hrow, hid⟩)).imp_left (List.mem_cons_of_mem _)
        · exact ⟨hpolicy.blocked, hpolicy.cutoffs, hpolicy.journal⟩
    · exact ⟨[], (List.append_nil _).symm, by rintro row ⟨⟩, fun row hrow => .inr hrow,
        List.Sublist.refl _, SamePolicy.refl db⟩

/-! ### The append -/

/-- What an append of `records` did to the contents of a store; `gone` are the
blocks that retention evicted on the way. -/
structure Appended (codec : Codec β) (db db' : Db β) (records : List CanonicalRecord)
    (gone : List (MessageBlock β)) : Prop where
  readable : db'.Readable codec
  policy : db.SamePolicy db'
  evicted : db'.evicted = db.evicted ++ gone
  gone_readable : ∀ row ∈ gone, row.Readable codec
  /-- Nothing comes from elsewhere, or past the policy of its channel. -/
  source : ∀ r ∈ db'.sealedRecords codec, r ∈ db.sealedRecords codec ∨
    (r ∈ records ∧ db.blocked r.channelKey = false ∧
      ∀ cutoff, db.purgeCutoff r.channelKey = some cutoff → cutoff < r.receivedAtMs)
  gone_source : ∀ row ∈ gone, ∀ r ∈ row.records codec,
    r ∈ db.sealedRecords codec ∨ r ∈ records
  /-- No event is lost, except with an evicted block. -/
  kept : ∀ r, r ∈ db.sealedRecords codec ∨
      (r ∈ records ∧ db.blocked r.channelKey = false ∧
        ∀ cutoff, db.purgeCutoff r.channelKey = some cutoff → cutoff < r.receivedAtMs) →
    ∃ q, q.event = r.event ∧ (q ∈ db'.sealedRecords codec ∨ ∃ row ∈ gone, q ∈ row.records codec)
  /-- No event is sealed twice. -/
  nodup : (∀ r q, (r ∈ db.sealedRecords codec ∨ r ∈ records) →
      (q ∈ db.sealedRecords codec ∨ q ∈ records) → r.event = q.event →
        r.eventAtMs = q.eventAtMs) →
    ((db.sealedRecords codec).map event).Nodup → ((db'.sealedRecords codec).map event).Nodup

/-- Nothing to append. -/
theorem Appended.nothing (hdb : db.Readable codec) (records : List CanonicalRecord)
    (hpolicy : ∀ r ∈ records, db.blocked r.channelKey = false →
      ∃ cutoff, db.purgeCutoff r.channelKey = some cutoff ∧ r.receivedAtMs ≤ cutoff) :
    Appended codec db db records [] where
  readable := hdb
  policy := SamePolicy.refl db
  evicted := (List.append_nil _).symm
  gone_readable := by rintro row ⟨⟩
  source := fun r hr => .inl hr
  gone_source := by rintro row ⟨⟩
  kept := by
    rintro r (hr | ⟨hr, hblocked, hcutoff⟩)
    · exact ⟨r, rfl, .inl hr⟩
    · obtain ⟨cutoff, hc, hle⟩ := hpolicy r hr hblocked
      exact absurd (hcutoff cutoff hc) (not_lt.mpr hle)
  nodup := fun _ h => h

theorem mem_admitted {records : List CanonicalRecord} {r : CanonicalRecord} :
    r ∈ db.admitted channelKey records ↔ r ∈ records ∧
      ∀ cutoff, db.purgeCutoff channelKey = some cutoff → cutoff < r.receivedAtMs := by
  unfold admitted
  rcases db.purgeCutoff channelKey with - | cutoff
  · simp
  · simp

theorem mem_overlapping {first last : ℤ} {row : MessageBlock β}
    (h : row ∈ db.overlapping channelKey first last) :
    row ∈ db.messageBlocks.rows ∧ row.channelKey = channelKey :=
  mem_blocksOf.mp (List.mem_of_mem_filter h)

/-- A sealed copy of an event is in an overlapping block, if the copies agree on
the event's time. -/
theorem index_ne_none_of_sealed {rows : List (MessageBlock β)} {index : RetainedIndex}
    {records : List CanonicalRecord} {first last : ℤ}
    (hindex : ∀ k, index k ≠ none ↔ ∃ row ∈ rows, k ∈ (row.records codec).map eventKey)
    (hrows : rows = db.overlapping channelKey first last)
    (hmin : minEventAtMs records = some first) (hmax : maxEventAtMs records = some last)
    (hdb : db.Readable codec) {q r : CanonicalRecord} (hq : q ∈ db.sealedRecords codec)
    (hr : r ∈ records) (hchannel : r.channelKey = channelKey) (hevent : q.event = r.event)
    (htime : q.eventAtMs = r.eventAtMs) : index r.eventKey ≠ none := by
  obtain ⟨hqc, hqk⟩ := event_eq_iff.mp hevent
  obtain ⟨row, hrow, hqrow⟩ := mem_sealedRecords.mp hq
  have hread := hdb row hrow
  refine (hindex r.eventKey).mpr ⟨row, ?_, List.mem_map.mpr ⟨q, hqrow, hqk⟩⟩
  rw [hrows, overlapping, List.mem_filter, mem_blocksOf]
  refine ⟨⟨hrow, ?_⟩, decide_eq_true ⟨?_, ?_⟩⟩
  · rw [← hread.channel hqrow, hqc, hchannel]
  · calc first ≤ r.eventAtMs := minEventAtMs_le hmin hr
      _ = q.eventAtMs := htime.symm
      _ ≤ row.block.lastEventAtMs := hread.describes.le_last hqrow
  · calc row.block.firstEventAtMs ≤ q.eventAtMs := hread.describes.first_le hqrow
      _ = r.eventAtMs := htime
      _ ≤ last := le_maxEventAtMs hmax hr

/-- What an append of admitted records runs through: the load of the overlapping
blocks, the merge, the upgraded blocks `db₁` and, when there are new records, their
blocks `db₂` and the retention behind them. -/
theorem appendAdmitted_run {records : List CanonicalRecord} {first last : ℤ}
    (h : db.appendAdmitted codec store channelKey records first last = .ok db') :
    ∃ blocks index merged db₁,
      loadRetained codec (db.overlapping channelKey first last) = .ok (blocks, index) ∧
      merged = (sortByKey eventOrder records).foldl (absorb index) ⟨blocks, IndexedList.empty⟩ ∧
      db.rewriteDirty codec store merged.retained = .ok db₁ ∧
      ((merged.newRecords.items = [] ∧ db' = db₁) ∨
        ∃ row db₂ next retained, merged.newRecords.items ≠ [] ∧
          db₁.channels.lookup channelKey = some row ∧
          db₁.insertChunks codec store channelKey merged.newRecords.items row.nextBlockSequence
            row.retainedMessages = .ok (db₂, next, retained) ∧
          db' = (evictOldest codec store channelKey db₂.messageBlocks.rows.length db₂
              retained).1.retainMessages channelKey next
            (evictOldest codec store channelKey db₂.messageBlocks.rows.length db₂ retained).2) := by
  obtain ⟨⟨blocks, index⟩, hload, h⟩ := Except.bind_eq_ok.mp h
  obtain ⟨db₁, hrewrite, h⟩ := Except.bind_eq_ok.mp h
  dsimp only at hrewrite h
  refine ⟨blocks, index, _, db₁, hload, rfl, hrewrite, ?_⟩
  split at h
  · rename_i hempty
    exact .inl ⟨List.isEmpty_iff.mp hempty, (Except.ok.inj h).symm⟩
  · rename_i hnonempty
    split at h
    · cases h
    · rename_i row hrow
      obtain ⟨⟨db₂, next, retained₂⟩, hinsert, h⟩ := Except.bind_eq_ok.mp h
      exact .inr ⟨row, db₂, next, retained₂, fun hnil => hnonempty (List.isEmpty_iff.mpr hnil),
        hrow, hinsert, (Except.ok.inj h).symm⟩

theorem merged_of_load {records : List CanonicalRecord} {first last : ℤ}
    {blocks : List RetainedBlock} {index : RetainedIndex}
    (hchannel : ∀ r ∈ records, r.channelKey = channelKey) (hdb : db.Readable codec)
    (hload : loadRetained codec (db.overlapping channelKey first last) = .ok (blocks, index)) :
    Merged codec (db.overlapping channelKey first last) records index
      ((sortByKey eventOrder records).foldl (absorb index) ⟨blocks, IndexedList.empty⟩) := by
  obtain ⟨hblocks, -⟩ := loadRetained_eq_ok hload
  refine merged_foldl (fun row hrow => ?_)
    (fun r hr => ⟨mem_sortByKey.mp hr, hchannel r (mem_sortByKey.mp hr)⟩)
    ⟨fun block hblock => ?_, by rintro r ⟨⟩⟩
  · obtain ⟨hrow, hc⟩ := mem_overlapping hrow
    exact ⟨hdb row hrow, hc⟩
  · obtain ⟨row, hrow, hid, hcopy, -⟩ := hblocks block hblock
    exact ⟨row, hrow, hid, by rw [hcopy], fun r hr => .inl (hcopy ▸ hr)⟩

/-- **The stages of an append.** -/
theorem appendAdmitted_stages {records : List CanonicalRecord} {first last : ℤ}
    (hchannel : ∀ r ∈ records, r.channelKey = channelKey) (hdb : db.Readable codec)
    (h : db.appendAdmitted codec store channelKey records first last = .ok db') :
    ∃ index merged db₁,
      (∀ k, index k ≠ none ↔
        ∃ row ∈ db.overlapping channelKey first last, k ∈ (row.records codec).map eventKey) ∧
      Merged codec (db.overlapping channelKey first last) records index merged ∧
      (∀ r ∈ records, index r.eventKey = none →
        r.eventKey ∈ merged.newRecords.items.map eventKey) ∧
      db.rewriteDirty codec store merged.retained = .ok db₁ ∧
      ((merged.newRecords.items = [] ∧ db' = db₁) ∨
        ∃ row db₂ next retained, merged.newRecords.items ≠ [] ∧
          db₁.channels.lookup channelKey = some row ∧
          db₁.insertChunks codec store channelKey merged.newRecords.items row.nextBlockSequence
            row.retainedMessages = .ok (db₂, next, retained) ∧
          db' = (evictOldest codec store channelKey db₂.messageBlocks.rows.length db₂
              retained).1.retainMessages channelKey next
            (evictOldest codec store channelKey db₂.messageBlocks.rows.length db₂ retained).2) := by
  obtain ⟨blocks, index, merged, db₁, hload, rfl, hrewrite, hend⟩ := appendAdmitted_run h
  obtain ⟨-, hindex⟩ := loadRetained_eq_ok hload
  exact ⟨index, _, db₁, hindex, merged_of_load hchannel hdb hload,
    fun r hr hnone => mem_newRecords_foldl
      (.inr ⟨List.mem_map_of_mem (mem_sortByKey.mpr hr), hnone⟩), hrewrite, hend⟩

/-- Every event that is sealed or appended is sealed already, or among the new records. -/
theorem exists_sealed_or_new {records : List CanonicalRecord} {first last : ℤ}
    {index : RetainedIndex} {merged : MergeState}
    (hchannel : ∀ r ∈ records, r.channelKey = channelKey) (hdb : db.Readable codec)
    (hindex : ∀ k, index k ≠ none ↔
      ∃ row ∈ db.overlapping channelKey first last, k ∈ (row.records codec).map eventKey)
    (hmerged : Merged codec (db.overlapping channelKey first last) records index merged)
    (hnew : ∀ r ∈ records, index r.eventKey = none →
      r.eventKey ∈ merged.newRecords.items.map eventKey)
    {r : CanonicalRecord} (hr : r ∈ db.sealedRecords codec ∨ r ∈ records) :
    ∃ q ∈ db.sealedRecords codec ++ merged.newRecords.items, q.event = r.event := by
  rcases hr with hr | hr
  · exact ⟨r, List.mem_append_left _ hr, rfl⟩
  · by_cases hnone : index r.eventKey = none
    · obtain ⟨q, hq, hqk⟩ := List.mem_map.mp (hnew r hr hnone)
      refine ⟨q, List.mem_append_right _ hq, event_eq_iff.mpr ⟨?_, hqk⟩⟩
      rw [hchannel q (hmerged.fresh q hq).1, hchannel r hr]
    · -- a record that the index knows is sealed already
      obtain ⟨row, hrow, hk⟩ := (hindex r.eventKey).mp hnone
      obtain ⟨q, hq, hqk⟩ := List.mem_map.mp hk
      obtain ⟨hrow, hc⟩ := mem_overlapping hrow
      refine ⟨q, List.mem_append_left _ (mem_sealedRecords.mpr ⟨row, hrow, hq⟩),
        event_eq_iff.mpr ⟨?_, hqk⟩⟩
      rw [hchannel r hr, ← hc, (hdb row hrow).channel hq]

/-- No event is both sealed and new, if the copies of an event agree on its time. -/
theorem nodup_sealed_and_new {records : List CanonicalRecord} {first last : ℤ}
    {index : RetainedIndex} {merged : MergeState}
    (hchannel : ∀ r ∈ records, r.channelKey = channelKey) (hdb : db.Readable codec)
    (hmin : minEventAtMs records = some first) (hmax : maxEventAtMs records = some last)
    (hindex : ∀ k, index k ≠ none ↔
      ∃ row ∈ db.overlapping channelKey first last, k ∈ (row.records codec).map eventKey)
    (hmerged : Merged codec (db.overlapping channelKey first last) records index merged)
    (htimes : ∀ r q, (r ∈ db.sealedRecords codec ∨ r ∈ records) →
      (q ∈ db.sealedRecords codec ∨ q ∈ records) → r.event = q.event → r.eventAtMs = q.eventAtMs)
    (hnodup : ((db.sealedRecords codec).map event).Nodup) :
    ((db.sealedRecords codec ++ merged.newRecords.items).map event).Nodup := by
  rw [List.map_append, List.nodup_append]
  refine ⟨hnodup, ?_, ?_⟩
  · refine List.Nodup.of_map Prod.snd ?_
    rw [List.map_map]
    exact merged.newRecords.nodup_keys
  · rintro e he e' he' rfl
    obtain ⟨q, hq, hqe⟩ := List.mem_map.mp he
    obtain ⟨r, hr, hre⟩ := List.mem_map.mp he'
    obtain ⟨hrin, hnone⟩ := hmerged.fresh r hr
    have hevent := hqe.trans hre.symm
    exact index_ne_none_of_sealed hindex rfl hmin hmax hdb hq hrin (hchannel r hrin) hevent
      (htimes q r (.inl hq) (.inr hrin) hevent) hnone

/-- **Appending admitted records** of one channel. -/
theorem appendAdmitted_eq_ok {records : List CanonicalRecord} {first last : ℤ}
    (hchannel : ∀ r ∈ records, r.channelKey = channelKey) (hblocked : db.blocked channelKey = false)
    (hcutoff : ∀ r ∈ records, ∀ cutoff, db.purgeCutoff channelKey = some cutoff →
      cutoff < r.receivedAtMs)
    (hmin : minEventAtMs records = some first) (hmax : maxEventAtMs records = some last)
    (hdb : db.Readable codec)
    (h : db.appendAdmitted codec store channelKey records first last = .ok db') :
    ∃ gone, Appended codec db db' records gone := by
  obtain ⟨index, merged, db₁, hindex, hmerged, hnew, hrewrite, hend⟩ :=
    appendAdmitted_stages hchannel hdb h
  have hpass : ∀ r ∈ records, db.blocked r.channelKey = false ∧
      ∀ cutoff, db.purgeCutoff r.channelKey = some cutoff → cutoff < r.receivedAtMs :=
    fun r hr => by rw [hchannel r hr]; exact ⟨hblocked, hcutoff r hr⟩
  -- the upgraded blocks keep their events
  obtain ⟨hread₁, hshape₁, hsource₁, hpolicy₁, hevicted₁, -⟩ := rewriteDirty_eq_ok
    (fun block hblock =>
      let ⟨row, hrow, hup⟩ := hmerged.upgraded block hblock
      ⟨row, (mem_overlapping hrow).1, hup⟩) hdb hrewrite
  have hevents₁ : (db₁.sealedRecords codec ++ merged.newRecords.items).map event =
      (db.sealedRecords codec ++ merged.newRecords.items).map event := by
    rw [List.map_append, List.map_append, events_eq_shape, hshape₁, ← events_eq_shape]
  have hkept₁ : ∀ r, r ∈ db.sealedRecords codec ∨ r ∈ records →
      ∃ q ∈ db₁.sealedRecords codec ++ merged.newRecords.items, q.event = r.event := by
    intro r hr
    obtain ⟨q, hq, hqe⟩ := exists_sealed_or_new hchannel hdb hindex hmerged hnew hr
    refine List.mem_map.mp ?_
    rw [hevents₁, ← hqe]
    exact List.mem_map_of_mem hq
  have hnodup₁ := nodup_sealed_and_new hchannel hdb hmin hmax hindex hmerged
  rw [← hevents₁] at hnodup₁
  rcases hend with ⟨hempty, rfl⟩ | ⟨row₀, db₂, next, retained₂, -, -, hinsert, rfl⟩
  · rw [hempty, List.append_nil] at hkept₁ hnodup₁
    refine ⟨[], hread₁, hpolicy₁, by rw [hevicted₁, List.append_nil], by rintro row ⟨⟩,
      fun r hr => (hsource₁ r hr).imp_right fun hr => ⟨hr, hpass r hr⟩, by rintro row ⟨⟩, ?_,
      hnodup₁⟩
    intro r hr
    obtain ⟨q, hq, hqe⟩ := hkept₁ r (hr.imp_right And.left)
    exact ⟨q, hqe, .inl hq⟩
  · have hfresh : ∀ r ∈ merged.newRecords.items, r.channelKey = channelKey :=
      fun r hr => hchannel r (hmerged.fresh r hr).1
    obtain ⟨hread₂, hsealed₂, hpolicy₂, hevicted₂⟩ := insertChunks_eq_ok hfresh hread₁ hinsert
    rw [← hsealed₂] at hkept₁ hnodup₁
    obtain ⟨gone, hgone, hgonemem, hrest, hsub, hpolicy₃⟩ := evictOldest_contents codec store
      channelKey db₂.messageBlocks.rows.length db₂ retained₂
    have hsource₂ : ∀ r ∈ db₂.sealedRecords codec, r ∈ db.sealedRecords codec ∨ r ∈ records := by
      intro r hr
      rw [hsealed₂] at hr
      exact (List.mem_append.mp hr).elim (hsource₁ r) fun hr => .inr (hmerged.fresh r hr).1
    refine ⟨gone, fun row hrow => hread₂ row (hsub.subset hrow),
      (hpolicy₁.trans hpolicy₂).trans ⟨hpolicy₃.blocked, hpolicy₃.cutoffs, hpolicy₃.journal⟩,
      hgone.trans (by rw [hevicted₂, hevicted₁]), fun row hrow => hread₂ row (hgonemem row hrow).1,
      fun r hr => ?_, fun row hrow r hr => ?_, fun r hr => ?_, fun htimes hnodup =>
        (hnodup₁ htimes hnodup).sublist ((sealedRecords_sublist codec hsub).map event)⟩
    · refine (hsource₂ r ((sealedRecords_sublist codec hsub).subset hr)).imp_right ?_
      exact fun hr => ⟨hr, hpass r hr⟩
    · exact hsource₂ r (mem_sealedRecords.mpr ⟨row, (hgonemem row hrow).1, hr⟩)
    · -- every event is sealed after the insertion, so it stays or goes with its block
      obtain ⟨q, hq, hqe⟩ := hkept₁ r (hr.imp_right And.left)
      obtain ⟨row, hrow, hq⟩ := mem_sealedRecords.mp hq
      refine ⟨q, hqe, (hrest row hrow).symm.imp (fun hrow => ?_) fun hrow => ⟨row, hrow, hq⟩⟩
      exact mem_sealedRecords.mpr ⟨row, hrow, hq⟩

/-- Records that the policy rejects may be added to an append. -/
theorem Appended.of_admitted {records : List CanonicalRecord} {gone : List (MessageBlock β)}
    (hchannel : ∀ r ∈ records, r.channelKey = channelKey)
    (h : Appended codec db db' (db.admitted channelKey records) gone) :
    Appended codec db db' records gone where
  readable := h.readable
  policy := h.policy
  evicted := h.evicted
  gone_readable := h.gone_readable
  source := fun r hr => (h.source r hr).imp_right fun ⟨hr, hp⟩ => ⟨(mem_admitted.mp hr).1, hp⟩
  gone_source := fun row hrow r hr =>
    (h.gone_source row hrow r hr).imp_right fun hr => (mem_admitted.mp hr).1
  kept := by
    intro r hr
    refine h.kept r (hr.imp_right fun ⟨hr, hp⟩ => ⟨mem_admitted.mpr ⟨hr, fun cutoff hc => ?_⟩, hp⟩)
    exact hp.2 cutoff (by rw [hchannel r hr]; exact hc)
  nodup := fun htimes hnodup => h.nodup (fun r q hr hq => htimes r q
    (hr.imp_right fun hr => (mem_admitted.mp hr).1)
    (hq.imp_right fun hq => (mem_admitted.mp hq).1)) hnodup

/-- Two appends in a row. -/
theorem Appended.trans {db'' : Db β} {records records' : List CanonicalRecord}
    {gone gone' : List (MessageBlock β)} (h : Appended codec db db' records gone)
    (h' : Appended codec db' db'' records' gone') :
    Appended codec db db'' (records ++ records') (gone ++ gone') := by
  have hpolicy : ∀ r : CanonicalRecord, (db'.blocked r.channelKey = false ∧
      ∀ cutoff, db'.purgeCutoff r.channelKey = some cutoff → cutoff < r.receivedAtMs) ↔
        (db.blocked r.channelKey = false ∧
      ∀ cutoff, db.purgeCutoff r.channelKey = some cutoff → cutoff < r.receivedAtMs) := by
    intro r
    rw [blocked_congr h.policy, purgeCutoff_congr h.policy]
  have hfirst : ∀ r, r ∈ db'.sealedRecords codec →
      r ∈ db.sealedRecords codec ∨ r ∈ records ++ records' :=
    fun r hr => (h.source r hr).imp_right fun hr => List.mem_append_left _ hr.1
  refine ⟨h'.readable, h.policy.trans h'.policy, ?_, fun row hrow => ?_, fun r hr => ?_,
    fun row hrow r hr => ?_, fun r hr => ?_, fun htimes hnodup => ?_⟩
  · rw [h'.evicted, h.evicted, List.append_assoc]
  · exact (List.mem_append.mp hrow).elim (h.gone_readable row) (h'.gone_readable row)
  · rcases h'.source r hr with hr | ⟨hr, hp⟩
    · exact (h.source r hr).imp_right fun ⟨hr, hp⟩ => ⟨List.mem_append_left _ hr, hp⟩
    · exact .inr ⟨List.mem_append_right _ hr, (hpolicy r).mp hp⟩
  · rcases List.mem_append.mp hrow with hrow | hrow
    · exact (h.gone_source row hrow r hr).imp_right fun hr => List.mem_append_left _ hr
    · rcases h'.gone_source row hrow r hr with hr | hr
      · exact hfirst r hr
      · exact .inr (List.mem_append_right _ hr)
  · -- the copy that the first append keeps is kept by the second one
    have hnext : ∀ q, q ∈ db'.sealedRecords codec → q.event = r.event → ∃ q', q'.event = r.event ∧
        (q' ∈ db''.sealedRecords codec ∨ ∃ row ∈ gone ++ gone', q' ∈ row.records codec) := by
      intro q hq hqe
      obtain ⟨q', hqe', hq'⟩ := h'.kept q (.inl hq)
      exact ⟨q', hqe'.trans hqe, hq'.imp_right fun ⟨row, hrow, hr⟩ =>
        ⟨row, List.mem_append_right _ hrow, hr⟩⟩
    have hsecond : r ∈ db.sealedRecords codec ∨ (r ∈ records ∧ db.blocked r.channelKey = false ∧
        ∀ cutoff, db.purgeCutoff r.channelKey = some cutoff → cutoff < r.receivedAtMs) →
        ∃ q', q'.event = r.event ∧
          (q' ∈ db''.sealedRecords codec ∨ ∃ row ∈ gone ++ gone', q' ∈ row.records codec) := by
      intro hr
      obtain ⟨q, hqe, hq | ⟨row, hrow, hq⟩⟩ := h.kept r hr
      · exact hnext q hq hqe
      · exact ⟨q, hqe, .inr ⟨row, List.mem_append_left _ hrow, hq⟩⟩
    rcases hr with hr | ⟨hr, hp⟩
    · exact hsecond (.inl hr)
    · rcases List.mem_append.mp hr with hr | hr
      · exact hsecond (.inr ⟨hr, hp⟩)
      · obtain ⟨q, hqe, hq⟩ := h'.kept r (.inr ⟨hr, (hpolicy r).mpr hp⟩)
        exact ⟨q, hqe, hq.imp_right fun ⟨row, hrow, hr⟩ => ⟨row, List.mem_append_right _ hrow, hr⟩⟩
  · refine h'.nodup (fun r q hr hq => htimes r q ?_ ?_)
      (h.nodup (fun r q hr hq => htimes r q
        (hr.imp_right fun hr => List.mem_append_left _ hr)
        (hq.imp_right fun hq => List.mem_append_left _ hq)) hnodup)
    · exact hr.elim (hfirst r) fun hr => .inr (List.mem_append_right _ hr)
    · exact hq.elim (hfirst q) fun hq => .inr (List.mem_append_right _ hq)

/-- **What a batch comes to**: nothing, when the policy of its channel rejects all of
it, or an append of the records that the policy lets through. -/
theorem appendBatch_cases {records : List CanonicalRecord}
    (h : db.appendBatch codec store records = .ok db') :
    (db' = db ∧ ∀ r ∈ records, db.blocked r.channelKey = false →
        ∃ cutoff, db.purgeCutoff r.channelKey = some cutoff ∧ r.receivedAtMs ≤ cutoff) ∨
      ∃ c first last, (∀ r ∈ records, r.channelKey = c) ∧ db.blocked c = false ∧
        minEventAtMs (db.admitted c records) = some first ∧
        maxEventAtMs (db.admitted c records) = some last ∧
        (db.insertChannel c).appendAdmitted codec store c (db.admitted c records) first last =
          .ok db' := by
  cases records with
  | nil =>
    cases h
    exact .inl ⟨rfl, nofun⟩
  | cons first rest =>
    rw [appendBatch] at h
    split at h
    · cases h
    rename_i hsingle
    have hchannel : ∀ r ∈ first :: rest, r.channelKey = first.channelKey :=
      CanonicalRecord.mixed_eq_false.mp (Bool.not_eq_true _ ▸ hsingle)
    unfold appendTransaction at h
    split at h
    · rename_i hblocked
      cases h
      refine .inl ⟨rfl, fun r hr hnot => ?_⟩
      rw [hchannel r hr, hblocked] at hnot
      cases hnot
    rename_i hblocked
    dsimp only at h
    split at h
    · rename_i first' last hmin hmax
      exact .inr ⟨first.channelKey, first', last, hchannel, Bool.not_eq_true _ ▸ hblocked, hmin,
        hmax, h⟩
    · rename_i hnone
      cases h
      -- no admitted record has a first event time, so there is none
      have hempty : db.admitted first.channelKey (first :: rest) = [] := by
        rcases e : db.admitted first.channelKey (first :: rest) with - | ⟨q, qs⟩
        · rfl
        · rw [e] at hnone
          obtain ⟨first', hfirst⟩ := exists_minEventAtMs (List.cons_ne_nil q qs)
          obtain ⟨last, hlast⟩ := exists_maxEventAtMs (List.cons_ne_nil q qs)
          exact absurd hlast (hnone first' last hfirst)
      refine .inl ⟨rfl, fun r hr _ => ?_⟩
      by_contra hle
      have hmem : r ∈ db.admitted first.channelKey (first :: rest) :=
        mem_admitted.mpr ⟨hr, fun cutoff hc => by
          by_contra hlt
          exact hle ⟨cutoff, by rw [hchannel r hr]; exact hc, not_lt.mp hlt⟩⟩
      rw [hempty] at hmem
      cases hmem

/-- **One batch of `append_channel_batches`.** -/
theorem appendBatch_eq_ok {records : List CanonicalRecord} (hdb : db.Readable codec)
    (h : db.appendBatch codec store records = .ok db') :
    ∃ gone, Appended codec db db' records gone := by
  rcases appendBatch_cases h with
    ⟨rfl, hrejected⟩ | ⟨c, first, last, hchannel, hblocked, hmin, hmax, happend⟩
  · exact ⟨[], .nothing hdb records hrejected⟩
  · -- the new channel row changes no block
    have hblocked₀ : (db.insertChannel c).blocked c = false := hblocked
    obtain ⟨gone, happ⟩ := appendAdmitted_eq_ok
      (fun r hr => hchannel r (mem_admitted.mp hr).1) hblocked₀
      (fun r hr => (mem_admitted.mp hr).2) hmin hmax hdb happend
    have hsame : Appended codec db db' (db.admitted c records) gone :=
      ⟨happ.readable, ⟨happ.policy.blocked, happ.policy.cutoffs, happ.policy.journal⟩,
        happ.evicted, happ.gone_readable, happ.source, happ.gone_source, happ.kept, happ.nodup⟩
    exact ⟨gone, hsame.of_admitted hchannel⟩

/-- **`append_channel_batches`.**  A committed call has the effect of an append of
all its records. -/
theorem appendChannelBatches_eq_ok {batches : List (List CanonicalRecord)} (hdb : db.Readable codec)
    (h : db.appendChannelBatches codec store batches = .ok db') :
    ∃ gone, Appended codec db db' batches.flatten gone := by
  unfold appendChannelBatches at h
  induction batches generalizing db with
  | nil =>
    cases h
    exact ⟨[], .nothing hdb [] (by rintro r ⟨⟩)⟩
  | cons records batches ih =>
    rw [List.foldlM_cons, Except.bind_eq_ok] at h
    obtain ⟨db₁, hstep, h⟩ := h
    obtain ⟨gone, happ⟩ := appendBatch_eq_ok hdb hstep
    obtain ⟨gone', happ'⟩ := ih happ.readable h
    exact ⟨gone ++ gone', happ.trans happ'⟩

end Db

end RecentMessages
