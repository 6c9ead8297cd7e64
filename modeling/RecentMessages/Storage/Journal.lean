/-
RecentMessages/Storage/Journal.lean

The ingest journal of the sealed store (`storage/sqlite.rs`): the tables
`ingest_journal` and `source_offsets`, and the calls on them.

A source numbers its records and sends them in batches, each a range of sequence
numbers of one stream.  `acceptJournalBatch` stores a batch under its first
sequence number and moves the stream's `committed_through` over the rows that
continue it (`Watermark.follow`); `retireJournalThrough` deletes the rows that
end at or below a sequence number; `pendingJournalBatches` lists what is left.

* `Journal.Accepted` — everything a committed `acceptJournalBatch` did, and
  `acceptTransaction_eq_ok` that it did;
* `Journal.Settled` — the invariant of the tables: ranges are well formed, and no
  pending row continues an offset;
* `settled_accept`, `settled_retire` — both calls keep it.
-/
import RecentMessages.Library.KeyTable
import RecentMessages.Library.Watermark
import RecentMessages.Storage.Block
import Mathlib.Data.String.Basic

namespace RecentMessages

open Watermark

/-- A row of `ingest_journal`. -/
structure JournalRow (β : Type) where
  sourceId : String
  streamId : String
  firstSequence : ℤ
  lastSequence : ℤ
  checksum : Digest
  payload : β
  deriving DecidableEq, Repr

/-- `PRIMARY KEY(source_id, stream_id, first_sequence)`. -/
def JournalRow.key {β : Type} (row : JournalRow β) : String × String × ℤ :=
  (row.sourceId, row.streamId, row.firstSequence)

/-- A row of `source_offsets`. -/
structure SourceOffset where
  sourceId : String
  streamId : String
  committedThrough : ℤ
  updatedAtMs : ℤ
  deriving DecidableEq, Repr

/-- `PRIMARY KEY(source_id, stream_id)`. -/
def SourceOffset.key (row : SourceOffset) : String × String := (row.sourceId, row.streamId)

/-- `UPDATE source_offsets SET committed_through, updated_at_ms`. -/
def SourceOffset.commit (committed now : ℤ) (row : SourceOffset) : SourceOffset :=
  { row with committedThrough := committed, updatedAtMs := now }

theorem SourceOffset.key_commit (committed now : ℤ) (row : SourceOffset) :
    (row.commit committed now).key = row.key := rfl

/-- The two tables of the journal. -/
structure Journal (β : Type) where
  ingestJournal : KeyTable (JournalRow.key (β := β))
  sourceOffsets : KeyTable SourceOffset.key

/-- A pending batch, as recovery reads it. -/
structure JournalBatch (β : Type) where
  sourceId : String
  streamId : String
  firstSequence : ℕ
  lastSequence : ℕ
  checksum : Digest
  payload : β
  deriving DecidableEq, Repr

namespace Journal

variable {β : Type}

/-- The tables of a new store. -/
def empty : Journal β := ⟨KeyTable.empty, KeyTable.empty⟩

instance : Inhabited (Journal β) := ⟨empty⟩

/-! ### The calls -/

/-- `SELECT committed_through FROM source_offsets`. -/
def offset (j : Journal β) (sourceId streamId : String) : Option ℤ :=
  (j.sourceOffsets.lookup (sourceId, streamId)).map (·.committedThrough)

/-- The last sequence of the row that starts right after `committed`. -/
def next (rows : KeyTable (JournalRow.key (β := β))) (sourceId streamId : String)
    (committed : ℤ) : Option ℤ :=
  (rows.lookup (sourceId, streamId, satAdd committed 1)).map (·.lastSequence)

/-- The acknowledgement loop. -/
def acknowledgeLoop (rows : KeyTable (JournalRow.key (β := β))) (sourceId streamId : String) :
    ℕ → ℤ → Option (Except StoreError ℤ) :=
  follow (next rows sourceId streamId)
    (StoreError.backend "journal contains a non-advancing sequence range")

/-- The loop with enough fuel (`acknowledgeLoop_isSome`); the default is never
taken. -/
def acknowledge (rows : KeyTable (JournalRow.key (β := β))) (sourceId streamId : String)
    (committed : ℤ) : Except StoreError ℤ :=
  (acknowledgeLoop rows sourceId streamId (rows.rows.length + 1) committed).getD
    (.error .lockPoisoned)

/-- Find the row of a batch or insert it. -/
def journalRow (rows : KeyTable (JournalRow.key (β := β))) (row : JournalRow β) :
    Except StoreError (KeyTable (JournalRow.key (β := β))) :=
  match rows.lookup row.key with
  | some existing =>
    if existing.lastSequence ≠ row.lastSequence ∨ existing.checksum ≠ row.checksum then
      .error (.backend "conflicting replay for an existing journal sequence")
    else
      .ok rows
  | none => .ok (rows.insertIgnore row)

/-- The transaction of `accept_journal_batch`. -/
def acceptTransaction (j : Journal β) (sourceId streamId : String)
    (firstSequence lastSequence : ℕ) (checksum : Digest) (payload : β) (nowMs : ℕ) :
    Except StoreError (ℤ × Journal β) :=
  if firstSequence > lastSequence then
    .error (.backend "journal batch sequence range is invalid")
  else do
    let first ← tryFromU64 firstSequence
    let last ← tryFromU64 lastSequence
    let now ← tryFromU64 nowMs
    let initialOffset := (j.offset sourceId streamId).getD (satSub first 1)
    let sourceOffsets := j.sourceOffsets.insertIgnore ⟨sourceId, streamId, initialOffset, now⟩
    let ingestJournal ←
      journalRow j.ingestJournal ⟨sourceId, streamId, first, last, checksum, payload⟩
    let committed ← acknowledge ingestJournal sourceId streamId initialOffset
    let sourceOffsets := sourceOffsets.modify (sourceId, streamId)
      (SourceOffset.commit committed now) (SourceOffset.key_commit committed now)
    return (committed, ⟨ingestJournal, sourceOffsets⟩)

/-- `accept_journal_batch`.  A failed transaction is rolled back; the
conversion of the result comes after the commit. -/
def acceptJournalBatch (j : Journal β) (sourceId streamId : String)
    (firstSequence lastSequence : ℕ) (checksum : Digest) (payload : β) (nowMs : ℕ) :
    Except StoreError ℕ × Journal β :=
  match j.acceptTransaction sourceId streamId firstSequence lastSequence checksum payload nowMs with
  | .error e => (.error e, j)
  | .ok (committed, j') => (tryToU64 committed, j')

/-- `committed_through`. -/
def committedThrough (j : Journal β) (sourceId streamId : String) :
    Except StoreError (Option ℕ) :=
  match j.offset sourceId streamId with
  | none => .ok none
  | some value => do return some (← tryToU64 value)

/-- The rows that `retire_journal_through` deletes. -/
def retires (sourceId streamId : String) (processed : ℤ) (row : JournalRow β) : Bool :=
  row.sourceId = sourceId && row.streamId = streamId && row.lastSequence ≤ processed

/-- `retire_journal_through`; the result is the number of deleted rows. -/
def retireJournalThrough (j : Journal β) (sourceId streamId : String) (processedThrough : ℕ) :
    Except StoreError ℕ × Journal β :=
  match tryFromU64 processedThrough with
  | .error e => (.error e, j)
  | .ok processed =>
    (.ok (j.ingestJournal.rows.countP (retires sourceId streamId processed)),
      { j with ingestJournal := j.ingestJournal.deleteWhere (retires sourceId streamId processed) })

/-- A row as recovery reads it. -/
def toBatch (row : JournalRow β) : Except StoreError (JournalBatch β) := do
  let firstSequence ← tryToU64 row.firstSequence
  let lastSequence ← tryToU64 row.lastSequence
  return ⟨row.sourceId, row.streamId, firstSequence, lastSequence, row.checksum, row.payload⟩

/-- `ORDER BY source_id, stream_id, first_sequence`. -/
def pendingOrder (row : JournalRow β) : String ×ₗ String ×ₗ ℤ :=
  toLex (row.sourceId, toLex (row.streamId, row.firstSequence))

/-- `pending_journal_batches`. -/
def pendingJournalBatches (j : Journal β) : Except StoreError (List (JournalBatch β)) :=
  (sortByKey pendingOrder j.ingestJournal.rows).mapM toBatch

/-! ### The acknowledgement loop -/

variable {rows : KeyTable (JournalRow.key (β := β))} {sourceId streamId : String}

theorem next_eq_some {w v : ℤ} :
    next rows sourceId streamId w = some v ↔
      ∃ row ∈ rows.rows, row.key = (sourceId, streamId, satAdd w 1) ∧ row.lastSequence = v := by
  simp only [next, Option.map_eq_some_iff, KeyTable.lookup_eq_some, and_assoc]

theorem next_eq_none {w : ℤ} :
    next rows sourceId streamId w = none ↔
      ∀ row ∈ rows.rows, row.key ≠ (sourceId, streamId, satAdd w 1) := by
  simp only [next, Option.map_eq_none_iff, KeyTable.lookup_eq_none]

/-- **The acknowledgement loop terminates**, whatever the table holds. -/
theorem acknowledgeLoop_isSome (rows : KeyTable (JournalRow.key (β := β)))
    (sourceId streamId : String) (w : ℤ) :
    (acknowledgeLoop rows sourceId streamId (rows.rows.length + 1) w).isSome := by
  have hends : ∀ a b, next rows sourceId streamId a = some b →
      b ∈ rows.rows.map JournalRow.lastSequence := by
    intro a b h
    obtain ⟨row, hrow, -, rfl⟩ := next_eq_some.mp h
    exact List.mem_map_of_mem hrow
  have hsome := follow_isSome_length (e := StoreError.backend
    "journal contains a non-advancing sequence range") hends w
  rwa [List.length_map] at hsome

theorem acknowledge_eq_ok {w v : ℤ} (h : acknowledge rows sourceId streamId w = .ok v) :
    Reaches (next rows sourceId streamId) w v ∧ next rows sourceId streamId v = none := by
  unfold acknowledge at h
  obtain ⟨r, hr⟩ := Option.isSome_iff_exists.mp (acknowledgeLoop_isSome rows sourceId streamId w)
  rw [hr, Option.getD_some] at h
  subst h
  exact follow_ok hr

/-! ### What a committed acceptance did -/

/-- Everything a committed `accept_journal_batch` did to the tables. -/
structure Accepted (j j' : Journal β) (sourceId streamId : String) (first last : ℕ)
    (checksum : Digest) (payload : β) (now : ℕ) (initial committed : ℤ) : Prop where
  first_le : first ≤ last
  last_le : (last : ℤ) ≤ i64Max
  initial_eq : initial = (j.offset sourceId streamId).getD (satSub first 1)
  kept : ∀ row ∈ j.ingestJournal.rows, row ∈ j'.ingestJournal.rows
  added : ∀ row ∈ j'.ingestJournal.rows,
    row ∈ j.ingestJournal.rows ∨ row = ⟨sourceId, streamId, first, last, checksum, payload⟩
  held : ∃ row ∈ j'.ingestJournal.rows, row.key = (sourceId, streamId, (first : ℤ)) ∧
    row.lastSequence = last ∧ row.checksum = checksum
  same : j.ingestJournal.lookup (sourceId, streamId, (first : ℤ)) ≠ none →
    j'.ingestJournal = j.ingestJournal
  reaches : Reaches (next j'.ingestJournal sourceId streamId) initial committed
  stuck : next j'.ingestJournal sourceId streamId committed = none
  offset_self : j'.offset sourceId streamId = some committed
  offset_ne : ∀ s t, (s, t) ≠ (sourceId, streamId) → j'.offset s t = j.offset s t

theorem journalRow_eq_ok {rows rows' : KeyTable (JournalRow.key (β := β))} {row : JournalRow β}
    (h : journalRow rows row = .ok rows') :
    (∀ r ∈ rows.rows, r ∈ rows'.rows) ∧ (∀ r ∈ rows'.rows, r ∈ rows.rows ∨ r = row) ∧
      (∃ r ∈ rows'.rows, r.key = row.key ∧ r.lastSequence = row.lastSequence ∧
        r.checksum = row.checksum) ∧
      (rows.lookup row.key ≠ none → rows' = rows) := by
  unfold journalRow at h
  rcases e : rows.lookup row.key with - | existing <;> rw [e] at h
  · obtain rfl := Except.ok.inj h
    refine ⟨fun r hr => KeyTable.mem_insertIgnore.mpr (.inl hr), fun r hr => ?_,
      ⟨row, KeyTable.mem_insertIgnore.mpr (.inr ⟨rfl, e⟩), rfl, rfl, rfl⟩, fun hne => absurd rfl hne⟩
    exact (KeyTable.mem_insertIgnore.mp hr).imp id And.left
  · dsimp only at h
    split at h
    · cases h
    · rename_i hsame
      obtain rfl := Except.ok.inj h
      rw [not_or, not_not, not_not] at hsame
      exact ⟨fun r hr => hr, fun r hr => .inl hr,
        ⟨existing, KeyTable.mem_of_lookup e, KeyTable.key_of_lookup e, hsame.1, hsame.2⟩,
        fun _ => rfl⟩

variable {j j' : Journal β} {first last now : ℕ} {checksum : Digest} {payload : β} {committed : ℤ}

/-- **What `accept_journal_batch` commits.** -/
theorem acceptTransaction_eq_ok
    (h : j.acceptTransaction sourceId streamId first last checksum payload now =
      .ok (committed, j')) :
    ∃ initial, Accepted j j' sourceId streamId first last checksum payload now initial committed := by
  unfold acceptTransaction at h
  split at h
  · cases h
  rename_i hrange
  obtain ⟨first', hfirst, h⟩ := Except.bind_eq_ok.mp h
  obtain ⟨last', hlast, h⟩ := Except.bind_eq_ok.mp h
  obtain ⟨now', -, h⟩ := Except.bind_eq_ok.mp h
  obtain ⟨rfl, -⟩ := tryFromU64_eq_ok.mp hfirst
  obtain ⟨rfl, hmax⟩ := tryFromU64_eq_ok.mp hlast
  obtain ⟨rows, hrow, h⟩ := Except.bind_eq_ok.mp h
  obtain ⟨committed', hack, h⟩ := Except.bind_eq_ok.mp h
  cases h
  obtain ⟨hkept, hadded, hheld, hsame⟩ := journalRow_eq_ok hrow
  obtain ⟨hreach, hstuck⟩ := acknowledge_eq_ok hack
  refine ⟨_, not_lt.mp hrange, hmax, rfl, hkept, hadded, hheld, hsame, hreach, hstuck, ?_, ?_⟩
  · have hkey : SourceOffset.key ⟨sourceId, streamId,
        (j.offset sourceId streamId).getD (satSub first 1), now'⟩ = (sourceId, streamId) := rfl
    rw [offset, KeyTable.lookup_modify_self, KeyTable.lookup_insertIgnore_self _ hkey]
    rfl
  · intro s t hst
    rw [offset, offset, KeyTable.lookup_modify_ne _ hst,
      KeyTable.lookup_insertIgnore_ne _ (show SourceOffset.key _ ≠ _ from Ne.symm hst)]
    rfl

/-- Either a call is rolled back, or it commits and returns the offset. -/
theorem acceptJournalBatch_cases (j : Journal β) (sourceId streamId : String) (first last : ℕ)
    (checksum : Digest) (payload : β) (now : ℕ) :
    (∃ e, j.acceptJournalBatch sourceId streamId first last checksum payload now = (.error e, j)) ∨
      ∃ j' initial committed,
        Accepted j j' sourceId streamId first last checksum payload now initial committed ∧
        j.acceptJournalBatch sourceId streamId first last checksum payload now =
          (tryToU64 committed, j') := by
  unfold acceptJournalBatch
  rcases e : j.acceptTransaction sourceId streamId first last checksum payload now with
    error | ⟨committed, j'⟩
  · exact .inl ⟨error, rfl⟩
  · obtain ⟨initial, hacc⟩ := acceptTransaction_eq_ok e
    exact .inr ⟨j', initial, committed, hacc, rfl⟩

/-- Either a retirement fails, or it deletes exactly the rows it names. -/
theorem retireJournalThrough_cases (j : Journal β) (sourceId streamId : String) (through : ℕ) :
    (∃ e, j.retireJournalThrough sourceId streamId through = (.error e, j)) ∨
      ∃ n j', j.retireJournalThrough sourceId streamId through = (.ok n, j') ∧
        j'.sourceOffsets = j.sourceOffsets ∧
        ∀ row, row ∈ j'.ingestJournal.rows ↔
          row ∈ j.ingestJournal.rows ∧ retires sourceId streamId through row = false := by
  unfold retireJournalThrough
  rcases e : tryFromU64 through with error | processed
  · exact .inl ⟨error, rfl⟩
  · obtain ⟨rfl, -⟩ := tryFromU64_eq_ok.mp e
    exact .inr ⟨_, _, rfl, rfl, fun row => KeyTable.mem_deleteWhere⟩

/-- Recovery reads every pending row. -/
theorem exists_pending {pending : List (JournalBatch β)} (h : j.pendingJournalBatches = .ok pending)
    {row : JournalRow β} (hrow : row ∈ j.ingestJournal.rows) :
    ∃ batch ∈ pending, batch.sourceId = row.sourceId ∧ batch.streamId = row.streamId ∧
      (batch.lastSequence : ℤ) = row.lastSequence ∧ batch.payload = row.payload := by
  obtain ⟨batch, hbatch, heq⟩ := (Except.mapM_eq_ok h).1 row (mem_sortByKey.mpr hrow)
  obtain ⟨first, -, heq⟩ := Except.bind_eq_ok.mp heq
  obtain ⟨last, hlast, heq⟩ := Except.bind_eq_ok.mp heq
  cases heq
  unfold tryToU64 at hlast
  split at hlast
  · rename_i hnonneg
    cases hlast
    exact ⟨_, hbatch, rfl, rfl, Int.toNat_of_nonneg hnonneg, rfl⟩
  · cases hlast

/-- Recovery reads nothing but pending rows. -/
theorem payload_of_pending {pending : List (JournalBatch β)}
    (h : j.pendingJournalBatches = .ok pending) {batch : JournalBatch β} (hbatch : batch ∈ pending) :
    ∃ row ∈ j.ingestJournal.rows, batch.payload = row.payload := by
  obtain ⟨row, hrow, heq⟩ := (Except.mapM_eq_ok h).2 batch hbatch
  obtain ⟨first, -, heq⟩ := Except.bind_eq_ok.mp heq
  obtain ⟨last, -, heq⟩ := Except.bind_eq_ok.mp heq
  cases heq
  exact ⟨row, mem_sortByKey.mp hrow, rfl⟩

/-! ### The invariant of the tables -/

/-- The tables between two calls. -/
structure Settled (j : Journal β) : Prop where
  range : ∀ row ∈ j.ingestJournal.rows,
    0 ≤ row.firstSequence ∧ row.firstSequence ≤ row.lastSequence ∧ row.lastSequence ≤ i64Max
  bounds : ∀ s t c, j.offset s t = some c → 0 ≤ c ∧ c ≤ i64Max
  stuck : ∀ s t c, j.offset s t = some c → next j.ingestJournal s t c = none

theorem settled_empty : (empty : Journal β).Settled where
  range := by rintro row ⟨⟩
  bounds := by rintro s t c ⟨⟩
  stuck := by rintro s t c ⟨⟩

/-- Fewer rows leave an offset where it is. -/
theorem next_eq_none_of_subset {rows' : KeyTable (JournalRow.key (β := β))} {w : ℤ}
    (hsub : ∀ row ∈ rows'.rows, row.key = (sourceId, streamId, satAdd w 1) → row ∈ rows.rows)
    (h : next rows sourceId streamId w = none) : next rows' sourceId streamId w = none := by
  rw [next_eq_none] at h ⊢
  exact fun row hrow hkey => h row (hsub row hrow hkey) hkey

namespace Accepted

variable {initial : ℤ}

/-- The range of every row of the new table is well formed. -/
theorem range (h : Accepted j j' sourceId streamId first last checksum payload now initial committed)
    (hj : j.Settled) : ∀ row ∈ j'.ingestJournal.rows,
      0 ≤ row.firstSequence ∧ row.firstSequence ≤ row.lastSequence ∧ row.lastSequence ≤ i64Max := by
  intro row hrow
  rcases h.added row hrow with hold | rfl
  · exact hj.range row hold
  · exact ⟨Int.natCast_nonneg _, Int.ofNat_le.mpr h.first_le, h.last_le⟩

/-- The watermark stands where it stood before, or at the end of a row: a fresh
stream starts right before its first row, which moves it. -/
theorem committed_cases
    (h : Accepted j j' sourceId streamId first last checksum payload now initial committed) :
    j.offset sourceId streamId = some committed ∨ ∃ row ∈ j'.ingestJournal.rows,
      row.sourceId = sourceId ∧ row.streamId = streamId ∧ row.lastSequence = committed := by
  rcases h.reaches.eq_or_end with heq | ⟨a, ha⟩
  · left
    rcases e : j.offset sourceId streamId with - | c
    · have hfirst := h.first_le
      have hlast := h.last_le
      have hinit : initial = (first : ℤ) - 1 := by
        rw [h.initial_eq, e, Option.getD_none, satSub_eq] <;>
          simp only [i64Min, i64Max] at hlast ⊢ <;> omega
      obtain ⟨row, hrow, hkey, -, -⟩ := h.held
      have hsat : satAdd committed 1 = first := by
        rw [heq, hinit, satAdd_eq] <;> simp only [i64Min, i64Max] at hlast ⊢ <;> omega
      exact absurd (hsat ▸ hkey) (next_eq_none.mp h.stuck row hrow)
    · rw [heq, h.initial_eq, e, Option.getD_some]
  · obtain ⟨row, hrow, hkey, hend⟩ := next_eq_some.mp ha
    simp only [JournalRow.key, Prod.mk.injEq] at hkey
    exact .inr ⟨row, hrow, hkey.1, hkey.2.1, hend⟩

/-- The offset is the last sequence of some row, or the old offset. -/
theorem committed_bounds
    (h : Accepted j j' sourceId streamId first last checksum payload now initial committed)
    (hj : j.Settled) : 0 ≤ committed ∧ committed ≤ i64Max := by
  rcases h.committed_cases with hold | ⟨row, hrow, -, -, rfl⟩
  · exact hj.bounds sourceId streamId committed hold
  · obtain ⟨h₁, h₂, h₃⟩ := h.range hj row hrow
    exact ⟨h₁.trans h₂, h₃⟩

/-- A stream's offset never decreases. -/
theorem offset_le
    (h : Accepted j j' sourceId streamId first last checksum payload now initial committed)
    {s t : String} {c : ℤ} (hc : j.offset s t = some c) : ∃ c', j'.offset s t = some c' ∧ c ≤ c' := by
  by_cases hst : (s, t) = (sourceId, streamId)
  · obtain ⟨rfl, rfl⟩ := Prod.mk.inj hst
    refine ⟨committed, h.offset_self, ?_⟩
    have hle := h.reaches.le
    rwa [h.initial_eq, hc, Option.getD_some] at hle
  · exact ⟨c, (h.offset_ne s t hst).trans hc, le_rfl⟩

end Accepted

/-- **An acceptance keeps the invariant.** -/
theorem settled_accept {initial : ℤ}
    (h : Accepted j j' sourceId streamId first last checksum payload now initial committed)
    (hj : j.Settled) : j'.Settled where
  range := h.range hj
  bounds := by
    intro s t c hc
    by_cases hst : (s, t) = (sourceId, streamId)
    · obtain ⟨rfl, rfl⟩ := Prod.mk.inj hst
      obtain rfl := Option.some.inj (h.offset_self.symm.trans hc)
      exact h.committed_bounds hj
    · exact hj.bounds s t c ((h.offset_ne s t hst).symm.trans hc)
  stuck := by
    intro s t c hc
    by_cases hst : (s, t) = (sourceId, streamId)
    · obtain ⟨rfl, rfl⟩ := Prod.mk.inj hst
      obtain rfl := Option.some.inj (h.offset_self.symm.trans hc)
      exact h.stuck
    · -- the new row belongs to another stream
      refine next_eq_none_of_subset (fun row hrow hkey => ?_)
        (hj.stuck s t c ((h.offset_ne s t hst).symm.trans hc))
      rcases h.added row hrow with hold | rfl
      · exact hold
      · simp only [JournalRow.key, Prod.mk.injEq] at hkey
        exact absurd (Prod.ext hkey.1.symm hkey.2.1.symm) hst

/-- **A retirement keeps the invariant.** -/
theorem settled_retire (hoffsets : j'.sourceOffsets = j.sourceOffsets)
    (hsub : ∀ row ∈ j'.ingestJournal.rows, row ∈ j.ingestJournal.rows) (hj : j.Settled) :
    j'.Settled := by
  have hoff : ∀ s t, j'.offset s t = j.offset s t := fun s t => by rw [offset, offset, hoffsets]
  refine ⟨fun row hrow => hj.range row (hsub row hrow), fun s t c hc => ?_, fun s t c hc => ?_⟩
  · exact hj.bounds s t c ((hoff s t).symm.trans hc)
  · exact next_eq_none_of_subset (fun row hrow _ => hsub row hrow)
      (hj.stuck s t c ((hoff s t).symm.trans hc))

end Journal

end RecentMessages
