/-
RecentMessages/Storage/Durability.lean

No acknowledged record is lost, and none is stored twice.

Ingest is a system with a write-ahead log (`Ingest.wal`): the journal rows are the
log, the sealed events are stable, and the events in the open blocks, in flight
and still to be appended are in memory.  `wal_step` maps every step of ingest to a
step of such a system, up to a set of events that are given up; so a journaled
batch is durable from then on.  `Logged` is the invariant this needs.

Blocks that per-channel retention evicts are the one way to lose a record here,
so the result is about runs that evict nothing, and gives up no event.  `Lossless`
adds to `Logged` that no event is sealed twice.
-/
import RecentMessages.Library.WriteAheadLog
import RecentMessages.Storage.Conservation

namespace RecentMessages

open CanonicalRecord

variable {β : Type}

/-- The records of a journal row. -/
def JournalRow.records (codec : Codec β) (row : JournalRow β) : List CanonicalRecord :=
  payloadRecords codec row.payload

/-- The primary key of the row of a batch. -/
def RawSourceBatch.key (batch : RawSourceBatch) : String × String × ℤ :=
  (batch.sourceId, batch.streamId, batch.firstSequence)

/-- Copies of an event in several batches agree on its time. -/
def SameEventTimes (batches : List RawSourceBatch) : Prop :=
  ∀ b ∈ batches, ∀ b' ∈ batches, ∀ r ∈ b.records, ∀ q ∈ b'.records,
    r.eventKey = q.eventKey → r.eventAtMs = q.eventAtMs

/-- BLAKE3 tells the journal payloads of several batches apart. -/
def NoCollision (codec : Codec β) (batches : List RawSourceBatch) : Prop :=
  ∀ b ∈ batches, ∀ b' ∈ batches, ∀ p p', encodeJournal codec b.records = .ok p →
    encodeJournal codec b'.records = .ok p' → codec.blake3 p = codec.blake3 p' → p = p'

/-- The batches that the `accept` actions of a run bring. -/
def acceptedBatches (actions : List IngestAction) : List RawSourceBatch :=
  actions.filterMap fun
    | .accept batch _ => some batch
    | _ => none

namespace Ingest

/-! ### Ingest as a write-ahead log -/

/-- The events of a journal row. -/
def rowEvents (codec : Codec β) (row : JournalRow β) : Set (String × EventKey) :=
  {e | ∃ r ∈ row.records codec, r.event = e}

/-- Ingest, as a system with a write-ahead log.  The events in `lost` count as
stable: nobody has to keep them. -/
def wal (codec : Codec β) (lost : Set (String × EventKey)) (s : Ingest β) :
    Wal (JournalRow β) (String × EventKey) where
  up := s.task.running = true
  log := {row | row ∈ s.db.journal.ingestJournal.rows}
  stable := {e | e ∈ lost ∨ HasEvent (s.db.sealedRecords codec) e}
  memory := {e | HasEvent (s.held codec) e ∨ HasEvent (s.task.todo codec) e}

variable {cfg : Settings β} {codec : Codec β} {lost : Set (String × EventKey)}
variable {s s' : Ingest β} {a : IngestAction}

theorem mem_reach {e : String × EventKey} : e ∈ (s.wal codec lost).reach ↔
    e ∈ lost ∨ HasEvent (s.held codec) e ∨ HasEvent (s.task.todo codec) e := by
  constructor
  · rintro ((he | he) | he)
    · exact .inl he
    · exact .inr (.inl (hasEvent_held.mpr (.inl he)))
    · exact .inr he
  · rintro (he | he)
    · exact .inl (.inl he)
    · exact .inr he

/-- What is stable stays so, up to the events that are given up. -/
theorem stable_subset (hloses : ∀ e, Loses codec s s' e → e ∈ lost) :
    (s.wal codec lost).stable ⊆ (s'.wal codec lost).stable := by
  rintro e (he | he)
  · exact .inl he
  · by_contra hnot
    exact hnot (.inl (hloses e (.inl ⟨he, fun hmem => hnot (.inr hmem)⟩)))

/-- **A running process keeps every event within reach**, up to those that are
given up. -/
theorem reach_subset (hup : s'.task.running = true) (hloses : ∀ e, Loses codec s s' e → e ∈ lost)
    (htodo : ∀ r ∈ s.task.todo codec, r ∈ s'.task.todo codec ∨
      ∃ q, q.event = r.event ∧ (q ∈ s'.openBlocks.records ∨ q ∈ s'.task.inFlight)) :
    (s.wal codec lost).reach ⊆ (s'.wal codec lost).reach := by
  intro e he
  rw [mem_reach] at he ⊢
  rcases he with he | he | ⟨r, hr, rfl⟩
  · exact .inl he
  · by_cases hl : Loses codec s s' e
    · exact .inl (hloses e hl)
    · exact .inr (.inl (held_kept hup hl he))
  · rcases htodo r hr with hr | ⟨q, hq, hmem⟩
    · exact .inr (.inr ⟨r, hr, rfl⟩)
    · exact .inr (.inl ⟨q, mem_held.mpr (.inr hmem.symm), hq⟩)

/-- No channel is blocked or purged. -/
structure NoPolicy (db : Db β) : Prop where
  blocked : ∀ c, db.blocked c = false
  cutoff : ∀ c, db.purgeCutoff c = none

theorem NoPolicy.passes {db : Db β} (h : NoPolicy db) (r : CanonicalRecord) : db.Passes r :=
  ⟨h.blocked _, fun cutoff hc => by rw [h.cutoff] at hc; cases hc⟩

/-- **A step of ingest is a step of a write-ahead log**, up to the events that are
given up. -/
theorem wal_step (h : Flow codec s a s')
    (hquiet : s.task.quiet = true → ∀ r, r ∉ s.openBlocks.records)
    (hloses : ∀ e, Loses codec s s' e → e ∈ lost)
    (hheld : ∀ batch payload nowMs initial committed, a = .accept batch nowMs →
      encodeJournal codec batch.records = .ok payload →
      Journal.Accepted s.db.journal s'.db.journal batch.sourceId batch.streamId
        batch.firstSequence batch.lastSequence (codec.blake3 payload) payload nowMs initial
        committed →
      ∀ row ∈ s'.db.journal.ingestJournal.rows, row.key = batch.key →
        row.records codec = batch.records) :
    Wal.Step (rowEvents codec) (s.wal codec lost) (s'.wal codec lost) := by
  have hstable := stable_subset hloses
  have hreach := fun hup => reach_subset hup hloses fun r hr => h.todo_kept hup hr
  cases h with
  | crash hdb hopen htask hreturned =>
    refine .crash ?_ hstable ?_
    · rw [wal, wal, hdb]
    · rw [wal, htask]
      exact Bool.false_ne_true
  | accept batch payload nowMs initial committed haction hidle hencode haccepted hdb hopen htask
      hledger hreturned =>
    obtain ⟨row, hrow, hkey, -, -⟩ := haccepted.held
    refine .append row (by rw [wal, hidle]; rfl) (fun q hq => ?_) (fun q hq => haccepted.kept q hq)
      hstable (hreach (by rw [htask]; rfl)) fun e he => ?_
    · rcases haccepted.added q hq with hold | rfl
      · exact .inr hold
      · exact .inl (s'.db.journal.ingestJournal.eq_of_key hq hrow hkey.symm)
    · -- the records of the batch are to be appended next
      obtain ⟨r, hr, he⟩ := he
      rw [hheld batch payload nowMs _ _ haction hencode haccepted row hrow hkey] at hr
      exact mem_reach.mpr (.inr (.inr ⟨r, by rw [htask]; exact hr, he⟩))
  | append record sealed htodo happended hflight hdb hquiet' hup haccepting hledger hreturned =>
    exact .work (Task.running_iff.mpr hup.1) (by rw [wal, wal, hdb]) hstable
      (hreach (Task.running_iff.mpr hup.2))
  | take hidle hrecords htodo hquiet' hdb hup haccepting hledger hreturned =>
    exact .work (by rw [wal, hidle]; rfl) (by rw [wal, wal, hdb]) hstable
      (hreach (Task.running_iff.mpr hup))
  | commit batches gone happended hflight htodo hopen hquiet' hup haccepting hledger hreturned =>
    exact .work (Task.running_iff.mpr hup.1) (by rw [wal, wal, happended.policy.journal]) hstable
      (hreach (Task.running_iff.mpr hup.2))
  | turn hdb hopen hflight htodo hquiet' hup haccepting hledger hreturned =>
    exact .work (Task.running_iff.mpr hup.1) (by rw [wal, wal, hdb]) hstable
      (hreach (Task.running_iff.mpr hup.2))
  | retire x retirements haction htask htask' hdb hopen hoffsets hrows hreturned =>
    have hsealed : s'.db.sealedRecords codec = s.db.sealedRecords codec := by rw [hdb]; rfl
    refine .trim (by rw [wal, htask]; rfl) (fun q hq => ((hrows q).mp hq).1) fun e he => ?_
    -- a checkpoint that retires has nothing left in memory
    rcases mem_reach.mp he with he | ⟨r, hr, he⟩ | ⟨r, hr, he⟩
    · exact .inl he
    · rcases mem_held.mp hr with hr | hr | hr
      · refine .inr ⟨r, ?_, he⟩
        rw [hsealed]
        exact hr
      · rw [htask] at hr
        cases hr
      · exact absurd hr (hquiet (by rw [htask]; rfl) r)
    · rw [htask] at hr
      cases hr
  | restart pending nowMs htask hpending htask' hdb hopen hreturned =>
    refine .recover (by rw [wal, wal, hdb]) hstable fun row hrow e he => ?_
    have hrow' : row ∈ s.db.journal.ingestJournal.rows := hdb ▸ hrow
    obtain ⟨batch, hbatch, -, -, -, hpayload⟩ := Journal.exists_pending hpending hrow'
    obtain ⟨r, hr, he⟩ := he
    refine mem_reach.mpr (.inr (.inr ⟨r, ?_, he⟩))
    rw [htask']
    exact List.mem_flatMap.mpr ⟨batch, hbatch, by rw [hpayload]; exact hr⟩

/-! ### The invariant -/

/-- An entry of the ledger that goes as far as a journal row. -/
def Covers (x : MaterializedThrough) (row : JournalRow β) : Prop :=
  x.key = (row.sourceId, row.streamId) ∧ row.lastSequence ≤ x.through

/-- The ledger keeps up with the journal. -/
theorem Flow.tracked (h : Flow codec s a s') (htracked : s.task.running = true →
      ∀ row ∈ s.db.journal.ingestJournal.rows, ∃ x ∈ s.ledger, Covers x row) :
    s'.task.running = true →
      ∀ row ∈ s'.db.journal.ingestJournal.rows, ∃ x ∈ s'.ledger, Covers x row := by
  intro hup' row hrow
  cases h with
  | crash hdb hopen htask hreturned =>
    rw [htask] at hup'
    cases hup'
  | accept batch payload nowMs initial committed haction hidle hencode haccepted hdb hopen htask
      hledger hreturned =>
    rw [hledger]
    rcases haccepted.added row hrow with hold | rfl
    · obtain ⟨x, hx, hcovers⟩ := htracked (by rw [hidle]; rfl) row hold
      exact ⟨x, List.mem_cons_of_mem _ hx, hcovers⟩
    · exact ⟨batch.entry, List.mem_cons_self, rfl, le_rfl⟩
  | append record sealed htodo happended hflight hdb hquiet hup haccepting hledger hreturned =>
    rw [hledger]
    exact htracked (Task.running_iff.mpr hup.1) row (hdb ▸ hrow)
  | take hidle hrecords htodo hquiet hdb hup haccepting hledger hreturned =>
    rw [hledger]
    exact htracked (by rw [hidle]; rfl) row (hdb ▸ hrow)
  | commit batches' gone happended hflight htodo hopen hquiet hup haccepting hledger hreturned =>
    rw [hledger]
    exact htracked (Task.running_iff.mpr hup.1) row (happended.policy.journal ▸ hrow)
  | turn hdb hopen hflight htodo hquiet hup haccepting hledger hreturned =>
    obtain ⟨x, hx, hkey, hle⟩ := htracked (Task.running_iff.mpr hup.1) row (hdb ▸ hrow)
    obtain ⟨y, hy, hykey, hyle⟩ := hledger x hx
    exact ⟨y, hy, hykey.trans hkey, hle.trans (Int.ofNat_le.mpr hyle)⟩
  | retire x retirements haction htask htask' hdb hopen hoffsets hrows hreturned =>
    obtain ⟨hold, hkeep⟩ := (hrows row).mp hrow
    obtain ⟨y, hy, hkey, hle⟩ := htracked (by rw [htask]; rfl) row hold
    rw [ledger, htask] at hy
    rw [ledger, htask']
    -- the retired entry does not cover a row that is left
    rcases List.mem_cons.mp hy with rfl | hy
    · simp only [MaterializedThrough.key, Prod.mk.injEq] at hkey
      simp [Journal.retires, hkey.1, hkey.2, hle] at hkeep
    · exact ⟨y, hy, hkey, hle⟩
  | restart pending nowMs htask hpending htask' hdb hopen hreturned =>
    obtain ⟨batch, hbatch, hsource, hstream, hlast, -⟩ := Journal.exists_pending hpending (hdb ▸ hrow)
    refine ⟨batch.entry, ?_, ?_, hlast.ge⟩
    · rw [ledger, htask']
      exact List.mem_append_left _ (List.mem_map_of_mem hbatch)
    · rw [← hsource, ← hstream]
      rfl

/-- Nothing is open while a checkpoint runs. -/
theorem Flow.quiet (h : Flow codec s a s')
    (hempty : s.task.quiet = true → ∀ r, r ∉ s.openBlocks.records) :
    s'.task.quiet = true → ∀ r, r ∉ s'.openBlocks.records := by
  intro hq
  cases h with
  | crash hdb hopen htask hreturned => rw [htask] at hq; cases hq
  | accept batch payload nowMs initial committed haction hidle hencode haccepted hdb hopen htask
      hledger hreturned => rw [htask] at hq; cases hq
  | append record sealed htodo happended hflight hdb hquiet hup haccepting hledger hreturned =>
    rw [hquiet] at hq; cases hq
  | take hidle hrecords htodo hquiet hdb hup haccepting hledger hreturned => exact hquiet hq
  | commit batches' gone happended hflight htodo hopen hquiet hup haccepting hledger hreturned =>
    rw [hopen]
    exact hempty (hquiet hq)
  | turn hdb hopen hflight htodo hquiet hup haccepting hledger hreturned =>
    rw [hopen]
    exact hempty (hquiet hq)
  | retire x retirements haction htask htask' hdb hopen hoffsets hrows hreturned =>
    rw [hopen]
    exact hempty (by rw [htask]; rfl)
  | restart pending nowMs htask hpending htask' hdb hopen hreturned => rw [htask'] at hq; cases hq

/-- What holds after every run on `batches` whose steps lose only events in `lost`. -/
structure Logged (codec : Codec β) (batches : List RawSourceBatch)
    (lost : Set (String × EventKey)) (s : Ingest β) : Prop where
  readable : s.db.Readable codec
  settled : s.db.journal.Settled
  safe : (s.wal codec lost).Safe (rowEvents codec)
  quiet : s.task.quiet = true → ∀ r, r ∉ s.openBlocks.records
  tracked : s.task.running = true →
    ∀ row ∈ s.db.journal.ingestJournal.rows, ∃ x ∈ s.ledger, Covers x row
  authentic : ∀ row ∈ s.db.journal.ingestJournal.rows, ∃ batch ∈ batches,
    encodeJournal codec batch.records = .ok row.payload ∧ row.checksum = codec.blake3 row.payload
  /-- The row of a batch that is acknowledged, or about to be, is durable. -/
  durable : ∀ batch, batch ∈ s.returned ∨ s.task.accepting = some batch →
    ∃ row : JournalRow β, row.key = batch.key ∧ row.records codec = batch.records ∧
      (s.wal codec lost).Durable (rowEvents codec) row

variable {batches : List RawSourceBatch}

theorem logged_fresh : (fresh : Ingest β).Logged codec batches lost where
  readable := Db.readable_empty
  settled := Journal.settled_empty
  safe := fun hup => by cases hup
  quiet := nofun
  tracked := fun hup => by cases hup
  authentic := nofun
  durable := by rintro batch (hb | hb) <;> cases hb

namespace Logged

/-- The journal rows after a step come from the batches of the run. -/
theorem authentic_step (hs : s.Logged codec batches lost) (h : Flow codec s a s')
    (hbatch : ∀ batch nowMs, a = .accept batch nowMs → batch ∈ batches) :
    ∀ row ∈ s'.db.journal.ingestJournal.rows, ∃ batch ∈ batches,
      encodeJournal codec batch.records = .ok row.payload ∧
        row.checksum = codec.blake3 row.payload := by
  intro row hrow
  rcases h.journal_cases with hsame | ⟨batch, payload, nowMs, _, _, haction, -, hencode, hacc⟩ |
    ⟨_, _, _, _, -, hrows⟩
  · exact hs.authentic row (hsame ▸ hrow)
  · rcases hacc.added row hrow with hold | rfl
    · exact hs.authentic row hold
    · exact ⟨batch, hbatch batch nowMs haction, hencode, rfl⟩
  · exact hs.authentic row ((hrows row).mp hrow).1

/-- Without collisions, the row of an accepted batch holds its records. -/
theorem held_records (hs : s.Logged codec batches lost) (h : Flow codec s a s')
    (hbatch : ∀ batch nowMs, a = .accept batch nowMs → batch ∈ batches)
    (hcollision : NoCollision codec batches) {batch : RawSourceBatch} {payload : β} {nowMs : ℕ}
    {initial committed : ℤ} (haction : a = .accept batch nowMs)
    (hencode : encodeJournal codec batch.records = .ok payload)
    (hacc : Journal.Accepted s.db.journal s'.db.journal batch.sourceId batch.streamId
      batch.firstSequence batch.lastSequence (codec.blake3 payload) payload nowMs initial committed)
    {row : JournalRow β} (hrow : row ∈ s'.db.journal.ingestJournal.rows)
    (hkey : row.key = batch.key) : row.records codec = batch.records := by
  obtain ⟨held, hheld, hheldkey, -, hchecksum⟩ := hacc.held
  obtain rfl := s'.db.journal.ingestJournal.eq_of_key hrow hheld (hkey.trans hheldkey.symm)
  obtain ⟨b, hb, hb', hsum⟩ := hs.authentic_step h hbatch row hrow
  have hpayload : row.payload = payload :=
    hcollision b hb batch (hbatch batch nowMs haction) _ _ hb' hencode (hsum.symm.trans hchecksum)
  rw [JournalRow.records, hpayload]
  exact payloadRecords_of_encode hencode

/-- A batch that is acknowledged or about to be was so before, or is being
accepted now. -/
theorem acknowledged_cases (h : Flow codec s a s') {batch : RawSourceBatch}
    (hb : batch ∈ s'.returned ∨ s'.task.accepting = some batch) :
    (batch ∈ s.returned ∨ s.task.accepting = some batch) ∨
      ∃ payload nowMs initial committed, a = .accept batch nowMs ∧
        encodeJournal codec batch.records = .ok payload ∧
        Journal.Accepted s.db.journal s'.db.journal batch.sourceId batch.streamId
          batch.firstSequence batch.lastSequence (codec.blake3 payload) payload nowMs initial
          committed := by
  cases h with
  | crash hdb hopen htask hreturned =>
    rw [hreturned, htask] at hb
    exact .inl (hb.imp_right nofun)
  | accept batch' payload nowMs initial committed haction hidle hencode haccepted hdb hopen htask
      -- the only step that puts a batch into the journal
      hledger hreturned =>
    rw [hreturned, htask] at hb
    rcases hb with hb | hb
    · exact .inl (.inl hb)
    · cases hb
      exact .inr ⟨payload, nowMs, initial, committed, haction, hencode, haccepted⟩
  | append record sealed htodo happended hflight hdb hquiet hup haccepting hledger hreturned =>
    -- the call that accepts the batch goes on with it
    rw [hreturned, haccepting] at hb
    exact .inl hb
  | take hidle hrecords htodo hquiet hdb hup haccepting hledger hreturned =>
    rw [hreturned, haccepting] at hb
    exact .inl (hb.imp_right nofun)
  | commit batches' gone happended hflight htodo hopen hquiet hup haccepting hledger hreturned =>
    rw [hreturned, haccepting] at hb
    exact .inl hb
  | turn hdb hopen hflight htodo hquiet hup haccepting hledger hreturned =>
    -- at its end the batch is among the returned ones
    rw [haccepting] at hb
    have hb := hb.resolve_right nofun
    rcases hreturned with hsame | ⟨batch', hrunning, hmore⟩
    · exact .inl (.inl (hsame ▸ hb))
    · rw [hmore, List.mem_append, List.mem_singleton] at hb
      rcases hb with hb | rfl
      · exact .inl (.inl hb)
      · exact .inl (.inr hrunning)
  | retire x retirements haction htask htask' hdb hopen hoffsets hrows hreturned =>
    rw [hreturned, htask'] at hb
    exact .inl (hb.imp_right nofun)
  | restart pending nowMs htask hpending htask' hdb hopen hreturned =>
    -- a recovery acknowledges nothing
    rw [hreturned, htask'] at hb
    exact .inl (hb.imp_right nofun)

/-- **Every step that loses only events in `lost` keeps the invariant.** -/
theorem step (hs : s.Logged codec batches lost) (h : Flow codec s a s')
    (hbatch : ∀ batch nowMs, a = .accept batch nowMs → batch ∈ batches)
    (hcollision : NoCollision codec batches) (hloses : ∀ e, Loses codec s s' e → e ∈ lost) :
    s'.Logged codec batches lost := by
  have hwal := wal_step h hs.quiet hloses
    fun batch payload nowMs initial committed haction hencode hacc row hrow hkey =>
      hs.held_records h hbatch hcollision haction hencode hacc hrow hkey
  refine ⟨h.readable hs.readable, h.settled hs.settled, hwal.safe hs.safe, h.quiet hs.quiet,
    h.tracked hs.tracked, hs.authentic_step h hbatch, fun batch hb => ?_⟩
  rcases acknowledged_cases h hb with hold | ⟨payload, nowMs, _, _, haction, hencode, hacc⟩
  · obtain ⟨row, hkey, hrecords, hdurable⟩ := hs.durable batch hold
    exact ⟨row, hkey, hrecords, hwal.durable hs.safe hdurable⟩
  · obtain ⟨row, hrow, hkey, -, -⟩ := hacc.held
    exact ⟨row, hkey, hs.held_records h hbatch hcollision haction hencode hacc hrow hkey,
      .inl hrow⟩

end Logged

/-- What holds after every run on `batches` that evicts no block. -/
structure Lossless (codec : Codec β) (batches : List RawSourceBatch) (s : Ingest β) : Prop where
  logged : s.Logged codec batches ∅
  policy : NoPolicy s.db
  source : ∀ r, r ∈ s.held codec ∨ r ∈ s.task.todo codec → ∃ batch ∈ batches, r ∈ batch.records
  nodup : ((s.db.sealedRecords codec).map event).Nodup

theorem lossless_fresh : (fresh : Ingest β).Lossless codec batches where
  logged := logged_fresh
  policy := ⟨fun _ => rfl, fun _ => rfl⟩
  source := by rintro r (hr | hr) <;> cases hr
  nodup := List.nodup_nil

namespace Lossless

/-- The records after a step come from the batches of the run. -/
theorem source_step (hs : s.Lossless codec batches) (h : Flow codec s a s')
    (hbatch : ∀ batch nowMs, a = .accept batch nowMs → batch ∈ batches) :
    ∀ r, r ∈ s'.held codec ∨ r ∈ s'.task.todo codec → ∃ batch ∈ batches, r ∈ batch.records := by
  have hheld : ∀ r, r ∈ s.db.sealedRecords codec ∨ r ∈ s.task.inFlight ∨
      r ∈ s.openBlocks.records → ∃ batch ∈ batches, r ∈ batch.records :=
    fun r hr => hs.source r (.inl (mem_held.mpr hr))
  have hnext : ∀ r, s.task.next = some r → ∃ batch ∈ batches, r ∈ batch.records :=
    fun r hr => hs.source r (.inr (Task.mem_todo_of_next hr))
  rintro r (hr | hr)
  · rcases mem_held.mp hr with hr | hr | hr
    · rcases h.mem_sealedRecords hr with hr | ⟨hr, -⟩
      · exact hheld r (.inl hr)
      · exact hheld r (.inr (.inl hr))
    · rcases h.mem_inFlight hr with hr | hr | ⟨-, hr⟩
      · exact hheld r (.inr (.inl hr))
      · exact hheld r (.inr (.inr hr))
      · exact hnext r hr
    · rcases h.mem_openBlocks hr with hr | ⟨-, hr⟩
      · exact hheld r (.inr (.inr hr))
      · exact hnext r hr
  · rcases h.mem_todo hr with hr | ⟨batch, nowMs, haction, hr⟩ | ⟨row, hrow, hr⟩
    · exact hs.source r (.inr hr)
    · exact ⟨batch, hbatch batch nowMs haction, hr⟩
    · -- recovery reads what the rows hold
      obtain ⟨batch, hb, hencode, -⟩ := hs.logged.authentic row hrow
      rw [payloadRecords_of_encode hencode] at hr
      exact ⟨batch, hb, hr⟩

/-- **No step seals an event twice.** -/
theorem nodup_step (hs : s.Lossless codec batches) (h : Flow codec s a s')
    (htimes : SameEventTimes batches) : ((s'.db.sealedRecords codec).map event).Nodup := by
  rcases h.db_cases with hdb | ⟨batches', gone, happended, hflight, -⟩
  · rw [hdb]
    exact hs.nodup
  · have hsource : ∀ r, r ∈ s.db.sealedRecords codec ∨ r ∈ batches'.flatten →
        ∃ batch ∈ batches, r ∈ batch.records := fun r hr =>
      hs.source r (.inl (mem_held.mpr
        (hr.imp_right fun hr => .inl (hflight ▸ List.mem_append_left _ hr))))
    refine happended.nodup (fun r q hr hq hevent => ?_) hs.nodup
    obtain ⟨b, hb, hrb⟩ := hsource r hr
    obtain ⟨b', hb', hqb⟩ := hsource q hq
    exact htimes b hb b' hb' r hrb q hqb (event_eq_iff.mp hevent).2

/-- **Every step that evicts nothing keeps the invariant.** -/
theorem step (hs : s.Lossless codec batches) (h : Flow codec s a s')
    (hbatch : ∀ batch nowMs, a = .accept batch nowMs → batch ∈ batches)
    (htimes : SameEventTimes batches) (hcollision : NoCollision codec batches)
    (hevicted : s'.db.evicted = s.db.evicted) : s'.Lossless codec batches := by
  have hloses : ∀ e, Loses codec s s' e → e ∈ (∅ : Set (String × EventKey)) := by
    intro e hl
    rcases h.loses_cases hl (hevicted.trans (List.append_nil _).symm) with
      ⟨row, hrow, -⟩ | ⟨r, -, -, hnot⟩
    · cases hrow
    · exact absurd (hs.policy.passes r) hnot
  obtain ⟨hblocked, hcutoffs⟩ := h.policy
  refine ⟨hs.logged.step h hbatch hcollision hloses, ⟨fun c => ?_, fun c => ?_⟩,
    hs.source_step h hbatch, hs.nodup_step h htimes⟩
  · rw [Db.blocked, hblocked]
    exact hs.policy.blocked c
  · rw [Db.purgeCutoff, hcutoffs]
    exact hs.policy.cutoff c

end Lossless

/-! ### Runs -/

/-- **Every run that evicts nothing keeps the invariant.** -/
theorem lossless_run (actions : List IngestAction)
    (hbatch : ∀ batch nowMs, .accept batch nowMs ∈ actions → batch ∈ batches)
    (htimes : SameEventTimes batches) (hcollision : NoCollision cfg.codec batches) :
    (run cfg actions).db.evicted = [] → (run cfg actions).Lossless cfg.codec batches := by
  have hrun : (run cfg actions).Intact cfg.codec ∧
      ((run cfg actions).db.evicted = [] → (run cfg actions).Lossless cfg.codec batches) := by
    refine List.foldlRecOn (motive := fun s : Ingest β => s.Intact cfg.codec ∧
      (s.db.evicted = [] → s.Lossless cfg.codec batches)) actions (apply cfg)
      ⟨intact_fresh cfg.codec, fun _ => lossless_fresh⟩ ?_
    rintro s ⟨hs, hlossless⟩ a ha
    rcases flow_apply hs a with heq | hflow
    · rw [heq]
      exact ⟨hs, hlossless⟩
    · refine ⟨hflow.intact hs, fun hevicted => ?_⟩
      obtain ⟨gone, hgone⟩ := hflow.evicted
      rw [hevicted] at hgone
      obtain ⟨hold, -⟩ := List.append_eq_nil_iff.mp hgone.symm
      refine (hlossless hold).step hflow (fun batch nowMs haction => ?_) htimes hcollision
        (hevicted.trans hold.symm)
      exact hbatch batch nowMs (haction ▸ ha)
  exact hrun.2

/-- The batches of a run are those of its `accept` actions. -/
theorem mem_acceptedBatches {actions : List IngestAction} {batch : RawSourceBatch} {nowMs : ℕ}
    (h : .accept batch nowMs ∈ actions) : batch ∈ acceptedBatches actions :=
  List.mem_filterMap.mpr ⟨_, h, rfl⟩

/-- **No acknowledged record is lost and none is stored twice.**  After every
run of `accept_batch`, `seal_due` and `checkpoint` with crashes and recoveries
that evicts no block: each record of an acknowledged batch is sealed, or the
batch's row is still in the journal; no event is sealed twice; and when a
checkpoint has retired its last stream, the journal is empty and each record of an
acknowledged batch is sealed exactly once.  Copies of an event must agree on its
time, and BLAKE3 must tell the payloads of the run apart. -/
theorem acknowledged_records_survive (cfg : Settings β) (actions : List IngestAction)
    (htimes : SameEventTimes (acceptedBatches actions))
    (hcollision : NoCollision cfg.codec (acceptedBatches actions))
    (hevicted : (run cfg actions).db.evicted = []) :
    (∀ batch ∈ (run cfg actions).returned, ∀ r ∈ batch.records,
      r.event ∈ ((run cfg actions).db.sealedRecords cfg.codec).map event ∨
        ∃ row ∈ (run cfg actions).db.journal.ingestJournal.rows,
          row.key = batch.key ∧ row.records cfg.codec = batch.records) ∧
    (((run cfg actions).db.sealedRecords cfg.codec).map event).Nodup ∧
    ((run cfg actions).task = .retiring [] →
      (run cfg actions).db.journal.ingestJournal.rows = [] ∧
        ∀ batch ∈ (run cfg actions).returned, ∀ r ∈ batch.records,
          (((run cfg actions).db.sealedRecords cfg.codec).map event).count r.event = 1) := by
  have hs := lossless_run actions (fun _ _ => mem_acceptedBatches) htimes hcollision hevicted
  have hkept : ∀ batch ∈ (run cfg actions).returned, ∀ r ∈ batch.records,
      r.event ∈ ((run cfg actions).db.sealedRecords cfg.codec).map event ∨
        ∃ row ∈ (run cfg actions).db.journal.ingestJournal.rows,
          row.key = batch.key ∧ row.records cfg.codec = batch.records := by
    intro batch hb r hr
    obtain ⟨row, hkey, hrecords, hrow | hstable⟩ := hs.logged.durable batch (.inl hb)
    · exact .inr ⟨row, hrow, hkey, hrecords⟩
    · have hmem : r.event ∈ rowEvents cfg.codec row := ⟨r, hrecords ▸ hr, rfl⟩
      obtain ⟨q, hq, hqe⟩ := (hstable hmem).resolve_left (Set.notMem_empty _)
      exact .inl (hqe ▸ List.mem_map_of_mem hq)
  refine ⟨hkept, hs.nodup, fun htask => ?_⟩
  -- the ledger of a checkpoint that is done is empty, so no row is left
  have hempty : (run cfg actions).db.journal.ingestJournal.rows = [] := by
    refine List.eq_nil_iff_forall_not_mem.mpr fun row hrow => ?_
    obtain ⟨x, hx, -⟩ := hs.logged.tracked (by rw [htask]; rfl) row hrow
    rw [ledger, htask] at hx
    cases hx
  refine ⟨hempty, fun batch hb r hr => ?_⟩
  rcases hkept batch hb r hr with hsealed | ⟨row, hrow, -⟩
  · exact List.count_eq_one_of_mem hs.nodup hsealed
  · rw [hempty] at hrow
    cases hrow

/-! ### A run with a crash

Two sources send an event each saw, the process crashes before it has sealed
anything, recovers, and completes a checkpoint. -/

/-- An event of a quiet channel, as a source received it. -/
def sampleRecord (sourceId : String) (n : ℕ) : CanonicalRecord :=
  ⟨"quiet", n, n, n, sourceId, .directIrc, [80, 82, 73, 86]⟩

def firstBatch : RawSourceBatch :=
  ⟨"irc", "a", 1, 2, [sampleRecord "irc" 1, sampleRecord "irc" 2]⟩

def secondBatch : RawSourceBatch :=
  ⟨"firehose", "b", 7, 8, [sampleRecord "firehose" 2, sampleRecord "firehose" 3]⟩

def sampleActions : List IngestAction :=
  [.restart 5, .advance, .accept firstBatch 10, .advance, .advance, .advance,
    .accept secondBatch 11, .advance, .advance, .advance, .crash, .restart 20] ++
  List.replicate 9 .advance ++
  [.checkpoint ["quiet"], .advance, .retire [("irc", "a"), ("firehose", "b")], .advance, .advance]

theorem acknowledged_records_survive_sample :
    (run .plain sampleActions).db.journal.ingestJournal.rows = [] ∧
      (((run .plain sampleActions).db.sealedRecords Plain.codec).map event).count
        (sampleRecord "irc" 2).event = 1 := by
  have htimes : SameEventTimes (acceptedBatches sampleActions) := by
    unfold SameEventTimes
    decide
  have hcollision : NoCollision Plain.codec (acceptedBatches sampleActions) := by
    have hbatches : acceptedBatches sampleActions = [firstBatch, secondBatch] := rfl
    rw [hbatches]
    intro b hb b' hb' p p' hp hp' hsum
    simp only [List.mem_cons, List.not_mem_nil, or_false] at hb hb'
    rcases hb with rfl | rfl <;> rcases hb' with rfl | rfl <;> cases hp <;> cases hp'
    · rfl
    · exact absurd hsum (by decide)
    · exact absurd hsum (by decide)
    · rfl
  obtain ⟨-, -, hdone⟩ :=
    acknowledged_records_survive .plain sampleActions htimes hcollision (by decide +kernel)
  obtain ⟨hempty, honce⟩ := hdone (by decide +kernel)
  exact ⟨hempty, honce firstBatch (by decide +kernel) (sampleRecord "irc" 2) (by decide)⟩

end Ingest

end RecentMessages
