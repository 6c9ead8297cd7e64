/-
RecentMessages/Storage/Flow.lean

What a step of ingest can do.

A record flows from the running call (`Task.todo`) through the open blocks and
the vectors in flight (`Task.inFlight`) to the sealed store.  `Flow` lists the
kinds of steps with everything they do to these four places, to the journal and
to the ledger of processed batches; `step_flow` says that there are no others.
All invariants of ingest are derived from it.
-/
import RecentMessages.Storage.Acknowledgement
import RecentMessages.Storage.Ingest

namespace RecentMessages

variable {β : Type}

/-- The batch of a journal row or of a running call, as an entry of the ledger. -/
def RawSourceBatch.entry (batch : RawSourceBatch) : MaterializedThrough :=
  ⟨batch.sourceId, batch.streamId, batch.lastSequence⟩

/-- The batch that recovery reads, as an entry of the ledger. -/
def JournalBatch.entry (batch : JournalBatch β) : MaterializedThrough :=
  ⟨batch.sourceId, batch.streamId, batch.lastSequence⟩

/-- An entry that says as much as another one: the same stream, at least as far. -/
def MaterializedThrough.Extends (x y : MaterializedThrough) : Prop :=
  x.key = y.key ∧ y.through ≤ x.through

theorem MaterializedThrough.Extends.refl (x : MaterializedThrough) : x.Extends x := ⟨rfl, le_rfl⟩

/-- The batches of a call that are not in `materialized_through` yet. -/
def Task.unfinished : Task β → List MaterializedThrough
  | .materializing batch _ _ _ => [batch.entry]
  | .recovering pending _ _ => pending.map JournalBatch.entry
  | .replaying batch _ pending _ _ => batch.entry :: pending.map JournalBatch.entry
  | .idle => []
  | .sealing _ => []
  | .checkpointing _ => []
  | .retiring _ => []
  | .down => []

/-- The batch of a running `accept_batch`. -/
def Task.accepting : Task β → Option RawSourceBatch
  | .materializing batch _ _ _ => some batch
  | _ => none

/-- The record that the next step of a call appends to the open blocks. -/
def Task.next : Task β → Option CanonicalRecord
  | .materializing _ (record :: _) _ _ => some record
  | .replaying _ (record :: _) _ sealed _ =>
    if recoveryAppendBatches ≤ sealed.length then none else some record
  | _ => none

theorem Task.mem_todo_of_next {codec : Codec β} {t : Task β} {record : CanonicalRecord}
    (h : t.next = some record) : record ∈ t.todo codec := by
  rcases t with - | ⟨batch, rest, sealed, nowMs⟩ | sealed | sealed | retirements |
    ⟨pending, sealed, nowMs⟩ | ⟨batch, rest, pending, sealed, nowMs⟩ | -
  case materializing =>
    rcases rest with - | ⟨first, rest⟩ <;> cases h
    exact List.mem_cons_self
  case replaying =>
    rcases rest with - | ⟨first, rest⟩
    · cases h
    · rw [next] at h
      split at h <;> cases h
      exact List.mem_cons_self
  all_goals cases h

/-- The call is a checkpoint: nothing is appended to the open blocks. -/
def Task.quiet : Task β → Bool
  | .checkpointing _ => true
  | .retiring _ => true
  | _ => false

namespace Ingest

/-- How far each stream is processed or about to be; a checkpoint that retires
goes by the retirements it has collected. -/
def ledger (s : Ingest β) : List MaterializedThrough :=
  match s.task with
  | .retiring retirements => retirements
  | task => task.unfinished ++ s.materializedThrough.rows

/-- The kinds of steps. -/
inductive Flow (codec : Codec β) (s : Ingest β) (a : IngestAction) (s' : Ingest β) : Prop
  /-- The process ends. -/
  | crash (hdb : s'.db = s.db) (hopen : s'.openBlocks = .new) (htask : s'.task = .down)
      (hreturned : s'.returned = s.returned)
  /-- `accept_batch` commits to the journal. -/
  | accept (batch : RawSourceBatch) (payload : β) (nowMs : ℕ) (initial committed : ℤ)
      (haction : a = .accept batch nowMs) (hidle : s.task = .idle)
      (hencode : encodeJournal codec batch.records = .ok payload)
      (haccepted : Journal.Accepted s.db.journal s'.db.journal batch.sourceId batch.streamId
        batch.firstSequence batch.lastSequence (codec.blake3 payload) payload nowMs initial committed)
      (hdb : s'.db = { s.db with journal := s'.db.journal }) (hopen : s'.openBlocks = s.openBlocks)
      (htask : s'.task = .materializing batch batch.records [] nowMs)
      (hledger : s'.ledger = batch.entry :: s.ledger) (hreturned : s'.returned = s.returned)
  /-- A record enters the open blocks. -/
  | append (record : CanonicalRecord) (sealed : List (List CanonicalRecord))
      (htodo : s.task.todo codec = record :: s'.task.todo codec)
      (happended : OpenBlockManager.Appended s.openBlocks s'.openBlocks record sealed)
      (hflight : s'.task.inFlight = s.task.inFlight ++ sealed.flatten) (hdb : s'.db = s.db)
      (hquiet : s'.task.quiet = false) (hup : s.task ≠ .down ∧ s'.task ≠ .down)
      (haccepting : s'.task.accepting = s.task.accepting)
      (hledger : s'.ledger = s.ledger) (hreturned : s'.returned = s.returned)
      (haction : a = .advance) (hnext : s.task.next = some record)
  /-- Blocks are taken out of the open blocks. -/
  | take (hidle : s.task = .idle)
      (hrecords : ∀ r, r ∈ s.openBlocks.records ↔
        r ∈ s'.task.inFlight ∨ r ∈ s'.openBlocks.records)
      (htodo : s'.task.todo codec = [])
      (hquiet : s'.task.quiet = true → ∀ r, r ∉ s'.openBlocks.records)
      (hdb : s'.db = s.db) (hup : s'.task ≠ .down) (haccepting : s'.task.accepting = none)
      (hledger : s'.ledger = s.ledger) (hreturned : s'.returned = s.returned)
  /-- Vectors in flight are committed. -/
  | commit (batches : List (List CanonicalRecord)) (gone : List (MessageBlock β))
      (happended : Db.Appended codec s.db s'.db batches.flatten gone)
      (hflight : s.task.inFlight = batches.flatten ++ s'.task.inFlight)
      (htodo : s'.task.todo codec = s.task.todo codec) (hopen : s'.openBlocks = s.openBlocks)
      (hquiet : s'.task.quiet = true → s.task.quiet = true)
      (hup : s.task ≠ .down ∧ s'.task ≠ .down)
      (haccepting : s'.task.accepting = s.task.accepting)
      (hledger : s'.ledger = s.ledger) (hreturned : s'.returned = s.returned)
  /-- The call goes on, or returns. -/
  | turn (hdb : s'.db = s.db) (hopen : s'.openBlocks = s.openBlocks)
      (hflight : s'.task.inFlight = s.task.inFlight)
      (htodo : s'.task.todo codec = s.task.todo codec)
      (hquiet : s'.task.quiet = true → s.task.quiet = true)
      (hup : s.task ≠ .down ∧ s'.task ≠ .down)
      (haccepting : s'.task.accepting = none)
      (hledger : ∀ x ∈ s.ledger, ∃ y ∈ s'.ledger, y.Extends x)
      (hreturned : s'.returned = s.returned ∨
        ∃ batch, s.task.accepting = some batch ∧ s'.returned = s.returned ++ [batch])
  /-- A stream is retired. -/
  | retire (x : MaterializedThrough) (retirements : List MaterializedThrough)
      (haction : a = .advance) (htask : s.task = .retiring (x :: retirements))
      (htask' : s'.task = .retiring retirements)
      (hdb : s'.db = { s.db with journal := s'.db.journal }) (hopen : s'.openBlocks = s.openBlocks)
      (hoffsets : s'.db.journal.sourceOffsets = s.db.journal.sourceOffsets)
      (hrows : ∀ row, row ∈ s'.db.journal.ingestJournal.rows ↔
        row ∈ s.db.journal.ingestJournal.rows ∧
          Journal.retires x.sourceId x.streamId x.through row = false)
      (hreturned : s'.returned = s.returned)
  /-- The process starts and reads the journal. -/
  | restart (pending : List (JournalBatch β)) (nowMs : ℕ) (htask : s.task = .down)
      (hpending : s.db.journal.pendingJournalBatches = .ok pending)
      (htask' : s'.task = .recovering pending [] nowMs) (hdb : s'.db = s.db)
      (hopen : s'.openBlocks = s.openBlocks) (hreturned : s'.returned = s.returned)

/-! ### The parts of a step -/

variable {cfg : Settings β} {s : Ingest β} {a : IngestAction}

theorem flow_crash (codec : Codec β) (s : Ingest β) : Flow codec s a s.crash :=
  .crash rfl rfl rfl rfl

/-- The ledger of a call that does not retire. -/
theorem ledger_eq {s : Ingest β} (h : ∀ retirements, s.task ≠ .retiring retirements) :
    s.ledger = s.task.unfinished ++ s.materializedThrough.rows := by
  unfold ledger
  split
  · exact absurd ‹_› (h _)
  · rfl

/-- **Committing vectors in flight.** -/
theorem flow_commit {t task : Task β} {batches : List (List CanonicalRecord)} (htask : s.task = t)
    (hread : s.db.Readable cfg.codec) (hflight : t.inFlight = batches.flatten ++ task.inFlight)
    (htodo : task.todo cfg.codec = t.todo cfg.codec)
    (hquiet : task.quiet = true → t.quiet = true) (hup : t ≠ .down ∧ task ≠ .down)
    (haccepting : task.accepting = t.accepting) (hunfinished : task.unfinished = t.unfinished)
    (hretiring : ∀ retirements, t ≠ .retiring retirements ∧ task ≠ .retiring retirements) :
    Flow cfg.codec s a (s.commit cfg batches task) := by
  subst htask
  unfold commit
  split
  · exact flow_crash _ _
  · rename_i db happend
    obtain ⟨gone, happended⟩ := Db.appendChannelBatches_eq_ok hread happend
    refine .commit batches gone happended hflight htodo rfl hquiet hup haccepting ?_ rfl
    rw [ledger_eq fun r => (hretiring r).1, ledger_eq fun r => (hretiring r).2]
    exact congrArg (· ++ s.materializedThrough.rows) hunfinished

/-- **Appending a record to the open blocks.** -/
theorem flow_openRecord {t : Task β} {record : CanonicalRecord} {nowMs : ℕ}
    {task : List (List CanonicalRecord) → Task β} (htask : s.task = t)
    (htodo : ∀ sealed, t.todo cfg.codec = record :: (task sealed).todo cfg.codec)
    (hflight : ∀ sealed, (task sealed).inFlight = t.inFlight ++ sealed.flatten)
    (hquiet : ∀ sealed, (task sealed).quiet = false)
    (hup : t ≠ .down ∧ ∀ sealed, task sealed ≠ .down)
    (haccepting : ∀ sealed, (task sealed).accepting = t.accepting)
    (hunfinished : ∀ sealed, (task sealed).unfinished = t.unfinished)
    (hretiring : ∀ retirements, t ≠ .retiring retirements) (hnext : t.next = some record) :
    Flow cfg.codec s .advance (s.openRecord cfg record nowMs task) := by
  subst htask
  unfold openRecord
  split
  · exact flow_crash _ _
  · rename_i sealed openBlocks happend
    refine .append record sealed (htodo sealed) (OpenBlockManager.append_eq_ok happend)
      (hflight sealed) rfl (hquiet sealed) ⟨hup.1, hup.2 sealed⟩ (haccepting sealed) ?_ rfl rfl
      hnext
    have hretiring' : ∀ retirements, task sealed ≠ .retiring retirements := by
      intro retirements h
      have hq := hquiet sealed
      rw [h] at hq
      cases hq
    rw [ledger_eq hretiring, ledger_eq hretiring']
    exact congrArg (· ++ s.materializedThrough.rows) (hunfinished sealed)

theorem flow_accept {batch : RawSourceBatch} {nowMs : ℕ} (hj : s.db.journal.Settled)
    (hidle : s.task = .idle) : Flow cfg.codec s (.accept batch nowMs) (s.accept cfg batch nowMs) := by
  unfold accept
  split
  · exact flow_crash _ _
  · rename_i payload hencode
    rcases JournalHistory.accept_cases (h := ⟨s.db.journal, []⟩) hj batch.sourceId batch.streamId
      batch.firstSequence batch.lastSequence (cfg.codec.blake3 payload) payload nowMs with
      ⟨e, heq⟩ | ⟨j', initial, committed, hacc, heq, -⟩
    · rw [heq]
      exact .crash rfl rfl rfl rfl
    · rw [heq]
      refine .accept batch payload nowMs initial committed rfl hidle hencode hacc rfl rfl rfl ?_ rfl
      rw [ledger_eq (s := s) (by rw [hidle]; rintro r ⟨⟩), hidle]
      rfl

/-- Entering a batch into `materialized_through` keeps what was there. -/
theorem materialize_extends (table : KeyTable MaterializedThrough.key) (x : MaterializedThrough) :
    (∃ y ∈ (materialize table x.sourceId x.streamId x.through).rows, y.Extends x) ∧
      ∀ z ∈ table.rows,
        ∃ y ∈ (materialize table x.sourceId x.streamId x.through).rows, y.Extends z := by
  have hkeep : ∀ through, ∀ z ∈ table.rows, z.key = x.key ∧ through < z.through ∨
      ∃ y ∈ (table.put ⟨x.sourceId, x.streamId, through⟩).rows, y.Extends z := by
    intro through z hz
    by_cases hkey : z.key = x.key
    · by_cases hlt : through < z.through
      · exact .inl ⟨hkey, hlt⟩
      · exact .inr ⟨_, KeyTable.mem_put.mpr (.inr rfl), hkey.symm, not_lt.mp hlt⟩
    · exact .inr ⟨z, KeyTable.mem_put.mpr (.inl ⟨hz, hkey⟩), .refl z⟩
  unfold materialize
  split
  · rename_i row hrow
    obtain ⟨hmem, hkey⟩ := KeyTable.lookup_eq_some.mp hrow
    refine ⟨⟨_, KeyTable.mem_put.mpr (.inr rfl), rfl, le_max_right _ _⟩, fun z hz => ?_⟩
    refine (hkeep _ z hz).resolve_left fun ⟨hzkey, hlt⟩ => ?_
    rw [table.eq_of_key hz hmem (hzkey.trans hkey.symm)] at hlt
    exact absurd hlt (not_lt.mpr (le_max_left _ _))
  · rename_i hnone
    refine ⟨⟨_, KeyTable.mem_put.mpr (.inr rfl), rfl, le_rfl⟩, fun z hz => ?_⟩
    exact (hkeep _ z hz).resolve_left fun ⟨hzkey, _⟩ => KeyTable.lookup_eq_none.mp hnone z hz hzkey

theorem flow_replay {batch : JournalBatch β} {pending : List (JournalBatch β)}
    {sealed : List (List CanonicalRecord)} {nowMs : ℕ}
    (htask : s.task = .recovering (batch :: pending) sealed nowMs) :
    Flow cfg.codec s a (s.replay cfg batch pending sealed nowMs) := by
  unfold replay
  split
  · exact flow_crash _ _
  · split
    · exact flow_crash _ _
    · rename_i records hdecode
      refine .turn rfl rfl ?_ ?_ ?_ ⟨by rw [htask]; exact nofun, nofun⟩ rfl
        (fun x hx => ⟨x, ?_, .refl x⟩) (.inl rfl)
      · rw [htask]; rfl
      · rw [htask]
        show records ++ _ = payloadRecords cfg.codec batch.payload ++ _
        rw [show payloadRecords cfg.codec batch.payload = records by rw [payloadRecords, hdecode]]
        rfl
      · rintro ⟨⟩
      · rw [ledger_eq (by rw [htask]; rintro r ⟨⟩), htask] at hx
        exact hx

theorem flow_replayed {batch : JournalBatch β} {pending : List (JournalBatch β)}
    {sealed : List (List CanonicalRecord)} {nowMs : ℕ}
    (htask : s.task = .replaying batch [] pending sealed nowMs) :
    Flow cfg.codec s a (s.replayed batch pending sealed nowMs) := by
  obtain ⟨hself, hkeep⟩ := materialize_extends s.materializedThrough batch.entry
  refine .turn rfl rfl ?_ ?_ ?_ ⟨by rw [htask]; exact nofun, nofun⟩ rfl (fun x hx => ?_) (.inl rfl)
  · rw [htask]; rfl
  · rw [htask]; rfl
  · rintro ⟨⟩
  · show ∃ y ∈ pending.map JournalBatch.entry ++ (materialize _ _ _ _).rows, y.Extends x
    rw [ledger_eq (by rw [htask]; rintro r ⟨⟩), htask] at hx
    rcases List.mem_append.mp hx with hx | hx
    · rcases List.mem_cons.mp hx with rfl | hx
      · obtain ⟨y, hy, hext⟩ := hself
        exact ⟨y, List.mem_append_right _ hy, hext⟩
      · exact ⟨x, List.mem_append_left _ hx, .refl x⟩
    · obtain ⟨y, hy, hext⟩ := hkeep x hx
      exact ⟨y, List.mem_append_right _ hy, hext⟩

theorem flow_finish {batch : RawSourceBatch} {nowMs : ℕ}
    (htask : s.task = .materializing batch [] [] nowMs) :
    Flow cfg.codec s a (s.finish batch) := by
  obtain ⟨hself, hkeep⟩ := materialize_extends s.materializedThrough batch.entry
  refine .turn rfl rfl ?_ ?_ ?_ ⟨by rw [htask]; exact nofun, nofun⟩ rfl (fun x hx => ?_)
    (.inr ⟨batch, ?_, rfl⟩)
  · rw [htask]; rfl
  · rw [htask]; rfl
  · rintro ⟨⟩
  · show ∃ y ∈ (materialize _ _ _ _).rows, y.Extends x
    rw [ledger_eq (by rw [htask]; rintro r ⟨⟩), htask] at hx
    rcases List.mem_append.mp hx with hx | hx
    · rw [List.mem_singleton.mp hx]
      exact hself
    · exact hkeep x hx
  · rw [htask]; rfl

theorem flow_retireStream {x : MaterializedThrough} {retirements : List MaterializedThrough}
    (htask : s.task = .retiring (x :: retirements)) :
    Flow cfg.codec s .advance (s.retireStream x retirements) := by
  unfold retireStream
  rcases s.db.journal.retireJournalThrough_cases x.sourceId x.streamId x.through with
    ⟨e, heq⟩ | ⟨n, j', heq, hoffsets, hrows⟩
  · rw [heq]
    exact .crash rfl rfl rfl rfl
  · rw [heq]
    exact .retire x retirements rfl htask rfl rfl rfl hoffsets hrows rfl

/-- The call returns and has nothing left. -/
theorem flow_idle {t : Task β} (htask : s.task = t) (hup : t ≠ .down) (hflight : t.inFlight = [])
    (htodo : t.todo cfg.codec = [])
    (hledger : (∀ retirements, t ≠ .retiring retirements) ∧ t.unfinished = [] ∨ t = .retiring []) :
    Flow cfg.codec s a { s with task := .idle } := by
  subst htask
  refine .turn rfl rfl hflight.symm htodo.symm nofun ⟨hup, nofun⟩ rfl (fun x hx => ⟨x, ?_, .refl x⟩)
    (.inl rfl)
  rcases hledger with ⟨hretiring, hunfinished⟩ | hretiring
  · rw [ledger_eq hretiring, hunfinished] at hx
    exact hx
  · rw [ledger, hretiring] at hx
    cases hx

/-- **`advance`.** -/
theorem flow_advance {s' : Ingest β} (hread : s.db.Readable cfg.codec)
    (h : s.advance cfg = some s') : Flow cfg.codec s .advance s' := by
  unfold advance at h
  rcases htask : s.task with - | ⟨batch, rest, sealed, nowMs⟩ | sealed | sealed | retirements |
    ⟨pending, sealed, nowMs⟩ | ⟨batch, rest, pending, sealed, nowMs⟩ | - <;> rw [htask] at h
  case idle => cases h
  case down => cases h
  case materializing =>
    rcases rest with - | ⟨record, rest⟩
    · rcases sealed with - | ⟨v, sealed⟩ <;> cases h
      · exact flow_finish htask
      · exact flow_commit htask hread (List.append_nil _).symm rfl nofun ⟨nofun, nofun⟩ rfl rfl
          fun r => ⟨nofun, nofun⟩
    · cases h
      exact flow_openRecord htask (fun _ => rfl) (fun _ => List.flatten_append) (fun _ => rfl)
        ⟨nofun, nofun⟩ (fun _ => rfl) (fun _ => rfl) nofun rfl
  case sealing =>
    rcases sealed with - | ⟨v, sealed⟩ <;> cases h
    · exact flow_idle htask nofun rfl rfl (.inl ⟨nofun, rfl⟩)
    · exact flow_commit htask hread (List.append_nil _).symm rfl nofun ⟨nofun, nofun⟩ rfl rfl
        fun r => ⟨nofun, nofun⟩
  case checkpointing =>
    rcases sealed with - | ⟨v, sealed⟩ <;> cases h
    refine flow_commit htask hread ?_ rfl (fun _ => rfl) ⟨nofun, nofun⟩ rfl rfl fun r => ⟨nofun, nofun⟩
    -- a checkpoint commits the first vectors together
    show (v :: sealed).flatten = _ ++ ((v :: sealed).drop recoveryAppendBatches).flatten
    rw [← List.flatten_append, List.take_append_drop]
  case retiring =>
    rcases retirements with - | ⟨x, retirements⟩ <;> cases h
    · exact flow_idle htask nofun rfl rfl (.inr rfl)
    · exact flow_retireStream htask
  case recovering =>
    rcases pending with - | ⟨batch, pending⟩
    · rcases sealed with - | ⟨v, sealed⟩ <;> cases h
      · exact flow_idle htask nofun rfl rfl (.inl ⟨nofun, rfl⟩)
      · exact flow_commit htask hread (List.append_nil _).symm rfl nofun ⟨nofun, nofun⟩ rfl rfl
          fun r => ⟨nofun, nofun⟩
    · cases h
      exact flow_replay htask
  case replaying =>
    dsimp only at h
    split at h
    · cases h
      exact flow_commit htask hread (List.append_nil _).symm rfl nofun ⟨nofun, nofun⟩ rfl rfl
          fun r => ⟨nofun, nofun⟩
    · rename_i hroom
      rcases rest with - | ⟨record, rest⟩ <;> cases h
      · exact flow_replayed htask
      · exact flow_openRecord htask (fun _ => rfl) (fun _ => List.flatten_append) (fun _ => rfl)
          ⟨nofun, nofun⟩ (fun _ => rfl) (fun _ => rfl) nofun (if_neg hroom)

/-- **What a step can do.** -/
theorem step_flow {s' : Ingest β} (hread : s.db.Readable cfg.codec)
    (hj : s.db.journal.Settled) (h : s.step cfg a = some s') : Flow cfg.codec s a s' := by
  cases a with
  | accept batch nowMs =>
    -- a call begins only when no other one is running
    simp only [step] at h
    split at h
    · rename_i hidle
      cases h
      exact flow_accept hj hidle
    · cases h
  | sealDue nowMs order =>
    -- the blocks that are due move from the open blocks into the call
    simp only [step] at h
    split at h
    · rename_i hidle
      split at h
      · cases h
        refine .take hidle (fun r => OpenBlockManager.mem_takeAll _ _ r) rfl (by rintro ⟨⟩) rfl
          (by rintro ⟨⟩) rfl ?_ rfl
        rw [ledger_eq (s := s) (by rw [hidle]; rintro r ⟨⟩), hidle]
        rfl
      · cases h
    · cases h
  | checkpoint order =>
    -- so do all blocks, in whatever order the hash map yields them
    simp only [step] at h
    split at h
    · rename_i hidle
      split at h
      · rename_i horder
        cases h
        refine .take hidle (fun r => OpenBlockManager.mem_takeAll _ _ r) rfl (fun _ r => ?_) rfl
          (by rintro ⟨⟩) rfl ?_ rfl
        · exact OpenBlockManager.mem_records_sealAll horder r
        · rw [ledger_eq (s := s) (by rw [hidle]; rintro r ⟨⟩), hidle]
          rfl
      · cases h
    · cases h
  | retire order =>
    -- the retirements are what `materialized_through` says now; no record moves
    simp only [step] at h
    split at h
    · rename_i htask
      split at h
      · rename_i horder
        cases h
        refine .turn rfl rfl (by rw [htask]; rfl) (by rw [htask]; rfl) (fun _ => by rw [htask]; rfl)
          ⟨by rw [htask]; rintro ⟨⟩, by rintro ⟨⟩⟩ rfl (fun x hx => ⟨x, ?_, .refl x⟩) (.inl rfl)
        rw [ledger_eq (by rw [htask]; rintro r ⟨⟩), htask] at hx
        refine List.mem_filterMap.mpr ⟨x.key, ?_, KeyTable.lookup_of_mem hx⟩
        exact horder.mem_iff.mpr (List.mem_map_of_mem hx)
      · cases h
    · cases h
  | advance => exact flow_advance hread h
  | crash =>
    -- the open blocks and the running call are lost
    cases h
    exact flow_crash _ _
  | restart nowMs =>
    -- recovery starts from the journal, if it can be read
    simp only [step] at h
    split at h
    · rename_i htask
      split at h
      · cases h
      · rename_i pending hpending
        cases h
        exact .restart pending nowMs htask hpending rfl rfl rfl rfl
    · cases h

/-! ### What follows for the sealed store -/

namespace Flow

variable {codec : Codec β} {s' : Ingest β}

/-- The journal changes by an acceptance or a retirement only. -/
theorem journal_cases (h : Flow codec s a s') :
    s'.db.journal = s.db.journal ∨
      (∃ batch payload nowMs initial committed, a = .accept batch nowMs ∧ s.task = .idle ∧
        encodeJournal codec batch.records = .ok payload ∧
        Journal.Accepted s.db.journal s'.db.journal batch.sourceId batch.streamId
          batch.firstSequence batch.lastSequence (codec.blake3 payload) payload nowMs initial
          committed) ∨
      ∃ x retirements, a = .advance ∧ s.task = .retiring (x :: retirements) ∧
        s'.db.journal.sourceOffsets = s.db.journal.sourceOffsets ∧
        ∀ row, row ∈ s'.db.journal.ingestJournal.rows ↔
          row ∈ s.db.journal.ingestJournal.rows ∧
            Journal.retires x.sourceId x.streamId x.through row = false := by
  cases h with
  | crash hdb hopen htask hreturned => exact .inl (by rw [hdb])
  -- `accept_journal_batch`
  | accept batch payload nowMs initial committed haction hidle hencode haccepted hdb hopen htask
      hledger hreturned =>
    exact .inr (.inl ⟨batch, payload, nowMs, initial, committed, haction, hidle, hencode,
      haccepted⟩)
  -- the other calls leave the journal alone
  | append record sealed htodo happended hflight hdb hquiet hup haccepting hledger hreturned =>
    exact .inl (by rw [hdb])
  | take hidle hrecords htodo hquiet hdb hup haccepting hledger hreturned =>
    exact .inl (by rw [hdb])
  | commit batches gone happended hflight htodo hopen hquiet hup haccepting hledger hreturned =>
    exact .inl happended.policy.journal
  | turn hdb hopen hflight htodo hquiet hup haccepting hledger hreturned =>
    exact .inl (by rw [hdb])
  -- `retire_journal_through`
  | retire x retirements haction htask htask' hdb hopen hoffsets hrows hreturned =>
    exact .inr (.inr ⟨x, retirements, haction, htask, hoffsets, hrows⟩)
  | restart pending nowMs htask hpending htask' hdb hopen hreturned => exact .inl (by rw [hdb])

theorem settled (h : Flow codec s a s') (hj : s.db.journal.Settled) : s'.db.journal.Settled := by
  rcases h.journal_cases with hsame | ⟨_, _, _, _, _, _, _, _, hacc⟩ | ⟨_, _, _, _, hoffsets, hrows⟩
  · rw [hsame]
    exact hj
  · exact Journal.settled_accept hacc hj
  · exact Journal.settled_retire hoffsets (fun row hrow => ((hrows row).mp hrow).1) hj

/-- The blocks and policies change by an append only. -/
theorem db_cases (h : Flow codec s a s') :
    (s'.db = { s.db with journal := s'.db.journal }) ∨
      ∃ (batches : List (List CanonicalRecord)) (gone : List (MessageBlock β)),
        Db.Appended codec s.db s'.db batches.flatten gone ∧
        s.task.inFlight = batches.flatten ++ s'.task.inFlight ∧ s'.openBlocks = s.openBlocks := by
  cases h with
  | crash hdb hopen htask hreturned => exact .inl (by rw [hdb])
  | accept batch payload nowMs initial committed haction hidle hencode haccepted hdb hopen htask
      hledger hreturned => exact .inl hdb
  | append record sealed htodo happended hflight hdb hquiet hup haccepting hledger hreturned =>
    exact .inl (by rw [hdb])
  | take hidle hrecords htodo hquiet hdb hup haccepting hledger hreturned =>
    exact .inl (by rw [hdb])
  | commit batches gone happended hflight htodo hopen hquiet hup haccepting hledger hreturned =>
    exact .inr ⟨batches, gone, happended, hflight, hopen⟩
  | turn hdb hopen hflight htodo hquiet hup haccepting hledger hreturned =>
    exact .inl (by rw [hdb])
  | retire x retirements haction htask htask' hdb hopen hoffsets hrows hreturned => exact .inl hdb
  | restart pending nowMs htask hpending htask' hdb hopen hreturned => exact .inl (by rw [hdb])

theorem readable (h : Flow codec s a s') (hread : s.db.Readable codec) :
    s'.db.Readable codec := by
  rcases h.db_cases with hdb | ⟨batches, gone, happended, -, -⟩
  · rw [hdb]
    exact hread
  · exact happended.readable

/-- Retention only ever adds to the evicted blocks. -/
theorem evicted (h : Flow codec s a s') : ∃ gone, s'.db.evicted = s.db.evicted ++ gone := by
  rcases h.db_cases with hdb | ⟨batches, gone, happended, -, -⟩
  · exact ⟨[], by rw [hdb, List.append_nil]⟩
  · exact ⟨gone, happended.evicted⟩

theorem policy (h : Flow codec s a s') :
    s'.db.blockedChannels = s.db.blockedChannels ∧
      s'.db.channelPurgeCutoffs = s.db.channelPurgeCutoffs := by
  rcases h.db_cases with hdb | ⟨batches, gone, happended, -, -⟩
  · rw [hdb]
    exact ⟨rfl, rfl⟩
  · exact ⟨happended.policy.blocked, happended.policy.cutoffs⟩

end Flow

/-! ### Runs -/

/-- What every step relies on: blocks decode, and the journal is settled. -/
structure Intact (codec : Codec β) (s : Ingest β) : Prop where
  readable : s.db.Readable codec
  settled : s.db.journal.Settled

theorem intact_fresh (codec : Codec β) : (fresh : Ingest β).Intact codec :=
  ⟨Db.readable_empty, Journal.settled_empty⟩

theorem Flow.intact {codec : Codec β} {s' : Ingest β} (h : Flow codec s a s')
    (hs : s.Intact codec) : s'.Intact codec :=
  ⟨h.readable hs.readable, h.settled hs.settled⟩

/-- An action that is not possible changes nothing, one that is makes a step. -/
theorem flow_apply (hs : s.Intact cfg.codec) (a : IngestAction) :
    s.apply cfg a = s ∨ Flow cfg.codec s a (s.apply cfg a) := by
  unfold apply
  rcases h : s.step cfg a with - | s'
  · exact .inl rfl
  · exact .inr (step_flow hs.readable hs.settled h)

theorem intact_apply (hs : s.Intact cfg.codec) (a : IngestAction) :
    (s.apply cfg a).Intact cfg.codec := by
  rcases flow_apply hs a with heq | hflow
  · rw [heq]
    exact hs
  · exact hflow.intact hs

end Ingest

end RecentMessages
