/-
RecentMessages/Storage/Ingest.lean

Durable ingest (`storage/ingest.rs`) over the sealed store, as a state machine.

`DurableIngest` runs one call at a time, but a call is not atomic: it takes
the lock of the open blocks once for every record and the store once for every
transaction, readers look at both in between, and the process may crash at any
such point.  The state therefore holds, beside the sealed store and the open
blocks, what the running call still has to do (`Task`), and `step` performs one
locked section or one transaction:

* `accept` — the journal transaction of `accept_batch`; the materialization
  follows, record by record, by `advance`;
* `sealDue`, `checkpoint` — take blocks out of the open blocks; `advance`
  commits them;
* `retire` — the checkpoint has committed everything and collects its
  retirements;
* `crash`, `restart` — lose what is in memory; begin `recover_pending`.

A call that fails ends the process, as `RawIngestRuntime::run` does.
-/
import RecentMessages.Storage.AppendSpec
import RecentMessages.Storage.OpenBlocks

namespace RecentMessages

/-- A batch of one source. -/
structure RawSourceBatch where
  sourceId : String
  streamId : String
  firstSequence : ℕ
  lastSequence : ℕ
  records : List CanonicalRecord
  deriving DecidableEq, Repr

/-- An entry of `materialized_through`. -/
structure MaterializedThrough where
  sourceId : String
  streamId : String
  through : ℕ
  deriving DecidableEq, Repr

/-- The key of the hash map. -/
def MaterializedThrough.key (row : MaterializedThrough) : String × String :=
  (row.sourceId, row.streamId)

/-- Errors of durable ingest. -/
inductive IngestError
  | store (error : StoreError)
  | openBlock (error : OpenBlockError)
  | codec (message : String)
  | checksum
  | invalidSourceBatch
  deriving DecidableEq, Repr

/-- `JOURNAL_FORMAT_VERSION`. -/
def journalFormatVersion : ℕ := 1

/-- `JOURNAL_COMPRESSION_LEVEL`. -/
def journalCompressionLevel : ℤ := 1

/-- `RECOVERY_APPEND_BATCHES`. -/
def recoveryAppendBatches : ℕ := 1024

section Payload

variable {β : Type} (codec : Codec β)

/-- `encode_journal`. -/
def encodeJournal (records : List CanonicalRecord) : Except IngestError β := do
  let encoded ← (codec.packJournal (journalFormatVersion, records)).mapError .codec
  (codec.compress journalCompressionLevel encoded).mapError .codec

/-- `decode_journal`. -/
def decodeJournal (payload : β) : Except IngestError (List CanonicalRecord) := do
  let decoded ← (codec.decompress payload).mapError .codec
  let envelope ← (codec.unpackJournal decoded).mapError .codec
  if envelope.1 ≠ journalFormatVersion then
    .error (.codec s!"unsupported journal format version {envelope.1}")
  else
    return envelope.2

/-- The records of a payload, none if it does not decode. -/
def payloadRecords (payload : β) : List CanonicalRecord :=
  match decodeJournal codec payload with
  | .ok records => records
  | .error _ => []

variable {codec}

/-- **A journal payload decodes to the records it was made of.** -/
theorem decode_of_encodeJournal {records : List CanonicalRecord} {payload : β}
    (h : encodeJournal codec records = .ok payload) :
    decodeJournal codec payload = .ok records := by
  obtain ⟨encoded, hpack, hcompress⟩ := Except.bind_eq_ok.mp h
  have hdecompress := codec.decompress_compress (Except.mapError_eq_ok.mp hcompress)
  have hunpack := codec.unpack_packJournal (Except.mapError_eq_ok.mp hpack)
  simp [decodeJournal, hdecompress, hunpack, Except.mapError, bind, Except.bind, pure, Except.pure]

theorem payloadRecords_of_encode {records : List CanonicalRecord} {payload : β}
    (h : encodeJournal codec records = .ok payload) : payloadRecords codec payload = records := by
  rw [payloadRecords, decode_of_encodeJournal h]

end Payload

/-! ### The state -/

/-- What the running call still has to do. -/
inductive Task (β : Type)
  | idle
  /-- `materialize`: records to append, sealed vectors to commit. -/
  | materializing (batch : RawSourceBatch) (rest : List CanonicalRecord)
      (sealed : List (List CanonicalRecord)) (nowMs : ℕ)
  /-- `seal_due`, with the vectors it took. -/
  | sealing (sealed : List (List CanonicalRecord))
  /-- `checkpoint`, with the vectors it took. -/
  | checkpointing (sealed : List (List CanonicalRecord))
  /-- `checkpoint`, with the retirements it has left. -/
  | retiring (retirements : List MaterializedThrough)
  /-- `recover_pending`, between two batches. -/
  | recovering (pending : List (JournalBatch β)) (sealed : List (List CanonicalRecord)) (nowMs : ℕ)
  /-- `recover_pending`, inside a batch. -/
  | replaying (batch : JournalBatch β) (rest : List CanonicalRecord)
      (pending : List (JournalBatch β)) (sealed : List (List CanonicalRecord)) (nowMs : ℕ)
  /-- The process is not running. -/
  | down
  deriving DecidableEq

namespace Task

variable {β : Type}

/-- The vectors that were taken out of the open blocks and are not committed. -/
def sealed : Task β → List (List CanonicalRecord)
  | materializing _ _ sealed _ => sealed
  | sealing sealed => sealed
  | checkpointing sealed => sealed
  | recovering _ sealed _ => sealed
  | replaying _ _ _ sealed _ => sealed
  | idle => []
  | retiring _ => []
  | down => []

/-- The records of these vectors. -/
def inFlight (t : Task β) : List CanonicalRecord := t.sealed.flatten

/-- The records that the call will still append to the open blocks. -/
def todo (codec : Codec β) : Task β → List CanonicalRecord
  | materializing _ rest _ _ => rest
  | recovering pending _ _ => pending.flatMap fun batch => payloadRecords codec batch.payload
  | replaying _ rest pending _ _ => rest ++ pending.flatMap fun batch => payloadRecords codec batch.payload
  | idle => []
  | sealing _ => []
  | checkpointing _ => []
  | retiring _ => []
  | down => []

end Task

/-- The third-party code and the settings of a node. -/
structure Settings (β : Type) where
  codec : Codec β
  store : SqliteBlockStore
  limits : OpenBlockLimits

/-- Settings under which ingest can be evaluated. -/
def Settings.plain : Settings Plain where
  codec := Plain.codec
  store := ⟨100, 800, 3, by decide, by decide⟩
  limits := ⟨100, 128, 2 ^ 20, 30000, 60000, by decide, by decide, by decide, by decide, by decide⟩

/-- The state of a node's ingest. -/
structure Ingest (β : Type) where
  db : Db β
  openBlocks : OpenBlockManager
  materializedThrough : KeyTable MaterializedThrough.key
  task : Task β
  /-- History: the batches whose `accept_batch` returned `Ok`, oldest first. -/
  returned : List RawSourceBatch

/-- One locked section, one transaction, or a crash. -/
inductive IngestAction
  | accept (batch : RawSourceBatch) (nowMs : ℕ)
  /-- `order` is the order in which the hash map yields its channels. -/
  | sealDue (nowMs : ℕ) (order : List String)
  | checkpoint (order : List String)
  /-- `order` is the order in which `materialized_through` yields its keys. -/
  | retire (order : List (String × String))
  | advance
  | crash
  | restart (nowMs : ℕ)
  deriving DecidableEq

namespace Ingest

variable {β : Type} (cfg : Settings β)

/-- A new store, before the process is started. -/
def fresh : Ingest β where
  db := Db.empty
  openBlocks := .new
  materializedThrough := KeyTable.empty
  task := .down
  returned := []

/-! ### Steps -/

/-- The process ends; what is in memory is lost. -/
def crash (s : Ingest β) : Ingest β :=
  { s with openBlocks := .new, materializedThrough := KeyTable.empty, task := .down }

/-- `entry(…).and_modify(max).or_insert(last_sequence)`. -/
def materialize (table : KeyTable MaterializedThrough.key) (sourceId streamId : String)
    (lastSequence : ℕ) : KeyTable MaterializedThrough.key :=
  match table.lookup (sourceId, streamId) with
  | some row => table.put ⟨sourceId, streamId, max row.through lastSequence⟩
  | none => table.put ⟨sourceId, streamId, lastSequence⟩

/-- Commit sealed vectors, then go on with `task`. -/
def commit (s : Ingest β) (batches : List (List CanonicalRecord)) (task : Task β) : Ingest β :=
  match s.db.appendChannelBatches cfg.codec cfg.store batches with
  | .error _ => s.crash
  | .ok db => { s with db, task }

/-- Append a record to the open blocks, then go on with the blocks it sealed. -/
def openRecord (s : Ingest β) (record : CanonicalRecord) (nowMs : ℕ)
    (task : List (List CanonicalRecord) → Task β) : Ingest β :=
  match s.openBlocks.append cfg.limits record nowMs with
  | .error _ => s.crash
  | .ok (sealed, openBlocks) => { s with openBlocks, task := task sealed }

/-- The journal transaction of `accept_batch`. -/
def accept (s : Ingest β) (batch : RawSourceBatch) (nowMs : ℕ) : Ingest β :=
  match encodeJournal cfg.codec batch.records with
  | .error _ => s.crash
  | .ok payload =>
    match s.db.journal.acceptJournalBatch batch.sourceId batch.streamId batch.firstSequence
      batch.lastSequence (cfg.codec.blake3 payload) payload nowMs with
    | (.error _, journal) => crash { s with db := { s.db with journal } }
    | (.ok _, journal) =>
      { s with
        db := { s.db with journal }
        task := .materializing batch batch.records [] nowMs }

/-- The end of `accept_batch`. -/
def finish (s : Ingest β) (batch : RawSourceBatch) : Ingest β :=
  { s with
    materializedThrough :=
      materialize s.materializedThrough batch.sourceId batch.streamId batch.lastSequence
    task := .idle
    returned := s.returned ++ [batch] }

/-- The end of a batch of `recover_pending`. -/
def replayed (s : Ingest β) (batch : JournalBatch β) (pending : List (JournalBatch β))
    (sealed : List (List CanonicalRecord)) (nowMs : ℕ) : Ingest β :=
  { s with
    materializedThrough :=
      materialize s.materializedThrough batch.sourceId batch.streamId batch.lastSequence
    task := .recovering pending sealed nowMs }

/-- The next batch of `recover_pending`. -/
def replay (s : Ingest β) (batch : JournalBatch β) (pending : List (JournalBatch β))
    (sealed : List (List CanonicalRecord)) (nowMs : ℕ) : Ingest β :=
  if cfg.codec.blake3 batch.payload ≠ batch.checksum then
    s.crash
  else
    match decodeJournal cfg.codec batch.payload with
    | .error _ => s.crash
    | .ok records => { s with task := .replaying batch records pending sealed nowMs }

/-- One retirement of `checkpoint`. -/
def retireStream (s : Ingest β) (x : MaterializedThrough) (rest : List MaterializedThrough) :
    Ingest β :=
  match s.db.journal.retireJournalThrough x.sourceId x.streamId x.through with
  | (.error _, journal) => crash { s with db := { s.db with journal } }
  | (.ok _, journal) =>
    { s with
      db := { s.db with journal }
      materializedThrough := s.materializedThrough.erase x.key
      task := .retiring rest }

/-- Go on with the running call. -/
def advance (s : Ingest β) : Option (Ingest β) :=
  match s.task with
  | .idle => none
  | .down => none
  | .materializing batch (record :: rest) sealed nowMs =>
    some <| s.openRecord cfg record nowMs fun more =>
      .materializing batch rest (sealed ++ more) nowMs
  | .materializing batch [] [] _ => some (s.finish batch)
  | .materializing batch [] sealed nowMs =>
    -- the end of `accept_batch` is the next step
    some <| s.commit cfg sealed (.materializing batch [] [] nowMs)
  | .sealing [] => some { s with task := .idle }
  | .sealing sealed => some <| s.commit cfg sealed .idle
  | .checkpointing [] => none  -- `retire` comes next
  | .checkpointing sealed =>
    some <| s.commit cfg (sealed.take recoveryAppendBatches)
      (.checkpointing (sealed.drop recoveryAppendBatches))
  | .retiring [] => some { s with task := .idle }
  | .retiring (x :: rest) => some (s.retireStream x rest)
  | .recovering [] [] _ => some { s with task := .idle }
  | .recovering [] sealed _ => some <| s.commit cfg sealed .idle
  | .recovering (batch :: pending) sealed nowMs => some (s.replay cfg batch pending sealed nowMs)
  | .replaying batch rest pending sealed nowMs =>
    if recoveryAppendBatches ≤ sealed.length then
      some <| s.commit cfg sealed (.replaying batch rest pending [] nowMs)
    else
      match rest with
      | record :: rest =>
        some <| s.openRecord cfg record nowMs fun more =>
          .replaying batch rest pending (sealed ++ more) nowMs
      | [] => some (s.replayed batch pending sealed nowMs)

/-- One step, if the action is possible. -/
def step (s : Ingest β) : IngestAction → Option (Ingest β)
  | .accept batch nowMs =>
    match s.task with
    | .idle => some (s.accept cfg batch nowMs)
    | _ => none
  | .sealDue nowMs order =>
    match s.task with
    | .idle =>
      if s.openBlocks.IterationOrder order then
        let (sealed, openBlocks) := s.openBlocks.sealDue cfg.limits nowMs order
        some { s with openBlocks, task := .sealing sealed }
      else none
    | _ => none
  | .checkpoint order =>
    match s.task with
    | .idle =>
      if s.openBlocks.IterationOrder order then
        let (sealed, openBlocks) := s.openBlocks.sealAll order
        some { s with openBlocks, task := .checkpointing sealed }
      else none
    | _ => none
  | .retire order =>
    match s.task with
    | .checkpointing [] =>
      if order.Perm (s.materializedThrough.rows.map (·.key)) then
        some { s with task := .retiring (order.filterMap s.materializedThrough.lookup) }
      else none
    | _ => none
  | .advance => s.advance cfg
  | .crash => some s.crash
  | .restart nowMs =>
    match s.task with
    | .down =>
      match s.db.journal.pendingJournalBatches with
      | .error _ => none
      | .ok pending => some { s with task := .recovering pending [] nowMs }
    | _ => none

/-- The state after an action; an action that is not possible is skipped. -/
def apply (s : Ingest β) (a : IngestAction) : Ingest β := (s.step cfg a).getD s

/-- The state after a run on a new store. -/
def run (actions : List IngestAction) : Ingest β := actions.foldl (apply cfg) fresh

end Ingest

end RecentMessages
