/-
RecentMessages/Storage/SqliteAsync.lean

The asynchronous front of the sealed store (`storage/sqlite_async.rs`).

One thread owns the connection that writes.  Callers send it a `WriterCommand` over a bounded
channel and wait for the answer on a channel of their own; a caller that gave up just does not
read it.  Readers have connections of their own, and each of their statements sees the tables as
the last committed transaction left them.

The thread, its channel and the tables are a `Serial.Writer`: `WriterCommand.transact` lists the
transactions of a command and its reply, `WriterCommand.exec` adds that SQLite may fail on the
way, between two transactions or, where a command still works on the file after its last one,
after all.

* `WriterCommand.exec_states` — every transaction is one atomic call (`TableCall`);
* `async_store_linearizable` — in every run callers and readers see the effect of the calls of
  the accepted commands, in order.
-/
import RecentMessages.Library.Serial
import RecentMessages.Storage.Acknowledgement
import RecentMessages.Storage.Maintenance

namespace RecentMessages

/-! ### Tables and calls -/

/-- All tables of the file: those of `Db`, and `always_join_channels`. -/
structure SqliteTables (β : Type) where
  db : Db β
  alwaysJoinChannels : KeyTable (id : String → String)

/-- What `journal_stats` reads. -/
structure JournalStats where
  batches : ℕ
  bytes : ℕ
  deriving DecidableEq, Repr

/-- A call that commits at most once. -/
inductive TableCall (β : Type)
  | store (call : StoreCall)
  | journal (call : JournalCall β)
  | syncAlwaysJoinChannels (channels : List String)

/-- The tables of the journal after a call. -/
def Journal.call {β : Type} (j : Journal β) : JournalCall β → Journal β
  | .accept sourceId streamId first last checksum payload now =>
    (j.acceptJournalBatch sourceId streamId first last checksum payload now).2
  | .retire sourceId streamId through => (j.retireJournalThrough sourceId streamId through).2

namespace SqliteTables

variable {β : Type} (codec : Codec β) (store : SqliteBlockStore)

/-- The tables of a new file. -/
def empty : SqliteTables β := ⟨Db.empty, KeyTable.empty⟩

instance : Inhabited (SqliteTables β) := ⟨empty⟩

/-- One channel of `sync_always_join_channels`. -/
def syncAlwaysJoin (rows : KeyTable (id : String → String)) (channelKey : String) :
    Except StoreError (KeyTable (id : String → String)) :=
  match rows.insert? channelKey with
  | none => .error (.backend "UNIQUE constraint failed: always_join_channels.channel_key")
  | some rows => .ok rows

/-- `sync_always_join_channels`. -/
def syncAlwaysJoinChannels (t : SqliteTables β) (channels : List String) :
    Except StoreError (SqliteTables β) := do
  let alwaysJoinChannels ← channels.foldlM syncAlwaysJoin KeyTable.empty
  return { t with alwaysJoinChannels }

/-- `journal_stats`. -/
def journalStats (t : SqliteTables β) : JournalStats where
  batches := t.db.journal.ingestJournal.rows.length
  bytes := (t.db.journal.ingestJournal.rows.map fun row => codec.len row.payload).sum

/-- The tables after a call; a failed transaction changes nothing. -/
def call (t : SqliteTables β) : TableCall β → SqliteTables β
  | .store call => { t with db := t.db.call codec store call }
  | .journal call => { t with db := { t.db with journal := t.db.journal.call call } }
  | .syncAlwaysJoinChannels channels =>
    match t.syncAlwaysJoinChannels channels with
    | .ok t' => t'
    | .error _ => t

end SqliteTables

/-! ### Commands -/

/-- A command to the writer thread. -/
inductive WriterCommand (β : Type)
  | append (batches : List (List CanonicalRecord))
  | checkpoint
  | maintainSpace
  | touchChannelRequested (channelKey : String) (requestedAtMs coalesceBeforeMs : ℕ)
  | acceptJournal (sourceId streamId : String) (firstSequence lastSequence : ℕ)
      (checksum : Digest) (payload : β) (nowMs : ℕ)
  | retireJournal (sourceId streamId : String) (processedThrough : ℕ)
  | pendingJournal
  | evictBlocks (ids : List ℕ)
  | expireBlocks (cutoffMs : ℤ)
  | purgeChannel (channelKey : String) (receivedAtMs : ℤ)
  | setChannelBlocked (channelKey : String) (blocked : Bool)
  | syncBlockedChannels (channels : List String)
  | syncAlwaysJoinChannels (channels : List String)

/-- What a command answers. -/
inductive WriterReply (β : Type)
  | done (result : Except StoreError Unit)
  | changed (result : Except StoreError Bool)
  | committedThrough (result : Except StoreError ℕ)
  | removed (result : Except StoreError ℕ)
  | pending (result : Except StoreError (List (JournalBatch β)))
  | expired (result : Except StoreError ExpireStats)

/-- SQLite fails while a command runs, after some of its transactions. -/
structure WriterFault where
  transactions : ℕ
  message : String

/-- The states and the result of one transaction. -/
def transaction {σ α : Type} (result : Except StoreError (α × σ)) :
    List σ × Except StoreError α :=
  match result with
  | .ok (a, s) => ([s], .ok a)
  | .error e => ([], .error e)

namespace Db

variable {β : Type} (codec : Codec β)

/-- The tables after each transaction of `expire_blocks_before`. -/
def expireStates (cutoffMs : ℤ) : ℕ → Db β → List (Db β)
  | 0, _ => []
  | n + 1, db =>
    match db.expired cutoffMs with
    | [] => [db.deleteChannelsWhere codec (idle cutoffMs)]
    | row :: rows =>
      let db := (row :: rows).foldl (removeBlock codec) db
      db :: expireStates cutoffMs n db

end Db

namespace WriterCommand

variable {β : Type} (codec : Codec β) (store : SqliteBlockStore)

/-- The transactions of a command on tables that do not fail, and its reply. -/
def transact : WriterCommand β → SqliteTables β → List (SqliteTables β) × WriterReply β
  | .append batches, t =>
    let (states, result) := transaction do
      return ((), { t with db := ← t.db.appendChannelBatches codec store batches })
    (states, .done result)
  | .checkpoint, _ => ([], .done (.ok ()))
  | .maintainSpace, _ => ([], .done (.ok ()))
  | .touchChannelRequested channelKey requestedAtMs coalesceBeforeMs, t =>
    let (states, result) := transaction do
      let (changed, db) ← t.db.touchChannelRequested channelKey requestedAtMs coalesceBeforeMs
      return (changed, { t with db })
    (states, .changed result)
  | .acceptJournal sourceId streamId first last checksum payload now, t =>
    let (states, result) := transaction do
      let (committed, journal) ←
        t.db.journal.acceptTransaction sourceId streamId first last checksum payload now
      return (committed, { t with db := { t.db with journal } })
    (states, .committedThrough (result >>= tryToU64))
  | .retireJournal sourceId streamId through, t =>
    match t.db.journal.retireJournalThrough sourceId streamId through with
    | (.ok removed, journal) => ([{ t with db := { t.db with journal } }], .removed (.ok removed))
    | (.error e, _) => ([], .removed (.error e))
  | .pendingJournal, t => ([], .pending t.db.journal.pendingJournalBatches)
  | .evictBlocks [], _ => ([], .removed (.ok 0))
  | .evictBlocks (id :: ids), t =>
    let (states, result) := transaction do
      let (deleted, db) ← t.db.evictBlockIds codec (id :: ids)
      return (deleted, { t with db })
    (states, .removed result)
  | .expireBlocks cutoffMs, t =>
    ((t.db.expireStates codec cutoffMs (t.db.messageBlocks.rows.length + 1)).map
        fun db => { t with db },
      .expired (.ok (t.db.expireBlocksBefore codec cutoffMs).2))
  | .purgeChannel channelKey receivedAtMs, t =>
    let (removed, db) := t.db.purgeChannel codec channelKey receivedAtMs
    ([{ t with db }], .removed (.ok removed))
  | .setChannelBlocked channelKey blocked, t =>
    let (removed, db) := t.db.setChannelBlocked codec channelKey blocked
    ([{ t with db }], .removed (.ok removed))
  | .syncBlockedChannels channels, t =>
    let (states, result) := transaction do
      return ((), { t with db := ← t.db.syncBlockedChannels codec channels })
    (states, .done result)
  | .syncAlwaysJoinChannels channels, t =>
    let (states, result) := transaction do
      return ((), ← t.syncAlwaysJoinChannels channels)
    (states, .done result)

/-- The reply to a command that SQLite failed on. -/
def failed (e : StoreError) : WriterCommand β → WriterReply β
  | .append _ | .checkpoint | .maintainSpace | .syncBlockedChannels _
  | .syncAlwaysJoinChannels _ => .done (.error e)
  | .touchChannelRequested .. => .changed (.error e)
  | .acceptJournal .. => .committedThrough (.error e)
  | .retireJournal .. | .evictBlocks _ | .purgeChannel .. | .setChannelBlocked .. =>
    .removed (.error e)
  | .pendingJournal => .pending (.error e)
  | .expireBlocks _ => .expired (.error e)

/-- How many of its transactions a command that fails can have committed.  Eviction reclaims
pages after its commit, expiry when it has deleted blocks; the other commands end with their
commit. -/
def committedBeforeFault (transactions : ℕ) : WriterCommand β → ℕ
  | .evictBlocks _ => transactions
  | .expireBlocks _ => if 2 ≤ transactions then transactions else 0
  | _ => transactions - 1

/-- A command as the writer thread runs it.  An empty eviction returns before it touches the
connection. -/
def exec : WriterCommand β × Option WriterFault → SqliteTables β →
    List (SqliteTables β) × WriterReply β
  | (.evictBlocks [], _), t => transact codec store (.evictBlocks []) t
  | (command, none), t => command.transact codec store t
  | (command, some fault), t =>
    let states := (command.transact codec store t).1
    (states.take (min fault.transactions (command.committedBeforeFault states.length)),
      command.failed (.backend fault.message))

/-- The call that each transaction of a command makes. -/
def tableCall : WriterCommand β → Option (TableCall β)
  | .append batches => some (.store (.appendChannelBatches batches))
  | .checkpoint | .maintainSpace | .pendingJournal => none
  | .touchChannelRequested channelKey requestedAtMs coalesceBeforeMs =>
    some (.store (.touchChannelRequested channelKey requestedAtMs coalesceBeforeMs))
  | .acceptJournal sourceId streamId first last checksum payload now =>
    some (.journal (.accept sourceId streamId first last checksum payload now))
  | .retireJournal sourceId streamId through => some (.journal (.retire sourceId streamId through))
  | .evictBlocks ids => some (.store (.evictBlockIds ids))
  | .expireBlocks cutoffMs => some (.store (.expireBlocksBefore cutoffMs 1))
  | .purgeChannel channelKey receivedAtMs => some (.store (.purgeChannel channelKey receivedAtMs))
  | .setChannelBlocked channelKey blocked => some (.store (.setChannelBlocked channelKey blocked))
  | .syncBlockedChannels channels => some (.store (.syncBlockedChannels channels))
  | .syncAlwaysJoinChannels channels => some (.syncAlwaysJoinChannels channels)

/-- The calls that a command commits. -/
def tableCalls (c : WriterCommand β × Option WriterFault) (t : SqliteTables β) :
    List (TableCall β) :=
  c.1.tableCall.toList.flatMap (List.replicate (exec codec store c t).1.length)

/-! ### A transaction is a call -/

variable {codec store} {t : SqliteTables β}

/-- A transaction commits the call, or nothing. -/
theorem transaction_states {α : Type} {result : Except StoreError (α × SqliteTables β)}
    {call : TableCall β} (h : ∀ a t', result = .ok (a, t') → t.call codec store call = t') :
    (transaction result).1 = Serial.states (SqliteTables.call codec store) t
      (List.replicate (transaction result).1.length call) := by
  rcases result with e | ⟨a, t'⟩
  · rfl
  · show [t'] = [t.call codec store call]
    rw [h a t' rfl]

/-- A transaction of an expiry is an expiry of one transaction. -/
theorem expireStates_states (cutoff : ℤ) (n : ℕ) (t : SqliteTables β) :
    (t.db.expireStates codec cutoff n).map (fun db => { t with db }) =
      Serial.states (SqliteTables.call codec store) t
        (List.replicate (t.db.expireStates codec cutoff n).length
          (.store (.expireBlocksBefore cutoff 1))) := by
  induction n generalizing t with
  | zero => rfl
  | succ n ih =>
    have hcall : t.call codec store (.store (.expireBlocksBefore cutoff 1)) =
        { t with db := (Db.expireTransactions codec cutoff 1 t.db ⟨0, 0⟩).1 } := rfl
    rw [Db.expireTransactions] at hcall
    rw [Db.expireStates]
    rcases e : t.db.expired cutoff with - | ⟨row, rows⟩
    · rw [e] at hcall
      exact congrArg ([·]) hcall.symm
    · rw [e] at hcall
      have hone : t.call codec store (.store (.expireBlocksBefore cutoff 1)) =
          { t with db := (row :: rows).foldl (Db.removeBlock codec) t.db } := hcall
      rw [List.length_cons, List.replicate_succ, Serial.states, hone, List.map_cons]
      exact congrArg _ (ih { t with db := (row :: rows).foldl (Db.removeBlock codec) t.db })

theorem transact_states (c : WriterCommand β) (t : SqliteTables β) :
    (c.transact codec store t).1 = Serial.states (SqliteTables.call codec store) t
      (c.tableCall.toList.flatMap (List.replicate (c.transact codec store t).1.length)) := by
  cases c with
  | append batches =>
    -- one transaction for all batches: it commits, or nothing has changed
    rw [tableCall, Option.toList_some, List.flatMap_singleton]
    apply transaction_states
    rintro ⟨⟩ t' h
    obtain ⟨db, hdb, h⟩ := Except.bind_eq_ok.mp h
    cases h
    show { t with db := t.db.call codec store _ } = _
    rw [Db.call, hdb]
  | checkpoint => rfl
  | maintainSpace => rfl
  | touchChannelRequested channelKey requestedAtMs coalesceBeforeMs =>
    rw [tableCall, Option.toList_some, List.flatMap_singleton]
    apply transaction_states
    rintro changed t' h
    obtain ⟨⟨changed', db⟩, hdb, h⟩ := Except.bind_eq_ok.mp h
    cases h
    show { t with db := t.db.call codec store _ } = _
    rw [Db.call, hdb]
  | acceptJournal sourceId streamId first last checksum payload now =>
    rw [tableCall, Option.toList_some, List.flatMap_singleton]
    apply transaction_states
    rintro committed t' h
    obtain ⟨⟨committed', journal⟩, hjournal, h⟩ := Except.bind_eq_ok.mp h
    cases h
    show { t with db := { t.db with journal := (t.db.journal.acceptJournalBatch ..).2 } } = _
    rw [Journal.acceptJournalBatch, hjournal]
  | retireJournal sourceId streamId through =>
    -- a single statement, and so a transaction; it fails only before it is executed
    rw [transact]
    rcases e : t.db.journal.retireJournalThrough sourceId streamId through with
      ⟨- | removed, journal⟩
    · rfl
    · show [_] = [{ t with db := { t.db with journal :=
        (t.db.journal.retireJournalThrough sourceId streamId through).2 } }]
      rw [e]
  | pendingJournal => rfl
  | evictBlocks ids =>
    cases ids with
    -- an empty eviction returns before it touches the tables
    | nil => rfl
    | cons id ids =>
      rw [tableCall, Option.toList_some, List.flatMap_singleton]
      apply transaction_states
      rintro deleted t' h
      obtain ⟨⟨deleted', db⟩, hdb, h⟩ := Except.bind_eq_ok.mp h
      cases h
      show { t with db := t.db.call codec store _ } = _
      rw [Db.call, hdb]
  | expireBlocks cutoff =>
    -- one transaction for each deleted block, and one more
    rw [tableCall, Option.toList_some, List.flatMap_singleton, transact, List.length_map]
    exact expireStates_states cutoff _ t
  | purgeChannel channelKey receivedAtMs => rfl
  | setChannelBlocked channelKey blocked => rfl
  | syncBlockedChannels channels =>
    rw [tableCall, Option.toList_some, List.flatMap_singleton]
    apply transaction_states
    rintro ⟨⟩ t' h
    obtain ⟨db, hdb, h⟩ := Except.bind_eq_ok.mp h
    cases h
    show { t with db := t.db.call codec store _ } = _
    rw [Db.call, hdb]
  | syncAlwaysJoinChannels channels =>
    rw [tableCall, Option.toList_some, List.flatMap_singleton]
    apply transaction_states
    rintro ⟨⟩ t' h
    obtain ⟨t'', ht, h⟩ := Except.bind_eq_ok.mp h
    cases h
    rw [SqliteTables.call, ht]

/-- A command that SQLite fails on commits the first of its transactions. -/
theorem exec_eq_take (c : WriterCommand β × Option WriterFault) (t : SqliteTables β) :
    ∃ k, (exec codec store c t).1 = (c.1.transact codec store t).1.take k := by
  unfold exec
  split
  · exact ⟨0, rfl⟩
  · exact ⟨_, List.take_length.symm⟩
  · exact ⟨_, rfl⟩

/-- **Every transaction of a command is a call**, whether SQLite fails or not. -/
theorem exec_states (c : WriterCommand β × Option WriterFault) (t : SqliteTables β) :
    (exec codec store c t).1 =
      Serial.states (SqliteTables.call codec store) t (tableCalls codec store c t) := by
  obtain ⟨k, hk⟩ : ∃ k, (exec codec store c t).1 = (c.1.transact codec store t).1.take k :=
    exec_eq_take c t
  have hcalls : tableCalls codec store c t =
      (c.1.tableCall.toList.flatMap
        (List.replicate (c.1.transact codec store t).1.length)).take k := by
    rw [tableCalls, hk, List.length_take]
    cases c.1.tableCall with
    | none => exact List.take_nil.symm
    | some call =>
      rw [Option.toList_some, List.flatMap_singleton, List.flatMap_singleton, List.take_replicate]
  rw [hcalls, Serial.states_take, ← transact_states, hk]

end WriterCommand

/-! ### The store -/

/-- The settings of an asynchronous store; `open` refuses a queue without room and a pool
without readers. -/
structure AsyncSqliteBlockStore where
  store : SqliteBlockStore
  writerQueueCapacity : ℕ
  readConnections : ℕ
  capacity_pos : 0 < writerQueueCapacity
  readers_pos : 0 < readConnections

/-- What happens to a store: callers send commands, and the writer thread takes, commits and
answers them. -/
abbrev WriterEvent (β : Type) := Serial.Event (WriterCommand β) (Option WriterFault)

namespace AsyncSqliteBlockStore

variable {β : Type} (codec : Codec β) (a : AsyncSqliteBlockStore)

/-- The store, its queue and its writer after a run on a new file. -/
def run (events : List (WriterEvent β)) :
    Serial.Writer (SqliteTables β) (WriterCommand β) (Option WriterFault) (WriterReply β) :=
  Serial.Writer.run (WriterCommand.exec codec a.store) a.writerQueueCapacity SqliteTables.empty
    events

/-- The calls of some commands that are executed one after the other on a new file. -/
def callsOf (commands : List (WriterCommand β × Option WriterFault)) : List (TableCall β) :=
  Serial.atoms (WriterCommand.exec codec a.store) (WriterCommand.tableCalls codec a.store)
    SqliteTables.empty commands

/-- The replies to some commands that are executed one after the other on a new file. -/
def repliesOf (commands : List (WriterCommand β × Option WriterFault)) : List (WriterReply β) :=
  Serial.replies (WriterCommand.exec codec a.store) SqliteTables.empty commands

/-! ### Linearizability -/

/-- What callers and readers of a store observe, explained by the calls that have taken effect. -/
structure Explains (a : AsyncSqliteBlockStore) (seen : List (TableCall β))
    (w : Serial.Writer (SqliteTables β) (WriterCommand β) (Option WriterFault) (WriterReply β)) :
    Prop where
  /-- A reader sees what the calls leave. -/
  object : w.object = seen.foldl (SqliteTables.call codec a.store) SqliteTables.empty
  /-- Every call of an answered command has taken effect. -/
  answered : a.callsOf codec (w.serial.take w.answers.length) <+: seen
  /-- The calls are those of the accepted commands, in the order of acceptance. -/
  accepted : seen <+: a.callsOf codec w.serial
  fifo : w.accepted.map Prod.snd = w.serial.map Prod.fst ++ w.queue.map Prod.snd
  bounded : w.queue.length ≤ a.writerQueueCapacity
  /-- A caller gets the reply to its command in this order. -/
  replies : ∀ (i caller : ℕ) (reply : WriterReply β), w.answers[i]? = some (caller, reply) →
    caller = i ∧ (a.repliesOf codec w.serial)[i]? = some reply

variable {codec a}

/-- The calls that have taken effect after a run. -/
def seenCalls (codec : Codec β) (a : AsyncSqliteBlockStore) (events : List (WriterEvent β)) :
    List (TableCall β) :=
  (a.run codec events).seen (WriterCommand.exec codec a.store)
    (WriterCommand.tableCalls codec a.store) SqliteTables.empty

theorem linear_run (codec : Codec β) (a : AsyncSqliteBlockStore) (events : List (WriterEvent β)) :
    Serial.Writer.Linear (WriterCommand.exec codec a.store) a.writerQueueCapacity
      SqliteTables.empty (a.run codec events) :=
  Serial.Writer.linear_run _ _ _ events

theorem explains_run (events : List (WriterEvent β)) :
    Explains codec a (seenCalls codec a events) (a.run codec events) := by
  have h := linear_run codec a events
  obtain ⟨hobject, hanswered⟩ := h.object_eq_foldl WriterCommand.exec_states
  refine ⟨hobject, hanswered, List.take_prefix _ _, ?_, h.bounded, fun i caller reply hi => ?_⟩
  · rw [h.fifo, List.map_append, List.map_map, Serial.Writer.serial, List.map_map]
    rfl
  · exact h.reply_of_answer hi

/-- **The asynchronous store is linearizable.**  Whatever callers send and however the writer
thread gets on, with or without failures of SQLite, there is one sequence of calls, those of the
accepted commands in the order of acceptance, such that at every moment a reader sees the effect
of the first of them: of all calls of the commands answered by then, at least, and of no fewer
than at any earlier moment; every caller gets the reply to its command in that sequence; and
the writer can always go on until it has answered every command it accepted, and its queue has
room again. -/
theorem async_store_linearizable (codec : Codec β) (a : AsyncSqliteBlockStore)
    (events more : List (WriterEvent β)) :
    (∃ seen seen', seen <+: seen' ∧ Explains codec a seen (a.run codec events) ∧
      Explains codec a seen' (a.run codec (events ++ more))) ∧
    ∃ finish, (∀ command, .send command ∉ finish) ∧
      (a.run codec (events ++ finish)).accepted = (a.run codec events).accepted ∧
      (a.run codec (events ++ finish)).answers.length = (a.run codec events).accepted.length ∧
      (a.run codec (events ++ finish)).queue.length < a.writerQueueCapacity := by
  refine ⟨⟨_, _, ?_, explains_run events, explains_run (events ++ more)⟩, ?_⟩
  · exact (Serial.Writer.extends_run _ events more).seen _
  · obtain ⟨finish, hsend, hqueue, hcurrent⟩ := Serial.Writer.exists_drain
      (WriterCommand.exec codec a.store) a.writerQueueCapacity (a.run codec events) none
    have hrun : a.run codec (events ++ finish) = finish.foldl
        (Serial.Writer.step (WriterCommand.exec codec a.store) a.writerQueueCapacity)
        (a.run codec events) := List.foldl_append
    have haccepted : (a.run codec (events ++ finish)).accepted = (a.run codec events).accepted := by
      rw [hrun]
      exact Serial.Writer.accepted_of_no_send hsend _
    rw [← hrun] at hqueue hcurrent
    refine ⟨finish, hsend, haccepted, ?_, ?_⟩
    · rw [← haccepted]
      exact (linear_run codec a (events ++ finish)).all_answered hqueue hcurrent
    · rw [hqueue]
      exact a.capacity_pos

end AsyncSqliteBlockStore

end RecentMessages
