/-
RecentMessages/Web/StoreReaders.lean

What the callers of the asynchronous store can rely on.

By `async_store_linearizable` a reader sees the tables after some calls of the accepted
commands.  What every call keeps therefore holds of everything that is read, and what the call
of an answered command brought about holds of everything that is read after the answer, unless a
later command undid it.

* `async_reads_exact` — queries return records that pass the policy, and the statistics count
  the blocks that queries read;
* `async_purge_final` — no reader sees a record that an answered purge covers;
* `async_journal_durable` — a batch whose acceptance was answered stays in the journal until a
  later command retires it.
-/
import RecentMessages.Storage.Accounting
import RecentMessages.Storage.Policy
import RecentMessages.Storage.Retention
import RecentMessages.Storage.SqliteAsync
import RecentMessages.Storage.SqliteQueues
import RecentMessages.Web.Query
import Mathlib.Algebra.Order.BigOperators.Group.Finset

namespace RecentMessages

namespace SqliteTables

variable {β : Type} {codec : Codec β} {store : SqliteBlockStore} {t : SqliteTables β}

/-! ### What every call keeps -/

/-- The tables between two calls. -/
structure Kept (codec : Codec β) (t : SqliteTables β) : Prop where
  kept : t.db.Kept codec
  accounted : t.db.Accounted codec
  settled : t.db.journal.Settled

theorem kept_empty : (empty : SqliteTables β).Kept codec :=
  ⟨⟨Db.readable_empty, Db.compliant_empty⟩, Db.accounted_empty, Journal.settled_empty⟩

theorem settled_call {j : Journal β} (h : j.Settled) (call : JournalCall β) :
    (j.call call).Settled := by
  cases call with
  | accept sourceId streamId first last checksum payload now =>
    rw [Journal.call]
    rcases j.acceptJournalBatch_cases sourceId streamId first last checksum payload now with
      ⟨e, heq⟩ | ⟨j', initial, committed, hacc, heq⟩
    · rw [heq]
      exact h
    · rw [heq]
      exact Journal.settled_accept hacc h
  | retire sourceId streamId through =>
    rw [Journal.call]
    rcases j.retireJournalThrough_cases sourceId streamId through with
      ⟨e, heq⟩ | ⟨n, j', heq, hoffsets, hrows⟩
    · rw [heq]
      exact h
    · rw [heq]
      exact Journal.settled_retire hoffsets (fun row hrow => ((hrows row).mp hrow).1) h

/-- Only the journal calls touch the journal, and they touch nothing else. -/
theorem db_call_alwaysJoin (t : SqliteTables β) (channels : List String) :
    (t.call codec store (.syncAlwaysJoinChannels channels)).db = t.db := by
  rw [call, syncAlwaysJoinChannels]
  cases channels.foldlM syncAlwaysJoin KeyTable.empty <;> rfl

/-- **Every call keeps the tables.** -/
theorem kept_call (h : t.Kept codec) (c : TableCall β) : (t.call codec store c).Kept codec := by
  obtain ⟨hkept, haccounted, hsettled⟩ := h
  cases c with
  | store c =>
    obtain ⟨hkept', hjournal⟩ : (t.db.call codec store c).Kept codec ∧
        (t.db.call codec store c).journal = t.db.journal := Db.kept_call hkept c
    refine ⟨hkept', (Db.accounted_call hkept.readable haccounted c).2, ?_⟩
    show (t.db.call codec store c).journal.Settled
    rw [hjournal]
    exact hsettled
  | journal c =>
    refine ⟨⟨hkept.readable, hkept.compliant⟩, ⟨haccounted.totals, haccounted.clamps,
      haccounted.retained, haccounted.tracked, haccounted.distinct⟩, ?_⟩
    exact settled_call hsettled c
  | syncAlwaysJoinChannels channels =>
    have hdb : (t.call codec store (.syncAlwaysJoinChannels channels)).db = t.db :=
      db_call_alwaysJoin t channels
    refine ⟨?_, ?_, ?_⟩ <;> rw [hdb]
    · exact hkept
    · exact haccounted
    · exact hsettled

theorem kept_foldl (h : t.Kept codec) (calls : List (TableCall β)) :
    (calls.foldl (call codec store) t).Kept codec :=
  List.foldlRecOn calls _ h fun _ ht c _ => kept_call ht c

end SqliteTables

/-! ### What the statistics count -/

namespace Db

variable {β : Type} {codec : Codec β} {db : Db β}

/-- All records of a channel that a query returns. -/
def readChannel (codec : Codec β) (db : Db β) (limit : ℕ) (channelKey : String) :
    List CanonicalRecord :=
  match db.query codec ⟨channelKey, none, none, limit⟩ with
  | .ok result => result.records
  | .error _ => []

/-- The column `message_count` counts the records of a channel. -/
theorem sum_messageCount (hread : db.Readable codec) (c : String) :
    ((db.blocksOf c).map (·.messageCount)).sum =
      (((db.blocksOf c).flatMap (·.records codec)).length : ℤ) := by
  have hcount : (db.blocksOf c).map (·.messageCount) =
      (db.blocksOf c).map fun row => ((row.records codec).length : ℤ) :=
    List.map_congr_left fun row hrow => (hread row (mem_blocksOf.mp hrow).1).count
  rw [hcount, List.length_flatMap, Nat.cast_list_sum, List.map_map]
  rfl

/-- A query without bounds reads the blocks of its channel. -/
theorem length_readChannel (hread : db.Readable codec) {limit : ℕ} (hlimit : limit ≠ 0) {c : String}
    (hle : ((db.blocksOf c).flatMap (·.records codec)).length ≤ limit) :
    (db.readChannel codec limit c).length =
      ((db.blocksOf c).flatMap (·.records codec)).length := by
  obtain ⟨result, hquery, hrecords⟩ : ∃ result,
      db.query codec ⟨c, none, none, limit⟩ = .ok result ∧
        result.records = db.window codec ⟨c, none, none, limit⟩ := query_eq_ok hread hlimit
  have hall : ∀ l : List CanonicalRecord,
      l.filter (QueryRequest.admits ⟨c, none, none, limit⟩) = l :=
    fun l => List.filter_eq_self.mpr fun _ _ => rfl
  have hlength : (sortByKey CanonicalRecord.receiptOrder
      ((db.blocksOf c).flatMap (·.records codec))).length =
        ((db.blocksOf c).flatMap (·.records codec)).length := (sortByKey_perm _).length_eq
  rw [readChannel, hquery]
  show result.records.length = _
  rw [hrecords, window, hall, takeNewest, hlength, Nat.sub_eq_zero_of_le hle, List.drop_zero,
    hlength]

/-- The totals that `stats` reads. -/
theorem stats_eq_ok {stats : StoreStats} (h : db.stats = .ok stats) :
    (stats.messages : ℤ) = db.storeTotals.messages ∧
      (stats.blocks : ℤ) = db.storeTotals.blocks := by
  have hread : ∀ x y : ℤ, readTotal x = .ok y → y = x := by
    intro x y hx
    rw [readTotal] at hx
    split at hx
    · exact (Except.ok.inj hx).symm
    · cases hx
  have htry : ∀ (x : ℤ) (n : ℕ), tryToU64 x = .ok n → (n : ℤ) = x := by
    intro x n hx
    rw [tryToU64] at hx
    split at hx
    · rename_i hnonneg
      cases hx
      exact Int.toNat_of_nonneg hnonneg
    · cases hx
  obtain ⟨blocks, hblocks, h⟩ := Except.bind_eq_ok.mp h
  obtain ⟨messages, hmessages, h⟩ := Except.bind_eq_ok.mp h
  obtain ⟨compressed, -, h⟩ := Except.bind_eq_ok.mp h
  obtain ⟨uncompressed, -, h⟩ := Except.bind_eq_ok.mp h
  obtain ⟨blocks', hblocks', h⟩ := Except.bind_eq_ok.mp h
  obtain ⟨messages', hmessages', h⟩ := Except.bind_eq_ok.mp h
  obtain ⟨compressed', -, h⟩ := Except.bind_eq_ok.mp h
  obtain ⟨uncompressed', -, h⟩ := Except.bind_eq_ok.mp h
  cases h
  exact ⟨(htry _ _ hmessages').trans (hread _ _ hmessages),
    (htry _ _ hblocks').trans (hread _ _ hblocks)⟩

/-- **The statistics count what queries return.** -/
theorem stats_messages (hread : db.Readable codec) (hdb : db.Accounted codec) {stats : StoreStats}
    (hstats : db.stats = .ok stats) {limit : ℕ} (hlimit : limit ≠ 0)
    (hle : stats.messages ≤ limit) :
    stats.messages =
      ∑ c ∈ db.channels.keysWhere fun _ => true, (db.readChannel codec limit c).length := by
  have hgroups : ∀ row ∈ db.messageBlocks.rows,
      row.channelKey ∈ db.channels.keysWhere fun _ => true := by
    intro b hb
    obtain ⟨row, hrow, hkey, -⟩ := hdb.tracked b hb
    rw [← hkey, KeyTable.mem_keysWhere, KeyTable.lookup_of_mem hrow]
    rfl
  have htotal : (stats.messages : ℤ) = ∑ c ∈ db.channels.keysWhere fun _ => true,
      (((db.blocksOf c).flatMap (·.records codec)).length : ℤ) := by
    rw [(stats_eq_ok hstats).1, hdb.totals]
    have hsplit : (db.messageBlocks.total fun row => row.messageCount) =
        ∑ c ∈ db.channels.keysWhere fun _ => true,
          ((db.blocksOf c).map (·.messageCount)).sum := KeyTable.total_eq_sum_queueOf hgroups
    exact hsplit.trans (Finset.sum_congr rfl fun c _ => sum_messageCount hread c)
  rw [← Nat.cast_sum, Nat.cast_inj] at htotal
  refine htotal.trans (Finset.sum_congr rfl fun c hc => (length_readChannel hread hlimit ?_).symm)
  refine Nat.le_trans ?_ hle
  rw [htotal]
  exact Finset.single_le_sum (f := fun c => ((db.blocksOf c).flatMap (·.records codec)).length)
    (fun _ _ => Nat.zero_le _) hc

end Db

/-! ### What was answered -/

/-- The journal holds a batch. -/
def SqliteTables.Holds {β : Type} (t : SqliteTables β) (sourceId streamId : String)
    (first last : ℕ) (checksum : Digest) : Prop :=
  ∃ row ∈ t.db.journal.ingestJournal.rows, row.key = (sourceId, streamId, (first : ℤ)) ∧
    row.lastSequence = last ∧ row.checksum = checksum

/-- A purge cutoff at or above `receivedAtMs` is in force. -/
def SqliteTables.Purged {β : Type} (t : SqliteTables β) (channelKey : String)
    (receivedAtMs : ℤ) : Prop :=
  ∃ cutoff, t.db.purgeCutoff channelKey = some cutoff ∧ receivedAtMs ≤ cutoff

namespace WriterCommand

variable {β : Type} {codec : Codec β} {store : SqliteBlockStore} {t : SqliteTables β}

/-- An answered purge made its call. -/
theorem tableCalls_purge {c : String} {at_ : ℤ} {fault : Option WriterFault} {n : ℕ}
    (h : .removed (.ok n) = (exec codec store (.purgeChannel c at_, fault) t).2) :
    tableCalls codec store (.purgeChannel c at_, fault) t = [.store (.purgeChannel c at_)] := by
  cases fault with
  | none => rfl
  | some fault => cases h

/-- An answered acceptance is in the journal that its call leaves. -/
theorem holds_of_accept {s st : String} {first last now : ℕ} {checksum : Digest} {payload : β}
    {fault : Option WriterFault} {n : ℕ}
    (h : .committedThrough (.ok n) =
      (exec codec store (.acceptJournal s st first last checksum payload now, fault) t).2) :
    ((tableCalls codec store (.acceptJournal s st first last checksum payload now, fault) t).foldl
      (SqliteTables.call codec store) t).Holds s st first last checksum := by
  cases fault with
  | some fault => cases h
  | none =>
    have hexec : exec codec store (.acceptJournal s st first last checksum payload now, none) t =
        transact codec store (.acceptJournal s st first last checksum payload now) t := rfl
    rcases e : t.db.journal.acceptTransaction s st first last checksum payload now with
      error | ⟨committed, journal⟩
    · rw [hexec, transact, e] at h
      cases h
    · obtain ⟨initial, hacc⟩ := Journal.acceptTransaction_eq_ok e
      have hcalls : tableCalls codec store
          (.acceptJournal s st first last checksum payload now, none) t =
            [.journal (.accept s st first last checksum payload now)] := by
        rw [tableCalls, hexec, transact, e]
        rfl
      rw [hcalls, List.foldl_cons, List.foldl_nil]
      show ∃ row ∈ (t.db.journal.acceptJournalBatch ..).2.ingestJournal.rows, _
      rw [Journal.acceptJournalBatch, e]
      exact hacc.held

/-- Only a retirement makes the call of a retirement. -/
theorem eq_of_mem_tableCalls {c : WriterCommand β} {fault : Option WriterFault} {s st : String}
    {through : ℕ} (h : .journal (.retire s st through) ∈ tableCalls codec store (c, fault) t) :
    c = .retireJournal s st through := by
  obtain ⟨call, hcall, hmem⟩ := List.mem_flatMap.mp h
  obtain rfl := List.eq_of_mem_replicate hmem
  cases c <;> cases Option.mem_toList.mp hcall
  rfl

end WriterCommand

namespace SqliteTables

variable {β : Type} {codec : Codec β} {store : SqliteBlockStore} {t : SqliteTables β}

theorem purged_purge (t : SqliteTables β) (c : String) (at_ : ℤ) :
    (t.call codec store (.store (.purgeChannel c at_))).Purged c at_ := by
  obtain ⟨cutoff, hcutoff, hle, -⟩ := Db.purgeCutoff_raiseCutoff_self t.db c at_
  have hpolicy := (Db.reduced_dropChannel codec (t.db.raiseCutoff c at_) c).policy
  exact ⟨cutoff, (Db.purgeCutoff_congr hpolicy c).trans hcutoff, hle⟩

/-- No call lowers a cutoff. -/
theorem purged_call (hkept : t.Kept codec) {c : String} {at_ : ℤ} (h : t.Purged c at_)
    (call : TableCall β) : (t.call codec store call).Purged c at_ := by
  obtain ⟨cutoff, hcutoff, hle⟩ := h
  cases call with
  | store call =>
    obtain ⟨cutoff', hcutoff', hle'⟩ : ∃ cutoff', (t.db.call codec store call).purgeCutoff c =
        some cutoff' ∧ cutoff ≤ cutoff' := Db.purgeCutoff_call hkept.kept.readable call hcutoff
    exact ⟨cutoff', hcutoff', hle.trans hle'⟩
  | journal call => exact ⟨cutoff, hcutoff, hle⟩
  | syncAlwaysJoinChannels channels =>
    exact ⟨cutoff, (congrArg (fun db => Db.purgeCutoff db c)
      (db_call_alwaysJoin t channels)).trans hcutoff, hle⟩

theorem purged_foldl (hkept : t.Kept codec) {c : String} {at_ : ℤ} (h : t.Purged c at_)
    (calls : List (TableCall β)) : (calls.foldl (call codec store) t).Purged c at_ := by
  induction calls generalizing t with
  | nil => exact h
  | cons call calls ih => exact ih (kept_call hkept call) (purged_call hkept h call)

/-- **Only a retirement takes a batch out of the journal**, and only one that covers it. -/
theorem holds_call {s st : String} {first last : ℕ} {checksum : Digest} (hkept : t.Kept codec)
    (h : t.Holds s st first last checksum) (c : TableCall β)
    (hc : ∀ through, c = .journal (.retire s st through) → through < last) :
    (t.call codec store c).Holds s st first last checksum := by
  obtain ⟨row, hrow, hkey, hlast, hchecksum⟩ := h
  cases c with
  | store c =>
    refine ⟨row, ?_, hkey, hlast, hchecksum⟩
    show row ∈ (t.db.call codec store c).journal.ingestJournal.rows
    rw [(Db.kept_call hkept.kept c).2]
    exact hrow
  | syncAlwaysJoinChannels channels =>
    refine ⟨row, ?_, hkey, hlast, hchecksum⟩
    rw [db_call_alwaysJoin]
    exact hrow
  | journal c =>
    refine ⟨row, ?_, hkey, hlast, hchecksum⟩
    cases c with
    | accept s' st' first' last' checksum' payload now =>
      show row ∈ (t.db.journal.acceptJournalBatch ..).2.ingestJournal.rows
      rcases t.db.journal.acceptJournalBatch_cases s' st' first' last' checksum' payload now with
        ⟨e, heq⟩ | ⟨j', initial, committed, hacc, heq⟩
      · rw [heq]
        exact hrow
      · rw [heq]
        exact hacc.kept row hrow
    | retire s' st' through =>
      show row ∈ (t.db.journal.retireJournalThrough ..).2.ingestJournal.rows
      rcases t.db.journal.retireJournalThrough_cases s' st' through with
        ⟨e, heq⟩ | ⟨n, j', heq, -, hrows⟩
      · rw [heq]
        exact hrow
      · rw [heq]
        refine (hrows row).mpr ⟨hrow, ?_⟩
        -- a retirement of the stream ends below the batch
        rw [JournalRow.key, Prod.mk.injEq, Prod.mk.injEq] at hkey
        obtain ⟨hsource, hstream, -⟩ := hkey
        rw [Journal.retires, hsource, hstream, hlast]
        by_contra hnot
        simp only [Bool.and_eq_true, decide_eq_true_eq, Bool.not_eq_false] at hnot
        obtain ⟨⟨rfl, rfl⟩, hle⟩ := hnot
        have hlt := hc through rfl
        omega

/-- The journal holds a batch until a retirement that covers it. -/
theorem holds_foldl {s st : String} {first last : ℕ} {checksum : Digest} (hkept : t.Kept codec)
    (h : t.Holds s st first last checksum) (calls : List (TableCall β)) :
    (calls.foldl (call codec store) t).Holds s st first last checksum ∨
      ∃ through, .journal (.retire s st through) ∈ calls ∧ last ≤ through := by
  induction calls generalizing t with
  | nil => exact .inl h
  | cons c calls ih =>
    by_cases hc : ∀ through, c = .journal (.retire s st through) → through < last
    · rcases ih (kept_call hkept c) (holds_call hkept h c hc) with hholds | ⟨through, hmem, hle⟩
      · exact .inl hholds
      · exact .inr ⟨through, List.mem_cons_of_mem c hmem, hle⟩
    · simp only [not_forall, not_lt] at hc
      obtain ⟨through, rfl, hle⟩ := hc
      exact .inr ⟨through, List.mem_cons_self, hle⟩

end SqliteTables

/-! ### Reads of a running store -/

/-- Recovery reads the rows of a settled journal, one batch for each. -/
theorem Journal.exists_pendingJournalBatches {β : Type} {j : Journal β} (h : j.Settled) :
    ∃ pending, j.pendingJournalBatches = .ok pending ∧
      pending.length = j.ingestJournal.rows.length := by
  have hbatch : ∀ row ∈ sortByKey pendingOrder j.ingestJournal.rows, toBatch row =
      .ok ⟨row.sourceId, row.streamId, row.firstSequence.toNat, row.lastSequence.toNat,
        row.checksum, row.payload⟩ := by
    intro row hrow
    obtain ⟨hfirst, hle, -⟩ := h.range row (mem_sortByKey.mp hrow)
    rw [toBatch, tryToU64_of_nonneg hfirst, tryToU64_of_nonneg (hfirst.trans hle)]
    rfl
  refine ⟨_, Except.mapM_of_ok hbatch, ?_⟩
  rw [List.length_map, (sortByKey_perm _).length_eq]

namespace AsyncSqliteBlockStore

variable {β : Type} {codec : Codec β} {a : AsyncSqliteBlockStore}

theorem kept_run (codec : Codec β) (a : AsyncSqliteBlockStore) (events : List (WriterEvent β)) :
    (a.run codec events).object.Kept codec := by
  rw [(explains_run events).object]
  exact SqliteTables.kept_foldl SqliteTables.kept_empty _

/-- What readers get from tables. -/
structure ReadsExact (codec : Codec β) (t : SqliteTables β) : Prop where
  /-- Queries succeed, and return records of their channel that pass its policy. -/
  query : ∀ request, request.limit ≠ 0 → ∃ result, t.db.query codec request = .ok result ∧
    ∀ r ∈ result.records, r.channelKey = request.channelKey ∧ t.db.Passes r
  /-- The message count of the statistics is the number of records that queries return, over all
  channels. -/
  stats : ∀ stats, t.db.stats = .ok stats → ∀ limit, limit ≠ 0 → stats.messages ≤ limit →
    stats.messages =
      ∑ c ∈ t.db.channels.keysWhere fun _ => true, (t.db.readChannel codec limit c).length
  /-- The journal lists as many batches as its statistics count. -/
  journal : ∃ pending, t.db.journal.pendingJournalBatches = .ok pending ∧
    pending.length = (t.journalStats codec).batches

theorem readsExact_of_kept {t : SqliteTables β} (h : t.Kept codec) : ReadsExact codec t := by
  obtain ⟨⟨hread, hcompliant⟩, haccounted, hsettled⟩ := h
  refine ⟨fun request hlimit => ?_, fun stats hstats limit hlimit hle => ?_, ?_⟩
  · obtain ⟨result, hquery, hrecords⟩ := Db.query_eq_ok hread hlimit
    refine ⟨result, hquery, fun r hr => ?_⟩
    rw [hrecords, Db.window] at hr
    have hmem := mem_sortByKey.mp (List.mem_of_mem_filter (mem_of_mem_takeNewest hr))
    obtain ⟨hsealed, hchannel⟩ := (Db.mem_channel hread).mp hmem
    exact ⟨hchannel, hcompliant r hsealed⟩
  · exact Db.stats_messages hread haccounted hstats hlimit hle
  · exact Journal.exists_pendingJournalBatches hsettled

/-- **What readers of the asynchronous store get** is exact and complies with the policy, at every
moment of every run: in the middle of a command or between two, and whether SQLite fails or
not. -/
theorem async_reads_exact (codec : Codec β) (a : AsyncSqliteBlockStore)
    (events : List (WriterEvent β)) : ReadsExact codec (a.run codec events).object :=
  readsExact_of_kept (kept_run codec a events)

/-- The tables after an answered command: those that its own calls left, which were kept, and then
only calls of later commands. -/
theorem exists_answered {events : List (WriterEvent β)} {i caller : ℕ} {command : WriterCommand β}
    {reply : WriterReply β} (hcommand : (a.run codec events).accepted[i]? = some (i, command))
    (hanswer : (a.run codec events).answers[i]? = some (caller, reply)) :
    ∃ (t : SqliteTables β) (fault : Option WriterFault) (rest : List (TableCall β)),
      t.Kept codec ∧ reply = (WriterCommand.exec codec a.store (command, fault) t).2 ∧
      (a.run codec events).object = rest.foldl (SqliteTables.call codec a.store)
        ((WriterCommand.tableCalls codec a.store (command, fault) t).foldl
          (SqliteTables.call codec a.store) t) ∧
      ∀ x ∈ rest, ∃ j command' fault' t', i < j ∧
        (a.run codec events).accepted[j]? = some (j, command') ∧
        x ∈ WriterCommand.tableCalls codec a.store (command', fault') t' := by
  obtain ⟨command', fault, before, rest, haccepted, hreply, hseen, hrest⟩ :=
    (linear_run codec a events).exists_answered WriterCommand.exec_states hanswer
  obtain rfl : command' = command :=
    congrArg Prod.snd (Option.some.inj (haccepted.symm.trans hcommand))
  refine ⟨_, fault, rest, SqliteTables.kept_foldl SqliteTables.kept_empty before, hreply, ?_, hrest⟩
  rw [(explains_run events).object, seenCalls, hseen, List.foldl_append, List.foldl_append]

/-- **An answered purge is final**: no reader sees a record of the channel that was received up to
its cutoff, whatever else was accepted before or after. -/
theorem async_purge_final {events : List (WriterEvent β)} {i caller n : ℕ} {c : String} {cutoff : ℤ}
    (hcommand : (a.run codec events).accepted[i]? = some (i, .purgeChannel c cutoff))
    (hanswer : (a.run codec events).answers[i]? = some (caller, .removed (.ok n)))
    {request : QueryRequest} {result : LocalResult}
    (hquery : (a.run codec events).object.db.query codec request = .ok result) :
    ∀ r ∈ result.records, r.channelKey = c → cutoff < r.receivedAtMs := by
  obtain ⟨t, fault, rest, hkept, hreply, hobject, -⟩ := exists_answered hcommand hanswer
  have hpurged : (a.run codec events).object.Purged c cutoff := by
    rw [hobject]
    rw [WriterCommand.tableCalls_purge hreply, List.foldl_cons, List.foldl_nil]
    exact SqliteTables.purged_foldl (SqliteTables.kept_call hkept _)
      (SqliteTables.purged_purge t c cutoff) rest
  obtain ⟨cutoff', hcutoff, hle⟩ := hpurged
  have hlimit : request.limit ≠ 0 := by
    intro hzero
    rw [Db.query, if_pos hzero] at hquery
    cases hquery
  rintro r hr rfl
  obtain ⟨result', hquery', hpasses⟩ := (readsExact_of_kept (kept_run codec a events)).query
    request hlimit
  cases hquery.symm.trans hquery'
  exact lt_of_le_of_lt hle ((hpasses r hr).2.2 cutoff' hcutoff)

/-- A store whose queue has room for one command. -/
def narrowStore : AsyncSqliteBlockStore := ⟨smallStore, 1, 1, Nat.one_pos, Nat.one_pos⟩

/-- A message is sealed, its channel purged, and the message offered again; the last answer is
still to come. -/
def purgingEvents : List (WriterEvent Plain) :=
  [.send (.append [[messageAt "quiet" 1]]), .take none, .commit, .answer,
    .send (.purgeChannel "quiet" 1), .take none, .commit, .answer,
    .send (.append [[messageAt "quiet" 1, messageAt "quiet" 2]]), .take none, .commit]

theorem async_purge_final_sample :
    ∃ result, (narrowStore.run Plain.codec purgingEvents).object.db.query Plain.codec
        ⟨"quiet", none, none, 5⟩ = .ok result ∧ result.records = [messageAt "quiet" 2] ∧
      ∀ r ∈ result.records, r.channelKey = "quiet" → 1 < r.receivedAtMs := by
  have hcommand : (narrowStore.run Plain.codec purgingEvents).accepted[1]? =
      some (1, .purgeChannel "quiet" 1) := rfl
  have hanswer : (narrowStore.run Plain.codec purgingEvents).answers[1]? =
      some (1, .removed (.ok 1)) := rfl
  have hquery : (narrowStore.run Plain.codec purgingEvents).object.db.query Plain.codec
      ⟨"quiet", none, none, 5⟩ = .ok ⟨[messageAt "quiet" 2], some 2, some 2⟩ := rfl
  exact ⟨_, hquery, rfl, async_purge_final hcommand hanswer hquery⟩

/-- **An accepted batch is durable**: once its acceptance was answered, every reader finds it in the
journal, until a later command retires its stream at least up to its last record. -/
theorem async_journal_durable {events : List (WriterEvent β)} {i caller n : ℕ} {s st : String}
    {first last now : ℕ} {checksum : Digest} {payload : β}
    (hcommand : (a.run codec events).accepted[i]? =
      some (i, .acceptJournal s st first last checksum payload now))
    (hanswer : (a.run codec events).answers[i]? = some (caller, .committedThrough (.ok n))) :
    (a.run codec events).object.Holds s st first last checksum ∨
      ∃ j through, i < j ∧ last ≤ through ∧
        (a.run codec events).accepted[j]? = some (j, .retireJournal s st through) := by
  obtain ⟨t, fault, rest, hkept, hreply, hobject, hrest⟩ := exists_answered hcommand hanswer
  have hheld := WriterCommand.holds_of_accept hreply
  rw [hobject]
  rcases SqliteTables.holds_foldl (SqliteTables.kept_foldl hkept _) hheld rest with
    hholds | ⟨through, hmem, hle⟩
  · exact .inl hholds
  · obtain ⟨j, command, fault', t', hlt, haccepted, hmem⟩ := hrest _ hmem
    obtain rfl := WriterCommand.eq_of_mem_tableCalls hmem
    exact .inr ⟨j, through, hlt, hle, haccepted⟩

/-- A batch is accepted, SQLite fails on its retirement, and another stream is retired. -/
def journalEvents : List (WriterEvent Plain) :=
  [.send (.acceptJournal "irc" "main" 1 3 7 (.records []) 100), .take none, .commit, .answer,
    .send (.retireJournal "irc" "main" 2), .take (some ⟨0, "disk I/O error"⟩), .answer,
    .send (.retireJournal "irc" "other" 9), .take none, .commit, .answer]

theorem async_journal_durable_sample :
    (narrowStore.run Plain.codec journalEvents).object.Holds "irc" "main" 1 3 7 ∨
      ∃ j through, 0 < j ∧ 3 ≤ through ∧ (narrowStore.run Plain.codec journalEvents).accepted[j]? =
        some (j, .retireJournal "irc" "main" through) := by
  have hcommand : (narrowStore.run Plain.codec journalEvents).accepted[0]? =
      some (0, .acceptJournal "irc" "main" 1 3 7 (.records []) 100) := rfl
  have hanswer : (narrowStore.run Plain.codec journalEvents).answers[0]? =
      some (0, .committedThrough (.ok 3)) := rfl
  exact async_journal_durable hcommand hanswer

end AsyncSqliteBlockStore

end RecentMessages
