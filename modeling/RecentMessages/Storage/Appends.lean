/-
RecentMessages/Storage/Appends.lean

Runs of `append_channel_batches` on a new store, with nothing in between.

`Filled` says what such a run makes of the records that it accepted: every one of
them is covered, by a sealed copy or by one that retention evicted; nothing else
is sealed; and no event is sealed twice, if the copies of an event agree on its
time.  One call keeps it (`Filled.append`), so every run does
(`filled_appendAll`).

* `appends_summarize`: as long as retention evicts nothing, the store is a
  `Summary` of the records, whatever their order and batches, and appending them
  again changes nothing;
* `retention_keeps_latest`: what retention evicts was laid down first, and
  `retentionFloor` messages stay.  The order is the one in which the blocks were
  laid down and not the one in which the messages were received
  (`retention_drops_newest`): a message that is appended late stays longer.
-/
import RecentMessages.Storage.Fidelity
import RecentMessages.Storage.Retention

namespace RecentMessages

open CanonicalRecord

/-- Copies of an event agree on its time. -/
def AgreeOnTime (records : List CanonicalRecord) : Prop :=
  ∀ r ∈ records, ∀ q ∈ records, r.event = q.event → r.eventAtMs = q.eventAtMs

instance (records : List CanonicalRecord) : Decidable (AgreeOnTime records) :=
  inferInstanceAs
    (Decidable (∀ r ∈ records, ∀ q ∈ records, r.event = q.event → r.eventAtMs = q.eventAtMs))

/-- The batches of one call are each of one channel. -/
def SingleChannel (batches : List (List CanonicalRecord)) : Prop :=
  ∀ records ∈ batches, ∀ r ∈ records, ∀ q ∈ records, r.channelKey = q.channelKey

namespace Db

variable {β : Type} (codec : Codec β) (store : SqliteBlockStore)

/-- The store after a sequence of `append_channel_batches` calls. -/
def appendAll (db : Db β) (calls : List (List (List CanonicalRecord))) : Db β :=
  calls.foldl (fun db batches => db.call codec store (.appendChannelBatches batches)) db

/-- The records of the calls that return `Ok`. -/
def acceptedRecords (db : Db β) : List (List (List CanonicalRecord)) → List CanonicalRecord
  | [] => []
  | batches :: calls =>
    match db.appendChannelBatches codec store batches with
    | .ok db' => batches.flatten ++ acceptedRecords db' calls
    | .error _ => acceptedRecords db calls

/-- The sealed records of one channel. -/
def sealedOf (db : Db β) (channelKey : String) : List CanonicalRecord :=
  (db.sealedRecords codec).filter (·.channelKey = channelKey)

/-- A store that has been given the records of `history`, and no policy. -/
structure Filled (history : List CanonicalRecord) (db : Db β) : Prop where
  regular : db.Regular codec store
  queued : db.Queued store
  unrestricted : empty.SamePolicy db
  source : ∀ r ∈ db.sealedRecords codec, r ∈ history
  covers : ∀ r ∈ history, db.Covers codec r
  evicted : ∀ b ∈ db.evicted, b.Readable codec ∧ ∀ r ∈ b.records codec, r ∈ history
  nodup : AgreeOnTime history → ((db.sealedRecords codec).map event).Nodup

variable {codec store} {db db' : Db β} {history : List CanonicalRecord}

/-! ### Runs -/

theorem filled_empty : (empty : Db β).Filled codec store [] where
  regular := regular_empty
  queued := queued_empty
  unrestricted := SamePolicy.refl _
  source := nofun
  covers := nofun
  evicted := nofun
  nodup := fun _ => List.nodup_nil

/-- A store without a policy admits every record. -/
theorem admits_of_unrestricted (h : empty.SamePolicy db) (r : CanonicalRecord) : db.Admits r := by
  rw [Admits, blocked_congr h, purgeCutoff_congr h]
  refine ⟨rfl, fun cutoff hcutoff => ?_⟩
  cases hcutoff

/-- **A committed call** adds its records to the history. -/
theorem Filled.append (hdb : db.Filled codec store history) {batches : List (List CanonicalRecord)}
    (h : db.appendChannelBatches codec store batches = .ok db') :
    db'.Filled codec store (history ++ batches.flatten) := by
  have hreadable := hdb.regular.readable
  obtain ⟨gone, happ⟩ := appendChannelBatches_eq_ok hreadable h
  have hold : ∀ r ∈ db.sealedRecords codec, r ∈ history ++ batches.flatten :=
    fun r hr => List.mem_append_left _ (hdb.source r hr)
  have hfrom : ∀ r, r ∈ db.sealedRecords codec ∨ r ∈ batches.flatten →
      r ∈ history ++ batches.flatten :=
    fun r hr => hr.elim (hold r) (List.mem_append_right _)
  constructor
  case regular => exact (blocks_appendChannelBatches hdb.regular h).1
  case queued => exact queued_appendChannelBatches hdb.regular hdb.queued h
  case unrestricted => exact hdb.unrestricted.trans happ.policy
  case source =>
    intro r hr
    exact hfrom r ((happ.source r hr).imp_right And.left)
  case covers =>
    intro r hr
    apply appendChannelBatches_covers hreadable h
    rcases List.mem_append.mp hr with hr | hr
    · exact .inl (hdb.covers r hr)
    · exact .inr ⟨hr, admits_of_unrestricted hdb.unrestricted r⟩
  case evicted =>
    intro b hb
    rw [happ.evicted] at hb
    rcases List.mem_append.mp hb with hb | hb
    · obtain ⟨hread, hsource⟩ := hdb.evicted b hb
      exact ⟨hread, fun r hr => List.mem_append_left _ (hsource r hr)⟩
    · exact ⟨happ.gone_readable b hb, fun r hr => hfrom r (happ.gone_source b hb r hr)⟩
  case nodup =>
    intro htimes
    apply happ.nodup
    · exact fun r q hr hq => htimes r (hfrom r hr) q (hfrom q hq)
    · exact hdb.nodup fun r hr q hq =>
        htimes r (List.mem_append_left _ hr) q (List.mem_append_left _ hq)

/-- **A run of calls** adds the records that it accepts. -/
theorem Filled.run (calls : List (List (List CanonicalRecord)))
    (hdb : db.Filled codec store history) :
    (db.appendAll codec store calls).Filled codec store
      (history ++ db.acceptedRecords codec store calls) := by
  induction calls generalizing db history with
  | nil =>
    rw [acceptedRecords, List.append_nil]
    exact hdb
  | cons batches calls ih =>
    rw [appendAll, List.foldl_cons, call, acceptedRecords]
    rcases h : db.appendChannelBatches codec store batches with e | db₁
    · exact ih hdb
    · show (db₁.appendAll codec store calls).Filled codec store
        (history ++ (batches.flatten ++ db₁.acceptedRecords codec store calls))
      rw [← List.append_assoc]
      exact ih (hdb.append h)

theorem filled_appendAll (codec : Codec β) (store : SqliteBlockStore)
    (calls : List (List (List CanonicalRecord))) :
    (empty.appendAll codec store calls).Filled codec store
      (empty.acceptedRecords codec store calls) :=
  filled_empty.run calls

/-! ### Without eviction -/

/-- As long as nothing was evicted, the store is a summary of what it was given. -/
theorem Filled.summary (hdb : db.Filled codec store history) (htimes : AgreeOnTime history)
    (hevicted : db.evicted = []) : Summary (db.sealedRecords codec) history where
  nodup := hdb.nodup htimes
  source := hdb.source
  covers := by
    intro r hr
    obtain ⟨q, hcovered, hq | ⟨b, hb, -⟩⟩ := hdb.covers r hr
    · exact ⟨q, hq, hcovered⟩
    · rw [hevicted] at hb
      cases hb

theorem Filled.known (hdb : db.Filled codec store history) (htimes : AgreeOnTime history)
    (hevicted : db.evicted = []) {r : CanonicalRecord} (hr : r ∈ history) : db.Known codec r := by
  obtain ⟨q, hq, hcovered⟩ := (hdb.summary htimes hevicted).covers r hr
  exact ⟨q, hq, hcovered, htimes q (hdb.source q hq) r hr hcovered.1⟩

/-- **Sealed storage is a set of best copies.**  After any calls of which retention has
evicted nothing: the store has exactly one copy of every event it was given, of the
highest fidelity; every block decodes, so that its checksum and its metadata are
right; any calls that give the same records make the same map from events to
fidelities; giving records again changes nothing; and a call that fails changes
nothing. -/
theorem appends_summarize (codec : Codec β) (store : SqliteBlockStore)
    (calls : List (List (List CanonicalRecord)))
    (htimes : AgreeOnTime (empty.acceptedRecords codec store calls))
    (hevicted : (empty.appendAll codec store calls).evicted = []) :
    Summary ((empty.appendAll codec store calls).sealedRecords codec)
        (empty.acceptedRecords codec store calls) ∧
      (∀ row ∈ (empty.appendAll codec store calls).messageBlocks.rows,
        row.block.decode codec = .ok (row.records codec) ∧
        codec.blake3 row.block.payload = row.block.checksum ∧
        row.block.Describes (row.records codec)) ∧
      (∀ calls', (∀ r, r ∈ empty.acceptedRecords codec store calls ↔
          r ∈ empty.acceptedRecords codec store calls') →
        (empty.appendAll codec store calls').evicted = [] →
        fidelityOf ((empty.appendAll codec store calls).sealedRecords codec) =
          fidelityOf ((empty.appendAll codec store calls').sealedRecords codec)) ∧
      (∀ batches, SingleChannel batches →
        (∀ r ∈ batches.flatten, r ∈ empty.acceptedRecords codec store calls) →
        (empty.appendAll codec store calls).appendChannelBatches codec store batches =
          .ok (empty.appendAll codec store calls)) ∧
      ∀ batches e,
        (empty.appendAll codec store calls).appendChannelBatches codec store batches = .error e →
        empty.appendAll codec store (calls ++ [batches]) = empty.appendAll codec store calls := by
  have hfilled := filled_appendAll codec store calls
  have hsummary := hfilled.summary htimes hevicted
  refine ⟨hsummary, fun row hrow => ?_, fun calls' hsame hevicted' => ?_,
    fun batches hsingle hbatches => ?_, fun batches e herror => ?_⟩
  -- every block decodes, which checks the rest
  · have hread := hfilled.regular.readable row hrow
    obtain ⟨-, hchecksum, hdescribes⟩ := EncodedBlock.decode_eq_ok hread
    exact ⟨hread, hchecksum, hdescribes⟩
  -- other calls with the same records
  · have htimes' : AgreeOnTime (empty.acceptedRecords codec store calls') :=
      fun r hr q hq => htimes r ((hsame r).mpr hr) q ((hsame q).mpr hq)
    have hsummary' := (filled_appendAll codec store calls').summary htimes' hevicted'
    exact hsummary.fidelityOf_eq hsummary' hsame
  -- the same records once more
  · exact appendChannelBatches_replay hfilled.regular.accounted hfilled.regular.readable
      (hfilled.nodup htimes) hsingle fun r hr => hfilled.known htimes hevicted (hbatches r hr)
  -- a failed call is rolled back
  · rw [appendAll, List.foldl_append]
    show (empty.appendAll codec store calls).call codec store (.appendChannelBatches batches) = _
    rw [call, herror]

/-- Two channels in one call, and a better copy of a sealed message in the next. -/
def upgradingCalls : List (List (List CanonicalRecord)) :=
  [[[{ messageAt "quiet" 1 with fidelity := .reconstructed }, messageAt "quiet" 2],
    [messageAt "busy" 1]], [[messageAt "quiet" 1]]]

theorem appends_summarize_sample :
    Summary ((empty.appendAll Plain.codec smallStore upgradingCalls).sealedRecords Plain.codec)
      (empty.acceptedRecords Plain.codec smallStore upgradingCalls) :=
  (appends_summarize Plain.codec smallStore upgradingCalls (by decide +kernel)
    (by decide +kernel)).1

/-! ### With eviction -/

/-- A channel's row counts its sealed records. -/
theorem held_eq_length (hdb : db.Readable codec) (channelKey : String) :
    db.held channelKey = (db.sealedOf codec channelKey).length := by
  have hrows : ∀ rows : List (MessageBlock β), (∀ row ∈ rows, row.Readable codec) →
      (rows.map fun row => if row.channelKey = channelKey then row.messageCount else 0).sum =
        ((rows.flatMap (·.records codec)).filter (·.channelKey = channelKey)).length := by
    intro rows
    induction rows with
    | nil => exact fun _ => rfl
    | cons row rows ih =>
      intro hread
      have hrow := hread row List.mem_cons_self
      rw [List.map_cons, List.sum_cons, ih fun q hq => hread q (List.mem_cons_of_mem row hq),
        List.flatMap_cons, List.filter_append, List.length_append, Nat.cast_add]
      congr 1
      by_cases hc : row.channelKey = channelKey
      · have hall : (row.records codec).filter (·.channelKey = channelKey) = row.records codec :=
          List.filter_eq_self.mpr fun r hr => decide_eq_true ((hrow.channel hr).trans hc)
        rw [if_pos hc, hall, hrow.count]
      · have hnone : (row.records codec).filter (·.channelKey = channelKey) = [] :=
          List.filter_eq_nil_iff.mpr fun r hr heq =>
            hc ((hrow.channel hr).symm.trans (of_decide_eq_true heq))
        rw [if_neg hc, hnone]
        rfl
  exact hrows db.messageBlocks.rows hdb

/-- **Retention keeps what was laid down last.**  After any calls every event that a
channel was given is sealed, or a copy of it was in an evicted block; an evicted
block was laid down before every block that its channel still has, and
`retentionFloor` messages, of distinct events if the copies of an event agree on its
time, are left. -/
theorem retention_keeps_latest (codec : Codec β) (store : SqliteBlockStore)
    (calls : List (List (List CanonicalRecord))) :
    (∀ r ∈ empty.acceptedRecords codec store calls,
      (empty.appendAll codec store calls).Covers codec r) ∧
    (∀ b ∈ (empty.appendAll codec store calls).evicted,
      (∀ row ∈ (empty.appendAll codec store calls).messageBlocks.rows,
        row.channelKey = b.channelKey → b.blockSequence < row.blockSequence) ∧
      retentionFloor store ≤
        ((empty.appendAll codec store calls).sealedOf codec b.channelKey).length) ∧
    (AgreeOnTime (empty.acceptedRecords codec store calls) → ∀ channelKey,
      (((empty.appendAll codec store calls).sealedOf codec channelKey).map event).Nodup) := by
  have hfilled := filled_appendAll codec store calls
  refine ⟨hfilled.covers, fun b hb => ?_, fun htimes channelKey => ?_⟩
  · obtain ⟨⟨row, hrow, hkey, -, hfloor⟩, hlt⟩ := hfilled.queued b hb
    refine ⟨hlt, ?_⟩
    calc retentionFloor store ≤ row.retainedMessages := hfloor
      _ = (empty.appendAll codec store calls).held b.channelKey := by
        rw [← hkey]
        exact hfilled.regular.accounted.retained row hrow
      _ = _ := held_eq_length hfilled.regular.readable b.channelKey
  · exact (hfilled.nodup htimes).sublist (List.filter_sublist.map event)

/-- Two live messages, and an older one that a peer gives later. -/
def backfillCalls : List (List (List CanonicalRecord)) :=
  [[[messageAt "quiet" 10]], [[messageAt "quiet" 11]], [[messageAt "quiet" 1]]]

/-- **A back-fill drops a newer message**: one of the two newest that the channel was
given is not sealed any more, and an older one is. -/
theorem retention_drops_newest :
    takeNewest smallStore.targetMessagesPerChannel (sortByKey receiptOrder
        (empty.acceptedRecords Plain.codec smallStore backfillCalls)) =
      [messageAt "quiet" 10, messageAt "quiet" 11] ∧
    (empty.appendAll Plain.codec smallStore backfillCalls).sealedRecords Plain.codec =
      [messageAt "quiet" 11, messageAt "quiet" 1] := by
  decide +kernel

end Db

end RecentMessages
