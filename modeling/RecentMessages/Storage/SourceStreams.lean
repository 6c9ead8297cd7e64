/-
RecentMessages/Storage/SourceStreams.lean

From the two batchers to the acknowledgement of their batches.

`RawBatcher` (`storage/raw_firehose.rs`) numbers its records from 0 and notes the first number
of a batch, `DirectIrcBatcher` (`storage/direct_irc.rs`) numbers from 1 and computes both ends
when it sends.  Below the limits of their integers both are the batcher of
`Library/Batching.lean` (`batches_raw`, `batches_direct`), so their batches tile the numbers of
a stream.

A batch whose first number follows what a stream has committed moves the watermark to its own
last number, whatever checkpoints have retired and whatever other streams have sent in
between (`Ready.accept`).  `answers` are the answers of the journal to the batches that a
process delivers; a call that fails ends the process, and with it its streams.
-/
import RecentMessages.Library.Batching
import RecentMessages.Storage.CatchUp
import RecentMessages.Storage.DirectIrc
import RecentMessages.Storage.EventIdentity
import RecentMessages.Storage.Runtime

namespace RecentMessages

open Watermark

/-! ### The batcher of a raw firehose -/

/-- `RawBatcher`, without the placement, which the lines pass before they are pushed. -/
structure RawBatcher where
  sourceId : String
  streamId : String
  batchMessages : ℕ
  nextSequence : ℕ
  firstSequence : ℕ
  records : List CanonicalRecord
  deriving DecidableEq, Repr

namespace RawBatcher

/-- `RawBatcher::new`. -/
def new (sourceId streamId : String) (batchMessages : ℕ) : RawBatcher :=
  ⟨sourceId, streamId, batchMessages, 0, 0, []⟩

/-- `take_batch`. -/
def takeBatch (b : RawBatcher) : RawSourceBatch × RawBatcher :=
  (⟨b.sourceId, b.streamId, b.firstSequence, b.nextSequence - 1, b.records⟩,
    { b with records := [] })

/-- `flush`. -/
def flush (b : RawBatcher) : Option RawSourceBatch × RawBatcher :=
  if b.records = [] then (none, b) else (some b.takeBatch.1, b.takeBatch.2)

/-- `push`. -/
def push (b : RawBatcher) (record : CanonicalRecord) : Option RawSourceBatch × RawBatcher :=
  let firstSequence := if b.records = [] then b.nextSequence else b.firstSequence
  let b := { b with
    firstSequence
    records := b.records ++ [record]
    nextSequence := satAddU b.nextSequence 1 }
  if b.batchMessages ≤ b.records.length then (some b.takeBatch.1, b.takeBatch.2) else (none, b)

/-- One call; a raw firehose skips nothing that it has pushed. -/
def call (b : RawBatcher) : BatchingCall CanonicalRecord → Option RawSourceBatch × RawBatcher
  | .push record => b.push record
  | .flush => b.flush
  | .skip => (none, b)

end RawBatcher

/-- A call on the batcher of the node's own connection. -/
inductive DirectIrcCall
  | pushRaw (raw : String) (receivedAtMs : ℤ)
  | flush
  deriving DecidableEq, Repr

/-- One call; a line that is rejected changes nothing. -/
def DirectIrcBatcher.call (irc : IrcCodec) (b : DirectIrcBatcher) :
    DirectIrcCall → Option RawSourceBatch × DirectIrcBatcher
  | .pushRaw raw receivedAtMs =>
    match b.pushRaw irc raw receivedAtMs with
    | .ok result => result
    | .error _ => (none, b)
  | .flush => b.flush

/-- What a call brings in. -/
def DirectIrcCall.toBatching (irc : IrcCodec) (sourceId : String) :
    DirectIrcCall → BatchingCall CanonicalRecord
  | .pushRaw raw receivedAtMs =>
    match canonicalizeRawIrcFrom irc raw receivedAtMs sourceId .directIrc with
    | .ok record => .push record
    | .error _ => .skip
  | .flush => .flush

/-! ### Both are batchers -/

/-- A chunk as a batch of a stream. -/
def chunkBatch (sourceId streamId : String) (chunk : ℕ × List CanonicalRecord) : RawSourceBatch :=
  ⟨sourceId, streamId, chunk.1, chunk.1 + chunk.2.length - 1, chunk.2⟩

/-- The batches of a run of pushes and flushes, and the batcher after it. -/
def RawBatcher.run (b : RawBatcher) (calls : List (BatchingCall CanonicalRecord)) :
    List RawSourceBatch × RawBatcher := collect RawBatcher.call b calls

/-- The batches of a run of lines and flushes, and the batcher after it. -/
def DirectIrcBatcher.run (irc : IrcCodec) (b : DirectIrcBatcher) (calls : List DirectIrcCall) :
    List RawSourceBatch × DirectIrcBatcher := collect (DirectIrcBatcher.call irc) b calls

section Batchers

variable {sourceId streamId : String} {n : ℕ}

/-- A raw batcher holds what a batcher holds, as long as its numbers do not overflow. -/
structure RawBatcher.Holds (sourceId streamId : String) (n : ℕ)
    (calls : List (BatchingCall CanonicalRecord)) (raw : RawBatcher)
    (b : Batching CanonicalRecord) : Prop where
  source : raw.sourceId = sourceId
  stream : raw.streamId = streamId
  size : raw.batchMessages = n
  records : raw.records = b.held
  next : raw.nextSequence = b.start + b.held.length
  first : b.held ≠ [] → raw.firstSequence = b.start
  bound : raw.nextSequence + (calls.filterMap BatchingCall.item).length < 2 ^ 63

theorem satAddU_of_le {x y : ℕ} (h : x + y ≤ 2 ^ 63) : satAddU x y = x + y :=
  satAddU_eq (h.trans (by decide))

theorem RawBatcher.Holds.call {calls : List (BatchingCall CanonicalRecord)}
    {c : BatchingCall CanonicalRecord} {raw : RawBatcher} {b : Batching CanonicalRecord}
    (h : Holds sourceId streamId n (c :: calls) raw b) :
    (raw.call c).1 = (b.call n c).1.map (chunkBatch sourceId streamId) ∧
      Holds sourceId streamId n calls (raw.call c).2 (b.call n c).2 := by
  obtain ⟨rfl, rfl, rfl, hrecords, hnext, hfirst, hbound⟩ := h
  cases c with
  | push record =>
    -- the numbers do not overflow, so the saturating sum is a sum
    simp only [List.filterMap_cons, BatchingCall.item, List.length_cons] at hbound
    have hsat : satAddU raw.nextSequence 1 = raw.nextSequence + 1 := satAddU_of_le (by omega)
    -- the first record of a batch gives it its first number
    have hstart : (if b.held = [] then raw.nextSequence else raw.firstSequence) = b.start := by
      split
      · rename_i hempty
        rw [hnext, hempty]
        rfl
      · rename_i hne
        exact hfirst hne
    have hroom : raw.nextSequence + 1 + (calls.filterMap BatchingCall.item).length < 2 ^ 63 := by
      omega
    simp only [RawBatcher.call, push, Batching.call, hsat, hstart, hrecords,
      List.length_append, List.length_singleton]
    split
    -- the batch is full and goes out
    · rename_i hfull
      have hne : b.held ++ [record] ≠ [] := by simp
      simp only [Batching.flush, if_neg hne, takeBatch]
      refine ⟨?_, rfl, rfl, rfl, rfl, ?_, fun h => absurd rfl h, hroom⟩
      · simp [chunkBatch, hnext]
      · simp [hnext]
        omega
    -- it is held back
    · refine ⟨rfl, rfl, rfl, rfl, rfl, ?_, fun _ => rfl, hroom⟩
      simp [hnext]
      omega
  | flush =>
    -- an empty batcher has nothing to flush
    simp only [RawBatcher.call, flush, Batching.call, Batching.flush, hrecords]
    split
    · exact ⟨rfl, rfl, rfl, rfl, hrecords, hnext, hfirst, hbound⟩
    · rename_i hne
      simp only [takeBatch]
      refine ⟨?_, rfl, rfl, rfl, rfl, by simp [hnext], fun h => absurd rfl h, hbound⟩
      simp [chunkBatch, hnext, hfirst hne, hrecords]
  | skip => exact ⟨rfl, rfl, rfl, rfl, hrecords, hnext, hfirst, hbound⟩

/-- **The batches of a raw firehose** are chunks that are numbered from 0. -/
theorem batches_raw (calls : List (BatchingCall CanonicalRecord))
    (hbound : (calls.filterMap BatchingCall.item).length < 2 ^ 63) :
    ((RawBatcher.new sourceId streamId n).run calls).1 =
        (collect (Batching.call n) ⟨0, []⟩ calls).1.map (chunkBatch sourceId streamId) ∧
      ((RawBatcher.new sourceId streamId n).run calls).2.records =
        (collect (Batching.call n) ⟨0, []⟩ calls).2.held := by
  have hnew : RawBatcher.Holds sourceId streamId n calls (.new sourceId streamId n) ⟨0, []⟩ :=
    ⟨rfl, rfl, rfl, rfl, rfl, fun _ => rfl, by simpa [RawBatcher.new] using hbound⟩
  obtain ⟨hbatches, hlast⟩ := collect_related (RawBatcher.Holds sourceId streamId n)
    (chunkBatch sourceId streamId) (fun _ _ _ _ h => h.call) hnew
  exact ⟨hbatches, hlast.records⟩

/-- The batcher of the connection holds what a batcher holds. -/
structure DirectIrcBatcher.Holds (irc : IrcCodec) (sourceId streamId : String) (n : ℕ)
    (calls : List DirectIrcCall) (direct : DirectIrcBatcher) (b : Batching CanonicalRecord) :
    Prop where
  source : direct.sourceId = sourceId
  stream : direct.streamId = streamId
  size : direct.batchMessages = n
  records : direct.records = b.held
  next : direct.nextSequence = b.start
  bound : b.start + b.held.length +
    (calls.filterMap fun c => (c.toBatching irc sourceId).item).length ≤ 2 ^ 63

variable {irc : IrcCodec}

theorem DirectIrcBatcher.Holds.flush {calls : List DirectIrcCall} {direct : DirectIrcBatcher}
    {b : Batching CanonicalRecord} (h : Holds irc sourceId streamId n calls direct b) :
    direct.flush.1 = b.flush.1.map (chunkBatch sourceId streamId) ∧
      Holds irc sourceId streamId n calls direct.flush.2 b.flush.2 := by
  obtain ⟨rfl, rfl, rfl, hrecords, hnext, hbound⟩ := h
  simp only [DirectIrcBatcher.flush, Batching.flush, hrecords]
  split
  · exact ⟨rfl, rfl, rfl, rfl, hrecords, hnext, hbound⟩
  · rename_i hne
    have hpos := List.length_pos_iff.mpr hne
    have hlast : satAddU b.start (b.held.length - 1) = b.start + b.held.length - 1 := by
      rw [satAddU_of_le (by omega)]
      omega
    have hafter : satAddU (b.start + b.held.length - 1) 1 = b.start + b.held.length := by
      rw [satAddU_of_le (by omega)]
      omega
    refine ⟨?_, rfl, rfl, rfl, rfl, ?_, hbound⟩
    · simp [chunkBatch, hnext, hlast]
    · simp [hnext, hlast, hafter]

theorem DirectIrcBatcher.Holds.call {calls : List DirectIrcCall} {c : DirectIrcCall}
    {direct : DirectIrcBatcher} {b : Batching CanonicalRecord}
    (h : Holds irc sourceId streamId n (c :: calls) direct b) :
    (direct.call irc c).1 =
        (b.call n (c.toBatching irc sourceId)).1.map (chunkBatch sourceId streamId) ∧
      Holds irc sourceId streamId n calls (direct.call irc c).2
        (b.call n (c.toBatching irc sourceId)).2 := by
  obtain ⟨rfl, rfl, rfl, hrecords, hnext, hbound⟩ := h
  cases c with
  | flush => exact Holds.flush ⟨rfl, rfl, rfl, hrecords, hnext, hbound⟩
  | pushRaw raw receivedAtMs =>
    rcases hline : canonicalizeRawIrcFrom irc raw receivedAtMs direct.sourceId .directIrc with
      e | record
    · -- a rejected line takes no number
      have hskip : (DirectIrcCall.pushRaw raw receivedAtMs).toBatching irc direct.sourceId =
          .skip := by
        simp [DirectIrcCall.toBatching, hline]
      simp only [List.filterMap_cons, hskip, BatchingCall.item] at hbound
      simp only [DirectIrcBatcher.call, pushRaw, hskip, hline, bind, Except.bind, Batching.call]
      exact ⟨rfl, rfl, rfl, rfl, hrecords, hnext, hbound⟩
    · have hpush : (DirectIrcCall.pushRaw raw receivedAtMs).toBatching irc direct.sourceId =
          .push record := by
        simp [DirectIrcCall.toBatching, hline]
      simp only [List.filterMap_cons, hpush, BatchingCall.item, List.length_cons] at hbound
      have hholds : Holds irc direct.sourceId direct.streamId direct.batchMessages calls
          { direct with records := direct.records ++ [record] } ⟨b.start, b.held ++ [record]⟩ := by
        refine ⟨rfl, rfl, rfl, by simp [hrecords], hnext, ?_⟩
        simp only [List.length_append, List.length_singleton, BatchingCall.item]
        omega
      simp only [DirectIrcBatcher.call, pushRaw, hpush, hline, bind, Except.bind, pure,
        Except.pure, Batching.call]
      have hlength : (direct.records ++ [record]).length = b.held.length + 1 := by simp [hrecords]
      rw [hlength]
      split
      · exact hholds.flush
      · exact ⟨rfl, hholds⟩

theorem collect_map {σ ι ι' ο : Type*} (step : σ → ι → Option ο × σ) (f : ι' → ι) (s : σ)
    (inputs : List ι') :
    collect (fun s i => step s (f i)) s inputs = collect step s (inputs.map f) := by
  induction inputs generalizing s with
  | nil => rfl
  | cons i inputs ih => rw [collect, List.map_cons, collect, ih]

/-- The records that a batcher takes from a list of calls. -/
def takenRecords (irc : IrcCodec) (sourceId : String) (calls : List DirectIrcCall) :
    List CanonicalRecord :=
  (calls.map (DirectIrcCall.toBatching irc sourceId)).filterMap BatchingCall.item

/-- **The batches of the connection** are chunks that are numbered from 1. -/
theorem batches_direct {direct : DirectIrcBatcher}
    (hnew : DirectIrcBatcher.new sourceId streamId n = .ok direct) (calls : List DirectIrcCall)
    (hbound : (takenRecords irc sourceId calls).length < 2 ^ 63) :
    (direct.run irc calls).1 =
        (collect (Batching.call n) ⟨1, []⟩
          (calls.map (DirectIrcCall.toBatching irc sourceId))).1.map
            (chunkBatch sourceId streamId) ∧
      (direct.run irc calls).2.records =
        (collect (Batching.call n) ⟨1, []⟩
          (calls.map (DirectIrcCall.toBatching irc sourceId))).2.held := by
  unfold DirectIrcBatcher.new at hnew
  split at hnew
  · cases hnew
  cases hnew
  have hholds : DirectIrcBatcher.Holds irc sourceId streamId n calls
      ⟨sourceId, streamId, n, 1, []⟩ ⟨1, []⟩ := by
    refine ⟨rfl, rfl, rfl, rfl, rfl, ?_⟩
    rw [takenRecords, List.filterMap_map] at hbound
    have hcomp : (BatchingCall.item ∘ DirectIrcCall.toBatching irc sourceId) =
        fun c => (c.toBatching irc sourceId).item := rfl
    rw [hcomp] at hbound
    simp only [List.length_nil]
    omega
  obtain ⟨hbatches, hlast⟩ := collect_related (DirectIrcBatcher.Holds irc sourceId streamId n)
    (chunkBatch sourceId streamId) (fun _ _ _ _ h => h.call) hholds
  have hmap := collect_map (Batching.call n) (DirectIrcCall.toBatching irc sourceId) ⟨1, []⟩ calls
  rw [hmap] at hbatches hlast
  exact ⟨hbatches, hlast.records⟩

/-! ### What a batcher sends -/

/-- Sequence ranges that follow on one another, from `first` on. -/
def SequenceTiles : ℕ → List RawSourceBatch → Prop
  | _, [] => True
  | first, batch :: batches =>
    batch.firstSequence = first ∧ first ≤ batch.lastSequence ∧
      SequenceTiles (batch.lastSequence + 1) batches

/-- What holds of the batches of a stream whose batcher has taken `accepted`. -/
structure Emitted (sourceId streamId : String) (n first : ℕ) (accepted : List CanonicalRecord)
    (batches : List RawSourceBatch) (rest : List CanonicalRecord) : Prop where
  sizes : ∀ batch ∈ batches, batch.records ≠ [] ∧ batch.records.length ≤ n
  tiles : SequenceTiles first batches
  records : batches.flatMap (·.records) ++ rest = accepted
  valid : ∀ batch ∈ batches, batch.Valid
  stream : ∀ batch ∈ batches, batch.sourceId = sourceId ∧ batch.streamId = streamId

theorem sequenceTiles_chunks {first stop : ℕ} {chunks : List (ℕ × List CanonicalRecord)}
    (h : Batching.Tiles first chunks stop) (hne : ∀ c ∈ chunks, c.2 ≠ []) :
    SequenceTiles first (chunks.map (chunkBatch sourceId streamId)) := by
  induction chunks generalizing first with
  | nil => trivial
  | cons c chunks ih =>
    obtain ⟨rfl, hrest⟩ := h
    have hpos := List.length_pos_iff.mpr (hne c List.mem_cons_self)
    have hnext : c.1 + c.2.length - 1 + 1 = c.1 + c.2.length := by omega
    refine ⟨rfl, ?_, ?_⟩
    · show c.1 ≤ c.1 + c.2.length - 1
      omega
    · show SequenceTiles (c.1 + c.2.length - 1 + 1) _
      rw [hnext]
      exact ih hrest fun d hd => hne d (List.mem_cons_of_mem _ hd)

theorem valid_chunkBatch {c : ℕ × List CanonicalRecord} (hne : c.2 ≠ [])
    (hbound : c.2.length < 2 ^ 63) : (chunkBatch sourceId streamId c).Valid := by
  have hpos := List.length_pos_iff.mpr hne
  refine ⟨?_, ?_, hne, ?_⟩
  · show c.1 ≤ c.1 + c.2.length - 1
    omega
  · show c.1 + c.2.length - 1 - c.1 < 2 ^ 64 - 1
    omega
  · show c.2.length = c.1 + c.2.length - 1 - c.1 + 1
    omega

/-- The chunks of a batcher, as batches of a stream. -/
theorem emitted_chunks {first : ℕ} {accepted : List CanonicalRecord}
    {chunks : List (ℕ × List CanonicalRecord)} {b : Batching CanonicalRecord}
    (h : Batching.Batched n first accepted chunks b) (hbound : accepted.length < 2 ^ 63) :
    Emitted sourceId streamId n first accepted (chunks.map (chunkBatch sourceId streamId))
      b.held := by
  have hlength : ∀ c ∈ chunks, c.2.length < 2 ^ 63 := by
    intro c hc
    have hle : c.2.length ≤ (chunks.flatMap Prod.snd).length :=
      (List.sublist_flatten_of_mem (List.mem_map_of_mem hc)).length_le
    have hitems := congrArg List.length h.items
    rw [List.length_append] at hitems
    omega
  constructor
  · intro batch hbatch
    obtain ⟨c, hc, rfl⟩ := List.mem_map.mp hbatch
    exact h.sizes c hc
  · exact sequenceTiles_chunks h.tiles fun c hc => (h.sizes c hc).1
  · rw [List.flatMap_map]
    exact h.items
  · intro batch hbatch
    obtain ⟨c, hc, rfl⟩ := List.mem_map.mp hbatch
    exact valid_chunkBatch (h.sizes c hc).1 (hlength c hc)
  · intro batch hbatch
    obtain ⟨c, -, rfl⟩ := List.mem_map.mp hbatch
    exact ⟨rfl, rfl⟩

theorem emitted_raw (hn : 1 ≤ n) (calls : List (BatchingCall CanonicalRecord))
    (hbound : (calls.filterMap BatchingCall.item).length < 2 ^ 63) :
    Emitted sourceId streamId n 0 (calls.filterMap BatchingCall.item)
      ((RawBatcher.new sourceId streamId n).run calls).1
      ((RawBatcher.new sourceId streamId n).run calls).2.records := by
  rw [(batches_raw calls hbound).1, (batches_raw calls hbound).2]
  have hbatched := Batching.batched_collect (b := ⟨0, []⟩) calls (Nat.lt_of_lt_of_le Nat.one_pos hn)
  exact emitted_chunks hbatched hbound

theorem emitted_direct {direct : DirectIrcBatcher}
    (hnew : DirectIrcBatcher.new sourceId streamId n = .ok direct) (calls : List DirectIrcCall)
    (hbound : (takenRecords irc sourceId calls).length < 2 ^ 63) :
    Emitted sourceId streamId n 1 (takenRecords irc sourceId calls) (direct.run irc calls).1
      (direct.run irc calls).2.records := by
  obtain ⟨hbatches, hrest⟩ := batches_direct hnew calls hbound
  have hn : 0 < n := by
    unfold DirectIrcBatcher.new at hnew
    split at hnew
    · cases hnew
    · rename_i hne
      simp only [not_or] at hne
      omega
  rw [hbatches, hrest]
  have hbatched := Batching.batched_collect (b := ⟨1, []⟩)
    (calls.map (DirectIrcCall.toBatching irc sourceId)) hn
  exact emitted_chunks hbatched hbound

end Batchers

/-! ### A stream that is sent in order -/

namespace Journal

variable {β : Type} {j j' : Journal β} {sourceId streamId : String} {first last now next : ℕ}
  {checksum : Digest} {payload : β} {initial committed : ℤ}

/-- Everything of the stream below `next` is committed, and nothing has come from there on. -/
structure Ready (j : Journal β) (sourceId streamId : String) (next : ℕ) : Prop where
  rows : ∀ row ∈ j.ingestJournal.rows, row.sourceId = sourceId → row.streamId = streamId →
    row.lastSequence < next
  offset : ∀ c ∈ j.offset sourceId streamId, c = (next : ℤ) - 1

theorem ready_empty : (empty : Journal β).Ready sourceId streamId next where
  rows := by rintro row ⟨⟩
  offset := by rintro c ⟨⟩

/-- **The next batch is acknowledged in full**: the watermark moves to its end and no further. -/
theorem Ready.accept (h : j.Ready sourceId streamId first)
    (hacc : Accepted j j' sourceId streamId first last checksum payload now initial committed) :
    committed = last ∧ j'.Ready sourceId streamId (last + 1) := by
  have hle := hacc.first_le
  have hmax := hacc.last_le
  have hinitial : initial = (first : ℤ) - 1 := by
    rw [hacc.initial_eq]
    rcases e : j.offset sourceId streamId with - | c
    · rw [Option.getD_none, satSub_eq] <;> simp only [i64Min, i64Max] at hmax ⊢ <;> omega
    · rw [Option.getD_some]
      exact h.offset c e
  have hrows : ∀ row ∈ j'.ingestJournal.rows, row.sourceId = sourceId →
      row.streamId = streamId → row.lastSequence < ((last + 1 : ℕ) : ℤ) := by
    intro row hrow hsource hstream
    rcases hacc.added row hrow with hold | rfl
    · have hlt := h.rows row hold hsource hstream
      omega
    · show (last : ℤ) < ((last + 1 : ℕ) : ℤ)
      omega
  -- a row that continues a watermark ends at the new last number at most
  have hbounded : ∀ w v, next j'.ingestJournal sourceId streamId w = some v → v ≤ last := by
    intro w v hv
    obtain ⟨row, hrow, hkey, rfl⟩ := next_eq_some.mp hv
    simp only [JournalRow.key, Prod.mk.injEq] at hkey
    have hlt := hrows row hrow hkey.1 hkey.2.1
    omega
  have hfirst : next j'.ingestJournal sourceId streamId initial = some (last : ℤ) := by
    obtain ⟨row, hrow, hkey, hlast, -⟩ := hacc.held
    refine next_eq_some.mpr ⟨row, hrow, ?_, hlast⟩
    have hsat : satAdd initial 1 = first := by
      rw [hinitial, satAdd_eq] <;> simp only [i64Min, i64Max] at hmax ⊢ <;> omega
    rw [hkey, hsat]
  have hcommitted : committed = last := by
    rcases hacc.reaches.cases_head with heq | ⟨v, hstep, hrest⟩
    · -- the batch itself continues the watermark
      have hstuck := hacc.stuck
      rw [← heq, hfirst] at hstuck
      cases hstuck
    · obtain rfl := Option.some.inj (hstep.1.symm.trans hfirst)
      rcases hrest.cases_head with heq | ⟨v, hmore, -⟩
      · exact heq.symm
      · exact absurd hmore.2 (not_lt.mpr (hbounded _ _ hmore.1))
  refine ⟨hcommitted, hrows, ?_⟩
  intro c hc
  obtain rfl := Option.some.inj (hacc.offset_self.symm.trans hc)
  rw [hcommitted]
  omega

/-- Batches of other streams change nothing. -/
theorem Ready.accept_ne {s t : String} (h : j.Ready sourceId streamId next)
    (hne : ¬ (s = sourceId ∧ t = streamId))
    (hacc : Accepted j j' s t first last checksum payload now initial committed) :
    j'.Ready sourceId streamId next := by
  refine ⟨fun row hrow hsource hstream => ?_, fun c hc => ?_⟩
  · rcases hacc.added row hrow with hold | rfl
    · exact h.rows row hold hsource hstream
    · exact absurd ⟨hsource, hstream⟩ hne
  · have hst : (sourceId, streamId) ≠ (s, t) := by
      intro heq
      obtain ⟨rfl, rfl⟩ := Prod.mk.inj heq
      exact hne ⟨rfl, rfl⟩
    rw [hacc.offset_ne _ _ hst] at hc
    exact h.offset c hc

/-- A retirement takes rows away and leaves the watermarks. -/
theorem Ready.retire (h : j.Ready sourceId streamId next)
    (hoffsets : j'.sourceOffsets = j.sourceOffsets)
    (hrows : ∀ row ∈ j'.ingestJournal.rows, row ∈ j.ingestJournal.rows) :
    j'.Ready sourceId streamId next := by
  refine ⟨fun row hrow => h.rows row (hrows row hrow), fun c hc => ?_⟩
  rw [Journal.offset, hoffsets] at hc
  exact h.offset c hc

end Journal

namespace Ingest

variable {β : Type}

/-- The answer of `accept_source_batch`, unless storing the records fails later. -/
def acceptSourceBatch (cfg : Settings β) (s : Ingest β) (batch : RawSourceBatch) (nowMs : ℕ) :
    Except IngestError ℕ :=
  if batch.Valid then do
    let payload ← encodeJournal cfg.codec batch.records
    (s.db.journal.acceptJournalBatch batch.sourceId batch.streamId batch.firstSequence
      batch.lastSequence (cfg.codec.blake3 payload) payload nowMs).1.mapError .store
  else
    .error .invalidSourceBatch

/-- The batch of the stream that an action delivers, with its answer. -/
def delivery (cfg : Settings β) (sourceId streamId : String) (s : Ingest β) :
    IngestAction → Option (RawSourceBatch × Except IngestError ℕ)
  | .accept batch nowMs =>
    match s.task with
    | .idle =>
      if batch.sourceId = sourceId ∧ batch.streamId = streamId then
        some (batch, s.acceptSourceBatch cfg batch nowMs)
      else
        none
    | _ => none
  | _ => none

/-- The batches of the stream that a run delivers, with their answers. -/
def deliveries (cfg : Settings β) (sourceId streamId : String) :
    Ingest β → List IngestAction → List (RawSourceBatch × Except IngestError ℕ)
  | _, [] => []
  | s, a :: actions =>
    (s.delivery cfg sourceId streamId a).toList ++
      deliveries cfg sourceId streamId (s.apply cfg a) actions

/-- Batches are delivered in their order: a batch is next when the one before it has been
accepted. -/
def InOrder : List RawSourceBatch → List (RawSourceBatch × Except IngestError ℕ) → Prop
  | _, [] => True
  | batches, (batch, .ok _) :: rest => batches.head? = some batch ∧ InOrder batches.tail rest
  | batches, (batch, .error _) :: rest => batches.head? = some batch ∧ InOrder batches rest

variable {cfg : Settings β} {s : Ingest β} {a : IngestAction} {batch : RawSourceBatch}
  {sourceId streamId : String} {next : ℕ}

theorem delivery_eq_some {answer : Except IngestError ℕ} :
    s.delivery cfg sourceId streamId a = some (batch, answer) ↔
      ∃ nowMs, a = .accept batch nowMs ∧ s.task = .idle ∧
        (batch.sourceId = sourceId ∧ batch.streamId = streamId) ∧
        s.acceptSourceBatch cfg batch nowMs = answer := by
  constructor
  · intro h
    cases a with
    | accept batch nowMs =>
      simp only [delivery] at h
      split at h
      · rename_i hidle
        split at h
        · rename_i hstream
          cases h
          exact ⟨nowMs, rfl, hidle, hstream, rfl⟩
        · cases h
      · cases h
    | _ => cases h
  · rintro ⟨nowMs, rfl, hidle, hstream, rfl⟩
    simp only [delivery, hidle, hstream, and_self, if_true]

/-- An accepted batch. -/
theorem delivery_ok {through : ℕ} (hs : s.Intact cfg.codec)
    (h : s.delivery cfg sourceId streamId a = some (batch, .ok through)) :
    ∃ checksum payload nowMs initial committed,
      Journal.Accepted s.db.journal (s.apply cfg a).db.journal sourceId streamId
        batch.firstSequence batch.lastSequence checksum payload nowMs initial committed ∧
      through = committed.toNat := by
  obtain ⟨nowMs, rfl, hidle, ⟨rfl, rfl⟩, hanswer⟩ := delivery_eq_some.mp h
  unfold acceptSourceBatch at hanswer
  split at hanswer
  · obtain ⟨payload, hencode, hanswer⟩ := Except.bind_eq_ok.mp hanswer
    have happly : s.apply cfg (.accept batch nowMs) = s.accept cfg batch nowMs := by
      rw [apply, step, hidle]
      rfl
    rw [happly, accept, hencode]
    rcases JournalHistory.accept_cases (h := ⟨s.db.journal, []⟩) hs.settled batch.sourceId
      batch.streamId batch.firstSequence batch.lastSequence (cfg.codec.blake3 payload) payload
      nowMs with ⟨e, heq⟩ | ⟨j', initial, committed, hacc, heq, -⟩ <;> dsimp only at heq ⊢
    · rw [heq] at hanswer
      cases hanswer
    · rw [heq] at hanswer ⊢
      cases hanswer
      exact ⟨_, payload, nowMs, initial, committed, hacc, rfl⟩
  · cases hanswer

/-- A batch that is not accepted leaves the journal. -/
theorem delivery_error {e : IngestError} (hs : s.Intact cfg.codec) (hvalid : batch.Valid)
    (h : s.delivery cfg sourceId streamId a = some (batch, .error e)) :
    (s.apply cfg a).db.journal = s.db.journal := by
  obtain ⟨nowMs, rfl, hidle, ⟨rfl, rfl⟩, hanswer⟩ := delivery_eq_some.mp h
  have happly : s.apply cfg (.accept batch nowMs) = s.accept cfg batch nowMs := by
    rw [apply, step, hidle]
    rfl
  rw [happly, accept]
  rw [acceptSourceBatch, if_pos hvalid] at hanswer
  rcases hencode : encodeJournal cfg.codec batch.records with error | payload
  · rfl
  · rw [hencode] at hanswer
    rcases JournalHistory.accept_cases (h := ⟨s.db.journal, []⟩) hs.settled batch.sourceId
      batch.streamId batch.firstSequence batch.lastSequence (cfg.codec.blake3 payload) payload
      nowMs with ⟨error, heq⟩ | ⟨j', initial, committed, hacc, heq, -⟩
    · dsimp only at heq ⊢
      rw [heq]
      rfl
    · dsimp only [bind, Except.bind] at hanswer heq
      rw [heq] at hanswer
      cases hanswer

/-- **Everything but a batch of the stream** leaves a stream as it is: batches of other streams,
checkpoints, crashes and restarts. -/
theorem ready_apply (hs : s.Intact cfg.codec) (hready : s.db.journal.Ready sourceId streamId next)
    (h : s.delivery cfg sourceId streamId a = none) :
    (s.apply cfg a).db.journal.Ready sourceId streamId next := by
  rcases flow_apply hs a with heq | hflow
  · rw [heq]
    exact hready
  · rcases hflow.journal_cases with hsame | ⟨batch, payload, nowMs, _, _, rfl, hidle, -, hacc⟩ |
      ⟨x, retirements, -, -, hoffsets, hrows⟩
    · rw [hsame]
      exact hready
    · refine hready.accept_ne (fun hstream => ?_) hacc
      rw [delivery_eq_some.mpr ⟨nowMs, rfl, hidle, hstream, rfl⟩] at h
      cases h
    · exact hready.retire hoffsets fun row hrow => ((hrows row).mp hrow).1

/-- **Batches that are delivered in order** are acknowledged to their ends. -/
theorem deliveries_acknowledged {batches : List RawSourceBatch} (actions : List IngestAction)
    (hs : s.Intact cfg.codec) (hready : s.db.journal.Ready sourceId streamId next)
    (htiles : SequenceTiles next batches) (hvalid : ∀ batch ∈ batches, batch.Valid)
    (horder : InOrder batches (deliveries cfg sourceId streamId s actions)) :
    ∀ batch through, (batch, .ok through) ∈ deliveries cfg sourceId streamId s actions →
      through = batch.lastSequence := by
  induction actions generalizing s next batches with
  | nil => exact fun batch through hmem => absurd hmem List.not_mem_nil
  | cons a actions ih =>
    have hs' := intact_apply hs a
    rw [deliveries] at horder ⊢
    rcases hdelivery : s.delivery cfg sourceId streamId a with - | ⟨delivered, answer⟩
    · rw [hdelivery] at horder
      exact ih hs' (ready_apply hs hready hdelivery) htiles hvalid horder
    · rw [hdelivery] at horder
      rcases answer with e | committedThrough
      · -- the same batch is next
        obtain ⟨hhead, horder⟩ := horder
        have hmem : delivered ∈ batches := List.mem_of_head? hhead
        have hkept := delivery_error hs (hvalid delivered hmem) hdelivery
        intro batch through hin
        rcases List.mem_cons.mp hin with heq | hin
        · cases heq
        · exact ih hs' (hkept ▸ hready) htiles hvalid horder batch through hin
      · obtain ⟨hhead, horder⟩ := horder
        obtain ⟨rest, rfl⟩ := List.head?_eq_some_iff.mp hhead
        obtain ⟨hfirst, -, hrest⟩ := htiles
        obtain ⟨checksum, payload, nowMs, initial, committed, hacc, hthrough⟩ :=
          delivery_ok hs hdelivery
        rw [hfirst] at hacc
        obtain ⟨hcommitted, hready'⟩ := hready.accept hacc
        intro batch through hin
        rcases List.mem_cons.mp hin with heq | hin
        · cases heq
          rw [hthrough, hcommitted]
          rfl
        · exact ih hs' hready' hrest (fun b hb => hvalid b (List.mem_cons_of_mem _ hb)) horder
            batch through hin

/-- A stream that a new store gets in order answers every batch that it accepts with the last
number of the batch. -/
def Acknowledged (cfg : Settings β) (sourceId streamId : String) (batches : List RawSourceBatch) :
    Prop :=
  ∀ actions, InOrder batches (deliveries cfg sourceId streamId fresh actions) →
    ∀ batch through, (batch, .ok through) ∈ deliveries cfg sourceId streamId fresh actions →
      through = batch.lastSequence

theorem acknowledged_of_emitted {n first : ℕ} {accepted rest : List CanonicalRecord}
    {batches : List RawSourceBatch}
    (h : Emitted sourceId streamId n first accepted batches rest) :
    Acknowledged cfg sourceId streamId batches := by
  intro actions horder
  exact deliveries_acknowledged actions (intact_fresh cfg.codec) Journal.ready_empty h.tiles h.valid
    horder

/-- **The batchers produce contiguous streams that the journal acknowledges in full.**  The
batches of a raw firehose are numbered from 0 and those of the node's own connection from 1,
without a gap or an overlap; they are not empty, not larger than the batch size and pass the check
of `accept_source_batch`; with the records that are not flushed they are what was accepted.  When
they are delivered in order, each accepted one is answered with its last number, whatever else
happens in between. -/
theorem source_streams_acknowledged (cfg : Settings β) (irc : IrcCodec)
    (sourceId streamId : String) (n : ℕ) (hn : 1 ≤ n) :
    (∀ calls : List (BatchingCall CanonicalRecord),
      (calls.filterMap BatchingCall.item).length < 2 ^ 63 →
      Emitted sourceId streamId n 0 (calls.filterMap BatchingCall.item)
          ((RawBatcher.new sourceId streamId n).run calls).1
          ((RawBatcher.new sourceId streamId n).run calls).2.records ∧
        Acknowledged cfg sourceId streamId ((RawBatcher.new sourceId streamId n).run calls).1) ∧
    (∀ direct, DirectIrcBatcher.new sourceId streamId n = .ok direct →
      ∀ calls : List DirectIrcCall, (takenRecords irc sourceId calls).length < 2 ^ 63 →
        Emitted sourceId streamId n 1 (takenRecords irc sourceId calls) (direct.run irc calls).1
            (direct.run irc calls).2.records ∧
          Acknowledged cfg sourceId streamId (direct.run irc calls).1) := by
  constructor
  · intro calls hbound
    have hemitted : Emitted sourceId streamId n 0 _ _ _ := emitted_raw hn calls hbound
    exact ⟨hemitted, acknowledged_of_emitted hemitted⟩
  · intro direct hnew calls hbound
    have hemitted := emitted_direct hnew calls hbound
    exact ⟨hemitted, acknowledged_of_emitted hemitted⟩

/-! ### Three records in two batches, with a checkpoint after each -/

instance decidableInOrder : ∀ batches answers, Decidable (InOrder batches answers)
  | _, [] => .isTrue trivial
  | batches, (_, .ok _) :: rest =>
    have := decidableInOrder batches.tail rest
    inferInstanceAs (Decidable (_ ∧ _))
  | batches, (_, .error _) :: rest =>
    have := decidableInOrder batches rest
    inferInstanceAs (Decidable (_ ∧ _))

def rawCalls : List (BatchingCall CanonicalRecord) :=
  [.push (sampleRecord "irc" 0), .push (sampleRecord "irc" 1), .push (sampleRecord "irc" 2), .flush]

/-- The second line is rejected. -/
def directCalls : List DirectIrcCall :=
  [.pushRaw untimedText 0, .pushRaw "PING" 1, .pushRaw untimedText 2, .pushRaw untimedText 3,
    .flush]

/-- Deliver a batch, let the call end and make a checkpoint. -/
def deliverActions (channel : String) (batch : RawSourceBatch) : List IngestAction :=
  .accept batch 7 :: List.replicate 4 .advance ++
    [.checkpoint [channel], .advance, .retire [("irc", "a")], .advance, .advance]

def streamActions (channel : String) (batches : List RawSourceBatch) : List IngestAction :=
  [.restart 5, .advance] ++ batches.flatMap (deliverActions channel)

theorem source_streams_acknowledged_sample :
    (∀ batch through, (batch, .ok through) ∈ deliveries .plain "irc" "a" fresh
        (streamActions "quiet" ((RawBatcher.new "irc" "a" 2).run rawCalls).1) →
      through = batch.lastSequence) ∧
    (∀ batch through, (batch, .ok through) ∈ deliveries .plain "irc" "a" fresh
        (streamActions "example" (DirectIrcBatcher.run untimedLine
          ⟨"irc", "a", 2, 1, []⟩ directCalls).1) →
      through = batch.lastSequence) := by
  obtain ⟨hraw, hdirect⟩ :=
    source_streams_acknowledged .plain untimedLine "irc" "a" 2 (by decide)
  constructor
  · exact (hraw rawCalls (by decide)).2 _ (by decide +kernel)
  · exact (hdirect ⟨"irc", "a", 2, 1, []⟩ rfl directCalls (by decide +kernel)).2 _
      (by decide +kernel)

/-- The answers are the last numbers of the batches. -/
example :
    (deliveries .plain "irc" "a" fresh (streamActions "example" (DirectIrcBatcher.run untimedLine
      ⟨"irc", "a", 2, 1, []⟩ directCalls).1)).map (fun d => d.2.toOption) = [some 2, some 3] := by
  decide +kernel

end Ingest

end RecentMessages
