/-
RecentMessages/Storage/TightRetention.lean

Per-channel retention, in all three stores.

Every call of `append_batch` is given to the three stores (`Stores`), and what each of
them does to a channel is read as a ledger.  With an index, the names of the blocks are
their sequences.  The store in memory does not number its blocks, so a run keeps a
record of all that were pushed (`Watched`).

A call that succeeds appends to one ledger, and an append keeps a ledger tight.  A call
that fails changes nothing where there is an index.  In memory it leaves the blocks that
it had pushed, and the channel untrimmed.  So a run is tight as long as the channel
`Endures` what is left in it; `overfull` is a call after which it does not.
-/
import RecentMessages.Storage.Agreement
import RecentMessages.Storage.Ledgers

namespace RecentMessages

open CanonicalRecord EncodedBlock

namespace ChannelBlocks

variable {β : Type} (codec : Codec β) (sizes : BlockSizes)

/-- All new chunks of a batch have a block, or those before the first that has none do not
fill the channel beyond what it may hold. -/
def Endures (channel : ChannelBlocks β) (batch : List CanonicalRecord) : Prop :=
  (∀ piece ∈ channel.newChunks sizes batch, encodes codec piece = true) ∨
    messagesOf channel.blocks +
        ((channel.newChunks sizes batch).takeWhile (encodes codec)).flatten.length ≤
      sizes.mostHeld

instance decidableEndures (channel : ChannelBlocks β) (batch : List CanonicalRecord) :
    Decidable (channel.Endures codec sizes batch) :=
  inferInstanceAs (Decidable (_ ∨ _))

end ChannelBlocks

namespace Stores

variable {β : Type} (codec : Codec β) (sizes : BlockSizes)

/-- The limit of a channel fits an `i64`, or every store can count the messages of the
channel and as many more. -/
def CanCount (s : Stores β) (c : String) (n : ℕ) : Prop :=
  sizes.mostHeld ≤ i64Max.toNat ∨
    (s.sqlite.ledger c).total + n ≤ i64Max.toNat ∧ (s.segment.ledger c).total + n ≤ i64Max.toNat ∧
      messagesOf (s.memory.entry c).blocks + n ≤ usizeMax

/-- What is asked of a batch.  Nothing is asked of a batch of several channels, which
every store refuses. -/
def CanTake (s : Stores β) : List CanonicalRecord → Prop
  | [] => True
  | first :: rest =>
    (∀ r ∈ first :: rest, r.channelKey = first.channelKey) →
      (s.memory.entry first.channelKey).Endures codec sizes (first :: rest) ∧
        s.CanCount sizes first.channelKey (first :: rest).length

instance decidableCanCount (s : Stores β) (c : String) (n : ℕ) :
    Decidable (s.CanCount sizes c n) :=
  inferInstanceAs (Decidable (_ ∨ _ ∧ _))

instance decidableCanTake (s : Stores β) : ∀ batch, Decidable (s.CanTake codec sizes batch)
  | [] => inferInstanceAs (Decidable True)
  | first :: rest =>
    inferInstanceAs (Decidable ((∀ r ∈ first :: rest, r.channelKey = first.channelKey) →
      (s.memory.entry first.channelKey).Endures codec sizes (first :: rest) ∧
        s.CanCount sizes first.channelKey (first :: rest).length))

end Stores

/-- The stores, with the blocks that were pushed to every channel in memory so far. -/
structure Watched (β : Type) where
  stores : Stores β
  pushed : String → List (EncodedBlock β)

namespace Watched

variable {β : Type} (codec : Codec β) (sizes : BlockSizes)

/-- New stores. -/
def new : Watched β := ⟨Stores.new, fun _ => []⟩

/-- One call of `append_batch`, to each of the stores. -/
def appendBatch (w : Watched β) (batch : List CanonicalRecord) : Watched β where
  stores := w.stores.appendBatch codec sizes batch
  pushed :=
    match batch with
    | [] => w.pushed
    | first :: rest =>
      -- every store refuses a batch of several channels
      if (first :: rest).any fun r => r.channelKey ≠ first.channelKey then
        w.pushed
      else
        Function.update w.pushed first.channelKey (w.pushed first.channelKey ++
          (w.stores.memory.entry first.channelKey).pushed codec sizes (first :: rest))

/-- The ledger of a channel in memory. -/
def memoryLedger (w : Watched β) (c : String) : Ledger (EncodedBlock β) :=
  ⟨w.pushed c, (w.stores.memory.entry c).blocks.map fun b => (b, b.messageCount)⟩

/-- **Retention is tight** in every channel of every store. -/
structure Tight (w : Watched β) : Prop where
  sqlite : ∀ c, (w.stores.sqlite.ledger c).Tight sizes.blockMessages sizes.targetMessagesPerChannel
  segment : ∀ c,
    (w.stores.segment.ledger c).Tight sizes.blockMessages sizes.targetMessagesPerChannel
  memory : ∀ c, (w.memoryLedger c).Tight sizes.blockMessages sizes.targetMessagesPerChannel

variable {codec} {sizes}

/-! ### One call -/

/-- What all calls keep. -/
structure Kept (codec : Codec β) (sizes : BlockSizes) (s : Stores β) : Prop where
  regular : s.sqlite.Regular codec sizes.sqlite
  numbered : ∀ c, 0 ≤ s.sqlite.nextOf c
  booked : s.segment.Booked
  sized : ∀ c, (s.segment.ledger c).Sized sizes.blockMessages
  counted : ∀ c, (s.memory.entry c).Counted codec sizes

variable {w : Watched β} {first : CanonicalRecord} {rest : List CanonicalRecord}

theorem kept_new : Kept codec sizes (Stores.new : Stores β) where
  regular := Db.regular_empty
  numbered := fun _ => le_rfl
  booked := SegmentState.booked_new
  sized := fun _ _ hp => absurd hp List.not_mem_nil
  counted := ChannelBlocks.counted_default

theorem tight_new : (new : Watched β).Tight sizes where
  sqlite := fun _ => Ledger.tight_nil
  segment := fun _ => Ledger.tight_nil
  memory := fun _ => Ledger.tight_nil

/-- A call that changes one ledger at most keeps all of them tight. -/
theorem tight_of_grows {ι : Type} {cap n : ℕ} {c : String} {ledger ledger' : String → Ledger ι}
    (htight : ∀ c, (ledger c).Tight sizes.blockMessages sizes.targetMessagesPerChannel)
    (hsized : ∀ c, (ledger c).Sized sizes.blockMessages)
    (hcap : sizes.mostHeld ≤ cap ∨ (ledger c).total + n ≤ cap)
    (hgrows : (ledger c).Grows sizes.blockMessages
      (min (sizes.mostHeld) cap) n (ledger' c))
    (hothers : ∀ c', c' ≠ c → ledger' c' = ledger c') :
    ∀ c', (ledger' c').Sized sizes.blockMessages ∧
      (ledger' c').Tight sizes.blockMessages sizes.targetMessagesPerChannel := by
  intro c'
  by_cases hc : c' = c
  · rw [hc]
    exact (htight c).grows sizes.blockMessages_pos sizes.target_pos (hsized c) hcap hgrows
  · rw [hothers c' hc]
    exact ⟨hsized c', htight c'⟩

/-- **The store in SQLite**: a batch that fails is rolled back. -/
theorem sqlite_step (h : Kept codec sizes w.stores) (ht : w.Tight sizes)
    (hcap : sizes.mostHeld ≤ i64Max.toNat ∨
      (w.stores.sqlite.ledger first.channelKey).total + (first :: rest).length ≤ i64Max.toNat)
    {db : Db β}
    (hdb : db = (w.stores.appendBatch codec sizes (first :: rest)).sqlite) :
    db.Regular codec sizes.sqlite ∧ (∀ c, 0 ≤ db.nextOf c) ∧
      ∀ c, (db.ledger c).Tight sizes.blockMessages sizes.targetMessagesPerChannel := by
  rw [Stores.appendBatch] at hdb
  dsimp only at hdb
  split at hdb
  · rename_i hrun
    subst hdb
    obtain ⟨hnext, hothers, hgrows⟩ := Db.grows_appendBatch h.regular h.numbered hrun
    exact ⟨(Db.blocks_appendBatch h.regular hrun).1, hnext, fun c =>
      (tight_of_grows ht.sqlite (Db.sized_ledger h.regular) hcap hgrows hothers c).2⟩
  · -- an error: the transaction was rolled back
    exact hdb ▸ ⟨h.regular, h.numbered, ht.sqlite⟩

/-- **The segment store**: a batch that fails is rolled back. -/
theorem segment_step (h : Kept codec sizes w.stores) (ht : w.Tight sizes)
    (hcap : sizes.mostHeld ≤ i64Max.toNat ∨
      (w.stores.segment.ledger first.channelKey).total + (first :: rest).length ≤ i64Max.toNat)
    {state : SegmentState β}
    (hstate : state = (w.stores.appendBatch codec sizes (first :: rest)).segment) :
    state.Booked ∧ ∀ c, (state.ledger c).Sized sizes.blockMessages ∧
      (state.ledger c).Tight sizes.blockMessages sizes.targetMessagesPerChannel := by
  rw [Stores.appendBatch] at hstate
  dsimp only at hstate
  split at hstate
  · rename_i hrun
    subst hstate
    obtain ⟨hbooked, hothers, hgrows⟩ := SegmentState.grows_appendBatch h.booked hrun
    exact ⟨hbooked, tight_of_grows ht.segment h.sized hcap hgrows hothers⟩
  · -- an error: the transaction was rolled back
    exact hstate ▸ ⟨h.booked, fun c => ⟨h.sized c, ht.segment c⟩⟩

/-- **A channel in memory that endures a batch** appends its pushed blocks; where it is not
trimmed, there was nothing to trim. -/
theorem blocksAfter_eq {channel : ChannelBlocks β} {batch : List CanonicalRecord}
    (h : channel.Endures codec sizes batch)
    (hcap : sizes.mostHeld ≤ usizeMax ∨ messagesOf channel.blocks + batch.length ≤ usizeMax) :
    ChannelBlocks.blocksAfter codec sizes channel batch =
      trimFront (fun b => b.messageCount)
        (min (sizes.mostHeld) usizeMax)
        (channel.blocks ++ channel.pushed codec sizes batch) := by
  have hbound : sizes.allowedMessages =
      min (sizes.mostHeld) usizeMax := by
    have hblock := sizes.blockMessages_pos
    rw [BlockSizes.allowedMessages, satAddU, BlockSizes.mostHeld]
    omega
  rw [ChannelBlocks.blocksAfter]
  split
  · rw [hbound]
  · -- a chunk has no block, and what was pushed before it stays; the channel
    -- endures that, so trimming would drop nothing
    rename_i hfails
    have hsmall := h.resolve_left hfails
    have hle := ChannelBlocks.messagesOf_pushed_le codec sizes channel batch
    have hpushed := (ChannelBlocks.pushed_spec codec sizes channel batch).2
    rw [← hpushed] at hsmall
    rw [trimFront_of_le]
    show messagesOf (channel.blocks ++ channel.pushed codec sizes batch) ≤ _
    rw [messagesOf_append]
    omega

/-- **The store in memory**: what the call pushed stays, whether it fails or not. -/
theorem memory_step (h : Kept codec sizes w.stores) (ht : w.Tight sizes)
    (hchannel : ∀ r ∈ first :: rest, r.channelKey = first.channelKey)
    (hendures : (w.stores.memory.entry first.channelKey).Endures codec sizes (first :: rest))
    (hcap : sizes.mostHeld ≤ usizeMax ∨
      messagesOf (w.stores.memory.entry first.channelKey).blocks + (first :: rest).length ≤
        usizeMax) :
    (∀ c, ((w.appendBatch codec sizes (first :: rest)).stores.memory.entry c).Counted codec
        sizes) ∧
      ∀ c, ((w.appendBatch codec sizes (first :: rest)).memoryLedger c).Tight sizes.blockMessages
        sizes.targetMessagesPerChannel := by
  have hcounted := h.counted first.channelKey
  obtain ⟨hown, hothers⟩ := MemoryBlockStore.entry_appendBatch hchannel hcounted
  have hstores : (w.appendBatch codec sizes (first :: rest)).stores.memory =
      (w.stores.memory.appendBatch codec sizes (first :: rest)).1 := rfl
  have hpushed : (w.appendBatch codec sizes (first :: rest)).pushed =
      Function.update w.pushed first.channelKey (w.pushed first.channelKey ++
        (w.stores.memory.entry first.channelKey).pushed codec sizes (first :: rest)) := by
    have hsingle : ((first :: rest).any fun r => r.channelKey ≠ first.channelKey) = false :=
      CanonicalRecord.mixed_eq_false.mpr hchannel
    rw [appendBatch]
    dsimp only
    rw [hsingle, if_neg Bool.false_ne_true]
  have hsized : ∀ c, (w.memoryLedger c).Sized sizes.blockMessages := by
    intro c p hp
    obtain ⟨b, hb, rfl⟩ := List.mem_map.mp hp
    exact (h.counted c).sized b hb
  have htotal : sizes.mostHeld ≤ usizeMax ∨
      (w.memoryLedger first.channelKey).total + (first :: rest).length ≤ usizeMax := by
    rw [Ledger.total, memoryLedger, List.map_map]
    exact hcap
  have hgrows : (w.memoryLedger first.channelKey).Grows sizes.blockMessages
      (min (sizes.mostHeld) usizeMax)
      (first :: rest).length
      ((w.appendBatch codec sizes (first :: rest)).memoryLedger first.channelKey) := by
    -- a call that fails has pushed blocks as well, which `pushed` lists
    refine .inr ⟨((w.stores.memory.entry first.channelKey).pushed codec sizes
      (first :: rest)).map fun b => (b, b.messageCount), fun p hp => ?_, ?_, ?_⟩
    · obtain ⟨b, hb, rfl⟩ := List.mem_map.mp hp
      exact ((ChannelBlocks.pushed_spec codec sizes _ _).1 b hb).2
    · rw [List.map_map]
      exact ChannelBlocks.messagesOf_pushed_le codec sizes _ _
    · obtain ⟨seen, hrun⟩ := hcounted.appendRecords (first :: rest)
      rw [memoryLedger, hpushed, Function.update_self, hstores, hown, hrun, Ledger.append,
        memoryLedger, List.map_map]
      dsimp only
      rw [blocksAfter_eq hendures hcap, ← List.map_append, trimFront_map]
      congr 2
      exact (List.map_id _).symm
  refine ⟨fun c => ?_, fun c => (tight_of_grows ht.memory hsized htotal hgrows ?_ c).2⟩
  · rw [hstores]
    by_cases hc : c = first.channelKey
    · rw [hc, hown]
      exact hcounted.next (first :: rest)
    · rw [hothers c hc]
      exact h.counted c
  · intro c hc
    rw [memoryLedger, hpushed, Function.update_of_ne hc, hstores, hothers c hc]
    rfl

/-- A batch of several channels changes nothing. -/
theorem appendBatch_mixed (h : ¬∀ r ∈ first :: rest, r.channelKey = first.channelKey) :
    w.appendBatch codec sizes (first :: rest) = w := by
  have hmixed : ((first :: rest).any fun r => r.channelKey ≠ first.channelKey) = true :=
    CanonicalRecord.mixed_eq_true.mpr h
  rw [appendBatch, Stores.appendBatch_mixed h, if_pos hmixed]

/-- **A call that the stores can take** keeps retention tight. -/
theorem Kept.step (h : Kept codec sizes w.stores) (ht : w.Tight sizes)
    {batch : List CanonicalRecord} (htake : w.stores.CanTake codec sizes batch) :
    Kept codec sizes (w.appendBatch codec sizes batch).stores ∧
      (w.appendBatch codec sizes batch).Tight sizes := by
  cases batch with
  | nil => exact ⟨h, ht⟩
  | cons first rest =>
    by_cases hchannel : ∀ r ∈ first :: rest, r.channelKey = first.channelKey
    · obtain ⟨hendures, hcount⟩ := htake hchannel
      -- what an `i64` can count, a `usize` can
      have hmax : i64Max.toNat ≤ usizeMax := by decide
      have hsqlite := hcount.imp_right fun h => h.1
      have hsegment := hcount.imp_right fun h => h.2.1
      have hmemory := hcount.imp (fun h => h.trans hmax) fun h => h.2.2
      obtain ⟨hregular, hnumbered, htight⟩ := sqlite_step h ht hsqlite rfl
      obtain ⟨hbooked, hledgers⟩ := segment_step h ht hsegment rfl
      obtain ⟨hcounted, hpushed⟩ := memory_step h ht hchannel hendures hmemory
      exact ⟨⟨hregular, hnumbered, hbooked, fun c => (hledgers c).1, hcounted⟩,
        htight, fun c => (hledgers c).2, hpushed⟩
    · rw [appendBatch_mixed hchannel]
      exact ⟨h, ht⟩

/-- **Retention is tight** in every state of a run whose calls the stores can take. -/
theorem retention_tight (codec : Codec β) (sizes : BlockSizes)
    (calls : List (List CanonicalRecord))
    (htake : Along (appendBatch codec sizes) (fun w batch => w.stores.CanTake codec sizes batch)
      new calls) :
    Throughout (appendBatch codec sizes) (Tight sizes) new calls := by
  have hnew : Kept codec sizes (new : Watched β).stores := kept_new
  exact throughout_of_along (I := fun w : Watched β => Kept codec sizes w.stores)
    (fun _ _ h ht hbatch => h.step ht hbatch) hnew tight_new htake

/-- A channel that is filled beyond its target, and that is given an event again. -/
theorem retention_tight_sample :
    Throughout (appendBatch Plain.codec Stores.singleBlocks) (Tight Stores.singleBlocks) new
      Stores.returningMessage :=
  retention_tight Plain.codec Stores.singleBlocks Stores.returningMessage (by decide +kernel)

/-! ### A call that fails in memory -/

/-- Blocks of one message, and one message for a channel. -/
def oneMessage : BlockSizes := ⟨1, 1, Nat.one_pos, Nat.one_pos⟩

/-- Two small messages, and a large one behind them. -/
def twoAndLarge (raw : List UInt8) : List CanonicalRecord :=
  messageAt "quiet" 0 :: Stores.smallAndLarge raw

theorem sortByKey_twoAndLarge (raw : List UInt8) :
    sortByKey eventOrder (twoAndLarge raw) = twoAndLarge raw := by
  simp [sortByKey, twoAndLarge, Stores.smallAndLarge, Stores.large, eventOrder, messageAt,
    Prod.Lex.le_iff]

/-- The store in memory keeps both small messages. -/
theorem memory_keeps_two {raw : List UInt8} (h : 2 ^ 32 ≤ raw.length) :
    ((new.appendBatch Stores.sizedCodec oneMessage (twoAndLarge raw)).memoryLedger
      "quiet").total = 2 := by
  obtain ⟨e, hlarge⟩ := Stores.encode_large h
  have hsmall : ∀ n, ∃ b, EncodedBlock.encode Stores.sizedCodec [messageAt "quiet" n]
      storeCompressionLevel = .ok b ∧ b.messageCount = 1 := fun n => ⟨_, rfl, rfl⟩
  obtain ⟨b₀, hb₀, hcount₀⟩ := hsmall 0
  obtain ⟨b₁, hb₁, hcount₁⟩ := hsmall 1
  have hpush : ∀ channel : ChannelBlocks Plain,
      ChannelBlocks.pushChunks Stores.sizedCodec
          [[messageAt "quiet" 0], [messageAt "quiet" 1], [Stores.large raw]] channel =
        ({ channel with
            blocks := channel.blocks ++ [b₀] ++ [b₁]
            messageCount := channel.messageCount + 1 + 1 }, .error (.block e)) := by
    intro channel
    simp only [ChannelBlocks.pushChunks, hb₀, hb₁, hlarge, List.length_singleton]
  have hchunks : chunks oneMessage.blockMessages (twoAndLarge raw) =
      [[messageAt "quiet" 0], [messageAt "quiet" 1], [Stores.large raw]] := rfl
  -- the third chunk fails before `evict` is reached
  let seen := (retainNew eventKey ∅ (twoAndLarge raw)).2
  have hrun : (ChannelBlocks.default "quiet").appendRecords Stores.sizedCodec oneMessage
      (twoAndLarge raw) = (⟨"quiet", [b₀, b₁], seen, 2⟩, .error (.block e)) := by
    have hnew : retainNew eventKey (ChannelBlocks.default "quiet" : ChannelBlocks Plain).seenEventKeys
        (twoAndLarge raw) = (twoAndLarge raw, seen) := rfl
    simp only [ChannelBlocks.appendRecords, sortByKey_twoAndLarge, hnew, hchunks, hpush]
    rfl
  have hentry : (new.appendBatch Stores.sizedCodec oneMessage (twoAndLarge raw)).stores.memory.entry
      "quiet" = ⟨"quiet", [b₀, b₁], seen, 2⟩ := by
    show (⟨KeyTable.empty.put ((ChannelBlocks.default "quiet").appendRecords Stores.sizedCodec
      oneMessage (twoAndLarge raw)).1⟩ : MemoryBlockStore Plain).entry "quiet" = _
    rw [hrun]
    rfl
  rw [Ledger.total, memoryLedger, hentry]
  show b₀.messageCount + (b₁.messageCount + 0) = 2
  rw [hcount₀, hcount₁]

/-- A large message behind two small ones leaves more in memory than retention allows. -/
theorem large_not_tight {raw : List UInt8} (h : 2 ^ 32 ≤ raw.length) :
    ¬Throughout (appendBatch Stores.sizedCodec oneMessage) (Tight oneMessage) new
      [twoAndLarge raw] := by
  intro hrun
  have hbounded := (hrun.last.memory "quiet").bounded
  rw [List.foldl_cons, List.foldl_nil, memory_keeps_two h] at hbounded
  exact absurd hbounded (by decide)

/-- One call, with a message of 4 GiB in it. -/
def overfull : List (List CanonicalRecord) := [twoAndLarge (List.replicate (2 ^ 32) 0)]

/-- After it a channel for one message has two. -/
theorem overfull_not_tight :
    ¬Throughout (appendBatch Stores.sizedCodec oneMessage) (Tight oneMessage) new overfull :=
  large_not_tight List.length_replicate.ge

end Watched

end RecentMessages
