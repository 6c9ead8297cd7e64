/-
RecentMessages/Storage/Memory.lean

The store that keeps its blocks in memory (`storage/memory.rs`).

A channel has its blocks, the set of the events that it has a record of, and a
message count.  Set and count are maintained: every new record is entered, every
record of an evicted block is taken out again.  There is no transaction: a batch
that fails at its `n`-th block leaves the blocks before it, the keys of all of its
records, and the channel itself (`appendRecords` returns the channel in any case).

`Shows` says which queues of blocks a store is.  As long as the blocks of an append
can be encoded, the store goes through the appends of its queues (`Shows.append`).
-/
import RecentMessages.Storage.MessageStore

namespace RecentMessages

open CanonicalRecord EncodedBlock

/-- What the store has of one channel. -/
structure ChannelBlocks (β : Type) where
  channelKey : String
  blocks : List (EncodedBlock β)
  seenEventKeys : Finset EventKey
  messageCount : ℕ

namespace ChannelBlocks

variable {β : Type} (codec : Codec β) (sizes : BlockSizes)

/-- `ChannelBlocks::default`. -/
def default (channelKey : String) : ChannelBlocks β := ⟨channelKey, [], ∅, 0⟩

/-- Encode the chunks one by one and push their blocks. -/
def pushChunks : List (List CanonicalRecord) → ChannelBlocks β →
    ChannelBlocks β × Except StoreError Unit
  | [], channel => (channel, .ok ())
  | chunk :: rest, channel =>
    match EncodedBlock.encode codec chunk storeCompressionLevel with
    | .error e => (channel, .error (.block e))
    | .ok block =>
      pushChunks rest { channel with
        blocks := channel.blocks ++ [block]
        messageCount := channel.messageCount + chunk.length }

/-- Take a record of an evicted block out of the set and the count. -/
def forget (s : Finset EventKey × ℕ) (record : CanonicalRecord) : Finset EventKey × ℕ :=
  (s.1.erase record.eventKey, s.2 - 1)

/-- Pop blocks while the count is above `allowed`; each round pops one of them. -/
def evict (channelKey : String) (allowed : ℕ) :
    List (EncodedBlock β) → Finset EventKey → ℕ → ChannelBlocks β × Except StoreError Unit
  | [], seen, count => (⟨channelKey, [], seen, count⟩, .ok ())
  | evicted :: blocks, seen, count =>
    if allowed < count then
      match evicted.decode codec with
      | .error e => (⟨channelKey, blocks, seen, count⟩, .error (.block e))
      | .ok records =>
        evict channelKey allowed blocks (records.foldl forget (seen, count)).1
          (records.foldl forget (seen, count)).2
    else
      (⟨channelKey, evicted :: blocks, seen, count⟩, .ok ())

/-- `append_batch`, in the channel of the batch. -/
def appendRecords (channel : ChannelBlocks β) (batch : List CanonicalRecord) :
    ChannelBlocks β × Except StoreError Unit :=
  let (records, seen) := retainNew eventKey channel.seenEventKeys (sortByKey eventOrder batch)
  match pushChunks codec (chunks sizes.blockMessages records)
      { channel with seenEventKeys := seen } with
  | (channel, .error e) => (channel, .error e)
  | (channel, .ok ()) =>
    evict codec channel.channelKey sizes.allowedMessages channel.blocks channel.seenEventKeys
      channel.messageCount

end ChannelBlocks

/-- The map of the channels. -/
structure MemoryBlockStore (β : Type) where
  channels : KeyTable (ChannelBlocks.channelKey (β := β))

namespace MemoryBlockStore

variable {β : Type} (codec : Codec β) (sizes : BlockSizes)

/-- `MemoryBlockStore::new`. -/
def new : MemoryBlockStore β := ⟨KeyTable.empty⟩

/-- `channels.entry(channel_key).or_default()`. -/
def entry (store : MemoryBlockStore β) (channelKey : String) : ChannelBlocks β :=
  (store.channels.lookup channelKey).getD (.default channelKey)

/-- `append_batch`; an error leaves what was done before it. -/
def appendBatch (store : MemoryBlockStore β) (batch : List CanonicalRecord) :
    MemoryBlockStore β × Except StoreError Unit :=
  match batch with
  | [] => (store, .ok ())
  | first :: _ =>
    if batch.any fun r => r.channelKey ≠ first.channelKey then
      (store, .error .mixedChannelBatch)
    else
      let (channel, result) := (store.entry first.channelKey).appendRecords codec sizes batch
      (⟨store.channels.put channel⟩, result)

/-- `decode_blocks`. -/
def decodeBlocks (blocks : List (EncodedBlock β)) :
    Except StoreError (List (List CanonicalRecord)) :=
  blocks.mapM fun block => (block.decode codec).mapError .block

/-- `query`. -/
def query (store : MemoryBlockStore β) (request : QueryRequest) : Except StoreError LocalResult :=
  request.answer <|
    match store.channels.lookup request.channelKey with
    | none => .ok []
    | some channel => decodeBlocks codec channel.blocks

/-- All blocks, channel by channel. -/
def allBlocks (store : MemoryBlockStore β) : List (EncodedBlock β) :=
  store.channels.rows.flatMap (·.blocks)

/-- `stats`. -/
def stats (store : MemoryBlockStore β) : Except StoreError StoreStats :=
  .ok {
    channels := store.channels.rows.length
    blocks := store.allBlocks.length
    messages := (store.channels.rows.map (·.messageCount)).sum
    compressedBytes := (store.allBlocks.map fun block => codec.len block.payload).sum
    uncompressedBytes := (store.allBlocks.map fun block => block.uncompressedBytes).sum }

end MemoryBlockStore

/-! ### One channel -/

namespace ChannelBlocks

variable {β : Type} {codec : Codec β} {sizes : BlockSizes} {channel : ChannelBlocks β}
  {blocks : List (EncodedBlock β)}

/-- The channel has these blocks, and its set and its count are theirs. -/
structure Holds (codec : Codec β) (blocks : List (EncodedBlock β)) (channel : ChannelBlocks β) :
    Prop where
  queue : channel.blocks = blocks
  seen : channel.seenEventKeys = keysOf codec blocks
  count : channel.messageCount = messagesOf blocks

theorem holds_default (c : String) : (default c : ChannelBlocks β).Holds codec [] :=
  ⟨rfl, rfl, rfl⟩

/-- **Pushing chunks** that can be encoded pushes their blocks. -/
theorem pushChunks_of_ok (channel : ChannelBlocks β) {pieces : List (List CanonicalRecord)}
    {new : List (EncodedBlock β)}
    (h : pieces.mapM (EncodedBlock.encode codec · storeCompressionLevel) = .ok new) :
    pushChunks codec pieces channel =
      ({ channel with
          blocks := channel.blocks ++ new
          messageCount := channel.messageCount + messagesOf new }, .ok ()) := by
  induction pieces generalizing channel new with
  | nil =>
    cases h
    simp [pushChunks, messagesOf]
  | cons piece pieces ih =>
    obtain ⟨b, rest, hb, hrest, rfl⟩ := Except.mapM_cons_eq_ok.mp h
    have hcount := (EncodedBlock.describes_of_encode hb).count
    simp only [pushChunks, hb, ih _ hrest]
    simp only [List.append_assoc, List.singleton_append, messagesOf, List.map_cons, List.sum_cons,
      hcount, Nat.add_assoc]

theorem foldl_forget (records : List CanonicalRecord) (seen : Finset EventKey) (count : ℕ) :
    records.foldl forget (seen, count) =
      (seen \ (records.map eventKey).toFinset, count - records.length) := by
  induction records generalizing seen count with
  | nil => simp
  | cons r records ih =>
    rw [List.foldl_cons, forget, ih]
    congr 1
    · ext k
      simp only [Finset.mem_sdiff, Finset.mem_erase, List.map_cons, List.toFinset_cons,
        Finset.mem_insert, not_or]
      tauto
    · simp only [List.length_cons]
      omega

theorem keysOf_cons (b : EncodedBlock β) (blocks : List (EncodedBlock β)) :
    keysOf codec (b :: blocks) = ((b.records codec).map eventKey).toFinset ∪ keysOf codec blocks := by
  have hsplit : (recordsOf codec (b :: blocks)).map eventKey =
      (b.records codec).map eventKey ++ (recordsOf codec blocks).map eventKey := List.map_append
  rw [keysOf, hsplit, List.toFinset_append]
  rfl

/-- **Evicting blocks** that decode trims the front, and takes the events of what is gone
out of the set. -/
theorem evict_eq (c : String) (allowed : ℕ) (seen : Finset EventKey) {count : ℕ}
    (hread : ∀ b ∈ blocks, b.decode codec = .ok (b.records codec))
    (hcount : count = messagesOf blocks) :
    ∃ gone rest, blocks = gone ++ rest ∧ rest = trimFront (fun b => b.messageCount) allowed blocks ∧
      evict codec c allowed blocks seen count =
        (⟨c, rest, seen \ keysOf codec gone, messagesOf rest⟩, .ok ()) := by
  have hnone : ∀ seen : Finset EventKey, seen \ keysOf codec ([] : List (EncodedBlock β)) = seen :=
    fun seen => Finset.sdiff_empty
  induction blocks generalizing seen count with
  | nil => exact ⟨[], [], rfl, rfl, by rw [hnone, hcount]; rfl⟩
  | cons b blocks ih =>
    -- the first block goes if there are too many messages, with its events
    have hb := hread b List.mem_cons_self
    by_cases hlt : allowed < count
    · have hless : count - (b.records codec).length = messagesOf blocks := by
        rw [hcount, count_of_decode hb]
        show b.messageCount + messagesOf blocks - b.messageCount = messagesOf blocks
        exact Nat.add_sub_cancel_left ..
      obtain ⟨gone, rest, hsplit, hrest, hevict⟩ :=
        ih (seen \ ((b.records codec).map eventKey).toFinset)
          (fun b' hb' => hread b' (List.mem_cons_of_mem b hb')) hless
      refine ⟨b :: gone, rest, congrArg _ hsplit, ?_, ?_⟩
      · rw [trimFront_of_lt (lt_of_lt_of_eq hlt hcount)]
        exact hrest
      · rw [evict, if_pos hlt, hb]
        simp only [foldl_forget]
        rw [hevict, keysOf_cons, sdiff_sdiff_left]
        rfl
    -- otherwise nothing does
    · refine ⟨[], b :: blocks, rfl, ?_, ?_⟩
      · rw [trimFront_of_le (hcount.symm.trans_le (Nat.not_lt.mp hlt))]
      · rw [evict, if_neg hlt, hnone, hcount]

/-- When the blocks share no event, the set keeps exactly the events of the others. -/
theorem evict_of_readable (c : String) (allowed : ℕ) {seen : Finset EventKey} {count : ℕ}
    (hread : ∀ b ∈ blocks, b.decode codec = .ok (b.records codec))
    (hnodup : ((recordsOf codec blocks).map eventKey).Nodup)
    (hseen : seen = keysOf codec blocks) (hcount : count = messagesOf blocks) :
    ∃ channel, evict codec c allowed blocks seen count = (channel, .ok ()) ∧
      channel.channelKey = c ∧
      channel.Holds codec (trimFront (fun b => b.messageCount) allowed blocks) := by
  obtain ⟨gone, rest, hsplit, hrest, hevict⟩ := evict_eq c allowed seen hread hcount
  refine ⟨_, hevict, rfl, hrest, ?_, congrArg messagesOf hrest⟩
  rw [← hrest, hseen, hsplit, keysOf, recordsOf_append, List.map_append, List.toFinset_append]
  rw [hsplit, recordsOf_append, List.map_append, List.nodup_append] at hnodup
  refine Finset.union_sdiff_cancel_left (Finset.disjoint_left.mpr fun k hk hk' => ?_)
  exact hnodup.2.2 k (List.mem_toFinset.mp hk) k (List.mem_toFinset.mp hk') rfl

variable {allowed : ℕ} {history : List CanonicalRecord} {q : BlockQueues β} {c : String}

/-- **One batch**: the channel goes from the queue of `q` to the one after its append. -/
theorem Holds.appendRecords (hc : channel.channelKey = c)
    (h : channel.Holds codec (q.blocks c)) (hq : q.Valid codec sizes.allowedMessages history)
    {batch : List CanonicalRecord} {new : List (EncodedBlock β)}
    (hchannel : ∀ r ∈ batch, r.channelKey = c)
    (hnew : encodeChunks codec sizes (q.newRecords codec c batch) = .ok new) :
    ∃ channel', channel.appendRecords codec sizes batch = (channel', .ok ()) ∧
      channel'.channelKey = c ∧
      channel'.Holds codec ((q.append sizes.allowedMessages c new).blocks c) := by
  obtain ⟨hblocks, hrecords⟩ :=
    decode_of_encodeChunks (fun r hr => hchannel r (BlockQueues.mem_newRecords hr).1) hnew
  have hown := hq.sound c
  -- the seen keys are those of the queue
  have hfresh : (retainNew eventKey channel.seenEventKeys (sortByKey eventOrder batch)).1 =
      q.newRecords codec c batch := by
    rw [h.seen]
    rfl
  have hpush := pushChunks_of_ok { channel with
    seenEventKeys := (retainNew eventKey channel.seenEventKeys (sortByKey eventOrder batch)).2 }
    hnew
  have hread : ∀ b ∈ q.blocks c ++ new, b.decode codec = .ok (b.records codec) := by
    intro b hb
    exact (List.mem_append.mp hb).elim (hown.readable b) fun hb => (hblocks b hb).1
  have hkeys : (recordsOf codec (q.blocks c ++ new)).map eventKey =
      (recordsOf codec (q.blocks c)).map eventKey ++
        (q.newRecords codec c batch).map eventKey := by
    rw [recordsOf_append, hrecords, List.map_append]
  have hnodup : ((recordsOf codec (q.blocks c ++ new)).map eventKey).Nodup := by
    rw [hkeys, List.nodup_append]
    refine ⟨hown.nodup, nodup_retainNew _ _, ?_⟩
    rintro k hk k' hk' rfl
    exact (mem_keys_retainNew.mp hk').2 (mem_keysOf.mpr hk)
  have hseen : (retainNew eventKey channel.seenEventKeys (sortByKey eventOrder batch)).2 =
      keysOf codec (q.blocks c ++ new) := by
    rw [retainNew_snd_eq, h.seen]
    show keysOf codec (q.blocks c) ∪ ((q.newRecords codec c batch).map eventKey).toFinset =
      ((recordsOf codec (q.blocks c ++ new)).map eventKey).toFinset
    rw [hkeys, List.toFinset_append]
    rfl
  have hcount : channel.messageCount + messagesOf new = messagesOf (q.blocks c ++ new) := by
    rw [messagesOf_append, h.count]
  obtain ⟨channel', hevict, hkey, hholds⟩ :=
    evict_of_readable c sizes.allowedMessages hread hnodup hseen hcount
  refine ⟨channel', ?_, hkey, ?_⟩
  · simp only [ChannelBlocks.appendRecords, hfresh]
    rw [hpush]
    simp only [h.queue, hc]
    exact hevict
  · rw [BlockQueues.blocks_append_self]
    exact hholds

end ChannelBlocks

/-! ### The store -/

namespace MemoryBlockStore

variable {β : Type} {codec : Codec β} {sizes : BlockSizes} {store : MemoryBlockStore β}
  {q : BlockQueues β} {allowed : ℕ} {history : List CanonicalRecord} {c : String}

/-- The store has the channels of `q`, each with its blocks. -/
structure Shows (codec : Codec β) (q : BlockQueues β) (store : MemoryBlockStore β) : Prop where
  channels : store.channels.keysWhere (fun _ => true) = q.channels
  rows : ∀ channel ∈ store.channels.rows, channel.Holds codec (q.blocks channel.channelKey)

theorem shows_new : (new : MemoryBlockStore β).Shows codec .empty := ⟨rfl, nofun⟩

/-- A channel without an entry has no block. -/
theorem Shows.blocks_of_none (h : store.Shows codec q) (hq : q.Valid codec allowed history)
    (hnone : store.channels.lookup c = none) : q.blocks c = [] := by
  by_contra hne
  have hmem := hq.known c hne
  rw [← h.channels, KeyTable.mem_keysWhere, hnone] at hmem
  cases hmem

theorem Shows.entry (h : store.Shows codec q) (hq : q.Valid codec allowed history) (c : String) :
    (store.entry c).channelKey = c ∧ (store.entry c).Holds codec (q.blocks c) := by
  rcases e : store.channels.lookup c with - | channel
  · rw [MemoryBlockStore.entry, e, h.blocks_of_none hq e]
    exact ⟨rfl, ChannelBlocks.holds_default c⟩
  · obtain ⟨hmem, hkey⟩ := KeyTable.lookup_eq_some.mp e
    rw [MemoryBlockStore.entry, e]
    exact ⟨hkey, hkey ▸ h.rows channel hmem⟩

/-- **A batch whose blocks can be encoded** is an append of its new records. -/
theorem Shows.append (h : store.Shows codec q) (hq : q.Valid codec sizes.allowedMessages history)
    {batch : List CanonicalRecord} {new : List (EncodedBlock β)} (hne : batch ≠ [])
    (hchannel : ∀ r ∈ batch, r.channelKey = c)
    (hnew : encodeChunks codec sizes (q.newRecords codec c batch) = .ok new) :
    (store.appendBatch codec sizes batch).1.Shows codec
      (q.append sizes.allowedMessages c new) := by
  obtain ⟨hkey, hholds⟩ := h.entry hq c
  obtain ⟨channel, hrun, hkey', hholds'⟩ := hholds.appendRecords hkey hq hchannel hnew
  obtain ⟨first, rest, rfl⟩ := List.exists_cons_of_ne_nil hne
  have hfirst : first.channelKey = c := hchannel first List.mem_cons_self
  have hsingle : (first :: rest).any (fun r => r.channelKey ≠ first.channelKey) = false :=
    CanonicalRecord.mixed_eq_false.mpr fun r hr => (hchannel r hr).trans hfirst.symm
  have hstore : (store.appendBatch codec sizes (first :: rest)).1 =
      ⟨store.channels.put channel⟩ := by
    rw [appendBatch, if_neg (by rw [hsingle]; exact Bool.false_ne_true), hfirst, hrun]
  rw [hstore]
  constructor
  · show (store.channels.put channel).keysWhere (fun _ => true) = insert c q.channels
    rw [KeyTable.keys_put, h.channels, hkey']
  · intro row hrow
    rcases KeyTable.mem_put.mp hrow with ⟨hold, hother⟩ | rfl
    · rw [hkey'] at hother
      rw [BlockQueues.blocks_append_ne hother]
      exact h.rows row hold
    · rw [hkey']
      exact hholds'

/-- **A query** reads the queue of its channel. -/
theorem Shows.query (h : store.Shows codec q) (hq : q.Valid codec allowed history)
    (request : QueryRequest) :
    store.query codec request = request.answer (.ok (q.loaded codec request.channelKey)) := by
  rw [MemoryBlockStore.query]
  congr 1
  split
  · rename_i hnone
    rw [BlockQueues.loaded, h.blocks_of_none hq hnone]
    rfl
  · rename_i channel hsome
    obtain ⟨hmem, hkey⟩ := KeyTable.lookup_eq_some.mp hsome
    rw [(h.rows channel hmem).queue, hkey]
    refine Except.mapM_of_ok fun b hb => ?_
    rw [(hq.sound _).readable b hb]
    rfl

/-- **The statistics** are those of the queues. -/
theorem Shows.stats (h : store.Shows codec q) : store.stats codec = .ok (q.stats codec) := by
  have hblocks : ∀ g : EncodedBlock β → ℕ, (store.allBlocks.map g).sum = q.total g := by
    intro g
    have hrows : (store.allBlocks.map g).sum =
        (store.channels.rows.map fun channel => (channel.blocks.map g).sum).sum := by
      rw [allBlocks, List.map_flatMap, List.flatMap, List.sum_flatten, List.map_map]
      rfl
    rw [hrows, BlockQueues.total, ← h.channels]
    apply KeyTable.sum_rows_eq_sum_keys
    intro channel hchannel
    rw [(h.rows channel hchannel).queue]
  have hcount : store.allBlocks.length = q.total fun _ => 1 := by
    simp [← hblocks]
  have hmessages : (store.channels.rows.map (·.messageCount)).sum =
      q.total fun b => b.messageCount := by
    rw [BlockQueues.total, ← h.channels]
    apply KeyTable.sum_rows_eq_sum_keys
    intro channel hchannel
    exact (h.rows channel hchannel).count
  have hchannels : store.channels.rows.length = q.channels.card := by
    rw [← h.channels, KeyTable.card_keysWhere, List.filter_eq_self.mpr fun _ _ => rfl]
  rw [MemoryBlockStore.stats, BlockQueues.stats, hcount, hmessages, hblocks, hblocks, hchannels]

end MemoryBlockStore

end RecentMessages
