/-
RecentMessages/Storage/MessageStore.lean

What the implementations of `MessageStore` have in common (`storage/mod.rs`).

Each of them keeps, for every channel that it knows, a queue of blocks: new
records are cut into blocks at the back, and blocks leave at the front while the
channel holds too many messages.  `BlockQueues` is this and nothing else, with
`append` as its only step; `stats` and `loaded` are what a store of these queues
reports and reads.  `QueryRequest.answer` is the end of every `query`, which is the
same in all three files.

`BlockQueues.Valid` is the invariant: the blocks decode, they are of their channel,
no event is in two of them, and no channel is over its limit.  An append of new
records keeps it (`Valid.append`).
-/
import RecentMessages.Library.Dedup
import RecentMessages.Library.Queues
import RecentMessages.Storage.Block
import Mathlib.Algebra.BigOperators.Ring.Finset

namespace RecentMessages

open CanonicalRecord EncodedBlock

/-- All copies of an event have one event time and one fidelity. -/
def CopiesAgree (records : List CanonicalRecord) : Prop :=
  ∀ r ∈ records, ∀ q ∈ records, r.eventKey = q.eventKey →
    r.eventAtMs = q.eventAtMs ∧ r.fidelity = q.fidelity

instance decidableCopiesAgree (records : List CanonicalRecord) :
    Decidable (CopiesAgree records) :=
  inferInstanceAs (Decidable (∀ r ∈ records, ∀ q ∈ records, r.eventKey = q.eventKey →
    r.eventAtMs = q.eventAtMs ∧ r.fidelity = q.fidelity))

/-- Copies of one fidelity do not replace each other. -/
theorem CopiesAgree.not_shouldReplace {records : List CanonicalRecord} (h : CopiesAgree records)
    {r q : CanonicalRecord} (hr : r ∈ records) (hq : q ∈ records) : r.shouldReplace q = false := by
  by_cases hkey : r.eventKey = q.eventKey
  · simp [shouldReplace, (h r hr q hq hkey).2]
  · simp [shouldReplace, hkey]

/-- What `stats` reports. -/
structure StoreStats where
  channels : ℕ
  blocks : ℕ
  messages : ℕ
  compressedBytes : ℕ
  uncompressedBytes : ℕ
  deriving DecidableEq, Repr

/-- The end of every `query`: sort what was decoded, and cut out the window. -/
def QueryRequest.answer (request : QueryRequest)
    (loaded : Except StoreError (List (List CanonicalRecord))) : Except StoreError LocalResult :=
  if request.limit = 0 then
    .error .invalidLimit
  else do
    let decoded ← loaded
    let records := sortByKey CanonicalRecord.receiptOrder decoded.flatten
    return {
      records := takeNewest request.limit (records.filter request.admits)
      oldestRetainedAtMs := records.head?.map (·.receivedAtMs)
      newestRetainedAtMs := records.getLast?.map (·.receivedAtMs) }

/-- `SUM` of an integer column; SQLite does not go beyond an `i64`. -/
def sqlSum (column : List ℤ) : Except StoreError ℤ :=
  if column.sum ≤ i64Max then .ok column.sum else .error (.backend "integer overflow")

/-- The sizes that a store is opened with, neither of which may be zero. -/
structure BlockSizes where
  blockMessages : ℕ
  targetMessagesPerChannel : ℕ
  blockMessages_pos : 0 < blockMessages
  target_pos : 0 < targetMessagesPerChannel

/-- `allowed_messages`. -/
def BlockSizes.allowedMessages (sizes : BlockSizes) : ℕ :=
  satAddU sizes.targetMessagesPerChannel (sizes.blockMessages - 1)

/-- The `compression_level` that every store is opened with. -/
def storeCompressionLevel : ℤ := 3

/-- The blocks that new records are cut into. -/
def encodeChunks {β : Type} (codec : Codec β) (sizes : BlockSizes)
    (records : List CanonicalRecord) : Except BlockError (List (EncodedBlock β)) :=
  (chunks sizes.blockMessages records).mapM (EncodedBlock.encode codec · storeCompressionLevel)

/-! ### The contents of blocks -/

namespace EncodedBlock

variable {β : Type} (codec : Codec β)

/-- The records of a block, none if it does not decode. -/
def records (b : EncodedBlock β) : List CanonicalRecord :=
  match b.decode codec with
  | .ok records => records
  | .error _ => []

variable {codec} {b : EncodedBlock β}

theorem records_of_decode {l : List CanonicalRecord} (h : b.decode codec = .ok l) :
    b.records codec = l := by
  rw [records, h]

theorem count_of_decode (h : b.decode codec = .ok (b.records codec)) :
    (b.records codec).length = b.messageCount :=
  (decode_eq_ok h).2.2.count

variable (codec) in
/-- The records of a list of blocks. -/
def recordsOf (blocks : List (EncodedBlock β)) : List CanonicalRecord :=
  blocks.flatMap (·.records codec)

variable (codec) in
/-- The events that a list of blocks has a record of. -/
def keysOf (blocks : List (EncodedBlock β)) : Finset EventKey :=
  ((recordsOf codec blocks).map eventKey).toFinset

/-- The messages that a list of blocks says it holds. -/
def messagesOf (blocks : List (EncodedBlock β)) : ℕ :=
  (blocks.map fun b => b.messageCount).sum

theorem mem_keysOf {blocks : List (EncodedBlock β)} {k : EventKey} :
    k ∈ keysOf codec blocks ↔ k ∈ (recordsOf codec blocks).map eventKey :=
  List.mem_toFinset

theorem recordsOf_append (blocks blocks' : List (EncodedBlock β)) :
    recordsOf codec (blocks ++ blocks') = recordsOf codec blocks ++ recordsOf codec blocks' :=
  List.flatMap_append

theorem messagesOf_append (blocks blocks' : List (EncodedBlock β)) :
    messagesOf (blocks ++ blocks') = messagesOf blocks + messagesOf blocks' := by
  rw [messagesOf, List.map_append, List.sum_append]
  rfl

end EncodedBlock

section Encoding

variable {β : Type} {codec : Codec β} {sizes : BlockSizes} {c : String}

theorem channel_of_encode {level : ℤ} {records : List CanonicalRecord} {b : EncodedBlock β}
    (hchannel : ∀ r ∈ records, r.channelKey = c)
    (h : EncodedBlock.encode codec records level = .ok b) : b.channelKey = c := by
  have hdesc := EncodedBlock.describes_of_encode h
  obtain ⟨r, hr⟩ := List.exists_mem_of_ne_nil _ hdesc.nonempty
  rw [← hdesc.channel r hr, hchannel r hr]

/-- **Encoded chunks** decode, are of the channel of their records, and hold the
records one after the other. -/
theorem decode_of_mapM_encode {level : ℤ} {pieces : List (List CanonicalRecord)}
    {new : List (EncodedBlock β)} (hchannel : ∀ piece ∈ pieces, ∀ r ∈ piece, r.channelKey = c)
    (h : pieces.mapM (EncodedBlock.encode codec · level) = .ok new) :
    (∀ b ∈ new, b.decode codec = .ok (b.records codec) ∧ b.channelKey = c) ∧
      new.map (·.records codec) = pieces := by
  induction pieces generalizing new with
  | nil =>
    cases h
    exact ⟨nofun, rfl⟩
  | cons piece pieces ih =>
    obtain ⟨b, rest, hb, hrest, rfl⟩ := Except.mapM_cons_eq_ok.mp h
    obtain ⟨hall, hmap⟩ := ih (fun p hp => hchannel p (List.mem_cons_of_mem piece hp)) hrest
    have hdecode := EncodedBlock.decode_of_encode hb
    have hrecords := EncodedBlock.records_of_decode hdecode
    constructor
    · intro b' hb'
      rcases List.mem_cons.mp hb' with rfl | hb'
      · exact ⟨by rw [hrecords]; exact hdecode,
          channel_of_encode (hchannel piece List.mem_cons_self) hb⟩
      · exact hall b' hb'
    · rw [List.map_cons, hrecords, hmap]

theorem decode_of_encodeChunks {records : List CanonicalRecord} {new : List (EncodedBlock β)}
    (hchannel : ∀ r ∈ records, r.channelKey = c) (h : encodeChunks codec sizes records = .ok new) :
    (∀ b ∈ new, b.decode codec = .ok (b.records codec) ∧ b.channelKey = c) ∧
      EncodedBlock.recordsOf codec new = records := by
  obtain ⟨hblocks, hmap⟩ := decode_of_mapM_encode
    (fun piece hpiece r hr => hchannel r (mem_of_mem_chunks hpiece hr)) h
  refine ⟨hblocks, ?_⟩
  rw [EncodedBlock.recordsOf, List.flatMap, hmap, flatten_chunks sizes.blockMessages_pos]

/-- **The loop over the chunks** goes through if every block can be inserted behind those
before it; `J` is what the insertions so far have done. -/
theorem layChunks_run {σ : Type} {level : ℤ} (insert : σ → ℤ → EncodedBlock β → Except StoreError σ)
    (J : List (EncodedBlock β) → ℤ → ℤ → σ → Prop) {pieces : List (List CanonicalRecord)}
    {new : List (EncodedBlock β)} {s : σ} {next retained : ℤ}
    (hnew : pieces.mapM (EncodedBlock.encode codec · level) = .ok new)
    (hstep : ∀ done b next retained s, done ++ [b] <+: new →
      (∃ piece ∈ pieces, EncodedBlock.encode codec piece level = .ok b) → J done next retained s →
      ∃ s', insert s next b = .ok s' ∧ J (done ++ [b]) (next + 1) (retained + b.messageCount) s')
    (hs : J [] next retained s) :
    ∃ s' next' retained', pieces.foldlM (fun (s, next, retained) chunk => do
        let b ← (EncodedBlock.encode codec chunk level).mapError StoreError.block
        let s ← insert s next b
        return (s, next + 1, retained + (b.messageCount : ℤ)))
      (s, next, retained) = Except.ok (s', next', retained') ∧ J new next' retained' s' := by
  -- the blocks that are still to come, behind those that are `done`
  have hloop : ∀ (todo : List (List CanonicalRecord)) (rest done : List (EncodedBlock β))
      (s : σ) (next retained : ℤ), todo ⊆ pieces →
      todo.mapM (EncodedBlock.encode codec · level) = .ok rest → done ++ rest = new →
      J done next retained s →
      ∃ s' next' retained', todo.foldlM (fun (s, next, retained) chunk => do
          let b ← (EncodedBlock.encode codec chunk level).mapError StoreError.block
          let s ← insert s next b
          return (s, next + 1, retained + (b.messageCount : ℤ)))
        (s, next, retained) = Except.ok (s', next', retained') ∧ J new next' retained' s' := by
    intro todo
    induction todo with
    | nil =>
      intro rest done s next retained _ hrest hsplit hs
      obtain rfl : [] = rest := Except.ok.inj hrest
      rw [List.append_nil] at hsplit
      exact ⟨s, next, retained, rfl, hsplit ▸ hs⟩
    | cons piece todo ih =>
      intro rest done s next retained hsub hrest hsplit hs
      obtain ⟨b, rest, hb, htail, rfl⟩ := Except.mapM_cons_eq_ok.mp hrest
      have hsplit' : done ++ [b] ++ rest = new := by
        rw [List.append_assoc]
        exact hsplit
      obtain ⟨s₁, hinsert, hs₁⟩ := hstep done b next retained s ⟨rest, hsplit'⟩
        ⟨piece, hsub List.mem_cons_self, hb⟩ hs
      obtain ⟨s', next', retained', hrun, hs'⟩ := ih rest (done ++ [b]) s₁ _ _
        (fun p hp => hsub (List.mem_cons_of_mem piece hp)) htail hsplit' hs₁
      refine ⟨s', next', retained', ?_, hs'⟩
      rw [List.foldlM_cons]
      simp only [hb, hinsert, Except.mapError, bind, Except.bind, pure, Except.pure] at hrun ⊢
      exact hrun
  exact hloop pieces new [] s next retained (List.Subset.refl pieces) hnew rfl hs

end Encoding

/-! ### Queues of blocks -/

/-- The channels that a store knows, each with its blocks, oldest first. -/
structure BlockQueues (β : Type) where
  channels : Finset String
  blocks : String → List (EncodedBlock β)

namespace BlockQueues

variable {β : Type} (codec : Codec β)

/-- A new store. -/
def empty : BlockQueues β := ⟨∅, fun _ => []⟩

/-- A sum over all blocks. -/
def total (q : BlockQueues β) (g : EncodedBlock β → ℕ) : ℕ :=
  ∑ c ∈ q.channels, ((q.blocks c).map g).sum

/-- What the store reports. -/
def stats (q : BlockQueues β) : StoreStats where
  channels := q.channels.card
  blocks := q.total fun _ => 1
  messages := q.total fun b => b.messageCount
  compressedBytes := q.total fun b => codec.len b.payload
  uncompressedBytes := q.total fun b => b.uncompressedBytes

/-- What a query of the channel reads. -/
def loaded (q : BlockQueues β) (c : String) : List (List CanonicalRecord) :=
  (q.blocks c).map (·.records codec)

/-- The records of a batch that are new to their channel, in the order in which they
are laid down. -/
def newRecords (q : BlockQueues β) (c : String) (batch : List CanonicalRecord) :
    List CanonicalRecord :=
  (retainNew eventKey (keysOf codec (q.blocks c)) (sortByKey eventOrder batch)).1

/-- The queues with these blocks for a channel, which is known from now on. -/
def withBlocks (q : BlockQueues β) (c : String) (blocks : List (EncodedBlock β)) :
    BlockQueues β where
  channels := insert c q.channels
  blocks := Function.update q.blocks c blocks

/-- Put blocks behind those of a channel, and drop blocks in front while it holds more
than `allowed` messages. -/
def append (q : BlockQueues β) (allowed : ℕ) (c : String) (new : List (EncodedBlock β)) :
    BlockQueues β :=
  q.withBlocks c (trimFront (fun b => b.messageCount) allowed (q.blocks c ++ new))

/-- What is true of the blocks of one channel. -/
structure Sound (allowed : ℕ) (history : List CanonicalRecord) (c : String)
    (blocks : List (EncodedBlock β)) : Prop where
  readable : ∀ b ∈ blocks, b.decode codec = .ok (b.records codec)
  channel : ∀ b ∈ blocks, b.channelKey = c
  bounded : messagesOf blocks ≤ allowed
  nodup : ((recordsOf codec blocks).map eventKey).Nodup
  source : ∀ r ∈ recordsOf codec blocks, r ∈ history

/-- The invariant of a store whose channels may hold `allowed` messages and that has
been given records of `history` only. -/
structure Valid (allowed : ℕ) (history : List CanonicalRecord) (q : BlockQueues β) : Prop where
  sound : ∀ c, Sound codec allowed history c (q.blocks c)
  known : ∀ c, q.blocks c ≠ [] → c ∈ q.channels

variable {codec} {allowed : ℕ} {history : List CanonicalRecord} {q : BlockQueues β} {c : String}

theorem valid_empty : (empty : BlockQueues β).Valid codec allowed history where
  sound := fun _ => ⟨nofun, nofun, Nat.zero_le _, List.nodup_nil, nofun⟩
  known := fun _ h => absurd rfl h

theorem mem_newRecords {batch : List CanonicalRecord} {r : CanonicalRecord}
    (h : r ∈ q.newRecords codec c batch) :
    r ∈ batch ∧ r.eventKey ∉ keysOf codec (q.blocks c) := by
  obtain ⟨hr, hnew⟩ := mem_of_mem_retainNew h
  exact ⟨mem_sortByKey.mp hr, hnew⟩

@[simp] theorem blocks_withBlocks_self (blocks : List (EncodedBlock β)) :
    (q.withBlocks c blocks).blocks c = blocks := by
  simp [withBlocks]

@[simp] theorem blocks_withBlocks_ne {c' : String} (h : c' ≠ c) (blocks : List (EncodedBlock β)) :
    (q.withBlocks c blocks).blocks c' = q.blocks c' := by
  simp [withBlocks, h]

/-- A known channel with its own blocks. -/
theorem withBlocks_self (h : c ∈ q.channels) : q.withBlocks c (q.blocks c) = q := by
  rw [withBlocks, Function.update_eq_self, Finset.insert_eq_of_mem h]

theorem blocks_withBlocks_own (c' : String) :
    (q.withBlocks c (q.blocks c)).blocks c' = q.blocks c' := by
  rw [withBlocks, Function.update_eq_self]

theorem withBlocks_withBlocks (blocks blocks' : List (EncodedBlock β)) :
    (q.withBlocks c blocks).withBlocks c blocks' = q.withBlocks c blocks' := by
  simp [withBlocks]

theorem blocks_append_self (new : List (EncodedBlock β)) :
    (q.append allowed c new).blocks c =
      trimFront (fun b => b.messageCount) allowed (q.blocks c ++ new) :=
  blocks_withBlocks_self _

theorem blocks_append_ne {c' : String} (h : c' ≠ c) (new : List (EncodedBlock β)) :
    (q.append allowed c new).blocks c' = q.blocks c' :=
  blocks_withBlocks_ne h _

/-- **An append of new records** keeps the invariant. -/
theorem Valid.append {sizes : BlockSizes} (hq : q.Valid codec allowed history)
    {batch : List CanonicalRecord} {new : List (EncodedBlock β)}
    (hchannel : ∀ r ∈ batch, r.channelKey = c) (hbatch : ∀ r ∈ batch, r ∈ history)
    (hnew : encodeChunks codec sizes (q.newRecords codec c batch) = .ok new) :
    (q.append allowed c new).Valid codec allowed history := by
  obtain ⟨hblocks, hrecords⟩ :=
    decode_of_encodeChunks (fun r hr => hchannel r (mem_newRecords hr).1) hnew
  have hsuffix := trimFront_suffix (fun b : EncodedBlock β => b.messageCount) allowed
    (q.blocks c ++ new)
  -- what the channel has in the end is part of what it had and what it was given
  have hsub : (recordsOf codec ((q.append allowed c new).blocks c)).Sublist
      (recordsOf codec (q.blocks c) ++ q.newRecords codec c batch) := by
    rw [blocks_append_self, ← hrecords, ← recordsOf_append]
    exact hsuffix.sublist.flatMap _
  have hmem : ∀ b ∈ (q.append allowed c new).blocks c, b ∈ q.blocks c ∨ b ∈ new := by
    intro b hb
    rw [blocks_append_self] at hb
    exact List.mem_append.mp (hsuffix.subset hb)
  have hown := hq.sound c
  have hsound : Sound codec allowed history c ((q.append allowed c new).blocks c) := by
    constructor
    case readable =>
      exact fun b hb => (hmem b hb).elim (hown.readable b) fun hb => (hblocks b hb).1
    case channel =>
      exact fun b hb => (hmem b hb).elim (hown.channel b) fun hb => (hblocks b hb).2
    case bounded =>
      rw [blocks_append_self]
      exact sum_trimFront_le _ _ _
    case nodup =>
      refine List.Nodup.sublist (hsub.map eventKey) ?_
      rw [List.map_append, List.nodup_append]
      refine ⟨hown.nodup, nodup_retainNew _ _, ?_⟩
      rintro k hk k' hk' rfl
      exact (mem_keys_retainNew.mp hk').2 (mem_keysOf.mpr hk)
    case source =>
      intro r hr
      rcases List.mem_append.mp (hsub.subset hr) with hr | hr
      · exact hown.source r hr
      · exact hbatch r (mem_newRecords hr).1
  constructor
  · intro c'
    by_cases h : c' = c
    · exact h ▸ hsound
    · rw [blocks_append_ne h]
      exact hq.sound c'
  · intro c' hne
    by_cases h : c' = c
    · exact Finset.mem_insert.mpr (.inl h)
    · rw [blocks_append_ne h] at hne
      exact Finset.mem_insert_of_mem (hq.known c' hne)

/-! ### Totals -/

theorem total_natCast (q : BlockQueues β) (g : EncodedBlock β → ℕ) :
    (q.total g : ℤ) = ∑ c ∈ q.channels, ((q.blocks c).map fun b => (g b : ℤ)).sum := by
  simp [total, Nat.cast_list_sum, Function.comp_def]

/-- A sum over all blocks, with other blocks for one channel. -/
theorem total_withBlocks (hknown : q.blocks c ≠ [] → c ∈ q.channels) (g : EncodedBlock β → ℕ)
    (blocks : List (EncodedBlock β)) :
    (q.withBlocks c blocks).total g + ((q.blocks c).map g).sum =
      q.total g + (blocks.map g).sum := by
  have hothers : ∀ c' ∈ q.channels.erase c,
      (((q.withBlocks c blocks).blocks c').map g).sum = ((q.blocks c').map g).sum :=
    fun c' hc' => by rw [blocks_withBlocks_ne (Finset.ne_of_mem_erase hc')]
  have hinsert : insert c q.channels = insert c (q.channels.erase c) := by
    ext c'
    rw [Finset.mem_insert, Finset.mem_insert, Finset.mem_erase]
    tauto
  have hnew : (q.withBlocks c blocks).total g = (blocks.map g).sum +
      ∑ c' ∈ q.channels.erase c, ((q.blocks c').map g).sum := by
    show ∑ c' ∈ insert c q.channels, (((q.withBlocks c blocks).blocks c').map g).sum = _
    rw [hinsert, Finset.sum_insert (Finset.notMem_erase c _), blocks_withBlocks_self,
      Finset.sum_congr rfl hothers]
  have hold : q.total g = ((q.blocks c).map g).sum +
      ∑ c' ∈ q.channels.erase c, ((q.blocks c').map g).sum := by
    by_cases hc : c ∈ q.channels
    · exact (Finset.add_sum_erase q.channels _ hc).symm
    · have hnil : q.blocks c = [] := not_ne_iff.mp fun hne => hc (hknown hne)
      rw [hnil, Finset.erase_eq_of_notMem hc, List.map_nil, List.sum_nil, Nat.zero_add]
      rfl
  omega

/-- An append adds at most its own blocks. -/
theorem total_append_le (hknown : q.blocks c ≠ [] → c ∈ q.channels) (g : EncodedBlock β → ℕ)
    (new : List (EncodedBlock β)) :
    (q.append allowed c new).total g ≤ q.total g + (new.map g).sum := by
  have htotal := total_withBlocks hknown g
    (trimFront (fun b => b.messageCount) allowed (q.blocks c ++ new))
  have hle : ((trimFront (fun b => b.messageCount) allowed (q.blocks c ++ new)).map g).sum ≤
      ((q.blocks c ++ new).map g).sum :=
    ((trimFront_suffix _ _ _).sublist.map g).sum_le_sum fun _ _ => Nat.zero_le _
  rw [List.map_append, List.sum_append] at hle
  rw [append]
  omega

/-- The blocks of a channel are among all. -/
theorem sum_blocks_le_total (hknown : q.blocks c ≠ [] → c ∈ q.channels) (g : EncodedBlock β → ℕ) :
    ((q.blocks c).map g).sum ≤ q.total g := by
  have htotal := total_withBlocks hknown g []
  rw [List.map_nil, List.sum_nil] at htotal
  omega

end BlockQueues

end RecentMessages
