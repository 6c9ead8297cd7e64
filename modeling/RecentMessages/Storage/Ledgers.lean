/-
RecentMessages/Storage/Ledgers.lean

The queues of the channels as ledgers.

In both stores with an index, `next_block_sequence` names the blocks of a channel one
after the other, so the names that were given are the numbers below it, and the rows
that are left are what the channel holds.  A batch does one thing to the ledger of its
channel, if anything: it appends its new blocks (`grows_appendBatch`, for each of the two
stores).  This holds of every batch that succeeds, with duplicates and upgrades in it;
the other channels keep their ledgers.

Both stores cut records into blocks in the same loop; `layChunks_eq_ok` is about it.
-/
import RecentMessages.Library.Ledger
import RecentMessages.Storage.Memory
import RecentMessages.Storage.Segment
import RecentMessages.Storage.SqliteQueues

namespace RecentMessages

open CanonicalRecord EncodedBlock

/-- The messages that a channel may hold: the target, and a block less one message. -/
def BlockSizes.mostHeld (sizes : BlockSizes) : ℕ :=
  sizes.targetMessagesPerChannel + sizes.blockMessages - 1

/-- As far as an `i64` can count them. -/
def BlockSizes.heldBound (sizes : BlockSizes) : ℕ := min sizes.mostHeld i64Max.toNat

/-! ### Cutting records into blocks -/

section Chunks

variable {β σ : Type} {codec : Codec β} {level : ℤ} {most : ℕ}

/-- **The loop over the chunks** lays down blocks with consecutive numbers; `I` is what one
insertion keeps. -/
theorem layChunks_eq_ok (insert : σ → ℤ → EncodedBlock β → Except StoreError σ)
    (held : σ → List (ℤ × ℕ)) (I : ℤ → ℤ → σ → Prop) {pieces : List (List CanonicalRecord)}
    {s s' : σ} {next retained next' retained' : ℤ}
    (hstep : ∀ s next retained b s', I next retained s → insert s next b = .ok s' →
      I (next + 1) (retained + b.messageCount) s' ∧ held s' = held s ++ [(next, b.messageCount)])
    (hpieces : ∀ piece ∈ pieces, piece.length ≤ most) (hs : I next retained s) (hnext : 0 ≤ next)
    (h : pieces.foldlM (fun (s, next, retained) chunk => do
        let b ← (EncodedBlock.encode codec chunk level).mapError StoreError.block
        let s ← insert s next b
        return (s, next + 1, retained + (b.messageCount : ℤ)))
      (s, next, retained) = Except.ok (s', next', retained')) :
    I next' retained' s' ∧ 0 ≤ next' ∧
      ∃ new : List (ℤ × ℕ), (∀ p ∈ new, p.2 ≤ most) ∧
        (new.map Prod.snd).sum = pieces.flatten.length ∧
        numbersBelow next' = numbersBelow next ++ new.map Prod.fst ∧ held s' = held s ++ new := by
  induction pieces generalizing s next retained with
  | nil =>
    cases h
    exact ⟨hs, hnext, [], nofun, rfl, (List.append_nil _).symm, (List.append_nil _).symm⟩
  | cons piece pieces ih =>
    -- the first piece is encoded and inserted, then the others are
    rw [List.foldlM_cons, Except.bind_eq_ok] at h
    obtain ⟨⟨s₁, next₁, retained₁⟩, hpiece, h⟩ := h
    obtain ⟨b, hencode, hpiece⟩ := Except.bind_eq_ok.mp hpiece
    obtain ⟨s₂, hinsert, hpiece⟩ := Except.bind_eq_ok.mp hpiece
    cases hpiece
    have hcount : b.messageCount = piece.length :=
      (EncodedBlock.describes_of_encode (Except.mapError_eq_ok.mp hencode)).count.symm
    obtain ⟨hs₁, hheld₁⟩ := hstep s next retained b s₁ hs hinsert
    obtain ⟨hs', hnext', new, hsized, hsum, hnames, hheld⟩ :=
      ih (fun q hq => hpieces q (List.mem_cons_of_mem piece hq)) hs₁ (by omega) h
    refine ⟨hs', hnext', (next, b.messageCount) :: new, fun p hp => ?_, ?_, ?_, ?_⟩
    -- the new blocks are no larger than the pieces, and hold as much
    · rcases List.mem_cons.mp hp with rfl | hp
      · exact hcount.trans_le (hpieces piece List.mem_cons_self)
      · exact hsized p hp
    · rw [List.map_cons, List.sum_cons, List.flatten_cons, List.length_append, hsum, hcount]
    -- their numbers follow on the ones before
    · rw [hnames, numbersBelow_succ hnext, List.append_assoc]
      rfl
    · rw [hheld, hheld₁, List.append_assoc]
      rfl

end Chunks

/-! ### SQLite -/

namespace Db

variable {β : Type} {codec : Codec β} {store : SqliteBlockStore} {db db' : Db β} {c : String}
  {next retained : ℤ}

/-- The sequence of the next block of a channel; a channel without a row begins at zero. -/
def nextOf (db : Db β) (c : String) : ℤ :=
  ((db.channels.lookup c).map (·.nextBlockSequence)).getD 0

/-- The blocks of a channel, by sequence, and their messages. -/
def heldOf (db : Db β) (c : String) : List (ℤ × ℕ) :=
  (db.blocksOf c).map fun row => (row.blockSequence, row.block.messageCount)

/-- The ledger of a channel. -/
def ledger (db : Db β) (c : String) : Ledger ℤ := ⟨numbersBelow (db.nextOf c), db.heldOf c⟩

theorem ledger_congr (hnext : db'.nextOf c = db.nextOf c) (hheld : db'.heldOf c = db.heldOf c) :
    db'.ledger c = db.ledger c := by
  rw [ledger, ledger, hnext, hheld]

theorem heldOf_congr (h : db'.blocksOf c = db.blocksOf c) : db'.heldOf c = db.heldOf c := by
  rw [heldOf, heldOf, h]

/-- **An upgrade** changes neither sequence nor count of a block. -/
theorem heldOf_rewrites (h : Rewrites codec db db') (c : String) : db'.heldOf c = db.heldOf c := by
  obtain ⟨id, b, row, hrow, hcount, rfl⟩ := h
  have hqueue : (db.updateBlock codec id b).blocksOf c =
      (db.blocksOf c).map fun q => if q.id = id then q.rewrite b else q := by
    rw [updateBlock, hrow]
    exact KeyTable.queueOf_modify (MessageBlock.id_rewrite b) (fun _ => rfl) (fun _ => rfl) c
  rw [heldOf, hqueue, List.map_map, heldOf]
  refine List.map_congr_left fun q hq => ?_
  rw [Function.comp_apply]
  by_cases hid : q.id = id
  · -- the row that is rewritten is the one with this id
    obtain rfl : q = row := by
      obtain ⟨hmem, hkey⟩ := KeyTable.lookup_eq_some.mp hrow
      exact db.messageBlocks.eq_of_key (mem_blocksOf.mp hq).1 hmem (hid.trans hkey.symm)
    have hsame : b.messageCount = q.block.messageCount := Int.ofNat_inj.mp hcount
    rw [if_pos hid, ← hsame]
    rfl
  · rw [if_neg hid]

theorem ledger_rewrites (h : Relation.ReflTransGen (Rewrites codec) db db') (c : String) :
    db'.ledger c = db.ledger c := by
  refine ledger_congr ?_ ?_
  · rw [nextOf, nextOf, channels_rewrites h]
  · induction h with
    | refl => rfl
    | tail _ hstep ih => rw [heldOf_rewrites hstep c, ih]

theorem nextOf_insertChannel (db : Db β) (c c' : String) :
    (db.insertChannel c).nextOf c' = db.nextOf c' := by
  rw [nextOf, nextOf, insertChannel]
  by_cases hc : c = c'
  · rw [KeyTable.lookup_insertIgnore_self db.channels hc]
    cases db.channels.lookup c' with
    | none => rfl
    | some row => rfl
  · rw [KeyTable.lookup_insertIgnore_ne db.channels hc]

theorem ledger_insertChannel (db : Db β) (c c' : String) :
    (db.insertChannel c).ledger c' = db.ledger c' :=
  ledger_congr (nextOf_insertChannel db c c') rfl

variable {sizes : BlockSizes}

theorem allowed_toNat (sizes : BlockSizes) : (allowed sizes.sqlite).toNat = sizes.heldBound := by
  have hblock := sizes.blockMessages_pos
  have hmax : (i64Max : ℤ) = 2 ^ 63 - 1 := rfl
  have husize : usizeMax = 2 ^ 64 - 1 := rfl
  have hsame : allowedMessages sizes.sqlite =
      satAddU sizes.targetMessagesPerChannel (sizes.blockMessages - 1) := rfl
  rw [allowed, hsame, satAddU, BlockSizes.heldBound, BlockSizes.mostHeld]
  omega

theorem sized_ledger (hdb : db.Regular codec sizes.sqlite) (c : String) :
    (db.ledger c).Sized sizes.blockMessages := by
  intro p hp
  obtain ⟨row, hrow, rfl⟩ := List.mem_map.mp hp
  exact Int.ofNat_le.mp (hdb.sized row (mem_blocksOf.mp hrow).1).1

/-- **Inserting records** adds their blocks to those of the channel. -/
theorem ledger_insertChunks {records : List CanonicalRecord} {next' retained' : ℤ}
    (hdb : db.Balanced codec c next retained) (hnext : 0 ≤ next)
    (h : db.insertChunks codec store c records next retained = .ok (db', next', retained')) :
    db'.Balanced codec c next' retained' ∧ db'.channels = db.channels ∧
      (∀ c', c' ≠ c → db'.blocksOf c' = db.blocksOf c') ∧ 0 ≤ next' ∧
      ∃ new : List (ℤ × ℕ), (∀ p ∈ new, p.2 ≤ store.blockMessages) ∧
        (new.map Prod.snd).sum = records.length ∧
        numbersBelow next' = numbersBelow next ++ new.map Prod.fst ∧
        db'.heldOf c = db.heldOf c ++ new := by
  have hloop := layChunks_eq_ok (fun db next b => db.insertBlock codec c next b)
    (fun db : Db β => db.heldOf c)
    (fun next retained db₁ => db₁.Balanced codec c next retained ∧
      db₁.channels = db.channels ∧ ∀ c', c' ≠ c → db₁.blocksOf c' = db.blocksOf c')
    (fun db₁ next retained b db₂ ⟨hdb₁, hchannels, hothers⟩ hinsert => by
      obtain ⟨hown, hkept⟩ := blocksOf_insertBlock hdb₁ hinsert
      obtain ⟨-, -, hdb₂⟩ := insertBlock_eq_ok hinsert
      refine ⟨⟨balanced_insertBlock hinsert hdb₁, ?_, fun c' hc => ?_⟩, ?_⟩
      · rw [hdb₂, ← hchannels]
      · rw [hkept c' hc, hothers c' hc]
      · rw [heldOf, hown, List.map_append]
        rfl)
    (fun piece hpiece => (mem_of_mem_chunksAux hpiece).1) ⟨hdb, rfl, fun _ _ => rfl⟩ hnext h
  obtain ⟨⟨hdb', hchannels, hothers⟩, hnext', new, hsized, hsum, hnames, hheld⟩ := hloop
  refine ⟨hdb', hchannels, hothers, hnext', new, hsized, ?_, hnames, hheld⟩
  have hflat : (chunks store.blockMessages records).flatten = records :=
    flatten_chunks store.blockMessages_pos records
  exact hsum.trans (congrArg List.length hflat)

theorem nextOf_of_row {row : ChannelRow} (h : db.channels.lookup c = some row) :
    db.nextOf c = row.nextBlockSequence := by
  rw [nextOf, h]
  rfl

theorem nextOf_retainMessages_self {row : ChannelRow} (h : db.channels.lookup c = some row) :
    (db.retainMessages c next retained).nextOf c = next := by
  rw [nextOf, retainMessages, KeyTable.lookup_modify_self, h]
  rfl

theorem nextOf_retainMessages_ne {c' : String} (hc : c' ≠ c) :
    (db.retainMessages c next retained).nextOf c' = db.nextOf c' := by
  rw [nextOf, retainMessages, KeyTable.lookup_modify_ne _ hc, nextOf]

/-- **Admitted records** of channel `c` do one thing to its ledger, if anything. -/
theorem grows_appendAdmitted {records : List CanonicalRecord} {first last : ℤ}
    (hchannel : ∀ r ∈ records, r.channelKey = c) (hdb : db.Regular codec sizes.sqlite)
    (hnext : 0 ≤ db.nextOf c)
    (h : db.appendAdmitted codec sizes.sqlite c records first last = .ok db') :
    (∀ c', c' ≠ c → db'.nextOf c' = db.nextOf c' ∧ db'.heldOf c' = db.heldOf c') ∧
      0 ≤ db'.nextOf c ∧
      (db.ledger c).Grows sizes.blockMessages sizes.heldBound records.length (db'.ledger c) := by
  obtain ⟨index, merged, db₁, -, hmerged, -, hrewrite, hend⟩ :=
    appendAdmitted_stages hchannel hdb.readable h
  obtain ⟨-, -, -, -, -, hrewrites⟩ := rewriteDirty_eq_ok
    (fun block hblock =>
      let ⟨row, hrow, hup⟩ := hmerged.upgraded block hblock
      ⟨row, (mem_overlapping hrow).1, hup⟩) hdb.readable hrewrite
  have hnextOf : ∀ c', db₁.nextOf c' = db.nextOf c' := by
    intro c'
    rw [nextOf, nextOf, channels_rewrites hrewrites]
  have hheldOf : ∀ c', db₁.heldOf c' = db.heldOf c' :=
    fun c' => congrArg Ledger.held (ledger_rewrites hrewrites c')
  -- without new records the ledger stays; with new ones it grows once
  rcases hend with ⟨-, rfl⟩ | ⟨row, db₂, next, retained, -, hrow, hinsert, rfl⟩
  · exact ⟨fun c' _ => ⟨hnextOf c', hheldOf c'⟩, hnextOf c ▸ hnext,
      .inl (ledger_rewrites hrewrites c)⟩
  · have hown := nextOf_of_row hrow
    obtain ⟨hdb₂, hchannels, hothers, hnext₂, new, hsized, hsum, hnames, hheld⟩ :=
      ledger_insertChunks ((accounted_of_rewrites hrewrites hdb.accounted).balanced hrow)
        (hown ▸ hnextOf c ▸ hnext) hinsert
    obtain ⟨htrim, hkept⟩ := blocksOf_evictOldest sizes.sqlite hdb₂
      (KeyTable.length_queueOf_le db₂.messageBlocks c)
    have hchannels₃ : (evictOldest codec sizes.sqlite c db₂.messageBlocks.rows.length db₂
        retained).1.channels = db₂.channels := channels_evictOldest _ db₂ retained
    generalize evictOldest codec sizes.sqlite c db₂.messageBlocks.rows.length db₂ retained = out
      at htrim hkept hchannels₃
    -- `retain_messages` writes back `next`, and the queue is what retention left
    have hrow₃ : out.1.channels.lookup c = some row := by rw [hchannels₃, hchannels, hrow]
    have hwritten : (out.1.retainMessages c next out.2).nextOf c = next :=
      nextOf_retainMessages_self hrow₃
    refine ⟨fun c' hc => ⟨?_, ?_⟩, hwritten.symm ▸ hnext₂, .inr ⟨new, hsized, ?_, ?_⟩⟩
    · rw [nextOf_retainMessages_ne hc, ← hnextOf c', nextOf, hchannels₃, hchannels, nextOf]
    · exact (heldOf_congr ((hkept c' hc).trans (hothers c' hc))).trans (hheldOf c')
    · -- the new records have distinct keys, all of them keys of the batch
      rw [hsum]
      have hkeys : (merged.newRecords.items.map eventKey) ⊆ records.map eventKey := by
        intro k hk
        obtain ⟨r, hr, rfl⟩ := List.mem_map.mp hk
        exact List.mem_map_of_mem (hmerged.fresh r hr).1
      have hlength := (merged.newRecords.nodup_keys.subperm hkeys).length_le
      rwa [List.length_map, List.length_map] at hlength
    · have hheld₃ : (out.1.retainMessages c next out.2).heldOf c =
          trimFront Prod.snd sizes.heldBound (db.heldOf c ++ new) := by
        show (out.1.blocksOf c).map _ = _
        rw [htrim, ← hheldOf c, ← hheld, heldOf, trimFront_map, allowed_toNat]
      rw [ledger, hwritten, hheld₃, hnames, ← hown, hnextOf]
      rfl

/-- **A batch that succeeds** does one thing to the ledger of its channel, if anything. -/
theorem grows_appendBatch {first : CanonicalRecord} {rest : List CanonicalRecord}
    (hdb : db.Regular codec sizes.sqlite) (hnext : ∀ c, 0 ≤ db.nextOf c)
    (h : db.appendBatch codec sizes.sqlite (first :: rest) = .ok db') :
    (∀ c, 0 ≤ db'.nextOf c) ∧ (∀ c, c ≠ first.channelKey → db'.ledger c = db.ledger c) ∧
      (db.ledger first.channelKey).Grows sizes.blockMessages sizes.heldBound (first :: rest).length
        (db'.ledger first.channelKey) := by
  rcases appendBatch_cases h with ⟨rfl, -⟩ | ⟨c, low, high, hchannel, -, -, -, happend⟩
  · exact ⟨hnext, fun _ _ => rfl, .inl rfl⟩
  · obtain rfl : first.channelKey = c := hchannel first List.mem_cons_self
    obtain ⟨hothers, hown, hgrows⟩ := grows_appendAdmitted
      (fun r hr => hchannel r (mem_admitted.mp hr).1) (regular_insertChannel hdb first.channelKey)
      (nextOf_insertChannel db _ _ ▸ hnext _) happend
    refine ⟨fun c => ?_, fun c hc => ?_, ?_⟩
    · by_cases hc : c = first.channelKey
      · exact hc ▸ hown
      · rw [(hothers c hc).1, nextOf_insertChannel]
        exact hnext c
    · rw [← ledger_insertChannel db first.channelKey c]
      exact ledger_congr (hothers c hc).1 (hothers c hc).2
    · rw [ledger_insertChannel] at hgrows
      -- the purge cutoff may take records away from the batch
      have hadmitted : (db.admitted first.channelKey (first :: rest)).length ≤
          (first :: rest).length := by
        rw [admitted]
        split
        · exact List.length_filter_le _ _
        · exact le_rfl
      exact hgrows.mono hadmitted

end Db

/-! ### The segment store -/

namespace SegmentState

variable {β : Type} {codec : Codec β} {sizes : BlockSizes} {state state' : SegmentState β}
  {c : String} {next retained : ℤ}

/-- The sequence of the next block of a channel; a channel without a row begins at zero. -/
def nextOf (state : SegmentState β) (c : String) : ℤ :=
  ((state.channels.lookup c).map (·.nextBlockSequence)).getD 0

/-- The messages of a channel, by its row. -/
def retainedOf (state : SegmentState β) (c : String) : ℤ :=
  ((state.channels.lookup c).map (·.retainedMessages)).getD 0

/-- The blocks of a channel, by sequence, and their messages. -/
def heldOf (state : SegmentState β) (c : String) : List (ℤ × ℕ) :=
  (state.blocksOf c).map fun d => (d.blockSequence, d.messageCount.toNat)

/-- The ledger of a channel. -/
def ledger (state : SegmentState β) (c : String) : Ledger ℤ :=
  ⟨numbersBelow (state.nextOf c), state.heldOf c⟩

/-- The rows of channel `c`, whose next block will have the sequence `next` and that has
`retained` messages. -/
structure Numbered (c : String) (next retained : ℤ) (state : SegmentState β) : Prop where
  nonneg : 0 ≤ next
  below : ∀ d ∈ state.blocksOf c, d.blockSequence < next
  counts : ∀ d ∈ state.blocksOf c, 0 ≤ d.messageCount
  retained_eq : retained = countOf (state.blocksOf c)

/-- The books of all channels are in order. -/
structure Booked (state : SegmentState β) : Prop where
  spaced : state.Spaced
  numbered : ∀ c, state.Numbered c (state.nextOf c) (state.retainedOf c)

theorem booked_new : (new : SegmentState β).Booked where
  spaced := fun _ hrow => absurd hrow List.not_mem_nil
  numbered := fun _ => ⟨le_rfl, fun _ hd => absurd hd List.not_mem_nil,
    fun _ hd => absurd hd List.not_mem_nil, rfl⟩

theorem Numbered.congr (h : state.Numbered c next retained)
    (hblocks : state'.blocksOf c = state.blocksOf c) : state'.Numbered c next retained :=
  ⟨h.nonneg, hblocks ▸ h.below, hblocks ▸ h.counts, hblocks ▸ h.retained_eq⟩

theorem allowed_toNat (sizes : BlockSizes) : (allowed sizes).toNat = sizes.heldBound :=
  Db.allowed_toNat sizes

theorem nextOf_insertChannel (state : SegmentState β) (c c' : String) :
    (state.insertChannel c).nextOf c' = state.nextOf c' ∧
      (state.insertChannel c).retainedOf c' = state.retainedOf c' := by
  rw [nextOf, nextOf, retainedOf, retainedOf, insertChannel]
  by_cases hc : c = c'
  · rw [KeyTable.lookup_insertIgnore_self state.channels hc]
    cases state.channels.lookup c' with
    | none => exact ⟨rfl, rfl⟩
    | some row => exact ⟨rfl, rfl⟩
  · rw [KeyTable.lookup_insertIgnore_ne state.channels hc]
    exact ⟨rfl, rfl⟩

/-- The row of a written block. -/
theorem insertBlock_eq_ok {b : EncodedBlock β}
    (h : state.insertBlock codec c next b = .ok state') :
    state' = { state with
      data := state.data ++ [b.payload]
      segmentBlocks := state.segmentBlocks.insertIgnore (state.rowOf codec c next b) } := by
  obtain ⟨_, -, h⟩ := Except.bind_eq_ok.mp h
  obtain ⟨_, -, h⟩ := Except.bind_eq_ok.mp h
  split at h
  · cases h
  · exact (Except.ok.inj h).symm

/-- **Writing a block** adds it to those of the channel. -/
theorem Numbered.insertBlock {b : EncodedBlock β} (hspaced : state.Spaced)
    (h : state.Numbered c next retained) (hinsert : state.insertBlock codec c next b = .ok state') :
    state'.Spaced ∧ state'.Numbered c (next + 1) (retained + b.messageCount) ∧
      state'.channels = state.channels ∧ (∀ c', c' ≠ c → state'.blocksOf c' = state.blocksOf c') ∧
      state'.heldOf c = state.heldOf c ++ [(next, b.messageCount)] := by
  obtain rfl := insertBlock_eq_ok hinsert
  obtain ⟨hspaced', hown, hothers⟩ := blocksOf_insertRow codec b hspaced h.below
    (state.data ++ [b.payload])
  have hnonneg := h.nonneg
  refine ⟨hspaced', ⟨by omega, fun d hd => ?_, fun d hd => ?_, ?_⟩, rfl, hothers, ?_⟩
  · rw [hown, List.mem_append] at hd
    rcases hd with hd | hd
    · exact (h.below d hd).trans (lt_add_one next)
    · rw [List.mem_singleton.mp hd]
      exact lt_add_one next
  · rw [hown, List.mem_append] at hd
    rcases hd with hd | hd
    · exact h.counts d hd
    · rw [List.mem_singleton.mp hd]
      exact Int.natCast_nonneg _
  · rw [hown, countOf, List.map_append, List.sum_append, ← countOf, h.retained_eq]
    simp [rowOf]
  · rw [heldOf, hown, List.map_append]
    rfl

/-- **Writing records** adds their blocks to those of the channel. -/
theorem Numbered.insertChunks {records : List CanonicalRecord} {next' retained' : ℤ}
    (hspaced : state.Spaced) (hs : state.Numbered c next retained)
    (h : state.insertChunks codec sizes c records next retained = .ok (state', next', retained')) :
    state'.Spaced ∧ state'.Numbered c next' retained' ∧ state'.channels = state.channels ∧
      (∀ c', c' ≠ c → state'.blocksOf c' = state.blocksOf c') ∧
      ∃ new : List (ℤ × ℕ), (∀ p ∈ new, p.2 ≤ sizes.blockMessages) ∧
        (new.map Prod.snd).sum = records.length ∧
        numbersBelow next' = numbersBelow next ++ new.map Prod.fst ∧
        state'.heldOf c = state.heldOf c ++ new := by
  have hloop := layChunks_eq_ok (fun state next b => state.insertBlock codec c next b)
    (fun state : SegmentState β => state.heldOf c)
    (fun next retained state₁ => state₁.Spaced ∧ state₁.Numbered c next retained ∧
      state₁.channels = state.channels ∧ ∀ c', c' ≠ c → state₁.blocksOf c' = state.blocksOf c')
    (fun state₁ next retained b state₂ ⟨hspaced₁, hs₁, hchannels, hothers⟩ hinsert => by
      obtain ⟨hspaced₂, hs₂, hchannels₂, hothers₂, hheld⟩ := hs₁.insertBlock hspaced₁ hinsert
      exact ⟨⟨hspaced₂, hs₂, hchannels₂.trans hchannels,
        fun c' hc => (hothers₂ c' hc).trans (hothers c' hc)⟩, hheld⟩)
    (fun piece hpiece => (mem_of_mem_chunksAux hpiece).1) ⟨hspaced, hs, rfl, fun _ _ => rfl⟩
    hs.nonneg h
  obtain ⟨⟨hspaced', hs', hchannels, hothers⟩, -, new, hsized, hsum, hnames, hheld⟩ := hloop
  refine ⟨hspaced', hs', hchannels, hothers, new, hsized, ?_, hnames, hheld⟩
  have hflat : (chunks sizes.blockMessages records).flatten = records :=
    flatten_chunks sizes.blockMessages_pos records
  exact hsum.trans (congrArg List.length hflat)

/-- The steps of a successful transaction. -/
theorem appendTransaction_cases {batch : List CanonicalRecord}
    (h : state.appendTransaction codec sizes c batch = .ok state') :
    state' = state.insertChannel c ∨
      ∃ records row state₁ next retained, (∃ seen, records =
          (retainNew eventKey seen (sortByKey eventOrder batch)).1) ∧
        (state.insertChannel c).channels.lookup c = some row ∧
        (state.insertChannel c).insertChunks codec sizes c records row.nextBlockSequence
          row.retainedMessages = .ok (state₁, next, retained) ∧
        state' = (evictOldest sizes c state₁.segmentBlocks.rows.length state₁
            retained).1.retainMessages c next
          (evictOldest sizes c state₁.segmentBlocks.rows.length state₁ retained).2 := by
  obtain ⟨blocks, -, h⟩ := Except.bind_eq_ok.mp h
  obtain ⟨decoded, -, h⟩ := Except.bind_eq_ok.mp h
  dsimp only at h
  split at h
  · exact .inl (Except.ok.inj h).symm
  · split at h
    · cases h
    · rename_i row hrow
      obtain ⟨⟨state₁, next, retained⟩, hinsert, h⟩ := Except.bind_eq_ok.mp h
      exact .inr ⟨_, row, state₁, next, retained, ⟨_, rfl⟩, hrow, hinsert,
        (Except.ok.inj h).symm⟩

/-! ### The columns of a channel row -/

theorem columns_of_row {row : SegmentChannel} (h : state.channels.lookup c = some row) :
    state.nextOf c = row.nextBlockSequence ∧ state.retainedOf c = row.retainedMessages := by
  rw [nextOf, retainedOf, h]
  exact ⟨rfl, rfl⟩

theorem columns_retainMessages_self {row : SegmentChannel}
    (h : state.channels.lookup c = some row) :
    (state.retainMessages c next retained).nextOf c = next ∧
      (state.retainMessages c next retained).retainedOf c = retained := by
  rw [nextOf, retainedOf, retainMessages, KeyTable.lookup_modify_self, h]
  exact ⟨rfl, rfl⟩

theorem columns_retainMessages_ne {c' : String} (hc : c' ≠ c) :
    (state.retainMessages c next retained).nextOf c' = state.nextOf c' ∧
      (state.retainMessages c next retained).retainedOf c' = state.retainedOf c' := by
  rw [nextOf, retainedOf, retainMessages, KeyTable.lookup_modify_ne _ hc, nextOf, retainedOf]
  exact ⟨rfl, rfl⟩

theorem columns_congr (h : state'.channels = state.channels) (c : String) :
    state'.nextOf c = state.nextOf c ∧ state'.retainedOf c = state.retainedOf c := by
  rw [nextOf, nextOf, retainedOf, retainedOf, h]
  exact ⟨rfl, rfl⟩

/-- **A new row** changes no ledger. -/
theorem Booked.insertChannel (hs : state.Booked) (c : String) :
    (state.insertChannel c).Booked ∧ ∀ c', (state.insertChannel c).ledger c' = state.ledger c' := by
  have hcolumns := nextOf_insertChannel state c
  refine ⟨⟨hs.spaced, fun c' => ?_⟩, fun c' => ?_⟩
  · rw [(hcolumns c').1, (hcolumns c').2]
    exact (hs.numbered c').congr rfl
  · rw [ledger, ledger, (hcolumns c').1]
    rfl

/-- Fewer blocks, and a count that is theirs. -/
theorem Numbered.fewer {retained' : ℤ} (h : state.Numbered c next retained)
    (hblocks : state'.blocksOf c ⊆ state.blocksOf c)
    (hretained : retained' = countOf (state'.blocksOf c)) : state'.Numbered c next retained' :=
  ⟨h.nonneg, fun d hd => h.below d (hblocks hd), fun d hd => h.counts d (hblocks hd), hretained⟩

/-- **A transaction that succeeds** does one thing to the ledger of its channel, if
anything. -/
theorem grows_appendTransaction {batch : List CanonicalRecord} (hs : state.Booked)
    (h : state.appendTransaction codec sizes c batch = .ok state') :
    state'.Booked ∧ (∀ c', c' ≠ c → state'.ledger c' = state.ledger c') ∧
      (state.ledger c).Grows sizes.blockMessages sizes.heldBound batch.length
        (state'.ledger c) := by
  obtain ⟨hstart, hledger⟩ := hs.insertChannel c
  rcases appendTransaction_cases h with rfl |
    ⟨records, row, state₁, next, retained, ⟨seen, hrecords⟩, hrow, hinsert, rfl⟩
  · exact ⟨hstart, fun c' _ => hledger c', .inl (hledger c)⟩
  · simp only [← hledger]
    generalize state.insertChannel c = start at hstart hrow hinsert ⊢
    obtain ⟨hnext, hretained⟩ := columns_of_row hrow
    have hnumbered := hstart.numbered c
    rw [hnext, hretained] at hnumbered
    obtain ⟨hspaced₁, hs₁, hchannels, hothers, new, hsized, hsum, hnames, hheld⟩ :=
      hnumbered.insertChunks hstart.spaced hinsert
    have hevict := evicted_evictOldest sizes hspaced₁ hs₁.counts hs₁.retained_eq
      (KeyTable.length_queueOf_le state₁.segmentBlocks c)
    generalize evictOldest sizes c state₁.segmentBlocks.rows.length state₁ retained = out at hevict
    have hsub : out.1.blocksOf c ⊆ state₁.blocksOf c := by
      rw [hevict.own]
      exact (trimFront_suffix _ _ _).subset
    -- `retain_messages` writes back `next`, and the queue is what retention left
    have hrow₂ : out.1.channels.lookup c = some row := by rw [hevict.channels, hchannels, hrow]
    have hwritten : (out.1.retainMessages c next out.2).nextOf c = next ∧
        (out.1.retainMessages c next out.2).retainedOf c = out.2 :=
      columns_retainMessages_self hrow₂
    have hkept : ∀ c', c' ≠ c → (out.1.retainMessages c next out.2).nextOf c' = start.nextOf c' ∧
        (out.1.retainMessages c next out.2).retainedOf c' = start.retainedOf c' := by
      intro c' hc
      rw [(columns_retainMessages_ne hc).1, (columns_retainMessages_ne hc).2]
      exact columns_congr (hevict.channels.trans hchannels) c'
    have hblocks : ∀ c', c' ≠ c →
        (out.1.retainMessages c next out.2).blocksOf c' = start.blocksOf c' :=
      fun c' hc => (hevict.others c' hc).trans (hothers c' hc)
    refine ⟨⟨hevict.spaced, fun c' => ?_⟩, fun c' hc => ?_, .inr ⟨new, hsized, ?_, ?_⟩⟩
    · by_cases hc : c' = c
      · rw [hc, hwritten.1, hwritten.2]
        exact hs₁.fewer hsub hevict.retained
      · rw [(hkept c' hc).1, (hkept c' hc).2]
        exact (hstart.numbered c').congr (hblocks c' hc)
    · rw [ledger, ledger, (hkept c' hc).1, heldOf, heldOf, hblocks c' hc]
    · have hsorted : (sortByKey eventOrder batch).length = batch.length := length_sortByKey batch
      rw [hsum, hrecords, ← hsorted]
      exact length_retainNew_le _ _
    · have hheld₂ : (out.1.retainMessages c next out.2).heldOf c =
          trimFront Prod.snd sizes.heldBound (start.heldOf c ++ new) := by
        show (out.1.blocksOf c).map _ = _
        rw [hevict.own, ← hheld, heldOf, trimFront_map, allowed_toNat]
      rw [ledger, hwritten.1, hheld₂, hnames, ← hnext]
      rfl

/-- **A batch that succeeds** is one transaction. -/
theorem grows_appendBatch {first : CanonicalRecord} {rest : List CanonicalRecord}
    (hs : state.Booked) (h : state.appendBatch codec sizes (first :: rest) = .ok state') :
    state'.Booked ∧ (∀ c, c ≠ first.channelKey → state'.ledger c = state.ledger c) ∧
      (state.ledger first.channelKey).Grows sizes.blockMessages sizes.heldBound
        (first :: rest).length (state'.ledger first.channelKey) := by
  rw [appendBatch, appendChannelBatches] at h
  split at h
  · cases h
  · rw [List.foldlM_cons, Except.bind_eq_ok] at h
    obtain ⟨state₁, hrun, h⟩ := h
    obtain rfl : state₁ = state' := Except.ok.inj h
    exact grows_appendTransaction hs hrun

end SegmentState

/-! ### The store in memory -/

namespace ChannelBlocks

variable {β : Type} (codec : Codec β) (sizes : BlockSizes)

/-- Whether a chunk has a block. -/
def encodes (piece : List CanonicalRecord) : Bool :=
  (EncodedBlock.encode codec piece storeCompressionLevel).isOk

/-- The chunks that the new records of a batch are cut into. -/
def newChunks (channel : ChannelBlocks β) (batch : List CanonicalRecord) :
    List (List CanonicalRecord) :=
  chunks sizes.blockMessages
    (retainNew eventKey channel.seenEventKeys (sortByKey eventOrder batch)).1

/-- The blocks that a batch pushes; if it fails, those before the error. -/
def pushed (channel : ChannelBlocks β) (batch : List CanonicalRecord) : List (EncodedBlock β) :=
  (pushChunks codec (channel.newChunks sizes batch) channel).1.blocks.drop channel.blocks.length

/-- The blocks decode, they are not too large, and the count is theirs. -/
structure Counted (channel : ChannelBlocks β) : Prop where
  readable : ∀ b ∈ channel.blocks, b.decode codec = .ok (b.records codec)
  sized : ∀ b ∈ channel.blocks, b.messageCount ≤ sizes.blockMessages
  count : channel.messageCount = messagesOf channel.blocks

variable {codec} {sizes} {channel : ChannelBlocks β}

theorem counted_default (c : String) : (default c : ChannelBlocks β).Counted codec sizes :=
  ⟨nofun, nofun, rfl⟩

variable (codec) in
/-- **Pushing chunks** pushes the blocks of those before the first that has none. -/
theorem pushChunks_eq (channel : ChannelBlocks β) (pieces : List (List CanonicalRecord)) :
    ∃ new result, pushChunks codec pieces channel =
        ({ channel with
            blocks := channel.blocks ++ new
            messageCount := channel.messageCount + messagesOf new }, result) ∧
      (pieces.takeWhile (encodes codec)).mapM
        (EncodedBlock.encode codec · storeCompressionLevel) = .ok new ∧
      (result = .ok () ↔ ∀ piece ∈ pieces, encodes codec piece = true) := by
  induction pieces generalizing channel with
  | nil =>
    refine ⟨[], .ok (), ?_, rfl, iff_of_true rfl (List.forall_mem_nil _)⟩
    rw [pushChunks, List.append_nil]
    rfl
  | cons piece pieces ih =>
    rcases hencode : EncodedBlock.encode codec piece storeCompressionLevel with e | b
    · -- the first chunk without a block ends the loop
      have hno : encodes codec piece = false := by
        rw [encodes, hencode]
        rfl
      refine ⟨[], .error (.block e), ?_, ?_, iff_of_false (by rintro ⟨⟩) fun hall => ?_⟩
      · rw [pushChunks, hencode, List.append_nil]
        rfl
      · rw [List.takeWhile_cons_of_neg (by rw [hno]; exact Bool.false_ne_true)]
        rfl
      · rw [hall piece List.mem_cons_self] at hno
        cases hno
    · have hyes : encodes codec piece = true := by
        rw [encodes, hencode]
        rfl
      have hcount := (EncodedBlock.describes_of_encode hencode).count
      obtain ⟨new, result, hpush, hnew, hresult⟩ := ih { channel with
        blocks := channel.blocks ++ [b]
        messageCount := channel.messageCount + piece.length }
      refine ⟨b :: new, result, ?_, ?_, ?_⟩
      · rw [pushChunks, hencode]
        dsimp only
        rw [hpush]
        simp only [List.append_assoc, List.singleton_append, messagesOf, List.map_cons,
          List.sum_cons, hcount, Nat.add_assoc]
      · rw [List.takeWhile_cons_of_pos hyes, List.mapM_cons, hencode, hnew]
        rfl
      · rw [hresult, List.forall_mem_cons]
        exact (and_iff_right hyes).symm

/-- **The blocks that a batch pushes** are those of the chunks before the first that has
none. -/
theorem mapM_takeWhile_encodes (codec : Codec β) (sizes : BlockSizes)
    (channel : ChannelBlocks β) (batch : List CanonicalRecord) :
    ((channel.newChunks sizes batch).takeWhile (encodes codec)).mapM
      (EncodedBlock.encode codec · storeCompressionLevel) =
        .ok (channel.pushed codec sizes batch) := by
  obtain ⟨new, _, hpush, hnew, -⟩ :=
    pushChunks_eq codec channel (channel.newChunks sizes batch)
  rw [hnew, pushed, hpush, List.drop_left]

/-- They decode, are not too large, and hold the messages of the chunks. -/
theorem pushed_spec (codec : Codec β) (sizes : BlockSizes) (channel : ChannelBlocks β)
    (batch : List CanonicalRecord) :
    (∀ b ∈ channel.pushed codec sizes batch, b.decode codec = .ok (b.records codec) ∧
        b.messageCount ≤ sizes.blockMessages) ∧
      messagesOf (channel.pushed codec sizes batch) =
        ((channel.newChunks sizes batch).takeWhile (encodes codec)).flatten.length := by
  have hnew := mapM_takeWhile_encodes codec sizes channel batch
  constructor
  · intro b hb
    obtain ⟨piece, hpiece, hencode⟩ := (Except.mapM_eq_ok hnew).2 b hb
    have hdecode := EncodedBlock.decode_of_encode hencode
    have hmem : piece ∈ channel.newChunks sizes batch := (List.takeWhile_sublist _).subset hpiece
    rw [EncodedBlock.records_of_decode hdecode,
      ← (EncodedBlock.describes_of_encode hencode).count]
    exact ⟨hdecode, (mem_of_mem_chunksAux hmem).1⟩
  · rw [messagesOf, List.length_flatten, Except.map_eq_of_mapM (fun _ _ hencode =>
      (EncodedBlock.describes_of_encode hencode).count.symm) hnew]

/-- The blocks of a channel after a batch: if a chunk has none, the channel is not
trimmed. -/
def blocksAfter (codec : Codec β) (sizes : BlockSizes) (channel : ChannelBlocks β)
    (batch : List CanonicalRecord) : List (EncodedBlock β) :=
  if ∀ piece ∈ channel.newChunks sizes batch, encodes codec piece = true then
    trimFront (fun b => b.messageCount) sizes.allowedMessages
      (channel.blocks ++ channel.pushed codec sizes batch)
  else
    channel.blocks ++ channel.pushed codec sizes batch

theorem blocksAfter_subset (batch : List CanonicalRecord) {b : EncodedBlock β}
    (h : b ∈ blocksAfter codec sizes channel batch) :
    b ∈ channel.blocks ∨ b ∈ channel.pushed codec sizes batch := by
  rw [blocksAfter] at h
  split at h
  · exact List.mem_append.mp ((trimFront_suffix _ _ _).subset h)
  · exact List.mem_append.mp h

/-- **One batch** pushes its blocks, and trims the channel if all chunks have one. -/
theorem Counted.appendRecords (h : channel.Counted codec sizes) (batch : List CanonicalRecord) :
    ∃ seen, (channel.appendRecords codec sizes batch).1 =
      ⟨channel.channelKey, blocksAfter codec sizes channel batch, seen,
        messagesOf (blocksAfter codec sizes channel batch)⟩ := by
  let seen := (retainNew eventKey channel.seenEventKeys (sortByKey eventOrder batch)).2
  obtain ⟨new, result, hpush, hnew, hresult⟩ := pushChunks_eq codec
    { channel with seenEventKeys := seen } (channel.newChunks sizes batch)
  have hpushed : channel.pushed codec sizes batch = new := by
    rw [mapM_takeWhile_encodes, Except.ok.injEq] at hnew
    exact hnew
  have hcount : channel.messageCount + messagesOf new = messagesOf (channel.blocks ++ new) := by
    rw [messagesOf_append, h.count]
  have hread : ∀ b ∈ channel.blocks ++ new, b.decode codec = .ok (b.records codec) := by
    intro b hb
    rw [← hpushed] at hb
    exact (List.mem_append.mp hb).elim (h.readable b) fun hb =>
      ((pushed_spec codec sizes channel batch).1 b hb).1
  -- `seen` is changed before the chunks are pushed, and an error keeps the change
  rw [newChunks] at hpush
  rw [ChannelBlocks.appendRecords]
  dsimp only
  rw [hpush, blocksAfter, hpushed]
  cases result with
  | error e =>
    have hfails : ¬∀ piece ∈ channel.newChunks sizes batch, encodes codec piece = true := by
      intro hall
      cases hresult.mpr hall
    rw [if_neg hfails]
    exact ⟨seen, by rw [← hcount]⟩
  | ok u =>
    rw [if_pos (hresult.mp rfl)]
    obtain ⟨gone, rest, -, hrest, hevict⟩ :=
      evict_eq channel.channelKey sizes.allowedMessages seen hread hcount
    rw [← hrest]
    exact ⟨_, congrArg Prod.fst hevict⟩

theorem Counted.next (h : channel.Counted codec sizes) (batch : List CanonicalRecord) :
    (channel.appendRecords codec sizes batch).1.Counted codec sizes := by
  obtain ⟨seen, hrun⟩ := h.appendRecords batch
  have hpushed := (pushed_spec codec sizes channel batch).1
  rw [hrun]
  refine ⟨fun b hb => ?_, fun b hb => ?_, rfl⟩
  · exact (blocksAfter_subset batch hb).elim (h.readable b) fun hb => (hpushed b hb).1
  · exact (blocksAfter_subset batch hb).elim (h.sized b) fun hb => (hpushed b hb).2

/-- A batch pushes no more messages than it has. -/
theorem messagesOf_pushed_le (codec : Codec β) (sizes : BlockSizes) (channel : ChannelBlocks β)
    (batch : List CanonicalRecord) :
    messagesOf (channel.pushed codec sizes batch) ≤ batch.length := by
  have hchunks : (channel.newChunks sizes batch).flatten =
      (retainNew eventKey channel.seenEventKeys (sortByKey eventOrder batch)).1 :=
    flatten_chunks sizes.blockMessages_pos _
  -- the chunks hold the new records, and only some of them are taken
  have htaken : ((channel.newChunks sizes batch).takeWhile (encodes codec)).flatten.length ≤
      (channel.newChunks sizes batch).flatten.length := by
    rw [List.length_flatten, List.length_flatten]
    exact ((List.takeWhile_sublist _).map _).sum_le_sum fun _ _ => Nat.zero_le _
  have hsorted : (sortByKey eventOrder batch).length = batch.length := length_sortByKey batch
  rw [(pushed_spec codec sizes channel batch).2]
  rw [hchunks] at htaken
  exact htaken.trans ((length_retainNew_le _ _).trans hsorted.le)

end ChannelBlocks

namespace MemoryBlockStore

variable {β : Type} {codec : Codec β} {sizes : BlockSizes}

theorem channelKey_entry (store : MemoryBlockStore β) (c : String) :
    (store.entry c).channelKey = c := by
  rw [entry]
  rcases e : store.channels.lookup c with - | channel
  · rfl
  · exact KeyTable.key_of_lookup e

/-- **A batch of one channel** is a batch of its entry. -/
theorem entry_appendBatch {store : MemoryBlockStore β} {first : CanonicalRecord}
    {rest : List CanonicalRecord}
    (hchannel : ∀ r ∈ first :: rest, r.channelKey = first.channelKey)
    (hcounted : (store.entry first.channelKey).Counted codec sizes) :
    (store.appendBatch codec sizes (first :: rest)).1.entry first.channelKey =
        ((store.entry first.channelKey).appendRecords codec sizes (first :: rest)).1 ∧
      ∀ c, c ≠ first.channelKey →
        (store.appendBatch codec sizes (first :: rest)).1.entry c = store.entry c := by
  have hsingle : (first :: rest).any (fun r => r.channelKey ≠ first.channelKey) = false :=
    CanonicalRecord.mixed_eq_false.mpr hchannel
  have hrun : (store.appendBatch codec sizes (first :: rest)).1 = ⟨store.channels.put
      ((store.entry first.channelKey).appendRecords codec sizes (first :: rest)).1⟩ := by
    rw [appendBatch, if_neg (by rw [hsingle]; exact Bool.false_ne_true)]
  have hkey : ((store.entry first.channelKey).appendRecords codec sizes
      (first :: rest)).1.channelKey = first.channelKey := by
    obtain ⟨seen, hcall⟩ := hcounted.appendRecords (first :: rest)
    rw [hcall]
    exact store.channelKey_entry first.channelKey
  rw [hrun]
  constructor
  · have hput := KeyTable.lookup_put_self store.channels
      ((store.entry first.channelKey).appendRecords codec sizes (first :: rest)).1
    rw [hkey] at hput
    rw [entry, hput]
    rfl
  · intro c hc
    rw [entry, KeyTable.lookup_put_ne store.channels (hkey.trans_ne hc.symm), entry]

end MemoryBlockStore

end RecentMessages
