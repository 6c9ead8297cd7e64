/-
RecentMessages/Storage/Retention.lean

What per-channel retention removes, and which blocks an append lays down.

An append gives its new blocks ids and sequences above all that its channel has
(`insertChunks_rows`), and then deletes blocks of the channel in the order in
which they were laid down, until few enough messages are left
(`evictOldest_fifo`).  So what retention has removed is older, as a block, than
everything the channel still holds, and `retentionFloor` messages are left when it
has removed anything; `retention_keeps_latest` says this of every run of appends.

An append never gives the id of a block it found (`blocks_appendChannelBatches`).
-/
import RecentMessages.Storage.Accounting

namespace RecentMessages

/-- A store whose blocks hold one message, and whose channels should keep two. -/
def smallStore : SqliteBlockStore := ⟨1, 2, 3, Nat.one_pos, Nat.two_pos⟩

/-- A message of a channel, sent and received at `n`. -/
def messageAt (channelKey : String) (n : ℕ) : CanonicalRecord :=
  ⟨channelKey, n, n, n, "irc", .directIrc, [80, 82, 73, 86]⟩

/-- The messages that retention leaves to a channel: the target, or what an `i64`
can count if that is less. -/
def retentionFloor (store : SqliteBlockStore) : ℤ :=
  min store.targetMessagesPerChannel (i64Max - 2 ^ 32 + 1)

namespace Db

variable {β : Type} {codec : Codec β} {store : SqliteBlockStore} {db db' : Db β} {c : String}

/-! ### Sizes of blocks -/

/-- A block of at most `blockMessages` messages. -/
def Sized (store : SqliteBlockStore) (row : MessageBlock β) : Prop :=
  row.messageCount ≤ store.blockMessages ∧ row.messageCount < 2 ^ 32

theorem messageCount_le_allowed {row : MessageBlock β} (h : Sized store row) :
    row.messageCount ≤ allowed store := by
  obtain ⟨hblock, hsmall⟩ := h
  have htarget := store.target_pos
  have hmessages := store.blockMessages_pos
  have hmax : (i64Max : ℤ) = 2 ^ 63 - 1 := rfl
  have husize : usizeMax = 2 ^ 64 - 1 := rfl
  rw [allowed, allowedMessages, satAddU]
  omega

/-- A block whose removal is due can be spared. -/
theorem retentionFloor_le {row : MessageBlock β} {retained : ℤ} (h : Sized store row)
    (hdue : allowed store < retained) : retentionFloor store ≤ retained - row.messageCount := by
  obtain ⟨hblock, hsmall⟩ := h
  have hmessages := store.blockMessages_pos
  have hmax : (i64Max : ℤ) = 2 ^ 63 - 1 := rfl
  have husize : usizeMax = 2 ^ 64 - 1 := rfl
  rw [allowed, allowedMessages, satAddU] at hdue
  rw [retentionFloor]
  omega

/-- Blocks of one shape hold equally many messages. -/
theorem sized_of_shape {row row' : MessageBlock β} (hread : row.Readable codec)
    (hread' : row'.Readable codec) (hshape : row'.shape codec = row.shape codec)
    (h : Sized store row) : Sized store row' := by
  simp only [MessageBlock.shape, Prod.mk.injEq] at hshape
  have hlength := congrArg List.length hshape.2.2.2
  rw [List.length_map, List.length_map] at hlength
  rw [Sized, hread'.count, hlength, ← hread.count]
  exact h

/-! ### New blocks -/

/-- A block that an append lays down in channel `c`, from the sequence `next` on. -/
structure LaidDown (store : SqliteBlockStore) (db : Db β) (c : String) (next : ℤ)
    (row : MessageBlock β) : Prop where
  id : db.nextId ≤ row.id
  channel : row.channelKey = c
  sequence : next ≤ row.blockSequence
  sized : Sized store row

/-- **Inserting records** lays down blocks behind those of the channel; the last of
them has the last sequence that was given. -/
theorem insertChunks_rows {records : List CanonicalRecord} {next retained next' retained' : ℤ}
    (h : db.insertChunks codec store c records next retained = .ok (db', next', retained')) :
    ∃ laid, db'.messageBlocks.rows = db.messageBlocks.rows ++ laid ∧
      (∀ row ∈ laid, LaidDown store db c next row) ∧
      (records ≠ [] → ∃ row ∈ laid, row.blockSequence + 1 = next') ∧
      db'.channels = db.channels ∧ next ≤ next' ∧ retained ≤ retained' := by
  have hdone := Except.foldlM_done
    (fun (done : List (List CanonicalRecord)) (s : Db β × ℤ × ℤ) => db.nextId ≤ s.1.nextId ∧
      ∃ laid, s.1.messageBlocks.rows = db.messageBlocks.rows ++ laid ∧
        (∀ row ∈ laid, LaidDown store db c next row) ∧
        (done ≠ [] → ∃ row ∈ laid, row.blockSequence + 1 = s.2.1) ∧
        s.1.channels = db.channels ∧ next ≤ s.2.1 ∧ retained ≤ s.2.2) ?_
    ⟨le_rfl, [], (List.append_nil _).symm, nofun, fun hne => absurd rfl hne, rfl, le_rfl, le_rfl⟩ h
  · obtain ⟨-, laid, hrows, hlaid, hlast, hchannels, hnext, hretained⟩ := hdone
    refine ⟨laid, hrows, hlaid, fun hne => hlast fun hnil => hne ?_, hchannels, hnext, hretained⟩
    rw [← flatten_chunks store.blockMessages_pos records, hnil, List.flatten_nil]
  · rintro done ⟨db₁, next₁, retained₁⟩ s' piece hpiece
      ⟨hid, laid, hrows, hlaid, -, hchannels, hnext, hretained⟩ hstep
    obtain ⟨encoded, hencode, hstep⟩ := Except.bind_eq_ok.mp hstep
    obtain ⟨db₂, hinsert, hstep⟩ := Except.bind_eq_ok.mp hstep
    cases hstep
    dsimp only at hid hrows hchannels hnext hretained ⊢
    have hrows₂ := rows_insertBlock hinsert
    obtain ⟨-, -, hdb₂⟩ := insertBlock_eq_ok hinsert
    have hchannels₂ : db₂.channels = db₁.channels := by rw [hdb₂]
    have hencode := Except.mapError_eq_ok.mp hencode
    have hcount := (EncodedBlock.describes_of_encode hencode).count
    have hsmall := EncodedBlock.messageCount_lt_of_encode hencode
    have hlength := (mem_of_mem_chunksAux hpiece).1
    rw [hcount] at hlength
    have hnew : LaidDown store db c next ⟨db₁.nextId, next₁, { encoded with channelKey := c }⟩ :=
      ⟨hid, rfl, hnext, Int.ofNat_le.mpr hlength, Int.ofNat_lt.mpr hsmall⟩
    -- ids only grow
    have hid₂ : db₁.nextId ≤ db₂.nextId := by
      have hmem : (⟨db₁.nextId, next₁, { encoded with channelKey := c }⟩ : MessageBlock β) ∈
          db₂.messageBlocks.rows := by
        rw [hrows₂]
        exact List.mem_append_right _ (List.mem_singleton_self _)
      exact (lt_nextId hmem).le
    refine ⟨hid.trans hid₂,
      laid ++ [⟨db₁.nextId, next₁, { encoded with channelKey := c }⟩], ?_, fun row hrow => ?_,
      fun _ => ⟨_, List.mem_append_right _ (List.mem_singleton_self _), rfl⟩,
      hchannels₂.trans hchannels, by omega, by omega⟩
    · rw [hrows₂, hrows, List.append_assoc]
    · rcases List.mem_append.mp hrow with hrow | hrow
      · exact hlaid row hrow
      · rw [List.mem_singleton.mp hrow]
        exact hnew

/-! ### Per-channel retention -/

variable {next retained : ℤ}

/-- Once the floor is kept, retention keeps it. -/
theorem floor_le_evictOldest (hsized : ∀ row ∈ db.messageBlocks.rows, Sized store row) (rounds : ℕ)
    (h : retentionFloor store ≤ retained) :
    retentionFloor store ≤ (evictOldest codec store c rounds db retained).2 := by
  induction rounds generalizing db retained with
  | zero => exact h
  | succ rounds ih =>
    rw [evictOldest]
    split
    · rename_i hdue
      rcases e : db.blocksOf c with - | ⟨oldest, rest⟩
      · exact h
      · obtain ⟨holdest, -⟩ :=
          mem_blocksOf.mp (show oldest ∈ db.blocksOf c from e ▸ List.mem_cons_self)
        exact ih (fun row hrow => hsized row (mem_deleteBlock.mp hrow).1)
          (retentionFloor_le (hsized oldest holdest) hdue)
    · exact h

/-- The head of the blocks of a channel has the least sequence. -/
theorem head_blocksOf {oldest : MessageBlock β} {rest : List (MessageBlock β)}
    (h : db.blocksOf c = oldest :: rest) {row : MessageBlock β}
    (hrow : row ∈ db.messageBlocks.rows) (hc : row.channelKey = c) :
    oldest.blockSequence ≤ row.blockSequence := by
  have hmem : row ∈ oldest :: rest := h ▸ mem_blocksOf.mpr ⟨hrow, hc⟩
  have hsorted : (oldest :: rest).Pairwise fun a b => a.blockSequence ≤ b.blockSequence := by
    rw [← h]
    exact sortByKey_sorted _
  rcases List.mem_cons.mp hmem with rfl | hmem
  · exact le_rfl
  · exact (List.pairwise_cons.mp hsorted).1 row hmem

/-- **Retention is first in, first out**: what it removes was laid down before
everything that the channel keeps, and if it removes anything it leaves
`retentionFloor` messages. -/
theorem evictOldest_fifo (hdb : db.Balanced codec c next retained)
    (hsized : ∀ row ∈ db.messageBlocks.rows, Sized store row) (rounds : ℕ) :
    ∃ gone, (evictOldest codec store c rounds db retained).1.evicted = db.evicted ++ gone ∧
      (∀ b ∈ gone, b ∈ db.messageBlocks.rows ∧ b.channelKey = c ∧
        retentionFloor store ≤ (evictOldest codec store c rounds db retained).2 ∧
        ∀ row ∈ (evictOldest codec store c rounds db retained).1.messageBlocks.rows,
          row.channelKey = c → b.blockSequence < row.blockSequence) ∧
      ∀ row ∈ (evictOldest codec store c rounds db retained).1.messageBlocks.rows,
        row ∈ db.messageBlocks.rows := by
  induction rounds generalizing db retained with
  | zero => exact ⟨[], (List.append_nil _).symm, nofun, fun _ hrow => hrow⟩
  | succ rounds ih =>
    -- a round deletes the first block of the channel, if the channel is over its limit
    rw [evictOldest]
    split
    · rename_i hdue
      rcases e : db.blocksOf c with - | ⟨oldest, rest⟩
      · exact ⟨[], (List.append_nil _).symm, nofun, fun _ hrow => hrow⟩
      · obtain ⟨holdest, hc⟩ :=
          mem_blocksOf.mp (show oldest ∈ db.blocksOf c from e ▸ List.mem_cons_self)
        have hstep := balanced_deleteOldest hdb holdest hc
        have hsized' : ∀ row ∈ (db.deleteBlock codec oldest.id).messageBlocks.rows,
            Sized store row := fun row hrow => hsized row (mem_deleteBlock.mp hrow).1
        -- a channel over its limit is not below the floor without one block
        have hfloor : retentionFloor store ≤ (evictOldest codec store c rounds
            { db.deleteBlock codec oldest.id with evicted := db.evicted ++ [oldest] }
            (retained - oldest.messageCount)).2 := by
          apply floor_le_evictOldest
          · exact hsized'
          · exact retentionFloor_le (hsized oldest holdest) hdue
        obtain ⟨gone, hgone, hmem, hrows⟩ := ih hstep hsized'
        refine ⟨oldest :: gone, ?_, fun b hb => ?_, fun row hrow =>
          (mem_deleteBlock.mp (hrows row hrow)).1⟩
        · dsimp only
          rw [hgone, List.append_assoc, List.singleton_append]
        -- this block is older than all that stay, by its sequence
        · rcases List.mem_cons.mp hb with rfl | hb
          · refine ⟨holdest, hc, hfloor, fun row hrow hrowc => ?_⟩
            obtain ⟨hrow, hne⟩ := mem_deleteBlock.mp (hrows row hrow)
            refine lt_of_le_of_ne (head_blocksOf e hrow hrowc) fun heq => hne ?_
            rw [hdb.others.books.distinct b holdest row hrow (hc.trans hrowc.symm) heq]
          · obtain ⟨hbmem, hbc, hfloor, hlt⟩ := hmem b hb
            exact ⟨(mem_deleteBlock.mp hbmem).1, hbc, hfloor, hlt⟩
    · exact ⟨[], (List.append_nil _).symm, nofun, fun _ hrow => hrow⟩

/-- **The last block of a channel stays.** -/
theorem last_evictOldest (hdb : db.Balanced codec c next retained)
    (hsized : ∀ row ∈ db.messageBlocks.rows, Sized store row) (rounds : ℕ) {b : MessageBlock β}
    (hb : b ∈ db.messageBlocks.rows) (hbc : b.channelKey = c)
    (hlast : ∀ row ∈ db.messageBlocks.rows, row.channelKey = c →
      row.blockSequence ≤ b.blockSequence) :
    b ∈ (evictOldest codec store c rounds db retained).1.messageBlocks.rows := by
  induction rounds generalizing db retained with
  | zero => exact hb
  | succ rounds ih =>
    rw [evictOldest]
    split
    · rename_i hdue
      rcases e : db.blocksOf c with - | ⟨oldest, rest⟩
      · exact hb
      · obtain ⟨holdest, hc⟩ :=
          mem_blocksOf.mp (show oldest ∈ db.blocksOf c from e ▸ List.mem_cons_self)
        refine ih (balanced_deleteOldest hdb holdest hc)
          (fun row hrow => hsized row (mem_deleteBlock.mp hrow).1)
          (mem_deleteBlock.mpr ⟨hb, fun hid => ?_⟩)
          fun row hrow hrowc => hlast row (mem_deleteBlock.mp hrow).1 hrowc
        -- if the oldest block were the last one, the channel would have no other
        have hsame : ∀ row ∈ db.messageBlocks.rows, row.channelKey = c → row = b := by
          intro row hrow hrowc
          have hle := head_blocksOf e hrow hrowc
          rw [← db.messageBlocks.eq_of_key hb holdest hid] at hle
          exact hdb.others.books.distinct row hrow b hb (hrowc.trans hbc.symm)
            (le_antisymm (hlast row hrow hrowc) hle)
        have hheld : db.held c = b.messageCount := by
          rw [← KeyTable.total_single (g := MessageBlock.messageCount) hb]
          refine KeyTable.total_congr fun row hrow => ?_
          by_cases hrowc : row.channelKey = c
          · rw [if_pos hrowc, hsame row hrow hrowc, if_pos rfl]
          · rw [if_neg hrowc, if_neg]
            exact fun hkey => hrowc (db.messageBlocks.eq_of_key hrow hb hkey ▸ hbc)
        have hle := messageCount_le_allowed (hsized b hb)
        rw [hdb.own_retained, hheld] at hdue
        omega
    · exact hb

/-! ### Appends -/

/-- What the calls on a store keep of its blocks. -/
structure Regular (codec : Codec β) (store : SqliteBlockStore) (db : Db β) : Prop where
  readable : db.Readable codec
  accounted : db.Accounted codec
  sized : ∀ row ∈ db.messageBlocks.rows, Sized store row

theorem regular_empty : (empty : Db β).Regular codec store :=
  ⟨readable_empty, accounted_empty, nofun⟩

theorem nextId_of_shape (h : db'.shape codec = db.shape codec) : db'.nextId = db.nextId := by
  have hids : ∀ db : Db β, db.messageBlocks.rows.map (·.id) = (db.shape codec).map (·.1) := by
    intro db
    rw [shape, List.map_map]
    rfl
  rw [nextId, nextId, hids, hids, h]

/-- What an append has done before retention: the upgraded store `db₁` and, when
there are new records, the store `db₂` with their blocks. -/
structure Laid (codec : Codec β) (store : SqliteBlockStore) (c : String) (db₁ db₂ : Db β)
    (row : ChannelRow) (laid : List (MessageBlock β)) (next retained : ℤ) : Prop where
  lookup : db₁.channels.lookup c = some row
  balanced : db₂.Balanced codec c next retained
  sized : ∀ b ∈ db₂.messageBlocks.rows, Sized store b
  rows : db₂.messageBlocks.rows = db₁.messageBlocks.rows ++ laid
  laidDown : ∀ b ∈ laid, LaidDown store db₁ c row.nextBlockSequence b
  last : ∃ b ∈ laid, b.blockSequence + 1 = next
  channels : db₂.channels = db₁.channels
  next_le : row.nextBlockSequence ≤ next
  retained_le : row.retainedMessages ≤ retained
  evicted : db₂.evicted = db₁.evicted

theorem appendAdmitted_laid {records : List CanonicalRecord} {first last : ℤ}
    (hchannel : ∀ r ∈ records, r.channelKey = c) (hdb : db.Regular codec store)
    (h : db.appendAdmitted codec store c records first last = .ok db') :
    ∃ db₁, db₁.Regular codec store ∧ db₁.shape codec = db.shape codec ∧
      db₁.channels = db.channels ∧ db₁.evicted = db.evicted ∧
      (db' = db₁ ∨ ∃ row db₂ laid next retained,
        Laid codec store c db₁ db₂ row laid next retained ∧
        db' = (evictOldest codec store c db₂.messageBlocks.rows.length db₂ retained).1.retainMessages
            c next (evictOldest codec store c db₂.messageBlocks.rows.length db₂ retained).2) := by
  obtain ⟨index, merged, db₁, -, hmerged, -, hrewrite, hend⟩ :=
    appendAdmitted_stages hchannel hdb.readable h
  obtain ⟨hread₁, hshape, -, -, hevicted, hrewrites⟩ := rewriteDirty_eq_ok
    (fun block hblock =>
      let ⟨row, hrow, hup⟩ := hmerged.upgraded block hblock
      ⟨row, (mem_overlapping hrow).1, hup⟩) hdb.readable hrewrite
  have hchannels := channels_rewrites hrewrites
  have haccounted : db₁.Accounted codec := accounted_of_rewrites hrewrites hdb.accounted
  -- upgrades change copies, not how many there are
  have hsized : ∀ row ∈ db₁.messageBlocks.rows, Sized store row := by
    intro row hrow
    have hmem : row.shape codec ∈ db.shape codec := hshape ▸ List.mem_map_of_mem hrow
    obtain ⟨row₀, hrow₀, heq⟩ := List.mem_map.mp hmem
    exact sized_of_shape (hdb.readable row₀ hrow₀) (hread₁ row hrow) heq.symm
      (hdb.sized row₀ hrow₀)
  refine ⟨db₁, ⟨hread₁, haccounted, hsized⟩, hshape, hchannels, hevicted, ?_⟩
  -- there may be nothing new to lay down
  rcases hend with ⟨-, rfl⟩ | ⟨row, db₂, next, retained, hnonempty, hrow, hinsert, rfl⟩
  · exact .inl rfl
  · have hfresh : ∀ r ∈ merged.newRecords.items, r.channelKey = c :=
      fun r hr => hchannel r (hmerged.fresh r hr).1
    obtain ⟨-, -, -, hevicted₂⟩ := insertChunks_eq_ok hfresh hread₁ hinsert
    obtain ⟨laid, hrows, hlaid, hlast, hchannels₂, hnext, hretained⟩ := insertChunks_rows hinsert
    refine .inr ⟨row, db₂, laid, next, retained, ⟨hrow,
      balanced_insertChunks (haccounted.balanced hrow) hinsert, fun b hb => ?_, hrows, hlaid,
      hlast hnonempty, hchannels₂, hnext, hretained, hevicted₂⟩, rfl⟩
    rw [hrows, List.mem_append] at hb
    exact hb.elim (hsized b) fun hb => (hlaid b hb).sized

/-- **The blocks after an append** of one channel were there before, or have ids
that no block had. -/
theorem blocks_appendAdmitted {records : List CanonicalRecord} {first last : ℤ}
    (hchannel : ∀ r ∈ records, r.channelKey = c) (hdb : db.Regular codec store)
    (h : db.appendAdmitted codec store c records first last = .ok db') :
    (∀ row ∈ db'.messageBlocks.rows, Sized store row) ∧ db.nextId ≤ db'.nextId ∧
      ∀ row ∈ db'.messageBlocks.rows, row.shape codec ∈ db.shape codec ∨ db.nextId ≤ row.id := by
  obtain ⟨db₁, hdb₁, hshape, -, -, hend⟩ := appendAdmitted_laid hchannel hdb h
  have hnext₁ := nextId_of_shape hshape
  rcases hend with rfl | ⟨row, db₂, laid, next, retained, hlaid, rfl⟩
  · exact ⟨hdb₁.sized, hnext₁.ge, fun row hrow => .inl (hshape ▸ List.mem_map_of_mem hrow)⟩
  · obtain ⟨-, -, -, hrows⟩ :=
      evictOldest_fifo hlaid.balanced hlaid.sized db₂.messageBlocks.rows.length
    refine ⟨fun b hb => hlaid.sized b (hrows b hb), ?_, fun b hb => ?_⟩
    · -- the last block that was laid down stays
      obtain ⟨b, hb, hsequence⟩ := hlaid.last
      have hmem : b ∈ db₂.messageBlocks.rows := by
        rw [hlaid.rows]
        exact List.mem_append_right _ hb
      have hstays := last_evictOldest hlaid.balanced hlaid.sized db₂.messageBlocks.rows.length hmem
        (hlaid.laidDown b hb).channel fun q hq hqc => by
          have hlt := hlaid.balanced.own_next q hq hqc
          omega
      have hlt : b.id < ((evictOldest codec store c db₂.messageBlocks.rows.length db₂
          retained).1.retainMessages c next (evictOldest codec store c
            db₂.messageBlocks.rows.length db₂ retained).2).nextId := lt_nextId hstays
      rw [← hnext₁]
      exact (hlaid.laidDown b hb).id.trans hlt.le
    · have hmem := hrows b hb
      rw [hlaid.rows, List.mem_append] at hmem
      rcases hmem with hold | hnew
      · exact .inl (hshape ▸ List.mem_map_of_mem hold)
      · exact .inr (hnext₁ ▸ (hlaid.laidDown b hnew).id)

theorem regular_insertChannel (hdb : db.Regular codec store) (c : String) :
    (db.insertChannel c).Regular codec store :=
  ⟨hdb.readable, accounted_insertChannel hdb.accounted c, hdb.sized⟩

theorem blocks_appendBatch {records : List CanonicalRecord} (hdb : db.Regular codec store)
    (h : db.appendBatch codec store records = .ok db') :
    db'.Regular codec store ∧ db.nextId ≤ db'.nextId ∧
      ∀ row ∈ db'.messageBlocks.rows, row.shape codec ∈ db.shape codec ∨ db.nextId ≤ row.id := by
  obtain ⟨gone, happ⟩ := appendBatch_eq_ok hdb.readable h
  have haccounted := accounted_appendBatch hdb.readable hdb.accounted h
  rcases appendBatch_cases h with ⟨rfl, -⟩ | ⟨c, first, last, hchannel, -, -, -, happend⟩
  · exact ⟨hdb, le_rfl, fun row hrow => .inl (List.mem_map_of_mem hrow)⟩
  · obtain ⟨hsized, hnext, hrows⟩ := blocks_appendAdmitted
      (fun r hr => hchannel r (mem_admitted.mp hr).1) (regular_insertChannel hdb c) happend
    exact ⟨⟨happ.readable, haccounted, hsized⟩, hnext, hrows⟩

/-- **The blocks after `append_channel_batches`.** -/
theorem blocks_appendChannelBatches {batches : List (List CanonicalRecord)}
    (hdb : db.Regular codec store) (h : db.appendChannelBatches codec store batches = .ok db') :
    db'.Regular codec store ∧ db.nextId ≤ db'.nextId ∧
      ∀ row ∈ db'.messageBlocks.rows, row.shape codec ∈ db.shape codec ∨ db.nextId ≤ row.id := by
  unfold appendChannelBatches at h
  induction batches generalizing db with
  | nil =>
    cases h
    exact ⟨hdb, le_rfl, fun row hrow => .inl (List.mem_map_of_mem hrow)⟩
  | cons records batches ih =>
    rw [List.foldlM_cons, Except.bind_eq_ok] at h
    obtain ⟨db₁, hbatch, h⟩ := h
    obtain ⟨hdb₁, hnext₁, hrows₁⟩ := blocks_appendBatch hdb hbatch
    obtain ⟨hdb', hnext, hrows⟩ := ih hdb₁ h
    refine ⟨hdb', hnext₁.trans hnext, fun row hrow => ?_⟩
    rcases hrows row hrow with hshape | hid
    · obtain ⟨row₁, hrow₁, heq⟩ := List.mem_map.mp hshape
      rw [← heq]
      refine (hrows₁ row₁ hrow₁).imp_right fun hle => ?_
      rwa [show row.id = row₁.id from congrArg Prod.fst heq.symm]
    · exact .inr (hnext₁.trans hid)

/-! ### The order of blocks -/

/-- What retention has removed was laid down before all blocks of its channel, and
the channel holds `retentionFloor` messages. -/
def Queued (store : SqliteBlockStore) (db : Db β) : Prop :=
  ∀ b ∈ db.evicted,
    (∃ row ∈ db.channels.rows, row.channelKey = b.channelKey ∧
      b.blockSequence < row.nextBlockSequence ∧ retentionFloor store ≤ row.retainedMessages) ∧
    ∀ row ∈ db.messageBlocks.rows, row.channelKey = b.channelKey →
      b.blockSequence < row.blockSequence

theorem queued_empty : (empty : Db β).Queued store := nofun

theorem channels_evictOldest (rounds : ℕ) (db : Db β) (retained : ℤ) :
    (evictOldest codec store c rounds db retained).1.channels = db.channels := by
  induction rounds generalizing db retained with
  | zero => rfl
  | succ rounds ih =>
    rw [evictOldest]
    split
    · rcases db.blocksOf c with - | ⟨oldest, rest⟩
      · rfl
      · dsimp only
        rw [ih]
        exact (policy_deleteBlock codec db oldest.id).2.2
    · rfl

/-- Blocks of the same shapes are in the same order. -/
theorem Queued.of_shape (hshape : db'.shape codec = db.shape codec)
    (hchannels : db'.channels = db.channels) (hevicted : db'.evicted = db.evicted)
    (h : db.Queued store) : db'.Queued store := by
  intro b hb
  obtain ⟨hrow, hlt⟩ := h b (hevicted ▸ hb)
  refine ⟨hchannels ▸ hrow, fun row hmem hc => ?_⟩
  have hmem' : row.shape codec ∈ db.shape codec := hshape ▸ List.mem_map_of_mem hmem
  obtain ⟨row₀, hrow₀, heq⟩ := List.mem_map.mp hmem'
  simp only [MessageBlock.shape, Prod.mk.injEq] at heq
  rw [← heq.2.2.1]
  exact hlt row₀ hrow₀ (heq.2.1.trans hc)

theorem queued_insertChannel (h : db.Queued store) (c : String) :
    (db.insertChannel c).Queued store := by
  intro b hb
  obtain ⟨⟨row, hrow, hkey⟩, hlt⟩ := h b hb
  exact ⟨⟨row, KeyTable.mem_insertIgnore.mpr (.inl hrow), hkey⟩, hlt⟩

/-- **An append** keeps the blocks in order. -/
theorem queued_appendAdmitted {records : List CanonicalRecord} {first last : ℤ}
    (hchannel : ∀ r ∈ records, r.channelKey = c) (hdb : db.Regular codec store)
    (hq : db.Queued store)
    (h : db.appendAdmitted codec store c records first last = .ok db') : db'.Queued store := by
  obtain ⟨db₁, -, hshape, hchannels, hevicted, hend⟩ := appendAdmitted_laid hchannel hdb h
  have hq₁ := hq.of_shape hshape hchannels hevicted
  rcases hend with rfl | ⟨own, db₂, laid, next, retained, hlaid, rfl⟩
  · exact hq₁
  obtain ⟨gone, hgone, hfifo, hrows⟩ :=
    evictOldest_fifo hlaid.balanced hlaid.sized db₂.messageBlocks.rows.length
  obtain ⟨hown, hownc⟩ := KeyTable.lookup_eq_some.mp hlaid.lookup
  generalize hout : evictOldest codec store c db₂.messageBlocks.rows.length db₂ retained = out
    at hgone hfifo hrows
  have hout₁ : out.1.channels = db₁.channels := by
    rw [← hout, channels_evictOldest, hlaid.channels]
  -- the rows of the channel table afterwards
  have hwritten : own.retain next out.2 ∈ (out.1.retainMessages c next out.2).channels.rows :=
    mem_retainMessages.mpr (.inr ⟨own, hout₁ ▸ hown, hownc, rfl⟩)
  intro b hb
  have hb : b ∈ db₁.evicted ++ gone := by
    rw [← hlaid.evicted, ← hgone]
    exact hb
  rcases List.mem_append.mp hb with hold | hnew
  · obtain ⟨⟨row, hrow, hkey, hnext, hfloor⟩, hlt⟩ := hq₁ b hold
    constructor
    · by_cases hrowc : row.channelKey = c
      · -- the channel of the append counts on from where it was
        obtain rfl : row = own := db₁.channels.eq_of_key hrow hown (hrowc.trans hownc.symm)
        refine ⟨row.retain next out.2, hwritten, hkey, hnext.trans_le hlaid.next_le, ?_⟩
        show retentionFloor store ≤ out.2
        rw [← hout]
        exact floor_le_evictOldest hlaid.sized _ (hfloor.trans hlaid.retained_le)
      · exact ⟨row, mem_retainMessages.mpr (.inl ⟨hout₁ ▸ hrow, hrowc⟩), hkey, hnext, hfloor⟩
    · intro q hq hqc
      have hmem := hrows q hq
      rw [hlaid.rows, List.mem_append] at hmem
      rcases hmem with hmem | hmem
      · exact hlt q hmem hqc
      · have hdown := hlaid.laidDown q hmem
        obtain rfl : row = own := db₁.channels.eq_of_key hrow hown
          (hkey.trans (hqc.symm.trans (hdown.channel.trans hownc.symm)))
        exact hnext.trans_le hdown.sequence
  · obtain ⟨hmem, hbc, hfloor, hlt⟩ := hfifo b hnew
    refine ⟨⟨own.retain next out.2, hwritten, hownc.trans hbc.symm,
      hlaid.balanced.own_next b hmem hbc, hfloor⟩, fun q hq hqc => hlt q hq (hqc.trans hbc)⟩

/-- **`append_channel_batches`** keeps the blocks in order. -/
theorem queued_appendChannelBatches {batches : List (List CanonicalRecord)}
    (hdb : db.Regular codec store) (hq : db.Queued store)
    (h : db.appendChannelBatches codec store batches = .ok db') : db'.Queued store := by
  unfold appendChannelBatches at h
  refine (Except.foldlM_invariant
    (fun db : Db β => db.Regular codec store ∧ db.Queued store) ?_ ⟨hdb, hq⟩ h).2
  rintro db₁ db₂ records - ⟨hdb₁, hq₁⟩ hstep
  refine ⟨(blocks_appendBatch hdb₁ hstep).1, ?_⟩
  rcases appendBatch_cases hstep with ⟨rfl, -⟩ | ⟨c, first, last, hchannel, -, -, -, happend⟩
  · exact hq₁
  · exact queued_appendAdmitted (fun r hr => hchannel r (mem_admitted.mp hr).1)
      (regular_insertChannel hdb₁ c) (queued_insertChannel hq₁ c) happend

end Db

end RecentMessages
