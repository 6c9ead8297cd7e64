/-
RecentMessages/Storage/Accounting.lean

The counters of the sealed store agree with its blocks.

A channel row counts the messages its blocks hold, `store_totals` counts all
blocks, messages and bytes; both are maintained incrementally, by every call in
its own way.  `Db.Accounted` says that they are exact, that every block has a
channel row whose next sequence is above its own, and that no clamp ever took
effect.

In the middle of a transaction one channel may be out of balance.
`BalancedBut p` is the invariant with the channels of `p` left out, and
`Balanced c next retained` is what a running append knows about its channel.
-/
import RecentMessages.Storage.AppendSpec
import RecentMessages.Storage.Removal

namespace RecentMessages

namespace Db

variable {β : Type} (codec : Codec β)

/-! ### The invariant -/

/-- The messages in the blocks of a channel. -/
def held (db : Db β) (channelKey : String) : ℤ :=
  db.messageBlocks.total fun row => if row.channelKey = channelKey then row.messageCount else 0

/-- What `store_totals` should say. -/
def blockTotals (db : Db β) : StoreTotals where
  blocks := db.messageBlocks.total fun _ => 1
  messages := db.messageBlocks.total fun row => row.messageCount
  compressedBytes := db.messageBlocks.total fun row => codec.len row.block.payload
  uncompressedBytes := db.messageBlocks.total fun row => row.block.uncompressedBytes

/-- The totals are exact and the block sequences of a channel distinct. -/
structure Books (db : Db β) : Prop where
  totals : db.storeTotals = db.blockTotals codec
  clamps : db.clamps = 0
  distinct : ∀ row ∈ db.messageBlocks.rows, ∀ row' ∈ db.messageBlocks.rows,
    row.channelKey = row'.channelKey → row.blockSequence = row'.blockSequence → row = row'

/-- The books are in order, except for the rows of the channels in `p`. -/
structure BalancedBut (p : String → Prop) (db : Db β) : Prop where
  books : db.Books codec
  retained : ∀ row ∈ db.channels.rows, ¬ p row.channelKey →
    row.retainedMessages = db.held row.channelKey
  tracked : ∀ b ∈ db.messageBlocks.rows, ¬ p b.channelKey →
    ∃ row ∈ db.channels.rows, row.channelKey = b.channelKey ∧
      b.blockSequence < row.nextBlockSequence

/-- **The accounting invariant.** -/
structure Accounted (db : Db β) : Prop where
  /-- `store_totals` counts the blocks, their messages and their bytes. -/
  totals : db.storeTotals = db.blockTotals codec
  /-- Every `MAX(0, …)` so far returned its argument. -/
  clamps : db.clamps = 0
  /-- A channel row counts the messages of its blocks. -/
  retained : ∀ row ∈ db.channels.rows, row.retainedMessages = db.held row.channelKey
  /-- A block has a channel row, and a sequence below the next one. -/
  tracked : ∀ b ∈ db.messageBlocks.rows, ∃ row ∈ db.channels.rows,
    row.channelKey = b.channelKey ∧ b.blockSequence < row.nextBlockSequence
  /-- A channel's block sequences are distinct. -/
  distinct : ∀ row ∈ db.messageBlocks.rows, ∀ row' ∈ db.messageBlocks.rows,
    row.channelKey = row'.channelKey → row.blockSequence = row'.blockSequence → row = row'

/-- A running append to channel `c`, with the values it will write back. -/
structure Balanced (c : String) (next retained : ℤ) (db : Db β) : Prop where
  others : db.BalancedBut codec (· = c)
  present : db.channels.lookup c ≠ none
  own_retained : retained = db.held c
  own_next : ∀ b ∈ db.messageBlocks.rows, b.channelKey = c → b.blockSequence < next

variable {codec} {db db' : Db β} {c : String} {p : String → Prop}

theorem Accounted.balancedBut (h : db.Accounted codec) (p : String → Prop) :
    db.BalancedBut codec p :=
  ⟨⟨h.totals, h.clamps, h.distinct⟩, fun row hrow _ => h.retained row hrow,
    fun b hb _ => h.tracked b hb⟩

theorem accounted_empty : (empty : Db β).Accounted codec where
  totals := rfl
  clamps := rfl
  retained := by rintro row ⟨⟩
  tracked := by rintro b ⟨⟩
  distinct := by rintro row ⟨⟩

/-! ### Clamps -/

theorem clampedSub_of_le {a b : ℤ} (h : b ≤ a) : clampedSub a b = a - b :=
  max_eq_right (Int.sub_nonneg_of_le h)

theorem clampCount_of_le {a b : ℤ} (h : b ≤ a) : clampCount a b = 0 :=
  if_neg (by omega)

theorem messageCount_nonneg (row : MessageBlock β) : 0 ≤ row.messageCount :=
  Int.natCast_nonneg _

/-- A block's messages are among those of its channel. -/
theorem messageCount_le_held {row : MessageBlock β} (h : row ∈ db.messageBlocks.rows) :
    row.messageCount ≤ db.held row.channelKey := by
  have hle := KeyTable.le_total (g := fun q : MessageBlock β =>
    if q.channelKey = row.channelKey then q.messageCount else 0) h fun q _ => by
      split
      · exact messageCount_nonneg q
      · exact le_rfl
  rwa [if_pos rfl] at hle

/-! ### Deleting a block -/

theorem held_deleteBlock {row : MessageBlock β}
    (h : db.messageBlocks.lookup row.id = some row) (c : String) :
    (db.deleteBlock codec row.id).held c =
      db.held c - if row.channelKey = c then row.messageCount else 0 := by
  rw [held, deleteBlock, h]
  exact KeyTable.total_erase h

/-- The delete trigger keeps the totals exact, and none of its clamps acts. -/
theorem books_deleteBlock {row : MessageBlock β}
    (h : db.messageBlocks.lookup row.id = some row) (hb : db.Books codec) :
    (db.deleteBlock codec row.id).Books codec := by
  have hrow := KeyTable.mem_of_lookup h
  have hblocks : (1 : ℤ) ≤ db.storeTotals.blocks := by
    rw [hb.totals]
    exact KeyTable.le_total (g := fun _ => 1) hrow fun _ _ => zero_le_one
  have hmessages : (row.block.messageCount : ℤ) ≤ db.storeTotals.messages := by
    rw [hb.totals]
    exact KeyTable.le_total (g := MessageBlock.messageCount) hrow fun q _ => messageCount_nonneg q
  have hcompressed : (codec.len row.block.payload : ℤ) ≤ db.storeTotals.compressedBytes := by
    rw [hb.totals]
    exact KeyTable.le_total (g := fun q : MessageBlock β => (codec.len q.block.payload : ℤ)) hrow
      fun q _ => Int.natCast_nonneg _
  have huncompressed : (row.block.uncompressedBytes : ℤ) ≤ db.storeTotals.uncompressedBytes := by
    rw [hb.totals]
    exact KeyTable.le_total (g := fun q : MessageBlock β => (q.block.uncompressedBytes : ℤ)) hrow
      fun q _ => Int.natCast_nonneg _
  refine ⟨?_, ?_, fun q hq q' hq' => ?_⟩
  · rw [deleteBlock, h]
    simp only [onDelete, blockTotals, clampedSub_of_le hblocks, clampedSub_of_le hmessages,
      clampedSub_of_le hcompressed, clampedSub_of_le huncompressed, KeyTable.total_erase h]
    rw [hb.totals]
    rfl
  · rw [deleteBlock, h]
    simp only [onDeleteClamps, clampCount_of_le hblocks, clampCount_of_le hmessages,
      clampCount_of_le hcompressed, clampCount_of_le huncompressed, hb.clamps]
  · exact hb.distinct q (mem_deleteBlock.mp hq).1 q' (mem_deleteBlock.mp hq').1

theorem balancedBut_deleteBlock {row : MessageBlock β}
    (h : db.messageBlocks.lookup row.id = some row) (hp : p row.channelKey)
    (hdb : db.BalancedBut codec p) : (db.deleteBlock codec row.id).BalancedBut codec p := by
  have hchannels := (policy_deleteBlock codec db row.id).2.2
  refine ⟨books_deleteBlock h hdb.books, fun q hq hnot => ?_, fun b hb hnot => ?_⟩
  · rw [hchannels] at hq
    have hne : row.channelKey ≠ q.channelKey := fun heq => hnot (heq ▸ hp)
    rw [held_deleteBlock h, if_neg hne, sub_zero]
    exact hdb.retained q hq hnot
  · rw [hchannels]
    exact hdb.tracked b (mem_deleteBlock.mp hb).1 hnot

/-! ### Removing blocks and releasing their messages -/

theorem accounted_of_balancedBut (h : db.BalancedBut codec (· = c))
    (hretained : ∀ row ∈ db.channels.rows, row.channelKey = c → row.retainedMessages = db.held c)
    (htracked : ∀ b ∈ db.messageBlocks.rows, b.channelKey = c → ∃ row ∈ db.channels.rows,
      row.channelKey = c ∧ b.blockSequence < row.nextBlockSequence) : db.Accounted codec where
  totals := h.books.totals
  clamps := h.books.clamps
  retained := by
    intro row hrow
    by_cases hc : row.channelKey = c
    · rw [hretained row hrow hc, hc]
    · exact h.retained row hrow hc
  tracked := by
    intro b hb
    by_cases hc : b.channelKey = c
    · obtain ⟨row, hrow, hkey, hlt⟩ := htracked b hb hc
      exact ⟨row, hrow, hkey.trans hc.symm, hlt⟩
    · exact h.tracked b hb hc
  distinct := h.books.distinct

theorem releaseMessages_eq {ch : ChannelRow} (h : db.channels.lookup c = some ch)
    (messages : ℤ) : db.releaseMessages c messages =
      { db with
        channels := db.channels.modify c (ChannelRow.release messages)
          (ChannelRow.channelKey_release messages)
        clamps := db.clamps + clampCount ch.retainedMessages messages } := by
  rw [releaseMessages, h]

theorem mem_releaseMessages {ch : ChannelRow} (h : db.channels.lookup c = some ch)
    (messages : ℤ) {q : ChannelRow} : q ∈ (db.releaseMessages c messages).channels.rows ↔
      (q ∈ db.channels.rows ∧ q.channelKey ≠ c) ∨
        ∃ r ∈ db.channels.rows, r.channelKey = c ∧ q = r.release messages := by
  rw [releaseMessages_eq h]
  show q ∈ (db.channels.modify c (ChannelRow.release messages)
    (ChannelRow.channelKey_release messages)).rows ↔ _
  exact KeyTable.mem_modify

/-- **Deleting a block and releasing its messages** keeps the books. -/
theorem accounted_removeBlock {row : MessageBlock β} (hrow : row ∈ db.messageBlocks.rows)
    (hdb : db.Accounted codec) : (db.removeBlock codec row).Accounted codec := by
  have hlookup := KeyTable.lookup_of_mem hrow
  have hbut := balancedBut_deleteBlock (p := (· = row.channelKey)) hlookup rfl
    (hdb.balancedBut _)
  have hchannels := (policy_deleteBlock codec db row.id).2.2
  obtain ⟨ch, hch, hkey, hlt⟩ := hdb.tracked row hrow
  have hlookup' : (db.deleteBlock codec row.id).channels.lookup row.channelKey = some ch := by
    rw [hchannels]
    exact KeyTable.lookup_eq_some.mpr ⟨hch, hkey⟩
  -- the row of the channel counts the block, so nothing is clamped
  have hle : row.messageCount ≤ ch.retainedMessages := by
    rw [hdb.retained ch hch, hkey]
    exact messageCount_le_held hrow
  have hheld : clampedSub ch.retainedMessages row.messageCount =
      (db.deleteBlock codec row.id).held row.channelKey := by
    rw [clampedSub_of_le hle, held_deleteBlock hlookup, if_pos rfl, hdb.retained ch hch, hkey]
  rw [removeBlock]
  have hrows := fun q => mem_releaseMessages hlookup' row.messageCount (q := q)
  have hsame := releaseMessages_eq hlookup' row.messageCount
  refine accounted_of_balancedBut (c := row.channelKey) ⟨⟨?_, ?_, ?_⟩, fun q hq hne => ?_,
    fun b hb hne => ?_⟩ (fun q hq hc => ?_) fun b hb hc => ?_
  · rw [hsame]
    exact hbut.books.totals
  · rw [hsame]
    dsimp only
    rw [hbut.books.clamps, clampCount_of_le hle]
  · rw [hsame]
    exact hbut.books.distinct
  · have hheld' : ∀ d, ((db.deleteBlock codec row.id).releaseMessages row.channelKey
        row.messageCount).held d = (db.deleteBlock codec row.id).held d := by rw [hsame]; intro; rfl
    rcases (hrows q).mp hq with ⟨hq, -⟩ | ⟨q', -, hq', rfl⟩
    · rw [hheld']
      exact hbut.retained q hq hne
    · exact absurd hq' hne
  · rw [hsame] at hb
    obtain ⟨q, hq, hqb, hlt⟩ := hbut.tracked b hb hne
    exact ⟨q, (hrows q).mpr (.inl ⟨hq, fun h => hne (hqb.symm.trans h)⟩), hqb, hlt⟩
  · rw [hsame]
    rcases (hrows q).mp hq with ⟨-, hq'⟩ | ⟨q', hmem, hq', rfl⟩
    · exact absurd hc hq'
    · obtain rfl : q' = ch := KeyTable.eq_of_key _ hmem (KeyTable.mem_of_lookup hlookup')
        (hq'.trans hkey.symm)
      exact hheld
  · rw [hsame] at hb
    obtain ⟨q, hq, hqb, hlt⟩ := hdb.tracked b (mem_deleteBlock.mp hb).1
    rw [← hchannels] at hq
    exact ⟨_, (hrows _).mpr (.inr ⟨q, hq, hqb.trans hc, rfl⟩), hqb.trans hc, hlt⟩

/-! ### Dropping channels -/

theorem balancedBut_deleteBlocks {ids : List ℤ} (hdb : db.BalancedBut codec p)
    (hids : ∀ row ∈ db.messageBlocks.rows, row.id ∈ ids → p row.channelKey) :
    (db.deleteBlocks codec ids).BalancedBut codec p := by
  induction ids generalizing db with
  | nil => exact hdb
  | cons id ids ih =>
    refine ih ?_ fun row hrow hid =>
      hids row (mem_deleteBlock.mp hrow).1 (List.mem_cons_of_mem id hid)
    rcases e : db.messageBlocks.lookup id with - | row
    · rw [deleteBlock, e]
      exact hdb
    · obtain ⟨hrow, rfl⟩ := KeyTable.lookup_eq_some.mp e
      exact balancedBut_deleteBlock e (hids row hrow List.mem_cons_self) hdb

theorem balancedBut_deleteBlocksOf (hp : p c) (hdb : db.BalancedBut codec p) :
    (db.deleteBlocksOf codec c).BalancedBut codec p := by
  refine balancedBut_deleteBlocks hdb fun row hrow hid => ?_
  obtain ⟨q, hq, hqid⟩ := List.mem_map.mp hid
  obtain ⟨hq, hc⟩ := mem_blocksOf.mp hq
  rw [db.messageBlocks.eq_of_key hrow hq hqid.symm, hc]
  exact hp

theorem channels_deleteBlocks (codec : Codec β) (db : Db β) (ids : List ℤ) :
    (db.deleteBlocks codec ids).channels = db.channels := by
  induction ids generalizing db with
  | nil => rfl
  | cons id ids ih =>
    rw [deleteBlocks, List.foldl_cons, ← deleteBlocks, ih]
    exact (policy_deleteBlock codec db id).2.2

theorem channels_deleteBlocksOf (codec : Codec β) (db : Db β) (c : String) :
    (db.deleteBlocksOf codec c).channels = db.channels := channels_deleteBlocks codec db _

/-- The cascade of `deleteChannelsWhere`. -/
theorem foldl_deleteBlocksOf (doomed : List String) (hp : ∀ c ∈ doomed, p c)
    (hdb : db.BalancedBut codec p) :
    (doomed.foldl (deleteBlocksOf codec) db).BalancedBut codec p ∧
      (doomed.foldl (deleteBlocksOf codec) db).channels = db.channels ∧
      ∀ row, row ∈ (doomed.foldl (deleteBlocksOf codec) db).messageBlocks.rows ↔
        row ∈ db.messageBlocks.rows ∧ row.channelKey ∉ doomed := by
  induction doomed generalizing db with
  | nil => exact ⟨hdb, rfl, fun row => by simp⟩
  | cons c doomed ih =>
    obtain ⟨hbut, hchannels, hrows⟩ := ih (fun d hd => hp d (List.mem_cons_of_mem c hd))
      (balancedBut_deleteBlocksOf (hp c List.mem_cons_self) hdb)
    refine ⟨hbut, hchannels.trans (channels_deleteBlocksOf codec db c), fun row => ?_⟩
    rw [List.foldl_cons, hrows, mem_deleteBlocksOf, List.mem_cons, not_or, and_assoc]

/-- **Deleting channel rows** settles the books, when the channels that were out
of balance are among them. -/
theorem accounted_deleteChannelsWhere {q : ChannelRow → Bool} (hdb : db.BalancedBut codec p)
    (hp : ∀ row ∈ db.channels.rows, p row.channelKey → q row = true)
    (hblocks : ∀ b ∈ db.messageBlocks.rows, p b.channelKey →
      ∃ row ∈ db.channels.rows, row.channelKey = b.channelKey) :
    (db.deleteChannelsWhere codec q).Accounted codec := by
  obtain ⟨hbut, hchannels, hrows⟩ := foldl_deleteBlocksOf
    ((db.channels.rows.filter q).map (·.channelKey))
    (p := fun c => p c ∨ c ∈ (db.channels.rows.filter q).map (·.channelKey)) (fun c hc => .inr hc)
    ⟨hdb.books, fun row hrow hnot => hdb.retained row hrow fun h => hnot (.inl h),
      fun b hb hnot => hdb.tracked b hb fun h => hnot (.inl h)⟩
  -- a channel row that stays is not the row of a doomed channel
  have hstays : ∀ row ∈ db.channels.rows, q row = false →
      ¬ (p row.channelKey ∨ row.channelKey ∈ (db.channels.rows.filter q).map (·.channelKey)) := by
    rintro row hrow hq (h | h)
    · rw [hp row hrow h] at hq
      cases hq
    · obtain ⟨row', hrow', hkey⟩ := List.mem_map.mp h
      obtain ⟨hmem, hq'⟩ := List.mem_filter.mp hrow'
      rw [db.channels.eq_of_key hmem hrow hkey, hq] at hq'
      cases hq'
  refine ⟨hbut.books.totals, hbut.books.clamps, fun row hrow => ?_, fun b hb => ?_,
    hbut.books.distinct⟩
  · obtain ⟨hrow, hq⟩ := KeyTable.mem_deleteWhere.mp hrow
    rw [hchannels] at hrow
    exact hbut.retained row (by rw [hchannels]; exact hrow) (hstays row hrow hq)
  · obtain ⟨hb₀, hdoomed⟩ := (hrows b).mp hb
    have hnot : ¬ (p b.channelKey ∨
        b.channelKey ∈ (db.channels.rows.filter q).map (·.channelKey)) := by
      rintro (h | h)
      · obtain ⟨row, hrow, hkey⟩ := hblocks b hb₀ h
        exact hdoomed (List.mem_map.mpr
          ⟨row, List.mem_filter.mpr ⟨hrow, hp row hrow (hkey ▸ h)⟩, hkey⟩)
      · exact hdoomed h
    obtain ⟨row, hrow, hkey, hlt⟩ := hbut.tracked b hb hnot
    refine ⟨row, KeyTable.mem_deleteWhere.mpr ⟨hrow, Bool.not_eq_true _ ▸ fun hq => ?_⟩, hkey, hlt⟩
    rw [hchannels] at hrow
    exact hdoomed (List.mem_map.mpr ⟨row, List.mem_filter.mpr ⟨hrow, hq⟩, hkey⟩)

/-- **Dropping a channel with its blocks** keeps the books. -/
theorem accounted_dropChannel (hdb : db.Accounted codec) (c : String) :
    (db.dropChannel codec c).Accounted codec := by
  refine accounted_deleteChannelsWhere (p := (· = c))
    (balancedBut_deleteBlocksOf rfl (hdb.balancedBut _)) (fun row _ hc => decide_eq_true hc)
    fun b hb hc => absurd hc (mem_deleteBlocksOf.mp hb).2

/-! ### Appending -/

theorem accounted_insertChannel (hdb : db.Accounted codec) (c : String) :
    (db.insertChannel c).Accounted codec where
  totals := hdb.totals
  clamps := hdb.clamps
  retained := by
    intro row hrow
    rcases KeyTable.mem_insertIgnore.mp hrow with hold | ⟨rfl, hnew⟩
    · exact hdb.retained row hold
    · -- a channel without a row has no block
      have hzero : db.held c = db.messageBlocks.total fun _ => 0 := by
        refine KeyTable.total_congr fun b hb => if_neg fun hc => ?_
        obtain ⟨row, hrow, hkey, -⟩ := hdb.tracked b hb
        exact KeyTable.lookup_eq_none.mp hnew row hrow (hkey.trans hc)
      show (0 : ℤ) = db.held c
      rw [hzero]
      simp [KeyTable.total]
  tracked := by
    intro b hb
    obtain ⟨row, hrow, hkey, hlt⟩ := hdb.tracked b hb
    exact ⟨row, KeyTable.mem_insertIgnore.mpr (.inl hrow), hkey, hlt⟩
  distinct := hdb.distinct

/-- **Writing a block back** with as many messages as before keeps the books. -/
theorem accounted_rewrites (h : Rewrites codec db db') (hdb : db.Accounted codec) :
    db'.Accounted codec := by
  obtain ⟨id, b, row, hlookup, hcount, rfl⟩ := h
  have hchannels := (policy_updateBlock codec db id b).2.2
  have hrows := rows_updateBlock codec b hlookup
  have hheld : ∀ c, (db.updateBlock codec id b).held c = db.held c := by
    intro c
    have htotal : (db.messageBlocks.modify id (MessageBlock.rewrite b)
        (MessageBlock.id_rewrite b)).total (fun row : MessageBlock β =>
          if row.channelKey = c then row.messageCount else 0) = db.held c := by
      rw [KeyTable.total_modify hlookup]
      show db.held c - (if row.channelKey = c then row.messageCount else 0) +
        (if row.channelKey = c then (b.messageCount : ℤ) else 0) = db.held c
      rw [hcount]
      exact sub_add_cancel _ _
    rw [held, updateBlock, hlookup]
    exact htotal
  -- the rewritten blocks keep their channels and sequences
  have hmem : ∀ q ∈ (db.updateBlock codec id b).messageBlocks.rows, ∃ q₀ ∈ db.messageBlocks.rows,
      q = (if q₀.id = id then MessageBlock.rewrite b q₀ else q₀) ∧
        q.channelKey = q₀.channelKey ∧ q.blockSequence = q₀.blockSequence := by
    intro q hq
    rw [hrows] at hq
    obtain ⟨q₀, hq₀, rfl⟩ := List.mem_map.mp hq
    refine ⟨q₀, hq₀, rfl, ?_⟩
    split <;> exact ⟨rfl, rfl⟩
  refine ⟨?_, ?_, fun q hq => ?_, fun q hq => ?_, fun q hq q' hq' hc hs => ?_⟩
  · have hmessages : ((MessageBlock.rewrite b row).messageCount : ℤ) = row.messageCount := hcount
    rw [updateBlock, hlookup]
    simp only [onUpdate, blockTotals, KeyTable.total_modify hlookup, hdb.totals, hmessages]
    rw [StoreTotals.mk.injEq]
    refine ⟨(sub_add_cancel _ _).symm, ?_, ?_, ?_⟩
    · rw [sub_add_cancel, hcount]
      exact add_sub_cancel_right _ _
    · exact add_sub_right_comm _ _ _
    · exact add_sub_right_comm _ _ _
  · rw [updateBlock, hlookup]
    exact hdb.clamps
  · rw [hheld]
    exact hdb.retained q (hchannels ▸ hq)
  · obtain ⟨q₀, hq₀, -, hc, hs⟩ := hmem q hq
    rw [hchannels, hc, hs]
    exact hdb.tracked q₀ hq₀
  · obtain ⟨q₀, hq₀, heq, hc₀, hs₀⟩ := hmem q hq
    obtain ⟨q₁, hq₁, heq', hc₁, hs₁⟩ := hmem q' hq'
    rw [heq, heq', hdb.distinct q₀ hq₀ q₁ hq₁ (by rw [← hc₀, hc, hc₁]) (by rw [← hs₀, hs, hs₁])]

theorem Accounted.balanced {row : ChannelRow} (hdb : db.Accounted codec)
    (h : db.channels.lookup c = some row) :
    db.Balanced codec c row.nextBlockSequence row.retainedMessages := by
  obtain ⟨hrow, rfl⟩ := KeyTable.lookup_eq_some.mp h
  refine ⟨hdb.balancedBut _, by rw [h]; exact Option.some_ne_none _, hdb.retained row hrow,
    fun b hb hc => ?_⟩
  obtain ⟨row', hrow', hkey, hlt⟩ := hdb.tracked b hb
  rwa [db.channels.eq_of_key hrow' hrow (hkey.trans hc)] at hlt

variable {next retained : ℤ}

/-- **Inserting a block** advances what the append knows about its channel. -/
theorem balanced_insertBlock {b : EncodedBlock β} (h : db.insertBlock codec c next b = .ok db')
    (hdb : db.Balanced codec c next retained) :
    db'.Balanced codec c (next + 1) (retained + b.messageCount) := by
  obtain ⟨-, hforeign, rfl⟩ := insertBlock_eq_ok h
  have hlookup : db.messageBlocks.lookup
      (MessageBlock.mk db.nextId next { b with channelKey := c }).id = none := db.lookup_nextId
  have hheld : ∀ d, ({ db with
      messageBlocks := db.messageBlocks.insertIgnore ⟨db.nextId, next, { b with channelKey := c }⟩
      storeTotals := onInsert codec b db.storeTotals } : Db β).held d =
      db.held d + if c = d then (b.messageCount : ℤ) else 0 := fun d =>
    KeyTable.total_insertIgnore hlookup
  have hmem : ∀ q, q ∈ (db.messageBlocks.insertIgnore
      ⟨db.nextId, next, { b with channelKey := c }⟩).rows →
      q ∈ db.messageBlocks.rows ∨ q = ⟨db.nextId, next, { b with channelKey := c }⟩ :=
    fun q hq => (KeyTable.mem_insertIgnore.mp hq).imp_right And.left
  refine ⟨⟨⟨?_, hdb.others.books.clamps, fun q hq q' hq' hc hs => ?_⟩, fun row hrow hne => ?_,
    fun q hq hne => ?_⟩, hdb.present, ?_, fun q hq hc => ?_⟩
  · simp only [onInsert, blockTotals, KeyTable.total_insertIgnore hlookup,
      hdb.others.books.totals]
    rfl
  · -- the new block is the only one of its channel at `next`
    rcases hmem q hq with hq | rfl <;> rcases hmem q' hq' with hq' | rfl
    · exact hdb.others.books.distinct q hq q' hq' hc hs
    · exact absurd hs (hdb.own_next q hq hc).ne
    · exact absurd hs.symm (hdb.own_next q' hq' hc.symm).ne
    · rfl
  · rw [hheld, if_neg (Ne.symm hne), add_zero]
    exact hdb.others.retained row hrow hne
  · rcases hmem q hq with hq | rfl
    · exact hdb.others.tracked q hq hne
    · exact absurd rfl hne
  · rw [hheld, if_pos rfl, hdb.own_retained]
  · rcases hmem q hq with hq | rfl
    · exact (hdb.own_next q hq hc).trans (lt_add_one next)
    · exact lt_add_one next

theorem balanced_insertChunks {store : SqliteBlockStore} {records : List CanonicalRecord}
    {next' retained' : ℤ} (hdb : db.Balanced codec c next retained)
    (h : db.insertChunks codec store c records next retained = .ok (db', next', retained')) :
    db'.Balanced codec c next' retained' := by
  refine Except.foldlM_invariant
    (fun s : Db β × ℤ × ℤ => s.1.Balanced codec c s.2.1 s.2.2) ?_ hdb h
  rintro ⟨db₁, next₁, retained₁⟩ s' chunk - hs hstep
  obtain ⟨encoded, -, hstep⟩ := Except.bind_eq_ok.mp hstep
  obtain ⟨db₂, hinsert, hstep⟩ := Except.bind_eq_ok.mp hstep
  cases hstep
  exact balanced_insertBlock hinsert hs

/-- Deleting a block of the channel changes what the append knows by its count. -/
theorem balanced_deleteOldest (hdb : db.Balanced codec c next retained) {oldest : MessageBlock β}
    (holdest : oldest ∈ db.messageBlocks.rows) (hc : oldest.channelKey = c) :
    ({ db.deleteBlock codec oldest.id with evicted := db.evicted ++ [oldest] } :
      Db β).Balanced codec c next (retained - oldest.messageCount) := by
  have hlookup := KeyTable.lookup_of_mem holdest
  have hbut := balancedBut_deleteBlock (p := (· = c)) hlookup hc hdb.others
  have hchannels := (policy_deleteBlock codec db oldest.id).2.2
  refine ⟨⟨⟨hbut.books.totals, hbut.books.clamps, hbut.books.distinct⟩, hbut.retained,
    hbut.tracked⟩, ?_, ?_, fun b hb hc => hdb.own_next b (mem_deleteBlock.mp hb).1 hc⟩
  · show (db.deleteBlock codec oldest.id).channels.lookup c ≠ none
    rw [hchannels]
    exact hdb.present
  · show retained - oldest.messageCount = (db.deleteBlock codec oldest.id).held c
    rw [held_deleteBlock hlookup, if_pos hc, hdb.own_retained]

theorem balanced_evictOldest (store : SqliteBlockStore) (rounds : ℕ)
    (hdb : db.Balanced codec c next retained) :
    (evictOldest codec store c rounds db retained).1.Balanced codec c next
      (evictOldest codec store c rounds db retained).2 := by
  induction rounds generalizing db retained with
  | zero => exact hdb
  | succ rounds ih =>
    rw [evictOldest]
    split
    · rcases e : db.blocksOf c with - | ⟨oldest, rest⟩
      · exact hdb
      · obtain ⟨holdest, hc⟩ :=
          mem_blocksOf.mp (show oldest ∈ db.blocksOf c from e ▸ List.mem_cons_self)
        exact ih (balanced_deleteOldest hdb holdest hc)
    · exact hdb

theorem mem_retainMessages {q : ChannelRow} :
    q ∈ (db.retainMessages c next retained).channels.rows ↔
      (q ∈ db.channels.rows ∧ q.channelKey ≠ c) ∨
        ∃ r ∈ db.channels.rows, r.channelKey = c ∧ q = r.retain next retained := by
  show q ∈ (db.channels.modify c (ChannelRow.retain next retained)
    (ChannelRow.channelKey_retain next retained)).rows ↔ _
  exact KeyTable.mem_modify

/-- **Writing the channel row back** settles the books. -/
theorem accounted_retainMessages (hdb : db.Balanced codec c next retained) :
    (db.retainMessages c next retained).Accounted codec := by
  obtain ⟨own, hown⟩ := Option.ne_none_iff_exists'.mp hdb.present
  obtain ⟨hmem, hkey⟩ := KeyTable.lookup_eq_some.mp hown
  refine accounted_of_balancedBut (c := c) ⟨⟨hdb.others.books.totals, hdb.others.books.clamps,
    hdb.others.books.distinct⟩, fun q hq hne => ?_, fun b hb hne => ?_⟩ (fun q hq hc => ?_)
    fun b hb hc => ?_
  · rcases mem_retainMessages.mp hq with ⟨hq, -⟩ | ⟨r, -, hr, rfl⟩
    · exact hdb.others.retained q hq hne
    · exact absurd hr hne
  · obtain ⟨q, hq, hqb, hlt⟩ := hdb.others.tracked b hb hne
    exact ⟨q, mem_retainMessages.mpr (.inl ⟨hq, fun h => hne (hqb.symm.trans h)⟩), hqb, hlt⟩
  · rcases mem_retainMessages.mp hq with ⟨-, hq'⟩ | ⟨r, -, -, rfl⟩
    · exact absurd hc hq'
    · exact hdb.own_retained
  · exact ⟨own.retain next retained, mem_retainMessages.mpr (.inr ⟨own, hmem, hkey, rfl⟩), hkey,
      hdb.own_next b hb hc⟩

variable {store : SqliteBlockStore}

theorem channels_rewrites (h : Relation.ReflTransGen (Rewrites codec) db db') :
    db'.channels = db.channels := by
  induction h with
  | refl => rfl
  | tail _ hstep ih =>
    obtain ⟨id, b, row, -, -, rfl⟩ := hstep
    rw [(policy_updateBlock codec _ id b).2.2, ih]

theorem accounted_of_rewrites (h : Relation.ReflTransGen (Rewrites codec) db db')
    (hdb : db.Accounted codec) : db'.Accounted codec := by
  induction h with
  | refl => exact hdb
  | tail _ hstep ih => exact accounted_rewrites hstep ih

/-- **An append** keeps the books. -/
theorem accounted_appendAdmitted {records : List CanonicalRecord} {first last : ℤ}
    (hchannel : ∀ r ∈ records, r.channelKey = c) (hread : db.Readable codec)
    (hdb : db.Accounted codec)
    (h : db.appendAdmitted codec store c records first last = .ok db') :
    db'.Accounted codec := by
  obtain ⟨index, merged, db₁, -, hmerged, -, hrewrite, hend⟩ :=
    appendAdmitted_stages hchannel hread h
  obtain ⟨-, -, -, -, -, hrewrites⟩ := rewriteDirty_eq_ok
    (fun block hblock =>
      let ⟨row, hrow, hup⟩ := hmerged.upgraded block hblock
      ⟨row, (mem_overlapping hrow).1, hup⟩) hread hrewrite
  have haccounted : db₁.Accounted codec := accounted_of_rewrites hrewrites hdb
  rcases hend with ⟨-, rfl⟩ | ⟨row, db₂, next, retained, -, hrow, hinsert, rfl⟩
  · exact haccounted
  · exact accounted_retainMessages (balanced_evictOldest store _
      (balanced_insertChunks (haccounted.balanced hrow) hinsert))

theorem accounted_appendBatch {records : List CanonicalRecord} (hread : db.Readable codec)
    (hdb : db.Accounted codec) (h : db.appendBatch codec store records = .ok db') :
    db'.Accounted codec := by
  rcases appendBatch_cases h with ⟨rfl, -⟩ | ⟨c, first, last, hchannel, -, -, -, happend⟩
  · exact hdb
  · have hread₀ : (db.insertChannel c).Readable codec := hread
    exact accounted_appendAdmitted (fun r hr => hchannel r (mem_admitted.mp hr).1) hread₀
      (accounted_insertChannel hdb _) happend

/-- **`append_channel_batches`** keeps the books. -/
theorem accounted_appendChannelBatches {batches : List (List CanonicalRecord)}
    (hread : db.Readable codec) (hdb : db.Accounted codec)
    (h : db.appendChannelBatches codec store batches = .ok db') : db'.Accounted codec := by
  refine (Except.foldlM_invariant (fun db : Db β => db.Readable codec ∧ db.Accounted codec) ?_
    ⟨hread, hdb⟩ h).2
  rintro db₁ db₂ records - ⟨hread₁, hdb₁⟩ hstep
  obtain ⟨gone, happ⟩ := appendBatch_eq_ok hread₁ hstep
  exact ⟨happ.readable, accounted_appendBatch hread₁ hdb₁ hstep⟩

/-! ### Eviction, expiry and policy -/

/-- Removing several distinct blocks keeps the books. -/
theorem accounted_foldl_removeBlock {rows : List (MessageBlock β)}
    (hrows : ∀ row ∈ rows, row ∈ db.messageBlocks.rows) (hnodup : (rows.map (·.id)).Nodup)
    (hdb : db.Accounted codec) : (rows.foldl (removeBlock codec) db).Accounted codec := by
  induction rows generalizing db with
  | nil => exact hdb
  | cons row rows ih =>
    obtain ⟨hnot, hnodup⟩ := List.nodup_cons.mp hnodup
    refine ih (fun q hq => mem_removeBlock.mpr ⟨hrows q (List.mem_cons_of_mem row hq), ?_⟩)
      hnodup (accounted_removeBlock (hrows row List.mem_cons_self) hdb)
    exact fun hid => hnot (List.mem_map.mpr ⟨q, hq, hid⟩)

theorem nodup_expired (db : Db β) (cutoff : ℤ) : ((db.expired cutoff).map (·.id)).Nodup := by
  refine List.Nodup.sublist ((List.take_sublist _ _).map _) ?_
  refine ((sortByKey_perm _).map _).nodup_iff.mpr ?_
  exact db.messageBlocks.nodup.sublist (List.filter_sublist.map _)

/-- **Expiry** keeps the books, wherever it stops. -/
theorem accounted_expireTransactions (cutoff : ℤ) (n : ℕ) (stats : ExpireStats)
    (hread : db.Readable codec) (hdb : db.Accounted codec) :
    (expireTransactions codec cutoff n db stats).1.Readable codec ∧
      (expireTransactions codec cutoff n db stats).1.Accounted codec := by
  induction n generalizing db stats with
  | zero => exact ⟨hread, hdb⟩
  | succ n ih =>
    rw [expireTransactions]
    split
    · exact ⟨fun row hrow => hread row (mem_deleteChannelsWhere.mp hrow).1,
        accounted_deleteChannelsWhere (hdb.balancedBut fun _ => False) (fun _ _ => False.elim)
          fun _ _ => False.elim⟩
    · rename_i row rows e
      refine ih _ ((Reduced.foldl (reduced_removeBlock codec) _ db).readable hread)
        (accounted_foldl_removeBlock (fun q hq => ?_) ?_ hdb)
      · exact (mem_expired (e ▸ hq)).1
      · exact e ▸ nodup_expired db cutoff

/-- **Pressure eviction** keeps the books. -/
theorem accounted_evictBlockIds {ids : List ℕ} {deleted : ℕ} (hread : db.Readable codec)
    (hdb : db.Accounted codec) (h : db.evictBlockIds codec ids = .ok (deleted, db')) :
    db'.Readable codec ∧ db'.Accounted codec := by
  refine Except.foldlM_invariant
    (fun s : ℕ × Db β => s.2.Readable codec ∧ s.2.Accounted codec) ?_ ⟨hread, hdb⟩ h
  rintro ⟨n, db₁⟩ s' id - ⟨hread₁, hdb₁⟩ hstep
  obtain ⟨id', -, hstep⟩ := Except.bind_eq_ok.mp hstep
  split at hstep
  · cases hstep
    exact ⟨hread₁, hdb₁⟩
  · rename_i row hrow
    cases hstep
    exact ⟨(reduced_removeBlock codec db₁ row).readable hread₁,
      accounted_removeBlock (KeyTable.mem_of_lookup hrow) hdb₁⟩

/-- A change of the policy tables touches no counter. -/
theorem accounted_policy (hdb : db.Accounted codec) (hchannels : db'.channels = db.channels)
    (hblocks : db'.messageBlocks = db.messageBlocks) (htotals : db'.storeTotals = db.storeTotals)
    (hclamps : db'.clamps = db.clamps) : db'.Accounted codec := by
  have hheld : ∀ c, db'.held c = db.held c := fun c => by rw [held, held, hblocks]
  refine ⟨?_, hclamps.trans hdb.clamps, fun row hrow => ?_, fun b hb => ?_, ?_⟩
  · rw [htotals, hdb.totals, blockTotals, blockTotals, hblocks]
  · rw [hheld]
    exact hdb.retained row (hchannels ▸ hrow)
  · rw [hchannels]
    exact hdb.tracked b (hblocks ▸ hb)
  · rw [hblocks]
    exact hdb.distinct

/-- **`sync_blocked_channels`** keeps the books. -/
theorem accounted_syncBlockedChannels {channels : List String} (hread : db.Readable codec)
    (hdb : db.Accounted codec) (h : db.syncBlockedChannels codec channels = .ok db') :
    db'.Readable codec ∧ db'.Accounted codec := by
  have hstart : ({ db with blockedChannels := KeyTable.empty } : Db β).Readable codec ∧
      ({ db with blockedChannels := KeyTable.empty } : Db β).Accounted codec :=
    ⟨hread, accounted_policy hdb rfl rfl rfl rfl⟩
  refine Except.foldlM_invariant (fun db : Db β => db.Readable codec ∧ db.Accounted codec) ?_
    hstart h
  rintro db₁ db₂ c - ⟨hread₁, hdb₁⟩ hstep
  unfold syncBlocked at hstep
  split at hstep
  · cases hstep
  · rename_i blockedChannels _
    cases hstep
    have hread₂ : ({ db₁ with blockedChannels } : Db β).Readable codec := hread₁
    have hdb₂ : ({ db₁ with blockedChannels } : Db β).Accounted codec :=
      accounted_policy hdb₁ rfl rfl rfl rfl
    exact ⟨(reduced_dropChannel codec _ c).readable hread₂, accounted_dropChannel hdb₂ c⟩

/-- **`touch_channel_requested`** keeps the books. -/
theorem accounted_touchChannelRequested {requested coalesce : ℕ} {changed : Bool}
    (hdb : db.Accounted codec)
    (h : db.touchChannelRequested c requested coalesce = .ok (changed, db')) :
    db'.Accounted codec ∧ db'.messageBlocks = db.messageBlocks := by
  obtain ⟨requested', -, h⟩ := Except.bind_eq_ok.mp h
  obtain ⟨coalesce', -, h⟩ := Except.bind_eq_ok.mp h
  split at h
  -- a channel without a row gets an empty one
  · rename_i hnone
    cases h
    have hins := accounted_insertChannel hdb c
    refine ⟨⟨hdb.totals, hdb.clamps, fun row hrow => ?_, fun b hb => ?_, hdb.distinct⟩, rfl⟩
    · rcases KeyTable.mem_insertIgnore.mp hrow with hold | ⟨rfl, -⟩
      · exact hdb.retained row hold
      · exact hins.retained ⟨c, 0, 0, 0⟩ (KeyTable.mem_insertIgnore.mpr (.inr ⟨rfl, hnone⟩))
    · obtain ⟨row, hrow, hkey, hlt⟩ := hdb.tracked b hb
      exact ⟨row, KeyTable.mem_insertIgnore.mpr (.inl hrow), hkey, hlt⟩
  -- requests that come soon after another are not written
  · split at h
    · cases h
      have hrows : ∀ q, q ∈ (db.channels.modify c (ChannelRow.touch requested')
          (ChannelRow.channelKey_touch requested')).rows ↔
            (q ∈ db.channels.rows ∧ q.channelKey ≠ c) ∨
              ∃ r ∈ db.channels.rows, r.channelKey = c ∧ q = r.touch requested' :=
        fun q => KeyTable.mem_modify
      refine ⟨⟨hdb.totals, hdb.clamps, fun row hrow => ?_, fun b hb => ?_, hdb.distinct⟩, rfl⟩
      · rcases (hrows row).mp hrow with ⟨hold, -⟩ | ⟨r, hr, -, rfl⟩
        · exact hdb.retained row hold
        · exact hdb.retained r hr
      · obtain ⟨row, hrow, hkey, hlt⟩ := hdb.tracked b hb
        by_cases hc : row.channelKey = c
        · exact ⟨row.touch requested', (hrows _).mpr (.inr ⟨row, hrow, hc, rfl⟩), hkey, hlt⟩
        · exact ⟨row, (hrows _).mpr (.inl ⟨hrow, hc⟩), hkey, hlt⟩
    · cases h
      exact ⟨hdb, rfl⟩

end Db

/-! ### Runs of calls -/

namespace Db

variable {β : Type} {codec : Codec β} {store : SqliteBlockStore} {db : Db β}

/-- **Every call keeps the books.** -/
theorem accounted_call (hread : db.Readable codec) (hdb : db.Accounted codec) (c : StoreCall) :
    (db.call codec store c).Readable codec ∧ (db.call codec store c).Accounted codec := by
  cases c with
  | appendChannelBatches batches =>
    -- a call that fails is rolled back, here and below
    rw [call]
    split
    · rename_i db' h
      obtain ⟨gone, happ⟩ := appendChannelBatches_eq_ok hread h
      exact ⟨happ.readable, accounted_appendChannelBatches hread hdb h⟩
    · exact ⟨hread, hdb⟩
  | evictBlockIds ids =>
    rw [call]
    split
    · rename_i h
      exact accounted_evictBlockIds hread hdb h
    · exact ⟨hread, hdb⟩
  | expireBlocksBefore cutoff n => exact accounted_expireTransactions cutoff n _ hread hdb
  | purgeChannel c t =>
    -- the cutoff is none of the books
    have hread' : (db.raiseCutoff c t).Readable codec := hread
    have hdb' : (db.raiseCutoff c t).Accounted codec := accounted_policy hdb rfl rfl rfl rfl
    exact ⟨(reduced_dropChannel codec _ c).readable hread', accounted_dropChannel hdb' c⟩
  | setChannelBlocked c blocked =>
    -- nor is the list of blocked channels
    cases blocked with
    | true =>
      have hread' : ({ db with blockedChannels := db.blockedChannels.insertIgnore c } :
          Db β).Readable codec := hread
      have hdb' : ({ db with blockedChannels := db.blockedChannels.insertIgnore c } :
          Db β).Accounted codec := accounted_policy hdb rfl rfl rfl rfl
      exact ⟨(reduced_dropChannel codec _ c).readable hread', accounted_dropChannel hdb' c⟩
    | false => exact ⟨hread, accounted_policy hdb rfl rfl rfl rfl⟩
  | syncBlockedChannels channels =>
    rw [call]
    split
    · rename_i h
      exact accounted_syncBlockedChannels hread hdb h
    · exact ⟨hread, hdb⟩
  | touchChannelRequested c requested coalesce =>
    rw [call]
    split
    · rename_i h
      obtain ⟨hacc, hblocks⟩ := accounted_touchChannelRequested hdb h
      exact ⟨fun row hrow => hread row (hblocks ▸ hrow), hacc⟩
    · exact ⟨hread, hdb⟩

theorem accounted_foldl_call (calls : List StoreCall) (hread : db.Readable codec)
    (hdb : db.Accounted codec) : (calls.foldl (call codec store) db).Accounted codec := by
  induction calls generalizing db with
  | nil => exact hdb
  | cons c calls ih =>
    obtain ⟨hread', hdb'⟩ := accounted_call hread hdb c
    exact ih hread' hdb'

/-- **Block-store accounting is exact.**  After every sequence of calls on a new
store, every channel row counts the messages of its blocks and every block has a
channel row, `store_totals` counts blocks, messages and bytes, the block
sequences of a channel are distinct and below its next one, and no clamp has
taken effect. -/
theorem store_accounting_exact (codec : Codec β) (store : SqliteBlockStore)
    (calls : List StoreCall) :
    (calls.foldl (call codec store) Db.empty).Accounted codec :=
  accounted_foldl_call calls readable_empty accounted_empty

end Db

end RecentMessages
