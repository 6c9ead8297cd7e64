/-
RecentMessages/Storage/Expiry.lean

Batched expiry against a filter (`storage/sqlite.rs`).

`expire_blocks_before` deletes at most `expiryBatchBlocks` blocks in a transaction, the oldest ones
first, until a transaction finds none; that one drops the idle channel rows and ends the loop.
What the transactions have left to do is `overdue`: a transaction takes its blocks out of it
(`overdue_perm`), and no block that is not overdue ever goes (`live_foldl_removeBlock`).

* `exists_last` — the loop ends after as many transactions as there are blocks, at the latest;
* `expireTransactions_add` — transactions that are done in two calls are done as in one;
* `expiry_equals_filter` — the result is the filter, with exact counts, whenever a crash comes.
-/
import RecentMessages.Storage.Accounting
import Mathlib.Algebra.BigOperators.Ring.Finset

namespace RecentMessages

namespace Db

variable {β : Type} {codec : Codec β} {db : Db β} {cutoff : ℤ}

/-- The blocks that an expiry keeps. -/
def live (cutoff : ℤ) (db : Db β) : List (MessageBlock β) :=
  db.messageBlocks.rows.filter fun row => cutoff ≤ row.block.lastEventAtMs

/-- The blocks that an expiry deletes. -/
def overdue (cutoff : ℤ) (db : Db β) : List (MessageBlock β) :=
  db.messageBlocks.rows.filter fun row => row.block.lastEventAtMs < cutoff

theorem mem_overdue {row : MessageBlock β} :
    row ∈ db.overdue cutoff ↔ row ∈ db.messageBlocks.rows ∧ row.block.lastEventAtMs < cutoff := by
  simp [overdue]

theorem mem_live {row : MessageBlock β} :
    row ∈ db.live cutoff ↔ row ∈ db.messageBlocks.rows ∧ cutoff ≤ row.block.lastEventAtMs := by
  simp [live]

/-! ### One transaction -/

theorem rows_removeBlock (codec : Codec β) (db : Db β) (row : MessageBlock β) :
    (db.removeBlock codec row).messageBlocks.rows =
      db.messageBlocks.rows.filter fun q => q.id ≠ row.id := by
  rw [messageBlocks_removeBlock, deleteBlock]
  split
  · rename_i hnone
    symm
    apply List.filter_eq_self.mpr
    intro q hq
    exact decide_eq_true (KeyTable.lookup_eq_none.mp hnone q hq)
  · simp [KeyTable.erase]

/-- A transaction deletes the blocks that it lists. -/
theorem rows_foldl_removeBlock (rows : List (MessageBlock β)) (db : Db β) :
    (rows.foldl (removeBlock codec) db).messageBlocks.rows =
      db.messageBlocks.rows.filter fun q => q.id ∉ rows.map (·.id) := by
  induction rows generalizing db with
  | nil => simp
  | cons row rows ih =>
    rw [List.foldl_cons, ih, rows_removeBlock, List.filter_filter]
    apply List.filter_congr
    intro q _
    simp only [List.map_cons, List.mem_cons, not_or, Bool.decide_and, Bool.and_comm]

variable {rows : List (MessageBlock β)}

/-- Among the rows of a store, an id is as good as the row. -/
theorem id_mem_iff (h : ∀ row ∈ rows, row ∈ db.messageBlocks.rows) {q : MessageBlock β}
    (hq : q ∈ db.messageBlocks.rows) : q.id ∈ rows.map (·.id) ↔ q ∈ rows := by
  constructor
  · intro hid
    obtain ⟨row, hrow, heq⟩ := List.mem_map.mp hid
    rwa [← db.messageBlocks.eq_of_key (h row hrow) hq heq]
  · exact fun hmem => List.mem_map_of_mem hmem

theorem mem_foldl_removeBlock (h : ∀ row ∈ rows, row ∈ db.messageBlocks.rows)
    {q : MessageBlock β} :
    q ∈ (rows.foldl (removeBlock codec) db).messageBlocks.rows ↔
      q ∈ db.messageBlocks.rows ∧ q ∉ rows := by
  rw [rows_foldl_removeBlock, List.mem_filter, decide_eq_true_eq]
  exact and_congr_right fun hq => not_congr (id_mem_iff h hq)

/-- **No block that is not overdue goes.** -/
theorem live_foldl_removeBlock (h : ∀ row ∈ rows, row ∈ db.overdue cutoff) :
    (rows.foldl (removeBlock codec) db).live cutoff = db.live cutoff := by
  rw [live, rows_foldl_removeBlock, List.filter_filter, live]
  apply List.filter_congr
  intro q hq
  by_cases hlast : cutoff ≤ q.block.lastEventAtMs
  · have hnot : q.id ∉ rows.map (·.id) := by
      rw [id_mem_iff (fun row hrow => (mem_overdue.mp (h row hrow)).1) hq]
      intro hmem
      exact absurd (mem_overdue.mp (h q hmem)).2 (Int.not_lt.mpr hlast)
    simp only [hlast, hnot, not_false_eq_true, decide_true, Bool.and_self]
  · simp only [hlast, decide_false, Bool.false_and]

theorem mem_overdue_of_expired {row : MessageBlock β} (h : row ∈ db.expired cutoff) :
    row ∈ db.overdue cutoff := mem_overdue.mpr (mem_expired h)

/-- A transaction finds no block when none is overdue. -/
theorem expired_eq_nil : db.expired cutoff = [] ↔ db.overdue cutoff = [] := by
  have hbatch : expiryBatchBlocks ≠ 0 := by decide
  rw [expired, List.take_eq_nil_iff, or_iff_right hbatch, ← List.length_eq_zero_iff,
    (sortByKey_perm _).length_eq, List.length_eq_zero_iff]
  rfl

theorem nodup_overdue (cutoff : ℤ) (db : Db β) : (db.overdue cutoff).Nodup :=
  (List.Nodup.of_map _ db.messageBlocks.nodup).filter _

/-- **A transaction takes its blocks out of what is overdue.** -/
theorem overdue_perm (codec : Codec β) (cutoff : ℤ) (db : Db β) :
    (db.overdue cutoff).Perm
      (db.expired cutoff ++ ((db.expired cutoff).foldl (removeBlock codec) db).overdue cutoff) := by
  have hrows : ∀ row ∈ db.expired cutoff, row ∈ db.messageBlocks.rows :=
    fun row hrow => (mem_expired hrow).1
  have hnodup : (db.expired cutoff).Nodup := List.Nodup.of_map _ (nodup_expired db cutoff)
  apply (List.perm_ext_iff_of_nodup (nodup_overdue cutoff db) ?_).mpr
  · intro q
    rw [List.mem_append, mem_overdue, mem_overdue, mem_foldl_removeBlock hrows]
    constructor
    · rintro ⟨hq, hlast⟩
      by_cases hmem : q ∈ db.expired cutoff
      · exact .inl hmem
      · exact .inr ⟨⟨hq, hmem⟩, hlast⟩
    · rintro (hmem | ⟨⟨hq, -⟩, hlast⟩)
      · exact mem_expired hmem
      · exact ⟨hq, hlast⟩
  · apply hnodup.append (nodup_overdue cutoff _)
    intro q hmem hleft
    exact ((mem_foldl_removeBlock hrows).mp (mem_overdue.mp hleft).1).2 hmem

/-! ### The last transaction -/

/-- An idle channel has no block. -/
theorem blocksOf_idle (hread : db.Readable codec) (hdb : db.Accounted codec) {row : ChannelRow}
    (hrow : row ∈ db.channels.rows) (hidle : idle cutoff row = true) :
    db.blocksOf row.channelKey = [] := by
  apply List.eq_nil_iff_forall_not_mem.mpr
  intro b hb
  obtain ⟨hb, hchannel⟩ := mem_blocksOf.mp hb
  have hretained : row.retainedMessages = 0 := by
    rw [idle, Bool.and_eq_true, decide_eq_true_eq] at hidle
    exact hidle.1
  have hle := messageCount_le_held hb
  rw [hchannel, ← hdb.retained row hrow, hretained] at hle
  have hdesc := (hread b hb).describes
  have hpos := List.length_pos_iff.mpr hdesc.nonempty
  have hcount : b.messageCount = ((b.records codec).length : ℤ) := by
    rw [hdesc.count]
    rfl
  omega

/-- **The last transaction drops channel rows only.** -/
theorem deleteChannelsWhere_idle (hread : db.Readable codec) (hdb : db.Accounted codec)
    (cutoff : ℤ) :
    db.deleteChannelsWhere codec (idle cutoff) =
      { db with channels := db.channels.deleteWhere (idle cutoff) } := by
  have hdoomed : ∀ doomed : List String, (∀ c ∈ doomed, db.blocksOf c = []) →
      doomed.foldl (deleteBlocksOf codec) db = db := by
    intro doomed h
    induction doomed with
    | nil => rfl
    | cons c doomed ih =>
      have hnone : db.deleteBlocksOf codec c = db := by
        rw [deleteBlocksOf, h c List.mem_cons_self]
        rfl
      rw [List.foldl_cons, hnone]
      exact ih fun d hd => h d (List.mem_cons_of_mem c hd)
  rw [deleteChannelsWhere, hdoomed]
  intro c hc
  obtain ⟨row, hrow, rfl⟩ := List.mem_map.mp hc
  obtain ⟨hrow, hidle⟩ := List.mem_filter.mp hrow
  exact blocksOf_idle hread hdb hrow hidle

/-! ### The loop -/

/-- The transaction that finds nothing ends the loop. -/
theorem expireTransactions_of_nil (h : db.overdue cutoff = []) (n : ℕ) (stats : ExpireStats) :
    expireTransactions codec cutoff (n + 1) db stats =
      (db.deleteChannelsWhere codec (idle cutoff), stats) := by
  rw [expireTransactions, expired_eq_nil.mpr h]

/-- What an expiry has counted after the blocks in `rows`. -/
def ExpireStats.count (rows : List (MessageBlock β)) (stats : ExpireStats) : ExpireStats where
  blocks := satAddU stats.blocks rows.length
  messages := rows.foldl (fun n row => satAddU n row.block.messageCount) stats.messages

theorem expireTransactions_of_cons (h : db.overdue cutoff ≠ []) (n : ℕ) (stats : ExpireStats) :
    expireTransactions codec cutoff (n + 1) db stats =
      expireTransactions codec cutoff n ((db.expired cutoff).foldl (removeBlock codec) db)
        (ExpireStats.count (db.expired cutoff) stats) := by
  rw [expireTransactions]
  split
  · rename_i hnil
    exact absurd (expired_eq_nil.mp hnil) h
  · rename_i row rows hexpired
    rw [hexpired]
    rfl

/-- A transaction with blocks leaves less to do. -/
theorem length_overdue_lt (codec : Codec β) (h : db.overdue cutoff ≠ []) :
    (((db.expired cutoff).foldl (removeBlock codec) db).overdue cutoff).length <
      (db.overdue cutoff).length := by
  have hlength := (overdue_perm codec cutoff db).length_eq
  rw [List.length_append] at hlength
  have hpos := List.length_pos_iff.mpr (mt expired_eq_nil.mp h)
  omega

/-- A transaction with blocks keeps the books. -/
theorem accounted_transaction (hread : db.Readable codec) (hdb : db.Accounted codec) (cutoff : ℤ) :
    ((db.expired cutoff).foldl (removeBlock codec) db).Readable codec ∧
      ((db.expired cutoff).foldl (removeBlock codec) db).Accounted codec :=
  ⟨(Reduced.foldl (reduced_removeBlock codec) _ db).readable hread,
    accounted_foldl_removeBlock (fun _ hrow => (mem_expired hrow).1) (nodup_expired db cutoff) hdb⟩

/-- **The loop ends**: after as many transactions as there are overdue blocks, at the latest, one
finds nothing, and there is no other after it. -/
theorem exists_last (codec : Codec β) (cutoff : ℤ) (db : Db β) (stats : ExpireStats) :
    ∃ k ≤ (db.overdue cutoff).length,
      ((expireTransactions codec cutoff k db stats).1.overdue cutoff = []) ∧
      ∀ n, k < n → expireTransactions codec cutoff n db stats =
        ((expireTransactions codec cutoff k db stats).1.deleteChannelsWhere codec (idle cutoff),
          (expireTransactions codec cutoff k db stats).2) := by
  induction hlength : (db.overdue cutoff).length using Nat.strong_induction_on
    generalizing db stats with
  | _ length ih =>
    by_cases hnil : db.overdue cutoff = []
    · refine ⟨0, Nat.zero_le _, hnil, ?_⟩
      rintro (- | n) hn
      · exact absurd hn (Nat.lt_irrefl 0)
      · exact expireTransactions_of_nil hnil n stats
    · have hlt := length_overdue_lt codec hnil
      rw [hlength] at hlt
      obtain ⟨k, hk, hlast, hmore⟩ := ih _ hlt
        ((db.expired cutoff).foldl (removeBlock codec) db)
        (ExpireStats.count (db.expired cutoff) stats) rfl
      refine ⟨k + 1, by omega, ?_, ?_⟩
      · rw [expireTransactions_of_cons hnil]
        exact hlast
      · rintro (- | n) hn
        · omega
        · rw [expireTransactions_of_cons hnil, expireTransactions_of_cons hnil]
          exact hmore n (Nat.lt_of_succ_lt_succ hn)

/-- **What is left when the loop has ended** is the filter, and it was counted. -/
theorem expireTransactions_live (hread : db.Readable codec) (hdb : db.Accounted codec)
    (stats : ExpireStats) {n : ℕ} (hn : (db.overdue cutoff).length < n) :
    (expireTransactions codec cutoff n db stats).1.messageBlocks.rows = db.live cutoff := by
  induction n generalizing db stats with
  | zero => exact absurd hn (Nat.not_lt_zero _)
  | succ n ih =>
    by_cases hnil : db.overdue cutoff = []
    · rw [expireTransactions_of_nil hnil, deleteChannelsWhere_idle hread hdb]
      symm
      apply List.filter_eq_self.mpr
      intro row hrow
      by_contra hnot
      have hlast : row.block.lastEventAtMs < cutoff := by simpa using hnot
      have hmem := mem_overdue.mpr ⟨hrow, hlast⟩
      rw [hnil] at hmem
      cases hmem
    · have hlt := length_overdue_lt codec hnil
      obtain ⟨hread', hdb'⟩ := accounted_transaction hread hdb cutoff
      rw [expireTransactions_of_cons hnil, ih hread' hdb' _ (by omega)]
      exact live_foldl_removeBlock fun _ => mem_overdue_of_expired

/-! ### Counts -/

/-- The messages of a list of blocks. -/
def messagesIn (rows : List (MessageBlock β)) : ℕ :=
  (rows.map fun row => row.block.messageCount).sum

theorem satAddU_le (m n : ℕ) : satAddU m n ≤ usizeMax := min_le_left _ _

theorem satAddU_satAddU (m n k : ℕ) : satAddU (satAddU m n) k = satAddU m (n + k) := by
  simp only [satAddU]
  omega

/-- Adding up with saturation. -/
theorem foldl_satAddU (rows : List (MessageBlock β)) {m : ℕ} (hm : m ≤ usizeMax) :
    rows.foldl (fun n row => satAddU n row.block.messageCount) m = satAddU m (messagesIn rows) := by
  induction rows generalizing m with
  | nil => exact (min_eq_right hm).symm
  | cons row rows ih =>
    rw [List.foldl_cons, ih (satAddU_le _ _), satAddU_satAddU]
    rfl

/-- **The statistics** count what was overdue, up to the largest `usize`. -/
theorem expireTransactions_stats {stats : ExpireStats} (hblocks : stats.blocks ≤ usizeMax)
    (hmessages : stats.messages ≤ usizeMax) {n : ℕ} (hn : (db.overdue cutoff).length < n) :
    (expireTransactions codec cutoff n db stats).2 =
      ⟨satAddU stats.blocks (db.overdue cutoff).length,
        satAddU stats.messages (messagesIn (db.overdue cutoff))⟩ := by
  induction n generalizing db stats with
  | zero => exact absurd hn (Nat.not_lt_zero _)
  | succ n ih =>
    by_cases hnil : db.overdue cutoff = []
    · rw [expireTransactions_of_nil hnil, hnil]
      have hzero : ∀ {m : ℕ}, m ≤ usizeMax → satAddU m 0 = m := fun hm => min_eq_right hm
      simp [messagesIn, hzero hblocks, hzero hmessages]
    · have hlt := length_overdue_lt codec hnil
      have hperm := overdue_perm codec cutoff db
      have hcount : ExpireStats.count (db.expired cutoff) stats =
          ⟨satAddU stats.blocks (db.expired cutoff).length,
            satAddU stats.messages (messagesIn (db.expired cutoff))⟩ := by
        rw [ExpireStats.count, foldl_satAddU _ hmessages]
      have hsum : messagesIn (db.overdue cutoff) = messagesIn (db.expired cutoff) +
          messagesIn (((db.expired cutoff).foldl (removeBlock codec) db).overdue cutoff) := by
        rw [messagesIn, (hperm.map _).sum_eq, List.map_append, List.sum_append]
        rfl
      rw [expireTransactions_of_cons hnil, hcount, ih (satAddU_le _ _) (satAddU_le _ _) (by omega),
        satAddU_satAddU, satAddU_satAddU, ← hsum, hperm.length_eq, List.length_append]

/-! ### Transactions of two calls -/

/-- Dropping idle channels twice is dropping them once. -/
theorem deleteChannelsWhere_twice (hread : db.Readable codec) (hdb : db.Accounted codec)
    (cutoff : ℤ) :
    (db.deleteChannelsWhere codec (idle cutoff)).deleteChannelsWhere codec (idle cutoff) =
      db.deleteChannelsWhere codec (idle cutoff) := by
  have hread' := (reduced_deleteChannelsWhere codec db (idle cutoff)).readable hread
  have hdb' : (db.deleteChannelsWhere codec (idle cutoff)).Accounted codec :=
    accounted_deleteChannelsWhere (hdb.balancedBut fun _ => False) (fun _ _ => False.elim)
      fun _ _ => False.elim
  rw [deleteChannelsWhere_idle hread' hdb', deleteChannelsWhere_idle hread hdb]
  have htable : ∀ t t' : KeyTable ChannelRow.channelKey, t.rows = t'.rows → t = t' := by
    rintro ⟨rows, _⟩ ⟨rows', _⟩ rfl
    rfl
  have hsame : (db.channels.deleteWhere (idle cutoff)).deleteWhere (idle cutoff) =
      db.channels.deleteWhere (idle cutoff) := by
    apply htable
    simp [List.filter_filter]
  simp only [hsame]

/-- **A call goes on where a crash has stopped another one.** -/
theorem expireTransactions_add (hread : db.Readable codec) (hdb : db.Accounted codec)
    (n m : ℕ) (stats stats' : ExpireStats) :
    (expireTransactions codec cutoff m (expireTransactions codec cutoff n db stats).1 stats').1 =
      (expireTransactions codec cutoff (n + m) db stats).1 := by
  -- the statistics are not looked at
  have hfst : ∀ (k : ℕ) (db : Db β) (stats stats' : ExpireStats),
      (expireTransactions codec cutoff k db stats).1 =
        (expireTransactions codec cutoff k db stats').1 := by
    intro k
    induction k with
    | zero => intro db stats stats'; rfl
    | succ k ih =>
      intro db stats stats'
      by_cases hnil : db.overdue cutoff = []
      · rw [expireTransactions_of_nil hnil, expireTransactions_of_nil hnil]
      · rw [expireTransactions_of_cons hnil, expireTransactions_of_cons hnil]
        exact ih _ _ _
  induction n generalizing db stats with
  | zero =>
    rw [Nat.zero_add]
    exact hfst m db stats' stats
  | succ n ih =>
    rw [Nat.add_right_comm]
    by_cases hnil : db.overdue cutoff = []
    · rw [expireTransactions_of_nil hnil, expireTransactions_of_nil hnil]
      -- a call that finds no block drops the idle channels, and another one finds none of them
      cases m with
      | zero => rfl
      | succ m =>
        have hstill : (db.deleteChannelsWhere codec (idle cutoff)).overdue cutoff = [] := by
          rw [deleteChannelsWhere_idle hread hdb]
          exact hnil
        rw [expireTransactions_of_nil hstill]
        exact deleteChannelsWhere_twice hread hdb cutoff
    · rw [expireTransactions_of_cons hnil, expireTransactions_of_cons hnil]
      obtain ⟨hread', hdb'⟩ := accounted_transaction hread hdb cutoff
      exact ih hread' hdb' _

/-! ### Expiry is the filter -/

/-- The store after an expiry of `db`, and the statistics that it returns. -/
structure ExpiredExactly (codec : Codec β) (cutoff : ℤ) (db : Db β) (out : Db β × ExpireStats) :
    Prop where
  rows : out.1.messageBlocks.rows =
    db.messageBlocks.rows.filter fun row => cutoff ≤ row.block.lastEventAtMs
  /-- No message from the cutoff on is lost. -/
  records : ∀ r ∈ db.sealedRecords codec, cutoff ≤ r.eventAtMs → r ∈ out.1.sealedRecords codec
  stats : out.2 = ⟨satAddU 0 (db.overdue cutoff).length, satAddU 0 (messagesIn (db.overdue cutoff))⟩
  /-- As the totals are columns of 64 bits, nothing saturates. -/
  exact_stats : db.storeTotals.blocks ≤ i64Max → db.storeTotals.messages ≤ i64Max →
    out.2 = ⟨(db.overdue cutoff).length, messagesIn (db.overdue cutoff)⟩
  /-- The channel counts and the totals are exact. -/
  accounted : out.1.Accounted codec
  /-- A channel row goes with its last block. -/
  channels : ∀ row ∈ db.channels.rows, out.1.channels.lookup row.channelKey = none →
    ∀ b ∈ db.messageBlocks.rows, b.channelKey = row.channelKey → b.block.lastEventAtMs < cutoff

theorem length_overdue_le (cutoff : ℤ) (db : Db β) :
    (db.overdue cutoff).length ≤ db.messageBlocks.rows.length := List.length_filter_le _ _

/-- The totals of a store bound what an expiry counts. -/
theorem overdue_le_totals (hdb : db.Accounted codec) (cutoff : ℤ) :
    ((db.overdue cutoff).length : ℤ) ≤ db.storeTotals.blocks ∧
      (messagesIn (db.overdue cutoff) : ℤ) ≤ db.storeTotals.messages := by
  rw [hdb.totals]
  constructor
  · have hblocks : db.messageBlocks.total (fun _ => 1) = (db.messageBlocks.rows.length : ℤ) := by
      simp [KeyTable.total]
    show _ ≤ db.messageBlocks.total fun _ => 1
    rw [hblocks]
    exact Int.ofNat_le.mpr (length_overdue_le cutoff db)
  · have hmessages : db.messageBlocks.total (fun row => row.messageCount) =
        (messagesIn db.messageBlocks.rows : ℤ) := by
      rw [messagesIn, Nat.cast_list_sum, List.map_map]
      rfl
    show _ ≤ db.messageBlocks.total fun row => row.messageCount
    rw [hmessages]
    apply Int.ofNat_le.mpr
    exact List.Sublist.sum_le_sum (List.filter_sublist.map _) fun _ _ => Nat.zero_le _

theorem expiredExactly (hread : db.Readable codec) (hdb : db.Accounted codec) (cutoff : ℤ) :
    ExpiredExactly codec cutoff db (db.expireBlocksBefore codec cutoff) := by
  have hn : (db.overdue cutoff).length < db.messageBlocks.rows.length + 1 :=
    Nat.lt_succ_of_le (length_overdue_le cutoff db)
  have hrows : (db.expireBlocksBefore codec cutoff).1.messageBlocks.rows = db.live cutoff :=
    expireTransactions_live hread hdb ⟨0, 0⟩ hn
  have hstats : (db.expireBlocksBefore codec cutoff).2 =
      ⟨satAddU 0 (db.overdue cutoff).length, satAddU 0 (messagesIn (db.overdue cutoff))⟩ :=
    expireTransactions_stats (Nat.zero_le _) (Nat.zero_le _) hn
  have haccounted : (db.expireBlocksBefore codec cutoff).1.Accounted codec :=
    (accounted_expireTransactions cutoff _ ⟨0, 0⟩ hread hdb).2
  refine ⟨hrows, fun r hr hevent => ?_, hstats, fun hblocks hmessages => ?_, haccounted,
    fun row hrow hgone b hb hchannel => ?_⟩
  -- a block lasts as long as its newest event
  · obtain ⟨row, hrow, hr⟩ := mem_sealedRecords.mp hr
    have hlast := (hread row hrow).describes.le_last hr
    refine mem_sealedRecords.mpr ⟨row, ?_, hr⟩
    rw [hrows]
    exact mem_live.mpr ⟨hrow, hevent.trans hlast⟩
  -- the counters do not saturate
  · obtain ⟨hle, hle'⟩ := overdue_le_totals hdb cutoff
    have hfits : ∀ {n : ℕ}, (n : ℤ) ≤ i64Max → satAddU 0 n = n := by
      intro n hn
      have hmax : (i64Max : ℤ) = 2 ^ 63 - 1 := rfl
      have husize : usizeMax = 2 ^ 64 - 1 := rfl
      rw [satAddU, Nat.zero_add]
      apply min_eq_right
      omega
    rw [hstats, hfits (hle.trans hblocks), hfits (hle'.trans hmessages)]
  -- a channel is dropped with its last block
  · by_contra hlive
    have hmem : b ∈ (db.expireBlocksBefore codec cutoff).1.messageBlocks.rows := by
      rw [hrows]
      exact mem_live.mpr ⟨hb, Int.not_lt.mp hlive⟩
    obtain ⟨row', hrow', hkey, -⟩ := haccounted.tracked b hmem
    exact KeyTable.lookup_eq_none.mp hgone row' hrow' (hkey.trans hchannel)

/-- **Batched expiry equals the filter.**  In every state that calls on a new store can reach, an
expiry ends: one of its first transactions, no more than there are blocks and one, finds nothing,
and no transaction comes after it.  Then exactly the blocks whose last event is older than the
cutoff are gone and were counted, and all books are in order.  A second call changes nothing, and
a call that comes after a crash between any two transactions ends in the same store. -/
theorem expiry_equals_filter (codec : Codec β) (store : SqliteBlockStore) (calls : List StoreCall)
    (cutoff : ℤ) :
    ExpiredExactly codec cutoff (calls.foldl (call codec store) Db.empty)
      ((calls.foldl (call codec store) Db.empty).expireBlocksBefore codec cutoff) ∧
    (∃ k ≤ (calls.foldl (call codec store) Db.empty).messageBlocks.rows.length,
      (expireTransactions codec cutoff k (calls.foldl (call codec store) Db.empty) ⟨0, 0⟩).1.expired
        cutoff = [] ∧
      ∀ n, k < n →
        expireTransactions codec cutoff n (calls.foldl (call codec store) Db.empty) ⟨0, 0⟩ =
          (calls.foldl (call codec store) Db.empty).expireBlocksBefore codec cutoff) ∧
    (expireBlocksBefore codec
        ((calls.foldl (call codec store) Db.empty).expireBlocksBefore codec cutoff).1 cutoff =
      (((calls.foldl (call codec store) Db.empty).expireBlocksBefore codec cutoff).1, ⟨0, 0⟩)) ∧
    ∀ n, ((expireTransactions codec cutoff n (calls.foldl (call codec store) Db.empty)
        ⟨0, 0⟩).1.expireBlocksBefore codec cutoff).1 =
      ((calls.foldl (call codec store) Db.empty).expireBlocksBefore codec cutoff).1 := by
  obtain ⟨hread, hdb⟩ : (calls.foldl (call codec store) Db.empty).Readable codec ∧
      (calls.foldl (call codec store) Db.empty).Accounted codec :=
    List.foldlRecOn (motive := fun db => db.Readable codec ∧ db.Accounted codec) calls
      (call codec store) ⟨readable_empty, accounted_empty⟩
      fun _ hs c _ => accounted_call hs.1 hs.2 c
  generalize calls.foldl (call codec store) Db.empty = db at hread hdb
  obtain ⟨k, hk, hnone, hall⟩ := exists_last codec cutoff db ⟨0, 0⟩
  have hk := hk.trans (length_overdue_le cutoff db)
  have hout : db.expireBlocksBefore codec cutoff = _ := hall _ (Nat.lt_succ_of_le hk)
  obtain ⟨hread', hdb'⟩ := accounted_expireTransactions cutoff k ⟨0, 0⟩ hread hdb
  refine ⟨expiredExactly hread hdb cutoff, ⟨k, hk, expired_eq_nil.mpr hnone, fun n hn => ?_⟩, ?_,
    fun n => ?_⟩
  · rw [hout, hall n hn]
  · rw [hout]
    have hstill : ((expireTransactions codec cutoff k db ⟨0, 0⟩).1.deleteChannelsWhere codec
        (idle cutoff)).overdue cutoff = [] := by
      rw [deleteChannelsWhere_idle hread' hdb']
      exact hnone
    rw [expireBlocksBefore, expireTransactions_of_nil hstill,
      deleteChannelsWhere_twice hread' hdb' cutoff]
  · -- both calls have enough transactions
    generalize hstopped : (expireTransactions codec cutoff n db ⟨0, 0⟩).1 = stopped
    obtain ⟨k', hk', -, hall'⟩ := exists_last codec cutoff stopped ⟨0, 0⟩
    have hk' := hk'.trans (length_overdue_le cutoff stopped)
    have hrest : stopped.expireBlocksBefore codec cutoff =
        expireTransactions codec cutoff (k + k' + 1) stopped ⟨0, 0⟩ :=
      (hall' _ (Nat.lt_succ_of_le hk')).trans (hall' _ (by omega)).symm
    rw [hrest, ← hstopped, expireTransactions_add hread hdb, hout, hall _ (by omega)]

end Db

end RecentMessages
