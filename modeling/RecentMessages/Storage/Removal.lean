/-
RecentMessages/Storage/Removal.lean

What the calls that do not append do to the contents of the sealed store.

`Reduced` is the common part: blocks may disappear, none changes, and the policy
tables stay.  Every deletion is a reduction, with a lemma that says which blocks
are left; purging and blocking first write their policy table and then reduce.
-/
import RecentMessages.Storage.Contents
import RecentMessages.Storage.Maintenance

namespace RecentMessages

namespace Db

variable {β : Type} {codec : Codec β} {db db' db'' : Db β} {c : String}

/-- Some blocks are gone, and nothing else that a reader sees has changed. -/
structure Reduced (db db' : Db β) : Prop where
  sublist : db'.messageBlocks.rows.Sublist db.messageBlocks.rows
  policy : db.SamePolicy db'

namespace Reduced

theorem refl (db : Db β) : Reduced db db := ⟨List.Sublist.refl _, SamePolicy.refl db⟩

theorem trans (h : Reduced db db') (h' : Reduced db' db'') : Reduced db db'' :=
  ⟨h'.sublist.trans h.sublist, h.policy.trans h'.policy⟩

theorem rows (h : Reduced db db') : ∀ row ∈ db'.messageBlocks.rows, row ∈ db.messageBlocks.rows :=
  fun _ hrow => h.sublist.subset hrow

theorem readable (h : Reduced db db') (hread : db.Readable codec) : db'.Readable codec :=
  fun row hrow => hread row (h.rows row hrow)

theorem sealedRecords (h : Reduced db db') {r : CanonicalRecord}
    (hr : r ∈ db'.sealedRecords codec) : r ∈ db.sealedRecords codec := by
  obtain ⟨row, hrow, hr⟩ := mem_sealedRecords.mp hr
  exact mem_sealedRecords.mpr ⟨row, h.rows row hrow, hr⟩

/-- A loop of reductions is a reduction. -/
theorem foldl {α : Type*} {f : Db β → α → Db β} (hf : ∀ db a, Reduced db (f db a)) (l : List α)
    (db : Db β) : Reduced db (l.foldl f db) := by
  induction l generalizing db with
  | nil => exact refl db
  | cons a l ih => exact (hf db a).trans (ih (f db a))

end Reduced

/-! ### Deletions -/

theorem reduced_deleteBlock (codec : Codec β) (db : Db β) (id : ℤ) :
    Reduced db (db.deleteBlock codec id) :=
  ⟨rows_deleteBlock_sublist id, (policy_deleteBlock codec db id).1⟩

theorem reduced_deleteBlocksOf (codec : Codec β) (db : Db β) (c : String) :
    Reduced db (db.deleteBlocksOf codec c) :=
  Reduced.foldl (reduced_deleteBlock codec) _ db

theorem reduced_deleteChannelsWhere (codec : Codec β) (db : Db β) (p : ChannelRow → Bool) :
    Reduced db (db.deleteChannelsWhere codec p) := by
  have h := Reduced.foldl (reduced_deleteBlocksOf codec)
    ((db.channels.rows.filter p).map (·.channelKey)) db
  exact ⟨h.sublist, h.policy.blocked, h.policy.cutoffs, h.policy.journal⟩

theorem reduced_dropChannel (codec : Codec β) (db : Db β) (c : String) :
    Reduced db (db.dropChannel codec c) :=
  (reduced_deleteBlocksOf codec db c).trans (reduced_deleteChannelsWhere codec _ _)

theorem messageBlocks_removeBlock (codec : Codec β) (db : Db β) (row : MessageBlock β) :
    (db.removeBlock codec row).messageBlocks = (db.deleteBlock codec row.id).messageBlocks := by
  unfold removeBlock releaseMessages
  split <;> rfl

theorem reduced_removeBlock (codec : Codec β) (db : Db β) (row : MessageBlock β) :
    Reduced db (db.removeBlock codec row) := by
  have h := reduced_deleteBlock codec db row.id
  refine ⟨messageBlocks_removeBlock codec db row ▸ h.sublist, ?_⟩
  unfold removeBlock releaseMessages
  split
  · exact h.policy
  · exact ⟨h.policy.blocked, h.policy.cutoffs, h.policy.journal⟩

theorem mem_deleteBlocks {ids : List ℤ} {row : MessageBlock β} :
    row ∈ (db.deleteBlocks codec ids).messageBlocks.rows ↔
      row ∈ db.messageBlocks.rows ∧ row.id ∉ ids := by
  induction ids generalizing db with
  | nil => simp [deleteBlocks]
  | cons id ids ih =>
    rw [deleteBlocks, List.foldl_cons, ← deleteBlocks, ih, mem_deleteBlock, List.mem_cons, not_or,
      and_assoc]

theorem mem_deleteBlocksOf {row : MessageBlock β} :
    row ∈ (db.deleteBlocksOf codec c).messageBlocks.rows ↔
      row ∈ db.messageBlocks.rows ∧ row.channelKey ≠ c := by
  rw [deleteBlocksOf, mem_deleteBlocks]
  refine and_congr_right fun hrow => not_congr ?_
  rw [List.mem_map]
  constructor
  · rintro ⟨q, hq, hid⟩
    obtain ⟨hq, hc⟩ := mem_blocksOf.mp hq
    rwa [db.messageBlocks.eq_of_key hrow hq hid.symm]
  · exact fun hc => ⟨row, mem_blocksOf.mpr ⟨hrow, hc⟩, rfl⟩

theorem mem_deleteChannelsWhere {q : ChannelRow → Bool} {row : MessageBlock β} :
    row ∈ (db.deleteChannelsWhere codec q).messageBlocks.rows ↔
      row ∈ db.messageBlocks.rows ∧
        row.channelKey ∉ (db.channels.rows.filter q).map (·.channelKey) := by
  have hrows : ∀ (doomed : List String) (db : Db β),
      row ∈ (doomed.foldl (deleteBlocksOf codec) db).messageBlocks.rows ↔
        row ∈ db.messageBlocks.rows ∧ row.channelKey ∉ doomed := by
    intro doomed
    induction doomed with
    | nil => simp
    | cons c doomed ih =>
      intro db
      rw [List.foldl_cons, ih, mem_deleteBlocksOf, List.mem_cons, not_or, and_assoc]
  exact hrows _ db

theorem mem_removeBlock {row q : MessageBlock β} :
    q ∈ (db.removeBlock codec row).messageBlocks.rows ↔
      q ∈ db.messageBlocks.rows ∧ q.id ≠ row.id := by
  rw [messageBlocks_removeBlock, mem_deleteBlock]

/-- **A dropped channel has no block left**, other channels have all of theirs. -/
theorem mem_dropChannel {row : MessageBlock β} :
    row ∈ (db.dropChannel codec c).messageBlocks.rows ↔
      row ∈ db.messageBlocks.rows ∧ row.channelKey ≠ c := by
  rw [dropChannel, mem_deleteChannelsWhere, mem_deleteBlocksOf]
  refine and_iff_left_of_imp fun ⟨_, hc⟩ hmem => ?_
  obtain ⟨ch, hch, heq⟩ := List.mem_map.mp hmem
  have hkey := (List.mem_filter.mp hch).2
  rw [decide_eq_true_eq] at hkey
  exact hc (heq.symm.trans hkey)

theorem mem_expired {cutoff : ℤ} {row : MessageBlock β} (h : row ∈ db.expired cutoff) :
    row ∈ db.messageBlocks.rows ∧ row.block.lastEventAtMs < cutoff := by
  have hmem := mem_sortByKey.mp (List.mem_of_mem_take h)
  rwa [List.mem_filter, decide_eq_true_eq] at hmem

/-! ### Calls -/

theorem reduced_expireTransactions (codec : Codec β) (cutoff : ℤ) (n : ℕ) (db : Db β)
    (stats : ExpireStats) : Reduced db (expireTransactions codec cutoff n db stats).1 := by
  induction n generalizing db stats with
  | zero => exact .refl db
  | succ n ih =>
    rw [expireTransactions]
    split
    · exact reduced_deleteChannelsWhere codec db _
    · exact (Reduced.foldl (reduced_removeBlock codec) _ db).trans (ih _ _)

theorem reduced_evictBlockIds {ids : List ℕ} {deleted : ℕ}
    (h : db.evictBlockIds codec ids = .ok (deleted, db')) : Reduced db db' := by
  refine Except.foldlM_invariant (fun s : ℕ × Db β => Reduced db s.2) ?_ (.refl db) h
  rintro ⟨n, db₁⟩ s' id - hdb₁ hstep
  obtain ⟨id', -, hstep⟩ := Except.bind_eq_ok.mp hstep
  split at hstep
  · cases hstep
    exact hdb₁
  · cases hstep
    exact hdb₁.trans (reduced_removeBlock codec db₁ _)

theorem reduced_touchChannelRequested {requested coalesce : ℕ} {changed : Bool}
    (h : db.touchChannelRequested c requested coalesce = .ok (changed, db')) : Reduced db db' := by
  obtain ⟨requested', -, h⟩ := Except.bind_eq_ok.mp h
  obtain ⟨coalesce', -, h⟩ := Except.bind_eq_ok.mp h
  split at h
  · cases h
    exact ⟨List.Sublist.refl _, rfl, rfl, rfl⟩
  · split at h <;> cases h
    · exact ⟨List.Sublist.refl _, rfl, rfl, rfl⟩
    · exact .refl db

/-- One channel of a synchronization is blocked and loses its blocks. -/
theorem syncBlocked_eq_ok {c : String} (h : syncBlocked codec db c = .ok db') :
    (∀ row ∈ db'.messageBlocks.rows, row ∈ db.messageBlocks.rows ∧ row.channelKey ≠ c) ∧
      db'.channelPurgeCutoffs = db.channelPurgeCutoffs ∧ db'.journal = db.journal ∧
      ∀ d, db'.blocked d = true ↔ db.blocked d = true ∨ d = c := by
  unfold syncBlocked at h
  split at h
  · cases h
  · rename_i blockedChannels hinsert
    cases h
    have hdrop := reduced_dropChannel codec { db with blockedChannels } c
    refine ⟨fun row hrow => ?_, hdrop.policy.cutoffs, hdrop.policy.journal, fun d => ?_⟩
    · obtain ⟨hrow, hne⟩ := mem_dropChannel.mp hrow
      exact ⟨hrow, hne⟩
    · -- the drop leaves the new row of `c`
      rw [blocked_congr hdrop.policy, blocked, blocked]
      show (blockedChannels.lookup d).isSome ↔ _
      by_cases hd : c = d
      · subst hd
        rw [show blockedChannels.lookup c = some c from KeyTable.lookup_insert?_self hinsert]
        simp
      · rw [KeyTable.lookup_insert?_ne hinsert hd]
        simp [Ne.symm hd]

/-- A synchronization keeps cutoffs and journal, blocks the channels it lists and
leaves no block of them. -/
theorem syncBlockedChannels_eq_ok {channels : List String}
    (h : db.syncBlockedChannels codec channels = .ok db') :
    (∀ row ∈ db'.messageBlocks.rows, row ∈ db.messageBlocks.rows ∧ row.channelKey ∉ channels) ∧
      db'.channelPurgeCutoffs = db.channelPurgeCutoffs ∧ db'.journal = db.journal ∧
      ∀ d, db'.blocked d = true ↔ d ∈ channels := by
  have hnone : ∀ d, ({ db with blockedChannels := KeyTable.empty } : Db β).blocked d = true ↔
      d ∈ ([] : List String) := fun d => iff_of_false Bool.false_ne_true List.not_mem_nil
  have hrun : channels.foldlM (syncBlocked codec) { db with blockedChannels := KeyTable.empty } =
      .ok db' := h
  refine Except.foldlM_done (fun (done : List String) (s : Db β) =>
    (∀ row ∈ s.messageBlocks.rows, row ∈ db.messageBlocks.rows ∧ row.channelKey ∉ done) ∧
      s.channelPurgeCutoffs = db.channelPurgeCutoffs ∧ s.journal = db.journal ∧
      ∀ d, s.blocked d = true ↔ d ∈ done) ?_ ?_ hrun
  · rintro done s s' c - ⟨hrows, hcutoffs, hjournal, hblocked⟩ hstep
    obtain ⟨hrows', hcutoffs', hjournal', hblocked'⟩ := syncBlocked_eq_ok hstep
    refine ⟨fun row hrow => ?_, hcutoffs'.trans hcutoffs, hjournal'.trans hjournal, fun d => ?_⟩
    · obtain ⟨hrow, hne⟩ := hrows' row hrow
      obtain ⟨hrow, hnot⟩ := hrows row hrow
      refine ⟨hrow, fun hmem => ?_⟩
      rcases List.mem_append.mp hmem with hmem | hmem
      · exact hnot hmem
      · exact hne (List.mem_singleton.mp hmem)
    · rw [hblocked', hblocked, List.mem_append, List.mem_singleton]
  · exact ⟨fun row hrow => ⟨hrow, List.not_mem_nil⟩, rfl, rfl, hnone⟩

end Db

end RecentMessages
