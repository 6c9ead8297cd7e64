/-
RecentMessages/Storage/Policy.lean

The sealed store complies with its policy tables.

A channel is blocked or not, and has a purge cutoff or none.  A record passes the
policy when its channel is not blocked and it was received after the cutoff;
`Compliant` says that every sealed record passes.  Appending filters by the policy,
and a change of policy drops the channel's blocks, so every call keeps this
(`kept_call`).  Cutoffs only rise (`purgeCutoff_call`).
-/
import RecentMessages.Storage.AppendSpec
import RecentMessages.Storage.Removal

namespace RecentMessages

namespace Db

variable {β : Type} {codec : Codec β} {store : SqliteBlockStore} {db db' : Db β} {c d : String}

/-- The record passes the policy of its channel. -/
def Passes (db : Db β) (r : CanonicalRecord) : Prop :=
  db.blocked r.channelKey = false ∧
    ∀ cutoff, db.purgeCutoff r.channelKey = some cutoff → cutoff < r.receivedAtMs

/-- Every sealed record passes the policy of its channel. -/
def Compliant (codec : Codec β) (db : Db β) : Prop := ∀ r ∈ db.sealedRecords codec, db.Passes r

theorem passes_congr (h : db.SamePolicy db') (r : CanonicalRecord) :
    db'.Passes r ↔ db.Passes r := by
  rw [Passes, Passes, blocked_congr h, purgeCutoff_congr h]

theorem compliant_empty : (empty : Db β).Compliant codec := nofun

/-! ### Changes of policy -/

theorem purgeCutoff_raiseCutoff_self (db : Db β) (c : String) (t : ℤ) :
    ∃ t', (db.raiseCutoff c t).purgeCutoff c = some t' ∧ t ≤ t' ∧
      ∀ old, db.purgeCutoff c = some old → old ≤ t' := by
  have hkey : PurgeCutoff.channelKey ⟨c, t⟩ = c := rfl
  refine ⟨max ((db.channelPurgeCutoffs.lookup c).getD ⟨c, t⟩).receivedAtMs t, ?_, le_max_right _ _,
    fun old hold => ?_⟩
  · rw [raiseCutoff, purgeCutoff, KeyTable.lookup_modify_self,
      KeyTable.lookup_insertIgnore_self _ hkey]
    rfl
  · obtain ⟨row, hrow, rfl⟩ := Option.map_eq_some_iff.mp hold
    rw [hrow]
    exact le_max_left _ _

theorem purgeCutoff_raiseCutoff_ne (db : Db β) {c d : String} (t : ℤ) (h : d ≠ c) :
    (db.raiseCutoff c t).purgeCutoff d = db.purgeCutoff d := by
  rw [raiseCutoff, purgeCutoff, KeyTable.lookup_modify_ne _ h,
    KeyTable.lookup_insertIgnore_ne _ (show PurgeCutoff.channelKey _ ≠ d from Ne.symm h)]
  rfl

/-- Purge cutoffs only rise. -/
theorem purgeCutoff_raiseCutoff_le {old : ℤ} (t : ℤ) (h : db.purgeCutoff d = some old) :
    ∃ t', (db.raiseCutoff c t).purgeCutoff d = some t' ∧ old ≤ t' := by
  by_cases hd : d = c
  · subst hd
    obtain ⟨t', ht', -, hold⟩ := purgeCutoff_raiseCutoff_self db d t
    exact ⟨t', ht', hold old h⟩
  · exact ⟨old, (purgeCutoff_raiseCutoff_ne db t hd).trans h, le_rfl⟩

theorem blocked_setChannelBlocked_self (codec : Codec β) (db : Db β) (c : String) (b : Bool) :
    (db.setChannelBlocked codec c b).2.blocked c = b := by
  cases b with
  | true =>
    show (dropChannel codec _ c).blocked c = true
    rw [blocked_congr (reduced_dropChannel codec _ c).policy]
    show ((db.blockedChannels.insertIgnore c).lookup c).isSome = true
    rw [KeyTable.lookup_insertIgnore_self _ (show id c = c from rfl)]
    rfl
  | false =>
    show ((db.blockedChannels.erase c).lookup c).isSome = false
    rw [KeyTable.lookup_erase_self]
    rfl

theorem blocked_setChannelBlocked_ne (codec : Codec β) (db : Db β) {c d : String} (b : Bool)
    (h : d ≠ c) : (db.setChannelBlocked codec c b).2.blocked d = db.blocked d := by
  cases b with
  | true =>
    show (dropChannel codec _ c).blocked d = _
    rw [blocked_congr (reduced_dropChannel codec _ c).policy]
    show ((db.blockedChannels.insertIgnore c).lookup d).isSome = _
    rw [KeyTable.lookup_insertIgnore_ne _ (show id c ≠ d from Ne.symm h)]
    rfl
  | false =>
    show ((db.blockedChannels.erase c).lookup d).isSome = _
    rw [KeyTable.lookup_erase_ne _ h]
    rfl

/-! ### Compliance -/

theorem Reduced.compliant (h : Reduced db db') (hdb : db.Compliant codec) :
    db'.Compliant codec :=
  fun r hr => (passes_congr h.policy r).mpr (hdb r (h.sealedRecords hr))

/-- An append keeps compliance. -/
theorem Appended.compliant {records : List CanonicalRecord} {gone : List (MessageBlock β)}
    (h : Appended codec db db' records gone) (hdb : db.Compliant codec) :
    db'.Compliant codec := by
  intro r hr
  refine (passes_congr h.policy r).mpr ?_
  rcases h.source r hr with hr | ⟨-, hpasses⟩
  · exact hdb r hr
  · exact hpasses

/-- **Dropping a channel** restores compliance after a change of its policy. -/
theorem compliant_dropChannel {db₀ : Db β} (hread : db.Readable codec) (hdb : db.Compliant codec)
    (hblocks : db₀.messageBlocks = db.messageBlocks)
    (hblocked : ∀ d, d ≠ c → db₀.blocked d = db.blocked d)
    (hcutoff : ∀ d, d ≠ c → db₀.purgeCutoff d = db.purgeCutoff d) :
    (db₀.dropChannel codec c).Compliant codec := by
  have hpolicy := (reduced_dropChannel codec db₀ c).policy
  have hold : ∀ r ∈ (db₀.dropChannel codec c).sealedRecords codec,
      r ∈ db.sealedRecords codec ∧ r.channelKey ≠ c := by
    intro r hr
    obtain ⟨row, hrow, hr⟩ := mem_sealedRecords.mp hr
    obtain ⟨hrow, hne⟩ := mem_dropChannel.mp hrow
    rw [hblocks] at hrow
    exact ⟨mem_sealedRecords.mpr ⟨row, hrow, hr⟩, fun hc => hne ((hread row hrow).channel hr ▸ hc)⟩
  intro r hr
  obtain ⟨hr, hne⟩ := hold r hr
  rw [passes_congr hpolicy, Passes, hblocked _ hne, hcutoff _ hne]
  exact hdb r hr

theorem compliant_syncBlockedChannels {channels : List String} (hread : db.Readable codec)
    (hdb : db.Compliant codec) (h : db.syncBlockedChannels codec channels = .ok db') :
    db'.Compliant codec := by
  obtain ⟨hrows, hcutoffs, -, hblocked⟩ := syncBlockedChannels_eq_ok h
  have hold : ∀ r ∈ db'.sealedRecords codec,
      r ∈ db.sealedRecords codec ∧ r.channelKey ∉ channels := by
    intro r hr
    obtain ⟨row, hrow, hr⟩ := mem_sealedRecords.mp hr
    obtain ⟨hrow, hnot⟩ := hrows row hrow
    exact ⟨mem_sealedRecords.mpr ⟨row, hrow, hr⟩, (hread row hrow).channel hr ▸ hnot⟩
  intro r hr
  obtain ⟨hr, hnot⟩ := hold r hr
  refine ⟨Bool.eq_false_iff.mpr fun htrue => hnot ((hblocked _).mp htrue), ?_⟩
  rw [purgeCutoff, hcutoffs]
  exact (hdb r hr).2

/-- What the calls on the sealed store keep. -/
structure Kept (codec : Codec β) (db : Db β) : Prop where
  readable : db.Readable codec
  compliant : db.Compliant codec

/-- Blocking a channel takes its records away; unblocking it takes nothing. -/
theorem kept_setChannelBlocked (h : db.Kept codec) (c : String) (b : Bool) :
    (db.call codec store (.setChannelBlocked c b)).Kept codec ∧
      (db.call codec store (.setChannelBlocked c b)).journal = db.journal := by
  obtain ⟨hread, hdb⟩ := h
  cases b with
  | true =>
    have hdrop := reduced_dropChannel codec
      { db with blockedChannels := db.blockedChannels.insertIgnore c } c
    have hread' : ({ db with blockedChannels := db.blockedChannels.insertIgnore c } :
        Db β).Readable codec := hread
    refine ⟨⟨hdrop.readable hread', compliant_dropChannel hread hdb rfl (fun d hd => ?_)
      fun d _ => rfl⟩, hdrop.policy.journal⟩
    show ((db.blockedChannels.insertIgnore c).lookup d).isSome = _
    rw [KeyTable.lookup_insertIgnore_ne _ (show id c ≠ d from Ne.symm hd)]
    rfl
  | false =>
    refine ⟨⟨hread, fun r hr => ⟨?_, (hdb r hr).2⟩⟩, rfl⟩
    show (db.setChannelBlocked codec c false).2.blocked r.channelKey = false
    by_cases hc : r.channelKey = c
    · rw [hc]
      exact blocked_setChannelBlocked_self codec db c false
    · rw [blocked_setChannelBlocked_ne codec db false hc]
      exact (hdb r hr).1

/-- **Every call keeps the store readable and compliant**, and leaves the journal. -/
theorem kept_call (h : db.Kept codec) (call : StoreCall) :
    (db.call codec store call).Kept codec ∧ (db.call codec store call).journal = db.journal := by
  obtain ⟨hread, hdb⟩ := h
  have hreduced : ∀ {db' : Db β}, Reduced db db' → db'.Kept codec ∧ db'.journal = db.journal :=
    fun hr => ⟨⟨hr.readable hread, hr.compliant hdb⟩, hr.policy.journal⟩
  cases call with
  | appendChannelBatches batches =>
    -- an append lets only records in that pass
    rw [Db.call]
    split
    · rename_i db' h
      obtain ⟨gone, happ⟩ := appendChannelBatches_eq_ok hread h
      exact ⟨⟨happ.readable, happ.compliant hdb⟩, happ.policy.journal⟩
    · exact hreduced (.refl db)
  | evictBlockIds ids =>
    rw [Db.call]
    split
    · rename_i h
      exact hreduced (reduced_evictBlockIds h)
    · exact hreduced (.refl db)
  | expireBlocksBefore cutoff n => exact hreduced (reduced_expireTransactions codec cutoff n db _)
  | purgeChannel c t =>
    -- the cutoff rises for a channel whose blocks are gone
    have hdrop := reduced_dropChannel codec (db.raiseCutoff c t) c
    have hread' : (db.raiseCutoff c t).Readable codec := hread
    exact ⟨⟨hdrop.readable hread', compliant_dropChannel hread hdb rfl (fun d _ => rfl)
      fun d hd => purgeCutoff_raiseCutoff_ne db t hd⟩, hdrop.policy.journal⟩
  | setChannelBlocked c b => exact kept_setChannelBlocked ⟨hread, hdb⟩ c b
  | syncBlockedChannels channels =>
    -- the blocks of a blocked channel are gone as well
    rw [Db.call]
    split
    · rename_i db' h
      obtain ⟨hrows, -, hjournal, -⟩ := syncBlockedChannels_eq_ok h
      exact ⟨⟨fun row hrow => hread row (hrows row hrow).1,
        compliant_syncBlockedChannels hread hdb h⟩, hjournal⟩
    · exact hreduced (.refl db)
  | touchChannelRequested c requested coalesce =>
    rw [Db.call]
    split
    · rename_i h
      exact hreduced (reduced_touchChannelRequested h)
    · exact hreduced (.refl db)

/-- **No call brings records** but an append, and that only such as pass. -/
theorem mem_sealedRecords_call (hread : db.Readable codec) {call : StoreCall} {r : CanonicalRecord}
    (hr : r ∈ (db.call codec store call).sealedRecords codec) :
    r ∈ db.sealedRecords codec ∨
      ∃ batches, call = .appendChannelBatches batches ∧ r ∈ batches.flatten ∧ db.Passes r := by
  cases call with
  | appendChannelBatches batches =>
    -- a record of an append was sealed before, or is one of the batch that passes
    rw [Db.call] at hr
    split at hr
    · rename_i h
      obtain ⟨gone, happ⟩ := appendChannelBatches_eq_ok hread h
      exact (happ.source r hr).imp_right fun ⟨hmem, hpasses⟩ => ⟨batches, rfl, hmem, hpasses⟩
    · exact .inl hr
  | evictBlockIds ids =>
    rw [Db.call] at hr
    split at hr
    · rename_i h
      exact .inl ((reduced_evictBlockIds h).sealedRecords hr)
    · exact .inl hr
  | expireBlocksBefore cutoff n =>
    exact .inl ((reduced_expireTransactions codec cutoff n db _).sealedRecords hr)
  | purgeChannel c t => exact .inl ((reduced_dropChannel codec (db.raiseCutoff c t) c).sealedRecords hr)
  | setChannelBlocked c b =>
    cases b with
    | true =>
      exact .inl ((reduced_dropChannel codec
        { db with blockedChannels := db.blockedChannels.insertIgnore c } c).sealedRecords hr)
    | false => exact .inl hr
  | syncBlockedChannels channels =>
    -- the list of ignored channels only takes rows away
    rw [Db.call] at hr
    split at hr
    · rename_i h
      obtain ⟨hrows, -⟩ := syncBlockedChannels_eq_ok h
      obtain ⟨row, hrow, hr⟩ := mem_sealedRecords.mp hr
      exact .inl (mem_sealedRecords.mpr ⟨row, (hrows row hrow).1, hr⟩)
    · exact .inl hr
  | touchChannelRequested c requested coalesce =>
    rw [Db.call] at hr
    split at hr
    · rename_i h
      exact .inl ((reduced_touchChannelRequested h).sealedRecords hr)
    · exact .inl hr

/-- **No call lowers a cutoff.** -/
theorem purgeCutoff_call (hread : db.Readable codec) (call : StoreCall) {old : ℤ}
    (h : db.purgeCutoff c = some old) :
    ∃ t, (db.call codec store call).purgeCutoff c = some t ∧ old ≤ t := by
  have hsame : ∀ {db' : Db β}, db.SamePolicy db' → ∃ t, db'.purgeCutoff c = some t ∧ old ≤ t :=
    fun hp => ⟨old, (purgeCutoff_congr hp c).trans h, le_rfl⟩
  cases call with
  | appendChannelBatches batches =>
    -- an append reads the policy, and does not change it
    rw [Db.call]
    split
    · rename_i happend
      obtain ⟨gone, happ⟩ := appendChannelBatches_eq_ok hread happend
      exact hsame happ.policy
    · exact ⟨old, h, le_rfl⟩
  | evictBlockIds ids =>
    rw [Db.call]
    split
    · rename_i hevict
      exact hsame (reduced_evictBlockIds hevict).policy
    · exact ⟨old, h, le_rfl⟩
  | expireBlocksBefore cutoff n => exact hsame (reduced_expireTransactions codec cutoff n db _).policy
  | purgeChannel d t =>
    -- the cutoff is raised with `MAX`, for this or another channel
    obtain ⟨t', ht', hle⟩ := purgeCutoff_raiseCutoff_le (c := d) t h
    exact ⟨t', (purgeCutoff_congr (reduced_dropChannel codec (db.raiseCutoff d t) d).policy c).trans
      ht', hle⟩
  | setChannelBlocked d b =>
    -- blocking a channel deletes its blocks and keeps its cutoff
    cases b with
    | true =>
      exact ⟨old, (purgeCutoff_congr (reduced_dropChannel codec
        { db with blockedChannels := db.blockedChannels.insertIgnore d } d).policy c).trans h, le_rfl⟩
    | false => exact ⟨old, h, le_rfl⟩
  | syncBlockedChannels channels =>
    -- so does the list of all ignored channels
    rw [Db.call]
    split
    · rename_i hsync
      obtain ⟨-, hcutoffs, -⟩ := syncBlockedChannels_eq_ok hsync
      rw [purgeCutoff, hcutoffs]
      exact ⟨old, h, le_rfl⟩
    · exact ⟨old, h, le_rfl⟩
  | touchChannelRequested d requested coalesce =>
    rw [Db.call]
    split
    · rename_i htouch
      exact hsame (reduced_touchChannelRequested htouch).policy
    · exact ⟨old, h, le_rfl⟩

/-! ### Runs -/

/-- The store is kept, and every cutoff that was given is in force. -/
structure Barred (codec : Codec β) (given : List StoreCall) (db : Db β) : Prop where
  kept : db.Kept codec
  cutoffs : ∀ c t, .purgeChannel c t ∈ given → ∃ t', db.purgeCutoff c = some t' ∧ t ≤ t'

/-- A step adds its own cutoff to those in force. -/
theorem barred_call {given : List StoreCall} (h : db.Barred codec given) (call : StoreCall) :
    (db.call codec store call).Barred codec (given ++ [call]) where
  kept := (kept_call h.kept call).1
  cutoffs := by
    intro c t hmem
    rcases List.mem_append.mp hmem with hold | hnew
    · obtain ⟨t', ht', hle⟩ := h.cutoffs c t hold
      obtain ⟨t'', ht'', hle'⟩ : ∃ t'', (db.call codec store call).purgeCutoff c = some t'' ∧
          t' ≤ t'' := purgeCutoff_call h.kept.readable call ht'
      exact ⟨t'', ht'', hle.trans hle'⟩
    · obtain rfl := List.mem_singleton.mp hnew
      obtain ⟨t', ht', hle, -⟩ := purgeCutoff_raiseCutoff_self db c t
      have hpolicy := (reduced_dropChannel codec (db.raiseCutoff c t) c).policy
      exact ⟨t', (purgeCutoff_congr hpolicy c).trans ht', hle⟩

theorem barred_foldl_call (codec : Codec β) (store : SqliteBlockStore) (calls : List StoreCall) :
    (calls.foldl (call codec store) empty).Barred codec calls := by
  induction calls using List.reverseRecOn with
  | nil => exact ⟨⟨readable_empty, compliant_empty⟩, nofun⟩
  | append_singleton calls call ih =>
    rw [List.foldl_append]
    exact barred_call ih call

/-- **The policy barriers hold in every reachable state**: a blocked channel has no
sealed block, a sealed record was received after every cutoff ever given for its
channel, and no call lowers a cutoff. -/
theorem policy_barriers (codec : Codec β) (store : SqliteBlockStore) (calls : List StoreCall) :
    (∀ row ∈ (calls.foldl (call codec store) empty).messageBlocks.rows,
      (calls.foldl (call codec store) empty).blocked row.channelKey = false) ∧
    (∀ c t, .purgeChannel c t ∈ calls →
      ∀ r ∈ (calls.foldl (call codec store) empty).sealedRecords codec,
        r.channelKey = c → t < r.receivedAtMs) ∧
    ∀ next c old, (calls.foldl (call codec store) empty).purgeCutoff c = some old →
      ∃ t, ((calls.foldl (call codec store) empty).call codec store next).purgeCutoff c = some t ∧
        old ≤ t := by
  obtain ⟨⟨hread, hcompliant⟩, hcutoffs⟩ := barred_foldl_call codec store calls
  refine ⟨fun row hrow => ?_, fun c t hgiven r hr hc => ?_, fun next c old hold => ?_⟩
  · -- a block holds a record, and that passes the policy
    obtain ⟨r, hr⟩ := List.exists_mem_of_ne_nil _ (hread row hrow).describes.nonempty
    rw [← (hread row hrow).channel hr]
    exact (hcompliant r (mem_sealedRecords.mpr ⟨row, hrow, hr⟩)).1
  · obtain ⟨t', ht', hle⟩ := hcutoffs c t hgiven
    exact hle.trans_lt ((hcompliant r hr).2 t' (hc ▸ ht'))
  · exact purgeCutoff_call hread next hold

end Db

end RecentMessages
