/-
RecentMessages/Web/Query.lean

Reading a channel on one node (`query_local_messages` and `merge_records`).

A read visits the sealed store and then the open blocks, each under its own lock.
`queryLocalMessages` therefore takes the store as it was at the first visit and
the open blocks as they were at the second one, which may belong to different
states of the node.

What a read returns is said by counting: an event whose copies lie in the window
and have fewer than `limit` newer events is returned exactly when the store or the
open blocks show it (`mem_queryLocalMessages`).
-/
import RecentMessages.Storage.Contents
import RecentMessages.Storage.Maintenance
import RecentMessages.Storage.OpenBlocks

namespace RecentMessages

open CanonicalRecord

/-- The options of a read that concern storage. -/
structure GetRecentMessagesQueryOptions where
  limit : Option ℕ
  before : Option ℤ
  after : Option ℤ
  deriving DecidableEq, Repr

/-- `requested_limit`. -/
def requestedLimit (options : GetRecentMessagesQueryOptions) (maxBufferSize : ℕ) : ℕ :=
  min (options.limit.getD maxBufferSize) maxBufferSize

/-- The request of a read of a channel. -/
def GetRecentMessagesQueryOptions.request (options : GetRecentMessagesQueryOptions)
    (channelLogin : String) (limit : ℕ) : QueryRequest :=
  ⟨toAsciiLowercase channelLogin, options.after, options.before, limit⟩

/-- The map `retained` of `merge_records`: the best copy of each event. -/
def retained (records peer : List CanonicalRecord) : IndexedList eventKey :=
  IndexedList.empty.upsertAll shouldReplace (records ++ peer)

/-- `merge_records`. -/
def mergeRecords (records peer : List CanonicalRecord) (limit : ℕ) : List CanonicalRecord :=
  takeNewest limit (sortByKey receiptOrder (retained records peer).items)

/-- `query_local_messages`. -/
def queryLocalMessages {β : Type} (codec : Codec β) (store : Db β)
    (openBlocks : Option OpenBlockManager) (channelLogin : String)
    (options : GetRecentMessagesQueryOptions) (maxBufferSize : ℕ) :
    Except StoreError (List CanonicalRecord) :=
  let limit := requestedLimit options maxBufferSize
  if limit = 0 then
    .ok []
  else do
    let request := options.request channelLogin limit
    let result ← store.query codec request
    let opened := (openBlocks.map (·.query request)).getD []
    return mergeRecords result.records opened limit

/-! ### Counting newer records -/

namespace QueryRequest

/-- The records of the channel and the window that are newer than `q`. -/
def newer (request : QueryRequest) (records : List CanonicalRecord) (q : CanonicalRecord) :
    List CanonicalRecord :=
  records.filter fun r => r.channelKey = request.channelKey &&
    (request.admits r && decide (q.receiptOrder < r.receiptOrder))

/-- `q` is in the window, and fewer than `limit` events have newer copies there. -/
def Ranks (request : QueryRequest) (records : List CanonicalRecord) (q : CanonicalRecord) : Prop :=
  request.admits q ∧ ((request.newer records q).map event).toFinset.card < request.limit

instance (request : QueryRequest) (records : List CanonicalRecord) (q : CanonicalRecord) :
    Decidable (request.Ranks records q) := inferInstanceAs (Decidable (_ ∧ _))

variable {request : QueryRequest} {records : List CanonicalRecord} {q r : CanonicalRecord}

theorem mem_newer : r ∈ request.newer records q ↔ r ∈ records ∧
    r.channelKey = request.channelKey ∧ request.admits r ∧ q.receiptOrder < r.receiptOrder := by
  simp [newer]

end QueryRequest

/-! ### Merging -/

section Merge

variable {records peer : List CanonicalRecord} {limit : ℕ} {r : CanonicalRecord}

theorem mem_retained (h : r ∈ (retained records peer).items) : r ∈ records ++ peer :=
  (IndexedList.mem_of_mem_upsertAll h).resolve_left List.not_mem_nil

/-- Every event has a retained copy. -/
theorem exists_mem_retained (h : r ∈ records ++ peer) :
    ∃ q ∈ (retained records peer).items, q.eventKey = r.eventKey :=
  List.mem_map.mp (IndexedList.mem_keys_upsertAll.mpr (.inr (List.mem_map_of_mem h)))

theorem mem_mergeRecords (h : r ∈ mergeRecords records peer limit) : r ∈ records ∨ r ∈ peer :=
  List.mem_append.mp (mem_retained (mem_sortByKey.mp (mem_of_mem_takeNewest h)))

/-- The merged records have pairwise distinct event keys. -/
theorem nodup_mergeRecords : ((mergeRecords records peer limit).map eventKey).Nodup := by
  refine List.Nodup.sublist ((takeNewest_sublist _ _).map _) ?_
  exact ((sortByKey_perm _).map eventKey).nodup_iff.mpr (IndexedList.nodup_keys _)

/-- **An event survives the merge** if its copies have fewer than `limit` newer
event keys. -/
theorem exists_mem_mergeRecords (hr : r ∈ records ++ peer)
    (hrank : ∀ q ∈ records ++ peer, q.eventKey = r.eventKey →
      (((records ++ peer).filter fun x => q.receiptOrder < x.receiptOrder).map
        eventKey).toFinset.card < limit) :
    ∃ m ∈ mergeRecords records peer limit, m.eventKey = r.eventKey := by
  obtain ⟨q, hq, hkey⟩ := exists_mem_retained hr
  -- the retained copies newer than `q` have distinct keys
  have hcount : (sortByKey receiptOrder (retained records peer).items).countP
      (fun x => q.receiptOrder < x.receiptOrder) < limit := by
    refine lt_of_le_of_lt ?_ (hrank q (mem_retained hq) hkey)
    have hnodup := (retained records peer).nodup_keys.sublist
      (List.filter_sublist (p := fun x => q.receiptOrder < x.receiptOrder) |>.map eventKey)
    rw [(sortByKey_perm _).countP_eq, List.countP_eq_length_filter]
    refine length_le_card_images hnodup fun x hx => ?_
    obtain ⟨hx, hlt⟩ := List.mem_filter.mp hx
    exact ⟨x, List.mem_filter.mpr ⟨mem_retained hx, hlt⟩, rfl⟩
  obtain ⟨m, hm, horder⟩ := exists_mem_takeNewest (sortByKey_sorted _) (mem_sortByKey.mpr hq) hcount
  exact ⟨m, hm, (eventKey_of_receiptOrder horder).trans hkey⟩

/-- **The merge** keeps the best copy of each event, and the newest `limit` of these. -/
theorem mem_mergeRecords_iff : r ∈ mergeRecords records peer limit ↔
    r ∈ (retained records peer).items ∧
      (retained records peer).items.countP (fun x => r.receiptOrder < x.receiptOrder) < limit := by
  have hcount : (sortByKey receiptOrder (retained records peer).items).countP
      (fun x => r.receiptOrder < x.receiptOrder) =
        (retained records peer).items.countP (fun x => r.receiptOrder < x.receiptOrder) :=
    (sortByKey_perm _).countP_eq _
  constructor
  · intro h
    refine ⟨mem_sortByKey.mp (mem_of_mem_takeNewest h), ?_⟩
    rw [← hcount]
    exact countP_lt_of_mem_takeNewest (sortByKey_sorted _) h
  · rintro ⟨hr, hrank⟩
    rw [← hcount] at hrank
    obtain ⟨m, hm, horder⟩ :=
      exists_mem_takeNewest (sortByKey_sorted _) (mem_sortByKey.mpr hr) hrank
    -- a key has one copy
    obtain rfl : m = r := List.inj_on_of_nodup_map (retained records peer).nodup_keys
      (mem_sortByKey.mp (mem_of_mem_takeNewest hm)) hr (eventKey_of_receiptOrder horder)
    exact hm

end Merge

/-! ### Reading the sealed store -/

namespace Db

variable {β : Type} {codec : Codec β} {db : Db β} {request : QueryRequest} {r : CanonicalRecord}

/-- The records that the store answers with. -/
def window (codec : Codec β) (db : Db β) (request : QueryRequest) : List CanonicalRecord :=
  takeNewest request.limit ((sortByKey receiptOrder
    ((db.blocksOf request.channelKey).flatMap (·.records codec))).filter request.admits)

theorem query_eq_ok (hread : db.Readable codec) (hlimit : request.limit ≠ 0) :
    ∃ result, db.query codec request = .ok result ∧ result.records = db.window codec request := by
  have hdecode : (db.blocksOf request.channelKey).mapM
      (fun row => (row.block.decode codec).mapError StoreError.block) =
        .ok ((db.blocksOf request.channelKey).map (·.records codec)) := by
    refine Except.mapM_of_ok fun row hrow => ?_
    exact Except.mapError_eq_ok.mpr (hread row (mem_blocksOf.mp hrow).1)
  rw [query, if_neg hlimit, hdecode]
  exact ⟨_, rfl, rfl⟩

/-- The records of a channel's blocks are the sealed records of the channel. -/
theorem perm_blocksOf (hread : db.Readable codec) (c : String) :
    ((db.blocksOf c).flatMap (·.records codec)).Perm
      ((db.sealedRecords codec).filter (·.channelKey = c)) := by
  have hrows : ∀ rows : List (MessageBlock β), (∀ row ∈ rows, row.Readable codec) →
      (rows.filter (·.channelKey = c)).flatMap (·.records codec) =
        (rows.flatMap (·.records codec)).filter (·.channelKey = c) := by
    intro rows hrows
    induction rows with
    | nil => rfl
    | cons row rows ih =>
      have hrest := ih fun q hq => hrows q (List.mem_cons_of_mem row hq)
      have hchannel : ∀ r ∈ row.records codec, r.channelKey = row.channelKey :=
        fun r hr => (hrows row List.mem_cons_self).channel hr
      rw [List.flatMap_cons, List.filter_append, ← hrest]
      by_cases hc : row.channelKey = c
      · have hall : (row.records codec).filter (·.channelKey = c) = row.records codec :=
          List.filter_eq_self.mpr fun r hr => by simpa using (hchannel r hr).trans hc
        rw [List.filter_cons_of_pos (by simpa using hc), List.flatMap_cons, hall]
      · have hnone : (row.records codec).filter (·.channelKey = c) = [] :=
          List.filter_eq_nil_iff.mpr fun r hr => by
            simpa using fun h => hc ((hchannel r hr).symm.trans h)
        rw [List.filter_cons_of_neg (by simpa using hc), hnone, List.nil_append]
  exact ((sortByKey_perm _).flatMap_right _).trans (List.Perm.of_eq (hrows _ hread))

theorem mem_channel (hread : db.Readable codec) {c : String} :
    r ∈ (db.blocksOf c).flatMap (·.records codec) ↔
      r ∈ db.sealedRecords codec ∧ r.channelKey = c := by
  rw [(perm_blocksOf hread c).mem_iff, List.mem_filter, decide_eq_true_eq]

/-- The window's records that are newer than `r` are the sealed ones. -/
theorem perm_newer (hread : db.Readable codec) (r : CanonicalRecord) :
    (((sortByKey receiptOrder ((db.blocksOf request.channelKey).flatMap
      (·.records codec))).filter request.admits).filter
        fun x => r.receiptOrder < x.receiptOrder).Perm
      (request.newer (db.sealedRecords codec) r) := by
  refine (((sortByKey_perm _).trans (perm_blocksOf hread request.channelKey)).filter _).filter _
    |>.trans (List.Perm.of_eq ?_)
  rw [List.filter_filter, List.filter_filter, QueryRequest.newer]
  congr 1
  funext x
  simp [Bool.and_comm]

/-- The rank of a record in the window, as a count of the sealed records. -/
theorem countP_window (hread : db.Readable codec) (r : CanonicalRecord) :
    ((sortByKey receiptOrder ((db.blocksOf request.channelKey).flatMap
      (·.records codec))).filter request.admits).countP (fun x => r.receiptOrder < x.receiptOrder) =
      (request.newer (db.sealedRecords codec) r).length := by
  rw [List.countP_eq_length_filter]
  exact (perm_newer hread r).length_eq

theorem sorted_window : ((sortByKey receiptOrder ((db.blocksOf request.channelKey).flatMap
    (·.records codec))).filter request.admits).Pairwise
      fun a b => a.receiptOrder ≤ b.receiptOrder :=
  (sortByKey_sorted _).filter _

/-- **What the store answers** is sealed, in the window, and has fewer than `limit`
newer records. -/
theorem mem_window (hread : db.Readable codec) (h : r ∈ db.window codec request) :
    r ∈ db.sealedRecords codec ∧ r.channelKey = request.channelKey ∧ request.admits r ∧
      (request.newer (db.sealedRecords codec) r).length < request.limit := by
  obtain ⟨hmem, hadmits⟩ := List.mem_filter.mp (mem_of_mem_takeNewest h)
  obtain ⟨hsealed, hchannel⟩ := (mem_channel hread).mp (mem_sortByKey.mp hmem)
  refine ⟨hsealed, hchannel, hadmits, ?_⟩
  rw [← countP_window hread]
  exact countP_lt_of_mem_takeNewest sorted_window h

/-- **The store shows an event** whose copy has fewer than `limit` newer records. -/
theorem exists_mem_window (hread : db.Readable codec) (hr : r ∈ db.sealedRecords codec)
    (hchannel : r.channelKey = request.channelKey) (hadmits : request.admits r)
    (hrank : (request.newer (db.sealedRecords codec) r).length < request.limit) :
    ∃ q ∈ db.window codec request, q.eventKey = r.eventKey := by
  rw [← countP_window hread] at hrank
  have hmem : r ∈ sortByKey receiptOrder
      ((db.blocksOf request.channelKey).flatMap (·.records codec)) :=
    mem_sortByKey.mpr ((mem_channel hread).mpr ⟨hr, hchannel⟩)
  obtain ⟨q, hq, horder⟩ :=
    exists_mem_takeNewest sorted_window (List.mem_filter.mpr ⟨hmem, hadmits⟩) hrank
  exact ⟨q, hq, eventKey_of_receiptOrder horder⟩

end Db

/-! ### Reading the open blocks -/

namespace OpenBlockManager

variable {m : OpenBlockManager} {request : QueryRequest} {r : CanonicalRecord}

theorem mem_query (h : r ∈ m.query request) :
    r ∈ m.records ∧ r.channelKey = request.channelKey ∧ request.admits r := by
  obtain ⟨hmem, hadmits⟩ := List.mem_filter.mp (mem_sortByKey.mp (mem_of_mem_takeNewest h))
  rcases e : m.blocks.lookup request.channelKey with - | block
  · rw [e] at hmem
    cases hmem
  · rw [e] at hmem
    obtain ⟨hblock, hkey⟩ := KeyTable.lookup_eq_some.mp e
    exact ⟨mem_records.mpr ⟨block, hblock, hmem⟩, (block.channel r hmem).trans hkey, hadmits⟩

/-- **The open blocks show an event** whose copy ranks among the newest `limit`. -/
theorem exists_mem_query {records : List CanonicalRecord} (hrecords : m.records ⊆ records)
    (hr : r ∈ m.records) (hchannel : r.channelKey = request.channelKey)
    (hranks : request.Ranks records r) : ∃ q ∈ m.query request, q.eventKey = r.eventKey := by
  obtain ⟨block, hlookup, hmem⟩ := mem_records_iff_lookup.mp hr
  rw [hchannel] at hlookup
  obtain ⟨hblock, hkey⟩ := KeyTable.lookup_eq_some.mp hlookup
  have hcount : (sortByKey receiptOrder (block.records.items.filter request.admits)).countP
      (fun x => r.receiptOrder < x.receiptOrder) < request.limit := by
    rw [(sortByKey_perm _).countP_eq, List.countP_eq_length_filter, List.filter_filter]
    -- the records of a block are copies of distinct events
    have hnodup : (block.records.items.map event).Nodup := by
      refine List.Nodup.of_map Prod.snd ?_
      rw [List.map_map]
      exact block.records.nodup_keys
    refine lt_of_le_of_lt (length_le_card_images
      (hnodup.sublist (List.filter_sublist.map event)) fun x hx => ?_) hranks.2
    obtain ⟨hx, hnewer⟩ := List.mem_filter.mp hx
    rw [Bool.and_eq_true, decide_eq_true_eq] at hnewer
    exact ⟨x, QueryRequest.mem_newer.mpr ⟨hrecords (mem_records.mpr ⟨block, hblock, hx⟩),
      (block.channel x hx).trans hkey, hnewer.2, hnewer.1⟩, rfl⟩
  obtain ⟨q, hq, horder⟩ := exists_mem_takeNewest (sortByKey_sorted _)
    (mem_sortByKey.mpr (List.mem_filter.mpr ⟨hmem, hranks.1⟩)) hcount
  refine ⟨q, ?_, eventKey_of_receiptOrder horder⟩
  rw [query, hlookup]
  exact hq

end OpenBlockManager

/-! ### Reading both -/

section Read

variable {β : Type} {codec : Codec β} {store : Db β} {openBlocks : Option OpenBlockManager}
variable {channelLogin : String} {options : GetRecentMessagesQueryOptions} {maxBufferSize : ℕ}

/-- The records that a read can see. -/
def visible (codec : Codec β) (store : Db β) (openBlocks : Option OpenBlockManager) :
    List CanonicalRecord :=
  store.sealedRecords codec ++ (openBlocks.map (·.records)).getD []

theorem visible_of_sealed {r : CanonicalRecord} (hr : r ∈ store.sealedRecords codec) :
    r ∈ visible codec store openBlocks :=
  List.mem_append_left _ hr

theorem visible_of_open {m : OpenBlockManager} {r : CanonicalRecord} (hm : m ∈ openBlocks)
    (hr : r ∈ m.records) : r ∈ visible codec store openBlocks := by
  rw [Option.mem_def] at hm
  subst hm
  exact List.mem_append_right _ hr

/-- Both answers come from what is visible of the channel, in the window. -/
theorem mem_answers (hread : store.Readable codec) {request : QueryRequest}
    {r : CanonicalRecord} (hr : r ∈ store.window codec request ++
      (openBlocks.map (·.query request)).getD []) :
    r ∈ visible codec store openBlocks ∧ r.channelKey = request.channelKey ∧ request.admits r := by
  rcases List.mem_append.mp hr with hr | hr
  · obtain ⟨hsealed, hchannel, hadmits, -⟩ := Db.mem_window hread hr
    exact ⟨visible_of_sealed hsealed, hchannel, hadmits⟩
  · rcases openBlocks with - | m
    · cases hr
    · obtain ⟨hopen, hchannel, hadmits⟩ := OpenBlockManager.mem_query hr
      exact ⟨visible_of_open rfl hopen, hchannel, hadmits⟩

/-- A read of a readable store does not fail. -/
theorem queryLocalMessages_eq_ok (hread : store.Readable codec) :
    queryLocalMessages codec store openBlocks channelLogin options maxBufferSize =
      .ok (if requestedLimit options maxBufferSize = 0 then [] else
        mergeRecords
          (store.window codec (options.request channelLogin (requestedLimit options maxBufferSize)))
          ((openBlocks.map (·.query
            (options.request channelLogin (requestedLimit options maxBufferSize)))).getD [])
          (requestedLimit options maxBufferSize)) := by
  unfold queryLocalMessages
  dsimp only
  split
  · rfl
  · rename_i hlimit
    have hquery : ∀ request : QueryRequest, request.limit ≠ 0 →
        ∃ result, store.query codec request = .ok result ∧
          result.records = store.window codec request := fun _ => Db.query_eq_ok hread
    obtain ⟨result, hresult, hrecords⟩ :=
      hquery (options.request channelLogin (requestedLimit options maxBufferSize)) hlimit
    rw [hresult, ← hrecords]
    rfl

/-- **A read returns only what it can see**, of its channel and in its window. -/
theorem visible_of_mem_queryLocalMessages (hread : store.Readable codec)
    {records : List CanonicalRecord}
    (h : queryLocalMessages codec store openBlocks channelLogin options maxBufferSize = .ok records)
    {r : CanonicalRecord} (hr : r ∈ records) :
    r ∈ visible codec store openBlocks ∧ r.channelKey = toAsciiLowercase channelLogin ∧
      (options.request channelLogin (requestedLimit options maxBufferSize)).admits r := by
  rw [queryLocalMessages_eq_ok hread, Except.ok.injEq] at h
  subst h
  split at hr
  · cases hr
  · exact mem_answers hread (List.mem_append.mpr (mem_mergeRecords hr))

theorem event_eq_of_key {r q : CanonicalRecord} (hchannel : r.channelKey = q.channelKey)
    (hkey : r.eventKey = q.eventKey) : r.event = q.event :=
  event_eq_iff.mpr ⟨hchannel, hkey⟩

/-- Records of the channel and the window have no more event keys than `newer` has
events. -/
theorem card_keys_le {request : QueryRequest} {l records : List CanonicalRecord}
    {q : CanonicalRecord} (hl : ∀ x ∈ l, x ∈ records ∧ x.channelKey = request.channelKey ∧
      request.admits x) :
    ((l.filter fun x => q.receiptOrder < x.receiptOrder).map eventKey).toFinset.card ≤
      ((request.newer records q).map event).toFinset.card := by
  calc
    _ ≤ (((request.newer records q).map event).toFinset.image Prod.snd).card := by
      refine Finset.card_le_card fun k hk => ?_
      rw [List.mem_toFinset, List.mem_map] at hk
      obtain ⟨x, hx, rfl⟩ := hk
      obtain ⟨hx, hlt⟩ := List.mem_filter.mp hx
      obtain ⟨hmem, hchannel, hadmits⟩ := hl x hx
      have hnewer := QueryRequest.mem_newer.mpr ⟨hmem, hchannel, hadmits, of_decide_eq_true hlt⟩
      exact Finset.mem_image.mpr ⟨x.event, List.mem_toFinset.mpr (List.mem_map_of_mem hnewer), rfl⟩
    _ ≤ _ := Finset.card_image_le

/-- An event of the answers whose visible copies rank among the newest survives the merge. -/
theorem event_mem_mergeRecords (hread : store.Readable codec) {request : QueryRequest}
    {r x : CanonicalRecord} (hchannel : r.channelKey = request.channelKey)
    (hranks : ∀ q ∈ visible codec store openBlocks, q.event = r.event →
      request.Ranks (visible codec store openBlocks) q)
    (hx : x ∈ store.window codec request ++ (openBlocks.map (·.query request)).getD [])
    (hkey : x.eventKey = r.eventKey) :
    r.event ∈ (mergeRecords (store.window codec request)
      ((openBlocks.map (·.query request)).getD []) request.limit).map event := by
  have hcopy : ∀ z ∈ store.window codec request ++ (openBlocks.map (·.query request)).getD [],
      z.eventKey = x.eventKey → z.event = r.event := fun z hz hzkey =>
    event_eq_of_key ((mem_answers hread hz).2.1.trans hchannel.symm) (hzkey.trans hkey)
  obtain ⟨y, hy, hykey⟩ := exists_mem_mergeRecords hx fun z hz hzkey =>
    lt_of_le_of_lt (card_keys_le fun w hw => mem_answers hread hw)
      (hranks z (mem_answers hread hz).1 (hcopy z hz hzkey)).2
  exact hcopy y (List.mem_append.mpr (mem_mergeRecords hy)) hykey ▸ List.mem_map_of_mem hy

/-- **What a read returns.**  An event whose visible copies are in the window and
among the newest `limit` is returned exactly when an open block shows it, or the
store does within its own newest `limit` records. -/
theorem mem_queryLocalMessages (hread : store.Readable codec) {r : CanonicalRecord}
    (hchannel : r.channelKey = toAsciiLowercase channelLogin)
    (hranks : ∀ q ∈ visible codec store openBlocks, q.event = r.event →
      (options.request channelLogin (requestedLimit options maxBufferSize)).Ranks
        (visible codec store openBlocks) q) :
    ∃ records,
      queryLocalMessages codec store openBlocks channelLogin options maxBufferSize = .ok records ∧
      (r.event ∈ records.map event ↔
        (∃ q ∈ store.sealedRecords codec, q.event = r.event ∧
          ((options.request channelLogin (requestedLimit options maxBufferSize)).newer
            (store.sealedRecords codec) q).length < requestedLimit options maxBufferSize) ∨
        ∃ m ∈ openBlocks, ∃ q ∈ m.records, q.event = r.event) := by
  refine ⟨_, queryLocalMessages_eq_ok hread, ?_⟩
  generalize hlimit : requestedLimit options maxBufferSize = limit at hranks ⊢
  split
  · -- nothing ranks among the newest zero
    rename_i hzero
    subst hzero
    refine iff_of_false (List.not_mem_nil) ?_
    rintro (⟨q, -, -, hlt⟩ | ⟨m, hm, q, hq, hqe⟩)
    · exact Nat.not_lt_zero _ hlt
    · exact Nat.not_lt_zero _ (hranks q (visible_of_open hm hq) hqe).2
  · constructor
    · intro hmem
      obtain ⟨x, hx, hxe⟩ := List.mem_map.mp hmem
      rcases mem_mergeRecords hx with hx | hx
      · obtain ⟨hmem, -, -, hlt⟩ := Db.mem_window hread hx
        exact .inl ⟨x, hmem, hxe, hlt⟩
      · rcases openBlocks with - | m
        · cases hx
        · exact .inr ⟨m, rfl, x, (OpenBlockManager.mem_query hx).1, hxe⟩
    · rintro (⟨q, hq, hqe, hlt⟩ | ⟨m, hm, q, hq, hqe⟩)
      · obtain ⟨hqc, hqkey⟩ := event_eq_iff.mp hqe
        obtain ⟨x, hx, hxkey⟩ := Db.exists_mem_window hread hq (hqc.trans hchannel)
          (hranks q (visible_of_sealed hq) hqe).1 hlt
        exact event_mem_mergeRecords hread hchannel hranks (List.mem_append_left _ hx)
          (hxkey.trans hqkey)
      · obtain ⟨hqc, hqkey⟩ := event_eq_iff.mp hqe
        obtain ⟨x, hx, hxkey⟩ := OpenBlockManager.exists_mem_query
          (fun y hy => visible_of_open hm hy) hq (hqc.trans hchannel)
          (hranks q (visible_of_open hm hq) hqe)
        rw [Option.mem_def] at hm
        subst hm
        exact event_mem_mergeRecords hread hchannel hranks (List.mem_append_right _ hx)
          (hxkey.trans hqkey)

end Read

end RecentMessages
