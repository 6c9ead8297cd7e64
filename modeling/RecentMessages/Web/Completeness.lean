/-
RecentMessages/Web/Completeness.lean

What a response that is labelled complete contains.

`get_recent_messages` reads the records of the window and then assesses the coverage
of the channel.  The coverage says which messages the node has received; whether it
still has them is for the sealed store and the open blocks to say, and no path that
drops blocks for room or age tells the coverage (`eviction_stays_covered`).  A
message is returned if no step has lost it, the two visits of the read do not fall
around its sealing, and the limit does not cut between it and messages received in
the same millisecond (`complete_misses_nothing`).
-/
import RecentMessages.Control.Coverage
import RecentMessages.Web.Survival
import RecentMessages.Web.Visibility

namespace RecentMessages

open CanonicalRecord

/-! ### Cutting at the limit -/

/-- If `limit` elements come after `t`, so do the newest `limit`. -/
theorem lt_of_mem_takeNewest {l : List CanonicalRecord} {limit : ℕ} {t : ℤ}
    (hs : l.Pairwise fun a b => a.receiptOrder ≤ b.receiptOrder)
    (hmany : limit ≤ l.countP (fun x => t < x.receivedAtMs)) {y : CanonicalRecord}
    (hy : y ∈ takeNewest limit l) : t < y.receivedAtMs := by
  by_contra hle
  have hcount := countP_lt_of_mem_takeNewest hs hy
  have hlater : l.countP (fun x => t < x.receivedAtMs) ≤
      l.countP (fun x => y.receiptOrder < x.receiptOrder) := by
    refine List.countP_mono_left fun x _ hx => ?_
    have hlt := lt_of_le_of_lt (not_lt.mp hle) (of_decide_eq_true hx)
    exact decide_eq_true (Prod.Lex.toLex_lt_toLex.mpr (.inl hlt))
  omega

section Full

variable {records opened : List CanonicalRecord} {limit : ℕ} {t : ℤ}

/-- **If `limit` events that are shown have only late copies**, a merge returns that many
records, and only late ones. -/
theorem full_of_late {late : List CanonicalRecord} (hlength : limit ≤ late.length)
    (hnodup : (late.map eventKey).Nodup) (hshown : late ⊆ records ++ opened)
    (hlate : ∀ z ∈ records ++ opened, ∀ x ∈ late, z.eventKey = x.eventKey → t < z.receivedAtMs) :
    limit ≤ (mergeRecords records opened limit).length ∧
      ∀ y ∈ mergeRecords records opened limit, t < y.receivedAtMs := by
  have hperm : (sortByKey receiptOrder (retained records opened).items).Perm
      (retained records opened).items := sortByKey_perm _
  -- every event of `late` has a retained copy, and it is late
  have hmany : limit ≤ (sortByKey receiptOrder (retained records opened).items).countP
      (fun x => t < x.receivedAtMs) := by
    rw [hperm.countP_eq, List.countP_eq_length_filter]
    calc
      limit ≤ late.length := hlength
      _ ≤ (((retained records opened).items.filter fun x => t < x.receivedAtMs).map
          eventKey).toFinset.card := by
        refine length_le_card_images hnodup fun x hx => ?_
        obtain ⟨z, hz, hkey⟩ := exists_mem_retained (hshown hx)
        refine ⟨z, List.mem_filter.mpr ⟨hz, decide_eq_true ?_⟩, hkey⟩
        exact hlate z (mem_retained hz) x hx hkey
      _ ≤ _ := (List.toFinset_card_le _).trans (List.length_map _).le
  refine ⟨?_, fun y hy => lt_of_mem_takeNewest (sortByKey_sorted _) hmany hy⟩
  have hle := hmany.trans List.countP_le_length
  rw [mergeRecords, takeNewest, List.length_drop]
  omega

/-- An answer is full of events other than that of `q`, none of them older. -/
structure FullPast (limit : ℕ) (q : CanonicalRecord) (answer : List CanonicalRecord) : Prop where
  length : limit ≤ answer.length
  nodup : (answer.map eventKey).Nodup
  other : ∀ x ∈ answer, x.eventKey ≠ q.eventKey ∧ q.receiptOrder ≤ x.receiptOrder

/-- If a merge does not return an event that it retains, it is full past the retained
copy. -/
theorem fullPast_merge {p : CanonicalRecord} (hp : p ∈ (retained records opened).items)
    (hnot : p.eventKey ∉ (mergeRecords records opened limit).map eventKey) :
    FullPast limit p (mergeRecords records opened limit) := by
  have hout : p ∉ mergeRecords records opened limit := fun h => hnot (List.mem_map_of_mem h)
  obtain ⟨hlength, hnewer⟩ :=
    le_of_not_mem_takeNewest (sortByKey_sorted _) (mem_sortByKey.mpr hp) hout
  refine ⟨hlength, nodup_mergeRecords, fun x hx => ⟨?_, hnewer x hx⟩⟩
  intro hkey
  exact hnot (hkey ▸ List.mem_map_of_mem hx)

end Full

/-! ### What hides a record -/

section Hidden

variable {β : Type} {codec : Codec β} {store : Db β} {m : OpenBlockManager}
variable {request : QueryRequest} {q r : CanonicalRecord}

/-- If the store does not show an event that it has, its answer is full past it. -/
theorem fullPast_window (hread : store.Readable codec) (hq : q ∈ store.sealedRecords codec)
    (hchannel : q.channelKey = request.channelKey) (hadmits : request.admits q)
    (hdistinct : ((request.newer (store.sealedRecords codec) q).map event).Nodup)
    (hnot : q.eventKey ∉ (store.window codec request).map eventKey) :
    FullPast request.limit q (store.window codec request) := by
  have hmem : q ∈ (sortByKey receiptOrder ((store.blocksOf request.channelKey).flatMap
      (·.records codec))).filter request.admits :=
    List.mem_filter.mpr ⟨mem_sortByKey.mpr ((Db.mem_channel hread).mpr ⟨hq, hchannel⟩), hadmits⟩
  obtain ⟨hlength, hnewer⟩ := le_of_not_mem_takeNewest Db.sorted_window hmem
    fun h => hnot (List.mem_map_of_mem h)
  have hkey : ∀ x ∈ store.window codec request, x.eventKey ≠ q.eventKey :=
    fun x hx hkey => hnot (hkey ▸ List.mem_map_of_mem hx)
  refine ⟨hlength, ?_, fun x hx => ⟨hkey x hx, hnewer x hx⟩⟩
  -- all of the answer is newer than `q`, and the newer records are distinct events
  have hall : (store.window codec request).filter (fun x => q.receiptOrder < x.receiptOrder) =
      store.window codec request := by
    refine List.filter_eq_self.mpr fun x hx => decide_eq_true ?_
    exact lt_of_le_of_ne (hnewer x hx) fun heq => hkey x hx (eventKey_of_receiptOrder heq).symm
  have hevents : ((store.window codec request).map event).Nodup := by
    rw [← hall]
    refine List.Nodup.sublist (((takeNewest_sublist _ _).filter _).map event) ?_
    exact ((Db.perm_newer hread q).map event).nodup_iff.mpr hdistinct
  -- in one channel, events are told apart by their keys
  refine List.Nodup.of_map (fun k : EventKey => (request.channelKey, k)) ?_
  rw [List.map_map]
  refine (List.Perm.of_eq (List.map_congr_left fun x hx => ?_)).nodup_iff.mpr hevents
  obtain ⟨-, hc, -⟩ := Db.mem_window hread hx
  exact Prod.ext hc.symm rfl

/-- If the open block does not show an event that it has, its answer is full past it. -/
theorem fullPast_query (hq : q ∈ m.records) (hchannel : q.channelKey = request.channelKey)
    (hadmits : request.admits q) (hnot : q.eventKey ∉ (m.query request).map eventKey) :
    FullPast request.limit q (m.query request) := by
  obtain ⟨block, hlookup, hmem⟩ := OpenBlockManager.mem_records_iff_lookup.mp hq
  rw [hchannel] at hlookup
  have hquery : m.query request = takeNewest request.limit
      (sortByKey receiptOrder (block.records.items.filter request.admits)) := by
    rw [OpenBlockManager.query, hlookup]
    rfl
  rw [hquery] at hnot ⊢
  obtain ⟨hlength, hnewer⟩ := le_of_not_mem_takeNewest (sortByKey_sorted _)
    (mem_sortByKey.mpr (List.mem_filter.mpr ⟨hmem, hadmits⟩))
    fun h => hnot (List.mem_map_of_mem h)
  refine ⟨hlength, ?_, fun x hx => ⟨?_, hnewer x hx⟩⟩
  · refine List.Nodup.sublist ((takeNewest_sublist _ _).map eventKey) ?_
    exact ((sortByKey_perm _).map eventKey).nodup_iff.mpr
      (block.records.nodup_keys.sublist (List.filter_sublist.map eventKey))
  · intro hkey
    exact hnot (hkey ▸ List.mem_map_of_mem hx)

end Hidden

/-- The records of the channel and the window among those given. -/
def QueryRequest.within (request : QueryRequest) (records : List CanonicalRecord) :
    List CanonicalRecord :=
  records.filter fun q => q.channelKey = request.channelKey && request.admits q

theorem QueryRequest.mem_within {request : QueryRequest} {records : List CanonicalRecord}
    {q : CanonicalRecord} : q ∈ request.within records ↔
      q ∈ records ∧ q.channelKey = request.channelKey ∧ request.admits q := by
  simp [QueryRequest.within]

/-- What a read must not meet if it is to return the event of `r` whenever the store or
the open blocks hold it and the answer goes back to `r`. -/
structure Unhidden {β : Type} (codec : Codec β) (store : Db β) (m : OpenBlockManager)
    (request : QueryRequest) (r : CanonicalRecord) : Prop where
  /-- A copy of the event that was received outside the window, or before `r`. -/
  copies : ∀ q ∈ visible codec store (some m), q.event = r.event →
    request.admits q ∧ r.receivedAtMs ≤ q.receivedAtMs
  /-- Two stored copies of an event that is newer than a stored copy of `r`. -/
  distinct : ∀ q ∈ store.sealedRecords codec, q.event = r.event →
    ((request.newer (store.sealedRecords codec) q).map event).Nodup
  /-- Another event that was received in the millisecond of `r` or on both sides of it,
  when more than `limit` events of the window were received from then on. -/
  cut : request.limit < (((request.within (visible codec store (some m))).filter
      fun x => r.receivedAtMs ≤ x.receivedAtMs).map event).toFinset.card →
    ∀ z ∈ request.within (visible codec store (some m)),
      ∀ x ∈ request.within (visible codec store (some m)), z.event = x.event →
        z.event ≠ r.event → z.receivedAtMs ≤ r.receivedAtMs → x.receivedAtMs < r.receivedAtMs

instance {β : Type} (codec : Codec β) (store : Db β) (m : OpenBlockManager)
    (request : QueryRequest) (r : CanonicalRecord) :
    Decidable (Unhidden codec store m request r) :=
  decidable_of_iff (_ ∧ _ ∧ _) ⟨fun ⟨copies, distinct, cut⟩ => ⟨copies, distinct, cut⟩,
    fun h => ⟨h.copies, h.distinct, h.cut⟩⟩

section Returned

variable {β : Type} {codec : Codec β} {store : Db β} {m : OpenBlockManager}
variable {channelLogin : String} {options : GetRecentMessagesQueryOptions} {maxBufferSize : ℕ}
variable {request : QueryRequest} {q r : CanonicalRecord}

theorem receivedAtMs_le (h : q.receiptOrder ≤ r.receiptOrder) :
    q.receivedAtMs ≤ r.receivedAtMs := by
  rcases Prod.Lex.toLex_le_toLex.mp h with hlt | ⟨heq, -⟩
  · exact hlt.le
  · exact heq.le

/-- What both answers show is visible, of the channel and in the window. -/
theorem shown_within (hread : store.Readable codec) {x : CanonicalRecord}
    (hx : x ∈ store.window codec request ++ m.query request) :
    x ∈ request.within (visible codec store (some m)) := by
  rw [QueryRequest.mem_within]
  rcases List.mem_append.mp hx with hx | hx
  · obtain ⟨hmem, hchannel, hadmits, -⟩ := Db.mem_window hread hx
    exact ⟨List.mem_append_left _ hmem, hchannel, hadmits⟩
  · obtain ⟨hmem, hchannel, hadmits⟩ := OpenBlockManager.mem_query hx
    exact ⟨List.mem_append_right _ hmem, hchannel, hadmits⟩

/-- **If a read does not return an event that is visible**, one of the answers it merges
or the merge itself is full past a copy of the event. -/
theorem fullPast_of_missing (hread : store.Readable codec) (h : Unhidden codec store m request r)
    (hchannel : r.channelKey = request.channelKey)
    (hq : q ∈ visible codec store (some m)) (hqe : q.event = r.event)
    (hnot : r.eventKey ∉ (mergeRecords (store.window codec request) (m.query request)
      request.limit).map eventKey) :
    ∃ p ∈ visible codec store (some m), p.event = r.event ∧
      ∃ late ⊆ store.window codec request ++ m.query request, FullPast request.limit p late := by
  obtain ⟨hqc, hqk⟩ := event_eq_iff.mp hqe
  by_cases hret : ∃ p ∈ (retained (store.window codec request) (m.query request)).items,
      p.eventKey = r.eventKey
  · obtain ⟨p, hp, hpk⟩ := hret
    obtain ⟨hvisible, hpc, -⟩ := QueryRequest.mem_within.mp (shown_within hread (mem_retained hp))
    refine ⟨p, hvisible, event_eq_iff.mpr ⟨hpc.trans hchannel.symm, hpk⟩, _, ?_,
      fullPast_merge hp (hpk ▸ hnot)⟩
    exact fun x hx => List.mem_append.mpr (mem_mergeRecords hx)
  · -- neither answer shows the event
    have hnone : ∀ x ∈ store.window codec request ++ m.query request,
        x.eventKey ≠ q.eventKey := by
      intro x hx hkey
      obtain ⟨p, hp, hpk⟩ := exists_mem_retained hx
      exact hret ⟨p, hp, hpk.trans (hkey.trans hqk)⟩
    obtain ⟨hadmits, -⟩ := h.copies q hq hqe
    refine ⟨q, hq, hqe, ?_⟩
    rcases List.mem_append.mp hq with hsealed | hopen
    · refine ⟨_, fun x hx => List.mem_append_left _ hx, fullPast_window hread hsealed
        (hqc.trans hchannel) hadmits (h.distinct q hsealed hqe) fun hmem => ?_⟩
      obtain ⟨x, hx, hkey⟩ := List.mem_map.mp hmem
      exact hnone x (List.mem_append_left _ hx) hkey
    · refine ⟨_, fun x hx => List.mem_append_right _ hx, fullPast_query hopen
        (hqc.trans hchannel) hadmits fun hmem => ?_⟩
      obtain ⟨x, hx, hkey⟩ := List.mem_map.mp hmem
      exact hnone x (List.mem_append_right _ hx) hkey

/-- **What a read returns of an unhidden record**: its event, unless the answer is full
and all of it was received later. -/
theorem returned_of_unhidden (hread : store.Readable codec)
    (hlimit : requestedLimit options maxBufferSize ≠ 0)
    (h : Unhidden codec store m
      (options.request channelLogin (requestedLimit options maxBufferSize)) r)
    (hchannel : r.channelKey = toAsciiLowercase channelLogin)
    (hq : q ∈ visible codec store (some m)) (hqe : q.event = r.event)
    {records : List CanonicalRecord}
    (hquery : queryLocalMessages codec store (some m) channelLogin options maxBufferSize =
      .ok records)
    (hback : requestedLimit options maxBufferSize ≤ records.length →
      ∃ y ∈ records, y.receivedAtMs ≤ r.receivedAtMs) :
    r.event ∈ records.map event := by
  rw [queryLocalMessages_eq_ok hread, if_neg hlimit, Except.ok.injEq] at hquery
  generalize hrequest : options.request channelLogin (requestedLimit options maxBufferSize) =
    request at h hquery
  have hlimit' : requestedLimit options maxBufferSize = request.limit := by rw [← hrequest]; rfl
  have hchannel' : r.channelKey = request.channelKey := by rw [← hrequest]; exact hchannel
  rw [hlimit'] at hquery hback
  obtain rfl : mergeRecords (store.window codec request) (m.query request) request.limit =
    records := hquery
  by_contra hmissing
  have hnot : r.eventKey ∉ (mergeRecords (store.window codec request) (m.query request)
      request.limit).map eventKey := by
    intro hmem
    obtain ⟨x, hx, hkey⟩ := List.mem_map.mp hmem
    obtain ⟨-, hxc, -⟩ := QueryRequest.mem_within.mp
      (shown_within hread (List.mem_append.mpr (mem_mergeRecords hx)))
    exact hmissing (List.mem_map.mpr ⟨x, hx, event_eq_iff.mpr ⟨hxc.trans hchannel'.symm, hkey⟩⟩)
  obtain ⟨p, hp, hpe, late, hsub, hfullPast⟩ :=
    fullPast_of_missing hread h hchannel' hq hqe hnot
  obtain ⟨hpadmits, hple⟩ := h.copies p hp hpe
  have hlate : ∀ x ∈ late, x.eventKey ≠ r.eventKey ∧ r.receivedAtMs ≤ x.receivedAtMs := by
    intro x hx
    obtain ⟨hkey, horder⟩ := hfullPast.other x hx
    rw [(event_eq_iff.mp hpe).2] at hkey
    exact ⟨hkey, hple.trans (receivedAtMs_le horder)⟩
  have hwithin : ∀ x ∈ late, x ∈ request.within (visible codec store (some m)) :=
    fun x hx => shown_within hread (hsub hx)
  -- with `r` itself there are more than `limit` events from its millisecond on
  have hmany : request.limit < (((request.within (visible codec store (some m))).filter
      fun x => r.receivedAtMs ≤ x.receivedAtMs).map event).toFinset.card := by
    have hevents : ((p :: late).map event).Nodup := by
      rw [List.map_cons, List.nodup_cons]
      refine ⟨fun hmem => ?_,
        List.Nodup.of_map Prod.snd (by rw [List.map_map]; exact hfullPast.nodup)⟩
      obtain ⟨x, hx, hxe⟩ := List.mem_map.mp hmem
      exact (hlate x hx).1 (event_eq_iff.mp (hxe.trans hpe)).2
    refine lt_of_lt_of_le (Nat.lt_succ_of_le hfullPast.length)
      (length_le_card_images hevents fun x hx => ⟨x, List.mem_filter.mpr ?_, rfl⟩)
    rcases List.mem_cons.mp hx with rfl | hx
    · have hxc := (event_eq_iff.mp hpe).1.trans hchannel'
      exact ⟨QueryRequest.mem_within.mpr ⟨hp, hxc, hpadmits⟩, decide_eq_true hple⟩
    · exact ⟨hwithin x hx, decide_eq_true (hlate x hx).2⟩
  -- so no copy of these others is as early as `r`
  have hlater : ∀ z ∈ store.window codec request ++ m.query request, ∀ x ∈ late,
      z.eventKey = x.eventKey → r.receivedAtMs < z.receivedAtMs := by
    intro z hz x hx hkey
    by_contra hle
    obtain ⟨-, hzc, -⟩ := QueryRequest.mem_within.mp (shown_within hread hz)
    obtain ⟨-, hxc, -⟩ := QueryRequest.mem_within.mp (hwithin x hx)
    have hze : z.event ≠ r.event := fun he =>
      (hlate x hx).1 (hkey.symm.trans (event_eq_iff.mp he).2)
    have hlt := h.cut hmany z (shown_within hread hz) x (hwithin x hx)
      (event_eq_iff.mpr ⟨hzc.trans hxc.symm, hkey⟩) hze (not_lt.mp hle)
    exact absurd (hlate x hx).2 (not_le.mpr hlt)
  -- and the answer is full of later records
  obtain ⟨hfull, hall⟩ := full_of_late hfullPast.length hfullPast.nodup hsub hlater
  obtain ⟨y, hy, hle⟩ := hback hfull
  exact absurd (hall y hy) (not_lt.mpr hle)

end Returned

/-! ### A response during a run -/

/-- The window of the read of `get_recent_messages`, which ends with the millisecond of
the request. -/
def storageOptions (options : GetRecentMessagesQueryOptions) (requestSnapshotMs : ℤ) :
    GetRecentMessagesQueryOptions :=
  if options.before.all (requestSnapshotMs + 1 < ·) then
    { options with before := some (requestSnapshotMs + 1) }
  else options

/-- The request that `get_recent_messages` has assessed. -/
def coverageRequest (options : GetRecentMessagesQueryOptions) (maxBufferSize : ℕ)
    (requestSnapshotMs retentionMs : ℤ) : CoverageRequest :=
  ⟨options.after, options.before, requestedLimit options maxBufferSize, requestSnapshotMs,
    retentionMs⟩

@[simp] theorem limit_storageOptions (options : GetRecentMessagesQueryOptions) (snapshotMs : ℤ)
    (maxBufferSize : ℕ) : requestedLimit (storageOptions options snapshotMs) maxBufferSize =
      requestedLimit options maxBufferSize := by
  unfold storageOptions
  split <;> rfl

namespace Node

variable {β : Type} {cfg : Settings β} {n n' : Node β} {e : String × EventKey}

/-- `get_recent_messages` up to its first assessment.  It visits the store, the open
blocks and the control store, in states `n`, `n'` and `n''` of the node. -/
def assessedRead (cfg : Settings β) (n n' n'' : Node β) (channelLogin : String)
    (options : GetRecentMessagesQueryOptions) (maxBufferSize : ℕ)
    (requestSnapshotMs retentionMs : ℤ) :
    Except StoreError (List CanonicalRecord × CoverageAssessment) := do
  let records ← read cfg n n' channelLogin (storageOptions options requestSnapshotMs) maxBufferSize
  let coverage := n''.control.getCoverageIntervals channelLogin requestSnapshotMs
  return (records, assessCoverage records coverage
    (coverageRequest options maxBufferSize requestSnapshotMs retentionMs))

/-- An event that is not in the store yet at the first visit is open at the second. -/
def Settled (codec : Codec β) (e : String × EventKey) (n n' : Node β) : Prop :=
  Ingest.HasEvent (n.ingest.task.todo codec ++
      (n.ingest.task.inFlight ++ n.ingest.openBlocks.records)) e →
    Ingest.HasEvent (n.ingest.db.sealedRecords codec) e ∨
      Ingest.HasEvent n'.ingest.openBlocks.records e

instance (codec : Codec β) (e : String × EventKey) (n n' : Node β) :
    Decidable (Settled codec e n n') := inferInstanceAs (Decidable (_ → _ ∨ _))

/-- What is held or about to be appended again is visible, if it is settled. -/
theorem visible_of_settled (hsettled : Settled cfg.codec e n n')
    (h : Ingest.HasEvent (n.ingest.held cfg.codec) e ∨
      Ingest.HasEvent (n.ingest.task.todo cfg.codec) e) :
    ∃ q ∈ visible cfg.codec n.ingest.db (some n'.ingest.openBlocks), q.event = e := by
  have hshown : Ingest.HasEvent (n.ingest.db.sealedRecords cfg.codec) e ∨
      Ingest.HasEvent n'.ingest.openBlocks.records e := by
    rw [Ingest.hasEvent_held] at h
    rcases h with (h | ⟨r, hr, he⟩ | ⟨r, hr, he⟩) | ⟨r, hr, he⟩
    · exact .inl h
    · exact hsettled ⟨r, List.mem_append_right _ (List.mem_append_left _ hr), he⟩
    · exact hsettled ⟨r, List.mem_append_right _ (List.mem_append_right _ hr), he⟩
    · exact hsettled ⟨r, List.mem_append_left _ hr, he⟩
  rcases hshown with ⟨q, hq, he⟩ | ⟨q, hq, he⟩
  · exact ⟨q, List.mem_append_left _ hq, he⟩
  · exact ⟨q, List.mem_append_right _ hq, he⟩

/-- Something is asked for, if a message of the window was received in the span. -/
theorem not_vacuous {options : GetRecentMessagesQueryOptions} {maxBufferSize : ℕ}
    {snapshotMs retentionMs : ℤ} {channelLogin : String} {r : CanonicalRecord}
    {records : List CanonicalRecord} {coverage : List CoverageInterval}
    (hadmits : (readRequest channelLogin options maxBufferSize).admits r = true)
    (hlast : r.receivedAtMs =
        (coverageRequest options maxBufferSize snapshotMs retentionMs).requiredEndMs →
      requestedLimit options maxBufferSize ≠ 0)
    (hfrom : (assessCoverage records coverage (coverageRequest options maxBufferSize snapshotMs
      retentionMs)).requiredStartMs ≤ r.receivedAtMs)
    (hto : r.receivedAtMs ≤
      (coverageRequest options maxBufferSize snapshotMs retentionMs).requiredEndMs) :
    ¬ (coverageRequest options maxBufferSize snapshotMs retentionMs).Vacuous := by
  intro hvacuous
  -- the span is one point
  rw [assessCoverage, if_pos hvacuous] at hfrom
  rcases hvacuous with hzero | ⟨after, hafter, hle⟩
  · exact hlast (le_antisymm hto hfrom) hzero
  · have hafter' : options.after = some after := hafter
    have hall : (options.after.all fun after => after < r.receivedAtMs) = true := by
      rw [QueryRequest.admits, Bool.and_eq_true] at hadmits
      exact hadmits.1
    rw [hafter'] at hall
    have hlt : after < r.receivedAtMs := of_decide_eq_true hall
    omega

/-- **A visible message in the window and the span is returned**, if it is unhidden. -/
theorem returned_in_span (hn : n.Sound cfg.codec) {channelLogin : String}
    {options : GetRecentMessagesQueryOptions} {maxBufferSize : ℕ} {snapshotMs retentionMs : ℤ}
    {q r : CanonicalRecord} {records : List CanonicalRecord} (coverage : List CoverageInterval)
    (hread : read cfg n n' channelLogin (storageOptions options snapshotMs) maxBufferSize =
      .ok records)
    (hchannel : r.channelKey = toAsciiLowercase channelLogin)
    (hunhidden : Unhidden cfg.codec n.ingest.db n'.ingest.openBlocks
      (readRequest channelLogin (storageOptions options snapshotMs) maxBufferSize) r)
    (hq : q ∈ visible cfg.codec n.ingest.db (some n'.ingest.openBlocks)) (hqe : q.event = r.event)
    (hadmits : (readRequest channelLogin options maxBufferSize).admits r = true)
    (hlast : r.receivedAtMs =
        (coverageRequest options maxBufferSize snapshotMs retentionMs).requiredEndMs →
      requestedLimit options maxBufferSize ≠ 0)
    (hfrom : (assessCoverage records coverage (coverageRequest options maxBufferSize snapshotMs
      retentionMs)).requiredStartMs ≤ r.receivedAtMs)
    (hto : r.receivedAtMs ≤
      (coverageRequest options maxBufferSize snapshotMs retentionMs).requiredEndMs) :
    r.event ∈ records.map event := by
  have hnonvacuous := not_vacuous hadmits hlast hfrom hto
  refine returned_of_unhidden hn.kept.readable ?_ hunhidden hchannel hq hqe hread fun hfull => ?_
  · rw [limit_storageOptions]
    exact fun hzero => hnonvacuous (.inl hzero)
  · rw [limit_storageOptions] at hfull
    obtain ⟨y, hy, hle⟩ := exists_le_requiredStart coverage hnonvacuous hfull
    exact ⟨y, hy, hle.trans hfrom⟩

/-- **When a complete response misses nothing.**  Take a message of the channel that was
accepted before the query, if the coverage at the query covers the time it was received.
No step of the run loses it, the read does not meet it between the open blocks and the
store, nothing hides it, and if it was received in the last millisecond that is asked
for, that millisecond is covered and the limit is not zero.  Then a response that is
labelled complete returns it, if it is in the window and in the span that was assessed. -/
theorem complete_misses_nothing (cfg : Settings β) (before toOpen toCoverage : List NodeAction)
    (channelLogin : String) (options : GetRecentMessagesQueryOptions) (maxBufferSize : ℕ)
    (requestSnapshotMs retentionMs : ℤ) (r : CanonicalRecord)
    (hup : (run cfg before).ingest.task.running = true)
    (hcollision : NoCollision cfg.codec (acceptedBatches before))
    (hchannel : r.channelKey = toAsciiLowercase channelLogin)
    (haccepted : IsCovered ((run cfg
          (before ++ (toOpen ++ toCoverage))).control.getCoverageIntervals
        channelLogin requestSnapshotMs) r.receivedAtMs →
      ∃ batch ∈ (run cfg before).ingest.returned, r ∈ batch.records)
    (hkept : Along (apply cfg) (HoldsOnTo cfg r.event) fresh before)
    (hsettled : Settled cfg.codec r.event (run cfg before) (run cfg (before ++ toOpen)))
    (hunhidden : Unhidden cfg.codec (run cfg before).ingest.db
      (run cfg (before ++ toOpen)).ingest.openBlocks
      (readRequest channelLogin (storageOptions options requestSnapshotMs) maxBufferSize) r)
    (hend : r.receivedAtMs =
        (coverageRequest options maxBufferSize requestSnapshotMs retentionMs).requiredEndMs →
      requestedLimit options maxBufferSize ≠ 0 ∧
        IsCovered ((run cfg (before ++ (toOpen ++ toCoverage))).control.getCoverageIntervals
          channelLogin requestSnapshotMs) r.receivedAtMs) :
    ∃ records assessment, assessedRead cfg (run cfg before) (run cfg (before ++ toOpen))
        (run cfg (before ++ (toOpen ++ toCoverage))) channelLogin options maxBufferSize
        requestSnapshotMs retentionMs = .ok (records, assessment) ∧
      (assessment.sufficient = true →
        (readRequest channelLogin options maxBufferSize).admits r = true →
        assessment.requiredStartMs ≤ r.receivedAtMs → r.receivedAtMs ≤ assessment.requiredEndMs →
        r.event ∈ records.map event) := by
  have hsound := sound_run cfg before
  obtain ⟨records, hread⟩ := read_eq_ok hsound (run cfg (before ++ toOpen)) channelLogin
    (storageOptions options requestSnapshotMs) maxBufferSize
  refine ⟨records, _, by rw [assessedRead, hread]; rfl, fun hsufficient hadmits hfrom hto => ?_⟩
  rw [requiredEndMs_assess] at hto
  -- sufficient coverage reaches up to the end of the span, but not to the end itself
  have hcovered : IsCovered ((run cfg
        (before ++ (toOpen ++ toCoverage))).control.getCoverageIntervals
      channelLogin requestSnapshotMs) r.receivedAtMs := by
    rcases lt_or_eq_of_le hto with hlt | hlast
    · exact covers_of_sufficient hsufficient hfrom hlt
    · exact (hend hlast).2
  -- a covered message was accepted, and what was accepted is met by the read
  obtain ⟨batch, hbatch, hr⟩ := haccepted hcovered
  obtain ⟨q, hq, hqe⟩ := visible_of_settled hsettled
    (held_of_accepted hcollision hkept hup hbatch hr)
  exact returned_in_span hsound _ hread hchannel hunhidden hq hqe hadmits
    (fun hlast => (hend hlast).1) hfrom hto

/-! ### Evicted and still covered -/

/-- A channel is joined, and two messages of it are received and accepted. -/
def coveredActions : List NodeAction :=
  [.start 5 [], .ingest .advance, .control (.beginLiveCoverage "quiet" "direct-irc" 0),
    .ingest (.accept Ingest.firstBatch 10)] ++ List.replicate 3 (.ingest .advance)

/-- A checkpoint seals them, and the storage budget evicts their block. -/
def evictActions : List NodeAction :=
  sealActions ++ [.ingest (.retire [("irc", "a")]), .ingest .advance, .ingest .advance,
    .store (.evictBlockIds [1])]

def sinceJoinOptions : GetRecentMessagesQueryOptions := ⟨none, none, some 0⟩

theorem complete_misses_nothing_sample : ∃ records assessment,
    assessedRead .plain (run .plain coveredActions) (run .plain (coveredActions ++ []))
        (run .plain (coveredActions ++ ([] ++ []))) "Quiet" sinceJoinOptions 800 100 1000 =
      .ok (records, assessment) ∧
    (assessment.sufficient = true →
      (readRequest "Quiet" sinceJoinOptions 800).admits (Ingest.sampleRecord "irc" 1) = true →
      assessment.requiredStartMs ≤ (Ingest.sampleRecord "irc" 1).receivedAtMs →
      (Ingest.sampleRecord "irc" 1).receivedAtMs ≤ assessment.requiredEndMs →
      (Ingest.sampleRecord "irc" 1).event ∈ records.map event) := by
  have hcollision : NoCollision Plain.codec (acceptedBatches coveredActions) := by
    show NoCollision Plain.codec [Ingest.firstBatch]
    exact noCollision_singleton _ _
  exact complete_misses_nothing .plain coveredActions [] [] "Quiet" sinceJoinOptions 800 100 1000
    (Ingest.sampleRecord "irc" 1) (by decide +kernel) hcollision (by decide +kernel)
    (fun _ => ⟨Ingest.firstBatch, by decide +kernel, by decide⟩) (by decide +kernel)
    (by decide +kernel) (by decide +kernel) (fun h => absurd h (by decide))

/-- A response that is labelled complete returns every message of the channel that the
node has received in the window and in the span that was assessed, if messages received
in covered periods were accepted before the query. -/
def CompleteMissesNothing (cfg : Settings β) : Prop :=
  ∀ (before toOpen toCoverage : List NodeAction) (channelLogin : String)
    (options : GetRecentMessagesQueryOptions) (maxBufferSize : ℕ)
    (requestSnapshotMs retentionMs : ℤ) (received : List CanonicalRecord),
    (run cfg before).ingest.task.running = true →
    NoCollision cfg.codec (acceptedBatches before) →
    (∀ r ∈ received, r.channelKey = toAsciiLowercase channelLogin →
      IsCovered ((run cfg (before ++ (toOpen ++ toCoverage))).control.getCoverageIntervals
        channelLogin requestSnapshotMs) r.receivedAtMs →
      ∃ batch ∈ (run cfg before).ingest.returned, r ∈ batch.records) →
    ∀ records assessment, assessedRead cfg (run cfg before) (run cfg (before ++ toOpen))
        (run cfg (before ++ (toOpen ++ toCoverage))) channelLogin options maxBufferSize
        requestSnapshotMs retentionMs = .ok (records, assessment) →
      assessment.sufficient = true →
      ∀ r ∈ received, r.channelKey = toAsciiLowercase channelLogin →
        (readRequest channelLogin options maxBufferSize).admits r = true →
        assessment.requiredStartMs ≤ r.receivedAtMs → r.receivedAtMs ≤ assessment.requiredEndMs →
        r.event ∈ records.map event

/-- **An evicted message stays covered**: the response is empty and labelled complete. -/
theorem eviction_stays_covered : ¬ CompleteMissesNothing .plain := by
  intro h
  have hcollision : NoCollision Plain.codec (acceptedBatches (coveredActions ++ evictActions)) := by
    show NoCollision Plain.codec [Ingest.firstBatch]
    exact noCollision_singleton _ _
  have hread : assessedRead .plain (run .plain (coveredActions ++ evictActions))
      (run .plain (coveredActions ++ evictActions ++ []))
      (run .plain (coveredActions ++ evictActions ++ ([] ++ []))) "Quiet" sinceJoinOptions 800
      100 1000 = .ok ([], ⟨true, 0, 100, []⟩) := by
    decide +kernel
  have hmissing := h (coveredActions ++ evictActions) [] [] "Quiet" sinceJoinOptions 800 100 1000
    [Ingest.sampleRecord "irc" 1] (by decide +kernel) hcollision
    (fun r hr _ _ => ⟨Ingest.firstBatch, by decide +kernel, by
      rw [List.mem_singleton.mp hr]
      decide⟩) _ _ hread rfl (Ingest.sampleRecord "irc" 1) List.mem_cons_self (by decide +kernel)
    (by decide) (by decide) (by decide)
  exact List.not_mem_nil hmissing

end Node

end RecentMessages
