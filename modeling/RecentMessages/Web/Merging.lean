/-
RecentMessages/Web/Merging.lean

Merging what several sources return (`merge_records`).

Every source cuts its records to the newest `limit`, and every merge cuts again.  If
the copies of a message carry the same times, nothing is lost by that: however the merges
are nested, the result shows what one merge of all records would (`MergePlan.result_eq`).

Copies with different times are another matter.  A merge keeps the first of two copies of
one fidelity, and this copy decides what is cut off next, so the replies of the peers
may be merged to different messages (`race_decides`).  What holds in every order is that
the result has `limit` messages if there are as many, and every message that is among
the newest whichever copies are compared (`fetchLocal_keys`).  The coverage that comes with the
replies is the same in every order (`ranges_coverage_fetchLocal`).
-/
import RecentMessages.Control.MergedRanges
import RecentMessages.Web.Peer
import RecentMessages.Library.Condense

namespace RecentMessages

open CanonicalRecord

/-! ### The best copies -/

/-- The newest `limit` records. -/
def newestRecords (limit : ℕ) (records : List CanonicalRecord) : List CanonicalRecord :=
  takeNewest limit (sortByKey receiptOrder records)

/-- One copy of each event, of the highest fidelity there is. -/
def bestCopies (records : List CanonicalRecord) : List CanonicalRecord :=
  (records.filter fun r => records.all fun q =>
    q.eventKey ≠ r.eventKey || q.fidelity.rank ≤ r.fidelity.rank).pwFilter
      fun r q => r.eventKey ≠ q.eventKey

/-- Copies of one event carry the same times. -/
def SameTimes (records : List CanonicalRecord) : Prop :=
  ∀ r ∈ records, ∀ q ∈ records, r.eventKey = q.eventKey →
    r.receivedAtMs = q.receivedAtMs ∧ r.eventAtMs = q.eventAtMs

instance (records : List CanonicalRecord) : Decidable (SameTimes records) :=
  inferInstanceAs (Decidable (∀ r ∈ records, ∀ q ∈ records, _ → _))

/-- What a reader sees of a record. -/
def keyAndFidelity (r : CanonicalRecord) : EventKey × SourceFidelity := (r.eventKey, r.fidelity)

theorem rank_injective : Function.Injective SourceFidelity.rank := by
  intro f g h
  cases f <;> cases g <;> first | rfl | cases h

section

variable {records : List CanonicalRecord}

theorem SameTimes.coherent (h : SameTimes records) :
    Coherent eventKey receiptOrder records := by
  intro r hr q hq
  refine ⟨fun hkey => ?_, eventKey_of_receiptOrder⟩
  obtain ⟨hreceived, hevent⟩ := h r hr q hq hkey
  rw [receiptOrder, receiptOrder, hreceived, hevent, hkey]

/-- **The records that a merge keeps** before it cuts are best copies. -/
theorem selects_retained (records peer : List CanonicalRecord) :
    Selects eventKey (fun r => r.fidelity.rank) (records ++ peer)
      (retained records peer).items := by
  refine selects_upsertAll (fun r q hkey => ?_) (records ++ peer)
  simp [shouldReplace, hkey]

/-- Every event has a best copy. -/
theorem exists_best {q : CanonicalRecord} (hq : q ∈ records) : ∃ r ∈ records,
    r.eventKey = q.eventKey ∧
      ∀ p ∈ records, p.eventKey = r.eventKey → p.fidelity.rank ≤ r.fidelity.rank := by
  have hsel := selects_retained records []
  rw [List.append_nil] at hsel
  obtain ⟨r, hr, hkey⟩ := hsel.complete q hq
  exact ⟨r, hsel.subset hr, hkey, hsel.best r hr⟩

theorem selects_bestCopies :
    Selects eventKey (fun r => r.fidelity.rank) records (bestCopies records) := by
  have hmem : ∀ r ∈ bestCopies records, r ∈ records ∧
      ∀ q ∈ records, q.eventKey = r.eventKey → q.fidelity.rank ≤ r.fidelity.rank := by
    intro r hr
    obtain ⟨hr, hbest⟩ := List.mem_filter.mp (List.pwFilter_subset _ hr)
    refine ⟨hr, fun q hq hkey => ?_⟩
    have hq := List.all_eq_true.mp hbest q hq
    simpa [hkey] using hq
  refine ⟨?_, fun r hr => (hmem r hr).1, fun r hr => (hmem r hr).2, fun q hq => ?_⟩
  · exact List.pairwise_map.mpr (List.pairwise_pwFilter _)
  · obtain ⟨r, hr, hkey, hbest⟩ := exists_best hq
    -- otherwise the filter would have passed no copy of the event
    by_contra hnone
    have hall := (List.forall_mem_pwFilter (R := fun r q : CanonicalRecord =>
      r.eventKey ≠ q.eventKey) ?_ r _).mp (fun p hp heq => hnone ⟨p, hp, heq.symm.trans hkey⟩)
    · refine hall r (List.mem_filter.mpr ⟨hr, List.all_eq_true.mpr fun p hp => ?_⟩) rfl
      by_cases hp' : p.eventKey = r.eventKey
      · simp [hbest p hp hp']
      · simp [hp']
    · intro x y z hne
      by_cases hxy : x.eventKey = y.eventKey
      · exact .inr fun hyz => hne (hxy.trans hyz)
      · exact .inl hxy

/-! ### Merges in any grouping -/

end

/-- A way to fold `merge_records` over a family of lists. -/
inductive MergePlan
  | empty
  | source (records : List CanonicalRecord)
  | merge (left right : MergePlan)

namespace MergePlan

/-- The lists that are merged, from left to right. -/
def sources : MergePlan → List (List CanonicalRecord)
  | empty => []
  | source records => [records]
  | merge left right => left.sources ++ right.sources

/-- Every list is cut to its newest `limit`, and every merge cuts again. -/
def result (limit : ℕ) : MergePlan → List CanonicalRecord
  | empty => []
  | source records => newestRecords limit records
  | merge left right => mergeRecords (left.result limit) (right.result limit) limit

/-- **A plan condenses its sources.** -/
theorem condenses_result (limit : ℕ) (plan : MergePlan)
    (hnodup : ∀ records ∈ plan.sources, (records.map eventKey).Nodup)
    (hcoherent : Coherent eventKey receiptOrder plan.sources.flatten) :
    Condenses eventKey receiptOrder (fun r => r.fidelity.rank) limit plan.sources.flatten
      (plan.result limit) := by
  induction plan with
  | empty =>
    have hnil : (([] : List CanonicalRecord).map eventKey).Nodup := List.nodup_nil
    have hsel : Selects eventKey (fun r : CanonicalRecord => r.fidelity.rank) [] [] :=
      selects_self hnil
    have hcut := hsel.condenses hcoherent limit
    rw [sortByKey_nil, takeNewest, List.drop_nil] at hcut
    exact hcut
  | source records =>
    have hnodup := hnodup records List.mem_cons_self
    simp only [sources, List.flatten_cons, List.flatten_nil, List.append_nil] at hcoherent ⊢
    exact (selects_self hnodup).condenses hcoherent limit
  | merge left right ihl ihr =>
    simp only [sources, List.flatten_append] at hcoherent ⊢
    have hl := ihl (fun records h => hnodup records (List.mem_append_left _ h))
      (hcoherent.subset (List.subset_append_left _ _))
    have hr := ihr (fun records h => hnodup records (List.mem_append_right _ h))
      (hcoherent.subset (List.subset_append_right _ _))
    refine hl.append hr hcoherent ((selects_retained _ _).condenses (hcoherent.subset ?_) limit)
    exact List.append_subset.mpr ⟨List.subset_append_of_subset_left _ hl.subset,
      List.subset_append_of_subset_right _ hr.subset⟩

/-- **Pushing the limit into the sources loses nothing.**  However the cut lists of a
family are merged, the result shows the events and fidelities of the newest of the best
copies of the whole family. -/
theorem result_eq (limit : ℕ) (family : List (List CanonicalRecord)) (plan : MergePlan)
    (hplan : plan.sources.Perm family)
    (hnodup : ∀ records ∈ family, (records.map eventKey).Nodup)
    (htimes : SameTimes family.flatten) :
    (plan.result limit).map keyAndFidelity =
      (newestRecords limit (bestCopies family.flatten)).map keyAndFidelity := by
  have hmem : ∀ r, r ∈ plan.sources.flatten ↔ r ∈ family.flatten := fun r =>
    hplan.flatten.mem_iff
  have hcoherent : Coherent eventKey receiptOrder plan.sources.flatten :=
    htimes.coherent.subset fun r hr => (hmem r).mp hr
  have hplan := plan.condenses_result limit
    (fun records h => hnodup records (hplan.mem_iff.mp h)) hcoherent
  have hunique := hplan.unique (selects_bestCopies.condenses htimes.coherent limit) hmem hcoherent
  have hrank : ∀ l l' : List CanonicalRecord,
      l.map (fun r => (r.eventKey, r.fidelity.rank)) =
        l'.map (fun r => (r.eventKey, r.fidelity.rank)) →
      l.map keyAndFidelity = l'.map keyAndFidelity := by
    intro l l' h
    refine (List.map_injective_iff.mpr (Prod.map_injective.mpr
      ⟨Function.injective_id, rank_injective⟩)) ?_
    rw [List.map_map, List.map_map]
    exact h
  exact hrank _ _ hunique

/-- A record of a channel, for an event and with its times. -/
def sampleCopy (key : EventKey) (receivedAtMs : ℤ) (fidelity : SourceFidelity) :
    CanonicalRecord :=
  ⟨"quiet", receivedAtMs, receivedAtMs, key, "peer", fidelity, []⟩

/-- Two sources that overlap in an event, one with the better copy. -/
def sampleFamily : List (List CanonicalRecord) :=
  [[sampleCopy 1 10 .reconstructed, sampleCopy 2 20 .directIrc],
    [sampleCopy 2 20 .reconstructed, sampleCopy 3 30 .unknown]]

theorem result_eq_sample :
    ((MergePlan.merge (.source (sampleFamily.getD 1 [])) (.merge (.source
      (sampleFamily.getD 0 [])) .empty)).result 2).map keyAndFidelity =
        [(2, .directIrc), (3, .unknown)] :=
  (result_eq 2 sampleFamily _ (by decide) (by decide) (by decide)).trans (by decide)

end MergePlan

/-! ### Replies in any order -/

/-- All records of some replies. -/
def replyRecords (replies : List PeerLocalResponse) : List CanonicalRecord :=
  (replies.map (·.records)).flatten

/-- The event keys of some records. -/
def eventKeys (records : List CanonicalRecord) : Finset EventKey :=
  (records.map eventKey).toFinset

/-- The event keys that `fetch_local` returns. -/
def returnedKeys (replies : List (Option PeerLocalResponse)) (limit : ℕ) : Finset EventKey :=
  (fetchLocal replies limit).elim ∅ fun response => eventKeys response.records

/-- A reply as the peers send it: at most `limit` records, none of them twice. -/
def PeerLocalResponse.WellFormed (limit : ℕ) (reply : PeerLocalResponse) : Prop :=
  reply.records.length ≤ limit ∧ (reply.records.map eventKey).Nodup

/-- What the loop of `fetch_local` has made of the records it has seen.  `all` are the
records of all replies. -/
structure Accumulated (limit : ℕ) (all seen m : List CanonicalRecord) : Prop where
  subset : m ⊆ seen
  nodup : (m.map eventKey).Nodup
  length : m.length = min limit (eventKeys seen).card
  steady : ∀ k ∈ steadyKeys eventKey receiptOrder all limit, k ∈ eventKeys seen → k ∈ eventKeys m

section

variable {limit : ℕ} {all seen m : List CanonicalRecord} {reply : PeerLocalResponse}

theorem mem_eventKeys {records : List CanonicalRecord} {k : EventKey} :
    k ∈ eventKeys records ↔ ∃ r ∈ records, r.eventKey = k := by
  simp [eventKeys]

theorem card_eventKeys (h : (m.map eventKey).Nodup) : (eventKeys m).card = m.length := by
  rw [eventKeys, List.toFinset_card_of_nodup h, List.length_map]

theorem eventKeys_append (records peer : List CanonicalRecord) :
    eventKeys (records ++ peer) = eventKeys records ∪ eventKeys peer := by
  rw [eventKeys, List.map_append, List.toFinset_append]
  rfl

/-- The first reply is taken as it is. -/
theorem accumulated_first (h : reply.WellFormed limit) :
    Accumulated limit all reply.records reply.records where
  subset := List.Subset.refl _
  nodup := h.2
  length := by rw [card_eventKeys h.2, min_eq_right h.1]
  steady _ _ hk := hk

/-- **A further reply** is merged, and the merge is cut. -/
theorem accumulated_merge (h : Accumulated limit all seen m) (hseen : seen ⊆ all)
    (hreply : reply.records ⊆ all) :
    Accumulated limit all (seen ++ reply.records) (mergeRecords m reply.records limit) := by
  have hsel := selects_retained m reply.records
  have hsub : m ++ reply.records ⊆ all := by
    refine List.append_subset.mpr ⟨?_, hreply⟩
    exact fun r hr => hseen (h.subset hr)
  refine ⟨fun r hr => ?_, nodup_mergeRecords, ?_, fun k hk hseenk => ?_⟩
  · rcases mem_mergeRecords hr with hr | hr
    · exact List.mem_append_left _ (h.subset hr)
    · exact List.mem_append_right _ hr
  · have hlength : (mergeRecords m reply.records limit).length =
        min limit (eventKeys (m ++ reply.records)).card := by
      rw [mergeRecords, takeNewest, List.length_drop, length_sortByKey, hsel.length_eq]
      show (eventKeys (m ++ reply.records)).card - ((eventKeys (m ++ reply.records)).card - limit)
        = min limit (eventKeys (m ++ reply.records)).card
      omega
    rw [hlength]
    have hkeys : eventKeys m ⊆ eventKeys seen := by
      intro k hk
      obtain ⟨r, hr, rfl⟩ := mem_eventKeys.mp hk
      exact mem_eventKeys.mpr ⟨r, h.subset hr, rfl⟩
    have hcard := card_eventKeys h.nodup
    rw [h.length] at hcard
    rcases Nat.le_total (eventKeys seen).card limit with hle | hle
    · -- nothing has been cut yet
      rw [min_eq_right hle] at hcard
      rw [eventKeys_append, eventKeys_append, Finset.eq_of_subset_of_card_le hkeys hcard.ge]
    · rw [min_eq_left hle] at hcard
      rw [eventKeys_append, eventKeys_append, min_eq_left, min_eq_left]
      · exact hle.trans (Finset.card_le_card Finset.subset_union_left)
      · exact hcard.ge.trans (Finset.card_le_card Finset.subset_union_left)
  · have hmem : k ∈ eventKeys (m ++ reply.records) := by
      rw [eventKeys_append, Finset.mem_union] at hseenk ⊢
      exact hseenk.imp_left (h.steady k hk)
    obtain ⟨q, hq, rfl⟩ := mem_eventKeys.mp hmem
    obtain ⟨r, hr, hkey⟩ := hsel.complete q hq
    obtain ⟨-, hfew⟩ := Finset.mem_filter.mp hk
    rw [← hkey] at hfew ⊢
    refine List.mem_toFinset.mpr (hsel.mem_keys_takeNewest
      (fun _ _ _ _ => eventKey_of_receiptOrder) hr ?_)
    refine lt_of_le_of_lt (Finset.card_le_card ?_) (hfew r (hsub (hsel.subset hr)) rfl)
    exact Finset.erase_subset_erase _ (newerKeys_subset (fun x hx => hsub hx) _)

/-- **The loop** over further replies. -/
theorem accumulated_foldl {replies : List PeerLocalResponse} {previous : PeerLocalResponse}
    (h : Accumulated limit all seen previous.records) (hall : seen ++ replyRecords replies ⊆ all) :
    ∃ response, replies.foldl (accumulate limit) (some previous) = some response ∧
      Accumulated limit all (seen ++ replyRecords replies) response.records := by
  induction replies generalizing seen previous with
  | nil => exact ⟨previous, rfl, by simpa [replyRecords] using h⟩
  | cons reply replies ih =>
    have hsplit : seen ++ replyRecords (reply :: replies) =
        (seen ++ reply.records) ++ replyRecords replies := by
      simp [replyRecords]
    rw [hsplit] at hall ⊢
    obtain ⟨hseen, -⟩ := List.append_subset.mp hall
    obtain ⟨hseen, hreply⟩ := List.append_subset.mp hseen
    show ∃ response, replies.foldl (accumulate limit) (some (.of
      (mergeRecords previous.records reply.records limit) _)) = some response ∧ _
    exact ih (accumulated_merge h hseen hreply) hall

/-- **What is fetched**, in whichever order the replies came. -/
theorem accumulated_fetchLocal {order : List (Option PeerLocalResponse)}
    {replies : List PeerLocalResponse} (horder : (order.filterMap id).Perm replies)
    (hreplies : ∀ reply ∈ replies, reply.WellFormed limit) :
    ∃ m, returnedKeys order limit = eventKeys m ∧
      Accumulated limit (replyRecords replies) (replyRecords replies) m := by
  have hmem : ∀ r, r ∈ replyRecords (order.filterMap id) ↔ r ∈ replyRecords replies := fun r =>
    (horder.map _).flatten.mem_iff
  -- the order in which replies arrive changes no set
  have hkeys : eventKeys (replyRecords (order.filterMap id)) = eventKeys (replyRecords replies) := by
    ext k
    simp only [mem_eventKeys, hmem]
  rcases hreceived : order.filterMap id with - | ⟨first, rest⟩
  -- without a reply nothing is returned
  · have hnil : replies = [] := (hreceived ▸ horder).nil_eq.symm
    refine ⟨[], ?_, by simp [hnil, replyRecords], List.nodup_nil, by simp [hnil, replyRecords,
      eventKeys], fun k hk h => by simp [hnil, replyRecords, eventKeys] at h⟩
    rw [returnedKeys, fetchLocal, hreceived]
    rfl
  -- the first reply starts the merge, and the others are folded into it
  · have hfirst := hreplies first (horder.mem_iff.mp (hreceived ▸ List.mem_cons_self))
    have hsplit : replyRecords (order.filterMap id) = first.records ++ replyRecords rest := by
      rw [hreceived]
      simp [replyRecords]
    have hall : first.records ++ replyRecords rest ⊆ replyRecords replies := by
      intro r hr
      rw [← hsplit] at hr
      exact (hmem r).mp hr
    obtain ⟨response, hresponse, hacc⟩ := accumulated_foldl (accumulated_first hfirst) hall
    rw [← hsplit] at hacc
    refine ⟨response.records, ?_, fun r hr => (hmem r).mp (hacc.subset hr), hacc.nodup, ?_, ?_⟩
    · have hfetch : fetchLocal order limit = some response := by
        rw [fetchLocal, hreceived]
        exact hresponse
      rw [returnedKeys, hfetch, Option.elim_some]
    · rw [hacc.length, hkeys]
    · intro k hk h
      exact hacc.steady k hk (hkeys ▸ h)

end

/-- **The race decides only about messages that are not steady.**  Every order in which
the replies complete returns `limit` messages, or all there are, and among them those that
are among the newest whichever copies are compared.  If these are as many, or if the copies
of a message carry the same times, then every order returns exactly them. -/
theorem fetchLocal_keys (limit : ℕ) (replies : List PeerLocalResponse)
    (hreplies : ∀ reply ∈ replies, reply.WellFormed limit)
    (order : List (Option PeerLocalResponse)) (horder : (order.filterMap id).Perm replies) :
    (returnedKeys order limit).card = min limit (eventKeys (replyRecords replies)).card ∧
    steadyKeys eventKey receiptOrder (replyRecords replies) limit ⊆ returnedKeys order limit ∧
    (min limit (eventKeys (replyRecords replies)).card ≤
        (steadyKeys eventKey receiptOrder (replyRecords replies) limit).card →
      returnedKeys order limit = steadyKeys eventKey receiptOrder (replyRecords replies) limit) ∧
    (SameTimes (replyRecords replies) →
      returnedKeys order limit =
        steadyKeys eventKey receiptOrder (replyRecords replies) limit) := by
  obtain ⟨m, hm, hacc⟩ := accumulated_fetchLocal horder hreplies
  have hcard : (returnedKeys order limit).card =
      min limit (eventKeys (replyRecords replies)).card := by
    rw [hm, card_eventKeys hacc.nodup, hacc.length]
  have hsteady : steadyKeys eventKey receiptOrder (replyRecords replies) limit ⊆
      returnedKeys order limit := by
    intro k hk
    rw [hm]
    exact hacc.steady k hk (Finset.mem_filter.mp hk).1
  -- a subset of no fewer elements is all
  have hexact : min limit (eventKeys (replyRecords replies)).card ≤
      (steadyKeys eventKey receiptOrder (replyRecords replies) limit).card →
        returnedKeys order limit =
          steadyKeys eventKey receiptOrder (replyRecords replies) limit := by
    intro hmany
    rw [← hcard] at hmany
    exact (Finset.eq_of_subset_of_card_le hsteady hmany).symm
  refine ⟨hcard, hsteady, hexact, fun htimes => hexact ?_⟩
  refine (htimes.coherent.le_card_steadyKeys (min_le_right _ _)).trans (Finset.card_le_card ?_)
  exact steadyKeys_mono (min_le_left _ _)

/-- A reply with one record. -/
def sampleReply (key : EventKey) (receivedAtMs : ℤ) : PeerLocalResponse :=
  .of [MergePlan.sampleCopy key receivedAtMs .directIrc] []

instance (limit : ℕ) (reply : PeerLocalResponse) : Decidable (reply.WellFormed limit) :=
  inferInstanceAs (Decidable (_ ∧ _))

theorem fetchLocal_keys_sample :
    returnedKeys [some (sampleReply 2 50), none, some (sampleReply 1 20), some (sampleReply 1 10)]
      1 = {2} :=
  ((fetchLocal_keys 1 [sampleReply 1 10, sampleReply 1 20, sampleReply 2 50] (by decide) _
    (by decide)).2.2.1 (by decide)).trans (by decide)

/-- The event keys that are returned do not depend on the order in which the replies
complete. -/
def RaceIndependent : Prop :=
  ∀ (limit : ℕ) (replies : List PeerLocalResponse), 1 ≤ limit →
    (∀ reply ∈ replies, reply.WellFormed limit) →
    ∀ order order' : List (Option PeerLocalResponse), (order.filterMap id).Perm replies →
      (order'.filterMap id).Perm replies → returnedKeys order limit = returnedKeys order' limit

/-- **The first copy decides**: two peers stamp a message at 1 and at 100, and another
message was received at 50.  What is returned is the other one if the copy with the early
stamp comes first, and this one if the late one does. -/
theorem race_decides : ¬ RaceIndependent := by
  intro h
  have hsame := h 1 [sampleReply 1 1, sampleReply 1 100, sampleReply 2 50] le_rfl (by decide)
    [some (sampleReply 1 1), some (sampleReply 1 100), some (sampleReply 2 50)]
    [some (sampleReply 1 100), some (sampleReply 1 1), some (sampleReply 2 50)]
    (by decide) (by decide)
  exact absurd hsame (by decide)

/-! ### The coverage of the replies -/

/-- All intervals of replies. -/
def replyCoverage (replies : List PeerLocalResponse) : List CoverageInterval :=
  replies.flatMap PeerLocalResponse.coverage

/-- Intervals that were merged from `intervals`, as far as later merges can tell. -/
structure MergedFrom (intervals merged : List CoverageInterval) : Prop where
  covers : ∀ t, IsCovered merged t ↔ IsCovered intervals t
  inRange : (∀ x ∈ intervals, x.InRange) → ∀ x ∈ merged, x.InRange

theorem MergedFrom.trans {l l' l'' : List CoverageInterval} (h : MergedFrom l l')
    (h' : MergedFrom l' l'') : MergedFrom l l'' :=
  ⟨fun t => (h'.covers t).trans (h.covers t), fun hl => h'.inRange (h.inRange hl)⟩

theorem MergedFrom.append {l l' : List CoverageInterval} (h : MergedFrom l l')
    (more : List CoverageInterval) : MergedFrom (l ++ more) (l' ++ more) where
  covers t := by
    rw [isCovered_append, isCovered_append, h.covers]
  inRange hl := by
    obtain ⟨hl, hmore⟩ := List.forall_mem_append.mp hl
    exact List.forall_mem_append.mpr ⟨h.inRange hl, hmore⟩

theorem mergedFrom_mergeIntervals (intervals : List CoverageInterval) :
    MergedFrom intervals (mergeIntervals intervals) :=
  ⟨fun _ => isCovered_mergeIntervals, inRange_mergeIntervals⟩

theorem mergedFrom_accumulate {limit : ℕ} {replies : List PeerLocalResponse}
    {previous response : PeerLocalResponse}
    (h : replies.foldl (accumulate limit) (some previous) = some response) :
    MergedFrom (previous.coverage ++ replyCoverage replies) response.coverage := by
  induction replies generalizing previous with
  | nil =>
    obtain rfl : previous = response := Option.some.inj h
    rw [replyCoverage, List.flatMap_nil, List.append_nil]
    exact ⟨fun _ => Iff.rfl, id⟩
  | cons reply replies ih =>
    have hmerge := mergedFrom_mergeIntervals (previous.coverage ++ reply.coverage)
    rw [replyCoverage, List.flatMap_cons, ← List.append_assoc]
    exact (hmerge.append (replyCoverage replies)).trans (ih h)

theorem mergedFrom_fetchLocal {limit : ℕ} {order : List (Option PeerLocalResponse)}
    {fetched : PeerLocalResponse} (h : fetchLocal order limit = some fetched) :
    MergedFrom (replyCoverage (order.filterMap id)) fetched.coverage := by
  rw [fetchLocal] at h
  rcases hreceived : order.filterMap id with - | ⟨first, rest⟩ <;> rw [hreceived] at h
  · cases h
  · exact mergedFrom_accumulate h

/-- **Coverage does not race**: merged with the coverage of the node, the replies leave the same
ranges in whichever order they came. -/
theorem ranges_coverage_fetchLocal {limit : ℕ} {order order' : List (Option PeerLocalResponse)}
    (horder : (order.filterMap id).Perm (order'.filterMap id)) {fetched fetched' : PeerLocalResponse}
    (h : fetchLocal order limit = some fetched) (h' : fetchLocal order' limit = some fetched')
    {coverage : List CoverageInterval} (hcoverage : ∀ x ∈ coverage, x.InRange)
    (hreplies : ∀ x ∈ replyCoverage (order.filterMap id), x.InRange) :
    ranges (mergeIntervals (coverage ++ fetched.coverage)) =
      ranges (mergeIntervals (coverage ++ fetched'.coverage)) := by
  have hmerged := mergedFrom_fetchLocal h
  have hmerged' := mergedFrom_fetchLocal h'
  have hsame : ∀ x, x ∈ replyCoverage (order.filterMap id) ↔
      x ∈ replyCoverage (order'.filterMap id) := fun x => (horder.flatMap_right _).mem_iff
  have hreplies' := fun x hx => hreplies x ((hsame x).mpr hx)
  refine (ranges_mergeIntervals_eq_iff
    (List.forall_mem_append.mpr ⟨hcoverage, hmerged.inRange hreplies⟩)
    (List.forall_mem_append.mpr ⟨hcoverage, hmerged'.inRange hreplies'⟩)).mpr fun t => ?_
  rw [isCovered_append, isCovered_append, hmerged.covers, hmerged'.covers]
  exact or_congr_right (exists_congr fun x => and_congr_left fun _ => hsame x)

end RecentMessages
