/-
RecentMessages/Storage/EvictionPlan.lean

What `plan_pressure_eviction` chooses (`storage/eviction.rs`).

The first loop gives blocks up as their channels can do without them, the second one
goes on with those that were put aside.  Both stop as soon as the target is reached.
So a plan is a front part of one queue: the blocks that the floors let go, in the order
of eviction, and in an emergency the others behind them (`planPressureEviction_eq`).
The plan exists exactly if the whole queue frees enough bytes.
-/
import RecentMessages.Library.Quota
import RecentMessages.Storage.Pressure

namespace RecentMessages

/-! ### The queue -/

namespace PressurePolicy

variable (policy : PressurePolicy) (blocks : List BlockMeta)

/-- A channel with a block that was requested lately, or that is always joined. -/
def requested (channelKey : String) : Bool :=
  blocks.any fun block => 2 ≤ block.tier policy && block.channelKey = channelKey

/-- A requested channel keeps the floor. -/
def quotas : Quotas BlockMeta String where
  group := BlockMeta.channelKey
  cost := BlockMeta.messageCount
  quota channelKey :=
    if policy.requested blocks channelKey then policy.pressureFloorMessagesPerChannel else 0

/-- The blocks that may be evicted, in the order of eviction. -/
def candidates : List BlockMeta :=
  sortByKey (BlockMeta.evictionOrder policy) (blocks.filter fun block => !block.journalProtected)

/-- The messages of a channel. -/
def messagesIn (channelKey : String) : ℕ :=
  ((blocks.filter (·.channelKey = channelKey)).map (·.messageCount)).sum

/-- The candidates that the floors let go. -/
def spared : List BlockMeta :=
  (policy.quotas blocks).spare (messagesIn blocks) (policy.candidates blocks)

/-- The candidates that they do not. -/
def heldBack : List BlockMeta :=
  (policy.quotas blocks).passedOver (messagesIn blocks) (policy.candidates blocks)

/-- What may be given up, in this order. -/
def queue (currentStoreBytes : ℕ) : List BlockMeta :=
  policy.spared blocks ++
    if policy.emergencyBytes ≤ currentStoreBytes then policy.heldBack blocks else []

/-- What is given up before the floor is crossed. -/
def aboveFloor (currentStoreBytes : ℕ) : List BlockMeta :=
  enough BlockMeta.bytes (currentStoreBytes - policy.targetBytes) (policy.spared blocks)

/-- What is given up. -/
def victims (currentStoreBytes : ℕ) : List BlockMeta :=
  enough BlockMeta.bytes (currentStoreBytes - policy.targetBytes)
    (policy.queue blocks currentStoreBytes)

end PressurePolicy

/-- The bytes of a list of blocks. -/
def bytesOf (blocks : List BlockMeta) : ℕ := (blocks.map (·.bytes)).sum

/-! ### The loops -/

namespace Selection

variable {policy : PressurePolicy} {s : Selection}

/-- **The second loop** gives up as many of the deferred blocks as it takes. -/
theorem selectDeferred_eq (deferred : List BlockMeta) :
    (selectDeferred policy deferred s).bytesAfter = s.bytesAfter -
        bytesOf (enough BlockMeta.bytes (s.bytesAfter - policy.targetBytes) deferred) ∧
      (selectDeferred policy deferred s).selected = s.selected ++
        (enough BlockMeta.bytes (s.bytesAfter - policy.targetBytes) deferred).map (·.id) := by
  induction deferred generalizing s with
  | nil => exact ⟨rfl, (List.append_nil _).symm⟩
  | cons block rest ih =>
    rw [selectDeferred, enough]
    by_cases hreached : s.bytesAfter ≤ policy.targetBytes
    · rw [if_pos hreached, if_pos (Nat.sub_eq_zero_of_le hreached)]
      exact ⟨rfl, (List.append_nil _).symm⟩
    · rw [if_neg hreached, if_neg (by omega)]
      obtain ⟨hbytes, hselected⟩ := @ih (s.select block)
      have hneed : (s.select block).bytesAfter - policy.targetBytes =
          s.bytesAfter - policy.targetBytes - block.bytes := Nat.sub_right_comm _ _ _
      rw [hneed] at hbytes hselected
      constructor
      · rw [hbytes, bytesOf, bytesOf, List.map_cons, List.sum_cons, ← Nat.sub_sub]
        rfl
      · rw [hselected, List.map_cons]
        exact List.append_assoc _ [block.id] _

/-- **The first loop** gives up as many blocks that the floors let go as it takes.  If
they do not suffice, all others are deferred. -/
theorem selectAboveFloor_eq (Q : Quotas BlockMeta String) (hgroup : Q.group = BlockMeta.channelKey)
    (hcost : Q.cost = BlockMeta.messageCount) (candidates : List BlockMeta) :
    (selectAboveFloor policy Q.quota candidates s).bytesAfter = s.bytesAfter -
        bytesOf (enough BlockMeta.bytes (s.bytesAfter - policy.targetBytes)
          (Q.spare s.retainedByChannel candidates)) ∧
      (selectAboveFloor policy Q.quota candidates s).selected = s.selected ++
        (enough BlockMeta.bytes (s.bytesAfter - policy.targetBytes)
          (Q.spare s.retainedByChannel candidates)).map (·.id) ∧
      (policy.targetBytes < (selectAboveFloor policy Q.quota candidates s).bytesAfter →
        (selectAboveFloor policy Q.quota candidates s).deferredBelowFloor =
          s.deferredBelowFloor ++ Q.passedOver s.retainedByChannel candidates) := by
  induction candidates generalizing s with
  | nil => exact ⟨rfl, (List.append_nil _).symm, fun _ => (List.append_nil _).symm⟩
  | cons block rest ih =>
    rw [selectAboveFloor]
    by_cases hreached : s.bytesAfter ≤ policy.targetBytes
    · rw [if_pos hreached, Nat.sub_eq_zero_of_le hreached, enough_zero]
      exact ⟨rfl, (List.append_nil _).symm, fun hlt => absurd hreached (Nat.not_le.mpr hlt)⟩
    · rw [if_neg hreached, Quotas.spare, Quotas.passedOver, hgroup, hcost]
      dsimp only
      by_cases hshort : s.retainedByChannel block.channelKey - block.messageCount <
          Q.quota block.channelKey
      · -- the floor holds the block back: it is deferred
        rw [if_pos hshort, if_pos hshort, if_pos hshort]
        obtain ⟨hbytes, hselected, hdeferred⟩ :=
          @ih { s with deferredBelowFloor := s.deferredBelowFloor ++ [block] }
        refine ⟨hbytes, hselected, fun hlt => (hdeferred hlt).trans ?_⟩
        exact List.append_assoc _ [block] _
      · -- the floor lets it go: its channel has less to spare now
        rw [if_neg hshort, if_neg hshort, if_neg hshort, enough, if_neg (by omega)]
        have hspend : Q.spend s.retainedByChannel block = Function.update s.retainedByChannel
            block.channelKey (s.retainedByChannel block.channelKey - block.messageCount) := by
          rw [Quotas.spend, hgroup, hcost]
        obtain ⟨hbytes, hselected, hdeferred⟩ := @ih { s.select block with
          retainedByChannel := Function.update s.retainedByChannel block.channelKey
            (s.retainedByChannel block.channelKey - block.messageCount) }
        have hneed : (s.select block).bytesAfter - policy.targetBytes =
            s.bytesAfter - policy.targetBytes - block.bytes := Nat.sub_right_comm _ _ _
        rw [hspend]
        dsimp only at hbytes hselected hdeferred
        rw [hneed] at hbytes hselected
        refine ⟨?_, ?_, hdeferred⟩
        · rw [hbytes, bytesOf, bytesOf, List.map_cons, List.sum_cons, ← Nat.sub_sub]
          rfl
        · rw [hselected, List.map_cons]
          exact List.append_assoc _ [block.id] _

end Selection

/-! ### The plan -/

section Plan

variable {blocks : List BlockMeta} {policy : PressurePolicy} {current : ℕ}

theorem bytesOf_append (l l' : List BlockMeta) : bytesOf (l ++ l') = bytesOf l + bytesOf l' := by
  rw [bytesOf, List.map_append, List.sum_append]
  rfl

/-- As many blocks as it takes free what is needed, if all of them do. -/
theorem bytesOf_enough {l : List BlockMeta} {need : ℕ} :
    need ≤ bytesOf (enough BlockMeta.bytes need l) ↔ need ≤ bytesOf l := by
  refine ⟨fun hle => hle.trans ?_, le_sum_enough⟩
  exact ((enough_front need l).sublist.map _).sum_le_sum fun _ _ => Nat.zero_le _

/-- Where the floors let enough go, only blocks above them go. -/
theorem victims_of_spared_le
    (h : current - policy.targetBytes ≤ bytesOf (policy.spared blocks)) :
    policy.victims blocks current =
      enough BlockMeta.bytes (current - policy.targetBytes) (policy.spared blocks) := by
  have hsum : current - policy.targetBytes - ((policy.spared blocks).map (·.bytes)).sum = 0 :=
    Nat.sub_eq_zero_of_le h
  rw [PressurePolicy.victims, PressurePolicy.queue, enough_append, hsum, enough_zero,
    List.append_nil]

/-- Where they do not, all of these go in an emergency, and then what was held back. -/
theorem victims_of_spared_lt (h : bytesOf (policy.spared blocks) < current - policy.targetBytes)
    (hemergency : policy.emergencyBytes ≤ current) :
    policy.victims blocks current = policy.spared blocks ++ enough BlockMeta.bytes
      (current - policy.targetBytes - bytesOf (policy.spared blocks)) (policy.heldBack blocks) := by
  have hall : enough BlockMeta.bytes (current - policy.targetBytes) (policy.spared blocks) =
      policy.spared blocks := enough_of_lt h
  rw [PressurePolicy.victims, PressurePolicy.queue, if_pos hemergency, enough_append, hall]
  rfl

/-- The victims suffice when the queue does. -/
theorem bytesOf_victims :
    current - policy.targetBytes ≤ bytesOf (policy.victims blocks current) ↔
      current - policy.targetBytes ≤ bytesOf (policy.queue blocks current) :=
  bytesOf_enough

/-- **The plan of a store at the high water**: a front part of the queue, if the queue
suffices. -/
theorem planPressureEviction_eq (h : policy.highWaterBytes ≤ current) :
    planPressureEviction blocks current policy =
      if current - policy.targetBytes ≤ bytesOf (policy.queue blocks current) then
        .ok {
          mode := if policy.emergencyBytes ≤ current then .emergency else .highWater
          evictBlockIds := (policy.victims blocks current).map (·.id)
          bytesBefore := current
          bytesAfter := current - bytesOf (policy.victims blocks current)
          crossedChannelFloor := decide (bytesOf (policy.spared blocks) <
            current - policy.targetBytes) && decide (policy.emergencyBytes ≤ current) }
      else .error .targetUnreachable := by
  have hfirst := @Selection.selectAboveFloor_eq policy
    ⟨PressurePolicy.messagesIn blocks, current, [], []⟩ (policy.quotas blocks) rfl rfl
    (policy.candidates blocks)
  rw [planPressureEviction, if_neg (Nat.not_lt.mpr h)]
  extract_lets mode candidates retained requested floor s crossed s'
  obtain ⟨hbytes, hselected, hdeferred⟩ : s.bytesAfter = current -
        bytesOf (enough BlockMeta.bytes (current - policy.targetBytes) (policy.spared blocks)) ∧
      s.selected =
        (enough BlockMeta.bytes (current - policy.targetBytes) (policy.spared blocks)).map (·.id) ∧
      (policy.targetBytes < s.bytesAfter → s.deferredBelowFloor = policy.heldBack blocks) := hfirst
  have hmode : mode = if policy.emergencyBytes ≤ current then .emergency else .highWater := rfl
  by_cases hreached : current - policy.targetBytes ≤ bytesOf (policy.spared blocks)
  · -- the floors let enough go: nothing else is looked at
    have hdone := bytesOf_enough.mpr hreached
    have hnot : ¬policy.targetBytes < s.bytesAfter := by omega
    have hvictims := victims_of_spared_le hreached
    have hqueue : current - policy.targetBytes ≤ bytesOf (policy.queue blocks current) := by
      rw [PressurePolicy.queue, bytesOf_append]
      omega
    have hcrossed : crossed = false := by simp [crossed, hnot]
    have hs' : s' = s := by simp [s', hcrossed]
    rw [if_pos hqueue, hs', if_neg hnot, hcrossed, hbytes, hselected, hvictims,
      decide_eq_false (Nat.not_lt.mpr hreached), Bool.false_and]
  · -- all that the floors let go is given up, and more is needed
    have hlt : bytesOf (policy.spared blocks) < current - policy.targetBytes := Nat.not_le.mp hreached
    have hall : enough BlockMeta.bytes (current - policy.targetBytes) (policy.spared blocks) =
        policy.spared blocks := enough_of_lt hlt
    rw [hall] at hbytes hselected
    have hover : policy.targetBytes < s.bytesAfter := by omega
    by_cases hemergency : policy.emergencyBytes ≤ current
    · -- in an emergency the deferred blocks follow
      have hcrossed : crossed = true := by simp [crossed, hover, hmode, hemergency]
      have hs' : s' = Selection.selectDeferred policy (policy.heldBack blocks) s := by
        rw [← hdeferred hover]
        simp [s', hcrossed]
      have hneed : s.bytesAfter - policy.targetBytes =
          current - policy.targetBytes - bytesOf (policy.spared blocks) := by omega
      have hvictims := victims_of_spared_lt hlt hemergency
      rw [← hneed] at hvictims
      obtain ⟨hbytes', hselected'⟩ := @Selection.selectDeferred_eq policy s (policy.heldBack blocks)
      have hafter : s'.bytesAfter = current - bytesOf (policy.victims blocks current) := by
        rw [hs', hbytes', hbytes, hvictims, bytesOf_append, Nat.sub_sub, hbytes]
      have hids : s'.selected = (policy.victims blocks current).map (·.id) := by
        rw [hs', hselected', hselected, hvictims, List.map_append]
      have hsuffices : ¬policy.targetBytes < s'.bytesAfter ↔
          current - policy.targetBytes ≤ bytesOf (policy.queue blocks current) := by
        rw [← bytesOf_victims, hafter]
        omega
      by_cases hqueue : current - policy.targetBytes ≤ bytesOf (policy.queue blocks current)
      · rw [if_pos hqueue, if_neg (hsuffices.mpr hqueue), hafter, hids, hcrossed,
          decide_eq_true hlt, decide_eq_true hemergency, Bool.true_and]
      · rw [if_neg hqueue, if_pos (not_not.mp fun hnot => hqueue (hsuffices.mp hnot))]
    · -- at the high water the floors hold, and the target is not reached
      have hcrossed : crossed = false := by simp [crossed, hmode, hemergency]
      have hs' : s' = s := by simp [s', hcrossed]
      have hqueue : ¬current - policy.targetBytes ≤ bytesOf (policy.queue blocks current) := by
        rw [PressurePolicy.queue, if_neg hemergency, List.append_nil]
        exact hreached
      rw [if_neg hqueue, hs', if_pos hover]

end Plan

/-! ### Every plan is sound -/

namespace PressurePolicy

variable {policy : PressurePolicy} {blocks : List BlockMeta} {current : ℕ}

variable (policy blocks) in
/-- Without the blocks that were given up before `a`, taking `a` would have put its
channel, which is requested, under the floor. -/
def PassedOver (given : List BlockMeta) (a : BlockMeta) : Prop :=
  policy.requested blocks a.channelKey = true ∧
    messagesIn blocks a.channelKey -
        messagesIn (given.filter fun b => b.evictionOrder policy < a.evictionOrder policy)
          a.channelKey - a.messageCount <
      policy.pressureFloorMessagesPerChannel

theorem mem_candidates {b : BlockMeta} :
    b ∈ policy.candidates blocks ↔ b ∈ blocks ∧ b.journalProtected = false := by
  rw [candidates, mem_sortByKey, List.mem_filter, Bool.not_eq_true']

theorem nodup_candidates (policy : PressurePolicy) (hids : (blocks.map (·.id)).Nodup) :
    ((policy.candidates blocks).map (·.id)).Nodup := by
  refine ((sortByKey_perm _).map _).nodup_iff.mpr ?_
  exact hids.sublist (List.filter_sublist.map _)

/-- The order of eviction is strict, as it goes by the id in the end. -/
theorem candidates_sorted (policy : PressurePolicy) (hids : (blocks.map (·.id)).Nodup) :
    (policy.candidates blocks).Pairwise fun a b =>
      a.evictionOrder policy < b.evictionOrder policy := by
  have hdistinct : (policy.candidates blocks).Pairwise fun a b => a.id ≠ b.id :=
    List.pairwise_map.mp (nodup_candidates policy hids)
  refine (hdistinct.and (sortByKey_sorted _)).imp fun {a b} ⟨hne, hle⟩ => ?_
  -- the id is the last component of the order
  refine lt_of_le_of_ne hle fun heq => hne ?_
  simp only [BlockMeta.evictionOrder, EmbeddingLike.apply_eq_iff_eq, Prod.mk.injEq] at heq
  exact heq.2.2.2

theorem spared_or_heldBack {b : BlockMeta} :
    b ∈ policy.candidates blocks ↔ b ∈ policy.spared blocks ∨ b ∈ policy.heldBack blocks := by
  rw [← List.mem_append]
  exact ((policy.quotas blocks).spare_append_passedOver_perm _ _).mem_iff.symm

theorem queue_sublist_perm (policy : PressurePolicy) (blocks : List BlockMeta) (current : ℕ) :
    ∃ l, (policy.queue blocks current).Sublist l ∧ l.Perm (policy.candidates blocks) := by
  refine ⟨policy.spared blocks ++ policy.heldBack blocks, ?_,
    (policy.quotas blocks).spare_append_passedOver_perm _ _⟩
  rw [queue]
  split
  · exact List.Sublist.refl _
  · exact (List.nil_sublist _).append_left _

theorem queue_perm (hemergency : policy.emergencyBytes ≤ current) :
    (policy.queue blocks current).Perm (policy.candidates blocks) := by
  rw [queue, if_pos hemergency]
  exact (policy.quotas blocks).spare_append_passedOver_perm _ _

theorem candidates_perm (h : ∀ b ∈ blocks, b.journalProtected = false) :
    (policy.candidates blocks).Perm blocks := by
  have hall : (blocks.filter fun block => !block.journalProtected) = blocks :=
    List.filter_eq_self.mpr fun b hb => by rw [h b hb]; rfl
  rw [candidates, hall]
  exact sortByKey_perm _

theorem victims_front (policy : PressurePolicy) (blocks : List BlockMeta) (current : ℕ) :
    policy.victims blocks current <+: policy.queue blocks current :=
  enough_front _ _

theorem mem_victims {b : BlockMeta} (hb : b ∈ policy.victims blocks current) :
    b ∈ blocks ∧ b.journalProtected = false := by
  obtain ⟨l, hsub, hperm⟩ := queue_sublist_perm policy blocks current
  exact mem_candidates.mp
    (hperm.mem_iff.mp (hsub.subset ((victims_front policy blocks current).subset hb)))

theorem nodup_victims (policy : PressurePolicy) (current : ℕ)
    (hids : (blocks.map (·.id)).Nodup) : ((policy.victims blocks current).map (·.id)).Nodup := by
  obtain ⟨l, hsub, hperm⟩ := queue_sublist_perm policy blocks current
  have hl := (hperm.map (·.id)).nodup_iff.mpr (nodup_candidates policy hids)
  exact hl.sublist (((victims_front policy blocks current).sublist.trans hsub).map _)

/-- **Why a block is held back**, as long as the blocks that are given up reach beyond it. -/
theorem passedOver_of_heldBack (hids : (blocks.map (·.id)).Nodup) {given : List BlockMeta}
    {a : BlockMeta} (hgiven : given <+: policy.spared blocks) (ha : a ∈ policy.heldBack blocks)
    (hbeyond : given = policy.spared blocks ∨
      ∃ b ∈ given, a.evictionOrder policy < b.evictionOrder policy) :
    policy.PassedOver blocks given a := by
  obtain ⟨before, after, hsplit, hshort, hspared⟩ := Quotas.short_of_passedOver ha
  have hsorted := candidates_sorted policy hids
  rw [hsplit, List.pairwise_append, List.pairwise_cons] at hsorted
  obtain ⟨-, ⟨hafter, -⟩, hbefore⟩ := hsorted
  have hearlier : ∀ b ∈ (policy.quotas blocks).spare (messagesIn blocks) before,
      b.evictionOrder policy < a.evictionOrder policy := fun b hb =>
    hbefore b ((Quotas.spare_sublist _ _).subset hb) a List.mem_cons_self
  -- all that is spared before `a` has been given up
  obtain ⟨more, hmore⟩ : (policy.quotas blocks).spare (messagesIn blocks) before <+: given := by
    rcases hbeyond with rfl | ⟨b, hb, hlt⟩
    · exact ⟨_, hspared.symm⟩
    · have hfront : (policy.quotas blocks).spare (messagesIn blocks) before <+:
          policy.spared blocks := ⟨_, hspared.symm⟩
      rcases List.prefix_or_prefix_of_prefix hgiven hfront with hshorter | hlonger
      · exact absurd (hearlier b (hshorter.subset hb)) (not_lt_of_gt hlt)
      · exact hlonger
  -- what is given up behind `a` does not count
  have hlater : ∀ b ∈ more, ¬b.evictionOrder policy < a.evictionOrder policy := by
    intro b hb
    obtain ⟨tail, htail⟩ := hgiven
    have hrest : more ++ tail = (policy.quotas blocks).spare (fun c => messagesIn blocks c -
        (policy.quotas blocks).costIn c ((policy.quotas blocks).spare (messagesIn blocks) before))
          after := by
      have hwhole : (policy.quotas blocks).spare (messagesIn blocks) before ++ (more ++ tail) =
          policy.spared blocks := by rw [← List.append_assoc, hmore, htail]
      exact List.append_cancel_left (hwhole.trans hspared)
    have hmem : b ∈ after :=
      (Quotas.spare_sublist _ _).subset (hrest ▸ List.mem_append_left tail hb)
    exact not_lt_of_gt (hafter b hmem)
  have hfilter : (given.filter fun b => b.evictionOrder policy < a.evictionOrder policy) =
      (policy.quotas blocks).spare (messagesIn blocks) before := by
    rw [← hmore, List.filter_append, List.filter_eq_self.mpr fun b hb => decide_eq_true
      (hearlier b hb), List.filter_eq_nil_iff.mpr fun b hb => by simpa using hlater b hb,
      List.append_nil]
  have hquota : (policy.quotas blocks).quota a.channelKey ≠ 0 := Nat.ne_zero_of_lt hshort
  have hrequested : policy.requested blocks a.channelKey = true := by
    by_contra hnot
    exact hquota (if_neg hnot)
  refine ⟨hrequested, ?_⟩
  rw [hfilter]
  exact lt_of_lt_of_eq hshort (if_pos hrequested)

/-- Nothing more is given up where the floors let enough go, or outside an emergency. -/
theorem victims_eq (policy : PressurePolicy) (blocks : List BlockMeta) (current : ℕ) :
    ∃ rest, policy.victims blocks current = policy.aboveFloor blocks current ++ rest ∧
      (¬(bytesOf (policy.spared blocks) < current - policy.targetBytes ∧
        policy.emergencyBytes ≤ current) → rest = []) := by
  refine ⟨_, enough_append _ _ _, fun hnot => ?_⟩
  by_cases hlt : bytesOf (policy.spared blocks) < current - policy.targetBytes
  · rw [if_neg fun hemergency => hnot ⟨hlt, hemergency⟩]
    rfl
  · have hzero : current - policy.targetBytes - ((policy.spared blocks).map (·.bytes)).sum = 0 :=
      Nat.sub_eq_zero_of_le (Nat.not_lt.mp hlt)
    rw [hzero, enough_zero]

/-- The blocks of a list with the ids of some of them. -/
theorem filter_ids_perm (hids : (blocks.map (·.id)).Nodup) {given : List BlockMeta}
    (hgiven : given ⊆ blocks) (hnodup : (given.map (·.id)).Nodup) :
    (blocks.filter fun b => b.id ∈ given.map (·.id)).Perm given := by
  refine (List.perm_ext_iff_of_nodup (hids.of_map.filter _) hnodup.of_map).mpr fun b => ?_
  rw [List.mem_filter, decide_eq_true_iff, List.mem_map]
  constructor
  · rintro ⟨hb, a, ha, hid⟩
    rwa [← List.inj_on_of_nodup_map hids (hgiven ha) hb hid]
  · intro hb
    exact ⟨hgiven hb, b, hb, rfl⟩

/-- What a channel keeps, and what it gives up. -/
theorem messagesIn_split (hids : (blocks.map (·.id)).Nodup) {given : List BlockMeta}
    (hgiven : given ⊆ blocks) (hnodup : (given.map (·.id)).Nodup) (c : String) :
    messagesIn blocks c =
      messagesIn given c + messagesIn (blocks.filter fun b => b.id ∉ given.map (·.id)) c := by
  have hsplit : (given ++ blocks.filter fun b => b.id ∉ given.map (·.id)).Perm blocks := by
    refine ((filter_ids_perm hids hgiven hnodup).symm.append_right _).trans ?_
    simpa only [decide_not] using
      List.filter_append_perm (fun b : BlockMeta => decide (b.id ∈ given.map (·.id))) blocks
  have hsum : messagesIn (given ++ blocks.filter fun b => b.id ∉ given.map (·.id)) c =
      messagesIn blocks c := ((hsplit.filter _).map _).sum_eq
  rw [← hsum, messagesIn, List.filter_append, List.map_append, List.sum_append]
  rfl

theorem aboveFloor_front (policy : PressurePolicy) (blocks : List BlockMeta) (current : ℕ) :
    policy.aboveFloor blocks current <+: policy.spared blocks :=
  enough_front _ _

theorem mem_of_mem_aboveFloor {b : BlockMeta} (hb : b ∈ policy.aboveFloor blocks current) :
    b ∈ blocks :=
  (mem_candidates.mp (spared_or_heldBack.mpr
    (.inl ((aboveFloor_front policy blocks current).subset hb)))).1

/-- A requested channel that gives something up before the floor is crossed keeps it. -/
theorem floor_le_messagesIn (hids : (blocks.map (·.id)).Nodup)
    (hnodup : ((policy.aboveFloor blocks current).map (·.id)).Nodup) {b : BlockMeta}
    (hb : b ∈ policy.aboveFloor blocks current)
    (hrequested : policy.requested blocks b.channelKey = true) :
    policy.pressureFloorMessagesPerChannel ≤
      messagesIn (blocks.filter fun b => b.id ∉ (policy.aboveFloor blocks current).map (·.id))
        b.channelKey := by
  have hfront := aboveFloor_front policy blocks current
  have hquota : policy.pressureFloorMessagesPerChannel ≤ messagesIn blocks b.channelKey -
      messagesIn (policy.spared blocks) b.channelKey :=
    (if_pos hrequested).symm.trans_le (Quotas.quota_le (hfront.subset hb))
  have hless : messagesIn (policy.aboveFloor blocks current) b.channelKey ≤
      messagesIn (policy.spared blocks) b.channelKey :=
    (policy.quotas blocks).costIn_le_of_sublist hfront.sublist
  have hsplit := messagesIn_split hids (fun b hb => mem_of_mem_aboveFloor hb) hnodup b.channelKey
  omega

/-- What is spared and comes before a block that is given up, is given up too. -/
theorem mem_aboveFloor_of_lt (hids : (blocks.map (·.id)).Nodup) {a b : BlockMeta}
    (ha : a ∈ policy.spared blocks) (hb : b ∈ policy.aboveFloor blocks current)
    (hlt : a.evictionOrder policy < b.evictionOrder policy) :
    a ∈ policy.aboveFloor blocks current := by
  obtain ⟨tail, htail⟩ := aboveFloor_front policy blocks current
  rw [← htail] at ha
  rcases List.mem_append.mp ha with ha | ha
  · exact ha
  · have hsorted := (candidates_sorted policy hids).sublist
      ((policy.quotas blocks).spare_sublist (messagesIn blocks) (policy.candidates blocks))
    have hsplit : policy.aboveFloor blocks current ++ tail =
      (policy.quotas blocks).spare (messagesIn blocks) (policy.candidates blocks) := htail
    rw [← hsplit, List.pairwise_append] at hsorted
    exact absurd hlt (not_lt_of_gt (hsorted.2.2 b hb a ha))

end PressurePolicy

open PressurePolicy

/-- **What a plan promises.**  `first` are the blocks that are selected before the floor is
crossed, `rest` those selected after it. -/
structure EvictionPlan.Sound (policy : PressurePolicy) (blocks : List BlockMeta) (current : ℕ)
    (plan : EvictionPlan) (first rest : List BlockMeta) : Prop where
  ids : plan.evictBlockIds = (first ++ rest).map (·.id)
  nodup : plan.evictBlockIds.Nodup
  unprotected : ∀ b ∈ first ++ rest, b ∈ blocks ∧ b.journalProtected = false
  bytesAfter : plan.bytesAfter = current - bytesOf (first ++ rest)
  reached : plan.bytesAfter ≤ policy.targetBytes
  minimal : ∀ init last, first ++ rest = init ++ [last] →
    policy.targetBytes < current - bytesOf init
  mode : plan.mode = if policy.emergencyBytes ≤ current then .emergency else .highWater
  floors : plan.mode = .highWater → ∀ c, policy.requested blocks c = true →
    (∀ b ∈ blocks, b.channelKey = c → b.id ∉ plan.evictBlockIds) ∨
      policy.pressureFloorMessagesPerChannel ≤
        messagesIn (blocks.filter fun b => b.id ∉ plan.evictBlockIds) c
  ordered : ∀ b ∈ first, ∀ a ∈ blocks, a.journalProtected = false →
    a.evictionOrder policy < b.evictionOrder policy →
    a ∈ first ∨ policy.PassedOver blocks first a
  crossed : plan.crossedChannelFloor = true → plan.mode = .emergency
  uncrossed : plan.crossedChannelFloor = false → rest = []
  forced : plan.crossedChannelFloor = true → ∀ a ∈ blocks, a.journalProtected = false →
    a ∈ first ∨ policy.PassedOver blocks first a

/-- **Every plan of a store at the high water is sound.** -/
theorem eviction_plan_sound {blocks : List BlockMeta} {policy : PressurePolicy} {current : ℕ}
    {plan : EvictionPlan} (hids : (blocks.map (·.id)).Nodup)
    (hcurrent : policy.highWaterBytes ≤ current)
    (hplan : planPressureEviction blocks current policy = .ok plan) :
    ∃ first rest, plan.Sound policy blocks current first rest := by
  rw [planPressureEviction_eq hcurrent] at hplan
  split at hplan
  · rename_i hqueue
    obtain rfl := (Except.ok.inj hplan).symm
    obtain ⟨rest, hvictims, hrest⟩ := victims_eq policy blocks current
    have hnodup := nodup_victims policy current hids
    refine ⟨policy.aboveFloor blocks current, rest, ?_⟩
    constructor
    case ids => exact congrArg _ hvictims
    case nodup => exact hnodup
    case unprotected =>
      rw [← hvictims]
      exact fun b hb => mem_victims hb
    case bytesAfter => rw [← hvictims]
    case reached =>
      have hreached := bytesOf_enough.mpr hqueue
      rw [← victims] at hreached
      dsimp only
      omega
    case minimal =>
      intro init last hsplit
      have hlt := sum_lt_of_enough (hvictims.trans hsplit)
      rw [← bytesOf] at hlt
      omega
    case mode => rfl
    case floors =>
      intro hmode c hrequested
      -- in this mode nothing is given up behind the first loop
      have hcalm : ¬policy.emergencyBytes ≤ current := by
        intro hemergency
        rw [if_pos hemergency] at hmode
        cases hmode
      have habove : policy.victims blocks current = policy.aboveFloor blocks current := by
        rw [hvictims, hrest fun h => hcalm h.2, List.append_nil]
      dsimp only
      rw [habove] at hnodup ⊢
      by_cases hgives : ∃ b ∈ policy.aboveFloor blocks current, b.channelKey = c
      · right
        obtain ⟨b, hb, rfl⟩ := hgives
        exact floor_le_messagesIn hids hnodup hb hrequested
      · left
        intro b hb hc hid
        obtain ⟨v, hv, hvid⟩ := List.mem_map.mp hid
        have hmem := (mem_victims (habove ▸ hv)).1
        rw [← List.inj_on_of_nodup_map hids hmem hb hvid] at hc
        exact hgives ⟨v, hv, hc⟩
    case ordered =>
      intro b hb a ha hunprotected hlt
      rcases spared_or_heldBack.mp (mem_candidates.mpr ⟨ha, hunprotected⟩) with hspared | hheld
      · exact .inl (mem_aboveFloor_of_lt hids hspared hb hlt)
      · exact .inr (passedOver_of_heldBack hids (aboveFloor_front policy blocks current) hheld
          (.inr ⟨b, hb, hlt⟩))
    case crossed =>
      intro hcrossed
      rw [Bool.and_eq_true, decide_eq_true_iff, decide_eq_true_iff] at hcrossed
      exact if_pos hcrossed.2
    case uncrossed =>
      intro hcrossed
      apply hrest
      rwa [Bool.and_eq_false_iff, decide_eq_false_iff_not, decide_eq_false_iff_not,
        ← not_and_or] at hcrossed
    case forced =>
      intro hcrossed a ha hunprotected
      rw [Bool.and_eq_true, decide_eq_true_iff] at hcrossed
      have hall : policy.aboveFloor blocks current = policy.spared blocks :=
        enough_of_lt hcrossed.1
      rcases spared_or_heldBack.mp (mem_candidates.mpr ⟨ha, hunprotected⟩) with hspared | hheld
      · exact .inl (hall ▸ hspared)
      · exact .inr (passedOver_of_heldBack hids (aboveFloor_front policy blocks current) hheld
          (.inl hall))
  · cases hplan

/-- A block of a hundred messages in a hundred bytes. -/
def sampleBlock (id : ℕ) (channelKey : String) (lastRequestedAtMs : ℕ) : BlockMeta :=
  ⟨id, channelKey, 100, 100, lastRequestedAtMs, id, false, false⟩

/-- In an emergency the second block of the requested channel goes, though it takes the
channel under its floor. -/
theorem eviction_plan_sound_sample : ∃ first rest, EvictionPlan.Sound ⟨700, 900, 950, 120, 100⟩
    [sampleBlock 1 "current" 200, sampleBlock 2 "current" 200, sampleBlock 3 "stale" 50,
      sampleBlock 4 "incidental" 0] 950 ⟨.emergency, [4, 3, 1], 950, 650, true⟩ first rest :=
  eviction_plan_sound (by decide) (by decide) (by decide)

/-! ### An emergency always has a plan -/

/-- The share of the overhead for the block at a position. -/
def overheadShare (blocks : List BlockMeta) (physicalBytes i : ℕ) : ℕ :=
  (physicalBytes - bytesOf blocks) / max blocks.length 1 +
    if i < (physicalBytes - bytesOf blocks) % max blocks.length 1 then 1 else 0

/-- Equal shares, and one more for the first `extra` blocks. -/
theorem bytesOf_mapIdx (each extra : ℕ) (blocks : List BlockMeta) :
    bytesOf (blocks.mapIdx fun i block =>
        { block with bytes := block.bytes + (each + if i < extra then 1 else 0) }) =
      bytesOf blocks + (blocks.length * each + min blocks.length extra) := by
  induction blocks using List.reverseRecOn with
  | nil => simp [bytesOf]
  | append_singleton blocks block ih =>
    rw [List.mapIdx_concat, bytesOf_append, ih, bytesOf_append, List.length_append,
      List.length_singleton, Nat.succ_mul]
    simp only [bytesOf, List.map_cons, List.map_nil, List.sum_singleton]
    split <;> omega

theorem bytes_le_bytesOf {blocks : List BlockMeta} {b : BlockMeta} (hb : b ∈ blocks) :
    b.bytes ≤ bytesOf blocks :=
  List.single_le_sum (fun _ _ => Nat.zero_le _) _ (List.mem_map_of_mem hb)

section Overhead

variable {blocks : List BlockMeta} {current : ℕ}

/-- All shares together are the overhead. -/
theorem bytesOf_shares (hne : blocks ≠ []) :
    bytesOf (blocks.mapIdx fun i block =>
        { block with bytes := block.bytes + overheadShare blocks current i }) =
      max (bytesOf blocks) current := by
  have hpos : 0 < blocks.length := List.length_pos_iff.mpr hne
  have hdiv := Nat.div_add_mod (current - bytesOf blocks) blocks.length
  have hmod := Nat.mod_lt (current - bytesOf blocks) hpos
  simp only [overheadShare, max_eq_left (Nat.succ_le_of_lt hpos)]
  rw [bytesOf_mapIdx, min_eq_right hmod.le, hdiv]
  omega

/-- **Spreading the overhead** adds every block its share; nothing saturates where the
totals fit. -/
theorem distributePhysicalOverhead_eq (hne : blocks ≠ []) (hblocks : bytesOf blocks < 2 ^ 64)
    (hcurrent : current < 2 ^ 64) :
    distributePhysicalOverhead blocks current = blocks.mapIdx fun i block =>
      { block with bytes := block.bytes + overheadShare blocks current i } := by
  have htotal : bytesOf (blocks.mapIdx fun i block =>
      { block with bytes := block.bytes + overheadShare blocks current i }) =
        max (bytesOf blocks) current := bytesOf_shares hne
  have husize : usizeMax = 2 ^ 64 - 1 := rfl
  refine List.ext_getElem (by simp [distributePhysicalOverhead]) fun i hi hi' => ?_
  have hle := bytes_le_bytesOf (List.getElem_mem hi')
  rw [htotal, List.getElem_mapIdx] at hle
  dsimp only at hle
  have hlt : i < blocks.length := by simpa using hi'
  have hfits : blocks[i].bytes + overheadShare blocks current i ≤ usizeMax := by omega
  simp only [distributePhysicalOverhead, List.getElem_mapIdx]
  congr 1
  exact min_eq_right hfits

/-- **In an emergency there is a plan**: the bytes of the blocks add up to the store's, the
shares of two blocks differ by one at most, and to give up all blocks is enough. -/
theorem emergency_plan_exists {policy : PressurePolicy} (hne : blocks ≠ [])
    (hunprotected : ∀ b ∈ blocks, b.journalProtected = false) (hblocks : bytesOf blocks < 2 ^ 64)
    (hcurrent : current < 2 ^ 64) (hhigh : policy.highWaterBytes ≤ policy.emergencyBytes)
    (hemergency : policy.emergencyBytes ≤ current) :
    bytesOf (distributePhysicalOverhead blocks current) = max (bytesOf blocks) current ∧
      (∃ share : ℕ → ℕ, (∀ i j, share i ≤ share j + 1) ∧
        distributePhysicalOverhead blocks current =
          blocks.mapIdx fun i block => { block with bytes := block.bytes + share i }) ∧
      ∃ plan, planPressureEviction (distributePhysicalOverhead blocks current) current policy =
        .ok plan := by
  have hspread := distributePhysicalOverhead_eq hne hblocks hcurrent
  have hbytes : bytesOf (distributePhysicalOverhead blocks current) =
      max (bytesOf blocks) current := by
    rw [hspread, bytesOf_shares hne]
  refine ⟨hbytes, ⟨overheadShare blocks current, fun i j => ?_, hspread⟩, ?_⟩
  · rw [overheadShare, overheadShare]
    split <;> split <;> omega
  · -- the queue is all blocks
    have hfree : ∀ b ∈ distributePhysicalOverhead blocks current, b.journalProtected = false := by
      intro b hb
      obtain ⟨i, hi, rfl⟩ := List.mem_mapIdx.mp hb
      exact hunprotected blocks[i] (List.getElem_mem hi)
    have hqueue : bytesOf (policy.queue (distributePhysicalOverhead blocks current) current) =
        max (bytesOf blocks) current := by
      rw [← hbytes]
      exact (((queue_perm hemergency).trans (candidates_perm hfree)).map _).sum_eq
    rw [planPressureEviction_eq (hhigh.trans hemergency), if_pos]
    · exact ⟨_, rfl⟩
    · rw [hqueue]
      omega

/-- Two blocks of a hundred bytes, in files of nine hundred and ninety-nine. -/
theorem emergency_plan_exists_sample :
    ∃ plan, planPressureEviction
      (distributePhysicalOverhead [sampleBlock 1 "a" 200, sampleBlock 2 "b" 200] 999) 999
      ⟨0, 900, 980, 50, 100⟩ = .ok plan :=
  (emergency_plan_exists (by decide) (by decide) (by decide) (by decide) (by decide)
    (by decide)).2.2

end Overhead

end RecentMessages
