/-
RecentMessages/Web/RepairState.lean

Whether an earlier repair still answers a request (`web/repair.rs`).

A checkpoint that ends before the request does is good enough if coverage bridges the rest.
`coverage_bridges` sweeps the intervals by their start; the first that it can use may start
up to the handoff grace after the checkpoint, all later ones have to touch what was reached.
So a bridge is a first usable interval, and after it no uncovered millisecond
(`coverageBridges_iff`).

Which interval is the first depends on all of them.  An interval that is added may come first
and use up the grace, and then the milliseconds up to the former first one are not forgiven
any more; that is the one way in which more coverage breaks a bridge
(`KeepsBridge`, `more_coverage_keeps_repair`).
-/
import RecentMessages.Control.Coverage

namespace RecentMessages

/-- How a repair ended; the source calls the second outcome `Partial`. -/
inductive RepairOutcome
  | success
  | incomplete
  | failed
  deriving DecidableEq, Repr

/-- A repair that was recorded. -/
structure RepairCheckpoint where
  outcome : RepairOutcome
  completedAtMs : ℤ
  requestedStartMs : ℤ
  requestedEndMs : ℤ
  nextRetryMs : ℤ
  recordCount : ℕ
  deriving DecidableEq, Repr

/-- What the checkpoints say about a request. -/
structure RepairState where
  bestEffort : Bool
  retrySuppressed : Bool
  deriving DecidableEq, Repr

/-- The loop of `coverage_bridges` over the sorted intervals. -/
def bridgesFrom (requiredEndMs handoffGraceMs : ℤ) : Bool → ℤ → List CoverageInterval → Bool
  | _, _, [] => false
  | first, cursor, interval :: rest =>
    if interval.endMs < cursor then
      bridgesFrom requiredEndMs handoffGraceMs first cursor rest
    else if (if first then satAdd cursor handoffGraceMs else satAdd cursor 1) <
        interval.startMs then
      bridgesFrom requiredEndMs handoffGraceMs first cursor rest
    else if requiredEndMs ≤ max cursor interval.endMs then
      true
    else
      bridgesFrom requiredEndMs handoffGraceMs false (max cursor interval.endMs) rest

/-- `coverage_bridges`. -/
def coverageBridges (coverage : List CoverageInterval)
    (checkpointEndMs requiredEndMs handoffGraceMs : ℤ) : Bool :=
  if requiredEndMs ≤ checkpointEndMs then
    true
  else
    bridgesFrom requiredEndMs handoffGraceMs true checkpointEndMs
      (sortByKey CoverageInterval.bounds coverage)

/-- The handoff grace in milliseconds, as far as it fits. -/
def graceMs (handoffGrace : ℕ) : ℤ := min handoffGrace i64Max

/-- What one checkpoint adds to the state. -/
def RepairState.note (assessment : CoverageAssessment) (coverage : List CoverageInterval)
    (nowMs : ℤ) (handoffGrace : ℕ) (state : RepairState) (checkpoint : RepairCheckpoint) :
    RepairState :=
  let coversStart := checkpoint.requestedStartMs ≤ assessment.requiredStartMs
  let overlaps := assessment.requiredStartMs ≤ checkpoint.requestedEndMs
  let exactOrBridged := assessment.requiredEndMs ≤ checkpoint.requestedEndMs ∨
    coverageBridges coverage checkpoint.requestedEndMs assessment.requiredEndMs
      (graceMs handoffGrace) = true
  { bestEffort := state.bestEffort ||
      decide (checkpoint.outcome = .success ∧ coversStart ∧ exactOrBridged)
    retrySuppressed := state.retrySuppressed ||
      decide (coversStart ∧ overlaps ∧ nowMs < checkpoint.nextRetryMs ∧
        (checkpoint.outcome ≠ .success ∨ exactOrBridged)) }

/-- `assess_repair_state`. -/
def assessRepairState (checkpoints : List RepairCheckpoint) (assessment : CoverageAssessment)
    (coverage : List CoverageInterval) (nowMs : ℤ) (handoffGrace : ℕ) : RepairState :=
  checkpoints.foldl (RepairState.note assessment coverage nowMs handoffGrace) ⟨false, false⟩

/-! ### What a bridge is -/

/-- The sweep may start with an interval. -/
def CoverageInterval.Usable (checkpointEndMs handoffGraceMs : ℤ) (interval : CoverageInterval) :
    Prop :=
  checkpointEndMs ≤ interval.endMs ∧ interval.startMs ≤ satAdd checkpointEndMs handoffGraceMs

instance (checkpointEndMs handoffGraceMs : ℤ) :
    DecidablePred (CoverageInterval.Usable checkpointEndMs handoffGraceMs) :=
  fun _ => inferInstanceAs (Decidable (_ ∧ _))

/-- The interval with which the sweep starts. -/
def firstUsable (coverage : List CoverageInterval) (checkpointEndMs handoffGraceMs : ℤ) :
    Option CoverageInterval :=
  (sortByKey CoverageInterval.bounds coverage).find?
    fun interval => interval.Usable checkpointEndMs handoffGraceMs

section Sweep

variable {l : List CoverageInterval} {cursor requiredEndMs handoffGraceMs : ℤ}

/-- An interval that ends no later than `cursor` covers nothing after it. -/
theorem isCovered_cons_iff_of_le {interval : CoverageInterval} (h : interval.endMs ≤ cursor)
    {t : ℤ} (ht : cursor < t) : IsCovered (interval :: l) t ↔ IsCovered l t := by
  constructor
  · rintro ⟨x, hx, hfrom, hto⟩
    rcases List.mem_cons.mp hx with rfl | hx
    · exact absurd (hto.trans h) (not_le.mpr ht)
    · exact ⟨x, hx, hfrom, hto⟩
  · exact fun h => h.mono fun x hx => List.mem_cons_of_mem interval hx

/-- **After the first interval** the sweep succeeds exactly if every millisecond that is left is
covered. -/
theorem bridgesFrom_false_iff (hsorted : l.Pairwise fun a b => a.startMs ≤ b.startMs)
    (hlow : i64Min ≤ cursor) (hhigh : requiredEndMs ≤ i64Max) (hlt : cursor < requiredEndMs) :
    bridgesFrom requiredEndMs handoffGraceMs false cursor l = true ↔
      ∀ t, cursor < t → t ≤ requiredEndMs → IsCovered l t := by
  induction l generalizing cursor with
  | nil =>
    refine ⟨nofun, fun h => ?_⟩
    obtain ⟨x, hx, -⟩ := h requiredEndMs hlt le_rfl
    cases hx
  | cons interval rest ih =>
    obtain ⟨hlater, hsorted⟩ := List.pairwise_cons.mp hsorted
    have hnext : satAdd cursor 1 = cursor + 1 := satAdd_eq (by omega) (by omega)
    rw [bridgesFrom, hnext]
    split
    · -- the interval ends before the cursor, and the sweep goes past it
      rename_i hbefore
      rw [ih hsorted hlow hlt]
      exact forall_congr' fun t => forall_congr' fun ht => forall_congr' fun _ =>
        (isCovered_cons_iff_of_le hbefore.le ht).symm
    rename_i hreach
    rw [not_lt] at hreach
    rw [if_neg Bool.false_ne_true]
    split
    · -- the next millisecond is covered neither here nor later
      rename_i hfar
      rw [ih hsorted hlow hlt]
      refine ⟨fun h t hfrom hto => (h t hfrom hto).mono
        fun x hx => List.mem_cons_of_mem interval hx, fun h => ?_⟩
      obtain ⟨x, hx, hstart, -⟩ := h (cursor + 1) (by omega) (by omega)
      rcases List.mem_cons.mp hx with rfl | hx
      · omega
      · have := hlater x hx
        omega
    · -- the interval moves the cursor to its end
      rename_i hnear
      rw [max_eq_right hreach]
      have hcovered : ∀ t, cursor < t → t ≤ interval.endMs → IsCovered (interval :: rest) t :=
        fun t hfrom hto => ⟨interval, List.mem_cons_self, by omega, hto⟩
      split
      · rename_i hdone
        exact iff_of_true rfl fun t hfrom hto => hcovered t hfrom (hto.trans hdone)
      · rename_i hmore
        rw [ih hsorted (hlow.trans hreach) (not_le.mp hmore)]
        constructor
        · intro h t hfrom hto
          by_cases hin : t ≤ interval.endMs
          · exact hcovered t hfrom hin
          · exact (isCovered_cons_iff_of_le le_rfl (not_le.mp hin)).mpr (h t (not_le.mp hin) hto)
        · exact fun h t hfrom hto =>
            (isCovered_cons_iff_of_le le_rfl hfrom).mp (h t (hreach.trans_lt hfrom) hto)

/-- **The whole sweep**: it starts with the first usable interval. -/
theorem bridgesFrom_true_iff (hsorted : l.Pairwise fun a b => a.startMs ≤ b.startMs)
    (hlow : i64Min ≤ cursor) (hhigh : requiredEndMs ≤ i64Max) :
    bridgesFrom requiredEndMs handoffGraceMs true cursor l = true ↔
      ∃ f, l.find? (fun interval => interval.Usable cursor handoffGraceMs) = some f ∧
        ∀ t, f.endMs < t → t ≤ requiredEndMs → IsCovered l t := by
  induction l with
  | nil => exact ⟨nofun, fun ⟨f, hf, _⟩ => by cases hf⟩
  | cons interval rest ih =>
    obtain ⟨hlater, hsorted⟩ := List.pairwise_cons.mp hsorted
    rw [bridgesFrom, if_pos rfl]
    split
    · rename_i hbefore
      have hnot : ¬ interval.Usable cursor handoffGraceMs := fun h => by
        have := h.1
        omega
      rw [List.find?_cons_of_neg (by simpa using hnot), ih hsorted]
      refine exists_congr fun f => and_congr_right fun hf => ?_
      have hf : f.Usable cursor handoffGraceMs := by simpa using List.find?_some hf
      refine forall_congr' fun t => forall_congr' fun ht => forall_congr' fun _ => ?_
      exact (isCovered_cons_iff_of_le (hbefore.le.trans hf.1) ht).symm
    rename_i hreach
    rw [not_lt] at hreach
    split
    · -- neither this interval nor a later one starts early enough
      rename_i hfar
      have hnot : ∀ x ∈ interval :: rest, ¬ x.Usable cursor handoffGraceMs := by
        rintro x hx ⟨-, hstart⟩
        rcases List.mem_cons.mp hx with rfl | hx
        · omega
        · have := hlater x hx
          omega
      have hnone : ∀ l' ⊆ interval :: rest,
          l'.find? (fun interval => interval.Usable cursor handoffGraceMs) = none :=
        fun l' hsub => List.find?_eq_none.mpr fun x hx => by simpa using hnot x (hsub hx)
      rw [ih hsorted, hnone _ (List.Subset.refl _), hnone rest (List.subset_cons_self _ _)]
      refine iff_of_false ?_ ?_ <;> rintro ⟨f, hf, -⟩ <;> cases hf
    · -- the first usable interval: from here on the grace is one millisecond
      rename_i hnear
      have husable : interval.Usable cursor handoffGraceMs := ⟨hreach, not_lt.mp hnear⟩
      rw [List.find?_cons_of_pos (by simpa using husable), max_eq_right hreach]
      simp only [Option.some.injEq, exists_eq_left']
      split
      · rename_i hdone
        exact iff_of_true rfl fun t hfrom hto => by omega
      · rename_i hmore
        rw [bridgesFrom_false_iff hsorted (hlow.trans hreach) hhigh (not_le.mp hmore)]
        exact forall_congr' fun t => forall_congr' fun ht => forall_congr' fun _ =>
          (isCovered_cons_iff_of_le le_rfl ht).symm

end Sweep

section Bridge

variable {coverage coverage' : List CoverageInterval}
  {checkpointEndMs requiredEndMs handoffGraceMs : ℤ}

/-- **What a bridge is**: a first usable interval, and nothing uncovered after it. -/
theorem coverageBridges_iff (hlow : i64Min ≤ checkpointEndMs) (hhigh : requiredEndMs ≤ i64Max) :
    coverageBridges coverage checkpointEndMs requiredEndMs handoffGraceMs = true ↔
      requiredEndMs ≤ checkpointEndMs ∨
        ∃ f, firstUsable coverage checkpointEndMs handoffGraceMs = some f ∧
          ∀ t, f.endMs < t → t ≤ requiredEndMs → IsCovered coverage t := by
  have hsame : ∀ t, IsCovered (sortByKey CoverageInterval.bounds coverage) t ↔
      IsCovered coverage t := fun t =>
    ⟨fun h => h.mono fun x hx => mem_sortByKey.mp hx,
      fun h => h.mono fun x hx => mem_sortByKey.mpr hx⟩
  rw [coverageBridges]
  split
  · rename_i hdone
    exact iff_of_true rfl (.inl hdone)
  · rename_i hlt
    rw [bridgesFrom_true_iff (sorted_starts coverage) hlow hhigh, firstUsable]
    simp only [hsame, hlt, false_or]

/-- An interval of the list that is usable is not before the first usable one. -/
theorem exists_firstUsable {x : CoverageInterval} (hx : x ∈ coverage)
    (husable : x.Usable checkpointEndMs handoffGraceMs) :
    ∃ f, firstUsable coverage checkpointEndMs handoffGraceMs = some f := by
  rcases e : firstUsable coverage checkpointEndMs handoffGraceMs with - | f
  · exact absurd (decide_eq_true husable) (List.find?_eq_none.mp e x (mem_sortByKey.mpr hx))
  · exact ⟨f, rfl⟩

theorem usable_of_firstUsable {f : CoverageInterval}
    (h : firstUsable coverage checkpointEndMs handoffGraceMs = some f) :
    f ∈ coverage ∧ f.Usable checkpointEndMs handoffGraceMs :=
  ⟨mem_sortByKey.mp (List.mem_of_find?_eq_some h), by
    simpa only [decide_eq_true_eq] using List.find?_some h⟩

/-- The coverage `coverage'` leaves nothing uncovered between its first usable interval and that
of `coverage`. -/
def KeepsBridge (coverage coverage' : List CoverageInterval)
    (checkpointEndMs requiredEndMs handoffGraceMs : ℤ) : Prop :=
  requiredEndMs ≤ checkpointEndMs ∨
    ∀ f ∈ firstUsable coverage checkpointEndMs handoffGraceMs,
      ∀ f' ∈ firstUsable coverage' checkpointEndMs handoffGraceMs,
        ∀ t, f'.endMs < t → t < f.startMs → t ≤ requiredEndMs → IsCovered coverage' t

/-- **More coverage and a bridge.**  It lasts exactly if what is before the former first
interval is covered now. -/
theorem coverageBridges_more_iff (hsub : coverage ⊆ coverage')
    (hlow : i64Min ≤ checkpointEndMs) (hhigh : requiredEndMs ≤ i64Max)
    (h : coverageBridges coverage checkpointEndMs requiredEndMs handoffGraceMs = true) :
    coverageBridges coverage' checkpointEndMs requiredEndMs handoffGraceMs = true ↔
      KeepsBridge coverage coverage' checkpointEndMs requiredEndMs handoffGraceMs := by
  rw [coverageBridges_iff hlow hhigh] at h ⊢
  rw [KeepsBridge]
  refine or_congr_right' fun hmissing => ?_
  obtain ⟨f, hf, hcovered⟩ := h.resolve_left hmissing
  obtain ⟨hmem, husable⟩ := usable_of_firstUsable hf
  obtain ⟨f', hf'⟩ := exists_firstUsable (hsub hmem) husable
  simp only [hf, hf', Option.some.injEq, exists_eq_left', Option.mem_def, forall_eq']
  constructor
  · exact fun h t hfrom _ hto => h t hfrom hto
  · intro h t hfrom hto
    -- before, inside or after the former first interval
    by_cases hbefore : t < f.startMs
    · exact h t hfrom hbefore hto
    by_cases hinside : t ≤ f.endMs
    · exact ⟨f, hsub hmem, not_lt.mp hbefore, hinside⟩
    · exact (hcovered t (not_le.mp hinside) hto).mono hsub

end Bridge

/-! ### What the checkpoints say -/

section State

variable {checkpoints : List RepairCheckpoint} {assessment : CoverageAssessment}
  {coverage : List CoverageInterval} {nowMs : ℤ} {handoffGrace : ℕ}

/-- A checkpoint that makes a request best effort. -/
def RepairCheckpoint.Serves (assessment : CoverageAssessment) (coverage : List CoverageInterval)
    (handoffGrace : ℕ) (checkpoint : RepairCheckpoint) : Prop :=
  checkpoint.outcome = .success ∧ checkpoint.requestedStartMs ≤ assessment.requiredStartMs ∧
    coverageBridges coverage checkpoint.requestedEndMs assessment.requiredEndMs
      (graceMs handoffGrace) = true

theorem bestEffort_iff :
    (assessRepairState checkpoints assessment coverage nowMs handoffGrace).bestEffort = true ↔
      ∃ checkpoint ∈ checkpoints, checkpoint.Serves assessment coverage handoffGrace := by
  have hloop : ∀ (l : List RepairCheckpoint) (state : RepairState),
      (l.foldl (RepairState.note assessment coverage nowMs handoffGrace) state).bestEffort = true ↔
        state.bestEffort = true ∨
          ∃ checkpoint ∈ l, checkpoint.Serves assessment coverage handoffGrace := by
    intro l
    induction l with
    | nil => simp
    | cons checkpoint l ih =>
      intro state
      -- a checkpoint that reaches the end is a bridge by itself
      have hbridged : (assessment.requiredEndMs ≤ checkpoint.requestedEndMs ∨
          coverageBridges coverage checkpoint.requestedEndMs assessment.requiredEndMs
            (graceMs handoffGrace) = true) ↔
          coverageBridges coverage checkpoint.requestedEndMs assessment.requiredEndMs
            (graceMs handoffGrace) = true := by
        refine or_iff_right_of_imp fun hdone => ?_
        rw [coverageBridges, if_pos hdone]
      rw [List.foldl_cons, ih, RepairState.note]
      simp only [Bool.or_eq_true, decide_eq_true_eq, hbridged, List.exists_mem_cons_iff, or_assoc]
      rfl
  rw [assessRepairState, hloop]
  simp

end State

/-- **More coverage and a repair.**  If the intervals of `coverage'` contain those of `coverage`,
a bridge lasts exactly if `coverage'` leaves nothing uncovered between its first usable interval
and the former one, and a request stays best effort if that holds for a checkpoint that made
it so. -/
theorem more_coverage_keeps_repair (coverage coverage' : List CoverageInterval)
    (hsub : coverage ⊆ coverage') :
    (∀ checkpointEndMs requiredEndMs handoffGraceMs, i64Min ≤ checkpointEndMs →
      requiredEndMs ≤ i64Max →
      coverageBridges coverage checkpointEndMs requiredEndMs handoffGraceMs = true →
      (coverageBridges coverage' checkpointEndMs requiredEndMs handoffGraceMs = true ↔
        KeepsBridge coverage coverage' checkpointEndMs requiredEndMs handoffGraceMs)) ∧
    ∀ checkpoints assessment nowMs handoffGrace, assessment.requiredEndMs ≤ i64Max →
      (∃ checkpoint ∈ checkpoints, i64Min ≤ checkpoint.requestedEndMs ∧
        checkpoint.Serves assessment coverage handoffGrace ∧
        KeepsBridge coverage coverage' checkpoint.requestedEndMs assessment.requiredEndMs
          (graceMs handoffGrace)) →
      (assessRepairState checkpoints assessment coverage' nowMs handoffGrace).bestEffort = true := by
  refine ⟨fun _ _ _ hlow hhigh h => coverageBridges_more_iff hsub hlow hhigh h, ?_⟩
  rintro checkpoints assessment nowMs handoffGrace hhigh ⟨checkpoint, hmem, hlow, hserves, hkeeps⟩
  refine bestEffort_iff.mpr ⟨checkpoint, hmem, hserves.1, hserves.2.1, ?_⟩
  exact (coverageBridges_more_iff hsub hlow hhigh hserves.2.2).mpr hkeeps

/-- Coverage that an earlier interval brings up to the former first one. -/
theorem more_coverage_keeps_repair_sample :
    let coverage : List CoverageInterval := [⟨5, 100, "direct-irc"⟩]
    let coverage' : List CoverageInterval := ⟨-10, 3, "peer"⟩ :: ⟨4, 4, "peer"⟩ :: coverage
    let repaired : RepairCheckpoint := ⟨.success, 0, 0, 0, 0, 10⟩
    let assessment : CoverageAssessment := ⟨false, 0, 100, [(0, 5)]⟩
    (coverageBridges coverage' 0 100 5 = true ↔ KeepsBridge coverage coverage' 0 100 5) ∧
      (assessRepairState [repaired] assessment coverage' 200 5).bestEffort = true := by
  intro coverage coverage' repaired assessment
  have hkeeps : KeepsBridge coverage coverage' 0 100 5 := by
    have hf : firstUsable coverage 0 5 = some ⟨5, 100, "direct-irc"⟩ := by decide +kernel
    have hf' : firstUsable coverage' 0 5 = some ⟨-10, 3, "peer"⟩ := by decide +kernel
    refine .inr fun f h f' h' t hfrom hto hend => ?_
    obtain rfl := Option.some.inj (hf.symm.trans h)
    obtain rfl := Option.some.inj (hf'.symm.trans h')
    dsimp only at hfrom hto
    obtain rfl : t = 4 := by omega
    decide +kernel
  have hmore := more_coverage_keeps_repair coverage coverage' (by decide +kernel)
  refine ⟨hmore.1 0 100 5 (by decide) (by decide) (by decide +kernel), ?_⟩
  exact hmore.2 [repaired] assessment 200 5 (by decide)
    ⟨repaired, List.mem_singleton_self repaired, by decide,
      ⟨rfl, by decide, by decide +kernel⟩, hkeeps⟩

/-- Coverage that ends with the checkpoint uses up the grace. -/
theorem more_coverage_breaks_repair :
    (¬ ∀ coverage coverage' : List CoverageInterval,
      (∀ x ∈ coverage ++ coverage', x.startMs ≤ x.endMs) → coverage ⊆ coverage' →
      ∀ checkpointEndMs requiredEndMs handoffGraceMs, 0 ≤ handoffGraceMs →
        coverageBridges coverage checkpointEndMs requiredEndMs handoffGraceMs = true →
        coverageBridges coverage' checkpointEndMs requiredEndMs handoffGraceMs = true) ∧
    ¬ ∀ coverage coverage' : List CoverageInterval,
      (∀ x ∈ coverage ++ coverage', x.startMs ≤ x.endMs) → coverage ⊆ coverage' →
      ∀ checkpoints assessment nowMs handoffGrace,
        (assessRepairState checkpoints assessment coverage nowMs handoffGrace).bestEffort = true →
        (assessRepairState checkpoints assessment coverage' nowMs handoffGrace).bestEffort =
          true := by
  constructor
  · intro h
    have hmore := h [⟨5, 100, "direct-irc"⟩] [⟨0, 0, "peer"⟩, ⟨5, 100, "direct-irc"⟩]
      (by decide +kernel) (by decide +kernel) 0 100 5
    exact absurd (hmore (by decide) (by decide +kernel)) (by decide +kernel)
  · intro h
    have hmore := h [⟨5, 100, "direct-irc"⟩] [⟨0, 0, "peer"⟩, ⟨5, 100, "direct-irc"⟩]
      (by decide +kernel) (by decide +kernel) [⟨.success, 0, 0, 0, 0, 10⟩]
      ⟨false, 0, 100, [(0, 5)]⟩ 200 5
    exact absurd (hmore (by decide +kernel)) (by decide +kernel)

end RecentMessages
