/-
RecentMessages/Control/Coverage.lean

When a response is complete (`coverage.rs`).

`assess_coverage` asks for the span from the oldest record it was given, or from
the start of the request if the answer is not full, to the end of the request, and
looks for gaps that the recorded intervals leave in it.  The loops that merge
intervals and collect gaps only matter through the points they leave uncovered:
merging covers no new point (`covers_mergeIntervals`), and where no gap is left
every point of the span is covered (`covers_of_no_gaps`).
-/
import RecentMessages.Control.ControlStore

namespace RecentMessages

structure CoverageRequest where
  afterMs : Option ℤ
  beforeMs : Option ℤ
  limit : ℕ
  nowMs : ℤ
  retentionMs : ℤ
  deriving DecidableEq, Repr

structure CoverageAssessment where
  sufficient : Bool
  requiredStartMs : ℤ
  requiredEndMs : ℤ
  gaps : List (ℤ × ℤ)
  deriving DecidableEq, Repr

/-- Some interval of the list lies around `t`. -/
def IsCovered (intervals : List CoverageInterval) (t : ℤ) : Prop :=
  ∃ interval ∈ intervals, interval.Covers t

instance (intervals : List CoverageInterval) (t : ℤ) : Decidable (IsCovered intervals t) :=
  inferInstanceAs (Decidable (∃ interval ∈ intervals, _))

theorem IsCovered.mono {l l' : List CoverageInterval} {t : ℤ} (h : IsCovered l t) (hsub : l ⊆ l') :
    IsCovered l' t := by
  obtain ⟨interval, hmem, ht⟩ := h
  exact ⟨interval, hsub hmem, ht⟩

/-! ### Merging intervals -/

/-- The sources of a merged interval, separated by commas. -/
def joinSource (source more : String) : String :=
  if (source.toList.splitOn ',').contains more.toList then source else source ++ "," ++ more

/-- `previous`, extended by an interval that starts no later than right after it. -/
def CoverageInterval.extend (previous interval : CoverageInterval) : CoverageInterval :=
  { previous with
    endMs := max previous.endMs interval.endMs
    source := joinSource previous.source interval.source }

/-- The loop of `merge_intervals`, with the vector `merged` last first. -/
def mergeStep (merged : List CoverageInterval) (interval : CoverageInterval) :
    List CoverageInterval :=
  if interval.endMs < interval.startMs then
    merged
  else
    match merged with
    | [] => [interval]
    | previous :: earlier =>
      -- adding one saturates at the top only
      if interval.startMs ≤ min (previous.endMs + 1) i64Max then
        previous.extend interval :: earlier
      else
        interval :: previous :: earlier

/-- `merge_intervals`. -/
def mergeIntervals (intervals : List CoverageInterval) : List CoverageInterval :=
  ((sortByKey CoverageInterval.bounds intervals).foldl mergeStep []).reverse

/-- Intervals in the order of their bounds are in the order of their starts. -/
theorem sorted_starts (intervals : List CoverageInterval) :
    (sortByKey CoverageInterval.bounds intervals).Pairwise fun a b => a.startMs ≤ b.startMs := by
  refine (sortByKey_sorted intervals).imp fun {a b} hle => ?_
  rcases Prod.Lex.le_iff.mp hle with hlt | heq
  · exact hlt.le
  · exact heq.1.le

theorem covers_extend {previous interval : CoverageInterval} {t : ℤ}
    (hstart : interval.startMs ≤ previous.endMs + 1) (h : (previous.extend interval).Covers t) :
    previous.Covers t ∨ interval.Covers t := by
  obtain ⟨hfrom, hto⟩ := h
  have hto' : t ≤ previous.endMs ∨ t ≤ interval.endMs := le_max_iff.mp hto
  by_cases hprevious : t ≤ previous.endMs
  · exact .inl ⟨hfrom, hprevious⟩
  · refine .inr ⟨?_, hto'.resolve_left hprevious⟩
    omega

/-- A round of the loop covers no point that was not covered. -/
theorem covers_mergeStep {merged : List CoverageInterval} {interval : CoverageInterval} {t : ℤ}
    (h : IsCovered (mergeStep merged interval) t) : IsCovered merged t ∨ interval.Covers t := by
  unfold mergeStep at h
  split at h
  · exact .inl h
  · rcases merged with - | ⟨previous, earlier⟩
    · obtain ⟨x, hx, ht⟩ := h
      rw [List.mem_singleton.mp hx] at ht
      exact .inr ht
    · dsimp only at h
      split at h <;> rename_i hstart
      · obtain ⟨x, hx, ht⟩ := h
        rcases List.mem_cons.mp hx with rfl | hx
        · exact (covers_extend (hstart.trans (min_le_left _ _)) ht).imp_left
            fun ht => ⟨previous, List.mem_cons_self, ht⟩
        · exact .inl ⟨x, List.mem_cons_of_mem _ hx, ht⟩
      · obtain ⟨x, hx, ht⟩ := h
        rcases List.mem_cons.mp hx with rfl | hx
        · exact .inr ht
        · exact .inl ⟨x, hx, ht⟩

/-- **Merging covers no new point.** -/
theorem covers_mergeIntervals {intervals : List CoverageInterval} {t : ℤ}
    (h : IsCovered (mergeIntervals intervals) t) : IsCovered intervals t := by
  have hloop : ∀ l merged : List CoverageInterval, IsCovered (l.foldl mergeStep merged) t →
      IsCovered merged t ∨ IsCovered l t := by
    intro l
    induction l with
    | nil => exact fun merged h => .inl h
    | cons interval l ih =>
      intro merged h
      rcases ih _ h with h | ⟨x, hx, ht⟩
      · exact (covers_mergeStep h).imp_right fun ht => ⟨interval, List.mem_cons_self, ht⟩
      · exact .inr ⟨x, List.mem_cons_of_mem _ hx, ht⟩
  have hloop := hloop (sortByKey CoverageInterval.bounds intervals) []
    (h.mono fun x hx => List.mem_reverse.mp hx)
  refine (hloop.resolve_left ?_).mono fun x hx => mem_sortByKey.mp hx
  rintro ⟨x, hx, -⟩
  cases hx

/-! ### Gaps -/

/-- The loop of `uncovered_intervals` from `cursorMs` on. -/
def uncoveredFrom (requiredEndMs : ℤ) : ℤ → List CoverageInterval → List (ℤ × ℤ)
  | cursorMs, [] => if cursorMs < requiredEndMs then [(cursorMs, requiredEndMs)] else []
  | cursorMs, interval :: rest =>
    if interval.endMs < cursorMs ∨ requiredEndMs < interval.startMs then
      uncoveredFrom requiredEndMs cursorMs rest
    else
      (if cursorMs < interval.startMs then [(cursorMs, min interval.startMs requiredEndMs)]
        else []) ++
      if requiredEndMs ≤ max cursorMs interval.endMs then []
      else uncoveredFrom requiredEndMs (max cursorMs interval.endMs) rest

/-- `uncovered_intervals`. -/
def uncoveredIntervals (intervals : List CoverageInterval) (requiredStartMs requiredEndMs : ℤ) :
    List (ℤ × ℤ) :=
  if requiredEndMs ≤ requiredStartMs then []
  else uncoveredFrom requiredEndMs requiredStartMs (mergeIntervals intervals)

/-- If the loop finds no gap, the intervals cover what is left of the span. -/
theorem covers_of_uncoveredFrom {requiredEndMs : ℤ} {intervals : List CoverageInterval}
    {cursorMs : ℤ} (h : uncoveredFrom requiredEndMs cursorMs intervals = [])
    (hlt : cursorMs < requiredEndMs) {t : ℤ} (hfrom : cursorMs ≤ t) (hto : t ≤ requiredEndMs) :
    IsCovered intervals t := by
  induction intervals generalizing cursorMs with
  | nil =>
    rw [uncoveredFrom, if_pos hlt] at h
    cases h
  | cons interval rest ih =>
    have hmore : IsCovered rest t → IsCovered (interval :: rest) t :=
      fun h => h.mono fun x hx => List.mem_cons_of_mem interval hx
    rw [uncoveredFrom] at h
    split at h
    · exact hmore (ih h hlt hfrom)
    · rename_i hreaches
      obtain ⟨hgap, hrest⟩ := List.append_eq_nil_iff.mp h
      have hstart : interval.startMs ≤ cursorMs := by
        by_contra hlate
        rw [if_pos (not_le.mp hlate)] at hgap
        cases hgap
      -- the interval covers the span up to its end, the rest of the loop covers the rest
      by_cases hend : t ≤ interval.endMs
      · exact ⟨interval, List.mem_cons_self, hstart.trans hfrom, hend⟩
      · split at hrest
        · rename_i hdone
          exact absurd (hto.trans ((le_max_iff.mp hdone).resolve_left (not_le.mpr hlt))) hend
        · rename_i hmissing
          exact hmore (ih hrest (not_le.mp hmissing) (max_le hfrom (not_le.mp hend).le))

/-- **Where no gap is left, every point is covered.** -/
theorem covers_of_no_gaps {intervals : List CoverageInterval} {requiredStartMs requiredEndMs : ℤ}
    (h : uncoveredIntervals intervals requiredStartMs requiredEndMs = [])
    (hlt : requiredStartMs < requiredEndMs) {t : ℤ} (hfrom : requiredStartMs ≤ t)
    (hto : t ≤ requiredEndMs) : IsCovered intervals t := by
  rw [uncoveredIntervals, if_neg (not_le.mpr hlt)] at h
  exact covers_mergeIntervals (covers_of_uncoveredFrom h hlt hfrom hto)

/-! ### The assessment -/

/-- The end of the span that must be covered. -/
def CoverageRequest.requiredEndMs (request : CoverageRequest) : ℤ :=
  min (request.beforeMs.getD request.nowMs) request.nowMs

/-- The start of the span, before the records are taken into account. -/
def CoverageRequest.requestedStartMs (request : CoverageRequest) : ℤ :=
  let horizonStartMs := satSub request.requiredEndMs request.retentionMs
  max (request.afterMs.getD horizonStartMs) horizonStartMs

/-- Nothing is requested: the limit is zero or the window is empty. -/
def CoverageRequest.Vacuous (request : CoverageRequest) : Prop :=
  request.limit = 0 ∨ ∃ after ∈ request.afterMs, request.requiredEndMs ≤ after

instance (request : CoverageRequest) : Decidable request.Vacuous :=
  inferInstanceAs (Decidable (_ ∨ ∃ after ∈ request.afterMs, _))

/-- `assess_coverage`. -/
def assessCoverage (records : List CanonicalRecord) (intervals : List CoverageInterval)
    (request : CoverageRequest) : CoverageAssessment :=
  let requiredEndMs := request.requiredEndMs
  if request.Vacuous then
    ⟨true, requiredEndMs, requiredEndMs, []⟩
  else
    let requiredStartMs :=
      if request.limit ≤ records.length then
        let oldest := ((records.reverse.take request.limit).map (·.receivedAtMs)).min?
        max (oldest.getD requiredEndMs) request.requestedStartMs
      else request.requestedStartMs
    let gaps := uncoveredIntervals intervals requiredStartMs requiredEndMs
    ⟨gaps.isEmpty, requiredStartMs, requiredEndMs, gaps⟩

section Assessment

variable {records : List CanonicalRecord} {intervals : List CoverageInterval}
variable {request : CoverageRequest}

@[simp] theorem requiredEndMs_assess : (assessCoverage records intervals request).requiredEndMs =
    request.requiredEndMs := by
  unfold assessCoverage
  split <;> rfl

/-- **A sufficient assessment covers its span**, unless the span is one point. -/
theorem covers_of_sufficient (h : (assessCoverage records intervals request).sufficient = true)
    {t : ℤ} (hfrom : (assessCoverage records intervals request).requiredStartMs ≤ t)
    (hto : t < request.requiredEndMs) : IsCovered intervals t := by
  unfold assessCoverage at h hfrom
  split at h <;> rename_i hvacuous
  · rw [if_pos hvacuous] at hfrom
    exact absurd hfrom (not_le.mpr hto)
  · rw [if_neg hvacuous] at hfrom
    exact covers_of_no_gaps (List.isEmpty_iff.mp h) (lt_of_le_of_lt hfrom hto) hfrom hto.le

/-- **The span of a full answer** starts no earlier than some record of it. -/
theorem exists_le_requiredStart (intervals : List CoverageInterval) (hvacuous : ¬ request.Vacuous)
    (hfull : request.limit ≤ records.length) :
    ∃ r ∈ records, r.receivedAtMs ≤
      (assessCoverage records intervals request).requiredStartMs := by
  rw [assessCoverage, if_neg hvacuous]
  dsimp only
  rw [if_pos hfull]
  have hne : (records.reverse.take request.limit).map (·.receivedAtMs) ≠ [] := by
    have hlimit : request.limit ≠ 0 := fun hzero => hvacuous (.inl hzero)
    rw [← List.length_pos_iff_ne_nil, List.length_map, List.length_take, List.length_reverse]
    omega
  obtain ⟨oldest, holdest⟩ := Option.isSome_iff_exists.mp (List.isSome_min?_of_ne_nil hne)
  obtain ⟨r, hr, rfl⟩ := List.mem_map.mp (List.min?_mem holdest)
  refine ⟨r, List.mem_reverse.mp (List.mem_of_mem_take hr), ?_⟩
  rw [holdest]
  exact le_max_left _ _

end Assessment

end RecentMessages
