/-
RecentMessages/Control/Gaps.lean

`assess_coverage` decides coverage exactly (`coverage.rs`).

What the gaps of a span are is said point by point (`GapsOf`), with no mention of intervals: they
are sorted, they lie in the span, every uncovered point of the span is in one of them as a closed
range, and every point strictly inside one is uncovered.

Merging keeps the covered points and leaves intervals that are neither inverted nor adjacent
(`Apart`).  The sweep over such intervals is proved with the intervals it has passed beside
those to come: none of the former ends after the cursor.
-/
import RecentMessages.Control.Coverage

namespace RecentMessages

/-! ### The gaps of a span -/

/-- `gaps` are the gaps that `covered` leaves from `start` to `stop`. -/
structure GapsOf (covered : ℤ → Prop) (start stop : ℤ) (gaps : List (ℤ × ℤ)) : Prop where
  sorted : gaps.Pairwise fun g h => g.2 ≤ h.1
  inside : ∀ g ∈ gaps, start ≤ g.1 ∧ g.1 < g.2 ∧ g.2 ≤ stop
  complete : ∀ t, start ≤ t → t ≤ stop → ¬ covered t → ∃ g ∈ gaps, g.1 ≤ t ∧ t ≤ g.2
  sound : ∀ g ∈ gaps, ∀ t, g.1 < t → t < g.2 → ¬ covered t
  uncovered : ∀ g ∈ gaps, ∃ t, g.1 ≤ t ∧ t ≤ g.2 ∧ ¬ covered t

namespace GapsOf

variable {covered covered' : ℤ → Prop} {start mid stop : ℤ} {gaps : List (ℤ × ℤ)}

theorem congr (h : GapsOf covered start stop gaps) (hiff : ∀ t, covered t ↔ covered' t) :
    GapsOf covered' start stop gaps := by
  rwa [show covered' = covered from funext fun t => propext (hiff t).symm]

theorem nil (h : ∀ t, start ≤ t → t ≤ stop → covered t) : GapsOf covered start stop [] where
  sorted := List.Pairwise.nil
  inside := by rintro g ⟨⟩
  complete := fun t hfrom hto hnot => absurd (h t hfrom hto) hnot
  sound := by rintro g ⟨⟩
  uncovered := by rintro g ⟨⟩

/-- Nothing is uncovered before `mid`. -/
theorem skip (h : GapsOf covered mid stop gaps) (hle : start ≤ mid)
    (hcovered : ∀ t, start ≤ t → t < mid → covered t) : GapsOf covered start stop gaps where
  sorted := h.sorted
  inside := fun g hg => ⟨hle.trans (h.inside g hg).1, (h.inside g hg).2⟩
  complete := fun t hfrom hto hnot =>
    h.complete t (not_lt.mp fun hlt => hnot (hcovered t hfrom hlt)) hto hnot
  sound := h.sound
  uncovered := h.uncovered

/-- A gap from `start` on, up to `a`; nothing is uncovered between `a` and `mid`. -/
theorem cons {a : ℤ} (h : GapsOf covered mid stop gaps) (hlt : start < a) (hle : a ≤ mid)
    (hstop : a ≤ stop) (hnot : ∀ t, start < t → t < a → ¬ covered t)
    (hsome : ∃ t, start ≤ t ∧ t ≤ a ∧ ¬ covered t)
    (hcovered : ∀ t, a < t → t < mid → covered t) :
    GapsOf covered start stop ((start, a) :: gaps) where
  sorted := by
    refine List.pairwise_cons.mpr ⟨fun g hg => ?_, h.sorted⟩
    exact hle.trans (h.inside g hg).1
  inside := by
    intro g hg
    rcases List.mem_cons.mp hg with rfl | hg
    · exact ⟨le_rfl, hlt, hstop⟩
    · exact ⟨(hlt.le.trans hle).trans (h.inside g hg).1, (h.inside g hg).2⟩
  complete := by
    intro t hfrom hto ht
    by_cases hin : t ≤ a
    · exact ⟨(start, a), List.mem_cons_self, hfrom, hin⟩
    · -- nothing is uncovered between `a` and `mid`
      have hmid : mid ≤ t := not_lt.mp fun hlt => ht (hcovered t (not_le.mp hin) hlt)
      obtain ⟨g, hg, hrange⟩ := h.complete t hmid hto ht
      exact ⟨g, List.mem_cons_of_mem _ hg, hrange⟩
  sound := by
    intro g hg t
    rcases List.mem_cons.mp hg with rfl | hg
    · exact hnot t
    · exact h.sound g hg t
  uncovered := by
    intro g hg
    rcases List.mem_cons.mp hg with rfl | hg
    · exact hsome
    · exact h.uncovered g hg

/-- **There is no gap exactly when every point is covered.** -/
theorem eq_nil_iff (h : GapsOf covered start stop gaps) :
    gaps = [] ↔ ∀ t, start ≤ t → t ≤ stop → covered t := by
  constructor
  · rintro rfl t hfrom hto
    by_contra hnot
    obtain ⟨g, hg, -⟩ := h.complete t hfrom hto hnot
    cases hg
  · intro hall
    refine List.eq_nil_iff_forall_not_mem.mpr fun g hg => ?_
    obtain ⟨t, hfrom, hto, hnot⟩ := h.uncovered g hg
    exact hnot (hall t ((h.inside g hg).1.trans hfrom) (hto.trans (h.inside g hg).2.2))

end GapsOf

/-! ### What merging leaves -/

theorem covers_extend_iff {previous interval : CoverageInterval} {t : ℤ}
    (hle : previous.startMs ≤ interval.startMs) (hstart : interval.startMs ≤ previous.endMs + 1) :
    (previous.extend interval).Covers t ↔ previous.Covers t ∨ interval.Covers t := by
  refine ⟨covers_extend hstart, ?_⟩
  rintro (⟨hfrom, hto⟩ | ⟨hfrom, hto⟩)
  · exact ⟨hfrom, hto.trans (le_max_left _ _)⟩
  · exact ⟨hle.trans hfrom, hto.trans (le_max_right _ _)⟩

/-- `b` starts after `a`, and if its start is in range it does not touch `a`. -/
def Apart (a b : CoverageInterval) : Prop :=
  a.startMs ≤ b.startMs ∧ (b.startMs ≤ i64Max → a.endMs + 1 < b.startMs)

/-- **A round of the merge**, for an interval that starts no earlier than those before it: it
stays apart from them, or it extends the last. -/
theorem apart_mergeStep {merged : List CoverageInterval} {interval : CoverageInterval}
    (h : merged.Pairwise fun b a => Apart a b)
    (hstart : ∀ x ∈ merged, x.startMs ≤ interval.startMs) :
    (mergeStep merged interval).Pairwise (fun b a => Apart a b) ∧
      (∀ x ∈ mergeStep merged interval, x.startMs ≤ interval.startMs) := by
  unfold mergeStep
  split
  · exact ⟨h, hstart⟩
  rcases merged with - | ⟨previous, earlier⟩
  · refine ⟨List.pairwise_singleton _ _, fun x hx => ?_⟩
    rw [List.mem_singleton.mp hx]
  obtain ⟨hprevious, hearlier⟩ := List.pairwise_cons.mp h
  have hle := hstart previous List.mem_cons_self
  dsimp only
  split
  · -- the last interval keeps its start
    refine ⟨List.pairwise_cons.mpr ⟨hprevious, hearlier⟩, fun x hx => ?_⟩
    rcases List.mem_cons.mp hx with rfl | hx
    · exact hle
    · exact hstart x (List.mem_cons_of_mem previous hx)
  · -- the start is beyond the last interval, or beyond the saturated sum
    rename_i hfar
    have happart : Apart previous interval := by
      refine ⟨hle, fun hrange => ?_⟩
      rw [not_le, min_lt_iff] at hfar
      exact hfar.resolve_right (not_lt.mpr hrange)
    refine ⟨List.pairwise_cons.mpr ⟨fun x hx => ?_, h⟩, fun x hx => ?_⟩
    · rcases List.mem_cons.mp hx with rfl | hx
      · exact happart
      · have hx := hprevious x hx
        refine ⟨hx.1.trans hle, fun hrange => ?_⟩
        exact (hx.2 (hle.trans hrange)).trans_le hle
    · rcases List.mem_cons.mp hx with rfl | hx
      · exact le_rfl
      · exact hstart x hx

theorem valid_mergeStep {merged : List CoverageInterval} {interval : CoverageInterval}
    (h : ∀ x ∈ merged, x.startMs ≤ x.endMs) :
    ∀ x ∈ mergeStep merged interval, x.startMs ≤ x.endMs := by
  unfold mergeStep
  split
  · exact h
  · rename_i hvalid
    rw [not_lt] at hvalid
    rcases merged with - | ⟨previous, earlier⟩
    · simpa using hvalid
    · obtain ⟨hprevious, hearlier⟩ := List.forall_mem_cons.mp h
      dsimp only
      split
      · exact List.forall_mem_cons.mpr ⟨hprevious.trans (le_max_left _ _), hearlier⟩
      · exact List.forall_mem_cons.mpr ⟨hvalid, h⟩

/-- A round of the merge keeps the covered points, and adds those of the interval. -/
theorem covers_mergeStep_of {merged : List CoverageInterval} {interval : CoverageInterval} {t : ℤ}
    (hstart : ∀ x ∈ merged, x.startMs ≤ interval.startMs)
    (h : IsCovered merged t ∨ interval.Covers t) : IsCovered (mergeStep merged interval) t := by
  unfold mergeStep
  split
  · -- an inverted interval is skipped; it covers nothing
    rename_i hinverted
    refine h.resolve_right ?_
    rintro ⟨hfrom, hto⟩
    exact absurd (hfrom.trans hto) (not_le.mpr hinverted)
  rcases merged with - | ⟨previous, earlier⟩
  · refine ⟨interval, List.mem_singleton_self interval, h.resolve_left ?_⟩
    rintro ⟨x, ⟨⟩, -⟩
  have hle := hstart previous List.mem_cons_self
  dsimp only
  split
  · rename_i hnear
    have hextend := @covers_extend_iff previous interval t hle (hnear.trans (min_le_left _ _))
    rcases h with ⟨x, hx, ht⟩ | ht
    · rcases List.mem_cons.mp hx with rfl | hx
      · exact ⟨_, List.mem_cons_self, hextend.mpr (.inl ht)⟩
      · exact ⟨x, List.mem_cons_of_mem _ hx, ht⟩
    · exact ⟨_, List.mem_cons_self, hextend.mpr (.inr ht)⟩
  · rcases h with ⟨x, hx, ht⟩ | ht
    · exact ⟨x, List.mem_cons_of_mem _ hx, ht⟩
    · exact ⟨interval, List.mem_cons_self, ht⟩

/-- Intervals as merging leaves them: apart, and not inverted. -/
structure MergedIntervals (l : List CoverageInterval) : Prop where
  apart : l.Pairwise Apart
  valid : ∀ x ∈ l, x.startMs ≤ x.endMs

/-- The loop of `merge_intervals` over intervals sorted by their start. -/
theorem merged_mergeSteps {l merged : List CoverageInterval}
    (hsorted : l.Pairwise fun a b => a.startMs ≤ b.startMs)
    (hstart : ∀ x ∈ merged, ∀ y ∈ l, x.startMs ≤ y.startMs)
    (hapart : merged.Pairwise fun b a => Apart a b) (hvalid : ∀ x ∈ merged, x.startMs ≤ x.endMs) :
    MergedIntervals (l.foldl mergeStep merged).reverse ∧
      ∀ t, IsCovered merged t ∨ IsCovered l t → IsCovered (l.foldl mergeStep merged) t := by
  induction l generalizing merged with
  | nil =>
    refine ⟨⟨List.pairwise_reverse.mpr hapart, fun x hx => hvalid x (List.mem_reverse.mp hx)⟩, ?_⟩
    rintro t (ht | ⟨x, ⟨⟩, -⟩)
    exact ht
  | cons interval l ih =>
    obtain ⟨hfirst, hsorted⟩ := List.pairwise_cons.mp hsorted
    have hbefore : ∀ x ∈ merged, x.startMs ≤ interval.startMs :=
      fun x hx => hstart x hx interval List.mem_cons_self
    obtain ⟨hapart', hbefore'⟩ := apart_mergeStep hapart hbefore
    obtain ⟨hmerged, hcovers⟩ := ih hsorted
      (fun x hx y hy => (hbefore' x hx).trans (hfirst y hy)) hapart' (valid_mergeStep hvalid)
    refine ⟨hmerged, fun t ht => hcovers t ?_⟩
    rcases ht with ht | ⟨x, hx, ht⟩
    · exact .inl (covers_mergeStep_of hbefore (.inl ht))
    · rcases List.mem_cons.mp hx with rfl | hx
      · exact .inl (covers_mergeStep_of hbefore (.inr ht))
      · exact .inr ⟨x, hx, ht⟩

/-- **Merging** keeps the covered points, and its intervals are apart. -/
theorem merged_mergeIntervals (intervals : List CoverageInterval) :
    MergedIntervals (mergeIntervals intervals) ∧
      ∀ t, IsCovered (mergeIntervals intervals) t ↔ IsCovered intervals t := by
  obtain ⟨hmerged, hcovers⟩ :=
    @merged_mergeSteps _ [] (sorted_starts intervals) (by rintro x ⟨⟩) List.Pairwise.nil (by rintro x ⟨⟩)
  refine ⟨hmerged, fun t => ⟨covers_mergeIntervals, fun ht => ?_⟩⟩
  refine (hcovers t (.inr ?_)).mono fun x hx => List.mem_reverse.mpr hx
  exact ht.mono fun x hx => mem_sortByKey.mpr hx

/-! ### The sweep -/

section Sweep

variable {passed rest : List CoverageInterval} {cursorMs requiredEndMs : ℤ}

/-- No interval that was passed reaches beyond the cursor. -/
def Passed (cursorMs requiredEndMs : ℤ) (passed : List CoverageInterval) : Prop :=
  ∀ x ∈ passed, x.endMs ≤ cursorMs ∨ requiredEndMs < x.startMs

theorem not_covered_of_passed (h : Passed cursorMs requiredEndMs passed) {t : ℤ}
    (hfrom : cursorMs < t) (hto : t ≤ requiredEndMs) (hrest : ∀ y ∈ rest, t < y.startMs) :
    ¬ IsCovered (passed ++ rest) t := by
  rintro ⟨x, hx, hstart, hend⟩
  rcases List.mem_append.mp hx with hx | hx
  · rcases h x hx with hbefore | hbeyond
    · exact absurd (hend.trans hbefore) (not_le.mpr hfrom)
    · exact absurd (hstart.trans hto) (not_le.mpr hbeyond)
  · exact absurd hstart (not_le.mpr (hrest x hx))

/-- **A gap is real**: the cursor is uncovered, or the next point is, since intervals that
touch were merged. -/
theorem exists_uncovered (hmerged : MergedIntervals (passed ++ rest))
    (h : Passed cursorMs requiredEndMs passed) (hrange : requiredEndMs ≤ i64Max) {a : ℤ}
    (hlt : cursorMs < a) (hstop : a ≤ requiredEndMs) (hrest : ∀ y ∈ rest, a ≤ y.startMs) :
    ∃ t, cursorMs ≤ t ∧ t ≤ a ∧ ¬ IsCovered (passed ++ rest) t := by
  by_cases hcovered : IsCovered (passed ++ rest) cursorMs
  · refine ⟨cursorMs + 1, by omega, by omega, ?_⟩
    obtain ⟨x, hx, hxstart, hxend⟩ := hcovered
    rintro ⟨y, hy, hystart, hyend⟩
    -- the interval that covers the cursor was passed, and ends there
    have hxpassed : x ∈ passed := by
      rcases List.mem_append.mp hx with hx | hx
      · exact hx
      · have := hrest x hx
        omega
    have hxstop : x.endMs = cursorMs := by
      rcases h x hxpassed with hbefore | hbeyond <;> omega
    -- the one that covers the next point is still to come, and does not touch it
    rcases List.mem_append.mp hy with hy | hy
    · rcases h y hy with hbefore | hbeyond <;> omega
    · have happart := (List.pairwise_append.mp hmerged.apart).2.2 x hxpassed y hy
      have := happart.2 (by omega)
      omega
  · exact ⟨cursorMs, le_rfl, hlt.le, hcovered⟩

/-- **The sweep finds the gaps** from its cursor on. -/
theorem gapsOf_uncoveredFrom (hmerged : MergedIntervals (passed ++ rest))
    (h : Passed cursorMs requiredEndMs passed) (hrange : requiredEndMs ≤ i64Max)
    (hlt : cursorMs < requiredEndMs) :
    GapsOf (IsCovered (passed ++ rest)) cursorMs requiredEndMs
      (uncoveredFrom requiredEndMs cursorMs rest) := by
  induction rest generalizing passed cursorMs with
  | nil =>
    -- what is left is one gap
    rw [uncoveredFrom, if_pos hlt]
    have hend : GapsOf (IsCovered (passed ++ [])) (requiredEndMs + 1) requiredEndMs [] :=
      GapsOf.nil fun t hfrom hto => by omega
    refine hend.cons hlt (by omega) le_rfl ?_ ?_ fun t hfrom hto => by omega
    · exact fun t hfrom hto => not_covered_of_passed h hfrom hto.le (by rintro y ⟨⟩)
    · exact exists_uncovered hmerged h hrange hlt le_rfl (by rintro y ⟨⟩)
  | cons interval rest ih =>
    have hstep := @ih (passed ++ [interval])
    rw [List.append_assoc, List.singleton_append] at hstep
    rw [uncoveredFrom]
    split
    · -- an interval that lies outside of what is left
      rename_i houtside
      refine hstep hmerged (fun x hx => ?_) hlt
      rcases List.mem_append.mp hx with hx | hx
      · exact h x hx
      · rw [List.mem_singleton.mp hx]
        exact houtside.imp_left fun hend => hend.le
    · rename_i hinside
      rw [not_or, not_lt, not_lt] at hinside
      obtain ⟨hend, hstart⟩ := hinside
      have hmem : interval ∈ passed ++ interval :: rest :=
        List.mem_append_right passed List.mem_cons_self
      have hvalid := hmerged.valid interval hmem
      have hcovered : ∀ t, interval.startMs ≤ t → t ≤ interval.endMs →
          IsCovered (passed ++ interval :: rest) t :=
        fun t hfrom hto => ⟨interval, hmem, hfrom, hto⟩
      rw [max_eq_right hend]
      -- what follows the interval
      have hnext : GapsOf (IsCovered (passed ++ interval :: rest)) interval.endMs requiredEndMs
          (if requiredEndMs ≤ interval.endMs then []
            else uncoveredFrom requiredEndMs interval.endMs rest) := by
        split
        · rename_i hdone
          refine GapsOf.nil fun t hfrom hto => ?_
          exact hcovered t (hvalid.trans hfrom) (hto.trans hdone)
        · rename_i hmore
          refine hstep hmerged (fun x hx => ?_) (not_le.mp hmore)
          rcases List.mem_append.mp hx with hx | hx
          · exact (h x hx).imp_left fun hbefore => hbefore.trans hend
          · rw [List.mem_singleton.mp hx]
            exact .inl le_rfl
      split
      · -- the part between the cursor and the interval is a gap
        rename_i hgap
        -- the intervals are sorted
        have hlater : ∀ y ∈ interval :: rest, interval.startMs ≤ y.startMs := by
          intro y hy
          rcases List.mem_cons.mp hy with rfl | hy
          · exact le_rfl
          · have happart := (List.pairwise_append.mp hmerged.apart).2.1
            exact ((List.pairwise_cons.mp happart).1 y hy).1
        rw [min_eq_left hstart, List.singleton_append]
        refine hnext.cons hgap hvalid hstart (fun t hfrom hto => ?_) ?_
          fun t hfrom hto => hcovered t hfrom.le hto.le
        · exact not_covered_of_passed h hfrom (hto.le.trans hstart)
            fun y hy => hto.trans_le (hlater y hy)
        · exact exists_uncovered hmerged h hrange hgap hstart hlater
      · -- the interval begins at the cursor or before it
        rename_i hnogap
        rw [List.nil_append]
        exact hnext.skip hend fun t hfrom hto =>
          hcovered t ((not_lt.mp hnogap).trans hfrom) hto.le

end Sweep

/-! ### The assessment -/

/-- **Coverage is decided exactly.**  Where the span is not empty, the assessment is sufficient
exactly if every millisecond of the span lies in an interval, and the gaps are those that the
intervals leave. -/
theorem assess_coverage_exact (records : List CanonicalRecord) (intervals : List CoverageInterval)
    (request : CoverageRequest) (hnow : request.nowMs ≤ i64Max) :
    let assessment := assessCoverage records intervals request
    assessment.requiredStartMs < assessment.requiredEndMs →
      (assessment.sufficient = true ↔ ∀ t, assessment.requiredStartMs ≤ t →
        t ≤ assessment.requiredEndMs → IsCovered intervals t) ∧
      GapsOf (IsCovered intervals) assessment.requiredStartMs assessment.requiredEndMs
        assessment.gaps := by
  intro assessment hlt
  have hend : request.requiredEndMs ≤ i64Max := (min_le_right _ _).trans hnow
  obtain ⟨hmerged, hcovers⟩ := merged_mergeIntervals intervals
  have hgaps : GapsOf (IsCovered intervals) assessment.requiredStartMs assessment.requiredEndMs
      assessment.gaps ∧ assessment.sufficient = assessment.gaps.isEmpty := by
    have hfound : ∀ startMs, startMs < request.requiredEndMs →
        GapsOf (IsCovered intervals) startMs request.requiredEndMs
          (uncoveredIntervals intervals startMs request.requiredEndMs) := by
      intro startMs hstart
      rw [uncoveredIntervals, if_neg (not_le.mpr hstart)]
      exact (@gapsOf_uncoveredFrom [] _ _ _ hmerged (by rintro x ⟨⟩) hend hstart).congr hcovers
    have hassess : assessment = assessCoverage records intervals request := rfl
    rw [assessCoverage] at hassess
    split at hassess
    · -- nothing was requested, so the span is empty
      rw [hassess] at hlt
      exact absurd hlt (lt_irrefl _)
    · rw [hassess] at hlt ⊢
      exact ⟨hfound _ hlt, rfl⟩
  refine ⟨?_, hgaps.1⟩
  rw [hgaps.2, List.isEmpty_iff]
  exact hgaps.1.eq_nil_iff

/-- Overlapping and inverted intervals in no order, with a gap inside and one at the end. -/
theorem assess_coverage_exact_sample :
    let intervals := [⟨5, 10, "b"⟩, ⟨9, 2, "c"⟩, ⟨0, 2, "a"⟩, ⟨1, 3, "b"⟩]
    let assessment := assessCoverage [] intervals ⟨some 0, none, 10, 12, 100⟩
    assessment.gaps = [(3, 5), (10, 12)] ∧
      (assessment.sufficient = true ↔ ∀ t, assessment.requiredStartMs ≤ t →
        t ≤ assessment.requiredEndMs → IsCovered intervals t) ∧
      GapsOf (IsCovered intervals) assessment.requiredStartMs assessment.requiredEndMs
        assessment.gaps :=
  ⟨by decide +kernel, assess_coverage_exact _ _ _ (by decide) (by decide +kernel)⟩

end RecentMessages
