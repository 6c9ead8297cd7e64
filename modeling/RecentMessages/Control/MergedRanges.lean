/-
RecentMessages/Control/MergedRanges.lean

`merge_intervals` computes a normal form (`coverage.rs`).

Its intervals are not inverted and leave a point between any two, and they cover what the given
intervals cover.  Ranges like that are determined by the points they contain, so the starts and
ends that come out depend on the covered set alone: not on the order of the intervals, on
repeated ones, or on what was merged before.  Only the sources may differ.
-/
import RecentMessages.Control.Gaps
import RecentMessages.Library.Ranges

namespace RecentMessages

/-- The starts and ends of intervals, without their sources. -/
def ranges (intervals : List CoverageInterval) : List (ℤ × ℤ) :=
  intervals.map fun interval => (interval.startMs, interval.endMs)

theorem mem_rangePoints_ranges {intervals : List CoverageInterval} {t : ℤ} :
    t ∈ rangePoints (ranges intervals) ↔ IsCovered intervals t := by
  simp [rangePoints, ranges, IsCovered, CoverageInterval.Covers]

theorem isCovered_append {l l' : List CoverageInterval} {t : ℤ} :
    IsCovered (l ++ l') t ↔ IsCovered l t ∨ IsCovered l' t := by
  simp [IsCovered, or_and_right, exists_or]

theorem isCovered_mergeIntervals {intervals : List CoverageInterval} {t : ℤ} :
    IsCovered (mergeIntervals intervals) t ↔ IsCovered intervals t :=
  (merged_mergeIntervals intervals).2 t

/-! ### Ends in range -/

namespace CoverageInterval

/-- The ends are values of an `i64`. -/
def InRange (interval : CoverageInterval) : Prop :=
  (i64Min ≤ interval.startMs ∧ interval.startMs ≤ i64Max) ∧
    i64Min ≤ interval.endMs ∧ interval.endMs ≤ i64Max

instance InRange.decidable (interval : CoverageInterval) : Decidable interval.InRange :=
  inferInstanceAs (Decidable ((_ ∧ _) ∧ _ ∧ _))

theorem InRange.extend {previous interval : CoverageInterval} (h : previous.InRange)
    (hinterval : interval.InRange) : (previous.extend interval).InRange :=
  ⟨h.1, h.2.1.trans (le_max_left _ _), max_le h.2.2 hinterval.2.2⟩

end CoverageInterval

theorem inRange_mergeStep {merged : List CoverageInterval} {interval : CoverageInterval}
    (h : ∀ x ∈ merged, x.InRange) (hinterval : interval.InRange) :
    ∀ x ∈ mergeStep merged interval, x.InRange := by
  unfold mergeStep
  split
  · exact h
  · rcases merged with - | ⟨previous, earlier⟩
    · simpa using hinterval
    · obtain ⟨hprevious, hearlier⟩ := List.forall_mem_cons.mp h
      dsimp only
      split
      · exact List.forall_mem_cons.mpr ⟨hprevious.extend hinterval, hearlier⟩
      · exact List.forall_mem_cons.mpr ⟨hinterval, h⟩

theorem inRange_mergeIntervals {intervals : List CoverageInterval}
    (h : ∀ x ∈ intervals, x.InRange) : ∀ x ∈ mergeIntervals intervals, x.InRange := by
  have hloop : ∀ x ∈ (sortByKey CoverageInterval.bounds intervals).foldl mergeStep [],
      x.InRange := by
    refine List.foldlRecOn _ mergeStep (motive := fun merged => ∀ x ∈ merged, x.InRange) ?_ ?_
    · exact List.forall_mem_nil _
    · exact fun merged hmerged interval hmem =>
        inRange_mergeStep hmerged (h interval (mem_sortByKey.mp hmem))
  exact fun x hx => hloop x (List.mem_reverse.mp hx)

/-! ### The normal form -/

/-- An interval that lies apart from another and starts in range does not touch it. -/
theorem Apart.lt {a b : CoverageInterval} (h : Apart a b) (hb : b.InRange) :
    a.endMs + 1 < b.startMs :=
  h.2 hb.1.2

section Normal

variable {xs ys : List CoverageInterval}

/-- **Merged intervals are separated.** -/
theorem separated_mergeIntervals (h : ∀ x ∈ xs, x.InRange) :
    Separated (ranges (mergeIntervals xs)) := by
  obtain ⟨hmerged, -⟩ := merged_mergeIntervals xs
  constructor
  · refine List.pairwise_map.mpr (hmerged.apart.imp_of_mem fun {a b} _ hb happart => ?_)
    exact ⟨a.endMs + 1, lt_add_one a.endMs, happart.lt (inRange_mergeIntervals h b hb)⟩
  · intro r hr
    obtain ⟨x, hx, rfl⟩ := List.mem_map.mp hr
    exact hmerged.valid x hx

/-- **Merging depends on the covered points alone.** -/
theorem ranges_mergeIntervals_eq_iff (hxs : ∀ x ∈ xs, x.InRange) (hys : ∀ y ∈ ys, y.InRange) :
    ranges (mergeIntervals xs) = ranges (mergeIntervals ys) ↔
      ∀ t, IsCovered xs t ↔ IsCovered ys t := by
  have hpoints : ∀ l t, t ∈ rangePoints (ranges (mergeIntervals l)) ↔ IsCovered l t :=
    fun l t => mem_rangePoints_ranges.trans isCovered_mergeIntervals
  constructor
  · intro heq t
    rw [← hpoints, heq, hpoints]
  · intro hcovered
    refine (separated_mergeIntervals hxs).ext (separated_mergeIntervals hys) ?_
    ext t
    rw [hpoints, hpoints, hcovered]

/-- The loop of `merge_intervals` over intervals that lie apart keeps each of them. -/
theorem mergeSteps_of_apart {l merged : List CoverageInterval}
    (hapart : (merged.reverse ++ l).Pairwise Apart) (hvalid : ∀ x ∈ l, x.startMs ≤ x.endMs)
    (hrange : ∀ x ∈ l, x.InRange) : l.foldl mergeStep merged = l.reverse ++ merged := by
  induction l generalizing merged with
  | nil => rfl
  | cons interval l ih =>
    obtain ⟨hfirst, hvalid⟩ := List.forall_mem_cons.mp hvalid
    obtain ⟨hin, hrange⟩ := List.forall_mem_cons.mp hrange
    have hstep : mergeStep merged interval = interval :: merged := by
      unfold mergeStep
      rw [if_neg (not_lt.mpr hfirst)]
      rcases merged with - | ⟨previous, earlier⟩
      · rfl
      · have hbefore := (List.pairwise_append.mp hapart).2.2 previous
          (List.mem_reverse.mpr List.mem_cons_self) interval List.mem_cons_self
        refine if_neg fun hnear => ?_
        exact absurd (hnear.trans (min_le_left _ _)) (not_le.mpr (hbefore.lt hin))
    rw [List.foldl_cons, hstep, ih _ hvalid hrange, List.reverse_cons, List.append_assoc]
    · rfl
    · rwa [List.reverse_cons, List.append_assoc]

/-- **Merging changes nothing** once intervals are merged, their sources included. -/
theorem mergeIntervals_of_merged (h : MergedIntervals xs) (hxs : ∀ x ∈ xs, x.InRange) :
    mergeIntervals xs = xs := by
  have hsorted : sortByKey CoverageInterval.bounds xs = xs := by
    refine List.Pairwise.insertionSort_eq (h.apart.imp_of_mem fun {a b} ha hb happart => ?_)
    refine Prod.Lex.le_iff.mpr (.inl ?_)
    show a.startMs < b.startMs
    have hvalid := h.valid a ha
    have hlt := happart.lt (hxs b hb)
    omega
  rw [mergeIntervals, hsorted, @mergeSteps_of_apart xs [] h.apart h.valid hxs, List.append_nil,
    List.reverse_reverse]

end Normal

/-- **`merge_intervals` is a normal form of the covered set.**  Its intervals ascend, are not
inverted, and neither overlap nor touch; they cover the points of the given intervals that are
not inverted.  Their starts and ends depend on these points alone, whatever the order and the
number of the intervals; merging again changes nothing, and intervals may be merged before
others join them. -/
theorem merge_intervals_canonical (xs ys : List CoverageInterval)
    (hxs : ∀ x ∈ xs, x.InRange) (hys : ∀ y ∈ ys, y.InRange) :
    (mergeIntervals xs).Pairwise
        (fun a b => a.startMs < b.startMs ∧ a.endMs + 1 < b.startMs) ∧
      (∀ x ∈ mergeIntervals xs, x.startMs ≤ x.endMs) ∧
      (∀ t, (∃ x ∈ mergeIntervals xs, x.startMs ≤ t ∧ t ≤ x.endMs) ↔
        ∃ x ∈ xs, x.startMs ≤ x.endMs ∧ x.startMs ≤ t ∧ t ≤ x.endMs) ∧
      (ranges (mergeIntervals xs) = ranges (mergeIntervals ys) ↔
        ∀ t, IsCovered xs t ↔ IsCovered ys t) ∧
      ((∀ x, x ∈ xs ↔ x ∈ ys) → ranges (mergeIntervals xs) = ranges (mergeIntervals ys)) ∧
      mergeIntervals (mergeIntervals xs) = mergeIntervals xs ∧
      ranges (mergeIntervals (mergeIntervals xs ++ ys)) = ranges (mergeIntervals (xs ++ ys)) := by
  obtain ⟨hmerged, hcovers⟩ := merged_mergeIntervals xs
  have hrange := inRange_mergeIntervals hxs
  have happend : ∀ l : List CoverageInterval, (∀ x ∈ l, x.InRange) →
      ∀ x ∈ l ++ ys, x.InRange := fun l hl => List.forall_mem_append.mpr ⟨hl, hys⟩
  refine ⟨?_, hmerged.valid, fun t => ?_, ranges_mergeIntervals_eq_iff hxs hys, fun hsame => ?_,
    mergeIntervals_of_merged hmerged hrange, ?_⟩
  · refine hmerged.apart.imp_of_mem fun {a b} ha hb happart => ?_
    have hvalid := hmerged.valid a ha
    have hlt := happart.lt (hrange b hb)
    exact ⟨by omega, hlt⟩
  · refine (hcovers t).trans (exists_congr fun x => and_congr_right fun _ => ?_)
    -- an inverted interval covers nothing
    exact ⟨fun h => ⟨h.1.trans h.2, h⟩, And.right⟩
  · refine (ranges_mergeIntervals_eq_iff hxs hys).mpr fun t => ?_
    exact exists_congr fun x => and_congr_left fun _ => hsame x
  · refine (ranges_mergeIntervals_eq_iff (happend _ hrange) (happend _ hxs)).mpr fun t => ?_
    rw [isCovered_append, isCovered_append, hcovers]

/-- Inverted, overlapping and adjacent intervals, some at the end of time. -/
theorem merge_intervals_canonical_sample :
    let xs := [⟨i64Max, i64Max, "d"⟩, ⟨5, 10, "b"⟩, ⟨9, 2, "c"⟩, ⟨i64Max - 3, i64Max - 1, "a"⟩]
    let ys := [⟨11, 12, "a"⟩, ⟨14, 15, "b"⟩]
    ranges (mergeIntervals (xs ++ ys)) = [(5, 12), (14, 15), (i64Max - 3, i64Max)] ∧
      mergeIntervals (mergeIntervals xs) = mergeIntervals xs ∧
      ranges (mergeIntervals (mergeIntervals xs ++ ys)) = ranges (mergeIntervals (xs ++ ys)) := by
  intro xs ys
  obtain ⟨-, -, -, -, -, hagain, hmore⟩ := merge_intervals_canonical xs ys (by decide) (by decide)
  exact ⟨by decide +kernel, hagain, hmore⟩

end RecentMessages
