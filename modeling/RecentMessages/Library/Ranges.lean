/-
RecentMessages/Library/Ranges.lean

Finite unions of closed ranges of a linear order.  A list of ranges is `Separated` if no range is
inverted and some point lies strictly between any two of them, the one that comes first in the
list being below it.  This is a normal form: separated lists with the same points are equal
(`Separated.ext`), because the point behind a range that separates it from the next belongs to
no range (`Separated.exists_gap`).
-/
import Mathlib.Order.Interval.Set.Basic

variable {α : Type*} [LinearOrder α]

/-- The points of ranges, each given by its two ends. -/
def rangePoints (l : List (α × α)) : Set α := {x | ∃ r ∈ l, x ∈ Set.Icc r.1 r.2}

theorem mem_rangePoints_cons {r : α × α} {l : List (α × α)} {x : α} :
    x ∈ rangePoints (r :: l) ↔ x ∈ Set.Icc r.1 r.2 ∨ x ∈ rangePoints l := by
  simp [rangePoints]

/-- Ranges that are not inverted, ascending, with a point between any two. -/
structure Separated (l : List (α × α)) : Prop where
  apart : l.Pairwise fun r s => ∃ x, r.2 < x ∧ x < s.1
  valid : ∀ r ∈ l, r.1 ≤ r.2

namespace Separated

variable {r s : α × α} {l l' : List (α × α)} {x : α}

theorem tail (h : Separated (r :: l)) : Separated l :=
  ⟨(List.pairwise_cons.mp h.apart).2, fun s hs => h.valid s (List.mem_cons_of_mem r hs)⟩

theorem head_mem (h : Separated (r :: l)) : r.1 ∈ rangePoints (r :: l) :=
  mem_rangePoints_cons.mpr (.inl ⟨le_rfl, h.valid r List.mem_cons_self⟩)

/-- The points of later ranges are behind the first range. -/
theorem lt_of_mem_tail (h : Separated (r :: l)) (hx : x ∈ rangePoints l) : r.2 < x := by
  obtain ⟨s, hs, hstart, -⟩ := hx
  obtain ⟨y, hr, hy⟩ := (List.pairwise_cons.mp h.apart).1 s hs
  exact (hr.trans hy).trans_le hstart

/-- The first range starts with the least point. -/
theorem le_of_mem (h : Separated (r :: l)) (hx : x ∈ rangePoints (r :: l)) : r.1 ≤ x := by
  rcases mem_rangePoints_cons.mp hx with hx | hx
  · exact hx.1
  · exact (h.valid r List.mem_cons_self).trans (h.lt_of_mem_tail hx).le

/-- **A gap behind the first range**, before any later point. -/
theorem exists_gap (h : Separated (r :: l)) (hx : x ∈ rangePoints (r :: l)) (hlt : r.2 < x) :
    ∃ y, r.2 < y ∧ y < x ∧ y ∉ rangePoints (r :: l) := by
  have hnot : ∀ {y}, r.2 < y → y ∉ rangePoints l → y ∉ rangePoints (r :: l) := by
    intro y hy hl hmem
    exact hl ((mem_rangePoints_cons.mp hmem).resolve_left fun hr => absurd hr.2 (not_le.mpr hy))
  have hx := (mem_rangePoints_cons.mp hx).resolve_left fun hr => absurd hr.2 (not_le.mpr hlt)
  cases l with
  | nil => exact absurd hx (by rintro ⟨s, ⟨⟩, -⟩)
  | cons s l =>
    -- the point between the first two ranges
    obtain ⟨y, hr, hs⟩ := (List.pairwise_cons.mp h.apart).1 s List.mem_cons_self
    refine ⟨y, hr, hs.trans_le (h.tail.le_of_mem hx), hnot hr fun hy => ?_⟩
    exact absurd (h.tail.le_of_mem hy) (not_le.mpr hs)

/-- Where two lists have the same points, the first range of one ends no later than that of the
other. -/
theorem end_le (h : Separated (r :: l)) (h' : Separated (s :: l')) (hstart : r.1 = s.1)
    (heq : rangePoints (r :: l) = rangePoints (s :: l')) : s.2 ≤ r.2 := by
  by_contra hlt
  rw [not_le] at hlt
  have hend : s.2 ∈ rangePoints (r :: l) := by
    rw [heq]
    exact mem_rangePoints_cons.mpr (.inl ⟨h'.valid s List.mem_cons_self, le_rfl⟩)
  obtain ⟨y, hr, hs, hnot⟩ := h.exists_gap hend hlt
  -- the gap behind the shorter range lies in the longer one
  rw [heq] at hnot
  refine hnot (mem_rangePoints_cons.mpr (.inl ⟨?_, hs.le⟩))
  rw [← hstart]
  exact (h.valid r List.mem_cons_self).trans hr.le

/-- Where two lists have the same points and the same first range, the others have the same
points. -/
theorem tail_subset (h : Separated (r :: l)) (heq : rangePoints (r :: l) = rangePoints (r :: l')) :
    rangePoints l ⊆ rangePoints l' := by
  intro x hx
  have hmem : x ∈ rangePoints (r :: l') := by
    rw [← heq]
    exact mem_rangePoints_cons.mpr (.inr hx)
  refine (mem_rangePoints_cons.mp hmem).resolve_left fun hr => ?_
  exact absurd hr.2 (not_le.mpr (h.lt_of_mem_tail hx))

/-- **Separated ranges are determined by their points.** -/
theorem ext (h : Separated l) (h' : Separated l') (heq : rangePoints l = rangePoints l') :
    l = l' := by
  induction l generalizing l' with
  | nil =>
    cases l' with
    | nil => rfl
    | cons s l' =>
      obtain ⟨r, ⟨⟩, -⟩ : s.1 ∈ rangePoints [] := heq ▸ h'.head_mem
  | cons r l ih =>
    cases l' with
    | nil => obtain ⟨s, ⟨⟩, -⟩ : r.1 ∈ rangePoints [] := heq ▸ h.head_mem
    | cons s l' =>
      have hstart : r.1 = s.1 :=
        le_antisymm (h.le_of_mem (heq ▸ h'.head_mem)) (h'.le_of_mem (heq ▸ h.head_mem))
      have hend : r.2 = s.2 :=
        le_antisymm (h'.end_le h hstart.symm heq.symm) (h.end_le h' hstart heq)
      obtain rfl : r = s := Prod.ext hstart hend
      rw [ih h.tail h'.tail ((h.tail_subset heq).antisymm (h'.tail_subset heq.symm))]

end Separated
