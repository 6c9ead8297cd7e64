/-
RecentMessages/Library/Extents.lean

Pieces of a sequence that only grows at its end.  An `Extent` names the elements from an offset
on; it is read with `slice`.  Rows of a table, each with an extent, are `Packed` into a sequence
when their extents lie inside it and apart from each other.

* `Packed.concat` — a row for what is put behind the sequence;
* `Packed.subset`, `Packed.room` — rows may go, and so may what lies behind all of them;
* `slice_append`, `slice_take`, `slice_end` — what is read stays, and what is written is read.
-/
import Mathlib.Data.List.Basic
import Mathlib.Data.List.TakeDrop

/-- `size` elements from `offset` on. -/
structure Extent where
  offset : ℕ
  size : ℕ
  deriving DecidableEq, Repr

namespace Extent

variable {α ρ : Type*} {data more : List α} {e : Extent} {n : ℕ}

/-- The first position behind it. -/
def stop (e : Extent) : ℕ := e.offset + e.size

/-- Two extents without a common position. -/
def Apart (a b : Extent) : Prop := a.stop ≤ b.offset ∨ b.stop ≤ a.offset

theorem Apart.symm {a b : Extent} (h : Apart a b) : Apart b a := Or.symm h

/-- The elements of an extent. -/
def slice (data : List α) (e : Extent) : List α := (data.drop e.offset).take e.size

/-- Elements that come later change nothing. -/
theorem slice_append (h : e.stop ≤ data.length) : slice (data ++ more) e = slice data e := by
  rw [stop] at h
  rw [slice, slice, List.drop_append_of_le_length (by omega),
    List.take_append_of_le_length (by rw [List.length_drop]; omega)]

/-- Elements behind an extent may go. -/
theorem slice_take (h : e.stop ≤ n) : slice (data.take n) e = slice data e := by
  rw [stop] at h
  rw [slice, slice, List.drop_take, List.take_take, Nat.min_eq_left (by omega)]

/-- What is put behind a sequence is read there. -/
theorem slice_end (data new : List α) : slice (data ++ new) ⟨data.length, new.length⟩ = new := by
  rw [slice, List.drop_left, List.take_length]

/-! ### Rows with extents -/

/-- Rows with extents that lie in a sequence of length `n`, apart from each other. -/
structure Packed (extent : ρ → Extent) (rows : ρ → Prop) (n : ℕ) : Prop where
  inside : ∀ r, rows r → (extent r).stop ≤ n
  apart : ∀ r s, rows r → rows s → r ≠ s → Apart (extent r) (extent s)

variable {extent : ρ → Extent} {rows rows' : ρ → Prop} {m : ℕ}

/-- Fewer rows. -/
theorem Packed.subset (h : Packed extent rows n) (hrows : ∀ r, rows' r → rows r) :
    Packed extent rows' n where
  inside r hr := h.inside r (hrows r hr)
  apart r s hr hs := h.apart r s (hrows r hr) (hrows s hs)

/-- Another length that has room for all rows. -/
theorem Packed.room (h : Packed extent rows n) (hroom : ∀ r, rows r → (extent r).stop ≤ m) :
    Packed extent rows m := ⟨hroom, h.apart⟩

/-- **A row that comes behind all others.** -/
theorem Packed.concat (h : Packed extent rows n) {new : ρ}
    (hrows : ∀ r, rows' r → rows r ∨ r = new) (hoffset : (extent new).offset = n)
    (hstop : (extent new).stop = m) : Packed extent rows' m := by
  have hle : n ≤ m := by
    rw [← hstop, ← hoffset]
    exact Nat.le_add_right _ _
  have hbefore : ∀ r, rows r → Apart (extent r) (extent new) :=
    fun r hr => .inl (hoffset ▸ h.inside r hr)
  constructor
  · intro r hr
    rcases hrows r hr with hold | rfl
    · exact Nat.le_trans (h.inside r hold) hle
    · exact Nat.le_of_eq hstop
  · intro r s hr hs hne
    rcases hrows r hr with hr | rfl <;> rcases hrows s hs with hs | rfl
    · exact h.apart r s hr hs hne
    · exact hbefore r hr
    · exact (hbefore s hs).symm
    · exact absurd rfl hne

end Extent
