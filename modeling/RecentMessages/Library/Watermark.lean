/-
RecentMessages/Library/Watermark.lean

A watermark over numbered items that arrive in ranges and out of order.  The
state is a partial successor function: `next w = some v` says that a range
starting right after `w` and ending at `v` has arrived.  `follow` moves the
watermark over adjacent ranges until none continues it, and fails on a range
that would not move it forward.

* `follow_isSome` — the loop ends, within one round for each possible range end
  and one more;
* `follow_ok` — what it returns is reachable by ranges (`Reaches`) and final;
* `Reaches.cover` — everything the watermark passed lies in a range;
* `le_of_tiled` — a watermark that cannot move is beyond every tiled segment
  whose tiles are all present.
-/
import Mathlib.Algebra.Order.Ring.Int
import Mathlib.Data.List.Basic
import Mathlib.Logic.Relation
import Mathlib.Tactic.Common

namespace Watermark

variable {ε : Type*} (next : ℤ → Option ℤ)

/-- Move the watermark for at most `fuel` rounds; `none` when they do not
suffice. -/
def follow (e : ε) : ℕ → ℤ → Option (Except ε ℤ)
  | 0, _ => none
  | fuel + 1, w =>
    match next w with
    | none => some (.ok w)
    | some v => if v ≤ w then some (.error e) else follow e fuel v

/-- One advance of the watermark. -/
def Advances (w v : ℤ) : Prop := next w = some v ∧ w < v

/-- The watermark gets from `w` to `v` over adjacent ranges. -/
def Reaches (w v : ℤ) : Prop := Relation.ReflTransGen (Advances next) w v

variable {next} {e : ε} {w v : ℤ} {fuel : ℕ}

/-! ### Termination -/

/-- The loop ends: each round uses up a range end above the watermark. -/
theorem follow_isSome {ends : List ℤ} (hends : ∀ w v, next w = some v → v ∈ ends)
    (hfuel : (ends.filter (w < ·)).length < fuel) : (follow next e fuel w).isSome := by
  induction fuel generalizing w with
  | zero => exact absurd hfuel (Nat.not_lt_zero _)
  | succ fuel ih =>
    rw [follow]
    rcases h : next w with - | v
    · rfl
    · by_cases hv : v ≤ w
      · simp [hv]
      · have hvw : w < v := not_le.mp hv
        simp only [hv, ↓reduceIte]
        refine ih (lt_of_lt_of_le ?_ (Nat.lt_succ_iff.mp hfuel))
        -- `v` itself is above `w` but not above `v`
        have hsub : (ends.filter (v < ·)).Sublist (ends.filter (w < ·)) :=
          List.monotone_filter_right _ fun x hx => by
            simp only [decide_eq_true_eq] at hx ⊢
            exact hvw.trans hx
        refine lt_of_le_of_ne hsub.length_le fun heq => ?_
        have hmem : v ∈ ends.filter (w < ·) := by simp [hends w v h, hvw]
        rw [← hsub.eq_of_length heq] at hmem
        simp at hmem

/-- Enough fuel for a list of possible range ends. -/
theorem follow_isSome_length {ends : List ℤ} (hends : ∀ w v, next w = some v → v ∈ ends)
    (w : ℤ) : (follow next e (ends.length + 1) w).isSome :=
  follow_isSome hends (Nat.lt_succ_of_le (List.length_filter_le _ _))

/-! ### What the loop returns -/

/-- The loop stops at a watermark that ranges reach and none continues. -/
theorem follow_ok (h : follow next e fuel w = some (.ok v)) :
    Reaches next w v ∧ next v = none := by
  induction fuel generalizing w with
  | zero => cases h
  | succ fuel ih =>
    rw [follow] at h
    rcases hn : next w with - | u <;> rw [hn] at h
    · cases h
      exact ⟨.refl, hn⟩
    · dsimp only at h
      split at h
      · cases h
      · rename_i hu
        obtain ⟨hreach, hstop⟩ := ih h
        exact ⟨.head ⟨hn, not_le.mp hu⟩ hreach, hstop⟩

theorem Reaches.le (h : Reaches next w v) : w ≤ v := by
  induction h with
  | refl => exact le_rfl
  | tail _ hstep ih => exact ih.trans hstep.2.le

/-- A watermark that no range continues stays. -/
theorem Reaches.eq_of_none (h : Reaches next w v) (hw : next w = none) : v = w := by
  cases h.cases_head with
  | inl heq => exact heq.symm
  | inr hstep =>
    obtain ⟨u, hstep, -⟩ := hstep
    rw [hstep.1] at hw
    cases hw

/-- Everything between the start and the end lies in one of the ranges. -/
theorem Reaches.cover (h : Reaches next w v) {k : ℤ} (hw : w < k) (hv : k ≤ v) :
    ∃ a b, w ≤ a ∧ next a = some b ∧ a < k ∧ k ≤ b := by
  induction h with
  | refl => exact absurd hw (not_lt.mpr hv)
  | @tail a b hreach hstep ih =>
    by_cases hk : k ≤ a
    · exact ih hk
    · exact ⟨a, b, Reaches.le hreach, hstep.1, not_le.mp hk, hv⟩

/-- The watermark only ever stands at its start or at the end of a range. -/
theorem Reaches.eq_or_end (h : Reaches next w v) : v = w ∨ ∃ a, next a = some v := by
  cases h with
  | refl => exact .inl rfl
  | tail _ hstep => exact .inr ⟨_, hstep.1⟩

/-! ### Tiled segments -/

/-- `tiles` cover exactly the integers after `start` up to `stop`. -/
def Tile (tiles : List (ℤ × ℤ)) (start stop : ℤ) : Prop :=
  ∀ k, start < k ∧ k ≤ stop ↔ ∃ t ∈ tiles, t.1 ≤ k ∧ k ≤ t.2

/-- **A stuck watermark is beyond every segment that has arrived**: it cannot
stop short of the end of a tiled segment when each tile above it is present and
it does not stand inside a tile. -/
theorem le_of_tiled {tiles : List (ℤ × ℤ)} {start stop : ℤ} (htile : Tile tiles start stop)
    (hstart : start ≤ w) (hstuck : next w = none)
    (hpresent : ∀ t ∈ tiles, w < t.2 → next (t.1 - 1) = some t.2)
    (hinside : ∀ t ∈ tiles, ¬ (t.1 ≤ w ∧ w < t.2)) : stop ≤ w := by
  by_contra hlt
  obtain ⟨t, ht, hfirst, hlast⟩ := (htile (w + 1)).mp ⟨by omega, by omega⟩
  have hnot := hinside t ht
  -- the tile that holds `w + 1` starts there, so it continues the watermark
  have heq : t.1 - 1 = w := by omega
  have hnext := hpresent t ht (by omega)
  rw [heq, hstuck] at hnext
  cases hnext

end Watermark
