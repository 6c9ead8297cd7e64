/-
RecentMessages/Library/Ledger.lean

Queues that are filled at the back and trimmed at the front.  A `Ledger` has the names
of all elements that a queue was ever given and the elements that it still holds;
`append` is its only operation.

If no element weighs more than `most` and the front is trimmed to
`target + most - 1`, then trimming never takes the queue below its target, and never
takes the element that came last: the queue is `Tight` after every append
(`Tight.append`).  The bound may be capped, at a weight above it or one that the queue does
not reach.

A table whose rows are numbered in the order in which they come gives its elements the
names `numbersBelow next`.
-/
import RecentMessages.Library.Queues

variable {ι : Type*}

/-- The names of the elements that a queue was ever given, and the elements that it
holds, with their weights. -/
structure Ledger (ι : Type*) where
  given : List ι
  held : List (ι × ℕ)

namespace Ledger

/-- What the held elements weigh. -/
def total (l : Ledger ι) : ℕ := (l.held.map Prod.snd).sum

/-- The names of the held elements. -/
def names (l : Ledger ι) : List ι := l.held.map Prod.fst

/-- Put elements behind, and drop elements in front while they weigh more than `bound`. -/
def append (bound : ℕ) (l : Ledger ι) (new : List (ι × ℕ)) : Ledger ι where
  given := l.given ++ new.map Prod.fst
  held := trimFront Prod.snd bound (l.held ++ new)

/-- No held element weighs more than `most`. -/
def Sized (most : ℕ) (l : Ledger ι) : Prop := ∀ p ∈ l.held, p.2 ≤ most

/-- **A tight queue**, for elements of weight `most` and a target. -/
structure Tight (most target : ℕ) (l : Ledger ι) : Prop where
  /-- It weighs less than target and one element together. -/
  bounded : l.total ≤ target + most - 1
  /-- What was dropped was given before all that is held. -/
  order : l.names <:+ l.given
  /-- The last element that was given is held. -/
  last : l.names.getLast? = l.given.getLast?
  /-- When anything was dropped, the target is met. -/
  floor : l.names ≠ l.given → target ≤ l.total

/-- At most one append, of elements that weigh at most `most` each and `n` together. -/
def Grows (most bound n : ℕ) (l l' : Ledger ι) : Prop :=
  l' = l ∨ ∃ new, (∀ p ∈ new, p.2 ≤ most) ∧ (new.map Prod.snd).sum ≤ n ∧ l' = l.append bound new

variable {most target bound cap n : ℕ} {l l' : Ledger ι} {new : List (ι × ℕ)}

theorem names_append (bound : ℕ) (l : Ledger ι) (new : List (ι × ℕ)) :
    (l.append bound new).names <:+ l.names ++ new.map Prod.fst := by
  rw [names, names, ← List.map_append]
  exact (trimFront_suffix Prod.snd bound (l.held ++ new)).map Prod.fst

theorem Sized.append (h : l.Sized most) (hnew : ∀ p ∈ new, p.2 ≤ most) :
    (l.append bound new).Sized most := by
  intro p hp
  have hmem : p ∈ l.held ++ new := (trimFront_suffix Prod.snd bound (l.held ++ new)).subset hp
  exact (List.mem_append.mp hmem).elim (h p) (hnew p)

/-- A queue that was never given anything. -/
theorem tight_nil : (⟨[], []⟩ : Ledger ι).Tight most target where
  bounded := Nat.zero_le _
  order := List.suffix_refl _
  last := rfl
  floor := fun h => absurd rfl h

/-- **An append keeps a queue tight**, if the bound is not capped, or the queue does not
weigh more than `cap` before its front is trimmed. -/
theorem Tight.append (hmost : 0 < most) (htarget : 0 < target) (h : l.Tight most target)
    (hsized : l.Sized most) (hnew : ∀ p ∈ new, p.2 ≤ most)
    (hcap : target + most - 1 ≤ cap ∨ l.total + (new.map Prod.snd).sum ≤ cap) :
    (l.append (min (target + most - 1) cap) new).Tight most target := by
  have hall : ∀ p ∈ l.held ++ new, p.2 ≤ most :=
    fun p hp => (List.mem_append.mp hp).elim (hsized p) (hnew p)
  have hsum : ((l.held ++ new).map Prod.snd).sum = l.total + (new.map Prod.snd).sum := by
    rw [List.map_append, List.sum_append, total]
  -- no single element weighs more than the cap, so the last one stays
  have hown : ∀ p ∈ l.held ++ new, p.2 ≤ cap := by
    intro p hp
    rcases hcap with hcap | hcap
    · have hp := hall p hp
      omega
    · exact (List.single_le_sum (fun _ _ => Nat.zero_le _) _ (List.mem_map_of_mem hp)).trans
        (hsum.trans_le hcap)
  constructor
  case bounded => exact (sum_trimFront_le _ _ _).trans (min_le_left _ _)
  case order =>
    refine (names_append _ l new).trans ?_
    obtain ⟨gone, hgone⟩ := h.order
    exact ⟨gone, by rw [← List.append_assoc, hgone]; rfl⟩
  case last =>
    have hlast : (trimFront Prod.snd (min (target + most - 1) cap) (l.held ++ new)).getLast? =
        (l.held ++ new).getLast? := by
      refine getLast?_trimFront fun p hp => ?_
      have hp₁ := hall p hp
      have hp₂ := hown p hp
      omega
    show ((trimFront Prod.snd _ (l.held ++ new)).map Prod.fst).getLast? =
      (l.given ++ new.map Prod.fst).getLast?
    rw [List.getLast?_map, hlast, ← List.getLast?_map, List.map_append, List.getLast?_append,
      List.getLast?_append, ← h.last]
    rfl
  case floor =>
    intro hne
    by_cases hcut : trimFront Prod.snd (min (target + most - 1) cap) (l.held ++ new) =
        l.held ++ new
    · -- nothing is dropped now, so something was dropped before
      have hbefore : l.names ≠ l.given := by
        intro heq
        apply hne
        show (trimFront Prod.snd _ (l.held ++ new)).map Prod.fst = l.given ++ new.map Prod.fst
        rw [hcut, List.map_append, ← heq]
        rfl
      have hfloor := h.floor hbefore
      show target ≤ ((trimFront Prod.snd _ (l.held ++ new)).map Prod.snd).sum
      rw [hcut, hsum]
      omega
    · -- something is dropped, so `cap` is not what the front is trimmed to
      have hlt : min (target + most - 1) cap < ((l.held ++ new).map Prod.snd).sum :=
        Nat.lt_of_not_le fun hle => hcut (trimFront_of_le hle)
      rw [hsum] at hlt
      refine le_sum_trimFront (fun p hp => ?_) hcut
      have hp := hall p hp
      omega

theorem Grows.mono {n' : ℕ} (h : l.Grows most bound n l') (hn : n ≤ n') :
    l.Grows most bound n' l' :=
  h.imp_right fun ⟨new, hnew, hsum, happend⟩ => ⟨new, hnew, hsum.trans hn, happend⟩

/-- **What happens to a queue keeps it tight.** -/
theorem Tight.grows (hmost : 0 < most) (htarget : 0 < target) (h : l.Tight most target)
    (hsized : l.Sized most) (hcap : target + most - 1 ≤ cap ∨ l.total + n ≤ cap)
    (hgrows : l.Grows most (min (target + most - 1) cap) n l') :
    l'.Sized most ∧ l'.Tight most target := by
  rcases hgrows with rfl | ⟨new, hnew, hsum, rfl⟩
  · exact ⟨hsized, h⟩
  · exact ⟨hsized.append hnew, h.append hmost htarget hsized hnew (by omega)⟩

end Ledger

/-! ### The ledger of a table -/

/-- The numbers that were given before `next`. -/
def numbersBelow (next : ℤ) : List ℤ := (List.range next.toNat).map fun n : ℕ => (n : ℤ)

theorem numbersBelow_succ {next : ℤ} (h : 0 ≤ next) :
    numbersBelow (next + 1) = numbersBelow next ++ [next] := by
  have hsucc : (next + 1).toNat = next.toNat + 1 := by omega
  have hcast : (next.toNat : ℤ) = next := Int.toNat_of_nonneg h
  rw [numbersBelow, hsucc, List.range_succ, List.map_append, List.map_singleton, hcast]
  rfl
