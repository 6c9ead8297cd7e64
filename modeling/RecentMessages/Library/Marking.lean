/-
RecentMessages/Library/Marking.lean

Items that mark earlier ones.  `marks b a` says that an item `b` marks an item `a`
before it, and `marked` pairs every item of a list with whether some later one marks it.

A reader that goes through the list once, marks what it has seen and then adds the new
item computes the same (`marked_append`).
-/
import Mathlib.Data.List.Basic

variable {α : Type*} (marks : α → α → Bool)

/-- Every item, and whether a later one marks it. -/
def marked : List α → List (α × Bool)
  | [] => []
  | a :: l => (a, l.any fun b => marks b a) :: marked l

variable {marks} {a b : α} {l : List α} {i : ℕ} {d : Bool}

@[simp] theorem marked_nil : marked marks [] = [] := rfl

@[simp] theorem map_fst_marked (l : List α) : (marked marks l).map Prod.fst = l := by
  induction l with
  | nil => rfl
  | cons a l ih => rw [marked, List.map_cons, ih]

@[simp] theorem length_marked (l : List α) : (marked marks l).length = l.length := by
  rw [← List.length_map (f := Prod.fst), map_fst_marked]

/-- **A new item** marks items before it, and is not marked. -/
theorem marked_append (l : List α) (b : α) :
    marked marks (l ++ [b]) =
      (marked marks l).map (fun p => (p.1, marks b p.1 || p.2)) ++ [(b, false)] := by
  induction l with
  | nil => rfl
  | cons a l ih =>
    rw [List.cons_append, marked, ih, marked, List.map_cons, List.cons_append]
    congr 2
    simp [Bool.or_comm]

/-- **Which items are marked.** -/
theorem getElem?_marked :
    (marked marks l)[i]? = some (a, d) ↔
      l[i]? = some a ∧ (d = true ↔ ∃ j b, i < j ∧ l[j]? = some b ∧ marks b a = true) := by
  induction l generalizing i with
  | nil => simp
  | cons c l ih =>
    cases i with
    | zero =>
      have hlater : (l.any fun b => marks b c) = true ↔
          ∃ j b, 0 < j ∧ (c :: l)[j]? = some b ∧ marks b c = true := by
        rw [List.any_eq_true]
        constructor
        · rintro ⟨b, hb, hmarks⟩
          obtain ⟨j, hj⟩ := List.mem_iff_getElem?.mp hb
          exact ⟨j + 1, b, Nat.succ_pos j, hj, hmarks⟩
        · rintro ⟨j, b, hpos, hj, hmarks⟩
          cases j with
          | zero => exact absurd hpos (Nat.lt_irrefl 0)
          | succ j => exact ⟨b, List.mem_of_getElem? hj, hmarks⟩
      simp only [marked, List.getElem?_cons_zero, Option.some.injEq, Prod.mk.injEq]
      constructor
      · rintro ⟨rfl, rfl⟩
        exact ⟨rfl, hlater⟩
      · rintro ⟨rfl, hd⟩
        exact ⟨rfl, Bool.eq_iff_iff.mpr (hlater.trans hd.symm)⟩
    | succ i =>
      simp only [marked, List.getElem?_cons_succ]
      rw [ih]
      refine and_congr_right fun _ => ?_
      -- an item behind the first one stands one place further
      have hshift : (∃ j b, i < j ∧ l[j]? = some b ∧ marks b a = true) ↔
          ∃ j b, i + 1 < j ∧ (c :: l)[j]? = some b ∧ marks b a = true := by
        constructor
        · rintro ⟨j, b, hj, hb, hmarks⟩
          exact ⟨j + 1, b, Nat.succ_lt_succ hj, hb, hmarks⟩
        · rintro ⟨j, b, hj, hb, hmarks⟩
          cases j with
          | zero => exact absurd hj (Nat.not_lt_zero _)
          | succ j => exact ⟨j, b, Nat.lt_of_succ_lt_succ hj, hb, hmarks⟩
      rw [hshift]
