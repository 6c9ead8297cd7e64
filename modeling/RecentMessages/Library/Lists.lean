/-
RecentMessages/Library/Lists.lean

List operations of a store.  `sortByKey key` is a stable sort, `takeNewest n`
drops everything but the last `n` elements of a list, `chunks n` cuts a list
into pieces of at most `n` elements.

On a sorted list an element survives `takeNewest n` exactly when fewer than `n`
elements have a larger key (`countP_lt_of_mem_takeNewest`, `exists_mem_takeNewest`),
which turns a statement about positions into one about counting.
-/
import Mathlib.Algebra.GroupWithZero.Nat
import Mathlib.Data.List.Sort
import Mathlib.Data.List.Nodup
import Mathlib.Data.Finset.Card
import Mathlib.Data.Finset.Dedup
import Mathlib.Order.Basic

variable {α β : Type*}

/-! ### Sorting by a key -/

section Sorting

variable [LinearOrder β]

/-- Stable sort by a key, smallest first. -/
def sortByKey (key : α → β) (l : List α) : List α :=
  l.insertionSort fun a b => key a ≤ key b

instance keyLE_total (key : α → β) : Std.Total fun a b => key a ≤ key b :=
  ⟨fun a b => le_total (key a) (key b)⟩

instance keyLE_trans (key : α → β) : IsTrans α fun a b => key a ≤ key b :=
  ⟨fun _ _ _ => le_trans⟩

variable {key : α → β}

theorem sortByKey_perm (l : List α) : (sortByKey key l).Perm l :=
  List.perm_insertionSort _ l

@[simp] theorem mem_sortByKey {l : List α} {a : α} : a ∈ sortByKey key l ↔ a ∈ l :=
  (sortByKey_perm l).mem_iff

@[simp] theorem length_sortByKey (l : List α) : (sortByKey key l).length = l.length :=
  (sortByKey_perm l).length_eq

theorem sortByKey_sorted (l : List α) :
    (sortByKey key l).Pairwise fun a b => key a ≤ key b :=
  List.pairwise_insertionSort _ l

@[simp] theorem sortByKey_nil : sortByKey key ([] : List α) = [] := rfl

end Sorting

/-! ### The newest `n` elements -/

/-- Keep the last `n` elements. -/
def takeNewest (n : ℕ) (l : List α) : List α := l.drop (l.length - n)

theorem takeNewest_sublist (n : ℕ) (l : List α) : (takeNewest n l).Sublist l :=
  List.drop_sublist _ l

theorem mem_of_mem_takeNewest {n : ℕ} {l : List α} {a : α} (h : a ∈ takeNewest n l) :
    a ∈ l := (takeNewest_sublist n l).subset h

theorem length_takeNewest_le (n : ℕ) (l : List α) : (takeNewest n l).length ≤ n := by
  simp only [takeNewest, List.length_drop]; omega

@[simp] theorem takeNewest_zero (l : List α) : takeNewest 0 l = [] := by
  simp [takeNewest]

section Rank

variable [LinearOrder β] {key : α → β}

/-- An element among the newest `n` has fewer than `n` newer ones. -/
theorem countP_lt_of_mem_takeNewest {n : ℕ} {l : List α} {a : α}
    (hs : l.Pairwise fun a b => key a ≤ key b) (h : a ∈ takeNewest n l) :
    l.countP (fun b => key a < key b) < n := by
  have hlen := length_takeNewest_le n l
  obtain ⟨older, newer, hsplit⟩ := List.append_of_mem h
  have hl : l = (l.take (l.length - n) ++ older) ++ a :: newer := by
    rw [List.append_assoc, ← hsplit, takeNewest, List.take_append_drop]
  have hs' := hs
  rw [hl, List.pairwise_append] at hs'
  obtain ⟨-, -, hbefore⟩ := hs'
  -- nothing before `a` is newer
  have hzero : (l.take (l.length - n) ++ older).countP (fun b => key a < key b) = 0 := by
    rw [List.countP_eq_zero]
    intro b hb
    simpa using hbefore b hb a List.mem_cons_self
  rw [hl, List.countP_append, hzero, List.countP_cons_of_neg (by simp), Nat.zero_add]
  have hle := List.countP_le_length (p := fun b => decide (key a < key b)) (l := newer)
  rw [hsplit, List.length_append, List.length_cons] at hlen
  omega

/-- **An element with fewer than `n` newer ones is among the newest `n`**, up to
elements with the same key. -/
theorem exists_mem_takeNewest {n : ℕ} {l : List α} {a : α}
    (hs : l.Pairwise fun a b => key a ≤ key b) (ha : a ∈ l)
    (h : l.countP (fun b => key a < key b) < n) : ∃ b ∈ takeNewest n l, key b = key a := by
  have hl := List.take_append_drop (l.length - n) l
  rw [← hl, List.pairwise_append] at hs
  obtain ⟨-, -, hold⟩ := hs
  rw [← hl, List.mem_append] at ha
  rcases ha with ha | ha
  · by_contra hnone
    -- all of the newest `n` are newer than `a`, so there are too many
    have hall : (takeNewest n l).countP (fun b => key a < key b) = (takeNewest n l).length := by
      rw [List.countP_eq_length]
      intro b hb
      exact decide_eq_true (lt_of_le_of_ne (hold a ha b hb) fun heq => hnone ⟨b, hb, heq.symm⟩)
    have hle := (takeNewest_sublist n l).countP_le (p := fun b => decide (key a < key b))
    have hpos := List.length_pos_of_mem ha
    rw [hall, takeNewest, List.length_drop] at hle
    rw [List.length_take] at hpos
    omega
  · exact ⟨a, ha, rfl⟩

/-- **What is cut off** leaves `n` elements, none of them older. -/
theorem le_of_not_mem_takeNewest {n : ℕ} {l : List α} {a : α}
    (hs : l.Pairwise fun a b => key a ≤ key b) (ha : a ∈ l) (hnot : a ∉ takeNewest n l) :
    n ≤ (takeNewest n l).length ∧ ∀ b ∈ takeNewest n l, key a ≤ key b := by
  have hl := List.take_append_drop (l.length - n) l
  rw [← hl, List.pairwise_append] at hs
  obtain ⟨-, -, hold⟩ := hs
  rw [← hl, List.mem_append] at ha
  have ha := ha.resolve_right hnot
  refine ⟨?_, hold a ha⟩
  have hpos := List.length_pos_of_mem ha
  rw [List.length_take] at hpos
  rw [takeNewest, List.length_drop]
  omega

end Rank

/-! ### Cutting into chunks -/

/-- Cut off `n` elements at a time, at most `fuel` times. -/
def chunksAux (n : ℕ) : ℕ → List α → List (List α)
  | 0, _ => []
  | _ + 1, [] => []
  | fuel + 1, a :: l => (a :: l).take n :: chunksAux n fuel ((a :: l).drop n)

/-- Consecutive pieces of `n` elements, the last one possibly shorter. -/
def chunks (n : ℕ) (l : List α) : List (List α) := chunksAux n l.length l

theorem flatten_chunksAux {n : ℕ} (hn : 0 < n) {fuel : ℕ} {l : List α} (h : l.length ≤ fuel) :
    (chunksAux n fuel l).flatten = l := by
  induction fuel generalizing l with
  | zero => rw [List.length_eq_zero_iff.mp (Nat.le_zero.mp h)]; rfl
  | succ fuel ih =>
    cases l with
    | nil => rfl
    | cons a l =>
      rw [chunksAux, List.flatten_cons, ih, List.take_append_drop]
      rw [List.length_drop]
      omega

/-- The chunks of a list are the list. -/
theorem flatten_chunks {n : ℕ} (hn : 0 < n) (l : List α) : (chunks n l).flatten = l :=
  flatten_chunksAux hn le_rfl

theorem mem_of_mem_chunksAux {n : ℕ} {fuel : ℕ} {l c : List α} (h : c ∈ chunksAux n fuel l) :
    c.length ≤ n ∧ ∀ a ∈ c, a ∈ l := by
  induction fuel generalizing l with
  | zero => cases h
  | succ fuel ih =>
    cases l with
    | nil => cases h
    | cons b l =>
      rcases List.mem_cons.mp h with rfl | hc
      · exact ⟨by rw [List.length_take]; omega, fun a ha => List.mem_of_mem_take ha⟩
      · exact ⟨(ih hc).1, fun a ha => List.mem_of_mem_drop ((ih hc).2 a ha)⟩

theorem mem_of_mem_chunks {n : ℕ} {l c : List α} (h : c ∈ chunks n l) {a : α} (ha : a ∈ c) :
    a ∈ l := (mem_of_mem_chunksAux h).2 a ha

/-! ### Counting images -/

/-- A list with distinct images is no longer than the set of images that covers
them. -/
theorem length_le_card_images [DecidableEq β] {f : α → β} {l l' : List α} (hl : (l.map f).Nodup)
    (h : ∀ a ∈ l, ∃ b ∈ l', f b = f a) : l.length ≤ (l'.map f).toFinset.card := by
  rw [← List.length_map (f := f), ← List.toFinset_card_of_nodup hl]
  refine Finset.card_le_card fun k hk => ?_
  rw [List.mem_toFinset, List.mem_map] at hk ⊢
  obtain ⟨a, ha, rfl⟩ := hk
  exact h a ha

/-! ### Replacing an element -/

/-- Replacing an element by one with the same image leaves the images. -/
theorem map_set_of_eq {f : α → β} {l : List α} {i : ℕ} {a old : α} (h : l[i]? = some old)
    (hf : f a = f old) : (l.set i a).map f = l.map f := by
  have hmap : (l.map f)[i]? = some (f old) := by rw [List.getElem?_map, h, Option.map_some]
  obtain ⟨hlt, hget⟩ := List.getElem?_eq_some_iff.mp hmap
  rw [List.map_set, hf, ← hget, List.set_getElem_self]

/-- Replacing an element changes a sum by the difference. -/
theorem sum_map_set {f : α → ℕ} {l : List α} {i : ℕ} {old : α} (h : l[i]? = some old) (a : α) :
    ((l.set i a).map f).sum + f old = (l.map f).sum + f a := by
  induction l generalizing i with
  | nil => cases h
  | cons b l ih =>
    cases i with
    | zero =>
      obtain rfl : b = old := Option.some.inj h
      rw [List.set_cons_zero, List.map_cons, List.map_cons, List.sum_cons, List.sum_cons]
      omega
    | succ i =>
      have hrest := ih (i := i) h
      rw [List.set_cons_succ, List.map_cons, List.map_cons, List.sum_cons, List.sum_cons]
      omega

/-! ### The last separator -/

/-- What stands behind the last `c` of a list. -/
theorem eq_of_append_cons {c : α} {a a' d d' : List α} (hd : c ∉ d) (hd' : c ∉ d')
    (h : a ++ c :: d = a' ++ c :: d') : d = d' := by
  rcases List.append_eq_append_iff.mp h with ⟨m, -, hm⟩ | ⟨m, -, hm⟩
  · cases m with
    | nil => exact (List.cons.inj hm).2
    | cons x m =>
      rw [List.cons_append] at hm
      exact absurd ((List.cons.inj hm).2 ▸ by simp) hd
  · cases m with
    | nil => exact (List.cons.inj hm).2.symm
    | cons x m =>
      rw [List.cons_append] at hm
      exact absurd ((List.cons.inj hm).2 ▸ by simp) hd'

/-! ### Histories -/

/-- What stands before an element that was added last, and behind another. -/
theorem concat_eq_append_cons {l l₁ l₂ : List α} {e x : α} (h : l ++ [e] = l₁ ++ x :: l₂) :
    l = l₁ ∧ e = x ∧ l₂ = [] ∨ ∃ l₂', l₂ = l₂' ++ [e] ∧ l = l₁ ++ x :: l₂' := by
  rcases List.eq_nil_or_concat l₂ with rfl | ⟨l₂', b, rfl⟩
  · obtain ⟨rfl, heq⟩ := List.append_inj' h rfl
    exact .inl ⟨rfl, (List.cons.inj heq).1, rfl⟩
  · rw [List.concat_eq_append, ← List.cons_append, ← List.append_assoc] at h
    obtain ⟨rfl, heq⟩ := List.append_inj' h rfl
    cases heq
    exact .inr ⟨l₂', List.concat_eq_append .., rfl⟩

/-- Behind an element stands each that it does not stand behind. -/
theorem mem_of_append_cons {l₁ l₂ m₁ m₂ : List α} {x y : α} (hx : x ∉ m₂) (hne : x ≠ y)
    (h : l₁ ++ x :: l₂ = m₁ ++ y :: m₂) : y ∈ l₂ := by
  rcases List.append_eq_append_iff.mp h with ⟨m, -, hm⟩ | ⟨m, -, hm⟩
  · cases m with
    | nil => exact absurd (List.cons.inj hm).1 hne
    | cons z m =>
      rw [(List.cons.inj hm).2]
      exact List.mem_append_right _ List.mem_cons_self
  · cases m with
    | nil => exact absurd (List.cons.inj hm).1.symm hne
    | cons z m =>
      rw [(List.cons.inj hm).2] at hx
      exact absurd (List.mem_append_right _ List.mem_cons_self) hx
