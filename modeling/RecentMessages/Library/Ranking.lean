/-
RecentMessages/Library/Ranking.lean

Rankings.  A list whose elements have distinct keys has one arrangement by key, so
sorting forgets the order in which the elements came (`sortByKey_eq_of_perm`), and it
commutes with taking an element out (`sortByKey_erase`).

The first `n` of a ranking change little when one element leaves: nothing changes if it
was not among them (`take_erase_of_not_mem`), and otherwise the next one moves up
(`take_erase_of_mem`).  When one is inserted, they depend on the first `n` before only
(`take_orderedInsert_take`).
-/
import RecentMessages.Library.Lists

variable {α β : Type*}

/-! ### Sorting elements with distinct keys -/

section Sorting

variable [LinearOrder β] {key : α → β}

/-- Two arrangements by key of the same elements are one, if no two of them have the same
key. -/
theorem eq_of_perm_of_sorted {l l' : List α} (hperm : l.Perm l')
    (hinj : ∀ a ∈ l, ∀ b ∈ l, key a = key b → a = b)
    (hl : l.Pairwise fun a b => key a ≤ key b) (hl' : l'.Pairwise fun a b => key a ≤ key b) :
    l = l' := by
  refine hperm.eq_of_pairwise (fun a b ha hb hab hba => ?_) hl hl'
  exact hinj a ha b (hperm.mem_iff.mpr hb) (le_antisymm hab hba)

/-- **Sorting forgets the order** of elements with distinct keys. -/
theorem sortByKey_eq_of_perm {l l' : List α} (hperm : l.Perm l')
    (hinj : ∀ a ∈ l, ∀ b ∈ l, key a = key b → a = b) : sortByKey key l = sortByKey key l' := by
  refine eq_of_perm_of_sorted ?_ ?_ (sortByKey_sorted l) (sortByKey_sorted l')
  · exact (sortByKey_perm l).trans (hperm.trans (sortByKey_perm l').symm)
  · intro a ha b hb
    exact hinj a (mem_sortByKey.mp ha) b (mem_sortByKey.mp hb)

/-- **Taking an element out** of a list takes it out of the ranking. -/
theorem sortByKey_erase [DecidableEq α] {l : List α}
    (hinj : ∀ a ∈ l, ∀ b ∈ l, key a = key b → a = b) (d : α) :
    sortByKey key (l.erase d) = (sortByKey key l).erase d := by
  refine eq_of_perm_of_sorted ?_ ?_ (sortByKey_sorted _) ?_
  · exact (sortByKey_perm _).trans ((sortByKey_perm l).erase d).symm
  · intro a ha b hb
    exact hinj a (List.mem_of_mem_erase (mem_sortByKey.mp ha)) b
      (List.mem_of_mem_erase (mem_sortByKey.mp hb))
  · exact (sortByKey_sorted l).sublist List.erase_sublist

end Sorting

/-! ### The first `n` -/

section First

variable [DecidableEq α] {l : List α} {n : ℕ} {d : α}

/-- An element that is not among the first `n` leaves them as they are. -/
theorem take_erase_of_not_mem (h : d ∉ l.take n) : (l.erase d).take n = l.take n := by
  induction l generalizing n with
  | nil => rfl
  | cons a l ih =>
    cases n with
    | zero => rfl
    | succ n =>
      rw [List.take_succ_cons, List.mem_cons, not_or] at h
      rw [List.erase_cons_tail (by simpa using Ne.symm h.1), List.take_succ_cons,
        List.take_succ_cons, ih h.2]

/-- **When one of the first `n` leaves**, the others keep their order and the next
element moves up behind them. -/
theorem take_erase_of_mem (hl : l.Nodup) (h : d ∈ l.take n) (hn : n < l.length) :
    ∃ last ∉ l.take n, (l.erase d).take n = (l.take n).erase d ++ [last] := by
  refine ⟨l[n], fun hmem => ?_, ?_⟩
  · have hsplit := hl
    rw [← List.take_append_drop n l, List.nodup_append] at hsplit
    refine hsplit.2.2 _ hmem _ (List.mem_of_getElem? (i := 0) ?_) rfl
    rw [List.getElem?_drop, Nat.add_zero, List.getElem?_eq_getElem hn]
  · -- `d` stands before position `n`, so what is cut off comes from one further on
    have herase : l.erase d = (l.take n).erase d ++ l.drop n := by
      conv_lhs => rw [← List.take_append_drop n l]
      exact List.erase_append_left _ h
    have hlength : n - ((l.take n).erase d).length = 1 := by
      have hpos := List.length_pos_of_mem h
      rw [List.length_erase_of_mem h]
      rw [List.length_take] at hpos ⊢
      omega
    rw [herase, List.take_append, List.take_of_length_le (by omega), hlength,
      List.drop_eq_getElem_cons hn, List.take_succ_cons, List.take_zero]

end First

/-! ### One element more -/

section Insert

variable {r : α → α → Prop} [DecidableRel r] {s : β → β → Prop} [DecidableRel s]

/-- **The first `n` depend on the first `n`**: what was cut off before an insertion does not come
back. -/
theorem take_orderedInsert_take (n : ℕ) (a : α) (l : List α) :
    ((l.take n).orderedInsert r a).take n = (l.orderedInsert r a).take n := by
  induction l generalizing n with
  | nil => rw [List.take_nil]
  | cons b l ih =>
    cases n with
    | zero => rw [List.take_zero, List.take_zero]
    | succ n =>
      rw [List.take_succ_cons, List.orderedInsert_cons, List.orderedInsert_cons]
      split
      · rw [List.take_succ_cons, List.take_succ_cons]
        congr 1
        cases n with
        | zero => rfl
        | succ n => rw [List.take_succ_cons, List.take_succ_cons, List.take_take, Nat.min_eq_left
            (Nat.le_succ n)]
      · rw [List.take_succ_cons, List.take_succ_cons, ih]

/-- A map that keeps the place of an element commutes with its insertion. -/
theorem map_orderedInsert_of_iff {f : α → β} {a : α} {l : List α}
    (h : ∀ b ∈ l, r a b ↔ s (f a) (f b)) :
    (l.orderedInsert r a).map f = (l.map f).orderedInsert s (f a) := by
  induction l with
  | nil => rfl
  | cons b l ih =>
    rw [List.orderedInsert_cons, List.map_cons, List.orderedInsert_cons,
      ← ih fun c hc => h c (List.mem_cons_of_mem b hc)]
    by_cases hb : r a b
    · rw [if_pos hb, if_pos ((h b List.mem_cons_self).mp hb)]
      rfl
    · rw [if_neg hb, if_neg fun hs => hb ((h b List.mem_cons_self).mpr hs)]
      rfl

end Insert
