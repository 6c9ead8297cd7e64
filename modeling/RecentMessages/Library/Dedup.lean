/-
RecentMessages/Library/Dedup.lean

Deduplication against a set of known keys.  `retainNew key seen l` keeps the
elements of `l` whose key is in neither `seen` nor an earlier element, and returns
the grown set with them: it is a `retain` whose predicate is the insertion into
the set.

The kept elements have distinct keys (`nodup_retainNew`), and the grown set has
the keys of `seen` and of `l` (`retainNew_snd`), so that the kept elements carry
exactly the keys that are new (`mem_keys_retainNew`).
-/
import Mathlib.Data.Finset.Lattice.Lemmas
import Mathlib.Data.List.Nodup
import Mathlib.Data.Finset.Dedup

variable {ρ κ : Type*} [DecidableEq κ] {key : ρ → κ}

/-- Keep the elements with a new key, entering the keys on the way. -/
def retainNew (key : ρ → κ) (seen : Finset κ) : List ρ → List ρ × Finset κ
  | [] => ([], seen)
  | r :: rs =>
    if key r ∈ seen then
      retainNew key seen rs
    else
      let (kept, seen) := retainNew key (insert (key r) seen) rs
      (r :: kept, seen)

theorem retainNew_of_mem {seen : Finset κ} {r : ρ} (h : key r ∈ seen) (rs : List ρ) :
    retainNew key seen (r :: rs) = retainNew key seen rs := by
  rw [retainNew, if_pos h]

theorem retainNew_of_not_mem {seen : Finset κ} {r : ρ} (h : key r ∉ seen) (rs : List ρ) :
    retainNew key seen (r :: rs) =
      (r :: (retainNew key (insert (key r) seen) rs).1,
        (retainNew key (insert (key r) seen) rs).2) := by
  rw [retainNew, if_neg h]

/-- What is kept comes from the list and is new. -/
theorem mem_of_mem_retainNew {seen : Finset κ} {l : List ρ} {r : ρ}
    (h : r ∈ (retainNew key seen l).1) : r ∈ l ∧ key r ∉ seen := by
  induction l generalizing seen with
  | nil => cases h
  | cons q l ih =>
    by_cases hq : key q ∈ seen
    · rw [retainNew_of_mem hq] at h
      exact ⟨List.mem_cons_of_mem q (ih h).1, (ih h).2⟩
    · rw [retainNew_of_not_mem hq] at h
      rcases List.mem_cons.mp h with rfl | h
      · exact ⟨List.mem_cons_self, hq⟩
      · obtain ⟨hr, hnew⟩ := ih h
        exact ⟨List.mem_cons_of_mem q hr, fun hmem => hnew (Finset.mem_insert_of_mem hmem)⟩

/-- **The grown set** has the keys of the list. -/
theorem retainNew_snd (seen : Finset κ) (l : List ρ) :
    (retainNew key seen l).2 = seen ∪ (l.map key).toFinset := by
  induction l generalizing seen with
  | nil => simp [retainNew]
  | cons q l ih =>
    by_cases hq : key q ∈ seen
    · rw [retainNew_of_mem hq, ih]
      ext k
      simp only [Finset.mem_union, List.map_cons, List.toFinset_cons, Finset.mem_insert]
      constructor
      · exact fun h => h.imp_right .inr
      · rintro (h | rfl | h)
        · exact .inl h
        · exact .inl hq
        · exact .inr h
    · rw [retainNew_of_not_mem hq]
      show (retainNew key (insert (key q) seen) l).2 = _
      rw [ih, List.map_cons, List.toFinset_cons, Finset.insert_union, Finset.union_insert]

/-- **The keys that are kept** are those of the list that are new. -/
theorem mem_keys_retainNew {seen : Finset κ} {l : List ρ} {k : κ} :
    k ∈ (retainNew key seen l).1.map key ↔ k ∈ l.map key ∧ k ∉ seen := by
  constructor
  · intro h
    obtain ⟨r, hr, rfl⟩ := List.mem_map.mp h
    obtain ⟨hmem, hnew⟩ := mem_of_mem_retainNew hr
    exact ⟨List.mem_map_of_mem hmem, hnew⟩
  · rintro ⟨h, hnew⟩
    induction l generalizing seen with
    | nil => cases h
    | cons q l ih =>
      by_cases hq : key q ∈ seen
      · have hne : k ≠ key q := fun heq => hnew (heq ▸ hq)
        rw [retainNew_of_mem hq]
        exact ih ((List.mem_cons.mp h).resolve_left hne) hnew
      · rw [retainNew_of_not_mem hq, List.map_cons, List.mem_cons]
        by_cases hk : k = key q
        · exact .inl hk
        · have hmem : k ∈ l.map key := (List.mem_cons.mp h).resolve_left hk
          exact .inr (ih hmem fun hins => (Finset.mem_insert.mp hins).elim hk hnew)

/-- The kept elements have distinct keys. -/
theorem nodup_retainNew (seen : Finset κ) (l : List ρ) :
    ((retainNew key seen l).1.map key).Nodup := by
  induction l generalizing seen with
  | nil => exact List.nodup_nil
  | cons q l ih =>
    by_cases hq : key q ∈ seen
    · rw [retainNew_of_mem hq]
      exact ih seen
    · rw [retainNew_of_not_mem hq, List.map_cons, List.nodup_cons]
      refine ⟨fun h => ?_, ih _⟩
      exact (mem_keys_retainNew.mp h).2 (Finset.mem_insert_self _ _)

theorem length_retainNew_le (seen : Finset κ) (l : List ρ) :
    (retainNew key seen l).1.length ≤ l.length := by
  have hkeys : (retainNew key seen l).1.map key ⊆ l.map key :=
    fun _ hk => (mem_keys_retainNew.mp hk).1
  have hlength := ((nodup_retainNew seen l).subperm hkeys).length_le
  rwa [List.length_map, List.length_map] at hlength

/-- The grown set, from the kept elements. -/
theorem retainNew_snd_eq (seen : Finset κ) (l : List ρ) :
    (retainNew key seen l).2 = seen ∪ ((retainNew key seen l).1.map key).toFinset := by
  rw [retainNew_snd]
  ext k
  rw [Finset.mem_union, Finset.mem_union, List.mem_toFinset, List.mem_toFinset, mem_keys_retainNew]
  tauto
