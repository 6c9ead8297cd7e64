/-
RecentMessages/Library/Condense.lean

The newest elements of a collection with copies.  Elements that have one key are copies of
one thing; they share their place in an order, and one copy may rank above another.
A list condenses a collection `S` to `n` elements if it holds, in order, the `n` newest
things of `S` with a best copy of each (`Condenses`).

All lists that condense `S` show the same keys and ranks (`Condenses.unique`).  A part of
`S` may be condensed before it is put together with another part, since what is dropped
there is among the newest nowhere (`Condenses.append`).
-/
import RecentMessages.Library.Ranking
import RecentMessages.Library.IndexedList

variable {ρ κ ω φ : Type*} [DecidableEq κ] [LinearOrder ω]

/-! ### Counting what is newer -/

section Newest

variable {α : Type*} [DecidableEq α]

/-- The elements of a set with fewer than `n` newer ones. -/
def newestOf (K : Finset α) (place : α → ω) (n : ℕ) : Finset α :=
  K.filter fun k => (K.filter fun k' => place k < place k').card < n

/-- **There are `n` newest elements** if there are `n` elements. -/
theorem le_card_newestOf {K : Finset α} (place : α → ω) {n : ℕ} (h : n ≤ K.card) :
    n ≤ (newestOf K place n).card := by
  have hperm : (sortByKey place K.toList).Perm K.toList := sortByKey_perm _
  have hnodup : (sortByKey place K.toList).Nodup := hperm.nodup_iff.mpr K.nodup_toList
  have hlength : (takeNewest n (sortByKey place K.toList)).length = n := by
    rw [takeNewest, List.length_drop, hperm.length_eq, Finset.length_toList]
    omega
  have hsubset : (takeNewest n (sortByKey place K.toList)).toFinset ⊆ newestOf K place n := by
    intro k hk
    rw [List.mem_toFinset] at hk
    have hmem : k ∈ K := by
      simpa using mem_of_mem_takeNewest hk
    refine Finset.mem_filter.mpr ⟨hmem, ?_⟩
    have hcount := countP_lt_of_mem_takeNewest (sortByKey_sorted _) hk
    rw [hperm.countP_eq, List.countP_eq_length_filter] at hcount
    have hcard := List.toFinset_card_le (K.toList.filter fun k' => decide (place k < place k'))
    rw [List.toFinset_filter, Finset.toList_toFinset] at hcard
    simpa using hcard.trans_lt hcount
  calc n = (takeNewest n (sortByKey place K.toList)).toFinset.card := by
        rw [List.toFinset_card_of_nodup (hnodup.sublist (takeNewest_sublist _ _)), hlength]
    _ ≤ (newestOf K place n).card := Finset.card_le_card hsubset

end Newest

variable (key : ρ → κ) (place : ρ → ω)

/-- The keys of the elements that are newer than `x`. -/
def newerKeys (S : List ρ) (x : ω) : Finset κ :=
  ((S.filter fun r => x < place r).map key).toFinset

/-- Copies share their place, and different things have different places. -/
def Coherent (S : List ρ) : Prop := ∀ r ∈ S, ∀ q ∈ S, key r = key q ↔ place r = place q

variable {key place} {S S' m m' l : List ρ} {n : ℕ}

theorem mem_newerKeys {x : ω} {k : κ} :
    k ∈ newerKeys key place S x ↔ ∃ r ∈ S, x < place r ∧ key r = k := by
  simp [newerKeys, and_assoc]

theorem newerKeys_subset (hsub : ∀ r ∈ l, r ∈ S) (x : ω) :
    newerKeys key place l x ⊆ newerKeys key place S x := by
  intro k hk
  obtain ⟨r, hr, hlt, hkey⟩ := mem_newerKeys.mp hk
  exact mem_newerKeys.mpr ⟨r, hsub r hr, hlt, hkey⟩

omit [DecidableEq κ] [LinearOrder ω] in
theorem Coherent.subset (h : Coherent key place S) (hsub : l ⊆ S) : Coherent key place l :=
  fun r hr q hq => h r (hsub hr) q (hsub hq)

omit [LinearOrder ω] in
/-- Where copies share their place, a key stands for it. -/
theorem Coherent.exists_place (h : Coherent key place S) (hne : S ≠ []) :
    ∃ f : κ → ω, ∀ r ∈ S, f (key r) = place r := by
  obtain ⟨r₀, S₀, -⟩ := List.exists_cons_of_ne_nil hne
  refine ⟨fun k => ((S.find? fun r => key r = k).getD r₀ |> place), fun r hr => ?_⟩
  rcases hfind : S.find? (fun q => key q = key r) with - | q
  · have hnone := List.find?_eq_none.mp hfind r hr
    simp at hnone
  · have hq : key q = key r := by simpa using List.find?_some hfind
    simpa [hfind] using (h q (List.mem_of_find?_eq_some hfind) r hr).mp hq

/-- **If too many are newer**, then as many of them are among the `n` newest of all. -/
theorem le_card_newer_newest (hS : Coherent key place S) {x : ω}
    (h : n ≤ (newerKeys key place S x).card) :
    n ≤ (newerKeys key place
      (S.filter fun r => (newerKeys key place S (place r)).card < n) x).card := by
  rcases eq_or_ne S [] with rfl | hne
  · simpa [newerKeys] using h
  obtain ⟨f, hf⟩ := hS.exists_place hne
  refine (le_card_newestOf f h).trans (Finset.card_le_card fun k hk => ?_)
  obtain ⟨hk, hcard⟩ := Finset.mem_filter.mp hk
  obtain ⟨r, hr, hlt, rfl⟩ := mem_newerKeys.mp hk
  refine mem_newerKeys.mpr ⟨r, List.mem_filter.mpr ⟨hr, decide_eq_true ?_⟩, hlt, rfl⟩
  refine (Finset.card_le_card fun k hk => ?_).trans_lt hcard
  obtain ⟨q, hq, hqlt, rfl⟩ := mem_newerKeys.mp hk
  refine Finset.mem_filter.mpr ⟨mem_newerKeys.mpr ⟨q, hq, hlt.trans hqlt, rfl⟩, ?_⟩
  rwa [hf r hr, hf q hq]

/-! ### Steady keys -/

section Steady

variable (key place) in
/-- The keys that are among the `n` newest whichever copies are compared: fewer than `n`
others have a copy that is newer than one of theirs. -/
def steadyKeys (S : List ρ) (n : ℕ) : Finset κ :=
  (S.map key).toFinset.filter fun k =>
    ∀ r ∈ S, key r = k → ((newerKeys key place S (place r)).erase k).card < n

/-- **Where copies share their place**, there are `n` steady keys if there are `n` keys. -/
theorem Coherent.le_card_steadyKeys (hS : Coherent key place S)
    (h : n ≤ (S.map key).toFinset.card) : n ≤ (steadyKeys key place S n).card := by
  rcases eq_or_ne S [] with rfl | hne
  · simpa [steadyKeys] using h
  obtain ⟨f, hf⟩ := hS.exists_place hne
  refine (le_card_newestOf f h).trans (Finset.card_le_card fun k hk => ?_)
  obtain ⟨hk, hcard⟩ := Finset.mem_filter.mp hk
  refine Finset.mem_filter.mpr ⟨hk, fun r hr hkey => ?_⟩
  refine (Finset.card_le_card fun k' hk' => ?_).trans_lt hcard
  obtain ⟨q, hq, hlt, rfl⟩ := mem_newerKeys.mp (Finset.mem_of_mem_erase hk')
  refine Finset.mem_filter.mpr ⟨List.mem_toFinset.mpr (List.mem_map_of_mem hq), ?_⟩
  rwa [← hkey, hf r hr, hf q hq]

theorem steadyKeys_mono {n' : ℕ} (h : n ≤ n') :
    steadyKeys key place S n ⊆ steadyKeys key place S n' := by
  intro k hk
  obtain ⟨hk, hcard⟩ := Finset.mem_filter.mp hk
  exact Finset.mem_filter.mpr ⟨hk, fun r hr hkey => (hcard r hr hkey).trans_le h⟩

end Steady

/-! ### Condensing -/

variable [LinearOrder φ] (key place) (rank : ρ → φ)

/-- A list that holds a best copy of each thing of `S`. -/
structure Selects (S m : List ρ) : Prop where
  nodup : (m.map key).Nodup
  subset : m ⊆ S
  best : ∀ r ∈ m, ∀ q ∈ S, key q = key r → rank q ≤ rank r
  complete : ∀ q ∈ S, ∃ r ∈ m, key r = key q

/-- A list that holds, in order, the `n` newest things of `S`, with a best copy of each. -/
structure Condenses (n : ℕ) (S m : List ρ) : Prop where
  sorted : m.Pairwise fun a b => place a ≤ place b
  nodup : (m.map key).Nodup
  subset : m ⊆ S
  best : ∀ r ∈ m, ∀ q ∈ S, key q = key r → rank q ≤ rank r
  newest : ∀ r ∈ m, (newerKeys key place S (place r)).card < n
  complete : ∀ q ∈ S, (newerKeys key place S (place q)).card < n → ∃ r ∈ m, key r = key q

variable {key place rank}

omit [DecidableEq κ] in
/-- A list without copies selects itself. -/
theorem selects_self (h : (l.map key).Nodup) : Selects key rank l l where
  nodup := h
  subset := List.Subset.refl l
  best r hr q hq hkey := by
    rw [List.inj_on_of_nodup_map h hq hr hkey]
  complete q hq := ⟨q, hq, rfl⟩

/-- A selection has one element for each key. -/
theorem Selects.length_eq (h : Selects key rank S m) :
    m.length = (S.map key).toFinset.card := by
  rw [← List.length_map key, ← List.toFinset_card_of_nodup h.nodup]
  congr 1
  ext k
  simp only [List.mem_toFinset, List.mem_map]
  constructor
  · rintro ⟨r, hr, rfl⟩
    exact ⟨r, h.subset hr, rfl⟩
  · rintro ⟨q, hq, rfl⟩
    exact h.complete q hq

/-- **What few others are newer than** is among the newest of a selection. -/
theorem Selects.mem_keys_takeNewest (h : Selects key rank S m)
    (hplace : ∀ r ∈ S, ∀ q ∈ S, place r = place q → key r = key q) {r : ρ} (hr : r ∈ m)
    (hlt : ((newerKeys key place S (place r)).erase (key r)).card < n) :
    key r ∈ (takeNewest n (sortByKey place m)).map key := by
  have hcount : (sortByKey place m).countP (fun q => place r < place q) < n := by
    have hnodup : ((m.filter fun q => place r < place q).map key).Nodup :=
      h.nodup.sublist (List.filter_sublist.map key)
    rw [(sortByKey_perm m).countP_eq, List.countP_eq_length_filter,
      ← List.length_map key, ← List.toFinset_card_of_nodup hnodup]
    refine (Finset.card_le_card fun k hk => ?_).trans_lt hlt
    obtain ⟨q, hq, rfl⟩ := List.mem_map.mp (List.mem_toFinset.mp hk)
    obtain ⟨hq, hnewer⟩ := List.mem_filter.mp hq
    refine Finset.mem_erase.mpr ⟨fun hkey => ?_, ?_⟩
    · -- the selection has no other copy
      obtain rfl := List.inj_on_of_nodup_map h.nodup hq hr hkey
      simp at hnewer
    · exact mem_newerKeys.mpr ⟨q, h.subset hq, of_decide_eq_true hnewer, rfl⟩
  obtain ⟨q, hq, hsame⟩ :=
    exists_mem_takeNewest (sortByKey_sorted m) (mem_sortByKey.mpr hr) hcount
  have hqm : q ∈ m := mem_sortByKey.mp (mem_of_mem_takeNewest hq)
  rw [← hplace q (h.subset hqm) r (h.subset hr) hsame]
  exact List.mem_map_of_mem hq

/-- **Deduplicating insertion** of the elements of a list selects from it. -/
theorem selects_upsertAll {better : ρ → ρ → Bool}
    (hbetter : ∀ r q, key r = key q → (better r q = true ↔ rank q < rank r)) (S : List ρ) :
    Selects key rank S ((IndexedList.empty : IndexedList key).upsertAll better S).items := by
  -- an insertion covers what is there, and the new element
  have hstep := @IndexedList.covered_upsert ρ κ key _ better (fun a b => rank a ≤ rank b)
    (fun _ => le_rfl) (fun r q hkey htrue => ((hbetter r q hkey).mp htrue).le) (by
      intro r q hkey hfalse
      refine not_lt.mp fun hlt => ?_
      rw [(hbetter r q hkey).mpr hlt] at hfalse
      cases hfalse)
  -- by induction, the list covers all that was inserted
  have hcovered : ∀ (rs : List ρ) (l : IndexedList key) (q : ρ), q ∈ l.items ∨ q ∈ rs →
      ∃ q' ∈ (l.upsertAll better rs).items, key q' = key q ∧ rank q ≤ rank q' := by
    intro rs
    induction rs with
    | nil => exact fun l q hq => ⟨q, hq.resolve_right List.not_mem_nil, rfl, le_rfl⟩
    | cons r rs ih =>
      intro l q hq
      rw [List.mem_cons, ← or_assoc] at hq
      show ∃ q' ∈ ((l.upsert better r).upsertAll better rs).items, _
      rcases hq with hq | hq
      · obtain ⟨p, hp, hkey, hle⟩ := hstep hq
        obtain ⟨p', hp', hkey', hle'⟩ := ih _ p (.inl hp)
        exact ⟨p', hp', hkey'.trans hkey, hle.trans hle'⟩
      · exact ih _ q (.inr hq)
  have hnodup := ((IndexedList.empty : IndexedList key).upsertAll better S).nodup_keys
  refine ⟨hnodup, fun r hr => ?_, fun r hr q hq hkey => ?_, fun q hq => ?_⟩
  · exact (IndexedList.mem_of_mem_upsertAll hr).resolve_left List.not_mem_nil
  · obtain ⟨p, hp, hpkey, hle⟩ := hcovered S IndexedList.empty q (.inr hq)
    rwa [List.inj_on_of_nodup_map hnodup hp hr (hpkey.trans hkey)] at hle
  · obtain ⟨p, hp, hpkey, -⟩ := hcovered S IndexedList.empty q (.inr hq)
    exact ⟨p, hp, hpkey⟩

/-- **The newest of a selection** condense what it was made from. -/
theorem Selects.condenses (h : Selects key rank S m) (hS : Coherent key place S) (n : ℕ) :
    Condenses key place rank n S (takeNewest n (sortByKey place m)) := by
  -- the elements of `m` that are newer than a place have the keys of those of `S`
  have hcount : ∀ x : ω, (sortByKey place m).countP (fun r => x < place r) =
      (newerKeys key place S x).card := by
    intro x
    have hnodup : ((m.filter fun r => x < place r).map key).Nodup :=
      h.nodup.sublist (List.filter_sublist.map key)
    rw [(sortByKey_perm m).countP_eq, List.countP_eq_length_filter,
      ← List.length_map key, ← List.toFinset_card_of_nodup hnodup]
    congr 1
    ext k
    rw [List.mem_toFinset, List.mem_map, mem_newerKeys]
    constructor
    · rintro ⟨r, hr, rfl⟩
      obtain ⟨hr, hlt⟩ := List.mem_filter.mp hr
      exact ⟨r, h.subset hr, of_decide_eq_true hlt, rfl⟩
    · rintro ⟨q, hq, hlt, rfl⟩
      obtain ⟨r, hr, hkey⟩ := h.complete q hq
      refine ⟨r, List.mem_filter.mpr ⟨hr, decide_eq_true ?_⟩, hkey⟩
      rwa [(hS r (h.subset hr) q hq).mp hkey]
  have hmem : ∀ r ∈ takeNewest n (sortByKey place m), r ∈ m := fun r hr =>
    mem_sortByKey.mp (mem_of_mem_takeNewest hr)
  refine ⟨?_, ?_, fun r hr => h.subset (hmem r hr), fun r hr => h.best r (hmem r hr), ?_, ?_⟩
  · exact (sortByKey_sorted m).sublist (takeNewest_sublist n _)
  · refine List.Nodup.sublist ((takeNewest_sublist n _).map key) ?_
    exact ((sortByKey_perm m).map key).nodup_iff.mpr h.nodup
  · intro r hr
    rw [← hcount]
    exact countP_lt_of_mem_takeNewest (sortByKey_sorted m) hr
  · intro q hq hlt
    obtain ⟨r, hr, hkey⟩ := h.complete q hq
    rw [← (hS r (h.subset hr) q hq).mp hkey, ← hcount] at hlt
    obtain ⟨r', hr', hplace⟩ :=
      exists_mem_takeNewest (sortByKey_sorted m) (mem_sortByKey.mpr hr) hlt
    have hsame := (hS r' (h.subset (hmem r' hr')) r (h.subset hr)).mpr hplace
    exact ⟨r', hr', hsame.trans hkey⟩

/-- **Condensing in steps.**  Parts may be condensed before they are put together. -/
theorem Condenses.append {r : List ρ} (h : Condenses key place rank n S m)
    (h' : Condenses key place rank n S' m') (hS : Coherent key place (S ++ S'))
    (hr : Condenses key place rank n (m ++ m') r) : Condenses key place rank n (S ++ S') r := by
  have hsub : ∀ q ∈ m ++ m', q ∈ S ++ S' := by
    intro q hq
    rcases List.mem_append.mp hq with hq | hq
    · exact List.mem_append_left S' (h.subset hq)
    · exact List.mem_append_right S (h'.subset hq)
  -- what is among the newest of the whole is among the newest of its part
  have hkept : ∀ q ∈ S ++ S', (newerKeys key place (S ++ S') (place q)).card < n →
      ∃ p ∈ m ++ m', key p = key q ∧ rank q ≤ rank p := by
    intro q hq hlt
    rcases List.mem_append.mp hq with hq | hq
    · have hpart : (newerKeys key place S (place q)).card ≤ _ :=
        Finset.card_le_card (newerKeys_subset (fun p hp => List.mem_append_left S' hp) (place q))
      obtain ⟨p, hp, hkey⟩ := h.complete q hq (hpart.trans_lt hlt)
      exact ⟨p, List.mem_append_left m' hp, hkey, h.best p hp q hq hkey.symm⟩
    · have hpart : (newerKeys key place S' (place q)).card ≤ _ :=
        Finset.card_le_card (newerKeys_subset (fun p hp => List.mem_append_right S hp) (place q))
      obtain ⟨p, hp, hkey⟩ := h'.complete q hq (hpart.trans_lt hlt)
      exact ⟨p, List.mem_append_right m hp, hkey, h'.best p hp q hq hkey.symm⟩
  have hnewest : ∀ q ∈ r, (newerKeys key place (S ++ S') (place q)).card < n := by
    intro q hq
    by_contra hge
    have hmany := le_card_newer_newest hS (not_lt.mp hge)
    refine absurd (hr.newest q hq) (not_lt.mpr (hmany.trans (Finset.card_le_card fun k hk => ?_)))
    obtain ⟨p, hp, hlt, rfl⟩ := mem_newerKeys.mp hk
    obtain ⟨hp, hrank⟩ := List.mem_filter.mp hp
    obtain ⟨p', hp', hkey, -⟩ := hkept p hp (of_decide_eq_true hrank)
    refine mem_newerKeys.mpr ⟨p', hp', ?_, hkey⟩
    rwa [(hS p' (hsub p' hp') p hp).mp hkey]
  refine ⟨hr.sorted, hr.nodup, fun q hq => hsub q (hr.subset hq), ?_, hnewest, ?_⟩
  · intro q hq p hp hkey
    have hplace := (hS p hp q (hsub q (hr.subset hq))).mp hkey
    obtain ⟨p', hp', hkey', hle⟩ := hkept p hp (by rw [hplace]; exact hnewest q hq)
    exact hle.trans (hr.best q hq p' hp' (hkey'.trans hkey))
  · intro q hq hlt
    obtain ⟨p, hp, hkey, -⟩ := hkept q hq hlt
    have hpart : (newerKeys key place (m ++ m') (place p)).card ≤ _ :=
      Finset.card_le_card (newerKeys_subset hsub (place p))
    have hplace := (hS p (hsub p hp) q hq).mp hkey
    rw [hplace] at hpart
    obtain ⟨p', hp', hkey'⟩ := hr.complete p hp (by rw [hplace]; exact hpart.trans_lt hlt)
    exact ⟨p', hp', hkey'.trans hkey⟩

/-- **What remains is determined**: two lists that condense the same elements show the
same keys and ranks, in the same order. -/
theorem Condenses.unique (h : Condenses key place rank n S m)
    (h' : Condenses key place rank n S' m') (hsame : ∀ r, r ∈ S ↔ r ∈ S')
    (hS : Coherent key place S) :
    m.map (fun r => (key r, rank r)) = m'.map fun r => (key r, rank r) := by
  have hcard : ∀ x, newerKeys key place S x = newerKeys key place S' x := by
    intro x
    ext k
    simp only [mem_newerKeys, hsame]
  have hinS : ∀ r ∈ m, r ∈ S := fun r hr => h.subset hr
  have hinS' : ∀ r ∈ m', r ∈ S := fun r hr => (hsame r).mpr (h'.subset hr)
  -- each of the two has what the other has
  have hto : ∀ r ∈ m, ∃ r' ∈ m', (place r', key r', rank r') = (place r, key r, rank r) := by
    intro r hr
    obtain ⟨r', hr', hkey⟩ := h'.complete r ((hsame r).mp (hinS r hr)) (by
      rw [← hcard]
      exact h.newest r hr)
    refine ⟨r', hr', ?_⟩
    have hle := h.best r hr r' (hinS' r' hr') hkey
    have hge := h'.best r' hr' r ((hsame r).mp (hinS r hr)) hkey.symm
    rw [(hS r' (hinS' r' hr') r (hinS r hr)).mp hkey, hkey, le_antisymm hle hge]
  have hfrom : ∀ r' ∈ m', ∃ r ∈ m, (place r, key r, rank r) = (place r', key r', rank r') := by
    intro r' hr'
    obtain ⟨r, hr, hkey⟩ := h.complete r' (hinS' r' hr') (by
      rw [hcard]
      exact h'.newest r' hr')
    refine ⟨r, hr, ?_⟩
    have hle := h'.best r' hr' r ((hsame r).mp (hinS r hr)) hkey
    have hge := h.best r hr r' (hinS' r' hr') hkey.symm
    rw [(hS r (hinS r hr) r' (hinS' r' hr')).mp hkey, hkey, le_antisymm hle hge]
  have htriple : m.map (fun r => (place r, key r, rank r)) =
      m'.map fun r => (place r, key r, rank r) := by
    have hnodup : ∀ l : List ρ, (l.map key).Nodup →
        (l.map fun r => (place r, key r, rank r)).Nodup := by
      intro l hl
      refine List.Nodup.of_map (fun t => t.2.1) ?_
      rwa [List.map_map]
    have hsorted : ∀ l : List ρ, (l.Pairwise fun a b => place a ≤ place b) →
        (l.map fun r => (place r, key r, rank r)).Pairwise fun a b => a.1 ≤ b.1 := by
      intro l hl
      exact List.pairwise_map.mpr hl
    refine eq_of_perm_of_sorted ?_ ?_ (hsorted m h.sorted) (hsorted m' h'.sorted)
    · rw [List.perm_ext_iff_of_nodup (hnodup m h.nodup) (hnodup m' h'.nodup)]
      intro t
      simp only [List.mem_map]
      constructor
      · rintro ⟨r, hr, rfl⟩
        exact hto r hr
      · rintro ⟨r, hr, rfl⟩
        exact hfrom r hr
    · intro a ha b hb hab
      obtain ⟨r, hr, rfl⟩ := List.mem_map.mp ha
      obtain ⟨q, hq, rfl⟩ := List.mem_map.mp hb
      have hkey := (hS r (hinS r hr) q (hinS q hq)).mpr hab
      rw [List.inj_on_of_nodup_map h.nodup hr hq hkey]
  have hproj := congrArg (List.map Prod.snd) htriple
  rwa [List.map_map, List.map_map] at hproj
