/-
RecentMessages/Library/IndexedList.lean

A list with an index of its keys.  `index k` is the position of the element with
key `k`; the field `index_iff` keeps index and list in step, so that the keys
of the list are pairwise distinct by construction (`nodup_keys`).

`upsert better r` is the deduplicating insertion: an element with a new key is
pushed, one with a known key replaces the element it meets when it is `better`,
and is dropped otherwise.  A list that is built so holds each key once, with the
earliest of its best copies (`Earliest`).
-/
import RecentMessages.Library.Lists
import Mathlib.Logic.Function.Basic

variable {ρ κ : Type*}

/-- A list together with the positions of its keys. -/
structure IndexedList (key : ρ → κ) where
  items : List ρ
  index : κ → Option ℕ
  index_iff : ∀ k i, index k = some i ↔ ∃ r, items[i]? = some r ∧ key r = k

namespace IndexedList

variable {key : ρ → κ}

/-- The empty list. -/
def empty : IndexedList key where
  items := []
  index := fun _ => none
  index_iff := fun _ _ => ⟨nofun, fun ⟨_, h, _⟩ => by cases h⟩

instance : Inhabited (IndexedList key) := ⟨empty⟩

@[simp] theorem items_empty : (empty : IndexedList key).items = [] := rfl

/-- Equal keys are at equal positions. -/
theorem nodup_keys (l : IndexedList key) : (l.items.map key).Nodup := by
  refine List.nodup_iff_getElem?_ne_getElem?.mpr fun i j hij hj heq => ?_
  rw [List.getElem?_map, List.getElem?_map] at heq
  rw [List.length_map] at hj
  obtain ⟨r, hr⟩ : ∃ r, l.items[j]? = some r := ⟨_, List.getElem?_eq_getElem hj⟩
  rw [hr, Option.map_some, Option.map_eq_some_iff] at heq
  obtain ⟨q, hq, hkey⟩ := heq
  have hi := (l.index_iff (key r) i).mpr ⟨q, hq, hkey⟩
  have hj := (l.index_iff (key r) j).mpr ⟨r, hr, rfl⟩
  exact Nat.ne_of_lt hij (Option.some.inj (hi.symm.trans hj))

/-- A key is indexed exactly when some element has it. -/
theorem index_ne_none {l : IndexedList key} {k : κ} :
    l.index k ≠ none ↔ k ∈ l.items.map key := by
  rw [Option.ne_none_iff_exists', List.mem_map]
  constructor
  · rintro ⟨i, hi⟩
    obtain ⟨r, hr, hk⟩ := (l.index_iff k i).mp hi
    exact ⟨r, List.mem_of_getElem? hr, hk⟩
  · rintro ⟨r, hr, hk⟩
    obtain ⟨i, hi⟩ := List.getElem?_of_mem hr
    exact ⟨i, (l.index_iff k i).mpr ⟨r, hi, hk⟩⟩

section

variable [DecidableEq κ]

/-- Append an element with a new key. -/
def push (l : IndexedList key) (r : ρ) (h : l.index (key r) = none) : IndexedList key where
  items := l.items ++ [r]
  index := Function.update l.index (key r) (some l.items.length)
  index_iff := by
    intro k i
    rcases eq_or_ne k (key r) with rfl | hk
    · rw [Function.update_self, Option.some.injEq]
      constructor
      · rintro rfl
        exact ⟨r, by simp, rfl⟩
      · rintro ⟨q, hq, hkey⟩
        by_contra hne
        have hlt : i < l.items.length := by
          have hi := (List.getElem?_eq_some_iff.mp hq).1
          rw [List.length_append, List.length_singleton] at hi
          omega
        rw [List.getElem?_append_left hlt] at hq
        rw [(l.index_iff (key r) i).mpr ⟨q, hq, hkey⟩] at h
        cases h
    · rw [Function.update_of_ne hk, l.index_iff]
      constructor
      · rintro ⟨q, hq, hkey⟩
        have hlt := (List.getElem?_eq_some_iff.mp hq).1
        exact ⟨q, by rw [List.getElem?_append_left hlt]; exact hq, hkey⟩
      · rintro ⟨q, hq, hkey⟩
        refine ⟨q, ?_, hkey⟩
        rcases Nat.lt_or_ge i l.items.length with hlt | hge
        · rwa [List.getElem?_append_left hlt] at hq
        · rw [List.getElem?_append_right hge, List.getElem?_singleton] at hq
          split at hq
          · cases hq
            exact absurd hkey.symm hk
          · cases hq

/-- Put an element in the place of one with the same key. -/
def set (l : IndexedList key) (i : ℕ) (r : ρ) (h : l.index (key r) = some i) :
    IndexedList key where
  items := l.items.set i r
  index := l.index
  index_iff := by
    intro k j
    obtain ⟨old, hold, hkey⟩ := (l.index_iff (key r) i).mp h
    rw [l.index_iff]
    rcases eq_or_ne i j with rfl | hij
    · have hlt := (List.getElem?_eq_some_iff.mp hold).1
      rw [List.getElem?_set_self hlt]
      simp [hold, hkey]
    · rw [List.getElem?_set_ne hij]

/-- Insert an element unless its key is known and it is not better than the
element that has it. -/
def upsert (better : ρ → ρ → Bool) (l : IndexedList key) (r : ρ) : IndexedList key :=
  match h : l.index (key r) with
  | none => l.push r h
  | some i =>
    match l.items[i]? with
    | none => l
    | some old => if better r old then l.set i r h else l

variable {better : ρ → ρ → Bool}

theorem items_upsert_of_none {l : IndexedList key} {r : ρ} (h : l.index (key r) = none) :
    (l.upsert better r).items = l.items ++ [r] := by
  unfold upsert
  split
  · rfl
  · rename_i i hi
    rw [h] at hi
    cases hi

/-- With a known key, `upsert` replaces the element that has it if `r` is better, and
keeps the list otherwise. -/
theorem upsert_of_some (better : ρ → ρ → Bool) {l : IndexedList key} {r : ρ} {i : ℕ}
    (h : l.index (key r) = some i) : ∃ old, l.items[i]? = some old ∧ key old = key r ∧
      ((better r old = true ∧ (l.upsert better r).items = l.items.set i r) ∨
        (better r old = false ∧ (l.upsert better r).items = l.items)) := by
  obtain ⟨old, hold, hkey⟩ := (l.index_iff (key r) i).mp h
  refine ⟨old, hold, hkey, ?_⟩
  unfold upsert
  split
  · rename_i hn
    rw [h] at hn
    cases hn
  · rename_i j hj
    obtain rfl := Option.some.inj (h.symm.trans hj)
    rw [hold]
    cases hbetter : better r old with
    | true => exact .inl ⟨rfl, by simp [hbetter, set]⟩
    | false => exact .inr ⟨rfl, by simp [hbetter]⟩

theorem items_upsert_of_better {l : IndexedList key} {r old : ρ} {i : ℕ}
    (h : l.index (key r) = some i) (hold : l.items[i]? = some old) (hbetter : better r old = true) :
    (l.upsert better r).items = l.items.set i r := by
  obtain ⟨q, hq, -, ⟨-, heq⟩ | ⟨hfalse, -⟩⟩ := upsert_of_some better h
  · exact heq
  · obtain rfl := Option.some.inj (hold.symm.trans hq)
    rw [hbetter] at hfalse
    cases hfalse

theorem items_upsert_of_not_better {l : IndexedList key} {r old : ρ} {i : ℕ}
    (h : l.index (key r) = some i) (hold : l.items[i]? = some old)
    (hworse : better r old = false) : (l.upsert better r).items = l.items := by
  obtain ⟨q, hq, -, ⟨htrue, -⟩ | ⟨-, heq⟩⟩ := upsert_of_some better h
  · obtain rfl := Option.some.inj (hold.symm.trans hq)
    rw [hworse] at htrue
    cases htrue
  · exact heq

theorem items_upsert_of_some (better : ρ → ρ → Bool) {l : IndexedList key} {r : ρ} {i : ℕ}
    (h : l.index (key r) = some i) :
    (l.upsert better r).items = l.items ∨ (l.upsert better r).items = l.items.set i r := by
  obtain ⟨old, -, -, ⟨-, heq⟩ | ⟨-, heq⟩⟩ := upsert_of_some better h
  · exact .inr heq
  · exact .inl heq

/-- Known keys keep their places. -/
theorem keys_upsert_of_some {l : IndexedList key} {r : ρ} {i : ℕ}
    (h : l.index (key r) = some i) :
    (l.upsert better r).items.map key = l.items.map key := by
  rcases items_upsert_of_some better h with heq | heq
  · rw [heq]
  · obtain ⟨old, hold, hkey⟩ := (l.index_iff (key r) i).mp h
    rw [heq, map_set_of_eq hold hkey.symm]

theorem mem_keys_upsert {l : IndexedList key} {r : ρ} {k : κ} :
    k ∈ (l.upsert better r).items.map key ↔ k ∈ l.items.map key ∨ k = key r := by
  rcases h : l.index (key r) with - | i
  · rw [items_upsert_of_none h]
    simp
  · rw [keys_upsert_of_some h]
    refine ⟨.inl, fun hk => hk.elim id fun hk => ?_⟩
    rw [hk, ← index_ne_none, h]
    exact Option.some_ne_none i

/-- `upsert` invents no element. -/
theorem mem_of_mem_upsert {l : IndexedList key} {r q : ρ}
    (h : q ∈ (l.upsert better r).items) : q ∈ l.items ∨ q = r := by
  rcases hi : l.index (key r) with - | i
  · rw [items_upsert_of_none hi] at h
    simpa using h
  · rcases items_upsert_of_some better hi with heq | heq <;> rw [heq] at h
    · exact .inl h
    · exact List.mem_or_eq_of_mem_set h

/-- **What is inserted is covered**, and what was there stays covered: for a relation
`le` that `better` decides on equal keys, some element with the key is above. -/
theorem covered_upsert {le : ρ → ρ → Prop} (hrefl : ∀ r, le r r)
    (hbetter : ∀ r q, key r = key q → better r q = true → le q r)
    (hworse : ∀ r q, key r = key q → better r q = false → le r q) {l : IndexedList key} {r q : ρ}
    (hq : q ∈ l.items ∨ q = r) : ∃ q' ∈ (l.upsert better r).items, key q' = key q ∧ le q q' := by
  rcases hi : l.index (key r) with - | i
  · rw [items_upsert_of_none hi]
    exact ⟨q, by simpa using hq, rfl, hrefl q⟩
  · obtain ⟨old, hold, hkey, ⟨htrue, heq⟩ | ⟨hfalse, heq⟩⟩ := upsert_of_some better hi
    · have hlt := (List.getElem?_eq_some_iff.mp hold).1
      rw [heq]
      have hr : r ∈ l.items.set i r := List.mem_set hlt r
      rcases hq with hq | rfl
      · obtain ⟨j, hj⟩ := List.getElem?_of_mem hq
        by_cases hij : i = j
        · -- the element that is replaced
          subst hij
          obtain rfl : old = q := Option.some.inj (hold.symm.trans hj)
          exact ⟨r, hr, hkey.symm, hbetter r old hkey.symm htrue⟩
        · refine ⟨q, List.mem_of_getElem? (i := j) ?_, rfl, hrefl q⟩
          rw [List.getElem?_set_ne hij]
          exact hj
      · exact ⟨q, hr, rfl, hrefl q⟩
    · rw [heq]
      rcases hq with hq | rfl
      · exact ⟨q, hq, rfl, hrefl q⟩
      · exact ⟨old, List.mem_of_getElem? hold, hkey, hworse q old hkey.symm hfalse⟩

/-! ### Inserting a list -/

/-- Insert the elements of a list one after the other. -/
def upsertAll (better : ρ → ρ → Bool) (l : IndexedList key) (rs : List ρ) : IndexedList key :=
  rs.foldl (upsert better) l

theorem mem_keys_upsertAll {l : IndexedList key} {rs : List ρ} {k : κ} :
    k ∈ (l.upsertAll better rs).items.map key ↔ k ∈ l.items.map key ∨ k ∈ rs.map key := by
  induction rs generalizing l with
  | nil => simp [upsertAll]
  | cons r rs ih =>
    show k ∈ ((l.upsert better r).upsertAll better rs).items.map key ↔ _
    rw [ih, mem_keys_upsert, List.map_cons, List.mem_cons, or_assoc]

theorem mem_of_mem_upsertAll {l : IndexedList key} {rs : List ρ} {q : ρ}
    (h : q ∈ (l.upsertAll better rs).items) : q ∈ l.items ∨ q ∈ rs := by
  induction rs generalizing l with
  | nil => exact .inl h
  | cons r rs ih =>
    rcases ih (l := l.upsert better r) h with hq | hq
    · rcases mem_of_mem_upsert hq with hq | rfl
      · exact .inl hq
      · exact .inr List.mem_cons_self
    · exact .inr (List.mem_cons_of_mem r hq)

end

end IndexedList

/-! ### The earliest of the best -/

/-- **One copy of each key**: `m` has the keys of `S`, each with the earliest of its copies of
the highest rank. -/
structure Earliest {φ : Type*} [LinearOrder φ] (key : ρ → κ) (rank : ρ → φ) (S m : List ρ) :
    Prop where
  nodup : (m.map key).Nodup
  keys : ∀ k, k ∈ m.map key ↔ k ∈ S.map key
  first : ∀ r ∈ m, ∃ before after, S = before ++ r :: after ∧
    (∀ q ∈ before, key q = key r → rank q < rank r) ∧
    ∀ q ∈ after, key q = key r → rank q ≤ rank r

namespace Earliest

variable {φ : Type*} [LinearOrder φ] {key : ρ → κ} {rank : ρ → φ} {S m : List ρ}

theorem nil : Earliest key rank [] [] where
  nodup := List.nodup_nil
  keys := fun _ => Iff.rfl
  first := by rintro r ⟨⟩

theorem subset (h : Earliest key rank S m) : m ⊆ S := by
  intro r hr
  obtain ⟨before, after, rfl, -, -⟩ := h.first r hr
  exact List.mem_append_right before List.mem_cons_self

theorem best (h : Earliest key rank S m) {r q : ρ} (hr : r ∈ m) (hq : q ∈ S)
    (hkey : key q = key r) : rank q ≤ rank r := by
  obtain ⟨before, after, rfl, hbefore, hafter⟩ := h.first r hr
  rcases List.mem_append.mp hq with hq | hq
  · exact (hbefore q hq hkey).le
  · rcases List.mem_cons.mp hq with rfl | hq
    · exact le_rfl
    · exact hafter q hq hkey

/-- **Deduplicating insertion** keeps the earliest of the best, if a copy is better exactly
when it ranks above. -/
theorem upsert [DecidableEq κ] {better : ρ → ρ → Bool}
    (hbetter : ∀ r q, key r = key q → (better r q = true ↔ rank q < rank r))
    {l : IndexedList key} (h : Earliest key rank S l.items) (r : ρ) :
    Earliest key rank (S ++ [r]) (l.upsert better r).items := by
  have hnodup := (l.upsert better r).nodup_keys
  -- an element that stays, and that the new copy does not beat
  have hstay : ∀ q ∈ l.items, (key r = key q → rank r ≤ rank q) →
      ∃ before after, S ++ [r] = before ++ q :: after ∧
        (∀ p ∈ before, key p = key q → rank p < rank q) ∧
        ∀ p ∈ after, key p = key q → rank p ≤ rank q := by
    intro q hq hnot
    obtain ⟨before, after, rfl, hbefore, hafter⟩ := h.first q hq
    refine ⟨before, after ++ [r], by simp, hbefore, fun p hp => ?_⟩
    rcases List.mem_append.mp hp with hp | hp
    · exact hafter p hp
    · rw [List.mem_singleton.mp hp]
      exact hnot
  -- the new copy comes last, so it must beat all others
  have hcomes : (∀ q ∈ S, key q = key r → rank q < rank r) →
      ∃ before after, S ++ [r] = before ++ r :: after ∧
        (∀ p ∈ before, key p = key r → rank p < rank r) ∧
        ∀ p ∈ after, key p = key r → rank p ≤ rank r :=
    fun hbeats => ⟨S, [], rfl, hbeats, by rintro p ⟨⟩⟩
  refine ⟨hnodup, fun k => ?_, fun q hq => ?_⟩
  · rw [IndexedList.mem_keys_upsert, h.keys, List.map_append, List.mem_append]
    simp
  · rcases hindex : l.index (key r) with - | i
    · have hfresh : key r ∉ S.map key := by
        rw [← h.keys, ← IndexedList.index_ne_none, not_not]
        exact hindex
      rw [IndexedList.items_upsert_of_none hindex] at hq
      rcases List.mem_append.mp hq with hq | hq
      · refine hstay q hq fun hkey => absurd ?_ hfresh
        rw [hkey]
        exact List.mem_map_of_mem (h.subset hq)
      · rw [List.mem_singleton.mp hq]
        exact hcomes fun p hp hkey => absurd (hkey ▸ List.mem_map_of_mem hp) hfresh
    · obtain ⟨old, hold, hkey, ⟨htrue, heq⟩ | ⟨hfalse, heq⟩⟩ :=
        IndexedList.upsert_of_some better hindex
      · -- the copy that had the key makes way
        have hlt := (hbetter r old hkey.symm).mp htrue
        by_cases hsame : key r = key q
        · have hr : r ∈ (l.upsert better r).items := by
            rw [heq]
            exact List.mem_set (List.getElem?_eq_some_iff.mp hold).1 r
          obtain rfl := List.inj_on_of_nodup_map hnodup hr hq hsame
          exact hcomes fun p hp hp' =>
            (h.best (List.mem_of_getElem? hold) hp (hp'.trans hkey.symm)).trans_lt hlt
        · rw [heq] at hq
          rcases List.mem_or_eq_of_mem_set hq with hq | rfl
          · exact hstay q hq fun hc => absurd hc hsame
          · exact absurd rfl hsame
      · rw [heq] at hq
        refine hstay q hq fun hsame => ?_
        obtain rfl := List.inj_on_of_nodup_map l.nodup_keys (List.mem_of_getElem? hold) hq
          (hkey.trans hsame)
        refine not_lt.mp fun hlt => ?_
        rw [(hbetter r old hsame).mpr hlt] at hfalse
        cases hfalse

end Earliest
