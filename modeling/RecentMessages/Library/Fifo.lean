/-
RecentMessages/Library/Fifo.lean

Queues that forget their oldest elements.

An element that is put into the queue takes the place of the one with its key, and goes to the
back (`pushBack`); then the queue drops elements from the front while it is too long
(`evictFront`).  A history of elements leaves those that no later one with their key follows
(`latest`); pushing is what one more element does to them (`latest_concat`), so that a queue
which only ever pushes and drops holds a sublist of `latest`.
-/
import Mathlib.Data.List.Basic
import Mathlib.Data.List.Nodup

variable {α κ : Type*}

/-! ### Dropping from the front -/

/-- Drop elements from the front while the list is too long. -/
def evictFront (tooLong : List α → Prop) [DecidablePred tooLong] : List α → List α
  | [] => []
  | a :: l => if tooLong (a :: l) then evictFront tooLong l else a :: l

section EvictFront

variable (tooLong : List α → Prop) [DecidablePred tooLong]

theorem evictFront_suffix (l : List α) : evictFront tooLong l <:+ l := by
  induction l with
  | nil => exact List.suffix_refl _
  | cons a l ih =>
    rw [evictFront]
    split
    · exact ih.trans (List.suffix_cons a l)
    · exact List.suffix_refl _

variable {tooLong}

/-- What is left is within the limit. -/
theorem not_tooLong_evictFront (hnil : ¬ tooLong []) (l : List α) :
    ¬ tooLong (evictFront tooLong l) := by
  induction l with
  | nil => exact hnil
  | cons a l ih =>
    rw [evictFront]
    split
    · exact ih
    · assumption

/-- **The last element stays**, if it is within the limit on its own. -/
theorem evictFront_concat {a : α} (h : ¬ tooLong [a]) (l : List α) :
    ∃ l', evictFront tooLong (l ++ [a]) = l' ++ [a] := by
  induction l with
  | nil => exact ⟨[], by simp [evictFront, h]⟩
  | cons b l ih =>
    rw [List.cons_append, evictFront]
    split
    · exact ih
    · exact ⟨b :: l, rfl⟩

end EvictFront

/-! ### Pushing to the back -/

section PushBack

variable [DecidableEq κ] (key : α → κ)

/-- Put an element at the back, in the place of the one with its key. -/
def pushBack (a : α) (l : List α) : List α := l.filter (fun b => key b ≠ key a) ++ [a]

/-- The elements of a history that no later one with their key follows, in order. -/
def latest : List α → List α
  | [] => []
  | a :: l => if ∃ b ∈ l, key b = key a then latest l else a :: latest l

variable {key} {a : α} {l l' : List α}

theorem pushBack_sublist (a : α) (h : l.Sublist l') :
    (pushBack key a l).Sublist (pushBack key a l') :=
  (h.filter _).append_right [a]

/-- A search for another key finds what it found before. -/
theorem find?_pushBack {k : κ} (h : key a ≠ k) (l : List α) :
    (pushBack key a l).find? (fun b => key b = k) = l.find? fun b => key b = k := by
  have hpred : (fun b => decide (decide (key b ≠ key a) = true ∧ decide (key b = k) = true)) =
      fun b => decide (key b = k) := by
    funext b
    by_cases hb : key b = k
    · simp [hb, Ne.symm h]
    · simp [hb]
  rw [pushBack, List.find?_append, List.find?_filter, hpred]
  simp [h]

/-- What a search finds in the rest of a queue whose front was dropped. -/
theorem find?_of_append {k : κ} (h : ((l ++ l').map key).Nodup) :
    l'.find? (fun b => key b = k) =
      if k ∈ l.map key then none else (l ++ l').find? fun b => key b = k := by
  split
  · rename_i hmem
    apply List.find?_eq_none.mpr
    intro b hb heq
    rw [List.map_append, List.nodup_append] at h
    exact h.2.2 k hmem (key b) (List.mem_map_of_mem hb) (decide_eq_true_eq.mp heq).symm
  · rename_i hmem
    have hnone : l.find? (fun b => key b = k) = none := by
      apply List.find?_eq_none.mpr
      intro b hb heq
      exact hmem (List.mem_map.mpr ⟨b, hb, decide_eq_true_eq.mp heq⟩)
    rw [List.find?_append, hnone, Option.none_or]

/-- **One more element** is pushed to the back. -/
theorem latest_concat (l : List α) (a : α) :
    latest key (l ++ [a]) = pushBack key a (latest key l) := by
  induction l with
  | nil => simp [latest, pushBack]
  | cons b l ih =>
    have hany : (∃ c ∈ l ++ [a], key c = key b) ↔ (∃ c ∈ l, key c = key b) ∨ key a = key b := by
      simp [or_and_right, exists_or]
    rw [List.cons_append, latest, latest, ih, if_congr hany rfl rfl]
    by_cases hlater : ∃ c ∈ l, key c = key b
    · simp [hlater]
    · by_cases hsame : key a = key b
      · simp [hlater, hsame, pushBack]
      · simp [hlater, hsame, pushBack, Ne.symm hsame]

theorem mem_latest (h : a ∈ latest key l) :
    ∃ before after, l = before ++ a :: after ∧ ∀ b ∈ after, key b ≠ key a := by
  induction l with
  | nil => exact absurd h List.not_mem_nil
  | cons b l ih =>
    rw [latest] at h
    split at h
    · obtain ⟨before, after, rfl, hafter⟩ := ih h
      exact ⟨b :: before, after, rfl, hafter⟩
    · rename_i hnone
      rcases List.mem_cons.mp h with rfl | h
      · exact ⟨[], l, rfl, fun c hc heq => hnone ⟨c, hc, heq⟩⟩
      · obtain ⟨before, after, rfl, hafter⟩ := ih h
        exact ⟨b :: before, after, rfl, hafter⟩

end PushBack
