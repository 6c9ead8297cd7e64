/-
RecentMessages/Library/Quota.lean

Greedy choices from a list.

Every element belongs to a group, and every group has to keep a quota.  `spare` goes
through the list and takes what its group can do without; `passedOver` are the others.
An element that is passed over would have taken its group below the quota, given what
was taken before it (`short_of_passedOver`), and a group that something is taken from
keeps its quota (`quota_le`).

`enough` is the shortest front part of a list that reaches a weight.
-/
import Mathlib.Algebra.BigOperators.Group.List.Basic
import Mathlib.Algebra.GroupWithZero.Nat
import Mathlib.Algebra.Order.BigOperators.Group.List
import Mathlib.Algebra.Order.Group.Nat

variable {α γ : Type*}

/-- Groups of elements, what an element takes from its group, and what has to stay. -/
structure Quotas (α γ : Type*) where
  group : α → γ
  cost : α → ℕ
  quota : γ → ℕ

namespace Quotas

variable [DecidableEq γ] (Q : Quotas α γ)

/-- What the groups hold after an element is taken. -/
def spend (held : γ → ℕ) (a : α) : γ → ℕ :=
  Function.update held (Q.group a) (held (Q.group a) - Q.cost a)

/-- The elements that are taken, one after the other. -/
def spare : (γ → ℕ) → List α → List α
  | _, [] => []
  | held, a :: l =>
    if held (Q.group a) - Q.cost a < Q.quota (Q.group a) then spare held l
    else a :: spare (Q.spend held a) l

/-- The elements that are not. -/
def passedOver : (γ → ℕ) → List α → List α
  | _, [] => []
  | held, a :: l =>
    if held (Q.group a) - Q.cost a < Q.quota (Q.group a) then a :: passedOver held l
    else passedOver (Q.spend held a) l

/-- What the elements of a list take from a group. -/
def costIn (g : γ) (l : List α) : ℕ := ((l.filter fun a => Q.group a = g).map Q.cost).sum

variable {Q} {held : γ → ℕ} {l l' : List α} {a : α} {g : γ}

@[simp] theorem costIn_nil : Q.costIn g [] = 0 := rfl

theorem costIn_cons : Q.costIn g (a :: l) =
    (if Q.group a = g then Q.cost a else 0) + Q.costIn g l := by
  by_cases h : Q.group a = g <;> simp [costIn, h]

theorem costIn_le_of_sublist (h : l.Sublist l') : Q.costIn g l ≤ Q.costIn g l' :=
  ((h.filter _).map _).sum_le_sum fun _ _ => Nat.zero_le _

theorem costIn_of_forall_ne (h : ∀ a ∈ l, Q.group a ≠ g) : Q.costIn g l = 0 := by
  rw [costIn, List.filter_eq_nil_iff.mpr]
  · rfl
  · intro a ha
    simpa using h a ha

theorem spend_apply : Q.spend held a g = held g - if Q.group a = g then Q.cost a else 0 := by
  by_cases h : g = Q.group a
  · subst h
    simp [spend]
  · simp [spend, h, Ne.symm h]

theorem spare_sublist (held : γ → ℕ) (l : List α) : (Q.spare held l).Sublist l := by
  induction l generalizing held with
  | nil => exact List.Sublist.slnil
  | cons a l ih =>
    rw [spare]
    split
    · exact (ih held).cons a
    · exact (ih _).cons_cons a

/-- Everything is taken or passed over. -/
theorem spare_append_passedOver_perm (held : γ → ℕ) (l : List α) :
    (Q.spare held l ++ Q.passedOver held l).Perm l := by
  induction l generalizing held with
  | nil => exact List.Perm.refl _
  | cons a l ih =>
    rw [spare, passedOver]
    split
    · exact List.perm_middle.trans ((ih held).cons a)
    · exact (ih _).cons a

/-- **What is passed over** would have taken its group below its quota. -/
theorem short_of_passedOver (h : a ∈ Q.passedOver held l) :
    ∃ before after, l = before ++ a :: after ∧
      held (Q.group a) - Q.costIn (Q.group a) (Q.spare held before) - Q.cost a <
        Q.quota (Q.group a) ∧
      Q.spare held l = Q.spare held before ++
        Q.spare (fun g => held g - Q.costIn g (Q.spare held before)) after := by
  induction l generalizing held with
  | nil => cases h
  | cons b l ih =>
    rw [passedOver] at h
    split at h
    · rename_i hshort
      rcases List.mem_cons.mp h with rfl | h
      · have hstep : Q.spare held (a :: l) = Q.spare held l := if_pos hshort
        exact ⟨[], l, rfl, hshort, hstep⟩
      · obtain ⟨before, after, rfl, hlt, hspare⟩ := ih h
        refine ⟨b :: before, after, rfl, ?_, ?_⟩
        · rw [spare, if_pos hshort]
          exact hlt
        · rw [spare, spare, if_pos hshort, if_pos hshort]
          exact hspare
    · rename_i hspared
      obtain ⟨before, after, rfl, hlt, hspare⟩ := ih h
      have hleft : ∀ g, Q.spend held b g - Q.costIn g (Q.spare (Q.spend held b) before) =
          held g - Q.costIn g (b :: Q.spare (Q.spend held b) before) := by
        intro g
        rw [spend_apply, costIn_cons, Nat.sub_sub]
      refine ⟨b :: before, after, rfl, ?_, ?_⟩
      · rw [spare, if_neg hspared, ← hleft]
        exact hlt
      · rw [spare, spare, if_neg hspared, if_neg hspared, hspare, List.cons_append]
        simp only [hleft]

/-- **A group that something is taken from** keeps its quota. -/
theorem quota_le (ha : a ∈ Q.spare held l) :
    Q.quota (Q.group a) ≤ held (Q.group a) - Q.costIn (Q.group a) (Q.spare held l) := by
  induction l generalizing held a with
  | nil => cases ha
  | cons b l ih =>
    rw [spare] at ha ⊢
    split at ha
    · rename_i hshort
      rw [if_pos hshort]
      exact ih ha
    · rename_i hspared
      rw [if_neg hspared, costIn_cons, ← Nat.sub_sub, ← spend_apply]
      by_cases hmore : ∃ c ∈ Q.spare (Q.spend held b) l, Q.group c = Q.group a
      · obtain ⟨c, hc, hgroup⟩ := hmore
        rw [← hgroup]
        exact ih hc
      · -- it is the last one of its group
        rw [not_exists] at hmore
        have hb : b = a := by
          rcases List.mem_cons.mp ha with rfl | ha
          · rfl
          · exact absurd ⟨ha, rfl⟩ (hmore a)
        rw [costIn_of_forall_ne fun c hc hgroup => hmore c ⟨hc, hgroup⟩, Nat.sub_zero, hb,
          spend_apply, if_pos rfl, ← hb]
        exact Nat.not_lt.mp hspared

end Quotas

/-! ### Reaching a weight -/

section Enough

variable (weight : α → ℕ)

/-- The elements of a list, until they have the weight that is needed. -/
def enough : ℕ → List α → List α
  | _, [] => []
  | need, a :: l => if need = 0 then [] else a :: enough (need - weight a) l

variable {weight} {need : ℕ} {l l' : List α}

theorem enough_front (need : ℕ) (l : List α) : enough weight need l <+: l := by
  induction l generalizing need with
  | nil => exact List.prefix_refl _
  | cons a l ih =>
    rw [enough]
    split
    · exact List.nil_prefix
    · exact (List.prefix_cons_inj a).mpr (ih _)

/-- **If all together have the weight**, what is taken has it. -/
theorem le_sum_enough (h : need ≤ (l.map weight).sum) :
    need ≤ ((enough weight need l).map weight).sum := by
  induction l generalizing need with
  | nil => exact h
  | cons a l ih =>
    rw [enough]
    split
    · omega
    · rw [List.map_cons, List.sum_cons] at h ⊢
      have hrest := @ih (need - weight a) (by omega)
      omega

/-- If they have not, all are taken. -/
theorem enough_of_lt (h : (l.map weight).sum < need) : enough weight need l = l := by
  induction l generalizing need with
  | nil => rfl
  | cons a l ih =>
    rw [List.map_cons, List.sum_cons] at h
    rw [enough, if_neg (by omega), ih (by omega)]

/-- **Nothing is taken in vain**: without its last element it is not enough. -/
theorem sum_lt_of_enough {init : List α} {a : α} (h : enough weight need l = init ++ [a]) :
    (init.map weight).sum < need := by
  induction l generalizing need init with
  | nil => exact absurd h.symm (List.append_ne_nil_of_right_ne_nil _ (List.cons_ne_nil _ _))
  | cons b l ih =>
    rw [enough] at h
    split at h
    · exact absurd h.symm (List.append_ne_nil_of_right_ne_nil _ (List.cons_ne_nil _ _))
    · rename_i hneed
      cases init with
      | nil => exact Nat.pos_of_ne_zero hneed
      | cons c init =>
        obtain ⟨rfl, hrest⟩ := List.cons.inj h
        have hinit := ih hrest
        rw [List.map_cons, List.sum_cons]
        omega

/-- A second list is only needed if the first one is not enough. -/
theorem enough_append (need : ℕ) (l l' : List α) : enough weight need (l ++ l') =
    enough weight need l ++ enough weight (need - (l.map weight).sum) l' := by
  induction l generalizing need with
  | nil => rfl
  | cons a l ih =>
    rw [List.cons_append, enough, enough]
    split
    · rename_i hzero
      subst hzero
      rw [Nat.zero_sub, List.nil_append]
      cases l' with
      | nil => rfl
      | cons b l' => exact (if_pos rfl).symm
    · rw [ih, List.cons_append, List.map_cons, List.sum_cons, Nat.sub_sub]

theorem enough_zero (l : List α) : enough weight 0 l = [] := by
  cases l with
  | nil => rfl
  | cons a l => exact if_pos rfl

theorem enough_ne_nil (hneed : need ≠ 0) (hl : l ≠ []) : enough weight need l ≠ [] := by
  obtain ⟨a, l, rfl⟩ := List.exists_cons_of_ne_nil hl
  rw [enough, if_neg hneed]
  exact List.cons_ne_nil _ _

end Enough
