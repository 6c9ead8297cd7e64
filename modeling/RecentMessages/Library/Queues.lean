/-
RecentMessages/Library/Queues.lean

Tables whose rows form queues.  A row belongs to a group, and the rows of a group
are ordered by a sequence number: `queueOf group seq t g` is the queue of group
`g`, as `SELECT … WHERE group = g ORDER BY seq` returns it.

In a table that is `Spaced` (no two rows of a group have one number) the queue is
the only ordered arrangement of the group's rows (`queueOf_eq_of_perm`), so that
inserting a row behind all others appends it to its queue (`queueOf_insertIgnore`)
and erasing the first row takes it off (`queueOf_erase`); the other queues do not
change.

`trimFront weight allowed l` takes elements off the front of a list until the
others weigh at most `allowed`.  The last element stays (`getLast?_trimFront`), and no
more is taken off than must be (`le_sum_trimFront`).
-/
import RecentMessages.Library.Fallible
import RecentMessages.Library.KeyTable
import RecentMessages.Library.Ranking
import Mathlib.Algebra.BigOperators.Group.Finset.Piecewise
import Mathlib.Algebra.Order.BigOperators.Group.List

variable {ρ κ γ α β : Type*}

/-! ### The front of a list -/

/-- Drop elements from the front while the list weighs more than `allowed`. -/
def trimFront (weight : α → ℕ) (allowed : ℕ) : List α → List α
  | [] => []
  | a :: l => if allowed < ((a :: l).map weight).sum then trimFront weight allowed l else a :: l

section TrimFront

variable {weight : α → ℕ} {allowed : ℕ}

theorem trimFront_of_lt {a : α} {l : List α} (h : allowed < ((a :: l).map weight).sum) :
    trimFront weight allowed (a :: l) = trimFront weight allowed l := by
  rw [trimFront, if_pos h]

theorem trimFront_of_le {l : List α} (h : (l.map weight).sum ≤ allowed) :
    trimFront weight allowed l = l := by
  cases l with
  | nil => rfl
  | cons a l => rw [trimFront, if_neg (Nat.not_lt.mpr h)]

theorem trimFront_suffix (weight : α → ℕ) (allowed : ℕ) (l : List α) :
    trimFront weight allowed l <:+ l := by
  induction l with
  | nil => exact List.suffix_refl _
  | cons a l ih =>
    rw [trimFront]
    split
    · exact ih.trans (List.suffix_cons a l)
    · exact List.suffix_refl _

theorem sum_trimFront_le (weight : α → ℕ) (allowed : ℕ) (l : List α) :
    ((trimFront weight allowed l).map weight).sum ≤ allowed := by
  induction l with
  | nil => exact Nat.zero_le _
  | cons a l ih =>
    rw [trimFront]
    split
    · exact ih
    · rename_i h
      exact Nat.not_lt.mp h

/-- **A bound beyond the whole weight** is as good as any other. -/
theorem trimFront_min {bound : ℕ} {l : List α} (h : (l.map weight).sum ≤ bound) :
    trimFront weight (min allowed bound) l = trimFront weight allowed l := by
  induction l with
  | nil => rfl
  | cons a l ih =>
    have htail : (l.map weight).sum ≤ bound := by
      rw [List.map_cons, List.sum_cons] at h
      omega
    have hiff : min allowed bound < ((a :: l).map weight).sum ↔
        allowed < ((a :: l).map weight).sum := by omega
    rw [trimFront, trimFront, ih htail]
    exact if_congr hiff rfl rfl

/-- The last element stays, as long as none is too heavy on its own. -/
theorem getLast?_trimFront {l : List α} (h : ∀ a ∈ l, weight a ≤ allowed) :
    (trimFront weight allowed l).getLast? = l.getLast? := by
  induction l with
  | nil => rfl
  | cons a l ih =>
    by_cases hlt : allowed < ((a :: l).map weight).sum
    · have htail := ih fun b hb => h b (List.mem_cons_of_mem a hb)
      rw [trimFront_of_lt hlt, htail]
      cases l with
      | nil =>
        -- an element on its own is not dropped
        have hone := h a List.mem_cons_self
        rw [List.map_singleton, List.sum_singleton] at hlt
        omega
      | cons b l => rw [List.getLast?_cons_cons]
    · rw [trimFront_of_le (Nat.not_lt.mp hlt)]

/-- **What is left is not too light**, if anything was dropped: the last element that
was dropped would have been too much. -/
theorem le_sum_trimFront {floor : ℕ} {l : List α} (h : ∀ a ∈ l, floor + weight a ≤ allowed + 1)
    (hcut : trimFront weight allowed l ≠ l) :
    floor ≤ ((trimFront weight allowed l).map weight).sum := by
  induction l with
  | nil => exact absurd rfl hcut
  | cons a l ih =>
    by_cases hlt : allowed < ((a :: l).map weight).sum
    · rw [trimFront_of_lt hlt]
      by_cases htail : trimFront weight allowed l = l
      · have ha := h a List.mem_cons_self
        rw [htail]
        rw [List.map_cons, List.sum_cons] at hlt
        omega
      · exact ih (fun b hb => h b (List.mem_cons_of_mem a hb)) htail
    · exact absurd (trimFront_of_le (Nat.not_lt.mp hlt)) hcut

theorem trimFront_map (f : β → α) (l : List β) :
    trimFront weight allowed (l.map f) =
      (trimFront (fun b => weight (f b)) allowed l).map f := by
  induction l with
  | nil => rfl
  | cons b l ih =>
    by_cases hlt : allowed < ((b :: l).map fun b => weight (f b)).sum
    · have hmap : allowed < ((f b :: l.map f).map weight).sum := by
        rw [← List.map_cons, List.map_map]
        exact hlt
      rw [List.map_cons, trimFront_of_lt hmap, trimFront_of_lt hlt, ih]
    · have hmap : (((b :: l).map f).map weight).sum ≤ allowed := by
        rw [List.map_map]
        exact Nat.not_lt.mp hlt
      rw [trimFront_of_le hmap, trimFront_of_le (Nat.not_lt.mp hlt)]

/-- Elements that can be read are read alike when the list is trimmed. -/
theorem mapM_trimFront.{u, v} {ε : Type u} {σ τ : Type v} {f : σ → Except ε τ}
    {weight : σ → ℕ} {weight' : τ → ℕ}
    (hweight : ∀ a b, f a = .ok b → weight' b = weight a) {l : List σ} {l' : List τ}
    (h : l.mapM f = .ok l') :
    (trimFront weight allowed l).mapM f = .ok (trimFront weight' allowed l') := by
  induction l generalizing l' with
  | nil =>
    cases h
    rfl
  | cons a l ih =>
    have hsum := congrArg List.sum (Except.map_eq_of_mapM hweight h)
    obtain ⟨b, rest, hb, hrest, rfl⟩ := Except.mapM_cons_eq_ok.mp h
    rw [trimFront, trimFront, hsum]
    split
    · exact ih hrest
    · exact h

end TrimFront

/-! ### Queues -/

namespace KeyTable

variable {key : ρ → κ} [DecidableEq γ] {group : ρ → γ} {seq : ρ → ℤ}

/-- The rows of a group, in the order of their numbers. -/
def queueOf (group : ρ → γ) (seq : ρ → ℤ) (t : KeyTable key) (g : γ) : List ρ :=
  sortByKey seq (t.rows.filter (group · = g))

/-- No two rows of a group have the same number. -/
def Spaced (group : ρ → γ) (seq : ρ → ℤ) (t : KeyTable key) : Prop :=
  ∀ r ∈ t.rows, ∀ r' ∈ t.rows, group r = group r' → seq r = seq r' → r = r'

variable {t : KeyTable key} {g : γ}

theorem mem_queueOf {r : ρ} : r ∈ queueOf group seq t g ↔ r ∈ t.rows ∧ group r = g := by
  simp [queueOf]

theorem queueOf_perm (t : KeyTable key) (g : γ) :
    (queueOf group seq t g).Perm (t.rows.filter (group · = g)) :=
  sortByKey_perm _

@[simp] theorem queueOf_empty (g : γ) : queueOf group seq (empty : KeyTable key) g = [] := rfl

/-- **The queue** is the only arrangement of its rows in strict order. -/
theorem queueOf_eq_of_perm {l : List ρ} (hperm : l.Perm (t.rows.filter (group · = g)))
    (hs : l.Pairwise fun a b => seq a < seq b) : queueOf group seq t g = l := by
  have hnodup : (l.map seq).Nodup := (List.pairwise_map.mpr hs).imp ne_of_lt
  refine (eq_of_perm_of_sorted (hperm.trans (queueOf_perm t g).symm) ?_ (hs.imp le_of_lt)
    (sortByKey_sorted _)).symm
  intro a ha b hb
  exact List.inj_on_of_nodup_map hnodup ha hb

/-- A queue is in strict order. -/
theorem queueOf_sorted (h : Spaced group seq t) (g : γ) :
    (queueOf group seq t g).Pairwise fun a b => seq a < seq b := by
  have hnodup : (queueOf group seq t g).Nodup :=
    (queueOf_perm t g).nodup_iff.mpr (t.nodup.of_map.filter _)
  have hs : (queueOf group seq t g).Pairwise fun a b => seq a ≤ seq b := sortByKey_sorted _
  refine (hs.and hnodup).imp_of_mem fun {a b} ha hb hab => lt_of_le_of_ne hab.1 fun heq => ?_
  obtain ⟨ha, hga⟩ := mem_queueOf.mp ha
  obtain ⟨hb, hgb⟩ := mem_queueOf.mp hb
  exact hab.2 (h a ha b hb (hga.trans hgb.symm) heq)

theorem length_queueOf_le (t : KeyTable key) (g : γ) :
    (queueOf group seq t g).length ≤ t.rows.length := by
  rw [(queueOf_perm t g).length_eq]
  exact List.length_filter_le _ _

/-- The number behind all others of a group is free. -/
theorem any_place_eq_false {n : ℤ} (h : ∀ r ∈ t.rows, group r = g → seq r < n) :
    (t.rows.any fun r => group r = g && seq r = n) = false := by
  rw [List.any_eq_false]
  intro r hr
  by_cases hg : group r = g
  · simp [hg, (h r hr hg).ne]
  · simp [hg]

theorem queueOf_congr {t t' : KeyTable key}
    (h : t'.rows.filter (group · = g) = t.rows.filter (group · = g)) :
    queueOf group seq t' g = queueOf group seq t g := by
  rw [queueOf, queueOf, h]

/-! ### Insertion and erasure -/

section

variable [DecidableEq κ]

/-- **A row behind all others** is appended to its queue. -/
theorem queueOf_insertIgnore {r : ρ} (hspaced : Spaced group seq t)
    (hnew : t.lookup (key r) = none)
    (hlast : ∀ q ∈ t.rows, group q = group r → seq q < seq r) :
    queueOf group seq (t.insertIgnore r) (group r) = queueOf group seq t (group r) ++ [r] := by
  apply queueOf_eq_of_perm
  · rw [insertIgnore_of_none hnew, List.filter_append]
    simp only [List.filter_cons, decide_true, ↓reduceIte, List.filter_nil]
    exact (queueOf_perm t _).append_right [r]
  · rw [List.pairwise_append]
    refine ⟨queueOf_sorted hspaced _, List.pairwise_singleton _ _, fun q hq r' hr' => ?_⟩
    rw [List.mem_singleton.mp hr']
    obtain ⟨hq, hg⟩ := mem_queueOf.mp hq
    exact hlast q hq hg

/-- A row of another group changes nothing. -/
theorem queueOf_insertIgnore_ne {r : ρ} (hne : group r ≠ g) :
    queueOf group seq (t.insertIgnore r) g = queueOf group seq t g := by
  apply queueOf_congr
  rcases e : t.lookup (key r) with - | q
  · simp [insertIgnore_of_none e, hne]
  · rw [insertIgnore_of_some e]

omit [DecidableEq γ] in
theorem spaced_insertIgnore {r : ρ} (hspaced : Spaced group seq t)
    (hlast : ∀ q ∈ t.rows, group q = group r → seq q < seq r) :
    Spaced group seq (t.insertIgnore r) := by
  intro a ha b hb hg hs
  rcases mem_insertIgnore.mp ha with ha' | ⟨har, -⟩
  · rcases mem_insertIgnore.mp hb with hb' | ⟨rfl, -⟩
    · exact hspaced a ha' b hb' hg hs
    · exact absurd hs (hlast a ha' hg).ne
  · rw [har] at hg hs ⊢
    rcases mem_insertIgnore.mp hb with hb' | ⟨hbr, -⟩
    · exact absurd hs.symm (hlast b hb' hg.symm).ne
    · exact hbr.symm

/-- **Erasing the first row** takes it off its queue. -/
theorem queueOf_erase {r : ρ} {rest : List ρ} (hspaced : Spaced group seq t)
    (hqueue : queueOf group seq t g = r :: rest) :
    queueOf group seq (t.erase (key r)) g = rest := by
  have hs := queueOf_sorted hspaced g
  rw [hqueue] at hs
  obtain ⟨hr, hg⟩ : r ∈ t.rows ∧ group r = g := mem_queueOf.mp (hqueue ▸ List.mem_cons_self)
  have hperm : (r :: rest).Perm (t.rows.filter (group · = g)) := hqueue ▸ queueOf_perm t g
  apply queueOf_eq_of_perm _ (List.pairwise_cons.mp hs).2
  -- what is left of the group, as it is and with `r` in front
  have hnodup : (r :: rest).Nodup := hs.imp fun h heq => (heq ▸ h).ne rfl
  have hkey : ∀ q ∈ t.rows, (key q = key r ↔ q = r) :=
    fun q hq => ⟨fun h => t.eq_of_key hq hr h, fun h => h ▸ rfl⟩
  rw [erase, rows_deleteWhere, List.filter_comm]
  have hrest : (r :: rest).filter (fun q => !decide (key q = key r)) = rest := by
    rw [List.filter_cons_of_neg (by simp)]
    refine List.filter_eq_self.mpr fun q hq => ?_
    have hmem : q ∈ t.rows := (mem_queueOf.mp (hqueue ▸ List.mem_cons_of_mem r hq)).1
    have hne : q ≠ r := fun heq => (List.nodup_cons.mp hnodup).1 (heq ▸ hq)
    simp [hkey q hmem, hne]
  have hfilter := hperm.filter fun q => !decide (key q = key r)
  rwa [hrest] at hfilter

theorem queueOf_erase_ne {r : ρ} (hr : r ∈ t.rows) (hne : group r ≠ g) :
    queueOf group seq (t.erase (key r)) g = queueOf group seq t g := by
  apply queueOf_congr
  rw [erase, rows_deleteWhere, List.filter_filter]
  refine List.filter_congr fun q hq => ?_
  by_cases hg : group q = g
  · have hkey : key q ≠ key r := fun h => hne (t.eq_of_key hq hr h ▸ hg)
    simp [hg, hkey]
  · simp [hg]

/-- **A change of other columns** changes them in the queue. -/
theorem queueOf_modify {k : κ} {f : ρ → ρ} (hf : ∀ r, key (f r) = key r)
    (hgroup : ∀ r, group (f r) = group r) (hseq : ∀ r, seq (f r) = seq r) (g : γ) :
    queueOf group seq (t.modify k f hf) g =
      (queueOf group seq t g).map fun r => if key r = k then f r else r := by
  have hkeep : ∀ r, group (if key r = k then f r else r) = group r ∧
      seq (if key r = k then f r else r) = seq r := by
    intro r
    split
    · exact ⟨hgroup r, hseq r⟩
    · exact ⟨rfl, rfl⟩
  have hfilter : (t.modify k f hf).rows.filter (group · = g) =
      (t.rows.filter (group · = g)).map fun r => if key r = k then f r else r := by
    rw [rows_modify, List.filter_map]
    congr 1
    exact List.filter_congr fun r _ => by simp [(hkeep r).1]
  rw [queueOf, queueOf, hfilter, sortByKey, sortByKey]
  exact (List.map_insertionSort _ _ _ _ fun a _ b _ => by rw [(hkeep a).2, (hkeep b).2]).symm

omit [DecidableEq γ] in
theorem spaced_erase {k : κ} (hspaced : Spaced group seq t) : Spaced group seq (t.erase k) :=
  fun a ha b hb => hspaced a (mem_erase.mp ha).1 b (mem_erase.mp hb).1

end

/-! ### Sums over groups -/

/-- A column sum over one group. -/
theorem total_ite_eq_sum_queueOf (t : KeyTable key) (g : γ) (f : ρ → ℤ) :
    (t.total fun r => if group r = g then f r else 0) = ((queueOf group seq t g).map f).sum := by
  have hfilter : ∀ l : List ρ, (l.map fun r => if group r = g then f r else 0).sum =
      ((l.filter (group · = g)).map f).sum := by
    intro l
    induction l with
    | nil => rfl
    | cons r l ih =>
      rw [List.map_cons, List.sum_cons, ih]
      by_cases hg : group r = g
      · simp [hg]
      · simp [hg]
  rw [total, hfilter]
  exact ((queueOf_perm t g).map f).sum_eq.symm

/-- **A column sum, group by group.** -/
theorem total_eq_sum_queueOf {groups : Finset γ} {f : ρ → ℤ}
    (h : ∀ r ∈ t.rows, group r ∈ groups) :
    t.total f = ∑ g ∈ groups, ((queueOf group seq t g).map f).sum := by
  have hsplit : ∀ l : List ρ, (∀ r ∈ l, group r ∈ groups) →
      (l.map f).sum = ∑ g ∈ groups, ((l.filter (group · = g)).map f).sum := by
    intro l
    induction l with
    | nil => intro _; simp
    | cons r l ih =>
      intro hl
      have hone : ∀ g, (((r :: l).filter (group · = g)).map f).sum =
          (if g = group r then f r else 0) + ((l.filter (group · = g)).map f).sum := by
        intro g
        by_cases hg : g = group r
        · simp [hg]
        · simp [hg, Ne.symm hg]
      rw [List.map_cons, List.sum_cons, ih fun q hq => hl q (List.mem_cons_of_mem r hq)]
      simp only [hone, Finset.sum_add_distrib]
      rw [Finset.sum_ite_eq_of_mem' _ _ _ (hl r List.mem_cons_self)]
  rw [total, hsplit t.rows h]
  refine Finset.sum_congr rfl fun g _ => ?_
  exact ((queueOf_perm t g).map f).sum_eq.symm

/-- **A sum over the rows** is a sum over their keys. -/
theorem sum_rows_eq_sum_keys {M : Type*} [AddCommMonoid M] [DecidableEq κ] {f : ρ → M}
    {f' : κ → M} (h : ∀ r ∈ t.rows, f r = f' (key r)) :
    (t.rows.map f).sum = ∑ k ∈ t.keysWhere fun _ => true, f' k := by
  have hkeys : (t.rows.filter fun _ => true) = t.rows := List.filter_eq_self.mpr fun _ _ => rfl
  rw [keysWhere, hkeys, List.sum_toFinset f' t.nodup, List.map_map]
  exact congrArg List.sum (List.map_congr_left h)

end KeyTable
