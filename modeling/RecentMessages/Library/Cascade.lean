/-
RecentMessages/Library/Cascade.lean

Messages whose receivers send further messages.

Messages arrive from outside at any time, are handled in any order or are lost, and a receiver
sends what it likes, within a budget: a message has a weight, and what its receiver sends weighs
less in total.  Then whatever arrives causes no more messages than its weight (`budget_run`), and
when nothing arrives any more, the messages run out (`exists_drain`).
-/
import Mathlib.Algebra.BigOperators.Group.List.Basic
import Mathlib.Algebra.GroupWithZero.Nat
import Mathlib.Algebra.Order.BigOperators.Group.List
import Mathlib.Algebra.Order.Group.Nat

variable {M V : Type*}

/-- Messages in flight, and the history of a run. -/
structure Cascade (M : Type*) where
  inFlight : List M
  /-- History: what has arrived from outside. -/
  arrived : List M
  /-- History: what receivers have handled. -/
  handled : List M
  /-- History: what receivers have sent. -/
  sent : List M

/-- What happens: a receiver handles a message in the circumstances `v`. -/
inductive CascadeAction (M V : Type*)
  | arrive (m : M)
  | handle (index : ℕ) (v : V)
  | lose (index : ℕ)

namespace Cascade

variable (sends : M → V → List M)

def quiet : Cascade M := ⟨[], [], [], []⟩

def step (s : Cascade M) : CascadeAction M V → Cascade M
  | .arrive m => { s with inFlight := s.inFlight ++ [m], arrived := s.arrived ++ [m] }
  | .handle index v =>
    match s.inFlight[index]? with
    | none => s
    | some m =>
      { s with
        inFlight := s.inFlight.eraseIdx index ++ sends m v
        handled := s.handled ++ [m]
        sent := s.sent ++ sends m v }
  | .lose index => { s with inFlight := s.inFlight.eraseIdx index }

/-! ### Where messages come from -/

/-- What is in flight or handled has arrived or was sent, and what was sent some receiver sent. -/
structure Accounted (s : Cascade M) : Prop where
  inFlight : ∀ m ∈ s.inFlight, m ∈ s.arrived ∨ m ∈ s.sent
  handled : ∀ m ∈ s.handled, m ∈ s.arrived ∨ m ∈ s.sent
  sent : ∀ m ∈ s.sent, ∃ m' v, m ∈ sends m' v

theorem accounted_quiet : Accounted sends (quiet : Cascade M) where
  inFlight := by rintro m ⟨⟩
  handled := by rintro m ⟨⟩
  sent := by rintro m ⟨⟩

variable {sends}

theorem accounted_step {s : Cascade M} (h : Accounted sends s) (a : CascadeAction M V) :
    Accounted sends (step sends s a) := by
  cases a with
  | arrive m =>
    refine ⟨fun m' hm' => ?_, fun m' hm' => ?_, h.sent⟩
    · rcases List.mem_append.mp hm' with hm' | hm'
      · exact (h.inFlight m' hm').imp_left (List.mem_append_left _)
      · exact .inl (List.mem_append_right _ hm')
    · exact (h.handled m' hm').imp_left (List.mem_append_left _)
  | lose index =>
    exact ⟨fun m hm => h.inFlight m (List.eraseIdx_subset hm), h.handled, h.sent⟩
  | handle index v =>
    rw [step]
    split
    · exact h
    · rename_i m hm
      have hfrom := h.inFlight m (List.mem_of_getElem? hm)
      refine ⟨fun m' hm' => ?_, fun m' hm' => ?_, fun m' hm' => ?_⟩
      · rcases List.mem_append.mp hm' with hm' | hm'
        · exact (h.inFlight m' (List.eraseIdx_subset hm')).imp_right (List.mem_append_left _)
        · exact .inr (List.mem_append_right _ hm')
      · rcases List.mem_append.mp hm' with hm' | hm'
        · exact (h.handled m' hm').imp_right (List.mem_append_left _)
        · rw [List.mem_singleton.mp hm']
          exact hfrom.imp_right (List.mem_append_left _)
      · rcases List.mem_append.mp hm' with hm' | hm'
        · exact h.sent m' hm'
        · exact ⟨m, v, hm'⟩

/-- **Every message has an origin.** -/
theorem accounted_run (actions : List (CascadeAction M V)) :
    Accounted sends (actions.foldl (step sends) quiet) :=
  List.foldlRecOn actions (step sends) (accounted_quiet sends) fun _ h a _ => accounted_step h a

/-! ### The budget -/

section Budget

variable {weight : M → ℕ} (hweight : ∀ m v, ((sends m v).map weight).sum < weight m)

/-- The weight of what is in flight. -/
def load (weight : M → ℕ) (s : Cascade M) : ℕ := (s.inFlight.map weight).sum

theorem length_le_load (hpos : ∀ m, 0 < weight m) (s : Cascade M) :
    s.inFlight.length ≤ s.load weight := by
  rw [load]
  induction s.inFlight with
  | nil => exact Nat.le_refl 0
  | cons m l ih =>
    have hm := hpos m
    rw [List.map_cons, List.sum_cons, List.length_cons]
    omega

/-- The weight of one message, apart from the rest. -/
theorem sum_eraseIdx {l : List M} {index : ℕ} {m : M} (h : l[index]? = some m) :
    ((l.eraseIdx index).map weight).sum + weight m = (l.map weight).sum := by
  obtain ⟨hlt, rfl⟩ := List.getElem?_eq_some_iff.mp h
  have hperm : (l[index] :: l.eraseIdx index).Perm l := List.getElem_cons_eraseIdx_perm hlt
  rw [← (hperm.map weight).sum_eq, List.map_cons, List.sum_cons, Nat.add_comm]

include hweight in
/-- **To handle a message** costs its share of the load. -/
theorem load_handle {s : Cascade M} {index : ℕ} {m : M} (h : s.inFlight[index]? = some m) (v : V) :
    (step sends s (.handle index v)).load weight < s.load weight := by
  have hsum : ((s.inFlight.eraseIdx index).map weight).sum + weight m =
      (s.inFlight.map weight).sum := sum_eraseIdx h
  have hlt := hweight m v
  rw [step, h]
  show ((s.inFlight.eraseIdx index ++ sends m v).map weight).sum < (s.inFlight.map weight).sum
  rw [List.map_append, List.sum_append]
  omega

include hweight in
theorem budget_step {s : Cascade M} (a : CascadeAction M V)
    (h : s.load weight + s.handled.length ≤ (s.arrived.map weight).sum) :
    (step sends s a).load weight + (step sends s a).handled.length ≤
      ((step sends s a).arrived.map weight).sum := by
  cases a with
  | arrive m =>
    -- a message that arrives brings its weight along
    show ((s.inFlight ++ [m]).map weight).sum + s.handled.length ≤
      ((s.arrived ++ [m]).map weight).sum
    rw [List.map_append, List.sum_append, List.map_append, List.sum_append]
    rw [load] at h
    omega
  | lose index =>
    -- one that is lost takes it away
    have hle : ((s.inFlight.eraseIdx index).map weight).sum ≤ (s.inFlight.map weight).sum :=
      ((List.eraseIdx_sublist s.inFlight index).map weight).sum_le_sum fun _ _ => Nat.zero_le _
    exact (Nat.add_le_add_right hle _).trans h
  | handle index v =>
    -- one that is handled sends less than it weighs
    rcases hm : s.inFlight[index]? with - | m
    · rw [step, hm]
      exact h
    · have hlt := load_handle hweight hm v
      have hhandled : (step sends s (.handle index v)).handled.length = s.handled.length + 1 := by
        rw [step, hm]
        exact List.length_append
      have harrived : (step sends s (.handle index v)).arrived = s.arrived := by
        rw [step, hm]
      rw [hhandled, harrived]
      omega

include hweight in
/-- **What arrives pays for all that follows from it.** -/
theorem budget_run (actions : List (CascadeAction M V)) :
    (actions.foldl (step sends) quiet).load weight +
        (actions.foldl (step sends) quiet).handled.length ≤
      ((actions.foldl (step sends) quiet).arrived.map weight).sum :=
  List.foldlRecOn (motive := fun s : Cascade M =>
    s.load weight + s.handled.length ≤ (s.arrived.map weight).sum) actions (step sends)
    (Nat.le_refl 0) fun _ h a _ => budget_step hweight a h

include hweight in
/-- **The messages run out**: whatever the receivers meet, within the load of the state. -/
theorem exists_drain (s : Cascade M) (meets : ℕ → V) :
    ∃ n ≤ s.load weight, (((List.range n).map fun i =>
      CascadeAction.handle 0 (meets i)).foldl (step sends) s).inFlight = [] := by
  -- the load of the state bounds how many messages there can be
  suffices h : ∀ (budget start : ℕ) (s : Cascade M), s.load weight ≤ budget →
      ∃ n ≤ budget, (((List.range' start n).map fun i =>
        CascadeAction.handle 0 (meets i)).foldl (step sends) s).inFlight = [] by
    obtain ⟨n, hn, hdone⟩ := h _ 0 s (Nat.le_refl _)
    rw [← List.range_eq_range'] at hdone
    exact ⟨n, hn, hdone⟩
  intro budget
  induction budget with
  | zero =>
    intro start s hload
    refine ⟨0, Nat.le_refl 0, ?_⟩
    rcases hs : s.inFlight with - | ⟨m, l⟩
    · exact hs
    · have hhead : s.inFlight[0]? = some m := by rw [hs]; rfl
      have hlt := load_handle hweight hhead (meets 0)
      omega
  | succ budget ih =>
    intro start s hload
    rcases hs : s.inFlight with - | ⟨m, l⟩
    · exact ⟨0, Nat.zero_le _, hs⟩
    · have hhead : s.inFlight[0]? = some m := by rw [hs]; rfl
      have hlt := load_handle hweight hhead (meets start)
      obtain ⟨n, hn, hdone⟩ := ih (start + 1) (step sends s (.handle 0 (meets start))) (by omega)
      refine ⟨n + 1, by omega, ?_⟩
      rw [List.range'_succ, List.map_cons, List.foldl_cons]
      exact hdone

end Budget

end Cascade
