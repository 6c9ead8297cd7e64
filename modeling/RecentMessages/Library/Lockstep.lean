/-
RecentMessages/Library/Lockstep.lean

Machines that answer each input with an output.  `outputs step s as` are the answers of a
run, and two machines whose states stay related answer alike (`outputs_of_lockstep`).  To
show that several implementations agree it is enough to relate each of them to one abstract
machine.
-/
import RecentMessages.Library.Runs

variable {σ τ α ο ο' : Type*}

/-- What a run answers. -/
def outputs (step : σ → α → ο × σ) : σ → List α → List ο
  | _, [] => []
  | s, a :: as => (step s a).1 :: outputs step (step s a).2 as

/-- The state after a step. -/
def afterStep (step : σ → α → ο × σ) (s : σ) (a : α) : σ := (step s a).2

variable {step : σ → α → ο × σ} {step' : τ → α → ο' × τ} {P : σ → α → Prop}

/-- **Machines in lockstep answer alike**, up to `f`. -/
theorem outputs_of_lockstep {R : σ → τ → Prop} {f : ο' → ο}
    (hstep : ∀ s t a, R s t → P s a →
      (step s a).1 = f (step' t a).1 ∧ R (step s a).2 (step' t a).2)
    {s : σ} {t : τ} {as : List α} (hs : R s t) (h : Along (afterStep step) P s as) :
    outputs step s as = (outputs step' t as).map f := by
  induction as generalizing s t with
  | nil => rfl
  | cons a as ih =>
    obtain ⟨ha, h⟩ := h
    obtain ⟨houtput, hnext⟩ := hstep s t a hs ha
    show (step s a).1 :: _ = f (step' t a).1 :: _
    rw [houtput, ih hnext h]

/-- **What every output of a run is**, if the steps keep an invariant. -/
theorem forall_outputs {I : σ → Prop} {Q : ο → Prop}
    (hstep : ∀ s a, I s → P s a → Q (step s a).1 ∧ I (step s a).2)
    {s : σ} {as : List α} (hs : I s) (h : Along (afterStep step) P s as) :
    ∀ output ∈ outputs step s as, Q output := by
  induction as generalizing s with
  | nil => nofun
  | cons a as ih =>
    obtain ⟨ha, h⟩ := h
    obtain ⟨houtput, hnext⟩ := hstep s a hs ha
    exact List.forall_mem_cons.mpr ⟨houtput, ih hnext h⟩
