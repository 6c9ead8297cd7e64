/-
RecentMessages/Library/Outcomes.lean

Postconditions for programs that may fail.  `x.Meets P Q` says that a result of `x` has `P` and an
error of it has `Q`; there is one rule for each way to put programs together.
-/
import RecentMessages.Library.Fallible

namespace Except

universe u

variable {ε ε' σ τ : Type*} {α β : Type u}

/-- A result has `P`, an error has `Q`. -/
def Meets (P : α → Prop) (Q : ε → Prop) : Except ε α → Prop
  | .ok a => P a
  | .error e => Q e

variable {P P' : α → Prop} {R : β → Prop} {Q Q' : ε → Prop} {x : Except ε α}

@[simp] theorem meets_ok {a : α} : (ok a : Except ε α).Meets P Q ↔ P a := Iff.rfl

@[simp] theorem meets_error {e : ε} : (error e : Except ε α).Meets P Q ↔ Q e := Iff.rfl

theorem Meets.mono (h : x.Meets P Q) (hP : ∀ a, P a → P' a) (hQ : ∀ e, Q e → Q' e) :
    x.Meets P' Q' := by
  cases x with
  | ok a => exact hP a h
  | error e => exact hQ e h

/-- **One program after another.** -/
theorem Meets.bind {f : α → Except ε β} (h : x.Meets P Q) (hf : ∀ a, P a → (f a).Meets R Q) :
    (x >>= f).Meets R Q := by
  cases x with
  | ok a => exact hf a h
  | error e => exact h

/-- The same, where the first result is known by an equation. -/
theorem Meets.bind_eq {f : α → Except ε β} (h : x.Meets (fun _ => True) Q)
    (hf : ∀ a, x = .ok a → (f a).Meets R Q) : (x >>= f).Meets R Q := by
  cases x with
  | ok a => exact hf a rfl
  | error e => exact h

@[simp] theorem meets_mapError {g : ε → ε'} {Q : ε' → Prop} :
    (x.mapError g).Meets P Q ↔ x.Meets P fun e => Q (g e) := by
  cases x <;> rfl

/-- **A loop**, by an invariant that its body keeps. -/
theorem foldlM_meets {I : σ → Prop} {Q : ε → Prop} {f : σ → α → Except ε σ} {l : List α}
    (hstep : ∀ s a, a ∈ l → I s → (f s a).Meets I Q) {s : σ} (hs : I s) :
    (l.foldlM f s).Meets I Q := by
  induction l generalizing s with
  | nil => exact hs
  | cons a l ih =>
    rw [List.foldlM_cons]
    refine (hstep s a List.mem_cons_self hs).bind fun s' hs' => ?_
    exact ih (fun t b hb => hstep t b (List.mem_cons_of_mem a hb)) hs'

/-- What a loop ends with it has from the start, if each round only keeps it. -/
theorem foldlM_back {P : σ → Prop} {f : σ → α → Except ε σ}
    (hback : ∀ s a s', f s a = .ok s' → P s' → P s) {l : List α} {s s' : σ}
    (h : l.foldlM f s = .ok s') (hs' : P s') : P s := by
  induction l generalizing s with
  | nil =>
    cases h
    exact hs'
  | cons a l ih =>
    obtain ⟨s₁, hf, hrest⟩ := bind_eq_ok.mp h
    exact hback s a s₁ hf (ih hrest)

/-- **A loop that follows another one**, as long as that one ends where it can be followed. -/
theorem foldlM_follows_of {I : σ → τ → Prop} {P : σ → Prop} {f : σ → α → Except ε σ}
    {g : τ → α → Except ε' τ} (hback : ∀ s a s', f s a = .ok s' → P s' → P s)
    (hstep : ∀ s t a s', I s t → f s a = .ok s' → P s' → ∃ t', g t a = .ok t' ∧ I s' t')
    {l : List α} {s s' : σ} {t : τ} (hs : I s t) (h : l.foldlM f s = .ok s') (hs' : P s') :
    ∃ t', l.foldlM g t = .ok t' ∧ I s' t' := by
  induction l generalizing s t with
  | nil =>
    cases h
    exact ⟨t, rfl, hs⟩
  | cons a l ih =>
    obtain ⟨s₁, hf, hrest⟩ := bind_eq_ok.mp h
    obtain ⟨t₁, hg, hnext⟩ := hstep s t a s₁ hs hf (foldlM_back hback hrest hs')
    obtain ⟨t', hl, ht'⟩ := ih hnext hrest
    exact ⟨t', bind_eq_ok.mpr ⟨t₁, hg, hl⟩, ht'⟩

theorem foldlM_follows {I : σ → τ → Prop} {f : σ → α → Except ε σ} {g : τ → α → Except ε' τ}
    (hstep : ∀ s t a s', I s t → f s a = .ok s' → ∃ t', g t a = .ok t' ∧ I s' t') {l : List α}
    {s s' : σ} {t : τ} (hs : I s t) (h : l.foldlM f s = .ok s') :
    ∃ t', l.foldlM g t = .ok t' ∧ I s' t' :=
  foldlM_follows_of (P := fun _ => True) (fun _ _ _ _ _ => trivial)
    (fun s t a s' hs hf _ => hstep s t a s' hs hf) hs h trivial

/-- Programs that agree on a list. -/
theorem mapM_congr {f g : α → Except ε β} {l : List α} (h : ∀ a ∈ l, f a = g a) :
    l.mapM f = l.mapM g := by
  induction l with
  | nil => rfl
  | cons a l ih =>
    rw [List.mapM_cons, List.mapM_cons, h a List.mem_cons_self,
      ih fun b hb => h b (List.mem_cons_of_mem a hb)]

end Except
