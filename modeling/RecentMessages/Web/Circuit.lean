/-
RecentMessages/Web/Circuit.lean

The circuit of a repair provider (`web/repair.rs`).

A provider that fails too often is left alone for `openDuration`; then a single
attempt is let through as a probe.  `Provider.beginAttempt` and
`Provider.finishAttempt` are the two operations on the circuit, and
`RepairClient.step` is the part of `fetch_provider` around them: an attempt waits
for a permit, up to its deadline, and only an attempt with a permit makes a
request and reports its outcome.

* `circuit_never_stuck` — the circuit is never left waiting for a probe that is
  gone, exactly when no probe gives up its wait as the last attempt;
* `single_probe` — no two probes run at a time, exactly when no attempt begins
  while a probe runs that an older attempt's failure has overtaken for as long as
  `openDuration`.
-/
import RecentMessages.Library.KeyTable
import RecentMessages.Library.Runs
import RecentMessages.Storage.Record
import Mathlib.Logic.Function.Basic

namespace RecentMessages

/-! ### The circuit -/

/-- The circuit of a provider; an `Instant` counts nanoseconds. -/
structure CircuitState where
  consecutiveFailures : ℕ
  openedAt : Option ℕ
  halfOpenProbeInflight : Bool
  deriving DecidableEq, Repr

/-- `CircuitState::default`. -/
def CircuitState.default : CircuitState := ⟨0, none, false⟩

/-- The settings of a provider that its circuit depends on. -/
structure Provider where
  failureThreshold : ℕ
  openDuration : ℕ
  failureThreshold_pos : 0 < failureThreshold

/-- `parse_provider`: a threshold of zero counts as one. -/
def parseProvider (failureThreshold openDuration : ℕ) : Provider where
  failureThreshold := max failureThreshold 1
  openDuration := openDuration
  failureThreshold_pos := lt_max_of_lt_right Nat.one_pos

namespace Provider

/-- `begin_attempt`: whether the attempt is admitted, and the circuit after it. -/
def beginAttempt (provider : Provider) (state : CircuitState) (now : ℕ) : Bool × CircuitState :=
  match state.openedAt with
  | none => (true, state)
  | some openedAt =>
    if now - openedAt < provider.openDuration || state.halfOpenProbeInflight then
      (false, state)
    else
      (true, { state with halfOpenProbeInflight := true })

/-- `finish_attempt`. -/
def finishAttempt (provider : Provider) (state : CircuitState) (succeeded : Bool) (now : ℕ) :
    CircuitState :=
  if succeeded then
    .default
  else
    -- `saturating_add` on a `u32`
    let consecutiveFailures := min (state.consecutiveFailures + 1) (2 ^ 32 - 1)
    { consecutiveFailures
      openedAt :=
        if state.openedAt.isSome || provider.failureThreshold ≤ consecutiveFailures then some now
        else state.openedAt
      halfOpenProbeInflight := false }

variable {provider : Provider} {state : CircuitState} {now : ℕ}

/-- **What an attempt finds**: a closed circuit; an open one that lets it through as
the probe; or one that does not let it through, and does not change. -/
theorem beginAttempt_cases (provider : Provider) (state : CircuitState) (now : ℕ) :
    (state.openedAt = none ∧ provider.beginAttempt state now = (true, state)) ∨
      (∃ openedAt, state.openedAt = some openedAt ∧ provider.openDuration ≤ now - openedAt ∧
        state.halfOpenProbeInflight = false ∧
        provider.beginAttempt state now = (true, { state with halfOpenProbeInflight := true })) ∨
      (∃ openedAt, state.openedAt = some openedAt ∧
        (now - openedAt < provider.openDuration ∨ state.halfOpenProbeInflight = true) ∧
        provider.beginAttempt state now = (false, state)) := by
  unfold beginAttempt
  rcases hopened : state.openedAt with - | openedAt
  · exact .inl ⟨rfl, rfl⟩
  · by_cases hwait : now - openedAt < provider.openDuration ∨ state.halfOpenProbeInflight = true
    · exact .inr (.inr ⟨openedAt, rfl, hwait, if_pos (by simpa using hwait)⟩)
    · obtain ⟨hle, hflag⟩ := not_or.mp hwait
      refine .inr (.inl ⟨openedAt, rfl, not_lt.mp hle, Bool.eq_false_iff.mpr hflag, ?_⟩)
      exact if_neg (by simpa using hwait)

theorem halfOpenProbeInflight_finishAttempt (provider : Provider) (state : CircuitState)
    (succeeded : Bool) (now : ℕ) :
    (provider.finishAttempt state succeeded now).halfOpenProbeInflight = false := by
  cases succeeded <;> rfl

/-- A failure leaves an open circuit open, from now on. -/
theorem openedAt_finishAttempt_of_isSome (h : state.openedAt.isSome) :
    (provider.finishAttempt state false now).openedAt = some now := by
  simp [finishAttempt, h]

end Provider

/-! ### Attempts -/

/-- How a request to a provider ends: with an answer whose messages all, or not all,
carry an identity, with an error, or at the deadline. -/
inductive Outcome
  | fetched (identityComplete : Bool)
  | failed
  | timedOut
  deriving DecidableEq, Repr

/-- What `fetch_provider` reports to the circuit. -/
def Outcome.succeeded : Outcome → Bool
  | fetched identityComplete => identityComplete
  | failed => false
  | timedOut => false

/-- An admitted attempt that has not ended; before it has a permit it waits for one. -/
structure Attempt (ι : Type) where
  id : ℕ
  provider : ι
  deadline : ℕ
  permit : Bool
  /-- History: the circuit was open when the attempt was admitted, and no attempt
  of the provider has succeeded since. -/
  sinceOpening : Bool
  /-- History: when another attempt of the provider last failed. -/
  overtakenAt : Option ℕ
  deriving DecidableEq, Repr

/-- What the end of another attempt of the provider does to the history. -/
def Attempt.overtake {ι : Type} (succeeded : Bool) (now : ℕ) (attempt : Attempt ι) : Attempt ι :=
  if succeeded then { attempt with sinceOpening := false }
  else { attempt with overtakenAt := some now }

theorem Attempt.id_overtake {ι : Type} (succeeded : Bool) (now : ℕ) (attempt : Attempt ι) :
    (attempt.overtake succeeded now).id = attempt.id := by
  cases succeeded <;> rfl

theorem Attempt.sinceOpening_of_overtake {ι : Type} {succeeded : Bool} {now : ℕ}
    {attempt : Attempt ι} (h : (attempt.overtake succeeded now).sinceOpening = true) :
    attempt.sinceOpening = true := by
  cases succeeded with
  | true => cases h
  | false => exact h

theorem Attempt.provider_overtake {ι : Type} (succeeded : Bool) (now : ℕ) (attempt : Attempt ι) :
    (attempt.overtake succeeded now).provider = attempt.provider := by
  cases succeeded <;> rfl

/-- The settings of the client, for providers named by `ι`. -/
structure RepairClient (ι : Type) where
  providers : ι → Provider
  requestTimeout : ℕ
  maxInflight : ℕ

/-- The circuits, the running attempts and the free permits. -/
structure Repairs (ι : Type) where
  circuits : ι → CircuitState
  attempts : KeyTable (Attempt.id (ι := ι))
  permits : ℕ
  nextId : ℕ

inductive RepairAction (ι : Type)
  /-- A fetch that started at `started` tries a provider. -/
  | beginAttempt (provider : ι) (started now : ℕ)
  | acquire (id : ℕ)
  | giveUp (id now : ℕ)
  | finish (id : ℕ) (outcome : Outcome) (now : ℕ)
  deriving DecidableEq, Repr

namespace RepairClient

variable {ι : Type} [DecidableEq ι]

/-- A new client. -/
def start (client : RepairClient ι) : Repairs ι where
  circuits _ := .default
  attempts := KeyTable.empty
  permits := client.maxInflight
  nextId := 0

/-- An admitted attempt of a fetch that started at `started`. -/
def admitted (client : RepairClient ι) (id : ℕ) (provider : ι) (started : ℕ)
    (circuit : CircuitState) : Attempt ι where
  id := id
  provider := provider
  deadline := started + client.requestTimeout
  permit := false
  sinceOpening := circuit.openedAt.isSome
  overtakenAt := none

/-- `fetch` up to `begin_attempt`, for one provider. -/
def beginAttempt (client : RepairClient ι) (s : Repairs ι) (provider : ι) (started now : ℕ) :
    Repairs ι :=
  match (client.providers provider).beginAttempt (s.circuits provider) now with
  | (false, _) => s  -- observed as "circuit_open"
  | (true, circuit) =>
    { s with
      circuits := Function.update s.circuits provider circuit
      attempts := s.attempts.insertIgnore (client.admitted s.nextId provider started circuit)
      nextId := s.nextId + 1 }

/-- The attempt gets a permit. -/
def acquire (s : Repairs ι) (id : ℕ) : Repairs ι :=
  match s.attempts.lookup id with
  | none => s
  | some attempt =>
    if !attempt.permit && 0 < s.permits then
      { s with
        attempts := s.attempts.modify id (fun a => { a with permit := true }) fun _ => rfl
        permits := s.permits - 1 }
    else s

/-- Whether the wait for a permit may time out: an attempt polls for its permit
first, so none is free then. -/
def mayGiveUp (s : Repairs ι) (attempt : Attempt ι) (now : ℕ) : Bool :=
  !attempt.permit && s.permits = 0 && attempt.deadline ≤ now

/-- The wait for a permit times out; the circuit is not told. -/
def giveUp (s : Repairs ι) (id now : ℕ) : Repairs ι :=
  match s.attempts.lookup id with
  | none => s
  | some attempt =>
    if mayGiveUp s attempt now then { s with attempts := s.attempts.erase id } else s

/-- The request of an attempt with a permit ends. -/
def finish (client : RepairClient ι) (s : Repairs ι) (id : ℕ) (outcome : Outcome) (now : ℕ) :
    Repairs ι :=
  match s.attempts.lookup id with
  | none => s
  | some attempt =>
    if attempt.permit && (outcome ≠ .timedOut || attempt.deadline ≤ now) then
      { s with
        circuits := Function.update s.circuits attempt.provider
          ((client.providers attempt.provider).finishAttempt (s.circuits attempt.provider)
            outcome.succeeded now)
        attempts := (s.attempts.erase id).updateWhere (·.provider = attempt.provider)
          (Attempt.overtake outcome.succeeded now) (Attempt.id_overtake _ _)
        permits := s.permits + 1 }
    else s

/-- One step of the attempts on all providers. -/
def step (client : RepairClient ι) (s : Repairs ι) : RepairAction ι → Repairs ι
  | .beginAttempt provider started now => client.beginAttempt s provider started now
  | .acquire id => acquire s id
  | .giveUp id now => giveUp s id now
  | .finish id outcome now => client.finish s id outcome now

end RepairClient

namespace Repairs

variable {ι : Type} {client : RepairClient ι} {s : Repairs ι}

/-- Identities of attempts are not given twice. -/
def Fresh (s : Repairs ι) : Prop := ∀ x ∈ s.attempts.rows, x.id < s.nextId

/-- The attempt is a probe: admitted since the circuit of its provider opened. -/
def Probes (s : Repairs ι) (provider : ι) (x : Attempt ι) : Prop :=
  x ∈ s.attempts.rows ∧ x.provider = provider ∧ x.sinceOpening = true

/-- The probes are those the circuit knows of: unless another attempt failed since,
the flag is up for them; otherwise the circuit counts from that failure. -/
def Known (s : Repairs ι) : Prop :=
  ∀ p x, s.Probes p x → (s.circuits p).openedAt.isSome ∧
    (x.overtakenAt = none → (s.circuits p).halfOpenProbeInflight = true) ∧
    ∀ t, x.overtakenAt = some t →
      (s.circuits p).openedAt = some t ∧ (s.circuits p).halfOpenProbeInflight = false

/-- The circuit of a provider without running attempts waits for no probe: it
admits the next attempt, unless it is open and `openDuration` has not passed. -/
def Unstuck (client : RepairClient ι) (s : Repairs ι) : Prop :=
  ∀ p, (∀ x ∈ s.attempts.rows, x.provider ≠ p) →
    (s.circuits p).halfOpenProbeInflight = false ∧
      ∀ now, (∀ openedAt, (s.circuits p).openedAt = some openedAt →
          (client.providers p).openDuration ≤ now - openedAt) →
        ((client.providers p).beginAttempt (s.circuits p) now).1 = true

/-- The action is the last running attempt of a provider giving up its wait for a
permit while the circuit waits for a probe. -/
def AbandonsProbe (s : Repairs ι) : RepairAction ι → Prop
  | .giveUp id now => ∃ x ∈ s.attempts.rows, x.id = id ∧
      RepairClient.mayGiveUp s x now = true ∧
      (s.circuits x.provider).halfOpenProbeInflight = true ∧
      ∀ y ∈ s.attempts.rows, y.provider = x.provider → y = x
  | _ => False

theorem unstuck_iff : s.Unstuck client ↔ ∀ p, (∀ x ∈ s.attempts.rows, x.provider ≠ p) →
    (s.circuits p).halfOpenProbeInflight = false := by
  refine forall_congr' fun p => forall_congr' fun _ => and_iff_left_of_imp fun hflag now hpast => ?_
  rcases (client.providers p).beginAttempt_cases (s.circuits p) now with
    ⟨-, hbegin⟩ | ⟨-, -, -, -, hbegin⟩ | ⟨openedAt, hopened, hwait, -⟩
  · rw [hbegin]
  · rw [hbegin]
  · exfalso
    rcases hwait with hlt | htrue
    · exact absurd (hpast openedAt hopened) (not_le.mpr hlt)
    · rw [hflag] at htrue
      cases htrue

/-! ### What a step does -/

/-- **A permit** changes nothing else about an attempt. -/
theorem acquire_spec (s : Repairs ι) (id : ℕ) :
    (RepairClient.acquire s id).circuits = s.circuits ∧
      (RepairClient.acquire s id).nextId = s.nextId ∧
      ∃ f : Attempt ι → Attempt ι,
        (RepairClient.acquire s id).attempts.rows = s.attempts.rows.map f ∧
        ∀ x, (f x).id = x.id ∧ (f x).provider = x.provider ∧
          (f x).sinceOpening = x.sinceOpening ∧ (f x).overtakenAt = x.overtakenAt := by
  unfold RepairClient.acquire
  have hsame : ∃ f : Attempt ι → Attempt ι, s.attempts.rows = s.attempts.rows.map f ∧
      ∀ x, (f x).id = x.id ∧ (f x).provider = x.provider ∧
        (f x).sinceOpening = x.sinceOpening ∧ (f x).overtakenAt = x.overtakenAt :=
    ⟨fun x => x, (List.map_id' _).symm, fun x => ⟨rfl, rfl, rfl, rfl⟩⟩
  split
  · exact ⟨rfl, rfl, hsame⟩
  · split
    · refine ⟨rfl, rfl, _, rfl, fun x => ?_⟩
      split <;> exact ⟨rfl, rfl, rfl, rfl⟩
    · exact ⟨rfl, rfl, hsame⟩

/-- **Giving up** takes an attempt that may give up away, and nothing else. -/
theorem giveUp_cases (s : Repairs ι) (id now : ℕ) :
    (∃ x ∈ s.attempts.rows, x.id = id ∧ RepairClient.mayGiveUp s x now = true ∧
      RepairClient.giveUp s id now = { s with attempts := s.attempts.erase id }) ∨
    ((∀ x ∈ s.attempts.rows, x.id = id → RepairClient.mayGiveUp s x now = false) ∧
      RepairClient.giveUp s id now = s) := by
  unfold RepairClient.giveUp
  rcases hlookup : s.attempts.lookup id with - | x
  · exact .inr ⟨fun x hx hid => absurd hid (KeyTable.lookup_eq_none.mp hlookup x hx), rfl⟩
  · obtain ⟨hx, hid⟩ := KeyTable.lookup_eq_some.mp hlookup
    cases hmay : RepairClient.mayGiveUp s x now with
    | true => exact .inl ⟨x, hx, hid, hmay, if_pos hmay⟩
    | false =>
      refine .inr ⟨fun y hy hyid => ?_, if_neg (Bool.eq_false_iff.mp hmay)⟩
      rwa [s.attempts.eq_of_key hy hx (hyid.trans hid.symm)]

variable [DecidableEq ι]

/-- **An attempt begins**, and is entered, or the circuit turns it away. -/
theorem beginAttempt_cases (client : RepairClient ι) (hs : s.Fresh) (p : ι)
    (started now : ℕ) :
    (∃ circuit, (client.beginAttempt s p started now).circuits =
        Function.update s.circuits p circuit ∧
      (client.beginAttempt s p started now).attempts.rows =
        s.attempts.rows ++ [client.admitted s.nextId p started circuit] ∧
      (client.beginAttempt s p started now).nextId = s.nextId + 1 ∧
      ((circuit = s.circuits p ∧ circuit.openedAt = none) ∨
        ∃ openedAt, (s.circuits p).openedAt = some openedAt ∧
          (client.providers p).openDuration ≤ now - openedAt ∧
          (s.circuits p).halfOpenProbeInflight = false ∧
          circuit = { s.circuits p with halfOpenProbeInflight := true })) ∨
    (∃ openedAt, (s.circuits p).openedAt = some openedAt ∧
      (now - openedAt < (client.providers p).openDuration ∨
        (s.circuits p).halfOpenProbeInflight = true) ∧
      client.beginAttempt s p started now = s) := by
  have hfree : s.attempts.lookup s.nextId = none :=
    KeyTable.lookup_eq_none.mpr fun x hx => (hs x hx).ne
  have hentered : ∀ circuit,
      (client.providers p).beginAttempt (s.circuits p) now = (true, circuit) →
      (client.beginAttempt s p started now).circuits = Function.update s.circuits p circuit ∧
        (client.beginAttempt s p started now).attempts.rows =
          s.attempts.rows ++ [client.admitted s.nextId p started circuit] ∧
        (client.beginAttempt s p started now).nextId = s.nextId + 1 := by
    intro circuit hbegin
    rw [RepairClient.beginAttempt, hbegin]
    exact ⟨rfl, KeyTable.insertIgnore_of_none hfree, rfl⟩
  rcases (client.providers p).beginAttempt_cases (s.circuits p) now with
    ⟨hopened, hbegin⟩ | ⟨openedAt, hopened, hle, hflag, hbegin⟩ | ⟨openedAt, hopened, hwait, hbegin⟩
  · obtain ⟨hcircuits, hrows, hnext⟩ := hentered _ hbegin
    exact .inl ⟨_, hcircuits, hrows, hnext, .inl ⟨rfl, hopened⟩⟩
  · obtain ⟨hcircuits, hrows, hnext⟩ := hentered _ hbegin
    exact .inl ⟨_, hcircuits, hrows, hnext, .inr ⟨openedAt, hopened, hle, hflag, rfl⟩⟩
  · refine .inr ⟨openedAt, hopened, hwait, ?_⟩
    rw [RepairClient.beginAttempt, hbegin]

/-- **The end of a request** takes its attempt away, tells the circuit, and enters
the history of the provider's other attempts. -/
theorem finish_cases (client : RepairClient ι) (s : Repairs ι) (id : ℕ) (outcome : Outcome)
    (now : ℕ) :
    (∃ x ∈ s.attempts.rows, x.id = id ∧
      (client.finish s id outcome now).circuits = Function.update s.circuits x.provider
        ((client.providers x.provider).finishAttempt (s.circuits x.provider) outcome.succeeded
          now) ∧
      (client.finish s id outcome now).nextId = s.nextId ∧
      ∀ y', y' ∈ (client.finish s id outcome now).attempts.rows ↔
        ∃ y ∈ s.attempts.rows, y.id ≠ id ∧
          y' = if y.provider = x.provider then y.overtake outcome.succeeded now else y) ∨
    client.finish s id outcome now = s := by
  unfold RepairClient.finish
  rcases hlookup : s.attempts.lookup id with - | x
  · exact .inr rfl
  · obtain ⟨hx, hid⟩ := KeyTable.lookup_eq_some.mp hlookup
    dsimp only
    split
    · refine .inl ⟨x, hx, hid, rfl, rfl, fun y' => ?_⟩
      simp only [KeyTable.mem_updateWhere, KeyTable.mem_erase, decide_eq_true_eq, and_assoc]
    · exact .inr rfl

/-- Identities stay fresh. -/
theorem fresh_step (hs : s.Fresh) (a : RepairAction ι) : (client.step s a).Fresh := by
  cases a with
  | beginAttempt p started now =>
    -- only here an identity is given
    rcases beginAttempt_cases client hs p started now with
      ⟨circuit, -, hrows, hnext, -⟩ | ⟨-, -, -, heq⟩
    · intro x hx
      rw [RepairClient.step, hrows, List.mem_append, List.mem_singleton] at hx
      rw [RepairClient.step, hnext]
      rcases hx with hx | rfl
      · exact (hs x hx).trans (Nat.lt_succ_self _)
      · exact Nat.lt_succ_self s.nextId
    · rwa [RepairClient.step, heq]
  | acquire id =>
    obtain ⟨-, hnext, f, hrows, hf⟩ := acquire_spec s id
    intro y hy
    rw [RepairClient.step, hrows, List.mem_map] at hy
    obtain ⟨x, hx, rfl⟩ := hy
    rw [RepairClient.step, hnext, (hf x).1]
    exact hs x hx
  | giveUp id now =>
    rcases giveUp_cases s id now with ⟨-, -, -, -, heq⟩ | ⟨-, heq⟩
    · rw [RepairClient.step, heq]
      exact fun x hx => hs x (KeyTable.mem_erase.mp hx).1
    · rwa [RepairClient.step, heq]
  | finish id outcome now =>
    rcases finish_cases client s id outcome now with ⟨x, -, -, -, hnext, hrows⟩ | heq
    · intro y' hy'
      obtain ⟨y, hy, -, rfl⟩ := (hrows y').mp hy'
      rw [RepairClient.step, hnext]
      split
      · rw [Attempt.id_overtake]
        exact hs y hy
      · exact hs y hy
    · rwa [RepairClient.step, heq]

instance (s : Repairs ι) (p : ι) (x : Attempt ι) : Decidable (s.Probes p x) :=
  inferInstanceAs (Decidable (_ ∧ _ ∧ _))

/-! ### The flag of the probe -/

/-- An attempt that gives up leaves the flag up exactly when nobody is left to take it down. -/
theorem unstuck_giveUp (h : s.Unstuck client) (id now : ℕ) :
    (client.step s (.giveUp id now)).Unstuck client ↔ ¬ s.AbandonsProbe (.giveUp id now) := by
  rw [unstuck_iff] at h ⊢
  rcases giveUp_cases s id now with ⟨x, hx, hid, hmay, heq⟩ | ⟨hmay, heq⟩
  · rw [RepairClient.step, heq]
    constructor
    · rintro h' ⟨y, hy, hyid, -, hflag, honly⟩
      -- without `y` its provider has no attempt left
      have hlast := h' y.provider fun z hz hprovider => by
        obtain ⟨hz, hzid⟩ := KeyTable.mem_erase.mp hz
        rw [honly z hz hprovider] at hzid
        exact hzid hyid
      exact Bool.noConfusion (hflag.symm.trans hlast)
    · intro hnot q hq
      by_cases hany : ∃ y ∈ s.attempts.rows, y.provider = q
      · -- all attempts of `q` are the one that gave up
        have honly : ∀ y ∈ s.attempts.rows, y.provider = q → y = x := by
          intro y hy hprovider
          by_contra hne
          have hyid : y.id ≠ id := fun hyid =>
            hne (s.attempts.eq_of_key hy hx (hyid.trans hid.symm))
          exact hq y (KeyTable.mem_erase.mpr ⟨hy, hyid⟩) hprovider
        obtain ⟨y, hy, hprovider⟩ := hany
        have hxq : x.provider = q := honly y hy hprovider ▸ hprovider
        refine Bool.eq_false_iff.mpr fun hflag => hnot ⟨x, hx, hid, hmay, ?_, ?_⟩
        · rwa [hxq]
        · rwa [hxq]
      · exact h q fun y hy hprovider => hany ⟨y, hy, hprovider⟩
  · rw [RepairClient.step, heq]
    refine iff_of_true h ?_
    rintro ⟨x, hx, hid, htrue, -⟩
    rw [hmay x hx hid] at htrue
    cases htrue

/-- A step leaves the circuit unstuck exactly when it abandons no probe. -/
theorem unstuck_step (hs : s.Fresh) (h : s.Unstuck client) (a : RepairAction ι) :
    (client.step s a).Unstuck client ↔ ¬ s.AbandonsProbe a := by
  have hflags := unstuck_iff.mp h
  cases a with
  | beginAttempt p started now =>
    -- an attempt that is admitted is running, whatever flag it sets
    refine iff_of_true (unstuck_iff.mpr ?_) id
    rcases beginAttempt_cases client hs p started now with
      ⟨circuit, hcircuits, hrows, -, -⟩ | ⟨-, -, -, heq⟩
    · intro q hq
      rw [RepairClient.step, hrows] at hq
      have hne : q ≠ p :=
        Ne.symm (hq _ (List.mem_append_right _ (List.mem_singleton_self _)))
      rw [RepairClient.step, hcircuits, Function.update_of_ne hne]
      exact hflags q fun x hx => hq x (List.mem_append_left _ hx)
    · rwa [RepairClient.step, heq]
  | acquire id =>
    -- a permit changes neither the circuits nor which attempts are running
    refine iff_of_true (unstuck_iff.mpr ?_) not_false
    obtain ⟨hcircuits, -, f, hrows, hf⟩ := acquire_spec s id
    intro q hq
    rw [RepairClient.step, hcircuits]
    refine hflags q fun x hx => ?_
    rw [← (hf x).2.1]
    apply hq
    rw [RepairClient.step, hrows]
    exact List.mem_map_of_mem hx
  -- the circuit is not told of it
  | giveUp id now => exact unstuck_giveUp h id now
  | finish id outcome now =>
    -- an attempt that ends clears the flag of its provider
    refine iff_of_true (unstuck_iff.mpr ?_) not_false
    rcases finish_cases client s id outcome now with ⟨x, hx, hid, hcircuits, -, hrows⟩ | heq
    · intro q hq
      rw [RepairClient.step, hcircuits]
      by_cases hqx : q = x.provider
      · rw [hqx, Function.update_self]
        exact Provider.halfOpenProbeInflight_finishAttempt _ _ _ _
      · rw [Function.update_of_ne hqx]
        refine hflags q fun y hy hprovider => ?_
        have hyid : y.id ≠ id := fun hyid =>
          hqx (s.attempts.eq_of_key hy hx (hyid.trans hid.symm) ▸ hprovider.symm)
        refine hq y ((hrows y).mpr ⟨y, hy, hyid, ?_⟩) hprovider
        rw [if_neg fun heq => hqx (hprovider.symm.trans heq)]
    · rwa [RepairClient.step, heq]

/-- **The circuit never waits for a probe that is gone**, exactly when no attempt
gives up its wait for a permit as the last one of a provider whose circuit waits
for a probe. -/
theorem circuit_never_stuck (client : RepairClient ι) (actions : List (RepairAction ι)) :
    Throughout client.step (Unstuck client) client.start actions ↔
      Along client.step (fun s a => ¬ s.AbandonsProbe a) client.start actions :=
  throughout_iff_along (I := Fresh) (fun _ a hs h => unstuck_step hs h a)
    (fun _ a hs _ _ => fresh_step hs a) nofun
    (unstuck_iff.mpr fun _ _ => rfl)

/-- Two providers that open after one failure, for five nanoseconds, and a single
permit. -/
def sampleClient : RepairClient Bool := ⟨fun _ => parseProvider 1 5, 10, 1⟩

/-- Provider `false` fails and opens; while `true` holds the only permit, the probe
of `false` gives up its wait. -/
def abandoningActions : List (RepairAction Bool) :=
  [.beginAttempt false 0 0, .acquire 0, .finish 0 .failed 1, .beginAttempt true 6 6, .acquire 1,
    .beginAttempt false 6 6, .giveUp 2 16, .finish 1 .timedOut 16]

/-- No attempt runs any more, and the circuit of `false` will never admit one. -/
theorem circuit_stuck :
    ¬ Throughout sampleClient.step (Unstuck sampleClient) sampleClient.start abandoningActions ∧
      ∀ now, ((sampleClient.providers false).beginAttempt
        ((abandoningActions.foldl sampleClient.step sampleClient.start).circuits false)
          now).1 = false := by
  have hcircuit : (abandoningActions.foldl sampleClient.step sampleClient.start).circuits false =
      ⟨1, some 1, true⟩ := by decide
  have hnone : (abandoningActions.foldl sampleClient.step sampleClient.start).attempts.rows = [] := by
    decide
  constructor
  · intro h
    have hflag := (h.last false (by rw [hnone]; nofun)).1
    rw [hcircuit] at hflag
    cases hflag
  · intro now
    rw [hcircuit]
    simp [Provider.beginAttempt]

end Repairs

/-! ### Two probes -/

namespace Repairs

variable {ι : Type} {client : RepairClient ι} {s : Repairs ι}

/-- No two probes of a provider run at a time. -/
def SingleProbe (s : Repairs ι) : Prop :=
  ∀ p x y, s.Probes p x → s.Probes p y → x = y

/-- The action is an attempt that begins while a probe of the provider is running
that was overtaken by the failure of another attempt, `openDuration` ago or more. -/
def SecondProbe (client : RepairClient ι) (s : Repairs ι) : RepairAction ι → Prop
  | .beginAttempt p _ now => ∃ x t, s.Probes p x ∧ x.overtakenAt = some t ∧
      (client.providers p).openDuration ≤ now - t
  | _ => False

/-- What is known of the attempts in a run without second probes. -/
structure Orderly (s : Repairs ι) : Prop where
  fresh : s.Fresh
  known : s.Known

/-- A probe that the circuit does not wait for was overtaken, and the circuit counts
from then. -/
theorem Known.overtaken (hs : s.Known) {p : ι} {x : Attempt ι} (hx : s.Probes p x)
    (hflag : (s.circuits p).halfOpenProbeInflight = false) :
    ∃ t, x.overtakenAt = some t ∧ (s.circuits p).openedAt = some t := by
  obtain ⟨-, hnone, hsome⟩ := hs p x hx
  rcases hover : x.overtakenAt with - | t
  · exact Bool.noConfusion (hflag.symm.trans (hnone hover))
  · exact ⟨t, rfl, (hsome t hover).1⟩

/-- A new attempt on a closed circuit is no probe. -/
theorem probes_of_closed {s' : Repairs ι} {p q : ι} {x : Attempt ι} {id started : ℕ}
    {circuit : CircuitState} (hclosed : circuit.openedAt = none)
    (hrows : s'.attempts.rows = s.attempts.rows ++ [client.admitted id p started circuit]) :
    s'.Probes q x ↔ s.Probes q x := by
  unfold Probes
  rw [hrows, List.mem_append, List.mem_singleton, or_and_right]
  refine or_iff_left ?_
  rintro ⟨rfl, -, hsince⟩
  rw [RepairClient.admitted, hclosed] at hsince
  cases hsince

/-- A new attempt on an open circuit is one. -/
theorem probes_of_open {s' : Repairs ι} {p q : ι} {x : Attempt ι} {id started : ℕ}
    {circuit : CircuitState} (hopen : circuit.openedAt.isSome)
    (hrows : s'.attempts.rows = s.attempts.rows ++ [client.admitted id p started circuit]) :
    s'.Probes q x ↔ s.Probes q x ∨ (x = client.admitted id p started circuit ∧ p = q) := by
  unfold Probes
  rw [hrows, List.mem_append, List.mem_singleton, or_and_right]
  refine or_congr_right (and_congr_right ?_)
  rintro rfl
  exact and_iff_left hopen

variable [DecidableEq ι]

/-- An attempt is a second probe, or leaves at most one running. -/
theorem singleProbe_beginAttempt (hs : s.Orderly) (h : s.SingleProbe) (p : ι)
    (started now : ℕ) :
    (client.step s (.beginAttempt p started now)).SingleProbe ↔
      ¬ s.SecondProbe client (.beginAttempt p started now) := by
  rcases beginAttempt_cases client hs.fresh p started now with
    ⟨circuit, -, hrows, -, hcase⟩ | ⟨openedAt, hopened, hwait, heq⟩
  · rcases hcase with ⟨rfl, hclosed⟩ | ⟨openedAt, hopened, hle, hflag, rfl⟩
    · -- the circuit is closed, so no probe of `p` runs
      refine iff_of_true ?_ ?_
      · intro q x y hx hy
        exact h q x y ((probes_of_closed hclosed hrows).mp hx)
          ((probes_of_closed hclosed hrows).mp hy)
      · rintro ⟨x, t, hx, -⟩
        have hopen := (hs.known p x hx).1
        rw [hclosed] at hopen
        cases hopen
    · have hopen : (s.circuits p).openedAt.isSome := by rw [hopened]; rfl
      constructor
      · rintro h' ⟨x, t, hx, -, -⟩
        -- `x` and the new attempt are both probes
        have heq := h' p x _ ((probes_of_open hopen hrows).mpr (.inl hx))
          ((probes_of_open hopen hrows).mpr (.inr ⟨rfl, rfl⟩))
        have hlt := hs.fresh x hx.1
        rw [heq] at hlt
        exact lt_irrefl _ hlt
      · intro hnot
        have hnone : ∀ x, ¬ s.Probes p x := by
          intro x hx
          obtain ⟨t, hover, hopened'⟩ := hs.known.overtaken hx hflag
          obtain rfl : openedAt = t := Option.some.inj (hopened.symm.trans hopened')
          exact hnot ⟨x, openedAt, hx, hover, hle⟩
        intro q x y hx hy
        rcases (probes_of_open hopen hrows).mp hx with hx | ⟨rfl, rfl⟩
        · rcases (probes_of_open hopen hrows).mp hy with hy | ⟨rfl, rfl⟩
          · exact h q x y hx hy
          · exact absurd hx (hnone x)
        · rcases (probes_of_open hopen hrows).mp hy with hy | ⟨rfl, -⟩
          · exact absurd hy (hnone y)
          · rfl
  · rw [RepairClient.step, heq]
    refine iff_of_true h ?_
    rintro ⟨x, t, hx, hover, hle⟩
    obtain ⟨hopened', hflag⟩ := (hs.known p x hx).2.2 t hover
    obtain rfl : openedAt = t := Option.some.inj (hopened.symm.trans hopened')
    rcases hwait with hlt | htrue
    · exact absurd hle (not_le.mpr hlt)
    · exact Bool.noConfusion (hflag.symm.trans htrue)

/-- A step leaves at most one probe running exactly when it begins no second one. -/
theorem singleProbe_step (hs : s.Orderly) (h : s.SingleProbe) (a : RepairAction ι) :
    (client.step s a).SingleProbe ↔ ¬ s.SecondProbe client a := by
  cases a with
  | beginAttempt p started now =>
    exact singleProbe_beginAttempt hs h p started now
  | acquire id =>
    refine iff_of_true ?_ not_false
    obtain ⟨-, -, f, hrows, hf⟩ := acquire_spec s id
    rintro q x' y' ⟨hx, hxq, hxs⟩ ⟨hy, hyq, hys⟩
    rw [RepairClient.step, hrows, List.mem_map] at hx hy
    obtain ⟨x, hx, rfl⟩ := hx
    obtain ⟨y, hy, rfl⟩ := hy
    rw [(hf x).2.1] at hxq
    rw [(hf x).2.2.1] at hxs
    rw [(hf y).2.1] at hyq
    rw [(hf y).2.2.1] at hys
    rw [h q x y ⟨hx, hxq, hxs⟩ ⟨hy, hyq, hys⟩]
  | giveUp id now =>
    refine iff_of_true ?_ not_false
    rcases giveUp_cases s id now with ⟨-, -, -, -, heq⟩ | ⟨-, heq⟩
    · rw [RepairClient.step, heq]
      rintro q x y ⟨hx, hxq⟩ ⟨hy, hyq⟩
      exact h q x y ⟨(KeyTable.mem_erase.mp hx).1, hxq⟩ ⟨(KeyTable.mem_erase.mp hy).1, hyq⟩
    · rwa [RepairClient.step, heq]
  | finish id outcome now =>
    refine iff_of_true ?_ not_false
    rcases finish_cases client s id outcome now with ⟨z, -, -, -, -, hrows⟩ | heq
    · -- the history marks no attempt as a probe that was none
      have hold : ∀ q x', (client.step s (.finish id outcome now)).Probes q x' →
          ∃ x, s.Probes q x ∧
            x' = if x.provider = z.provider then x.overtake outcome.succeeded now else x := by
        rintro q x' ⟨hx', hprovider, hsince⟩
        obtain ⟨x, hx, -, rfl⟩ := (hrows x').mp hx'
        refine ⟨x, ⟨hx, ?_, ?_⟩, rfl⟩
        · split at hprovider
          · rwa [Attempt.provider_overtake] at hprovider
          · exact hprovider
        · split at hsince
          · exact Attempt.sinceOpening_of_overtake hsince
          · exact hsince
      intro q x' y' hx' hy'
      obtain ⟨x, hx, rfl⟩ := hold q x' hx'
      obtain ⟨y, hy, rfl⟩ := hold q y' hy'
      rw [h q x y hx hy]
    · rwa [RepairClient.step, heq]

/-- An attempt that is not a second probe is known of. -/
theorem known_beginAttempt (hs : s.Orderly) {p : ι} {started now : ℕ}
    (ha : ¬ s.SecondProbe client (.beginAttempt p started now)) :
    (client.step s (.beginAttempt p started now)).Known := by
  rcases beginAttempt_cases client hs.fresh p started now with
    ⟨circuit, hcircuits, hrows, -, hcase⟩ | ⟨-, -, -, heq⟩
  · intro q x hx
    rw [RepairClient.step, hcircuits]
    rcases hcase with ⟨rfl, hclosed⟩ | ⟨openedAt, hopened, hle, hflag, rfl⟩
    · rw [Function.update_eq_self]
      exact hs.known q x ((probes_of_closed hclosed hrows).mp hx)
    · have hopen : (s.circuits p).openedAt.isSome := by rw [hopened]; rfl
      rcases (probes_of_open hopen hrows).mp hx with hprobe | ⟨rfl, rfl⟩
      · by_cases hqp : q = p
        · -- another probe of `p` would make this one the second
          subst hqp
          obtain ⟨t, hover, hopened'⟩ := hs.known.overtaken hprobe hflag
          obtain rfl : openedAt = t := Option.some.inj (hopened.symm.trans hopened')
          exact absurd ⟨x, openedAt, hprobe, hover, hle⟩ ha
        · rw [Function.update_of_ne hqp]
          exact hs.known q x hprobe
      · rw [Function.update_self]
        exact ⟨hopen, fun _ => rfl, nofun⟩
  · rw [RepairClient.step, heq]
    exact hs.known

/-- A failure overtakes the probes of its provider. -/
theorem known_finish (hs : s.Orderly) (id : ℕ) (outcome : Outcome) (now : ℕ) :
    (client.step s (.finish id outcome now)).Known := by
  rcases finish_cases client s id outcome now with ⟨z, hz, -, hcircuits, -, hrows⟩ | heq
  · rintro q x' ⟨hx', hprovider, hsince⟩
    obtain ⟨x, hx, -, rfl⟩ := (hrows x').mp hx'
    rw [RepairClient.step, hcircuits]
    by_cases hxz : x.provider = z.provider
    · rw [if_pos hxz] at hprovider hsince ⊢
      rw [Attempt.provider_overtake] at hprovider
      have hprobe : s.Probes q x := ⟨hx, hprovider, Attempt.sinceOpening_of_overtake hsince⟩
      obtain rfl : z.provider = q := hxz.symm.trans hprovider
      rw [Function.update_self]
      cases hsucceeded : outcome.succeeded with
      | true =>
        -- a success leaves no probe
        rw [hsucceeded] at hsince
        cases hsince
      | false =>
        rw [Provider.openedAt_finishAttempt_of_isSome (hs.known _ x hprobe).1]
        refine ⟨rfl, nofun, fun t ht => ⟨ht, ?_⟩⟩
        exact Provider.halfOpenProbeInflight_finishAttempt _ _ _ _
    · rw [if_neg hxz] at hprovider hsince ⊢
      rw [Function.update_of_ne fun hq => hxz (hprovider.trans hq)]
      exact hs.known q x ⟨hx, hprovider, hsince⟩
  · rw [RepairClient.step, heq]
    exact hs.known

/-- Without second probes the circuit goes on knowing of all probes. -/
theorem known_step (hs : s.Orderly) {a : RepairAction ι}
    (ha : ¬ s.SecondProbe client a) : (client.step s a).Known := by
  cases a with
  | beginAttempt p started now => exact known_beginAttempt hs ha
  | acquire id =>
    obtain ⟨hcircuits, -, f, hrows, hf⟩ := acquire_spec s id
    rintro q x' ⟨hx, hxq, hxs⟩
    rw [RepairClient.step, hrows, List.mem_map] at hx
    obtain ⟨x, hx, rfl⟩ := hx
    rw [RepairClient.step, hcircuits, (hf x).2.2.2]
    exact hs.known q x ⟨hx, (hf x).2.1 ▸ hxq, (hf x).2.2.1 ▸ hxs⟩
  | giveUp id now =>
    rcases giveUp_cases s id now with ⟨-, -, -, -, heq⟩ | ⟨-, heq⟩
    · rw [RepairClient.step, heq]
      rintro q x ⟨hx, hxq⟩
      exact hs.known q x ⟨(KeyTable.mem_erase.mp hx).1, hxq⟩
    · rw [RepairClient.step, heq]
      exact hs.known
  | finish id outcome now => exact known_finish hs id outcome now

/-- **No two probes run at a time**, exactly when no attempt begins while a probe is
running that the failure of another attempt has overtaken, `openDuration` ago or
more. -/
theorem single_probe (client : RepairClient ι) (actions : List (RepairAction ι)) :
    Throughout client.step SingleProbe client.start actions ↔
      Along client.step (fun s a => ¬ s.SecondProbe client a) client.start actions :=
  throughout_iff_along (fun _ a hs h => singleProbe_step hs h a)
    (fun _ a hs _ ha => ⟨fresh_step hs.fresh a, known_step hs ha⟩)
    ⟨nofun, fun _ _ h => absurd h.1 List.not_mem_nil⟩
    fun _ _ _ h => absurd h.1 List.not_mem_nil

/-- Two attempts begin on the closed circuit; the first fails, and `openDuration`
later a probe begins; then the second fails, and another probe begins. -/
def overtakingActions : List (RepairAction Unit) :=
  [.beginAttempt () 0 0, .beginAttempt () 0 0, .acquire 0, .acquire 1, .finish 0 .failed 1,
    .beginAttempt () 6 6, .acquire 2, .finish 1 .failed 7, .beginAttempt () 12 12, .acquire 3]

def patientClient : RepairClient Unit := ⟨fun _ => parseProvider 1 5, 100, 2⟩

/-- Two probes make their requests at the same time. -/
theorem two_probes :
    ¬ Throughout patientClient.step SingleProbe patientClient.start overtakingActions := by
  intro h
  have heq := h.last () ⟨2, (), 106, true, true, some 7⟩ ⟨3, (), 112, true, true, none⟩
    (by decide) (by decide)
  cases heq

end Repairs

end RecentMessages
