/-
RecentMessages/Control/Push.lean

Owner and replicas together (`cluster.rs`, `web/cluster_policy.rs`).

A call of `mutate` or `push` at the owner takes the mutation lock, writes, sends one
snapshot to every configured replica and waits for all answers.  Replicas also pull
snapshots on their own.  Nothing is assumed of the network: a message stays in flight
once it is sent and is delivered any number of times, in any order, or never; and a
call may fail or be abandoned at any await, also while its transaction still runs.
The receive lock of a replica is left out: it only rules out orders of steps.

`acknowledged_on_every_replica`: a mutation that returned `Ok` is on every configured
replica, and stays there whatever is delivered later.
-/
import RecentMessages.Control.Replication
import Mathlib.Data.Option.Basic
import Mathlib.Logic.Function.Basic

namespace RecentMessages

/-! ### The system -/

/-- Where a call at the owner is.  `committed` is the owner's revision when its
transaction ended. -/
inductive Call (ρ : Type)
  | idle
  /-- Before `mutation_lock.lock()`; without an operation the call is a `push`. -/
  | waiting (operation : Option Mutation)
  /-- With the lock, before the end of the transaction. -/
  | writing (operation : Mutation)
  /-- Before the snapshot of `push_unlocked`. -/
  | committed (result : Bool) (committed : Option ℤ)
  /-- In `join_all`, with the replicas that answered `true`. -/
  | pushing (result : Bool) (committed : Option ℤ) (acknowledged : List ρ)
  | returned (result : Except ClusterError Bool) (committed : Option ℤ)
  /-- The future is dropped; its transaction, if it was started, still runs. -/
  | abandoned (transaction : Option Mutation)
  deriving DecidableEq

/-- A snapshot on its way to a replica, as the body of a request that a call makes, or
as the answer to a pull. -/
structure Delivery (ρ : Type) where
  replica : ρ
  call : Option ℕ
  snapshot : Snapshot

/-- The owner, its replicas, and what is under way between them. -/
structure Fleet (ρ : Type) where
  owner : ClusterDb
  replicas : ρ → ClusterDb
  calls : ℕ → Call ρ
  mutationLock : Option ℕ
  deliveries : List (Delivery ρ)
  /-- The deliveries that `receive` has stored; `accept_snapshot` is not done. -/
  received : List (Delivery ρ)
  /-- The answers to calls. -/
  answers : List (ℕ × ρ)

/-- A step of the system. -/
inductive FleetAction (ρ : Type)
  | request (call : ℕ) (operation : Option Mutation)
  | lock (call : ℕ)
  | write (call : ℕ) (nowMs : ℕ)
  | send (call : ℕ)
  | acknowledge (call : ℕ) (replica : ρ)
  | finish (call : ℕ)
  | fail (call : ℕ)
  | abandon (call : ℕ)
  | pull (replica : ρ)
  | deliver (index : ℕ)
  | answer (index : ℕ)

namespace Fleet

variable {ρ : Type} [DecidableEq ρ] (env : ClusterEnv) (configured : List ρ)

/-- The system at first: the owner has some database, and every replica has been given
some snapshots. -/
def start (owner : ClusterDb) (history : ρ → List Snapshot) : Fleet ρ :=
  ⟨owner, fun replica => ClusterDb.replicaRun env (history replica), fun _ => .idle, none, [], [],
    []⟩

/-- The guard of the lock is dropped. -/
def release (s : Fleet ρ) (call : ℕ) : Fleet ρ :=
  { s with mutationLock := if s.mutationLock = some call then none else s.mutationLock }

def setCall (s : Fleet ρ) (call : ℕ) (phase : Call ρ) : Fleet ρ :=
  { s with calls := Function.update s.calls call phase }

def setReplica (s : Fleet ρ) (replica : ρ) (db : ClusterDb) : Fleet ρ :=
  { s with replicas := Function.update s.replicas replica db }

/-- The call returns. -/
def ret (s : Fleet ρ) (call : ℕ) (result : Except ClusterError Bool) (committed : Option ℤ) :
    Fleet ρ :=
  (s.release call).setCall call (.returned result committed)

/-- The transaction of a mutation. -/
def transact (s : Fleet ρ) (operation : Mutation) (nowMs : ℕ) : Fleet ρ :=
  { s with owner := (s.owner.mutate env operation nowMs).2 }

/-- The call has the lock. -/
def lockCall (s : Fleet ρ) (call : ℕ) : Fleet ρ :=
  match s.calls call, s.mutationLock with
  | .waiting (some operation), none =>
    { s.setCall call (.writing operation) with mutationLock := some call }
  | .waiting none, none =>
    { s.setCall call (.committed false s.owner.revision) with mutationLock := some call }
  | _, _ => s

/-- The transaction of the call ends; that of an abandoned call goes unnoticed. -/
def writeCall (s : Fleet ρ) (call : ℕ) (nowMs : ℕ) : Fleet ρ :=
  match s.calls call with
  | .writing operation =>
    let s' := s.transact env operation nowMs
    match (s.owner.mutate env operation nowMs).1 with
    | .ok result => s'.setCall call (.committed result s'.owner.revision)
    | .error e => s'.ret call (.error e) s'.owner.revision
  | .abandoned (some operation) =>
    (s.transact env operation nowMs).setCall call (.abandoned none)
  | _ => s

/-- `push_unlocked`, up to `join_all`. -/
def sendCall (s : Fleet ρ) (call : ℕ) : Fleet ρ :=
  match s.calls call with
  | .committed result committed =>
    match configured, s.owner.snapshot with
    | [], _ => s.ret call (.error .unavailable) committed
    | _, .error e => s.ret call (.error e) committed
    | _, .ok snapshot =>
      { s.setCall call (.pushing result committed []) with
        deliveries := s.deliveries ++ configured.map fun replica => ⟨replica, some call, snapshot⟩ }
  | _ => s

/-- The answer of a replica arrives. -/
def acknowledgeCall (s : Fleet ρ) (call : ℕ) (replica : ρ) : Fleet ρ :=
  match s.calls call with
  | .pushing result committed acknowledged =>
    if (call, replica) ∈ s.answers then
      s.setCall call (.pushing result committed (replica :: acknowledged))
    else s
  | _ => s

/-- Every replica has answered. -/
def finishCall (s : Fleet ρ) (call : ℕ) : Fleet ρ :=
  match s.calls call with
  | .pushing result committed acknowledged =>
    if ∀ replica ∈ configured, replica ∈ acknowledged then s.ret call (.ok result) committed
    else s
  | _ => s

/-- The database fails the call, or a request of its push fails or times out. -/
def failCall (s : Fleet ρ) (call : ℕ) : Fleet ρ :=
  match s.calls call with
  | .writing _ => s.ret call (.error .unavailable) none
  | .committed _ committed => s.ret call (.error .unavailable) committed
  | .pushing _ committed _ => s.ret call (.error .unavailable) committed
  | _ => s

/-- The future of the call is dropped. -/
def abandonCall (s : Fleet ρ) (call : ℕ) : Fleet ρ :=
  match s.calls call with
  | .idle => s
  | .returned _ _ => s
  | .abandoned _ => s
  | .writing operation => (s.release call).setCall call (.abandoned (some operation))
  | _ => (s.release call).setCall call (.abandoned none)

/-- `state_get`, which answers a pull. -/
def pullFrom (s : Fleet ρ) (replica : ρ) : Fleet ρ :=
  match s.owner.snapshot with
  | .ok snapshot =>
    if s.owner.initialized then
      { s with deliveries := s.deliveries ++ [⟨replica, none, snapshot⟩] }
    else s
  | .error _ => s

/-- `accept_snapshot`, up to the end of `receive`. -/
def deliverAt (s : Fleet ρ) (index : ℕ) : Fleet ρ :=
  match s.deliveries[index]? with
  | none => s
  | some delivery =>
    match (s.replicas delivery.replica).receive env delivery.snapshot with
    | .error _ => s
    | .ok (_, db) =>
      { s.setReplica delivery.replica db with received := s.received ++ [delivery] }

/-- The rest of `accept_snapshot`, when `synchronize` has succeeded, and the answer. -/
def answerAt (s : Fleet ρ) (index : ℕ) : Fleet ρ :=
  match s.received[index]? with
  | none => s
  | some delivery =>
    { s.setReplica delivery.replica (s.replicas delivery.replica).markReady with
      answers := s.answers ++ (delivery.call.map fun call => (call, delivery.replica)).toList }

/-- One step; an action that is not possible does nothing. -/
def step (s : Fleet ρ) : FleetAction ρ → Fleet ρ
  | .request call operation =>
    match s.calls call with
    | .idle => s.setCall call (.waiting operation)
    | _ => s
  | .lock call => s.lockCall call
  | .write call nowMs => s.writeCall env call nowMs
  | .send call => s.sendCall configured call
  | .acknowledge call replica => s.acknowledgeCall call replica
  | .finish call => s.finishCall configured call
  | .fail call => s.failCall call
  | .abandon call => s.abandonCall call
  | .pull replica => s.pullFrom replica
  | .deliver index => s.deliverAt env index
  | .answer index => s.answerAt index

/-- The system after a run. -/
def run (owner : ClusterDb) (history : ρ → List Snapshot) (actions : List (FleetAction ρ)) :
    Fleet ρ :=
  actions.foldl (step env configured) (start env owner history)

end Fleet

/-! ### Revisions -/

/-- Neither revision is there, or the second is no lower. -/
def Behind : Option ℤ → Option ℤ → Prop
  | none, none => True
  | some r, some r' => r ≤ r'
  | _, _ => False

namespace Behind

variable {a b c : Option ℤ}

theorem refl : ∀ a, Behind a a
  | none => trivial
  | some r => le_refl r

theorem trans (h : Behind a b) (h' : Behind b c) : Behind a c := by
  match a, b, c, h, h' with
  | none, none, none, _, _ => trivial
  | some _, some _, some _, h, h' => exact le_trans h h'

theorem exists_le {r' : ℤ} (h : Behind a (some r')) : ∃ r, a = some r ∧ r ≤ r' := by
  match a, h with
  | some r, h => exact ⟨r, rfl, h⟩

end Behind

namespace ClusterDb

variable {env : ClusterEnv} {db db' : ClusterDb}

theorem revision_pinChannels (db : ClusterDb) (channels : List String) :
    (channels.foldl pinChannel db).revision = db.revision := by
  induction channels generalizing db with
  | nil => rfl
  | cons channel channels ih => exact ih (db.pinChannel channel)

/-- No statement of a mutation writes the revision. -/
theorem Stated.revision {operation : Mutation} {nowMs : ℕ} {db₁ : ClusterDb}
    (h : Stated env db nowMs operation db₁) : db₁.revision = db.revision := by
  cases h with
  | replacePins channels => exact revision_pinChannels _ channels
  | bootstrapPins channels => exact revision_pinChannels db channels
  | _ => rfl

/-- **The owner's revision** never falls, and does not come or go. -/
theorem behind_mutate (env : ClusterEnv) (db : ClusterDb) (operation : Mutation) (nowMs : ℕ) :
    Behind db.revision (db.mutate env operation nowMs).2.revision := by
  rcases mutate_stated env db operation nowMs with heq | ⟨db₁, hstated, heq⟩
  · rw [heq]
    exact .refl _
  · rw [heq]
    show Behind db.revision (db₁.revision.map (· + 1))
    rw [hstated.revision]
    cases db.revision with
    | none => trivial
    | some r => exact (lt_add_one r).le

theorem revision_of_snapshot {s : Snapshot} (h : db.snapshot = .ok s) :
    db.revision = some s.revision := by
  rw [snapshot] at h
  split at h
  · rename_i hrevision
    split at h
    · cases h
    · obtain ⟨sessions, -, h⟩ := Except.bind_eq_ok.mp h
      cases h
      exact hrevision
  · cases h

theorem advanced_markReady (db : ClusterDb) : Advanced db db.markReady :=
  ⟨fun _ h => h, fun r h => ⟨r, h, le_rfl⟩, fun _ => le_rfl, (Advanced.refl db).retained⟩

theorem formed_receive {new : Bool} {s : Snapshot} (hdb : db.Formed)
    (h : db.receive env s = .ok (new, db')) : db'.Formed := by
  have hgiven : db.given env s = db' := by rw [given, h]
  exact hgiven ▸ formed_given hdb s

/-- What was accepted is stored. -/
theorem revision_of_receive {new : Bool} {s : Snapshot} (h : db.receive env s = .ok (new, db')) :
    db'.revision = some s.revision := by
  rcases receive_eq_ok h with ⟨-, rfl, -, hrevision⟩ | ⟨-, hreplaced⟩
  · exact hrevision
  · exact hreplaced.revision

end ClusterDb

namespace Fleet

variable {ρ : Type} {env : ClusterEnv} {configured : List ρ} {s s' s'' : Fleet ρ}

/-! ### What holds in every run -/

/-- The replica has stored a snapshot that is no older. -/
def Stored (s : Fleet ρ) (replica : ρ) (revision : ℤ) : Prop :=
  ∃ r, (s.replicas replica).revision = some r ∧ revision ≤ r

/-- No snapshot of the call is sent. -/
def Unsent (s : Fleet ρ) (call : ℕ) : Prop := ∀ d ∈ s.deliveries, d.call ≠ some call

/-- Every snapshot of the call has what was committed. -/
def Sent (s : Fleet ρ) (call : ℕ) (committed : Option ℤ) : Prop :=
  ∀ d ∈ s.deliveries, d.call = some call → ∃ r, committed = some r ∧ r ≤ d.snapshot.revision

/-- What is true of a call, by where it is. -/
def CallSound (configured : List ρ) (s : Fleet ρ) (call : ℕ) : Call ρ → Prop
  | .idle => s.Unsent call
  | .waiting _ => s.Unsent call
  | .writing _ => s.Unsent call
  | .committed _ committed => s.Unsent call ∧ Behind committed s.owner.revision
  | .pushing _ committed acknowledged => configured ≠ [] ∧ s.Sent call committed ∧
    ∀ i ∈ acknowledged, ∃ r, committed = some r ∧ s.Stored i r
  | .returned (.ok _) committed => configured ≠ [] ∧
    ∀ i ∈ configured, ∃ r, committed = some r ∧ s.Stored i r
  | .returned (.error _) _ => True
  | .abandoned _ => True

/-- What is true of the system in every run. -/
structure Pushed (configured : List ρ) (s : Fleet ρ) : Prop where
  formed : ∀ i, (s.replicas i).Formed
  received : ∀ d ∈ s.received, d ∈ s.deliveries ∧ s.Stored d.replica d.snapshot.revision
  answers : ∀ call i, (call, i) ∈ s.answers →
    ∃ d ∈ s.deliveries, d.call = some call ∧ d.replica = i ∧ s.Stored i d.snapshot.revision
  calls : ∀ call, CallSound configured s call (s.calls call)

/-- What holds between two states of a run: no revision falls, and what was sent stays
in flight. -/
structure Later (s s' : Fleet ρ) : Prop where
  owner : Behind s.owner.revision s'.owner.revision
  replicas : ∀ i, (s.replicas i).Advanced (s'.replicas i)
  deliveries : ∀ d ∈ s.deliveries, d ∈ s'.deliveries

theorem Later.refl (s : Fleet ρ) : Later s s := ⟨.refl _, fun _ => .refl _, fun _ h => h⟩

theorem Later.trans (h : Later s s') (h' : Later s' s'') : Later s s'' where
  owner := h.owner.trans h'.owner
  replicas := fun i => (h.replicas i).trans (h'.replicas i)
  deliveries := fun d hd => h'.deliveries d (h.deliveries d hd)

/-- **What a replica has stored stays stored.** -/
theorem Later.stored (h : Later s s') {i : ρ} {revision : ℤ} (hstored : s.Stored i revision) :
    s'.Stored i revision := by
  obtain ⟨r, hr, hle⟩ := hstored
  obtain ⟨r', hr', hle'⟩ := (h.replicas i).revision r hr
  exact ⟨r', hr', hle.trans hle'⟩

/-- A call that a step does not concern. -/
theorem callSound_of_later {call : ℕ} {phase : Call ρ} (h : Later s s')
    (hsent : ∀ d ∈ s'.deliveries, d.call = some call → d ∈ s.deliveries)
    (hphase : CallSound configured s call phase) : CallSound configured s' call phase := by
  have hunsent : s.Unsent call → s'.Unsent call := fun hunsent d hd hcall =>
    hunsent d (hsent d hd hcall) hcall
  have hstored : ∀ {i committed}, (∃ r, committed = some r ∧ s.Stored i r) →
      ∃ r, committed = some r ∧ s'.Stored i r := by
    rintro i committed ⟨r, hr, hi⟩
    exact ⟨r, hr, h.stored hi⟩
  match phase, hphase with
  | .idle, hphase => exact hunsent hphase
  | .waiting _, hphase => exact hunsent hphase
  | .writing _, hphase => exact hunsent hphase
  | .committed _ _, ⟨hphase, hbehind⟩ => exact ⟨hunsent hphase, hbehind.trans h.owner⟩
  | .pushing _ _ _, ⟨hnonempty, hphase, hacknowledged⟩ =>
    exact ⟨hnonempty, fun d hd hcall => hphase d (hsent d hd hcall) hcall,
      fun i hi => hstored (hacknowledged i hi)⟩
  | .returned (.ok _) _, ⟨hnonempty, hphase⟩ =>
    exact ⟨hnonempty, fun i hi => hstored (hphase i hi)⟩
  | .returned (.error _) _, _ => exact trivial
  | .abandoned _, _ => exact trivial

/-! ### The turns of a call -/

/-- What a call can do that concerns no database and sends nothing. -/
inductive Turn (configured : List ρ) (s : Fleet ρ) (call : ℕ) : Call ρ → Call ρ → Prop
  | request (operation : Option Mutation) : Turn configured s call .idle (.waiting operation)
  | lock (operation : Mutation) :
    Turn configured s call (.waiting (some operation)) (.writing operation)
  | lockPush : Turn configured s call (.waiting none) (.committed false s.owner.revision)
  | acknowledge {result : Bool} {committed : Option ℤ} {acknowledged : List ρ} {replica : ρ}
    (h : (call, replica) ∈ s.answers) :
    Turn configured s call (.pushing result committed acknowledged)
      (.pushing result committed (replica :: acknowledged))
  | finish {result : Bool} {committed : Option ℤ} {acknowledged : List ρ}
    (h : ∀ replica ∈ configured, replica ∈ acknowledged) :
    Turn configured s call (.pushing result committed acknowledged)
      (.returned (.ok result) committed)
  | fail (phase : Call ρ) (e : ClusterError) (committed : Option ℤ) :
    Turn configured s call phase (.returned (.error e) committed)
  | abandon (phase : Call ρ) (transaction : Option Mutation) :
    Turn configured s call phase (.abandoned transaction)

/-- **A turn** of a call leaves it sound. -/
theorem callSound_turn {call : ℕ} {phase phase' : Call ρ} (h : s.Pushed configured)
    (hphase : CallSound configured s call phase) (hturn : Turn configured s call phase phase') :
    CallSound configured s call phase' := by
  cases hturn with
  | request operation => exact hphase
  | lock operation => exact hphase
  | lockPush => exact ⟨hphase, .refl _⟩
  | acknowledge hanswer =>
    obtain ⟨hnonempty, hsent, hacknowledged⟩ := hphase
    refine ⟨hnonempty, hsent, fun i hi => ?_⟩
    rcases List.mem_cons.mp hi with rfl | hi
    · -- the answer is one to a snapshot of this call
      obtain ⟨d, hd, hcall, -, r', hr', hle'⟩ := h.answers call i hanswer
      obtain ⟨r, hr, hle⟩ := hsent d hd hcall
      exact ⟨r, hr, r', hr', hle.trans hle'⟩
    · exact hacknowledged i hi
  | finish hall =>
    obtain ⟨hnonempty, -, hacknowledged⟩ := hphase
    exact ⟨hnonempty, fun i hi => hacknowledged i (hall i hi)⟩
  | fail e committed => exact trivial
  | abandon transaction => exact trivial

theorem pushed_start (env : ClusterEnv) (configured : List ρ) (owner : ClusterDb)
    (history : ρ → List Snapshot) : (start env owner history).Pushed configured where
  formed := fun i => ClusterDb.formed_replicaRun env (history i)
  received := nofun
  answers := nofun
  calls := fun _ => nofun

/-! ### What a step does -/

variable [DecidableEq ρ]

/-- The steps that are possible. -/
inductive Moved (env : ClusterEnv) (configured : List ρ) (s : Fleet ρ) : Fleet ρ → Prop
  | turn {call : ℕ} {phase : Call ρ} (mutationLock : Option ℕ)
    (h : Turn configured s call (s.calls call) phase) :
    Moved env configured s
      { s with calls := Function.update s.calls call phase, mutationLock := mutationLock }
  | write {call : ℕ} {operation : Mutation} (nowMs : ℕ) (result : Bool)
    (h : s.calls call = .writing operation) :
    Moved env configured s
      { s with
        owner := (s.owner.mutate env operation nowMs).2
        calls := Function.update s.calls call
          (.committed result (s.owner.mutate env operation nowMs).2.revision) }
  | writeUnheard {call : ℕ} {phase : Call ρ} (mutationLock : Option ℕ) (operation : Mutation)
    (nowMs : ℕ)
    (h : (∃ e committed, phase = .returned (.error e) committed) ∨ phase = .abandoned none) :
    Moved env configured s
      { s with
        owner := (s.owner.mutate env operation nowMs).2
        calls := Function.update s.calls call phase
        mutationLock := mutationLock }
  | send {call : ℕ} {result : Bool} {committed : Option ℤ} {snapshot : Snapshot}
    (h : s.calls call = .committed result committed) (hnonempty : configured ≠ [])
    (hsnapshot : s.owner.snapshot = .ok snapshot) :
    Moved env configured s
      { s with
        calls := Function.update s.calls call (.pushing result committed [])
        deliveries :=
          s.deliveries ++ configured.map fun replica => ⟨replica, some call, snapshot⟩ }
  | pull (replica : ρ) (snapshot : Snapshot) :
    Moved env configured s { s with deliveries := s.deliveries ++ [⟨replica, none, snapshot⟩] }
  | deliver {delivery : Delivery ρ} {new : Bool} {db : ClusterDb} (h : delivery ∈ s.deliveries)
    (hreceive : (s.replicas delivery.replica).receive env delivery.snapshot = .ok (new, db)) :
    Moved env configured s
      { s with
        replicas := Function.update s.replicas delivery.replica db
        received := s.received ++ [delivery] }
  | answer {delivery : Delivery ρ} (h : delivery ∈ s.received) :
    Moved env configured s
      { s with
        replicas := Function.update s.replicas delivery.replica
          (s.replicas delivery.replica).markReady
        answers :=
          s.answers ++ (delivery.call.map fun call => (call, delivery.replica)).toList }

/-- **A step** does nothing, or is one of these. -/
theorem step_cases (env : ClusterEnv) (configured : List ρ) (s : Fleet ρ) (a : FleetAction ρ) :
    s.step env configured a = s ∨ Moved env configured s (s.step env configured a) := by
  cases a with
  | request call operation =>
    -- only an idle call can be asked for something
    dsimp only [step]
    split
    · rename_i hphase
      exact .inr (.turn s.mutationLock (hphase ▸ .request operation))
    · exact .inl rfl
  | lock call =>
    -- with the lock a mutation may write; a `push` without one goes on to its snapshot
    dsimp only [step, lockCall]
    split
    · rename_i operation hphase _
      exact .inr (.turn (some call) (hphase ▸ .lock operation))
    · rename_i hphase _
      exact .inr (.turn (some call) (hphase ▸ .lockPush))
    · exact .inl rfl
  | write call nowMs =>
    -- the call learns the result of its transaction
    dsimp only [step, writeCall]
    split
    · rename_i operation hphase
      split
      · rename_i result _
        -- its commit
        exact .inr (.write nowMs result hphase)
      · rename_i e _
        -- or its failure, after which the database is as `mutate` leaves it
        exact .inr (.writeUnheard _ operation nowMs (.inl ⟨e, _, rfl⟩))
    -- the call was abandoned, and its transaction ends unnoticed
    · rename_i operation hphase
      exact .inr (.writeUnheard s.mutationLock operation nowMs (.inr rfl))
    · exact .inl rfl
  | send call =>
    -- no replica is configured, or there is no snapshot: the call fails after its commit
    dsimp only [step, sendCall]
    split
    · rename_i result committed hphase
      split
      · exact .inr (.turn _ (.fail _ _ committed))
      · exact .inr (.turn _ (.fail _ _ committed))
      · rename_i snapshot hne hsnapshot
        exact .inr (.send hphase hne hsnapshot)
    · exact .inl rfl
  | acknowledge call replica =>
    -- an answer counts only for the call whose snapshot it answers
    dsimp only [step, acknowledgeCall]
    split
    · rename_i result committed acknowledged hphase
      split
      · rename_i hanswer
        exact .inr (.turn s.mutationLock (hphase ▸ .acknowledge hanswer))
      · exact .inl rfl
    · exact .inl rfl
  | finish call =>
    -- `join_all` returns once every configured replica has answered
    dsimp only [step, finishCall]
    split
    · rename_i result committed acknowledged hphase
      split
      · rename_i hall
        exact .inr (.turn _ (hphase ▸ .finish hall))
      · exact .inl rfl
    · exact .inl rfl
  | fail call =>
    -- a call fails wherever it waits for somebody
    dsimp only [step, failCall]
    split
    · exact .inr (.turn _ (.fail _ _ _))
    · exact .inr (.turn _ (.fail _ _ _))
    · exact .inr (.turn _ (.fail _ _ _))
    · exact .inl rfl
  | abandon call =>
    -- a call that has begun is dropped with the lock, wherever it is
    dsimp only [step, abandonCall]
    split
    · exact .inl rfl
    · exact .inl rfl
    · exact .inl rfl
    · exact .inr (.turn _ (.abandon _ _))
    · exact .inr (.turn _ (.abandon _ _))
  | pull replica =>
    -- a replica asks the owner, which takes a snapshot for it
    dsimp only [step, pullFrom]
    split
    · split
      · exact .inr (.pull replica _)
      · exact .inl rfl
    · exact .inl rfl
  | deliver index =>
    -- a snapshot that `receive` refuses leaves the replica as it is
    dsimp only [step, deliverAt]
    split
    · exact .inl rfl
    · rename_i delivery hdelivery
      split
      · exact .inl rfl
      · rename_i new db hreceive
        exact .inr (.deliver (List.mem_of_getElem? hdelivery) hreceive)
  | answer index =>
    -- the replica calls itself ready when it answers
    dsimp only [step, answerAt]
    split
    · exact .inl rfl
    · rename_i delivery hdelivery
      exact .inr (.answer (List.mem_of_getElem? hdelivery))

/-- Each replica advances when one of them does. -/
theorem later_update {i : ρ} {db : ClusterDb} (hdb : (s.replicas i).Advanced db)
    (howner : s'.owner = s.owner) (hreplicas : s'.replicas = Function.update s.replicas i db)
    (hdeliveries : s'.deliveries = s.deliveries) : Later s s' := by
  refine ⟨howner ▸ .refl _, ?_, fun d hd => hdeliveries ▸ hd⟩
  rw [hreplicas]
  exact (Function.forall_update_iff s.replicas fun j db => (s.replicas j).Advanced db).mpr
    ⟨hdb, fun _ _ => .refl _⟩

/-- **A step** loses nothing. -/
theorem Moved.later (hs : s.Pushed configured) (h : Moved env configured s s') : Later s s' := by
  cases h with
  | turn lock hturn => exact ⟨.refl _, fun _ => .refl _, fun _ h => h⟩
  | write nowMs result hphase =>
    exact ⟨ClusterDb.behind_mutate env s.owner _ nowMs, fun _ => .refl _, fun _ h => h⟩
  | writeUnheard lock operation nowMs hphase =>
    exact ⟨ClusterDb.behind_mutate env s.owner operation nowMs, fun _ => .refl _, fun _ h => h⟩
  | send hphase hnonempty hsnapshot =>
    exact ⟨.refl _, fun _ => .refl _, fun d hd => List.mem_append_left _ hd⟩
  | pull replica snapshot =>
    exact ⟨.refl _, fun _ => .refl _, fun d hd => List.mem_append_left _ hd⟩
  | deliver hd hreceive =>
    exact later_update (ClusterDb.advanced_receive (hs.formed _) hreceive) rfl rfl rfl
  | answer hd => exact later_update (ClusterDb.advanced_markReady _) rfl rfl rfl

theorem formed_update {i : ρ} {db : ClusterDb} (hs : ∀ j, (s.replicas j).Formed)
    (hdb : db.Formed) : ∀ j, (Function.update s.replicas i db j).Formed :=
  (Function.forall_update_iff s.replicas fun _ db => db.Formed).mpr ⟨hdb, fun j _ => hs j⟩

omit [DecidableEq ρ] in
/-- Each call is sound when one of them changes: that one, and the others as they were. -/
theorem callSound_update {call : ℕ} {phase : Call ρ} (hself : CallSound configured s' call phase)
    (hothers : ∀ other, other ≠ call → CallSound configured s' other (s.calls other)) :
    ∀ other, CallSound configured s' other (Function.update s.calls call phase other) :=
  (Function.forall_update_iff s.calls fun other phase => CallSound configured s' other phase).mpr
    ⟨hself, hothers⟩

/-- **A step keeps the system sound.** -/
theorem Moved.pushed (hs : s.Pushed configured) (h : Moved env configured s s') :
    s'.Pushed configured := by
  have hlater : Later s s' := h.later hs
  have hreceived : ∀ d ∈ s.received, d ∈ s'.deliveries ∧
      s'.Stored d.replica d.snapshot.revision := fun d hd =>
    ⟨hlater.deliveries d (hs.received d hd).1, hlater.stored (hs.received d hd).2⟩
  have hanswers : ∀ call i, (call, i) ∈ s.answers → ∃ d ∈ s'.deliveries,
      d.call = some call ∧ d.replica = i ∧ s'.Stored i d.snapshot.revision := by
    intro call i hanswer
    obtain ⟨d, hd, hcall, hreplica, hstored⟩ := hs.answers call i hanswer
    exact ⟨d, hlater.deliveries d hd, hcall, hreplica, hlater.stored hstored⟩
  -- a call that sends nothing
  have hcalls : (∀ d ∈ s'.deliveries, d.call.isSome → d ∈ s.deliveries) → ∀ call,
      CallSound configured s' call (s.calls call) := fun hsent call =>
    callSound_of_later hlater
      (fun d hd hcall => hsent d hd (by rw [hcall]; rfl)) (hs.calls call)
  cases h with
  | @turn call phase lock hturn =>
    refine ⟨hs.formed, hreceived, hanswers, callSound_update ?_ fun other _ => ?_⟩
    · exact callSound_of_later hlater (fun d hd _ => hd) (callSound_turn hs (hs.calls call) hturn)
    · exact hcalls (fun d hd _ => hd) other
  | @write call operation nowMs result hphase =>
    refine ⟨hs.formed, hreceived, hanswers, callSound_update ?_ fun other _ => ?_⟩
    · have hunsent : s.Unsent call := by
        have := hs.calls call
        rwa [hphase] at this
      exact ⟨hunsent, .refl _⟩
    · exact hcalls (fun d hd _ => hd) other
  | @writeUnheard call phase lock operation nowMs hphase =>
    refine ⟨hs.formed, hreceived, hanswers, callSound_update ?_ fun other _ => ?_⟩
    · rcases hphase with ⟨e, committed, rfl⟩ | rfl
      · exact trivial
      · exact trivial
    · exact hcalls (fun d hd _ => hd) other
  | @send call result committed snapshot hphase hnonempty hsnapshot =>
    -- what is new is of this call, and is the owner's state
    have hnew : ∀ d ∈ s.deliveries ++ configured.map fun replica => ⟨replica, some call, snapshot⟩,
        d ∈ s.deliveries ∨ (d.call = some call ∧ d.snapshot = snapshot) := by
      intro d hd
      refine (List.mem_append.mp hd).imp_right fun hd => ?_
      obtain ⟨replica, -, rfl⟩ := List.mem_map.mp hd
      exact ⟨rfl, rfl⟩
    refine ⟨hs.formed, hreceived, hanswers, callSound_update ?_ fun other hother => ?_⟩
    · obtain ⟨hunsent, hbehind⟩ : s.Unsent call ∧ Behind committed s.owner.revision := by
        have := hs.calls call
        rwa [hphase] at this
      refine ⟨hnonempty, fun d hd hcall => ?_, nofun⟩
      rcases hnew d hd with hd | ⟨-, rfl⟩
      · exact absurd hcall (hunsent d hd)
      · rw [ClusterDb.revision_of_snapshot hsnapshot] at hbehind
        exact hbehind.exists_le
    · refine callSound_of_later hlater (fun d hd hcall => ?_) (hs.calls other)
      rcases hnew d hd with hd | ⟨hcall', -⟩
      · exact hd
      · exact absurd (Option.some.inj (hcall.symm.trans hcall')) hother
  | pull replica snapshot =>
    refine ⟨hs.formed, hreceived, hanswers, hcalls fun d hd hcall => ?_⟩
    rcases List.mem_append.mp hd with hd | hd
    · exact hd
    · rw [List.mem_singleton.mp hd] at hcall
      cases hcall
  | @deliver delivery new db hd hreceive =>
    refine ⟨formed_update hs.formed (ClusterDb.formed_receive (hs.formed _) hreceive),
      fun d hd' => ?_, hanswers, hcalls fun d hd _ => hd⟩
    rcases List.mem_append.mp hd' with hd' | hd'
    · exact hreceived d hd'
    · obtain rfl := List.mem_singleton.mp hd'
      refine ⟨hd, d.snapshot.revision, ?_, le_rfl⟩
      show (Function.update s.replicas d.replica db d.replica).revision = _
      rw [Function.update_self]
      exact ClusterDb.revision_of_receive hreceive
  | @answer delivery hd =>
    refine ⟨formed_update hs.formed (hs.formed delivery.replica), hreceived,
      fun call i hanswer => ?_, hcalls fun d hd _ => hd⟩
    rcases List.mem_append.mp hanswer with hanswer | hanswer
    · exact hanswers call i hanswer
    · rw [Option.mem_toList, Option.map_eq_some_iff] at hanswer
      obtain ⟨call', hcall, heq⟩ := hanswer
      cases heq
      exact ⟨delivery, (hreceived delivery hd).1, hcall, rfl, (hreceived delivery hd).2⟩

/-- **Throughout a run**. -/
theorem pushed_foldl (hs : s.Pushed configured) (actions : List (FleetAction ρ)) :
    (actions.foldl (step env configured) s).Pushed configured ∧
      Later s (actions.foldl (step env configured) s) := by
  have hstep : ∀ s₁ : Fleet ρ, s₁.Pushed configured ∧ Later s s₁ → ∀ a ∈ actions,
      (s₁.step env configured a).Pushed configured ∧ Later s (s₁.step env configured a) := by
    rintro s₁ ⟨hs₁, hlater⟩ a -
    rcases step_cases env configured s₁ a with heq | hmoved
    · rw [heq]
      exact ⟨hs₁, hlater⟩
    · exact ⟨hmoved.pushed hs₁, hlater.trans (hmoved.later hs₁)⟩
  exact List.foldlRecOn actions (step env configured) ⟨hs, .refl s⟩ hstep

/-- **An acknowledged mutation is on every replica**, and what is still in flight does
not bring a replica below it. -/
theorem acknowledged_on_every_replica (env : ClusterEnv) (configured : List ρ) (owner : ClusterDb)
    (history : ρ → List Snapshot) (before after : List (FleetAction ρ)) {call : ℕ}
    {result : Bool} {committed : Option ℤ}
    (h : (run env configured owner history before).calls call =
      .returned (.ok result) committed) :
    ∃ revision, committed = some revision ∧ ∀ replica ∈ configured, ∃ stored,
      ((run env configured owner history (before ++ after)).replicas replica).revision =
        some stored ∧ revision ≤ stored := by
  obtain ⟨hpushed, -⟩ :=
    pushed_foldl (pushed_start env configured owner history) before
  obtain ⟨-, hlater⟩ := pushed_foldl hpushed after
  have hcall := hpushed.calls call
  rw [run] at h
  rw [h] at hcall
  obtain ⟨hnonempty, hstored⟩ := hcall
  obtain ⟨replica₀, hreplica₀⟩ := List.exists_mem_of_ne_nil configured hnonempty
  obtain ⟨revision, rfl, -⟩ := hstored replica₀ hreplica₀
  refine ⟨revision, rfl, fun replica hreplica => ?_⟩
  obtain ⟨r, hr, hreplica⟩ := hstored replica hreplica
  cases hr
  rw [run, List.foldl_append]
  exact hlater.stored hreplica

/-- An opt-out that reaches two replicas. -/
def sampleActions : List (FleetAction Bool) :=
  [.request 0 (some (.ignore "forsen" true)), .lock 0, .write 0 5, .send 0, .deliver 0,
    .deliver 1, .answer 0, .answer 1, .acknowledge 0 true, .acknowledge 0 false, .finish 0]

theorem acknowledged_on_every_replica_sample :
    ∃ revision, some (1 : ℤ) = some revision ∧ ∀ replica ∈ [true, false], ∃ stored,
      ((run ClusterDb.sampleEnv [true, false] ClusterDb.sampleSeed.database (fun _ => [])
        (sampleActions ++ [.deliver 0])).replicas replica).revision = some stored ∧
          revision ≤ stored := by
  have hreturned : (run ClusterDb.sampleEnv [true, false] ClusterDb.sampleSeed.database
      (fun _ => []) sampleActions).calls 0 = .returned (.ok false) (some 1) := by decide +kernel
  exact acknowledged_on_every_replica ClusterDb.sampleEnv [true, false]
    ClusterDb.sampleSeed.database (fun _ => []) sampleActions [.deliver 0] hreturned

end Fleet

end RecentMessages
