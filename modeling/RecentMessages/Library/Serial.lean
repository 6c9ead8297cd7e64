/-
RecentMessages/Library/Serial.lean

A single writer behind a bounded queue.

An object is changed by commands.  A command may commit several states in turn before it
replies; `exec` says which, and depends on a choice of the environment (`φ`), such as the point
at which a device fails.  Callers put commands into a queue of bounded length; one writer takes
them out, one at a time, commits their states and answers; readers look at the object whenever
they like.

* `committed`, `replies` — what a sequence of commands does when they are executed one after the
  other;
* `Writer.step` — the writer, its queue and the object, as one transition system;
* `Writer.Linear` — the invariant: the execution so far is the sequential one, cut off at the
  command in hand;
* `Writer.linear_run` — every run keeps it;
* `Writer.extends_run` — what was accepted, taken, committed and answered stays so;
* `Writer.Linear.object_eq_foldl` — when commands are made of smaller steps, a reader sees the
  effect of some of these steps, in order;
* `Writer.exists_drain` — the writer never gets stuck.
-/
import RecentMessages.Library.Runs
import Mathlib.Data.List.Induction

variable {σ κ φ ρ : Type*}

namespace Serial

variable (exec : κ × φ → σ → List σ × ρ)

/-! ### One command after the other -/

/-- The state after a command: the last one it commits. -/
def after (s : σ) (c : κ × φ) : σ := (exec c s).1.getLastD s

/-- The states that the commands commit, in order. -/
def committed : σ → List (κ × φ) → List σ
  | _, [] => []
  | s, c :: cs => (exec c s).1 ++ committed (after exec s c) cs

/-- The replies to the commands, in order. -/
def replies : σ → List (κ × φ) → List ρ
  | _, [] => []
  | s, c :: cs => (exec c s).2 :: replies (after exec s c) cs

variable {exec}

theorem getLastD_append (l l' : List σ) (s : σ) :
    (l ++ l').getLastD s = l'.getLastD (l.getLastD s) := by
  rw [List.getLastD_eq_getLast?, List.getLastD_eq_getLast?, List.getLastD_eq_getLast?,
    List.getLast?_append]
  cases l'.getLast? <;> rfl

/-- The last committed state is the one that the commands leave. -/
theorem getLastD_committed (s : σ) (cs : List (κ × φ)) :
    (committed exec s cs).getLastD s = cs.foldl (after exec) s := by
  induction cs generalizing s with
  | nil => rfl
  | cons c cs ih =>
    rw [committed, getLastD_append]
    exact ih (after exec s c)

theorem committed_append (s : σ) (cs ds : List (κ × φ)) :
    committed exec s (cs ++ ds) =
      committed exec s cs ++ committed exec (cs.foldl (after exec) s) ds := by
  induction cs generalizing s with
  | nil => rfl
  | cons c cs ih =>
    rw [List.cons_append, committed, committed, ih, List.append_assoc]
    rfl

theorem replies_append (s : σ) (cs ds : List (κ × φ)) :
    replies exec s (cs ++ ds) =
      replies exec s cs ++ replies exec (cs.foldl (after exec) s) ds := by
  induction cs generalizing s with
  | nil => rfl
  | cons c cs ih =>
    rw [List.cons_append, replies, replies, ih]
    rfl

@[simp] theorem length_replies (s : σ) (cs : List (κ × φ)) :
    (replies exec s cs).length = cs.length := by
  induction cs generalizing s with
  | nil => rfl
  | cons c cs ih =>
    rw [replies, List.length_cons, ih, List.length_cons]

/-- A reply is the one to the command at its place, after the commands before it. -/
theorem getElem?_replies {s : σ} {cs : List (κ × φ)} {i : ℕ} {reply : ρ}
    (h : (replies exec s cs)[i]? = some reply) :
    ∃ c, cs[i]? = some c ∧ reply = (exec c ((cs.take i).foldl (after exec) s)).2 := by
  induction cs generalizing s i with
  | nil => cases h
  | cons c cs ih =>
    cases i with
    | zero => exact ⟨c, rfl, (Option.some.inj h).symm⟩
    | succ i => exact ih h

/-- A sequence that starts like another one commits what that one commits, and more. -/
theorem committed_mono {cs ds : List (κ × φ)} (h : cs <+: ds) (s : σ) :
    committed exec s cs <+: committed exec s ds := by
  obtain ⟨rest, rfl⟩ := h
  rw [committed_append]
  exact List.prefix_append _ _

/-! ### Commands made of smaller steps -/

section Atoms

variable {α : Type*} (stepAtom : σ → α → σ)

/-- The states after each of the steps. -/
def states : σ → List α → List σ
  | _, [] => []
  | s, a :: as => stepAtom s a :: states (stepAtom s a) as

/-- The steps that the commands are made of, one command after the other. -/
def atoms (exec : κ × φ → σ → List σ × ρ) (ops : κ × φ → σ → List α) : σ → List (κ × φ) → List α
  | _, [] => []
  | s, c :: cs => ops c s ++ atoms exec ops (after exec s c) cs

variable {stepAtom} {ops : κ × φ → σ → List α}

theorem getLastD_states (s : σ) (as : List α) :
    (states stepAtom s as).getLastD s = as.foldl stepAtom s := by
  induction as generalizing s with
  | nil => rfl
  | cons a as ih =>
    show ([stepAtom s a] ++ states stepAtom (stepAtom s a) as).getLastD s = _
    rw [getLastD_append]
    exact ih (stepAtom s a)

theorem states_append (s : σ) (as bs : List α) :
    states stepAtom s (as ++ bs) =
      states stepAtom s as ++ states stepAtom (as.foldl stepAtom s) bs := by
  induction as generalizing s with
  | nil => rfl
  | cons a as ih =>
    rw [List.cons_append, states, ih]
    rfl

@[simp] theorem length_states (s : σ) (as : List α) :
    (states stepAtom s as).length = as.length := by
  induction as generalizing s with
  | nil => rfl
  | cons a as ih => rw [states, List.length_cons, ih, List.length_cons]

theorem states_take (s : σ) (as : List α) (n : ℕ) :
    states stepAtom s (as.take n) = (states stepAtom s as).take n := by
  induction as generalizing s n with
  | nil => rw [List.take_nil, states, List.take_nil]
  | cons a as ih =>
    cases n with
    | zero => rfl
    | succ n => rw [List.take_succ_cons, states, ih, states, List.take_succ_cons]

/-- **Commands refine their steps.** -/
theorem committed_eq_states (hops : ∀ c s, (exec c s).1 = states stepAtom s (ops c s)) (s : σ)
    (cs : List (κ × φ)) : committed exec s cs = states stepAtom s (atoms exec ops s cs) := by
  induction cs generalizing s with
  | nil => rfl
  | cons c cs ih =>
    have hafter : after exec s c = (ops c s).foldl stepAtom s := by
      rw [after, hops, getLastD_states]
    rw [committed, atoms, states_append, ih, hops, hafter]

theorem atoms_append (s : σ) (cs ds : List (κ × φ)) :
    atoms exec ops s (cs ++ ds) =
      atoms exec ops s cs ++ atoms exec ops (cs.foldl (after exec) s) ds := by
  induction cs generalizing s with
  | nil => rfl
  | cons c cs ih =>
    rw [List.cons_append, atoms, atoms, ih, List.append_assoc]
    rfl

/-- The commands up to one and that one. -/
theorem atoms_take_succ {s : σ} {cs : List (κ × φ)} {i : ℕ} {c : κ × φ} (h : cs[i]? = some c) :
    atoms exec ops s (cs.take (i + 1)) =
      atoms exec ops s (cs.take i) ++ ops c ((cs.take i).foldl (after exec) s) := by
  rw [List.take_add_one, h, atoms_append]
  exact congrArg _ (List.append_nil _)

/-- A step belongs to one of the commands. -/
theorem exists_of_mem_atoms {s : σ} {cs : List (κ × φ)} {x : α} (h : x ∈ atoms exec ops s cs) :
    ∃ (j : ℕ) (c : κ × φ) (s' : σ), cs[j]? = some c ∧ x ∈ ops c s' := by
  induction cs generalizing s with
  | nil => cases h
  | cons c cs ih =>
    rcases List.mem_append.mp h with h | h
    · exact ⟨0, c, s, rfl, h⟩
    · obtain ⟨j, d, s', hj, hx⟩ := ih h
      exact ⟨j + 1, d, s', hj, hx⟩

/-- The steps of the commands lead where the commands lead. -/
theorem foldl_atoms (hops : ∀ c s, (exec c s).1 = states stepAtom s (ops c s)) (s : σ)
    (cs : List (κ × φ)) : (atoms exec ops s cs).foldl stepAtom s = cs.foldl (after exec) s := by
  rw [← getLastD_states, ← committed_eq_states hops, getLastD_committed]

theorem atoms_mono {cs ds : List (κ × φ)} (h : cs <+: ds) (s : σ) :
    atoms exec ops s cs <+: atoms exec ops s ds := by
  obtain ⟨rest, rfl⟩ := h
  rw [atoms_append]
  exact List.prefix_append _ _

end Atoms

/-! ### The writer -/

/-- The command in hand: its caller, the states it has yet to commit, and its reply. -/
structure Task (σ ρ : Type*) where
  caller : ℕ
  remaining : List σ
  reply : ρ

/-- An object with its writer.  Callers are numbered in the order in which the queue accepts
their commands. -/
structure Writer (σ κ φ ρ : Type*) where
  /-- The committed state: what a reader sees. -/
  object : σ
  queue : List (ℕ × κ)
  current : Option (Task σ ρ)
  answers : List (ℕ × ρ)
  /-- History: the commands that the queue accepted. -/
  accepted : List (ℕ × κ)
  /-- History: the commands that the writer took, each with what the environment chose. -/
  taken : List (ℕ × κ × φ)
  /-- History: the states that were committed. -/
  trace : List σ

/-- What can happen next. -/
inductive Event (κ φ : Type*)
  /-- A caller offers a command; it waits while the queue is full. -/
  | send (command : κ)
  /-- The writer takes the oldest command. -/
  | take (choice : φ)
  | commit
  | answer

namespace Writer

variable (exec : κ × φ → σ → List σ × ρ) (capacity : ℕ)

/-- A writer that has done nothing yet. -/
def init (s : σ) : Writer σ κ φ ρ := ⟨s, [], none, [], [], [], []⟩

/-- One event; one that is not enabled changes nothing. -/
def step (w : Writer σ κ φ ρ) : Event κ φ → Writer σ κ φ ρ
  | .send command =>
    if w.queue.length < capacity then
      { w with
        queue := w.queue ++ [(w.accepted.length, command)]
        accepted := w.accepted ++ [(w.accepted.length, command)] }
    else
      w
  | .take choice =>
    match w.current, w.queue with
    | none, (caller, command) :: queue =>
      let (states, reply) := exec (command, choice) w.object
      { w with
        queue
        current := some ⟨caller, states, reply⟩
        taken := w.taken ++ [(caller, command, choice)] }
    | _, _ => w
  | .commit =>
    match w.current with
    | some ⟨caller, s :: remaining, reply⟩ =>
      { w with
        object := s
        current := some ⟨caller, remaining, reply⟩
        trace := w.trace ++ [s] }
    | _ => w
  | .answer =>
    match w.current with
    | some ⟨caller, [], reply⟩ =>
      { w with current := none, answers := w.answers ++ [(caller, reply)] }
    | _ => w

/-- The writer after a run. -/
def run (s : σ) (events : List (Event κ φ)) : Writer σ κ φ ρ :=
  events.foldl (step exec capacity) (init s)

/-- The commands taken so far, in order, with the choices of the environment. -/
def serial (w : Writer σ κ φ ρ) : List (κ × φ) := w.taken.map Prod.snd

/-- What the command in hand has yet to commit. -/
def remaining (w : Writer σ κ φ ρ) : List σ := (w.current.map Task.remaining).getD []

/-- The answer that the command in hand will get. -/
def pending (w : Writer σ κ φ ρ) : List (ℕ × ρ) :=
  (w.current.map fun task => (task.caller, task.reply)).toList

/-- **The invariant.** -/
structure Linear (s : σ) (w : Writer σ κ φ ρ) : Prop where
  /-- The queue is within its bound. -/
  bounded : w.queue.length ≤ capacity
  /-- Commands are taken in the order in which they were accepted, each once. -/
  fifo : w.accepted = w.taken.map (fun t => (t.1, t.2.1)) ++ w.queue
  /-- Callers are numbered. -/
  numbered : w.accepted.map Prod.fst = List.range w.accepted.length
  /-- What was committed is what the commands commit one after the other, up to the one in
  hand. -/
  committed : Serial.committed exec s w.serial = w.trace ++ w.remaining
  /-- What the answered commands commit was committed. -/
  finished : Serial.committed exec s (w.serial.take w.answers.length) <+: w.trace
  object : w.object = w.trace.getLastD s
  /-- The answers are those of the sequential execution, up to the command in hand. -/
  answered : (w.taken.map Prod.fst).zip (replies exec s w.serial) = w.answers ++ w.pending

/-- What a run adds to its history. -/
structure Extends (w w' : Writer σ κ φ ρ) : Prop where
  accepted : w.accepted <+: w'.accepted
  taken : w.taken <+: w'.taken
  trace : w.trace <+: w'.trace
  answers : w.answers <+: w'.answers

variable {exec capacity} {s : σ} {w w' w'' : Writer σ κ φ ρ}

theorem run_concat (s : σ) (events : List (Event κ φ)) (event : Event κ φ) :
    run exec capacity s (events ++ [event]) =
      (run exec capacity s events).step exec capacity event := by
  rw [run, List.foldl_append]
  rfl

/-- The object is in the state that the commands taken leave, once they are done. -/
theorem Linear.object_of_none (h : Linear exec capacity s w) (hnone : w.remaining = []) :
    w.object = w.serial.foldl (after exec) s := by
  rw [h.object, ← getLastD_committed, h.committed, hnone, List.append_nil]

/-- All commands taken but the one in hand were answered. -/
theorem Linear.length_answers (h : Linear exec capacity s w) :
    w.answers.length + w.pending.length = w.serial.length := by
  have hlength := congrArg List.length h.answered
  rw [List.length_zip, length_replies, List.length_append, serial, List.length_map,
    List.length_map, Nat.min_self] at hlength
  rw [serial, List.length_map, hlength]

theorem linear_init (s : σ) : Linear exec capacity s (init s) where
  bounded := Nat.zero_le _
  fifo := rfl
  numbered := rfl
  committed := rfl
  finished := List.prefix_rfl
  object := rfl
  answered := rfl

theorem linear_send (h : Linear exec capacity s w) (command : κ) :
    Linear exec capacity s (w.step exec capacity (.send command)) := by
  rw [step]
  split
  · rename_i hroom
    constructor
    · rw [List.length_append]
      exact hroom
    · show w.accepted ++ _ = _ ++ (w.queue ++ _)
      rw [h.fifo, List.append_assoc]
    · rw [List.map_append, h.numbered, List.length_append]
      exact List.range_succ.symm
    · exact h.committed
    · exact h.finished
    · exact h.object
    · exact h.answered
  · exact h

theorem linear_take (h : Linear exec capacity s w) (choice : φ) :
    Linear exec capacity s (w.step exec capacity (.take choice)) := by
  rw [step]
  split
  -- the object is idle, so its state is what the serial execution leaves
  · rename_i caller command queue hcurrent hqueue
    have hnone : w.remaining = [] := by rw [remaining, hcurrent]; rfl
    have hobject := h.object_of_none hnone
    have hserial : w.serial ++ [(command, choice)] =
        (w.taken ++ [(caller, command, choice)]).map Prod.snd := by
      rw [List.map_append]
      rfl
    constructor
    -- the queue is shorter by the command that is taken
    · have hbounded := h.bounded
      rw [hqueue] at hbounded
      exact Nat.le_trans (Nat.le_succ _) hbounded
    · show w.accepted = _
      rw [h.fifo, hqueue, List.map_append, List.append_assoc]
      rfl
    · exact h.numbered
    -- the command is the next one of the serial execution
    · show Serial.committed exec s ((w.taken ++ [(caller, command, choice)]).map Prod.snd) =
        w.trace ++ (exec (command, choice) w.object).1
      rw [← hserial, committed_append, h.committed, hnone, List.append_nil, ← hobject]
      exact congrArg (w.trace ++ ·) (List.append_nil _)
    -- its states do not count as finished before it is answered
    · show Serial.committed exec s
        (((w.taken ++ [(caller, command, choice)]).map Prod.snd).take w.answers.length) <+: w.trace
      have hlength := h.length_answers
      rw [← hserial, List.take_append_of_le_length (by omega)]
      exact h.finished
    · exact h.object
    -- its reply is the one that will be given
    · show ((w.taken ++ [(caller, command, choice)]).map Prod.fst).zip
          (replies exec s ((w.taken ++ [(caller, command, choice)]).map Prod.snd)) =
        w.answers ++ [(caller, (exec (command, choice) w.object).2)]
      have hanswered := h.answered
      rw [pending, hcurrent, Option.map_none, Option.toList_none, List.append_nil] at hanswered
      rw [← hserial, replies_append, ← hobject, List.map_append, List.zip_append, hanswered]
      · rfl
      · rw [length_replies, serial, List.length_map, List.length_map]
  · exact h

theorem linear_commit (h : Linear exec capacity s w) :
    Linear exec capacity s (w.step exec capacity .commit) := by
  rw [step]
  split
  · rename_i caller t rest reply hcurrent
    constructor
    · exact h.bounded
    · exact h.fifo
    · exact h.numbered
    · have hcommitted := h.committed
      rw [remaining, hcurrent] at hcommitted
      show Serial.committed exec s w.serial = (w.trace ++ [t]) ++ rest
      rw [hcommitted, List.append_assoc]
      rfl
    · exact h.finished.trans (List.prefix_append _ _)
    · show t = (w.trace ++ [t]).getLastD s
      rw [getLastD_append]
      rfl
    · have hanswered := h.answered
      rw [pending, hcurrent] at hanswered
      exact hanswered
  · exact h

theorem linear_answer (h : Linear exec capacity s w) :
    Linear exec capacity s (w.step exec capacity .answer) := by
  rw [step]
  split
  · rename_i caller reply hcurrent
    constructor
    · exact h.bounded
    · exact h.fifo
    · exact h.numbered
    · have hcommitted := h.committed
      rw [remaining, hcurrent] at hcommitted
      exact hcommitted
    · have hcommitted := h.committed
      rw [remaining, hcurrent] at hcommitted
      have hall : Serial.committed exec s w.serial = w.trace :=
        hcommitted.trans (List.append_nil _)
      exact hall ▸ committed_mono (List.take_prefix _ _) s
    · exact h.object
    · have hanswered := h.answered
      rw [pending, hcurrent] at hanswered
      show _ = (w.answers ++ [(caller, reply)]) ++ []
      rw [List.append_nil]
      exact hanswered
  · exact h

/-- **Every event keeps the invariant.** -/
theorem linear_step (h : Linear exec capacity s w) (event : Event κ φ) :
    Linear exec capacity s (w.step exec capacity event) := by
  cases event with
  | send command => exact linear_send h command
  | take choice => exact linear_take h choice
  | commit => exact linear_commit h
  | answer => exact linear_answer h

variable (exec capacity) in
/-- **Every run keeps the invariant.** -/
theorem linear_run (s : σ) (events : List (Event κ φ)) :
    Linear exec capacity s (run exec capacity s events) := by
  induction events using List.reverseRecOn with
  | nil => exact linear_init s
  | append_singleton events event ih =>
    rw [run_concat]
    exact linear_step ih event

/-! ### History only grows -/

theorem Extends.refl (w : Writer σ κ φ ρ) : Extends w w :=
  ⟨List.prefix_rfl, List.prefix_rfl, List.prefix_rfl, List.prefix_rfl⟩

theorem Extends.trans (h : Extends w w') (h' : Extends w' w'') : Extends w w'' :=
  ⟨h.accepted.trans h'.accepted, h.taken.trans h'.taken, h.trace.trans h'.trace,
    h.answers.trans h'.answers⟩

theorem extends_step (w : Writer σ κ φ ρ) (event : Event κ φ) :
    Extends w (w.step exec capacity event) := by
  have hsame := List.prefix_rfl (l := w.accepted)
  cases event with
  | send command =>
    rw [step]
    split
    · exact ⟨List.prefix_append _ _, List.prefix_rfl, List.prefix_rfl, List.prefix_rfl⟩
    · exact .refl w
  | take choice =>
    rw [step]
    split
    · exact ⟨List.prefix_rfl, List.prefix_append _ _, List.prefix_rfl, List.prefix_rfl⟩
    · exact .refl w
  | commit =>
    rw [step]
    split
    · exact ⟨List.prefix_rfl, List.prefix_rfl, List.prefix_append _ _, List.prefix_rfl⟩
    · exact .refl w
  | answer =>
    rw [step]
    split
    · exact ⟨List.prefix_rfl, List.prefix_rfl, List.prefix_rfl, List.prefix_append _ _⟩
    · exact .refl w

/-- **What happened stays so.** -/
theorem extends_run (s : σ) (events more : List (Event κ φ)) :
    Extends (run exec capacity s events) (run exec capacity s (events ++ more)) := by
  induction more using List.reverseRecOn with
  | nil =>
    rw [List.append_nil]
    exact .refl _
  | append_singleton more event ih =>
    rw [← List.append_assoc, run_concat]
    exact ih.trans (extends_step _ event)

/-! ### What callers and readers learn -/

/-- The commands that were taken are the first accepted ones. -/
theorem Linear.accepted_of_taken (h : Linear exec capacity s w) {i caller : ℕ} {command : κ}
    {choice : φ} (hi : w.taken[i]? = some (caller, command, choice)) :
    caller = i ∧ w.accepted[i]? = some (i, command) := by
  have haccepted : w.accepted[i]? = some (caller, command) := by
    have hmap : (w.taken.map fun t => (t.1, t.2.1))[i]? = some (caller, command) := by
      rw [List.getElem?_map, hi, Option.map_some]
    rw [h.fifo, List.getElem?_append_left (List.getElem?_eq_some_iff.mp hmap).1, hmap]
  have hnumber : (w.accepted.map Prod.fst)[i]? = some caller := by
    rw [List.getElem?_map, haccepted, Option.map_some]
  rw [h.numbered] at hnumber
  obtain ⟨hlt, hrange⟩ := List.getElem?_eq_some_iff.mp hnumber
  rw [List.getElem_range] at hrange
  subst hrange
  exact ⟨rfl, haccepted⟩

theorem Linear.accepted_of_serial (h : Linear exec capacity s w) {i : ℕ} {command : κ} {choice : φ}
    (hi : w.serial[i]? = some (command, choice)) : w.accepted[i]? = some (i, command) := by
  rw [serial, List.getElem?_map] at hi
  obtain ⟨⟨number, c⟩, htaken, rfl⟩ := Option.map_eq_some_iff.mp hi
  exact (h.accepted_of_taken htaken).2

/-- **An answer is the reply of the sequential execution** at the caller's place. -/
theorem Linear.reply_of_answer (h : Linear exec capacity s w) {i caller : ℕ} {reply : ρ}
    (hi : w.answers[i]? = some (caller, reply)) :
    caller = i ∧ (replies exec s w.serial)[i]? = some reply := by
  have hzip : ((w.taken.map Prod.fst).zip (replies exec s w.serial))[i]? =
      some (caller, reply) := by
    rw [h.answered, List.getElem?_append_left (List.getElem?_eq_some_iff.mp hi).1]
    exact hi
  obtain ⟨hcaller, hreply⟩ := List.getElem?_zip_eq_some.mp hzip
  rw [List.getElem?_map] at hcaller
  obtain ⟨⟨number, command, choice⟩, htaken, rfl⟩ := Option.map_eq_some_iff.mp hcaller
  exact ⟨(h.accepted_of_taken htaken).1, hreply⟩

/-- **A writer with nothing left to do has answered every command it accepted.** -/
theorem Linear.all_answered (h : Linear exec capacity s w) (hqueue : w.queue = [])
    (hcurrent : w.current = none) : w.answers.length = w.accepted.length := by
  have hlength := h.length_answers
  have hpending : w.pending = [] := by rw [pending, hcurrent]; rfl
  rw [hpending, List.length_nil, Nat.add_zero] at hlength
  rw [hlength, h.fifo, hqueue, List.append_nil, serial, List.length_map, List.length_map]

section Atoms

variable {α : Type*} {stepAtom : σ → α → σ} {ops : κ × φ → σ → List α}

variable (exec ops) in
/-- The steps that a reader has seen the effect of. -/
def seen (s : σ) (w : Writer σ κ φ ρ) : List α :=
  (atoms exec ops s w.serial).take w.trace.length

/-- **A reader sees the effect of some of the steps, in order**: of all steps of the answered
commands at least. -/
theorem Linear.object_eq_foldl (h : Linear exec capacity s w)
    (hops : ∀ c s, (exec c s).1 = states stepAtom s (ops c s)) :
    w.object = (w.seen exec ops s).foldl stepAtom s ∧
      atoms exec ops s (w.serial.take w.answers.length) <+: w.seen exec ops s := by
  have htrace : w.trace = states stepAtom s (w.seen exec ops s) := by
    rw [seen, states_take, ← committed_eq_states hops, h.committed, List.take_left]
  refine ⟨?_, ?_⟩
  · rw [h.object, htrace, getLastD_states]
  · have hle := h.finished.length_le
    rw [committed_eq_states hops, length_states] at hle
    exact (List.prefix_take_iff.mpr ⟨atoms_mono (List.take_prefix _ _) s, hle⟩)

/-- **An answered command was executed**: after the steps of the commands before it, which led to
its reply, and a reader sees these, its own, and then only steps of later commands. -/
theorem Linear.exists_answered (h : Linear exec capacity s w)
    (hops : ∀ c s, (exec c s).1 = states stepAtom s (ops c s)) {i caller : ℕ} {reply : ρ}
    (hi : w.answers[i]? = some (caller, reply)) :
    ∃ command choice before rest, w.accepted[i]? = some (i, command) ∧
      reply = (exec (command, choice) (before.foldl stepAtom s)).2 ∧
      w.seen exec ops s = before ++ ops (command, choice) (before.foldl stepAtom s) ++ rest ∧
      ∀ x ∈ rest, ∃ j command' choice' s', i < j ∧ w.accepted[j]? = some (j, command') ∧
        x ∈ ops (command', choice') s' := by
  have hlt : i < w.answers.length := (List.getElem?_eq_some_iff.mp hi).1
  obtain ⟨hcaller, hreply⟩ := h.reply_of_answer hi
  obtain ⟨⟨command, choice⟩, hserial, hreply⟩ := getElem?_replies hreply
  have hdone : atoms exec ops s (w.serial.take (i + 1)) <+: w.seen exec ops s :=
    (atoms_mono (List.take_prefix_take_left hlt) s).trans (h.object_eq_foldl hops).2
  obtain ⟨rest, hrest⟩ := hdone
  refine ⟨command, choice, atoms exec ops s (w.serial.take i), rest,
    h.accepted_of_serial hserial, ?_, ?_, fun x hx => ?_⟩
  · rw [foldl_atoms hops, hreply]
  · rw [foldl_atoms hops, ← atoms_take_succ hserial, hrest]
  · -- the rest belongs to the commands after it
    have hall : atoms exec ops s (w.serial.take (i + 1)) ++ rest <+: atoms exec ops s w.serial :=
      hrest ▸ List.take_prefix _ _
    rw [← List.take_append_drop (i + 1) w.serial, atoms_append, List.take_append_drop,
      List.prefix_append_right_inj] at hall
    obtain ⟨j, ⟨command', choice'⟩, s', hj, hx⟩ := exists_of_mem_atoms (hall.subset hx)
    rw [List.getElem?_drop] at hj
    exact ⟨i + 1 + j, command', choice', s', by omega, h.accepted_of_serial hj, hx⟩

/-- **What was seen stays seen.** -/
theorem Extends.seen (h : Extends w w') (s : σ) : w.seen exec ops s <+: w'.seen exec ops s := by
  have hserial : w.serial <+: w'.serial := h.taken.map _
  have hatoms : atoms exec ops s w.serial <+: atoms exec ops s w'.serial := atoms_mono hserial s
  refine List.prefix_take_iff.mpr ⟨(List.take_prefix _ _).trans hatoms, ?_⟩
  rw [Writer.seen, List.length_take]
  exact Nat.le_trans (Nat.min_le_left _ _) h.trace.length_le

end Atoms

/-! ### The writer gets through -/

/-- Only callers add to what is accepted. -/
theorem accepted_of_no_send {events : List (Event κ φ)} (h : ∀ command, .send command ∉ events)
    (w : Writer σ κ φ ρ) : (events.foldl (step exec capacity) w).accepted = w.accepted := by
  induction events generalizing w with
  | nil => rfl
  | cons event events ih =>
    have hone : (w.step exec capacity event).accepted = w.accepted := by
      cases event with
      | send command => exact absurd List.mem_cons_self (h command)
      | take choice => rw [step]; split <;> rfl
      | commit => rw [step]; split <;> rfl
      | answer => rw [step]; split <;> rfl
    rw [List.foldl_cons, ih fun command hmem => h command (List.mem_cons_of_mem event hmem), hone]

/-- The writer has nothing left to do. -/
def Idle (w : Writer σ κ φ ρ) : Prop := w.queue = [] ∧ w.current = none

variable (exec capacity)

/-- Committing and answering end the command in hand. -/
theorem exists_finish (w : Writer σ κ φ ρ) : ∃ events : List (Event κ φ),
    (∀ command, .send command ∉ events) ∧
      (events.foldl (step exec capacity) w).queue = w.queue ∧
      (events.foldl (step exec capacity) w).current = none := by
  rcases hcurrent : w.current with - | ⟨caller, remaining, reply⟩
  · exact ⟨[], fun _ => List.not_mem_nil, rfl, hcurrent⟩
  induction remaining generalizing w with
  | nil =>
    refine ⟨[.answer], fun command hmem => ?_, ?_, ?_⟩
    · cases List.mem_singleton.mp hmem
    all_goals
      rw [List.foldl_cons, List.foldl_nil, step, hcurrent]
  | cons t remaining ih =>
    have hcommit : w.step exec capacity .commit =
        { w with
          object := t
          current := some ⟨caller, remaining, reply⟩
          trace := w.trace ++ [t] } := by
      rw [step, hcurrent]
    obtain ⟨events, hsend, hqueue, hnone⟩ := ih (w.step exec capacity .commit) (by rw [hcommit])
    refine ⟨.commit :: events, fun command hmem => ?_, ?_, hnone⟩
    · rcases List.mem_cons.mp hmem with hmem | hmem
      · cases hmem
      · exact hsend command hmem
    · rw [List.foldl_cons, hqueue, hcommit]

/-- **The writer never gets stuck**: from every state, whatever the environment chooses, its own
events empty the queue. -/
theorem exists_drain (w : Writer σ κ φ ρ) (choice : φ) : ∃ events : List (Event κ φ),
    (∀ command, .send command ∉ events) ∧ Idle (events.foldl (step exec capacity) w) := by
  obtain ⟨n, hn⟩ : ∃ n, w.queue.length = n := ⟨_, rfl⟩
  induction n generalizing w with
  | zero =>
    obtain ⟨events, hsend, hkept, hnone⟩ := exists_finish exec capacity w
    exact ⟨events, hsend, hkept.trans (List.length_eq_zero_iff.mp hn), hnone⟩
  | succ n ih =>
    obtain ⟨events, hsend, hkept, hnone⟩ := exists_finish exec capacity w
    -- the command in hand is done; take the next one
    obtain ⟨⟨caller, command⟩, queue, hqueue⟩ :=
      List.exists_cons_of_length_eq_add_one (hkept ▸ hn)
    have htake : ((events.foldl (step exec capacity) w).step exec capacity (.take choice)).queue =
        queue := by
      rw [step, hnone, hqueue]
    obtain ⟨more, hmore, hidle⟩ := ih _ (by
      rw [htake]
      have hlength := congrArg List.length hqueue
      rw [hkept, hn, List.length_cons] at hlength
      exact (Nat.succ.inj hlength).symm)
    refine ⟨events ++ .take choice :: more, fun c hmem => ?_, ?_⟩
    · rcases List.mem_append.mp hmem with hmem | hmem
      · exact hsend c hmem
      · rcases List.mem_cons.mp hmem with hmem | hmem
        · cases hmem
        · exact hmore c hmem
    · rw [List.foldl_append, List.foldl_cons]
      exact hidle

end Writer

end Serial
