/-
RecentMessages/Web/ViewerBadges.lean

Badges for the viewer (`web/viewer_badges.rs`).

A call of `load_badges` takes its time stamp, looks both parts up in the cache, fetches from
Twitch what it did not find, and then writes both parts back under its own time stamp: also a
part that it took from the cache.  Calls interleave in any way, and any of them may fail on the
way; `get_badges` lets only some channel ids through, and here they are any.  In the model a part
carries the time it was fetched at, which the code does not keep.

* `Lives` — a part that may be used in a response;
* `Revived` — a part that the cache keeps beyond its lifetime, under a younger time stamp;
* `lives_run` — a run answers with living parts as long as no call finds a revived one;
* `not_revived_run` — there are none if every part is written back by the call that fetched it;
* `revived_is_served` — a call that finds a revived part can be answered with it;
* `badges_live_unless_revived` — all of this about one run.
-/
import RecentMessages.Library.KeyTable
import RecentMessages.Library.Runs
import Mathlib.Data.List.MinMax

namespace RecentMessages

/-! ### Badge data -/

structure HelixBadgeVersion where
  id : String
  imageUrl2x : String
  title : String
  deriving DecidableEq, Repr

structure HelixBadgeSet where
  setId : String
  versions : List HelixBadgeVersion
  deriving DecidableEq, Repr

structure HelixBadgeResponse where
  data : List HelixBadgeSet
  deriving DecidableEq, Repr

structure Badge where
  url : String
  title : String
  deriving DecidableEq, Repr

/-- The badges of a response, by their names. -/
abbrev BadgeTable := KeyTable (Prod.fst : String × Badge → String)

/-- A version of a badge, by its name. -/
def HelixBadgeSet.badge (set : HelixBadgeSet) (version : HelixBadgeVersion) : String × Badge :=
  (set.setId ++ "/" ++ version.id, ⟨version.imageUrl2x, version.title⟩)

/-- The inner loop over the versions of a set. -/
def HelixBadgeSet.insertInto (set : HelixBadgeSet) (badges : BadgeTable) : BadgeTable :=
  set.versions.foldl (fun badges version => badges.put (set.badge version)) badges

/-- The end of `load_badges`: the badges of both parts. -/
def badgesOf (global channel : HelixBadgeResponse) : BadgeTable :=
  (global.data ++ channel.data).foldl (fun badges set => set.insertInto badges) KeyTable.empty

/-! ### The cache -/

/-- `BADGE_CACHE_TTL`, in nanoseconds. -/
def badgeCacheTtl : ℕ := 60 * 60 * 1000000000

/-- `MAX_CHANNEL_CACHE_ENTRIES`. -/
def maxChannelCacheEntries : ℕ := 128

/-- `CachedBadges`, of data of a type `V`. -/
structure CachedBadges (V : Type) where
  value : V
  fetchedAt : ℕ
  deriving DecidableEq

/-- An entry of the channel cache. -/
structure ChannelBadges (V : Type) extends CachedBadges V where
  channelId : String
  deriving DecidableEq

/-- `BadgeCache`. -/
structure BadgeCache (V : Type) where
  global : Option (CachedBadges V)
  channels : KeyTable (ChannelBadges.channelId (V := V))

/-- The entry is young enough for a call that began at `now`. -/
def CachedBadges.Young {V : Type} (now : ℕ) (entry : CachedBadges V) : Prop :=
  now - entry.fetchedAt < badgeCacheTtl

instance CachedBadges.decidableYoung {V : Type} (now : ℕ) (entry : CachedBadges V) :
    Decidable (entry.Young now) := inferInstanceAs (Decidable (_ < _))

namespace BadgeCache

variable {V : Type}

def empty : BadgeCache V := ⟨none, KeyTable.empty⟩

/-- What `load_badges` finds in the cache. -/
def read (cache : BadgeCache V) (channelId : String) (now : ℕ) : Option V × Option V :=
  ((cache.global.filter fun entry => entry.Young now).map (·.value),
    ((cache.channels.lookup channelId).filter fun entry => entry.Young now).map (·.value))

/-- The channels without the oldest one, if they are full and the channel is new. -/
def makeRoom (cache : BadgeCache V) (channelId : String) :
    KeyTable (ChannelBadges.channelId (V := V)) :=
  if maxChannelCacheEntries ≤ cache.channels.rows.length ∧
      (cache.channels.lookup channelId).isNone then
    match cache.channels.rows.argmin (·.fetchedAt) with
    | some oldest => cache.channels.erase oldest.channelId
    | none => cache.channels
  else cache.channels

/-- What `load_badges` writes to the cache. -/
def write (cache : BadgeCache V) (channelId : String) (now : ℕ) (global channel : V) :
    BadgeCache V :=
  ⟨some ⟨global, now⟩, (cache.makeRoom channelId).put ⟨⟨channel, now⟩, channelId⟩⟩

variable {cache : BadgeCache V} {channelId : String}

theorem makeRoom_of_some {entry : ChannelBadges V}
    (h : cache.channels.lookup channelId = some entry) :
    cache.makeRoom channelId = cache.channels := by
  simp [makeRoom, h]

/-- There is room for a new channel. -/
theorem length_makeRoom_lt (h : cache.channels.rows.length ≤ maxChannelCacheEntries)
    (hnew : cache.channels.lookup channelId = none) :
    (cache.makeRoom channelId).rows.length < maxChannelCacheEntries := by
  unfold makeRoom
  split
  · rename_i hfull
    split
    · rename_i oldest holdest
      have herase := KeyTable.length_erase (KeyTable.lookup_of_mem (List.argmin_mem holdest))
      omega
    · -- a full cache has an oldest entry
      rename_i hnone
      rw [List.argmin_eq_none] at hnone
      rw [hnone, List.length_nil] at hfull
      exact absurd hfull.1 (by decide)
  · rename_i hroom
    simp only [hnew, Option.isNone_none, and_true] at hroom
    exact Nat.lt_of_not_le hroom

/-- **The channel cache does not outgrow its bound.** -/
theorem length_write_le (h : cache.channels.rows.length ≤ maxChannelCacheEntries)
    (channelId : String) (now : ℕ) (global channel : V) :
    (cache.write channelId now global channel).channels.rows.length ≤ maxChannelCacheEntries := by
  show ((cache.makeRoom channelId).put _).rows.length ≤ _
  rcases hlookup : cache.channels.lookup channelId with - | entry
  · have hroom := length_makeRoom_lt h hlookup
    rw [KeyTable.rows_put, List.length_append, List.length_singleton]
    exact (Nat.succ_le_succ (List.length_filter_le _ _)).trans hroom
  · rw [makeRoom_of_some hlookup, KeyTable.length_put hlookup]
    exact h

/-! ### What a write leaves -/

theorem mem_write {now : ℕ} {global channel : V} {entry : ChannelBadges V}
    (h : entry ∈ (cache.write channelId now global channel).channels.rows) :
    entry ∈ cache.channels.rows ∨ entry = ⟨⟨channel, now⟩, channelId⟩ := by
  rcases KeyTable.mem_put.mp h with ⟨hmem, -⟩ | rfl
  · left
    unfold makeRoom at hmem
    split at hmem
    · split at hmem
      · exact (KeyTable.mem_erase.mp hmem).1
      · exact hmem
    · exact hmem
  · exact .inr rfl

end BadgeCache

/-! ### Calls -/

/-- Data from Twitch, with the time that it was fetched at. -/
structure Fetched where
  response : HelixBadgeResponse
  time : ℕ
  deriving DecidableEq

/-- How far a call has got: it has its time stamp, or it has looked its parts up and fetches
those that are missing. -/
inductive BadgePhase
  | started
  | loading (global channel : Option Fetched)
  deriving DecidableEq

/-- A call of `load_badges` that was not answered yet. -/
structure BadgeCall where
  id : ℕ
  channelId : String
  now : ℕ
  phase : BadgePhase
  deriving DecidableEq

/-- A call that was answered. -/
structure ServedBadges where
  channelId : String
  now : ℕ
  answeredAt : ℕ
  global : Fetched
  channel : Fetched
  deriving DecidableEq

/-- The badges of an answer. -/
def ServedBadges.badges (answer : ServedBadges) : BadgeTable :=
  badgesOf answer.global.response answer.channel.response

/-- The answer of a call that has both parts. -/
def BadgeCall.answer (call : BadgeCall) (answeredAt : ℕ) (global channel : Fetched) :
    ServedBadges :=
  ⟨call.channelId, call.now, answeredAt, global, channel⟩

/-- The cache, the calls that are under way, and those that were answered. -/
structure BadgeState where
  clock : ℕ
  cache : BadgeCache Fetched
  calls : KeyTable BadgeCall.id
  served : List ServedBadges

/-- What can happen next.  `reorder` is for the iteration order of a `HashMap`, which may be
any; a call fails where a request of it does. -/
inductive BadgeEvent
  | advance (nanoseconds : ℕ)
  | reorder (channels : List (ChannelBadges Fetched))
  | start (id : ℕ) (channelId : String)
  | read (id : ℕ)
  | fetch (id : ℕ) (response : HelixBadgeResponse)
  | fail (id : ℕ)
  | finish (id : ℕ)
  deriving DecidableEq

/-- The global part is fetched first. -/
def BadgePhase.fetch (value : Fetched) : BadgePhase → BadgePhase
  | .loading none channel => .loading (some value) channel
  | .loading (some global) none => .loading (some global) (some value)
  | phase => phase

/-- A look at the cache, if the call has not had one. -/
def BadgeCall.read (cache : BadgeCache Fetched) (call : BadgeCall) : BadgeCall :=
  match call.phase with
  | .started =>
    let parts := cache.read call.channelId call.now
    { call with phase := .loading parts.1 parts.2 }
  | .loading _ _ => call

theorem BadgeCall.id_read (cache : BadgeCache Fetched) (call : BadgeCall) :
    (call.read cache).id = call.id := by
  unfold read
  split <;> rfl

/-- Data from Twitch arrives. -/
def BadgeCall.fetch (value : Fetched) (call : BadgeCall) : BadgeCall :=
  { call with phase := call.phase.fetch value }

theorem BadgeCall.id_fetch (value : Fetched) (call : BadgeCall) :
    (call.fetch value).id = call.id := rfl

namespace BadgeState

/-- Nothing is cached. -/
def init : BadgeState := ⟨0, BadgeCache.empty, KeyTable.empty, []⟩

/-- The end of a call that has both parts. -/
def finish (state : BadgeState) (call : BadgeCall) (global channel : Fetched) : BadgeState :=
  { state with
    cache := state.cache.write call.channelId call.now global channel
    calls := state.calls.erase call.id
    served := state.served ++ [call.answer state.clock global channel] }

/-- The channels in another order. -/
def reorder (state : BadgeState) (channels : List (ChannelBadges Fetched)) : BadgeState :=
  if h : channels.Perm state.cache.channels.rows then
    { state with cache := ⟨state.cache.global,
        ⟨channels, (h.map _).nodup_iff.mpr state.cache.channels.nodup⟩⟩ }
  else state

/-- One event; those that cannot happen change nothing. -/
def step (state : BadgeState) : BadgeEvent → BadgeState
  | .advance nanoseconds => { state with clock := state.clock + nanoseconds }
  | .reorder channels => state.reorder channels
  | .start id channelId =>
    { state with calls := state.calls.insertIgnore ⟨id, channelId, state.clock, .started⟩ }
  | .read id =>
    { state with
      calls := state.calls.modify id (BadgeCall.read state.cache) (BadgeCall.id_read state.cache) }
  | .fetch id response =>
    { state with
      calls := state.calls.modify id (BadgeCall.fetch ⟨response, state.clock⟩)
        (BadgeCall.id_fetch ⟨response, state.clock⟩) }
  | .fail id => { state with calls := state.calls.erase id }
  | .finish id =>
    match state.calls.lookup id with
    | none => state
    | some call =>
      match call.phase with
      | .loading (some global) (some channel) => state.finish call global channel
      | _ => state

theorem step_finish {state : BadgeState} {id : ℕ} {call : BadgeCall} {global channel : Fetched}
    (hcall : state.calls.lookup id = some call)
    (hphase : call.phase = .loading (some global) (some channel)) :
    state.step (.finish id) = state.finish call global channel := by
  simp only [step, hcall, hphase]

/-- **A call that ends** has both parts; otherwise nothing happens. -/
theorem step_finish_cases (state : BadgeState) (id : ℕ) :
    state.step (.finish id) = state ∨ ∃ call global channel,
      state.calls.lookup id = some call ∧
        call.phase = .loading (some global) (some channel) ∧
        state.step (.finish id) = state.finish call global channel := by
  rcases hcall : state.calls.lookup id with - | call
  · left
    simp only [step, hcall]
  · rcases hphase : call.phase with - | ⟨_ | global, _ | channel⟩
    case loading.some.some =>
      exact .inr ⟨call, global, channel, rfl, hphase, step_finish hcall hphase⟩
    all_goals
      left
      simp only [step, hcall, hphase]

/-- The state after a run. -/
def run (events : List BadgeEvent) : BadgeState := events.foldl step init

end BadgeState

/-! ### Lifetimes -/

/-- A part may be used by a call that began at `now` and is answered at `t`: it was fetched
less than `BADGE_CACHE_TTL` before the call, or during it. -/
def Fetched.Lives (now t : ℕ) (part : Fetched) : Prop :=
  part.time < now ∧ now - part.time < badgeCacheTtl ∨ now ≤ part.time ∧ part.time ≤ t

/-- Both parts of an answer live. -/
def ServedBadges.Lives (answer : ServedBadges) : Prop :=
  answer.global.Lives answer.now answer.answeredAt ∧
    answer.channel.Lives answer.now answer.answeredAt

instance Fetched.decidableLives (now t : ℕ) (part : Fetched) : Decidable (part.Lives now t) :=
  inferInstanceAs (Decidable (_ ∨ _))

instance ServedBadges.decidableLives (answer : ServedBadges) : Decidable answer.Lives :=
  inferInstanceAs (Decidable (_ ∧ _))

/-- The cache keeps a part beyond its lifetime: it was written back by a young call, and
fetched by an old one. -/
def CachedBadges.Revived (now : ℕ) (entry : CachedBadges Fetched) : Prop :=
  entry.Young now ∧ badgeCacheTtl ≤ now - entry.value.time

/-- A part that a call has. -/
def BadgePhase.Has (part : Fetched) : BadgePhase → Prop
  | .started => False
  | .loading global channel => global = some part ∨ channel = some part

theorem BadgePhase.has_fetch {value part : Fetched} {phase : BadgePhase}
    (h : (phase.fetch value).Has part) : part = value ∨ phase.Has part := by
  cases phase with
  | started => exact h.elim
  | loading global channel =>
    cases global with
    | none =>
      rcases h with hvalue | hchannel
      · exact .inl (Option.some.inj hvalue).symm
      · exact .inr (.inr hchannel)
    | some global =>
      cases channel with
      | none =>
        rcases h with hglobal | hvalue
        · exact .inr (.inl hglobal)
        · exact .inl (Option.some.inj hvalue).symm
      | some channel => exact .inr h

theorem BadgeCall.now_read (cache : BadgeCache Fetched) (call : BadgeCall) :
    (call.read cache).now = call.now := by
  unfold read
  split <;> rfl

theorem Fetched.lives_iff {now t : ℕ} {part : Fetched} (h : part.time ≤ t) :
    part.Lives now t ↔ now - part.time < badgeCacheTtl := by
  have hpos : 0 < badgeCacheTtl := by decide
  unfold Lives
  omega

theorem Fetched.Lives.mono {now t t' : ℕ} {part : Fetched} (h : part.Lives now t)
    (hle : t ≤ t') : part.Lives now t' :=
  h.imp_right fun hduring => ⟨hduring.1, hduring.2.trans hle⟩

theorem Fetched.Lives.le {now t : ℕ} {part : Fetched} (h : part.Lives now t) (hnow : now ≤ t) :
    part.time ≤ t := by
  rcases h with ⟨hbefore, -⟩ | ⟨-, hduring⟩
  · exact hbefore.le.trans hnow
  · exact hduring

namespace BadgeState

/-- A call that looks its parts up now finds one that was revived. -/
def FindsRevived (state : BadgeState) (id : ℕ) : Prop :=
  ∃ call, state.calls.lookup id = some call ∧ call.phase = .started ∧
    ((∃ entry, state.cache.global = some entry ∧ entry.Revived call.now) ∨
      ∃ entry, state.cache.channels.lookup call.channelId = some entry ∧
        entry.toCachedBadges.Revived call.now)

/-- A look at the cache finds no revived part. -/
def Unrevived (state : BadgeState) : BadgeEvent → Prop
  | .read id => ¬ state.FindsRevived id
  | _ => True

/-- What a run keeps as long as no call finds a revived part. -/
structure Living (state : BadgeState) : Prop where
  global : ∀ entry, state.cache.global = some entry → entry.value.time ≤ state.clock
  channels : ∀ entry ∈ state.cache.channels.rows, entry.value.time ≤ state.clock
  calls : ∀ call ∈ state.calls.rows, call.now ≤ state.clock ∧
    ∀ part, call.phase.Has part → part.Lives call.now state.clock
  served : ∀ answer ∈ state.served, answer.Lives

variable {state : BadgeState} {call : BadgeCall} {global channel : Fetched}

theorem living_init : init.Living := ⟨nofun, nofun, nofun, nofun⟩

/-- **What a call finds lives**, unless it was revived. -/
theorem Living.read (h : state.Living) (hcall : call ∈ state.calls.rows)
    (hfinds : ¬ state.FindsRevived call.id) (part : Fetched)
    (hpart : (call.read state.cache).phase.Has part) : part.Lives call.now state.clock := by
  have hlookup := KeyTable.lookup_of_mem hcall
  unfold BadgeCall.read at hpart
  split at hpart
  · rename_i hstarted
    rcases hpart with hglobal | hchannel
    · obtain ⟨entry, hentry, rfl⟩ := Option.map_eq_some_iff.mp hglobal
      obtain ⟨hentry, hyoung⟩ := Option.filter_eq_some_iff.mp hentry
      apply (Fetched.lives_iff (h.global entry hentry)).mpr
      by_contra hold
      exact hfinds ⟨call, hlookup, hstarted, .inl ⟨entry, hentry, of_decide_eq_true hyoung,
        Nat.not_lt.mp hold⟩⟩
    · obtain ⟨entry, hentry, rfl⟩ := Option.map_eq_some_iff.mp hchannel
      obtain ⟨hentry, hyoung⟩ := Option.filter_eq_some_iff.mp hentry
      apply (Fetched.lives_iff (h.channels entry (KeyTable.mem_of_lookup hentry))).mpr
      by_contra hold
      exact hfinds ⟨call, hlookup, hstarted, .inr ⟨entry, hentry, of_decide_eq_true hyoung,
        Nat.not_lt.mp hold⟩⟩
  · exact (h.calls call hcall).2 part hpart

/-- What arrives from Twitch lives. -/
theorem Living.fetch (h : state.Living) (hcall : call ∈ state.calls.rows)
    (response : HelixBadgeResponse) (part : Fetched)
    (hpart : (call.phase.fetch ⟨response, state.clock⟩).Has part) :
    part.Lives call.now state.clock := by
  obtain ⟨hnow, hparts⟩ := h.calls call hcall
  rcases BadgePhase.has_fetch hpart with rfl | hpart
  · exact .inr ⟨hnow, Nat.le_refl _⟩
  · exact hparts part hpart

/-- An answer is given with the parts that the call has. -/
theorem Living.finish (h : state.Living) (hcall : call ∈ state.calls.rows)
    (hphase : call.phase = .loading (some global) (some channel)) :
    (state.finish call global channel).Living := by
  obtain ⟨hnow, hparts⟩ := h.calls call hcall
  have hglobal : global.Lives call.now state.clock :=
    hparts global (by rw [hphase]; exact .inl rfl)
  have hchannel : channel.Lives call.now state.clock :=
    hparts channel (by rw [hphase]; exact .inr rfl)
  refine ⟨?_, ?_, ?_, ?_⟩
  · rintro entry hentry
    obtain rfl := Option.some.inj hentry
    exact hglobal.le hnow
  · intro entry hentry
    rcases BadgeCache.mem_write hentry with hold | rfl
    · exact h.channels entry hold
    · exact hchannel.le hnow
  · exact fun other hother => h.calls other (KeyTable.mem_erase.mp hother).1
  · intro answer hanswer
    rcases List.mem_append.mp hanswer with hold | hnew
    · exact h.served answer hold
    · rw [List.mem_singleton.mp hnew]
      exact ⟨hglobal, hchannel⟩

theorem Living.step (h : state.Living) {event : BadgeEvent} (hevent : state.Unrevived event) :
    (state.step event).Living := by
  cases event with
  | advance nanoseconds =>
    -- time only adds to the age of what is held
    have hle : state.clock ≤ state.clock + nanoseconds := Nat.le_add_right _ _
    refine ⟨fun entry hentry => (h.global entry hentry).trans hle,
      fun entry hentry => (h.channels entry hentry).trans hle, fun call hcall => ?_, h.served⟩
    obtain ⟨hnow, hparts⟩ := h.calls call hcall
    exact ⟨hnow.trans hle, fun part hpart => (hparts part hpart).mono hle⟩
  | reorder channels =>
    -- the order of a hash map says nothing about its entries
    show (state.reorder channels).Living
    unfold reorder
    split
    · rename_i hperm
      exact ⟨h.global, fun entry hentry => h.channels entry (hperm.mem_iff.mp hentry), h.calls,
        h.served⟩
    · exact h
  | start id channelId =>
    -- a call begins with its time stamp, and without parts
    refine ⟨h.global, h.channels, fun call hcall => ?_, h.served⟩
    rcases KeyTable.mem_insertIgnore.mp hcall with hold | ⟨rfl, -⟩
    · exact h.calls call hold
    · refine ⟨Nat.le_refl _, fun part hpart => ?_⟩
      cases hpart
  | read id =>
    -- the one event that the hypothesis is about
    refine ⟨h.global, h.channels, fun call hcall => ?_, h.served⟩
    change call ∈ (state.calls.modify id _ (BadgeCall.id_read state.cache)).rows at hcall
    rcases KeyTable.mem_modify.mp hcall with ⟨hold, -⟩ | ⟨old, hold, rfl, rfl⟩
    · exact h.calls call hold
    · rw [BadgeCall.now_read]
      exact ⟨(h.calls old hold).1, h.read hold hevent⟩
  | fetch id response =>
    -- a part that was fetched is as young as can be
    refine ⟨h.global, h.channels, fun call hcall => ?_, h.served⟩
    change call ∈ (state.calls.modify id _ (BadgeCall.id_fetch ⟨response, state.clock⟩)).rows
      at hcall
    rcases KeyTable.mem_modify.mp hcall with ⟨hold, -⟩ | ⟨old, hold, rfl, rfl⟩
    · exact h.calls call hold
    · exact ⟨(h.calls old hold).1, h.fetch hold response⟩
  | fail id =>
    exact ⟨h.global, h.channels, fun call hcall => h.calls call (KeyTable.mem_erase.mp hcall).1,
      h.served⟩
  | finish id =>
    -- a call writes back both of its parts
    rcases state.step_finish_cases id with hstep | ⟨call, global, channel, hcall, hphase, hstep⟩
    · rwa [hstep]
    · rw [hstep]
      exact h.finish (KeyTable.mem_of_lookup hcall) hphase

/-- **A run answers with living parts** as long as no call finds a revived one. -/
theorem lives_run {events : List BadgeEvent} (h : Along step Unrevived init events) :
    ∀ answer ∈ (run events).served, answer.Lives :=
  (h.invariant (fun _ _ hliving hevent => hliving.step hevent) living_init).served

/-! ### The bound of the channel cache -/

theorem length_channels_step (event : BadgeEvent)
    (h : state.cache.channels.rows.length ≤ maxChannelCacheEntries) :
    (state.step event).cache.channels.rows.length ≤ maxChannelCacheEntries := by
  cases event with
  | reorder channels =>
    show (state.reorder channels).cache.channels.rows.length ≤ _
    unfold reorder
    split
    · rename_i hperm
      exact hperm.length_eq.trans_le h
    · exact h
  | finish id =>
    rcases state.step_finish_cases id with hstep | ⟨call, global, channel, -, -, hstep⟩
    · rwa [hstep]
    · rw [hstep]
      exact BadgeCache.length_write_le h call.channelId call.now global channel
  | _ => exact h

/-- **The channel cache is bounded**, in every run. -/
theorem length_channels_run (events : List BadgeEvent) :
    (run events).cache.channels.rows.length ≤ maxChannelCacheEntries := by
  have hall : Along step (fun _ _ => True) init events :=
    Along.of_forall fun _ _ _ => trivial
  exact hall.invariant
    (I := fun state => state.cache.channels.rows.length ≤ maxChannelCacheEntries)
    (fun _ event h _ => length_channels_step event h) (Nat.zero_le _)

/-! ### What revives a part -/

/-- A call that ends writes back only what was fetched after it began. -/
def WritesFetched (state : BadgeState) : BadgeEvent → Prop
  | .finish id => ∀ call global channel, state.calls.lookup id = some call →
      call.phase = .loading (some global) (some channel) →
      call.now ≤ global.time ∧ call.now ≤ channel.time
  | _ => True

/-- No time stamp of the cache is younger than the part. -/
structure Stamped (state : BadgeState) : Prop where
  global : ∀ entry, state.cache.global = some entry → entry.fetchedAt ≤ entry.value.time
  channels : ∀ entry ∈ state.cache.channels.rows, entry.fetchedAt ≤ entry.value.time

theorem stamped_init : init.Stamped := ⟨nofun, nofun⟩

theorem Stamped.step (h : state.Stamped) {event : BadgeEvent}
    (hevent : state.WritesFetched event) : (state.step event).Stamped := by
  cases event with
  | reorder channels =>
    show (state.reorder channels).Stamped
    unfold reorder
    split
    · rename_i hperm
      exact ⟨h.global, fun entry hentry => h.channels entry (hperm.mem_iff.mp hentry)⟩
    · exact h
  | finish id =>
    rcases state.step_finish_cases id with hstep | ⟨call, global, channel, hcall, hphase, hstep⟩
    · rwa [hstep]
    · rw [hstep]
      obtain ⟨hglobal, hchannel⟩ := hevent call global channel hcall hphase
      constructor
      · rintro entry hentry
        obtain rfl := Option.some.inj hentry
        exact hglobal
      · intro entry hentry
        rcases BadgeCache.mem_write hentry with hold | rfl
        · exact h.channels entry hold
        · exact hchannel
  | _ => exact ⟨h.global, h.channels⟩

theorem Stamped.not_revived {now : ℕ} {entry : CachedBadges Fetched}
    (h : entry.fetchedAt ≤ entry.value.time) : ¬ entry.Revived now := by
  rintro ⟨hyoung, hold⟩
  unfold CachedBadges.Young at hyoung
  omega

/-- **There is no revived part** if every part is written back by the call that fetched it. -/
theorem not_revived_run {events : List BadgeEvent} (h : Along step WritesFetched init events) :
    Along step Unrevived init events := by
  refine h.mono (I := Stamped) (fun _ _ hstamped hevent => hstamped.step hevent) ?_ stamped_init
  intro state event hstamped _
  cases event with
  | read id =>
    rintro ⟨call, -, -, ⟨entry, hentry, hrevived⟩ | ⟨entry, hentry, hrevived⟩⟩
    · exact Stamped.not_revived (hstamped.global entry hentry) hrevived
    · exact Stamped.not_revived (hstamped.channels entry (KeyTable.mem_of_lookup hentry)) hrevived
  | _ => trivial

/-! ### Revived parts are served -/

theorem lookup_read {id : ℕ} (hcall : state.calls.lookup id = some call) :
    (state.step (.read id)).calls.lookup id = some (call.read state.cache) := by
  show (state.calls.modify id _ (BadgeCall.id_read state.cache)).lookup id = _
  rw [KeyTable.lookup_modify_self, hcall, Option.map_some]

theorem lookup_fetch {id : ℕ} (hcall : state.calls.lookup id = some call)
    (response : HelixBadgeResponse) :
    (state.step (.fetch id response)).calls.lookup id =
      some (call.fetch ⟨response, state.clock⟩) := by
  show (state.calls.modify id _ (BadgeCall.id_fetch ⟨response, state.clock⟩)).lookup id = _
  rw [KeyTable.lookup_modify_self, hcall, Option.map_some]

/-- Two fetches are enough for any call. -/
theorem fetch_fetch (value : Fetched) (global channel : Option Fetched) :
    ((BadgePhase.loading global channel).fetch value).fetch value =
      .loading (some (global.getD value)) (some (channel.getD value)) := by
  rcases global with - | global
  · cases channel <;> rfl
  · cases channel <;> rfl

/-- What a call that has looked its parts up does when nothing fails. -/
def answering (id : ℕ) : List BadgeEvent := [.fetch id ⟨[]⟩, .fetch id ⟨[]⟩, .finish id]

/-- **A call that has looked its parts up can be answered**, with what it found. -/
theorem exists_answer {id : ℕ} {global channel : Option Fetched}
    (hcall : state.calls.lookup id = some call) (hphase : call.phase = .loading global channel) :
    ∃ answer ∈ ((answering id).foldl step state).served, answer.now = call.now ∧
      (∀ part, global = some part → answer.global = part) ∧
      ∀ part, channel = some part → answer.channel = part := by
  have hfetched := lookup_fetch (lookup_fetch hcall ⟨[]⟩) ⟨[]⟩
  have hboth : ((call.fetch ⟨⟨[]⟩, state.clock⟩).fetch ⟨⟨[]⟩, state.clock⟩).phase =
      .loading (some (global.getD ⟨⟨[]⟩, state.clock⟩))
        (some (channel.getD ⟨⟨[]⟩, state.clock⟩)) := by
    show (call.phase.fetch _).fetch _ = _
    rw [hphase, fetch_fetch]
  refine ⟨call.answer state.clock (global.getD ⟨⟨[]⟩, state.clock⟩)
    (channel.getD ⟨⟨[]⟩, state.clock⟩), ?_, rfl, ?_, ?_⟩
  · show _ ∈ BadgeState.served (BadgeState.step _ (.finish id))
    rw [step_finish hfetched hboth]
    exact List.mem_append_right _ (List.mem_singleton.mpr rfl)
  · rintro part rfl
    rfl
  · rintro part rfl
    rfl

/-- A revived part does not live. -/
theorem not_lives_of_revived {now t : ℕ} {entry : CachedBadges Fetched}
    (h : entry.Revived now) : ¬ entry.value.Lives now t := by
  have hpos : 0 < badgeCacheTtl := by decide
  obtain ⟨-, hold⟩ := h
  unfold Fetched.Lives
  omega

/-- **A call that finds a revived part can be answered with it.** -/
theorem revived_is_served {id : ℕ} (h : state.FindsRevived id) :
    ∃ answer ∈ ((.read id :: answering id).foldl step state).served, ¬ answer.Lives := by
  obtain ⟨call, hcall, hstarted, hrevived⟩ := h
  have hread : (call.read state.cache).phase =
      .loading (state.cache.read call.channelId call.now).1
        (state.cache.read call.channelId call.now).2 := by
    rw [BadgeCall.read, hstarted]
  obtain ⟨answer, hanswer, hnow, hglobal, hchannel⟩ := exists_answer (lookup_read hcall) hread
  rw [BadgeCall.now_read] at hnow
  refine ⟨answer, hanswer, fun hlives => ?_⟩
  rcases hrevived with ⟨entry, hentry, hrevived⟩ | ⟨entry, hentry, hrevived⟩
  · have hfound : (state.cache.read call.channelId call.now).1 = some entry.value := by
      simp [BadgeCache.read, hentry, Option.filter, hrevived.1]
    rw [← hnow] at hrevived
    exact not_lives_of_revived hrevived (hglobal entry.value hfound ▸ hlives.1)
  · have hfound : (state.cache.read call.channelId call.now).2 = some entry.value := by
      simp [BadgeCache.read, hentry, Option.filter, hrevived.1]
    rw [← hnow] at hrevived
    exact not_lives_of_revived hrevived (hchannel entry.value hfound ▸ hlives.2)

/-! ### What is served -/

/-- **Badge data is not served past its lifetime, unless the cache revives it.**  A run in
which no call finds a revived part answers with parts that were fetched less than
`BADGE_CACHE_TTL` before the call, or during it; only a part that is written back by a call that
did not fetch it is revived, and a call that finds one can be answered with it.  The channel cache
keeps to its bound in every run. -/
theorem badges_live_unless_revived (events : List BadgeEvent) :
    (Along step Unrevived init events → ∀ answer ∈ (run events).served, answer.Lives) ∧
      (Along step WritesFetched init events → Along step Unrevived init events) ∧
      (∀ id, (run events).FindsRevived id →
        ∃ more, ∃ answer ∈ (run (events ++ .read id :: more)).served, ¬ answer.Lives) ∧
      (run events).cache.channels.rows.length ≤ maxChannelCacheEntries := by
  refine ⟨fun h => lives_run h, fun h => not_revived_run h, fun id h => ⟨answering id, ?_⟩,
    length_channels_run events⟩
  rw [run, List.foldl_append]
  exact revived_is_served h

/-- Three calls for different channels, 59 minutes apart: the first one fetches the global
part, and the others take it from the cache. -/
def threeCalls : List BadgeEvent :=
  [.start 1 "1", .read 1, .fetch 1 ⟨[]⟩, .fetch 1 ⟨[]⟩, .finish 1, .advance 3540000000000,
    .start 2 "2", .read 2, .fetch 2 ⟨[]⟩, .finish 2, .advance 3540000000000,
    .start 3 "3", .read 3, .fetch 3 ⟨[]⟩, .finish 3]

/-- The third call is answered with data of two hours before, less two minutes. -/
theorem three_calls_stale :
    ∃ answer ∈ (run threeCalls).served, answer.channelId = "3" ∧
      answer.global.time + badgeCacheTtl < answer.now ∧ ¬ answer.Lives := by
  decide +kernel

end BadgeState

end RecentMessages
