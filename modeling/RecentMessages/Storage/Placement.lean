/-
RecentMessages/Storage/Placement.lean

Which nodes keep a channel (`storage/placement.rs`).

Every node ranks the members by a hash of member and channel and takes the first
`copies` of them for the channel's owners.  A node knows its own name and the list of
members, which each node may have been given in an order of its own.

`owners_agree` says that all nodes come to the same owners, `owners_of_added` and
`owners_of_removed` how the owners of a channel change when the membership does.
-/
import RecentMessages.Library.Fallible
import RecentMessages.Library.Ranking
import RecentMessages.Storage.Record
import Mathlib.Data.String.Basic

namespace RecentMessages

/-- `str::as_bytes`. -/
def asBytes (s : String) : List UInt8 := s.toUTF8.data.toList

/-- `u8::is_ascii_alphanumeric`. -/
def isAsciiAlphanumeric (c : UInt8) : Bool :=
  (48 ≤ c && c ≤ 57) || (65 ≤ c && c ≤ 90) || (97 ≤ c && c ≤ 122)

/-- The bytes `._-`. -/
def memberPunctuation : List UInt8 := asBytes "._-"

/-- What a member may be called. -/
def validMember (m : String) : Bool :=
  !(asBytes m).isEmpty && decide ((asBytes m).length ≤ 64) &&
    (asBytes m).all fun c => isAsciiAlphanumeric c || memberPunctuation.contains c

/-- `windows(2).any(|p| p[0] == p[1])`. -/
def repeats (members : List String) : Bool :=
  (members.zip members.tail).any fun p => p.1 = p.2

/-- Cache placement requires unique member names, the local member, and
`1..=members` copies. -/
structure PlacementError where
  deriving DecidableEq, Repr

/-- What a node knows of the placement; `localNode` is the field `local`. -/
structure CachePlacement where
  localNode : String
  members : List String
  copies : ℕ
  distinct : members.Nodup
  copies_pos : 0 < copies
  copies_le : copies ≤ members.length
  local_mem : localNode ∈ members

/-- A sorted list without neighbours that are equal has no duplicates. -/
theorem nodup_of_not_repeats {members : List String}
    (hsorted : members.Pairwise fun a b => a ≤ b) (h : repeats members = false) :
    members.Nodup := by
  have hstrict : members.Pairwise fun a b => a < b := by
    rw [← List.isChain_iff_pairwise]
    induction members with
    | nil => exact List.IsChain.nil
    | cons a l ih =>
      cases l with
      | nil => exact List.IsChain.singleton a
      | cons b l =>
        rw [repeats] at h
        simp only [List.tail_cons, List.zip_cons_cons, List.any_cons, Bool.or_eq_false_iff,
          decide_eq_false_iff_not] at h
        have hab : a ≤ b := List.rel_of_pairwise_cons hsorted List.mem_cons_self
        exact List.IsChain.cons_cons (lt_of_le_of_ne hab h.1) (ih hsorted.of_cons h.2)
  exact hstrict.imp fun hlt => hlt.ne

theorem not_repeats_of_nodup {members : List String} (h : members.Nodup) :
    repeats members = false := by
  induction members with
  | nil => rfl
  | cons a l ih =>
    cases l with
    | nil => rfl
    | cons b l =>
      have hab : a ≠ b := fun heq => (List.nodup_cons.mp h).1 (heq ▸ List.mem_cons_self)
      rw [repeats]
      simp only [List.tail_cons, List.zip_cons_cons, List.any_cons, Bool.or_eq_false_iff,
        decide_eq_false_iff_not]
      exact ⟨hab, ih h.of_cons⟩

namespace CachePlacement

variable (hash : List UInt8 → Digest)

/-- `CachePlacement::new`. -/
def new (localNode : String) (members : List String) (copies : ℕ) :
    Except PlacementError CachePlacement :=
  let members := sortByKey id members
  if h : members = [] ∨ copies = 0 ∨ members.length < copies ∨ localNode ∉ members ∨
      repeats members = true ∨ members.any (fun m => !validMember m) = true then
    .error {}
  else
    .ok {
      localNode, members, copies
      distinct := nodup_of_not_repeats (sortByKey_sorted _) (by
        simpa using fun hr => h (.inr (.inr (.inr (.inr (.inl hr))))))
      copies_pos := Nat.pos_of_ne_zero fun hc => h (.inr (.inl hc))
      copies_le := Nat.le_of_not_lt fun hlt => h (.inr (.inr (.inl hlt)))
      local_mem := not_not.mp fun hm => h (.inr (.inr (.inr (.inl hm)))) }

/-- The hash of a member for a channel in lower case, a zero byte between the two, and
the member; the larger pair ranks higher. -/
def rank (channel member : String) : ℕ ×ₗ String :=
  toLex ((hash (asBytes member ++ [0] ++ asBytes channel)).toNat, member)

/-- The members, highest rank first. -/
def ranked (members : List String) (channel : String) : List String :=
  sortByKey (fun member => OrderDual.toDual (rank hash (toAsciiLowercase channel) member)) members

/-- `owners`. -/
def owners (p : CachePlacement) (channel : String) : List String :=
  (ranked hash p.members channel).take p.copies

/-- `retains`. -/
def retains (p : CachePlacement) (channel : String) : Bool :=
  (p.owners hash channel).contains p.localNode

/-! ### Construction -/

variable {hash} {p : CachePlacement} {localNode channel : String} {members : List String} {copies : ℕ}

/-- What a placement that was built is made of. -/
theorem new_eq_ok (h : new localNode members copies = .ok p) :
    p.localNode = localNode ∧ p.members = sortByKey id members ∧ p.copies = copies := by
  unfold new at h
  dsimp only at h
  split at h
  · cases h
  · cases h
    exact ⟨rfl, rfl, rfl⟩

/-- **Every member can build its placement** from valid, distinct names. -/
theorem exists_new (hdistinct : members.Nodup) (hvalid : ∀ m ∈ members, validMember m = true)
    (hpos : 1 ≤ copies) (hle : copies ≤ members.length) (hlocal : localNode ∈ members) :
    ∃ p, new localNode members copies = .ok p := by
  unfold new
  dsimp only
  split
  · rename_i h
    exfalso
    rcases h with h | h | h | h | h | h
    · rw [← List.length_eq_zero_iff, length_sortByKey] at h
      omega
    · omega
    · rw [length_sortByKey] at h
      omega
    · exact h (mem_sortByKey.mpr hlocal)
    · rw [not_repeats_of_nodup ((sortByKey_perm members).nodup_iff.mpr hdistinct)] at h
      cases h
    · obtain ⟨m, hm, hinvalid⟩ := List.any_eq_true.mp h
      rw [hvalid m (mem_sortByKey.mp hm)] at hinvalid
      cases hinvalid
  · exact ⟨_, rfl⟩

/-! ### Ranks -/

/-- Members of one rank are one member. -/
theorem rank_injective (hash : List UInt8 → Digest) (channel : String) {a b : String}
    (h : OrderDual.toDual (rank hash channel a) = OrderDual.toDual (rank hash channel b)) :
    a = b := by
  have hpair := toLex.injective (OrderDual.toDual.injective h)
  exact (Prod.mk.inj hpair).2

theorem ranked_perm (hash : List UInt8 → Digest) (members : List String) (channel : String) :
    (ranked hash members channel).Perm members := sortByKey_perm members

/-- The ranking depends on the set of members and on the channel in lower case. -/
theorem ranked_congr {members' : List String} {channel' : String} (hperm : members.Perm members')
    (hcase : toAsciiLowercase channel = toAsciiLowercase channel') :
    ranked hash members channel = ranked hash members' channel' := by
  rw [ranked, hcase]
  exact sortByKey_eq_of_perm hperm fun _ _ _ _ h => rank_injective hash _ h

/-- The ranking without a member. -/
theorem ranked_erase (hash : List UInt8 → Digest) (members : List String) (channel d : String) :
    ranked hash (members.erase d) channel = (ranked hash members channel).erase d :=
  sortByKey_erase (fun _ _ _ _ h => rank_injective hash _ h) d

/-- The owners, from the list of members as it was given. -/
theorem owners_of_new (h : new localNode members copies = .ok p) :
    p.owners hash channel = (ranked hash members channel).take copies := by
  obtain ⟨-, hmembers, hcopies⟩ := new_eq_ok h
  rw [owners, hcopies, hmembers, ranked_congr (sortByKey_perm members) rfl]

/-! ### Agreement -/

/-- **All nodes agree on the owners of a channel**, whatever the order in which each of
them was given the members and however it spells the channel, and exactly `copies` of the
nodes keep it. -/
theorem owners_agree (hash : List UInt8 → Digest) (members : List String) (copies : ℕ)
    (given : String → List String) (channel : String) (spelled : String → String)
    (hdistinct : members.Nodup) (hvalid : ∀ m ∈ members, validMember m = true)
    (hpos : 1 ≤ copies) (hle : copies ≤ members.length)
    (hgiven : ∀ m ∈ members, (given m).Perm members)
    (hspelled : ∀ m ∈ members, toAsciiLowercase (spelled m) = toAsciiLowercase channel) :
    ∃ nodes, members.mapM (fun m => new m (given m) copies) = .ok nodes ∧
      nodes.map (·.localNode) = members ∧
      ∃ owners : List String, owners.length = copies ∧ owners.Nodup ∧ owners ⊆ members ∧
        (∀ p ∈ nodes, p.owners hash (spelled p.localNode) = owners) ∧
        (nodes.filter fun p => p.retains hash (spelled p.localNode)).length = copies := by
  have hnew : ∀ m ∈ members, ∃ p, new m (given m) copies = .ok p := by
    intro m hm
    have hperm := hgiven m hm
    apply exists_new (hperm.nodup_iff.mpr hdistinct)
    · exact fun q hq => hvalid q (hperm.mem_iff.mp hq)
    · exact hpos
    · rwa [hperm.length_eq]
    · exact hperm.mem_iff.mpr hm
  obtain ⟨nodes, hnodes⟩ := Except.exists_mapM hnew
  have hlocal : nodes.map (·.localNode) = members :=
    Except.map_of_mapM (fun _ _ hp => (new_eq_ok hp).1) hnodes
  generalize hdef : (ranked hash members channel).take copies = owners
  have howners : ∀ p ∈ nodes, p.owners hash (spelled p.localNode) = owners := by
    intro p hp
    obtain ⟨m, hm, hnew⟩ := (Except.mapM_eq_ok hnodes).2 p hp
    rw [(new_eq_ok hnew).1, owners_of_new hnew, ranked_congr (hgiven m hm) (hspelled m hm), hdef]
  have hlength : owners.length = copies := by
    rw [← hdef, List.length_take, (ranked_perm hash members channel).length_eq]
    exact Nat.min_eq_left hle
  have hnodup : owners.Nodup := by
    rw [← hdef]
    exact ((ranked_perm hash members channel).nodup_iff.mpr hdistinct).sublist (List.take_sublist _ _)
  have hsubset : owners ⊆ members := by
    intro m hm
    rw [← hdef] at hm
    exact (ranked_perm hash members channel).mem_iff.mp (List.mem_of_mem_take hm)
  refine ⟨nodes, hnodes, hlocal, owners, hlength, hnodup, hsubset, howners, ?_⟩
  -- the names of the nodes that keep the channel are the owners
  have hkeep : (nodes.filter fun p => p.retains hash (spelled p.localNode)).map (·.localNode) =
      members.filter fun m => m ∈ owners := by
    rw [← hlocal, List.filter_map]
    congr 1
    apply List.filter_congr
    intro p hp
    simp [retains, howners p hp]
  have hperm : (members.filter fun m => m ∈ owners).Perm owners := by
    rw [List.perm_ext_iff_of_nodup (hdistinct.filter _) hnodup]
    intro m
    rw [List.mem_filter, decide_eq_true_eq]
    exact ⟨fun h => h.2, fun h => ⟨hsubset h, h⟩⟩
  rw [← List.length_map (·.localNode), hkeep, hperm.length_eq, hlength]

/-- A hash that ranks names by their sixth byte. -/
def sampleHash (bytes : List UInt8) : Digest := BitVec.ofNat 256 (bytes.getD 5 0).toNat

def sampleMembers : List String := ["node-a", "node-b", "node-c"]

theorem owners_agree_sample :
    ∃ nodes, sampleMembers.mapM (fun m => new m sampleMembers.reverse 2) = .ok nodes ∧
      (nodes.filter fun p => p.retains sampleHash "Forsen").length = 2 := by
  obtain ⟨nodes, hnodes, -, -, -, -, -, -, hkeep⟩ := owners_agree sampleHash sampleMembers 2
    (fun _ => sampleMembers.reverse) "forsen" (fun _ => "Forsen") (by decide) (by decide)
    (by decide) (by decide) (fun _ _ => List.reverse_perm _) (fun _ _ => by decide)
  exact ⟨nodes, hnodes, hkeep⟩

/-! ### Changes of the membership -/

/-- **A member that joins or leaves moves as little as possible.**  Let `d` be the member
by which two lists differ.  If `d` is not an owner of a channel, the owners are the same
with it and without it.  If it is, the other owners keep their order, the owners without
`d` have one more at the end, and that one gives way when `d` joins. -/
theorem owners_move_minimally (hash : List UInt8 → Digest) (members grown : List String)
    (d : String) (copies : ℕ) (channel a b : String) (p q : CachePlacement)
    (hgrown : grown.Perm (d :: members)) (hp : new a members copies = .ok p)
    (hq : new b grown copies = .ok q) :
    (d ∉ q.owners hash channel → p.owners hash channel = q.owners hash channel) ∧
    (d ∈ q.owners hash channel →
      (q.owners hash channel).erase d = (p.owners hash channel).dropLast ∧
      ∃ last ∉ q.owners hash channel,
        p.owners hash channel = (q.owners hash channel).erase d ++ [last]) := by
  -- one ranking of the longer list serves both
  have howners : p.owners hash channel = ((ranked hash grown channel).erase d).take copies := by
    have hmembers : members.Perm (grown.erase d) := by
      simpa using (hgrown.erase d).symm
    rw [owners_of_new hp, ranked_congr hmembers rfl, ranked_erase]
  -- the shorter list has enough members for the copies
  have hlength : copies < (ranked hash grown channel).length := by
    have hle := p.copies_le
    rw [(new_eq_ok hp).2.2, (new_eq_ok hp).2.1, length_sortByKey] at hle
    rw [(ranked_perm hash grown channel).length_eq, hgrown.length_eq, List.length_cons]
    omega
  have hnodup : (ranked hash grown channel).Nodup := by
    have hdistinct := q.distinct
    rw [(new_eq_ok hq).2.1] at hdistinct
    exact ((ranked_perm hash grown channel).trans (sortByKey_perm grown).symm).nodup_iff.mpr hdistinct
  rw [howners, owners_of_new hq]
  constructor
  · exact take_erase_of_not_mem
  · intro hd
    obtain ⟨last, hlast, heq⟩ := take_erase_of_mem hnodup hd hlength
    refine ⟨?_, last, hlast, heq⟩
    rw [heq, List.dropLast_concat]

theorem owners_move_minimally_sample :
    ∃ p q, new "node-a" ["node-a", "node-b"] 1 = .ok p ∧ new "node-a" sampleMembers 1 = .ok q ∧
      q.owners sampleHash "forsen" = ["node-c"] ∧
      ∃ last ≠ "node-c", p.owners sampleHash "forsen" = [last] := by
  obtain ⟨p, hp⟩ : ∃ p, new "node-a" ["node-a", "node-b"] 1 = .ok p :=
    exists_new (by decide) (by decide) (by decide) (by decide) (by decide)
  obtain ⟨q, hq⟩ : ∃ q, new "node-a" sampleMembers 1 = .ok q :=
    exists_new (by decide) (by decide) (by decide) (by decide) (by decide)
  have howners : q.owners sampleHash "forsen" = ["node-c"] := by
    rw [owners_of_new hq]
    decide
  obtain ⟨-, hmoved⟩ := owners_move_minimally sampleHash ["node-a", "node-b"] sampleMembers "node-c"
    1 "forsen" "node-a" "node-a" p q (by decide) hp hq
  rw [howners] at hmoved
  obtain ⟨-, last, hlast, heq⟩ := hmoved List.mem_cons_self
  exact ⟨p, q, hp, hq, howners, last, fun h => hlast (h ▸ List.mem_cons_self), heq⟩

end CachePlacement

end RecentMessages
