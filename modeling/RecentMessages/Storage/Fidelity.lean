/-
RecentMessages/Storage/Fidelity.lean

An append keeps the best copy of every event.

A list of records is a `Summary` of the records it was made from when it has one
copy of each of their events, of the highest fidelity; two summaries of the same
records give every event the same fidelity (`Summary.fidelityOf_eq`), in whatever
order and grouping the records came.

The merge loop of an append only ever upgrades a copy (`upgraded_absorb`), and
leaves a copy of every record it has seen that is at least as good
(`covered_absorb`).  The blocks that it touched are written back as they are
(`rewriteDirty_rows`), so the same holds of the store
(`appendChannelBatches_covers`).  An append of records that are covered already
changes nothing (`appendChannelBatches_replay`).
-/
import RecentMessages.Storage.Accounting

namespace RecentMessages

open CanonicalRecord

/-! ### Summaries -/

namespace CanonicalRecord

/-- `q` is a copy of the same event, of no lower fidelity. -/
def CoveredBy (r q : CanonicalRecord) : Prop :=
  q.event = r.event ∧ r.fidelity.rank ≤ q.fidelity.rank

theorem CoveredBy.refl (r : CanonicalRecord) : r.CoveredBy r := ⟨rfl, le_rfl⟩

theorem CoveredBy.trans {r q p : CanonicalRecord} (h : r.CoveredBy q) (h' : q.CoveredBy p) :
    r.CoveredBy p :=
  ⟨h'.1.trans h.1, h.2.trans h'.2⟩

theorem rank_of_shouldReplace {r q : CanonicalRecord} (h : r.shouldReplace q = true) :
    q.fidelity.rank ≤ r.fidelity.rank := by
  simp only [shouldReplace, Bool.and_eq_true, decide_eq_true_eq] at h
  exact h.2.le

theorem rank_of_not_shouldReplace {r q : CanonicalRecord} (hkey : r.eventKey = q.eventKey)
    (h : r.shouldReplace q = false) : r.fidelity.rank ≤ q.fidelity.rank := by
  simpa [shouldReplace, hkey] using h

end CanonicalRecord

theorem SourceFidelity.rank_injective : Function.Injective SourceFidelity.rank := by
  intro f g h
  cases f <;> cases g <;> first | rfl | cases h

/-- The fidelity of the first copy of an event. -/
def fidelityOf (l : List CanonicalRecord) (e : String × EventKey) : Option SourceFidelity :=
  (l.find? fun r => r.event = e).map (·.fidelity)

/-- `l` has one copy of every event of `history`, of the highest fidelity. -/
structure Summary (l history : List CanonicalRecord) : Prop where
  nodup : (l.map event).Nodup
  source : ∀ r ∈ l, r ∈ history
  covers : ∀ r ∈ history, ∃ q ∈ l, r.CoveredBy q

namespace Summary

variable {l l' history history' : List CanonicalRecord}

theorem best (h : Summary l history) {r q : CanonicalRecord} (hr : r ∈ l) (hq : q ∈ history)
    (hevent : q.event = r.event) : q.fidelity.rank ≤ r.fidelity.rank := by
  obtain ⟨p, hp, hpe, hrank⟩ := h.covers q hq
  rwa [List.inj_on_of_nodup_map h.nodup hr hp (hevent.symm.trans hpe.symm)]

/-- The copies in two summaries of the same records are of one fidelity. -/
theorem fidelity_eq (h : Summary l history) (h' : Summary l' history')
    (hsame : ∀ r, r ∈ history ↔ r ∈ history') {r q : CanonicalRecord} (hr : r ∈ l) (hq : q ∈ l')
    (hevent : r.event = q.event) : r.fidelity = q.fidelity := by
  apply SourceFidelity.rank_injective
  apply le_antisymm
  · exact h'.best hq ((hsame r).mp (h.source r hr)) hevent
  · exact h.best hr ((hsame q).mpr (h'.source q hq)) hevent.symm

theorem fidelityOf_eq_some (h : Summary l history) {e : String × EventKey} {f : SourceFidelity} :
    fidelityOf l e = some f ↔ ∃ r ∈ l, r.event = e ∧ r.fidelity = f := by
  rw [fidelityOf, Option.map_eq_some_iff]
  constructor
  · rintro ⟨r, hfind, hf⟩
    exact ⟨r, List.mem_of_find?_eq_some hfind, by simpa using List.find?_some hfind, hf⟩
  · rintro ⟨r, hr, hre, hf⟩
    have hsome : (l.find? fun r => r.event = e).isSome :=
      List.find?_isSome.mpr ⟨r, hr, decide_eq_true hre⟩
    obtain ⟨q, hfind⟩ := Option.isSome_iff_exists.mp hsome
    have hq := List.mem_of_find?_eq_some hfind
    have hqe : q.event = e := by simpa using List.find?_some hfind
    rw [List.inj_on_of_nodup_map h.nodup hr hq (hre.trans hqe.symm)] at hf
    exact ⟨q, hfind, hf⟩

/-- **Two summaries of the same records agree** on the fidelity of every event. -/
theorem fidelityOf_eq (h : Summary l history) (h' : Summary l' history')
    (hsame : ∀ r, r ∈ history ↔ r ∈ history') : fidelityOf l = fidelityOf l' := by
  have hto : ∀ {l l' history history' : List CanonicalRecord}, Summary l history →
      Summary l' history' → (∀ r, r ∈ history ↔ r ∈ history') → ∀ e f,
      (∃ r ∈ l, r.event = e ∧ r.fidelity = f) → ∃ q ∈ l', q.event = e ∧ q.fidelity = f := by
    rintro l l' history history' h h' hsame e f ⟨r, hr, hre, hf⟩
    obtain ⟨q, hq, hqe, -⟩ := h'.covers r ((hsame r).mp (h.source r hr))
    exact ⟨q, hq, hqe.trans hre, (h.fidelity_eq h' hsame hr hq hqe.symm).symm.trans hf⟩
  funext e
  ext f
  rw [h.fidelityOf_eq_some, h'.fidelityOf_eq_some]
  exact ⟨hto h h' hsame e f, hto h' h (fun r => (hsame r).symm) e f⟩

end Summary

/-! ### The merge loop -/

/-- Record by record, `new` has a copy of the same key and no lower fidelity. -/
def Upgraded (old new : List CanonicalRecord) : Prop :=
  ∀ (i : ℕ) (r : CanonicalRecord), old[i]? = some r →
    ∃ q : CanonicalRecord, new[i]? = some q ∧ q.eventKey = r.eventKey ∧ r.fidelity.rank ≤ q.fidelity.rank

theorem Upgraded.refl (l : List CanonicalRecord) : Upgraded l l :=
  fun _ r hr => ⟨r, hr, rfl, le_rfl⟩

theorem Upgraded.trans {l l' l'' : List CanonicalRecord} (h : Upgraded l l')
    (h' : Upgraded l' l'') : Upgraded l l'' := by
  intro i r hr
  obtain ⟨q, hq, hkey, hrank⟩ := h i r hr
  obtain ⟨p, hp, hkey', hrank'⟩ := h' i q hq
  exact ⟨p, hp, hkey'.trans hkey, hrank.trans hrank'⟩

theorem upgraded_set {l : List CanonicalRecord} {i : ℕ} {old r : CanonicalRecord}
    (hold : l[i]? = some old) (hreplace : r.shouldReplace old = true) :
    Upgraded l (l.set i r) := by
  intro j q hq
  by_cases hij : i = j
  · subst hij
    obtain rfl : old = q := Option.some.inj (hold.symm.trans hq)
    have hlt := (List.getElem?_eq_some_iff.mp hold).1
    exact ⟨r, List.getElem?_set_self hlt, eventKey_of_shouldReplace hreplace,
      rank_of_shouldReplace hreplace⟩
  · exact ⟨q, by rw [List.getElem?_set_ne hij]; exact hq, rfl, le_rfl⟩

/-- A block with some copies upgraded; as long as it is clean it is as it was. -/
structure RetainedBlock.UpgradedTo (block block' : RetainedBlock) : Prop where
  id : block'.id = block.id
  records : Upgraded block.records block'.records
  clean : block'.dirty = false → block' = block

/-- Block by block. -/
structure BlocksUpgraded (old new : List RetainedBlock) : Prop where
  ids : new.map (·.id) = old.map (·.id)
  upgraded : ∀ (b : ℕ) (block : RetainedBlock), old[b]? = some block →
    ∃ block' : RetainedBlock, new[b]? = some block' ∧ block.UpgradedTo block'

theorem BlocksUpgraded.refl (l : List RetainedBlock) : BlocksUpgraded l l :=
  ⟨rfl, fun _ block h => ⟨block, h, rfl, .refl _, fun _ => rfl⟩⟩

theorem BlocksUpgraded.trans {l l' l'' : List RetainedBlock} (h : BlocksUpgraded l l')
    (h' : BlocksUpgraded l' l'') : BlocksUpgraded l l'' := by
  refine ⟨h'.ids.trans h.ids, fun b block hb => ?_⟩
  obtain ⟨block₁, hb₁, hid, hrecords, hclean⟩ := h.upgraded b block hb
  obtain ⟨block₂, hb₂, hid', hrecords', hclean'⟩ := h'.upgraded b block₁ hb₁
  refine ⟨block₂, hb₂, hid'.trans hid, hrecords.trans hrecords', fun hdirty => ?_⟩
  have heq := hclean' hdirty
  subst heq
  exact hclean hdirty

/-- Every upgraded block has its old one. -/
theorem BlocksUpgraded.exists_old {old new : List RetainedBlock} (h : BlocksUpgraded old new)
    {block' : RetainedBlock} (hmem : block' ∈ new) : ∃ block ∈ old, block.UpgradedTo block' := by
  obtain ⟨b, hb'⟩ := List.getElem?_of_mem hmem
  have hlength : new.length = old.length := by simpa using congrArg List.length h.ids
  have hlt : b < old.length := hlength ▸ (List.getElem?_eq_some_iff.mp hb').1
  obtain ⟨block₁, hb₁, hup⟩ := h.upgraded b old[b] (List.getElem?_eq_getElem hlt)
  obtain rfl : block' = block₁ := Option.some.inj (hb'.symm.trans hb₁)
  exact ⟨old[b], List.getElem_mem hlt, hup⟩

/-- The index points at records with the right keys. -/
def Points (index : RetainedIndex) (blocks : List RetainedBlock) : Prop :=
  ∀ k b i, index k = some (b, i) → ∃ block r, blocks[b]? = some block ∧
    block.records[i]? = some r ∧ r.eventKey = k

theorem Points.upgraded {index : RetainedIndex} {blocks blocks' : List RetainedBlock}
    (h : Points index blocks) (hup : BlocksUpgraded blocks blocks') : Points index blocks' := by
  intro k b i hk
  obtain ⟨block, r, hb, hr, hkey⟩ := h k b i hk
  obtain ⟨block', hb', hblock⟩ := hup.upgraded b block hb
  obtain ⟨q, hq, hqkey, -⟩ := hblock.records i r hr
  exact ⟨block', q, hb', hq, hqkey.trans hkey⟩

/-- The loop has a copy with key `k`, of fidelity `f` or better, where a record with
this key belongs. -/
def Covered (index : RetainedIndex) (m : MergeState) (k : EventKey) (f : ℕ) : Prop :=
  (∃ b i block q, index k = some (b, i) ∧ m.retained[b]? = some block ∧
    block.records[i]? = some q ∧ q.eventKey = k ∧ f ≤ q.fidelity.rank) ∨
  (index k = none ∧ ∃ q ∈ m.newRecords.items, q.eventKey = k ∧ f ≤ q.fidelity.rank)

variable {index : RetainedIndex} {m : MergeState}

/-- **One round upgrades** the retained blocks. -/
theorem upgraded_absorb (index : RetainedIndex) (m : MergeState) (record : CanonicalRecord) :
    BlocksUpgraded m.retained (absorb index m record).retained := by
  unfold absorb
  split
  -- the event is sealed already, at position `i` of block `b`
  · rename_i b i _
    split
    · exact .refl _
    · rename_i old hold
      split
      -- its copy is replaced by a better one, and the block is dirty
      · rename_i hreplace
        have hids : (m.retained.modify b fun block =>
            { block with records := block.records.set i record, dirty := true }).map (·.id) =
              m.retained.map (·.id) := by
          apply List.ext_getElem?
          intro n
          rw [List.getElem?_map, List.getElem?_map, List.getElem?_modify]
          cases m.retained[n]? with
          | none => rfl
          | some block => by_cases hbn : b = n <;> simp [hbn]
        refine ⟨hids, fun b' block hb' => ?_⟩
        rw [List.getElem?_modify, hb']
        by_cases hbb : b = b'
        · subst hbb
          rw [hb', Option.bind_some] at hold
          refine ⟨{ block with records := block.records.set i record, dirty := true }, ?_, ?_⟩
          · simp
          · exact ⟨rfl, upgraded_set hold hreplace, nofun⟩
        · exact ⟨block, by simp [hbb], rfl, .refl _, fun _ => rfl⟩
      · exact .refl _
  · exact .refl _

/-- A collected record is replaced by better copies only. -/
theorem covered_newRecords (m : MergeState) (record : CanonicalRecord) {r : CanonicalRecord}
    (hr : r ∈ m.newRecords.items ∨ r = record) :
    ∃ q ∈ (m.newRecords.upsert shouldReplace record).items, q.eventKey = r.eventKey ∧
      r.fidelity.rank ≤ q.fidelity.rank := by
  have hcovered := @IndexedList.covered_upsert _ _ eventKey _ shouldReplace
    (fun r q => r.fidelity.rank ≤ q.fidelity.rank) (fun _ => le_rfl)
    (fun _ _ _ h => rank_of_shouldReplace h) (fun _ _ hkey h => rank_of_not_shouldReplace hkey h)
  exact hcovered hr

/-- **One round covers** its record, and what was covered. -/
theorem covered_absorb (hpoints : Points index m.retained) (record : CanonicalRecord)
    {k : EventKey} {f : ℕ}
    (h : Covered index m k f ∨ (k = record.eventKey ∧ f = record.fidelity.rank)) :
    Covered index (absorb index m record) k f := by
  rcases h with (⟨b, i, block, q, hk, hb, hq, hqkey, hrank⟩ | ⟨hk, q, hq, hqkey, hrank⟩) | ⟨rfl, rfl⟩
  · -- an upgraded copy covers what the old one did
    obtain ⟨block', hb', hup⟩ := (upgraded_absorb index m record).upgraded b block hb
    obtain ⟨q', hq', hkey', hrank'⟩ := hup.records i q hq
    exact .inl ⟨b, i, block', q', hk, hb', hq', hkey'.trans hqkey, hrank.trans hrank'⟩
  · refine .inr ⟨hk, ?_⟩
    unfold absorb
    split
    · split
      · exact ⟨q, hq, hqkey, hrank⟩
      · split <;> exact ⟨q, hq, hqkey, hrank⟩
    · obtain ⟨q', hq', hkey', hrank'⟩ := covered_newRecords m record (.inl hq)
      exact ⟨q', hq', hkey'.trans hqkey, hrank.trans hrank'⟩
  · rcases hk : index record.eventKey with - | ⟨b, i⟩
    · obtain ⟨q, hq, hkey, hrank⟩ := covered_newRecords m record (.inr rfl)
      refine .inr ⟨hk, q, ?_, hkey, hrank⟩
      rw [absorb, hk]
      exact hq
    · obtain ⟨block, old, hb, hold, hkey⟩ := hpoints record.eventKey b i hk
      have hold' : m.retained[b]?.bind (·.records[i]?) = some old := by
        rw [hb]
        exact hold
      cases hreplace : record.shouldReplace old with
      | true =>
        have habsorb : (absorb index m record).retained = m.retained.modify b fun block =>
            { block with records := block.records.set i record, dirty := true } := by
          simp [absorb, hk, hold', hreplace]
        have hlt := (List.getElem?_eq_some_iff.mp hold).1
        refine .inl ⟨b, i, { block with records := block.records.set i record, dirty := true },
          record, hk, ?_, List.getElem?_set_self hlt, rfl, le_rfl⟩
        rw [habsorb, List.getElem?_modify_eq, hb]
        rfl
      | false =>
        have habsorb : absorb index m record = m := by simp [absorb, hk, hold', hreplace]
        rw [habsorb]
        exact .inl ⟨b, i, block, old, hk, hb, hold, hkey,
          rank_of_not_shouldReplace hkey.symm hreplace⟩

/-- **The merge loop** upgrades what it loaded and covers every record it saw. -/
theorem absorb_foldl (hpoints : Points index m.retained) (records : List CanonicalRecord) :
    BlocksUpgraded m.retained (records.foldl (absorb index) m).retained ∧
      ∀ k f, (Covered index m k f ∨ ∃ r ∈ records, k = r.eventKey ∧ f = r.fidelity.rank) →
        Covered index (records.foldl (absorb index) m) k f := by
  induction records generalizing m with
  | nil => exact ⟨.refl _, fun k f h => h.elim id fun ⟨r, hr, _⟩ => absurd hr List.not_mem_nil⟩
  | cons record records ih =>
    have hup := upgraded_absorb index m record
    obtain ⟨hupgraded, hcovered⟩ := ih (hpoints.upgraded hup)
    refine ⟨hup.trans hupgraded, fun k f h => hcovered k f ?_⟩
    rcases h with h | ⟨r, hr, hk⟩
    · exact .inl (covered_absorb hpoints record (.inl h))
    · rcases List.mem_cons.mp hr with rfl | hr
      · exact .inl (covered_absorb hpoints r (.inr hk))
      · exact .inr ⟨r, hr, hk⟩

/-! ### Loading and writing back -/

/-- An entry of the index is an old one or points into the new block. -/
theorem indexRecords_eq_some {blockIndex : ℕ} {records : List CanonicalRecord}
    {retained : RetainedIndex} {k : EventKey} {b i : ℕ}
    (h : indexRecords blockIndex records retained k = some (b, i)) :
    retained k = some (b, i) ∨
      (b = blockIndex ∧ ∃ r : CanonicalRecord, records[i]? = some r ∧ r.eventKey = k) := by
  -- from any position of the block on
  have hloop : ∀ (records : List CanonicalRecord) (n : ℕ) (retained : RetainedIndex),
      (records.zipIdx n).foldl (indexRecord blockIndex) retained k = some (b, i) →
      retained k = some (b, i) ∨
        (b = blockIndex ∧ ∃ j, i = n + j ∧ ∃ r : CanonicalRecord,
          records[j]? = some r ∧ r.eventKey = k) := by
    intro records
    induction records with
    | nil => exact fun n retained h => .inl h
    | cons r records ih =>
      intro n retained h
      rw [List.zipIdx_cons, List.foldl_cons] at h
      rcases ih (n + 1) _ h with hold | ⟨hb, j, hi, q, hq, hk⟩
      · rw [indexRecord] at hold
        dsimp only at hold
        rcases eq_or_ne k r.eventKey with rfl | hk
        · simp only [Function.update_self, Option.some.injEq, Prod.mk.injEq] at hold
          exact .inr ⟨hold.1.symm, 0, hold.2.symm, r, rfl, rfl⟩
        · rw [Function.update_of_ne hk] at hold
          exact .inl hold
      · exact .inr ⟨hb, j + 1, by omega, q, hq, hk⟩
  rw [indexRecords_eq_foldl] at h
  rcases hloop records 0 retained h with hold | ⟨hb, j, hi, hr⟩
  · exact .inl hold
  · rw [Nat.zero_add] at hi
    exact .inr ⟨hb, hi ▸ hr⟩

namespace Db

variable {β : Type} {codec : Codec β} {store : SqliteBlockStore} {db db' : Db β}
  {channelKey : String}

/-- A block as `loadRetained` decodes it. -/
def loaded (codec : Codec β) (row : MessageBlock β) : RetainedBlock :=
  ⟨row.id, row.records codec, false⟩

/-- **Loading** decodes the blocks one by one, and the index points at their records. -/
theorem loadRetained_points {rows : List (MessageBlock β)} {blocks : List RetainedBlock}
    {index : RetainedIndex} (h : loadRetained codec rows = .ok (blocks, index)) :
    blocks = rows.map (loaded codec) ∧ Points index blocks := by
  have hnone : Points (fun _ => none) [] := nofun
  refine Except.foldlM_done
    (fun (done : List (MessageBlock β)) (s : List RetainedBlock × RetainedIndex) =>
      s.1 = done.map (loaded codec) ∧ Points s.2 s.1) ?_ ⟨rfl, hnone⟩ h
  rintro done ⟨blocks, index⟩ s' row - ⟨hblocks, hpoints⟩ hstep
  obtain ⟨decoded, hdecode, hstep⟩ := Except.bind_eq_ok.mp hstep
  cases hstep
  have hrecords : row.records codec = decoded :=
    MessageBlock.records_of_decode (Except.mapError_eq_ok.mp hdecode)
  refine ⟨?_, fun k b i hk => ?_⟩
  · show blocks ++ [⟨row.id, decoded, false⟩] = (done ++ [row]).map (loaded codec)
    rw [List.map_append, List.map_singleton, loaded, hrecords]
    exact congrArg (· ++ [⟨row.id, decoded, false⟩]) hblocks
  · rcases indexRecords_eq_some hk with hk | ⟨rfl, r, hr, hkey⟩
    · obtain ⟨block, r, hb, hr, hkey⟩ := hpoints k b i hk
      have hlt := (List.getElem?_eq_some_iff.mp hb).1
      exact ⟨block, r, by rw [List.getElem?_append_left hlt]; exact hb, hr, hkey⟩
    · exact ⟨⟨row.id, decoded, false⟩, r, by simp, hr, hkey⟩

/-- Readable blocks load. -/
theorem loadRetained_of_readable {rows : List (MessageBlock β)}
    (h : ∀ row ∈ rows, row.Readable codec) :
    ∃ blocks index, loadRetained codec rows = .ok (blocks, index) := by
  have hload : ∃ result, loadRetained codec rows = .ok result ∧ True := by
    refine Except.exists_foldlM (fun _ => True) ?_ trivial
    intro state row hrow _
    rw [h row hrow]
    exact ⟨_, rfl, trivial⟩
  obtain ⟨⟨blocks, index⟩, hload, -⟩ := hload
  exact ⟨blocks, index, hload⟩

/-- **Every block is written back** as the merge loop left it, and no other row
changes. -/
theorem rewriteDirty_rows {incoming : List CanonicalRecord} {blocks : List RetainedBlock}
    (hnodup : (blocks.map (·.id)).Nodup)
    (hup : ∀ block ∈ blocks, ∃ row ∈ db.messageBlocks.rows, block.Upgrades codec incoming row ∧
      (block.dirty = false → block.records = row.records codec))
    (hdb : db.Readable codec) (h : db.rewriteDirty codec store blocks = .ok db') :
    (∀ block ∈ blocks, ∃ row ∈ db'.messageBlocks.rows, row.records codec = block.records) ∧
      ∀ row ∈ db.messageBlocks.rows, (∀ block ∈ blocks, block.id ≠ row.id) →
        row ∈ db'.messageBlocks.rows := by
  unfold rewriteDirty at h
  induction blocks generalizing db with
  | nil =>
    cases h
    exact ⟨nofun, fun row hrow _ => hrow⟩
  | cons block blocks ih =>
    obtain ⟨hfresh, hnodup⟩ := List.nodup_cons.mp hnodup
    have hother : ∀ q ∈ blocks, q.id ≠ block.id := fun q hq heq =>
      hfresh (List.mem_map.mpr ⟨q, hq, heq⟩)
    obtain ⟨row, hrow, hblock, hclean⟩ := hup block List.mem_cons_self
    have hrest := fun q hq => hup q (List.mem_cons_of_mem block hq)
    rw [List.foldlM_cons, Except.bind_eq_ok] at h
    obtain ⟨db₁, hstep, h⟩ := h
    split at hstep
    · obtain ⟨encoded, hencode, hstep⟩ := Except.bind_eq_ok.mp hstep
      cases hstep
      have hencode := Except.mapError_eq_ok.mp hencode
      have hlookup : db.messageBlocks.lookup block.id = some row :=
        KeyTable.lookup_eq_some.mpr ⟨hrow, hblock.id.symm⟩
      have hrecords := MessageBlock.records_of_decode
        (decode_rewrite hencode (hdb row hrow) hblock.events)
      obtain ⟨hread₁, -, -⟩ := contents_updateBlock hencode hlookup hblock.events hdb
      have hrows := rows_updateBlock codec encoded hlookup
      -- only the row of `block` changes
      have hkept : ∀ q ∈ db.messageBlocks.rows, q.id ≠ block.id →
          q ∈ (db.updateBlock codec block.id encoded).messageBlocks.rows := by
        intro q hq hne
        rw [hrows]
        exact List.mem_map.mpr ⟨q, hq, if_neg hne⟩
      have hwritten : MessageBlock.rewrite encoded row ∈
          (db.updateBlock codec block.id encoded).messageBlocks.rows := by
        rw [hrows]
        exact List.mem_map.mpr ⟨row, hrow, if_pos hblock.id.symm⟩
      obtain ⟨hblocks, hrows'⟩ := ih hnodup (fun q hq =>
        let ⟨row, hrow, hblock, hclean⟩ := hrest q hq
        ⟨row, hkept row hrow (hblock.id ▸ hother q hq), hblock, hclean⟩) hread₁ h
      refine ⟨fun q hq => ?_, fun q hq hne => hrows' q (hkept q hq ?_) ?_⟩
      · rcases List.mem_cons.mp hq with rfl | hq
        · exact ⟨_, hrows' _ hwritten fun q hq => by
            rw [MessageBlock.id_rewrite, ← hblock.id]
            exact hother q hq, hrecords⟩
        · exact hblocks q hq
      · exact (hne block List.mem_cons_self).symm
      · exact fun p hp => hne p (List.mem_cons_of_mem block hp)
    · rename_i hdirty
      cases hstep
      obtain ⟨hblocks, hrows'⟩ := ih hnodup hrest hdb h
      refine ⟨fun q hq => ?_, fun q hq hne =>
        hrows' q hq fun p hp => hne p (List.mem_cons_of_mem block hp)⟩
      rcases List.mem_cons.mp hq with rfl | hq
      · refine ⟨row, hrows' row hrow fun p hp => ?_, (hclean (Bool.not_eq_true _ ▸ hdirty)).symm⟩
        rw [← hblock.id]
        exact hother p hp
      · exact hblocks q hq

/-! ### The store covers what it was given -/

/-- The policy of its channel lets the record through. -/
def Admits (db : Db β) (r : CanonicalRecord) : Prop :=
  db.blocked r.channelKey = false ∧
    ∀ cutoff, db.purgeCutoff r.channelKey = some cutoff → cutoff < r.receivedAtMs

/-- A copy that is at least as good is sealed, or went with an evicted block. -/
def Covers (codec : Codec β) (db : Db β) (r : CanonicalRecord) : Prop :=
  ∃ q, r.CoveredBy q ∧
    (q ∈ db.sealedRecords codec ∨ ∃ row ∈ db.evicted, q ∈ row.records codec)

theorem nodup_overlapping (db : Db β) (channelKey : String) (first last : ℤ) :
    ((db.overlapping channelKey first last).map (·.id)).Nodup := by
  have hsub : (db.overlapping channelKey first last).Sublist (db.blocksOf channelKey) :=
    List.filter_sublist
  have hrows : ((db.messageBlocks.rows.filter fun row => row.channelKey = channelKey).map
      (·.id)).Nodup :=
    db.messageBlocks.nodup.sublist (List.filter_sublist.map _)
  exact List.Nodup.sublist (hsub.map (·.id)) (((sortByKey_perm _).map _).nodup_iff.mpr hrows)

/-- A block of the merge loop upgrades its row, and as long as it is clean it has the
records of the row. -/
theorem retained_row {records : List CanonicalRecord} {first last : ℤ}
    {merged : MergeState}
    (hmerged : Merged codec (db.overlapping channelKey first last) records index merged)
    (hupgraded : BlocksUpgraded ((db.overlapping channelKey first last).map (loaded codec))
      merged.retained) {block : RetainedBlock} (hblock : block ∈ merged.retained) :
    ∃ row ∈ db.messageBlocks.rows, block.Upgrades codec records row ∧
      (block.dirty = false → block.records = row.records codec) := by
  obtain ⟨row, hrow, hup⟩ := hmerged.upgraded block hblock
  obtain ⟨old, hold, hoid, -, hdirty⟩ := hupgraded.exists_old hblock
  obtain ⟨row', hrow', rfl⟩ := List.mem_map.mp hold
  obtain rfl : row' = row := db.messageBlocks.eq_of_key (mem_overlapping hrow').1
    (mem_overlapping hrow).1 (hoid.symm.trans hup.id)
  exact ⟨row', (mem_overlapping hrow).1, hup, fun h => by rw [hdirty h]; rfl⟩

/-- The records of the merge loop's blocks are of the channel. -/
theorem retained_channel {records : List CanonicalRecord} {first last : ℤ}
    {merged : MergeState}
    (hmerged : Merged codec (db.overlapping channelKey first last) records index merged)
    (hchannel : ∀ r ∈ records, r.channelKey = channelKey) (hdb : db.Readable codec)
    {block : RetainedBlock} (hblock : block ∈ merged.retained) {q : CanonicalRecord}
    (hq : q ∈ block.records) : q.channelKey = channelKey := by
  obtain ⟨row, hrow, hup⟩ := hmerged.upgraded block hblock
  rcases hup.source q hq with hq | hq
  · obtain ⟨hrow, hc⟩ := mem_overlapping hrow
    exact ((hdb row hrow).channel hq).trans hc
  · exact hchannel q hq

/-- **The upgraded blocks and the new records** cover what was sealed and what came. -/
theorem exists_coveredBy_of_run {records : List CanonicalRecord} {first last : ℤ}
    {blocks : List RetainedBlock} {index : RetainedIndex} {merged : MergeState}
    (hchannel : ∀ r ∈ records, r.channelKey = channelKey) (hdb : db.Readable codec)
    (hload : loadRetained codec (db.overlapping channelKey first last) = .ok (blocks, index))
    (hfold : merged =
      (sortByKey eventOrder records).foldl (absorb index) ⟨blocks, IndexedList.empty⟩)
    (hrewrite : db.rewriteDirty codec store merged.retained = .ok db') {r : CanonicalRecord}
    (hr : r ∈ db.sealedRecords codec ∨ r ∈ records) :
    ∃ q, r.CoveredBy q ∧ (q ∈ db'.sealedRecords codec ∨ q ∈ merged.newRecords.items) := by
  obtain ⟨hblocks, hpoints⟩ := loadRetained_points hload
  have hmerged := merged_of_load hchannel hdb hload
  obtain ⟨hupgraded, hcovered⟩ :=
    absorb_foldl (m := ⟨blocks, IndexedList.empty⟩) hpoints (sortByKey eventOrder records)
  rw [← hfold] at hmerged hupgraded hcovered
  subst hblocks
  have hnodup : (merged.retained.map (·.id)).Nodup := by
    rw [hupgraded.ids, List.map_map]
    exact nodup_overlapping db channelKey first last
  obtain ⟨hwritten, hothers⟩ := rewriteDirty_rows hnodup
    (fun block hblock => retained_row hmerged hupgraded hblock) hdb hrewrite
  have hin : ∀ block ∈ merged.retained, ∀ q ∈ block.records,
      q ∈ db'.sealedRecords codec ∧ q.channelKey = channelKey := by
    intro block hblock q hq
    obtain ⟨row, hrow, hrecords⟩ := hwritten block hblock
    exact ⟨mem_sealedRecords.mpr ⟨row, hrow, hrecords ▸ hq⟩,
      retained_channel hmerged hchannel hdb hblock hq⟩
  rcases hr with hr | hr
  · obtain ⟨row, hrow, hrrow⟩ := mem_sealedRecords.mp hr
    by_cases hover : row ∈ db.overlapping channelKey first last
    · obtain ⟨b, hb⟩ := List.getElem?_of_mem hover
      obtain ⟨i, hi⟩ := List.getElem?_of_mem hrrow
      have hloaded : ((db.overlapping channelKey first last).map (loaded codec))[b]? =
          some (loaded codec row) := by
        rw [List.getElem?_map, hb]
        rfl
      obtain ⟨block, hblock, hup⟩ := hupgraded.upgraded b _ hloaded
      obtain ⟨q, hq, hkey, hrank⟩ := hup.records i r hi
      obtain ⟨hsealed, hqc⟩ := hin block (List.mem_of_getElem? hblock) q (List.mem_of_getElem? hq)
      refine ⟨q, ⟨event_eq_iff.mpr ⟨?_, hkey⟩, hrank⟩, .inl hsealed⟩
      rw [hqc, (hdb row hrow).channel hrrow, (mem_overlapping hover).2]
    · -- a block that does not overlap stays as it is
      refine ⟨r, .refl r, .inl (mem_sealedRecords.mpr ⟨row, hothers row hrow ?_, hrrow⟩)⟩
      intro block hblock heq
      obtain ⟨row', hrow', hup⟩ := hmerged.upgraded block hblock
      have hrow_eq : row' = row := db.messageBlocks.eq_of_key (mem_overlapping hrow').1 hrow
        (hup.id.symm.trans heq)
      exact hover (hrow_eq ▸ hrow')
  · rcases hcovered r.eventKey r.fidelity.rank (.inr ⟨r, mem_sortByKey.mpr hr, rfl, rfl⟩) with
      ⟨b, i, block, q, -, hblock, hq, hkey, hrank⟩ | ⟨-, q, hq, hkey, hrank⟩
    · obtain ⟨hsealed, hqc⟩ := hin block (List.mem_of_getElem? hblock) q (List.mem_of_getElem? hq)
      exact ⟨q, ⟨event_eq_iff.mpr ⟨hqc.trans (hchannel r hr).symm, hkey⟩, hrank⟩, .inl hsealed⟩
    · have hqc : q.channelKey = channelKey := hchannel q (hmerged.fresh q hq).1
      exact ⟨q, ⟨event_eq_iff.mpr ⟨hqc.trans (hchannel r hr).symm, hkey⟩, hrank⟩, .inr hq⟩

/-- **An append of admitted records** covers them, and keeps what was covered. -/
theorem appendAdmitted_covers {records : List CanonicalRecord} {first last : ℤ}
    (hchannel : ∀ r ∈ records, r.channelKey = channelKey) (hdb : db.Readable codec)
    (h : db.appendAdmitted codec store channelKey records first last = .ok db')
    {r : CanonicalRecord} (hr : r ∈ db.sealedRecords codec ∨ r ∈ records) :
    db'.Covers codec r := by
  obtain ⟨blocks, index, merged, db₁, hload, hfold, hrewrite, hend⟩ := appendAdmitted_run h
  obtain ⟨q, hcovered, hq⟩ := exists_coveredBy_of_run hchannel hdb hload hfold hrewrite hr
  have hmerged := merged_of_load hchannel hdb hload
  rw [← hfold] at hmerged
  obtain ⟨hread₁, -, -, -, -, -⟩ := rewriteDirty_eq_ok
    (fun block hblock =>
      let ⟨row, hrow, hup⟩ := hmerged.upgraded block hblock
      ⟨row, (mem_overlapping hrow).1, hup⟩) hdb hrewrite
  rcases hend with ⟨hempty, rfl⟩ | ⟨row₀, db₂, next, retained₂, -, -, hinsert, rfl⟩
  · rw [hempty] at hq
    exact ⟨q, hcovered, .inl (hq.resolve_right List.not_mem_nil)⟩
  · have hfresh : ∀ r ∈ merged.newRecords.items, r.channelKey = channelKey :=
      fun r hr => hchannel r (hmerged.fresh r hr).1
    obtain ⟨-, hsealed₂, -, -⟩ := insertChunks_eq_ok hfresh hread₁ hinsert
    obtain ⟨gone, hgone, -, hrest, -, -⟩ := evictOldest_contents codec store
      channelKey db₂.messageBlocks.rows.length db₂ retained₂
    have hq₂ : q ∈ db₂.sealedRecords codec := by
      rw [hsealed₂]
      exact List.mem_append.mpr hq
    obtain ⟨row, hrow, hqrow⟩ := mem_sealedRecords.mp hq₂
    -- the block that holds the copy stays, or goes as an evicted one
    refine ⟨q, hcovered, (hrest row hrow).symm.imp (fun hrow => ?_) fun hrow => ⟨row, ?_, hqrow⟩⟩
    · exact mem_sealedRecords.mpr ⟨row, hrow, hqrow⟩
    · show row ∈ (evictOldest codec store channelKey db₂.messageBlocks.rows.length db₂
        retained₂).1.evicted
      rw [hgone]
      exact List.mem_append_right _ hrow

theorem appendBatch_covers {records : List CanonicalRecord} (hdb : db.Readable codec)
    (h : db.appendBatch codec store records = .ok db') {r : CanonicalRecord}
    (hr : db.Covers codec r ∨ (r ∈ records ∧ db.Admits r)) : db'.Covers codec r := by
  rcases appendBatch_cases h with
    ⟨rfl, hrejected⟩ | ⟨c, first, last, hchannel, -, -, -, happend⟩
  · refine hr.elim id fun ⟨hr, hblocked, hcutoff⟩ => ?_
    obtain ⟨cutoff, hc, hle⟩ := hrejected r hr hblocked
    exact absurd (hcutoff cutoff hc) (not_lt.mpr hle)
  · have hcovers : ∀ q, q ∈ db.sealedRecords codec ∨ q ∈ db.admitted c records →
        db'.Covers codec q := by
      intro q hq
      have hread : (db.insertChannel c).Readable codec := hdb
      exact appendAdmitted_covers (fun r hr => hchannel r (mem_admitted.mp hr).1) hread happend hq
    obtain ⟨gone, happ⟩ := appendBatch_eq_ok hdb h
    rcases hr with ⟨q, hcovered, hq | ⟨row, hrow, hq⟩⟩ | ⟨hr, -, hcutoff⟩
    · obtain ⟨q', hcovered', hq'⟩ := hcovers q (.inl hq)
      exact ⟨q', hcovered.trans hcovered', hq'⟩
    · refine ⟨q, hcovered, .inr ⟨row, ?_, hq⟩⟩
      rw [happ.evicted]
      exact List.mem_append_left _ hrow
    · refine hcovers r (.inr (mem_admitted.mpr ⟨hr, fun cutoff hc => hcutoff cutoff ?_⟩))
      rw [hchannel r hr]
      exact hc

/-- **A committed call covers** the records it was given, and keeps what was covered. -/
theorem appendChannelBatches_covers {batches : List (List CanonicalRecord)}
    (hdb : db.Readable codec) (h : db.appendChannelBatches codec store batches = .ok db')
    {r : CanonicalRecord} (hr : db.Covers codec r ∨ (r ∈ batches.flatten ∧ db.Admits r)) :
    db'.Covers codec r := by
  unfold appendChannelBatches at h
  induction batches generalizing db with
  | nil =>
    cases h
    exact hr.elim id fun hr => absurd hr.1 List.not_mem_nil
  | cons records batches ih =>
    rw [List.foldlM_cons, Except.bind_eq_ok] at h
    obtain ⟨db₁, hstep, h⟩ := h
    obtain ⟨gone, happ⟩ := appendBatch_eq_ok hdb hstep
    refine ih happ.readable h ?_
    rcases hr with hr | ⟨hr, hadmits⟩
    · exact .inl (appendBatch_covers hdb hstep (.inl hr))
    · rcases List.mem_append.mp hr with hr | hr
      · exact .inl (appendBatch_covers hdb hstep (.inr ⟨hr, hadmits⟩))
      · refine .inr ⟨hr, ?_⟩
        rw [Admits, blocked_congr happ.policy, purgeCutoff_congr happ.policy]
        exact hadmits

/-! ### Appending again -/

/-- The copies of an event that were sealed are at least as good, and agree on its time. -/
def Known (codec : Codec β) (db : Db β) (r : CanonicalRecord) : Prop :=
  ∃ q ∈ db.sealedRecords codec, r.CoveredBy q ∧ q.eventAtMs = r.eventAtMs

theorem rewriteDirty_of_clean {blocks : List RetainedBlock}
    (h : ∀ block ∈ blocks, block.dirty = false) :
    db.rewriteDirty codec store blocks = .ok db := by
  unfold rewriteDirty
  induction blocks with
  | nil => rfl
  | cons block blocks ih =>
    rw [List.foldlM_cons, h block List.mem_cons_self]
    exact ih fun q hq => h q (List.mem_cons_of_mem block hq)

/-- **Records that are known change nothing.** -/
theorem appendAdmitted_replay {records : List CanonicalRecord} {first last : ℤ}
    (hchannel : ∀ r ∈ records, r.channelKey = channelKey) (hdb : db.Readable codec)
    (hnodup : ((db.sealedRecords codec).map event).Nodup)
    (hmin : minEventAtMs records = some first) (hmax : maxEventAtMs records = some last)
    (hknown : ∀ r ∈ records, db.Known codec r) :
    db.appendAdmitted codec store channelKey records first last = .ok db := by
  have hreadable : ∀ row ∈ db.overlapping channelKey first last, row.Readable codec :=
    fun row hrow => hdb row (mem_overlapping hrow).1
  obtain ⟨blocks, index, hload⟩ := loadRetained_of_readable hreadable
  obtain ⟨hblocks, hpoints⟩ := loadRetained_points hload
  obtain ⟨-, hindex⟩ := loadRetained_eq_ok hload
  -- each record meets a copy that is at least as good
  have habsorb : ∀ r ∈ records, absorb index ⟨blocks, IndexedList.empty⟩ r =
      ⟨blocks, IndexedList.empty⟩ := by
    intro r hr
    obtain ⟨q, hq, ⟨hevent, hrank⟩, htime⟩ := hknown r hr
    have hne := index_ne_none_of_sealed hindex rfl hmin hmax hdb hq hr (hchannel r hr) hevent htime
    obtain ⟨⟨b, i⟩, hbi⟩ := Option.ne_none_iff_exists'.mp hne
    obtain ⟨block, old, hb, hold, hkey⟩ := hpoints r.eventKey b i hbi
    have hsame : old = q := by
      have hb' := hb
      rw [hblocks, List.getElem?_map, Option.map_eq_some_iff] at hb'
      obtain ⟨row, hrow, rfl⟩ := hb'
      obtain ⟨hmem, hc⟩ := mem_overlapping (List.mem_of_getElem? hrow)
      have holdmem : old ∈ row.records codec := List.mem_of_getElem? hold
      refine List.inj_on_of_nodup_map hnodup (mem_sealedRecords.mpr ⟨row, hmem, holdmem⟩) hq ?_
      rw [hevent]
      refine event_eq_iff.mpr ⟨?_, hkey⟩
      rw [(hdb row hmem).channel holdmem, hc, hchannel r hr]
    have hworse : r.shouldReplace old = false := by
      subst hsame
      simp [shouldReplace, hrank]
    have hfound : blocks[b]?.bind (·.records[i]?) = some old := by
      rw [hb]
      exact hold
    simp [absorb, hbi, hfound, hworse]
  have hfold : (sortByKey eventOrder records).foldl (absorb index) ⟨blocks, IndexedList.empty⟩ =
      ⟨blocks, IndexedList.empty⟩ := by
    have hsorted : ∀ r ∈ sortByKey eventOrder records,
        absorb index ⟨blocks, IndexedList.empty⟩ r = ⟨blocks, IndexedList.empty⟩ :=
      fun r hr => habsorb r (mem_sortByKey.mp hr)
    generalize sortByKey eventOrder records = sorted at hsorted ⊢
    induction sorted with
    | nil => rfl
    | cons r rs ih =>
      rw [List.foldl_cons, hsorted r List.mem_cons_self]
      exact ih fun q hq => hsorted q (List.mem_cons_of_mem r hq)
  -- so no block is written back
  have hclean : db.rewriteDirty codec store blocks = .ok db := by
    refine rewriteDirty_of_clean fun block hblock => ?_
    rw [hblocks, List.mem_map] at hblock
    obtain ⟨row, -, rfl⟩ := hblock
    rfl
  rw [appendAdmitted, hload]
  show (do
    let db₁ ← db.rewriteDirty codec store ((sortByKey eventOrder records).foldl (absorb index)
      ⟨blocks, IndexedList.empty⟩).retained
    _ : Except StoreError (Db β)) = _
  rw [hfold, hclean]
  rfl

/-- A channel with a block has a row. -/
theorem insertChannel_of_sealed (hacc : db.Accounted codec) (hdb : db.Readable codec)
    {r : CanonicalRecord} (hr : r ∈ db.sealedRecords codec) :
    db.insertChannel r.channelKey = db := by
  obtain ⟨block, hblock, hr⟩ := mem_sealedRecords.mp hr
  obtain ⟨row, hrow, hkey, -⟩ := hacc.tracked block hblock
  have hlookup : db.channels.lookup r.channelKey = some row :=
    KeyTable.lookup_eq_some.mpr ⟨hrow, hkey.trans ((hdb block hblock).channel hr).symm⟩
  rw [insertChannel, KeyTable.insertIgnore_of_some hlookup]

theorem appendBatch_replay {records : List CanonicalRecord} (hacc : db.Accounted codec)
    (hdb : db.Readable codec) (hnodup : ((db.sealedRecords codec).map event).Nodup)
    (hchannel : ∀ r ∈ records, ∀ q ∈ records, r.channelKey = q.channelKey)
    (hknown : ∀ r ∈ records, db.Known codec r) :
    db.appendBatch codec store records = .ok db := by
  cases records with
  | nil => rfl
  | cons first rest =>
    have hsingle : ((first :: rest).any fun r => r.channelKey ≠ first.channelKey) = false :=
      CanonicalRecord.mixed_eq_false.mpr fun r hr => hchannel r hr first List.mem_cons_self
    rw [appendBatch, hsingle, if_neg Bool.false_ne_true, appendTransaction]
    split
    · rfl
    dsimp only
    split
    · rename_i first' last hmin hmax
      obtain ⟨q, hq, ⟨hevent, -⟩, -⟩ := hknown first List.mem_cons_self
      have hrow := insertChannel_of_sealed hacc hdb hq
      rw [(event_eq_iff.mp hevent).1] at hrow
      rw [hrow]
      refine appendAdmitted_replay (fun r hr => ?_) hdb hnodup hmin hmax fun r hr => ?_
      · exact hchannel r (mem_admitted.mp hr).1 first List.mem_cons_self
      · exact hknown r (mem_admitted.mp hr).1
    · rfl

/-- **Appending known records again** changes nothing, however they are batched. -/
theorem appendChannelBatches_replay {batches : List (List CanonicalRecord)}
    (hacc : db.Accounted codec) (hdb : db.Readable codec)
    (hnodup : ((db.sealedRecords codec).map event).Nodup)
    (hchannel : ∀ records ∈ batches, ∀ r ∈ records, ∀ q ∈ records, r.channelKey = q.channelKey)
    (hknown : ∀ r ∈ batches.flatten, db.Known codec r) :
    db.appendChannelBatches codec store batches = .ok db := by
  unfold appendChannelBatches
  induction batches with
  | nil => rfl
  | cons records batches ih =>
    have hfirst : db.appendBatch codec store records = .ok db :=
      appendBatch_replay hacc hdb hnodup (hchannel records List.mem_cons_self)
        fun r hr => hknown r (List.mem_append_left _ hr)
    rw [List.foldlM_cons, hfirst]
    exact ih (fun q hq => hchannel q (List.mem_cons_of_mem records hq))
      fun r hr => hknown r (List.mem_append_right _ hr)

end Db

end RecentMessages
