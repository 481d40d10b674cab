import Lodestar.Base.Slices
import Lodestar.SlashingProtection.Records

/-!
# Export and import again

An export reads the records below the largest safe integer. Imported into an
empty database they come with the spans of these records and a lower bound
that is met by them, so a message whose slot or target is not below an exported
one is judged as by the original.
-/

namespace Lodestar.SlashingProtection

open Std (TreeMap)
open Lodestar.Base

variable {ssz : SszEpoch} {hex : HexStrings} {nan : Option Nat} {p : BLSPubkey} {db db' : Db}

/-! ## What is exported -/

theorem mem_getAll {α : Type} {m : Bucket α} {v : α} :
    v ∈ getAll m p none ↔ ∃ n, m[((p, n) : Key)]? = some v ∧ n < MAX_SAFE_INTEGER := by
  unfold getAll
  simp only [Option.elim_none, List.mem_map, List.mem_filter, keyCmp_range]
  constructor
  · rintro ⟨⟨⟨q, n⟩, w⟩, ⟨hmem, rfl, hlt⟩, rfl⟩
    exact ⟨n, TreeMap.mem_toList_iff_getElem?_eq_some.1 hmem, hlt⟩
  · rintro ⟨n, hget, hlt⟩
    exact ⟨((p, n), v), ⟨TreeMap.mem_toList_iff_getElem?_eq_some.2 hget, rfl, hlt⟩, rfl⟩

/-- The entry of `p` in an export. -/
def exportOf (db : Db) (p : BLSPubkey) : InterchangeValidator where
  pubkey := p
  signedBlocks := (getAll db.blockBySlot p none).map SlashingProtectionBlock.toInterchange
  signedAttestations :=
    (getAll db.attestationByTarget p none).map SlashingProtectionAttestation.toInterchange

theorem run_exportValidators (pubkeys : List BLSPubkey) :
    (exportValidators pubkeys).run (act ssz) db = (.ok (pubkeys.map (exportOf db)), db) := by
  induction pubkeys with
  | nil => rfl
  | cons p pubkeys ih =>
    unfold exportValidators
    have hp : (exportValidator p).run (act ssz) db = (.ok (exportOf db p), db) := rfl
    rw [Prog.run_bind_ok hp, Prog.run_bind_ok ih]
    rfl

/-- An export in one of the two formats is a file that parses to the exported entries. -/
theorem run_exportInterchange (ssz : SszEpoch) (hex : HexStrings) (db : Db)
    (genesisValidatorsRoot : Root) (pubkeys : List BLSPubkey)
    {formatVersion : InterchangeFormatVersion}
    (hformat : formatVersion = formatV5 ∨ formatVersion = formatCompleteV4) :
    ∃ interchange, (exportInterchange hex genesisValidatorsRoot pubkeys formatVersion).run (act ssz)
        db = (.ok interchange, db) ∧
      parseInterchange hex interchange genesisValidatorsRoot =
        .ok ⟨genesisValidatorsRoot, pubkeys.map (exportOf db)⟩ := by
  obtain ⟨interchange, hser, hparse⟩ := parseInterchange_of_serializeInterchange hex
    (x := ⟨genesisValidatorsRoot, pubkeys.map (exportOf db)⟩) hformat
  refine ⟨interchange, ?_, hparse⟩
  unfold exportInterchange
  rw [Prog.run_bind_ok (run_exportValidators pubkeys), hser]
  rfl

theorem nodup_listPubkeys (db : Db) : (listPubkeys db).Nodup := nodup_eraseDups _

theorem mem_listPubkeys : p ∈ listPubkeys db ↔ p ∈ db.scanPubkeys := by
  simp [listPubkeys, uniqueVectorArr, List.mem_eraseDups]

theorem mem_keys_of_get {α : Type} {m : Bucket α} {n : Nat} {v : α}
    (h : m[((p, n) : Key)]? = some v) : p ∈ m.keys.map (·.1) :=
  List.mem_map.2 ⟨(p, n), TreeMap.mem_keys.2 (TreeMap.mem_iff_isSome_getElem?.2 (by simp [h])), rfl⟩

theorem sameEntries_empty_of_not_listed (h : p ∉ listPubkeys db) : SameEntries p Db.empty db := by
  rw [mem_listPubkeys] at h
  simp only [Db.scanPubkeys, List.mem_append, not_or] at h
  obtain ⟨⟨⟨⟨hblock, hatt⟩, hbound⟩, hmin⟩, hmax⟩ := h
  have hnone : ∀ {α : Type} {m : Bucket α}, p ∉ m.keys.map (·.1) → ∀ n : Nat,
      (∅ : Bucket α)[((p, n) : Key)]? = m[((p, n) : Key)]? := by
    intro α m hm n
    cases hget : m[((p, n) : Key)]? with
    | none => simp
    | some v => exact (hm (mem_keys_of_get hget)).elim
  refine ⟨hnone hblock, hnone hatt, ?_, fun span e => ?_⟩
  · rw [TreeMap.mem_keys] at hbound
    simp [Db.empty, TreeMap.getElem?_eq_none hbound]
  · cases span with
    | minSpan => exact hnone hmin e
    | maxSpan => exact hnone hmax e

/-! ## What is imported -/

theorem importValidator_toInterchange (bs : List SlashingProtectionBlock)
    (atts : List SlashingProtectionAttestation) :
    importValidator nan ⟨p, bs.map SlashingProtectionBlock.toInterchange,
        atts.map SlashingProtectionAttestation.toInterchange⟩ =
      (importBlocks p bs >>= fun _ => importAttestations p atts).mapError .service := by
  unfold importValidator
  dsimp only
  rw [importSignedBlocks_toInterchange, importSignedAttestations_toInterchange, Prog.mapError_bind]

/-- What a database that had no entries of `p` holds after the import of an export. -/
structure Restored (p : BLSPubkey) (db db' : Db) : Prop where
  block : ∀ n, db'.blockBySlot[((p, n) : Key)]? =
    if n < MAX_SAFE_INTEGER then db.blockBySlot[((p, n) : Key)]? else none
  attestation : ∀ n, db'.attestationByTarget[((p, n) : Key)]? =
    if n < MAX_SAFE_INTEGER then db.attestationByTarget[((p, n) : Key)]? else none
  spans : SpansOk {b | ∃ a ∈ getAll db.attestationByTarget p none, a.span = b} db' p
  bound : db'.attestationLowerBound[p]? = lowerBoundOf (getAll db.attestationByTarget p none)

theorem Restored.congr {db₁ db₂ : Db} (h : Restored p db db₁) (hs : SameEntries p db₁ db₂) :
    Restored p db db₂ where
  block n := (hs.block n).symm.trans (h.block n)
  attestation n := (hs.attestation n).symm.trans (h.attestation n)
  spans := h.spans.of_spanAt hs.span
  bound := hs.bound.symm.trans h.bound

theorem batchPut_getAll {α : Type} {m m₀ : Bucket α} {number : α → Nat}
    (hm : ∀ {n v}, m[((p, n) : Key)]? = some v → number v = n)
    (hempty : ∀ n, m₀[((p, n) : Key)]? = none) (n : Nat) :
    (batchPut m₀ (fun v => ((p, number v) : Key)) id (getAll m p none))[((p, n) : Key)]? =
      if n < MAX_SAFE_INTEGER then m[((p, n) : Key)]? else none := by
  rcases batchPut_get_cases m₀ (fun v => ((p, number v) : Key)) id (getAll m p none) (p, n) with
    ⟨v, hv, hvn, hget⟩ | ⟨hnot, hget⟩
  · obtain ⟨k, hk, hlt⟩ := mem_getAll.1 hv
    obtain rfl : k = n := (hm hk).symm.trans (Prod.mk.inj hvn).2
    rw [hget, if_pos hlt, hk, id]
  · rw [hget, hempty]
    by_cases hlt : n < MAX_SAFE_INTEGER
    · rw [if_pos hlt]
      cases hk : m[((p, n) : Key)]? with
      | none => rfl
      | some v => exact (hnot v (mem_getAll.2 ⟨n, hk, hlt⟩) (by rw [hm hk])).elim
    · rw [if_neg hlt]

theorem ordered_of_mem_getAll (h : RecordsOk p db) {a : SlashingProtectionAttestation}
    (ha : a ∈ getAll db.attestationByTarget p none) :
    a.Ordered ∧ a.targetEpoch < MAX_SAFE_INTEGER := by
  obtain ⟨n, hget, hlt⟩ := mem_getAll.1 ha
  have htarget := h.target hget
  exact ⟨⟨h.le hget, by omega⟩, by omega⟩

theorem RecordsOk.restored (h : RecordsOk p db) {db₀ db₁ : Db} (hempty : SameEntries p Db.empty db₀)
    (hrun : (importValidator nan (exportOf db p)).run (act ssz) db₀ = (.ok (), db₁)) :
    Restored p db db₁ := by
  obtain ⟨hblock, hatt, hbound, hspan⟩ := hempty
  set bs := getAll db.blockBySlot p none
  set atts := getAll db.attestationByTarget p none
  rw [exportOf, importValidator_toInterchange, Prog.run_mapError] at hrun
  change (((SlashingProtection.importAttestations p atts).run (act ssz)
      (db₀.setBlocks p bs)).1.mapError _,
    ((SlashingProtection.importAttestations p atts).run (act ssz) (db₀.setBlocks p bs)).2) = _ at hrun
  obtain ⟨r, span', hspans, himport⟩ := run_importAttestations ssz (db₀.setBlocks p bs) p atts
  rw [himport] at hrun
  cases r with
  | error e => cases hrun
  | ok u =>
    obtain rfl := (Prod.mk.inj hrun).2
    have hstart : SpansOk ∅ ((db₀.setBlocks p bs).setAttestations p atts) p :=
      ((SpansOk.empty p).of_spanAt hspan).congr rfl
    have hend := hstart.insertSpans (fun a ha => (ordered_of_mem_getAll h ha).1) hspans
    rw [Set.empty_union] at hend
    refine ⟨fun n => ?_, fun n => ?_, ?_, ?_⟩
    · have hb := batchPut_getAll (m := db.blockBySlot) h.slot
        (fun n => by rw [← hblock n]; simp [Db.empty]) n
      cases lowerBoundOf atts <;> exact hb
    · have ha := batchPut_getAll (m := db.attestationByTarget)
        h.target (fun n => by rw [← hatt n]; simp [Db.empty]) n
      cases lowerBoundOf atts <;> exact ha
    · cases lowerBoundOf atts with
      | none => exact hend
      | some bound => exact hend.congr rfl
    · cases lowerBoundOf atts with
      | none => exact hbound.symm.trans (by simp [Db.empty])
      | some bound => exact TreeMap.getElem?_insert_self

/-- Where the import of one of several entries with different public keys starts and ends. -/
theorem run_importValidators_each {pubkeys : List BLSPubkey} (hnodup : pubkeys.Nodup) {source : Db}
    (hrun : (importValidators nan (pubkeys.map (exportOf source))).run (act ssz) db = (.ok (), db')) :
    ∀ p ∈ pubkeys, ∃ db₀ db₁, SameEntries p db db₀ ∧
      (importValidator nan (exportOf source p)).run (act ssz) db₀ = (.ok (), db₁) ∧
      SameEntries p db₁ db' := by
  induction pubkeys generalizing db with
  | nil => exact fun p hp => by cases hp
  | cons q pubkeys ih =>
    obtain ⟨hq, hnodup⟩ := List.nodup_cons.1 hnodup
    rw [List.map_cons] at hrun
    unfold importValidators at hrun
    rw [Prog.run_bind] at hrun
    cases hv : (importValidator nan (exportOf source q)).run (act ssz) db with
    | mk r db₁ =>
      rw [hv] at hrun
      cases r with
      | error e => cases hrun
      | ok u =>
        intro p hp
        rcases List.mem_cons.1 hp with rfl | hp
        · have hother : ∀ v ∈ pubkeys.map (exportOf source), v.pubkey ≠ p := by
            intro v hv he
            obtain ⟨q, hq', rfl⟩ := List.mem_map.1 hv
            exact hq (he ▸ hq')
          have hsame := SameEntries.importValidators ssz db₁ nan hother
          change (importValidators nan (pubkeys.map (exportOf source))).run (act ssz) db₁ = _ at hrun
          rw [hrun] at hsame
          exact ⟨db, db₁, SameEntries.refl p db, hv, hsame⟩
        · obtain ⟨d₀, d₁, hstart, hd, hend⟩ := ih hnodup hrun p hp
          have hpq : q ≠ p := fun he => hq (he ▸ hp)
          have hsame := SameEntries.run_other ssz db (own_importValidator nan (exportOf source q)) hpq
          rw [hv] at hsame
          exact ⟨d₀, d₁, hsame.trans hstart, hd, hend⟩

theorem exists_importValidators {pubkeys : List BLSPubkey} (hnodup : pubkeys.Nodup) {source : Db}
    (heach : ∀ p ∈ pubkeys, ∀ db₀, SameEntries p db db₀ →
      ∃ db₁, (importValidator nan (exportOf source p)).run (act ssz) db₀ = (.ok (), db₁)) :
    ∃ db', (importValidators nan (pubkeys.map (exportOf source))).run (act ssz) db =
      (.ok (), db') := by
  induction pubkeys generalizing db with
  | nil => exact ⟨db, rfl⟩
  | cons q pubkeys ih =>
    obtain ⟨hq, hnodup⟩ := List.nodup_cons.1 hnodup
    obtain ⟨db₁, hv⟩ := heach q List.mem_cons_self db (SameEntries.refl q db)
    obtain ⟨db', hrun⟩ := ih hnodup fun p hp db₀ hsame => by
      have hpq : q ≠ p := fun he => hq (he ▸ hp)
      have hother := SameEntries.run_other ssz db (own_importValidator nan (exportOf source q)) hpq
      rw [hv] at hother
      exact heach p (List.mem_cons_of_mem _ hp) db₀ (hother.trans hsame)
    refine ⟨db', ?_⟩
    rw [List.map_cons]
    unfold importValidators
    rw [Prog.run_bind_ok hv]
    exact hrun

theorem restored_of_import (h : ∀ p, RecordsOk p db)
    (hrun : (importValidators nan ((listPubkeys db).map (exportOf db))).run (act ssz) Db.empty =
      (.ok (), db')) (p : BLSPubkey) : Restored p db db' := by
  by_cases hp : p ∈ listPubkeys db
  · obtain ⟨db₀, db₁, hstart, hv, hend⟩ := run_importValidators_each (nodup_listPubkeys db) hrun p hp
    exact ((h p).restored hstart hv).congr hend
  · -- nothing was exported for `p`, and there was nothing
    have hnone := sameEntries_empty_of_not_listed hp
    have hother : ∀ v ∈ (listPubkeys db).map (exportOf db), v.pubkey ≠ p := by
      intro v hv he
      obtain ⟨q, hq, rfl⟩ := List.mem_map.1 hv
      exact hp (he ▸ hq)
    have hsame := SameEntries.importValidators ssz Db.empty nan hother
    rw [hrun] at hsame
    have hatts : getAll db.attestationByTarget p none = [] :=
      (getAll_congr hnone.attestation none).symm.trans (by simp [getAll, Db.empty])
    refine ⟨fun n => ?_, fun n => ?_, ?_, ?_⟩
    · rw [← hsame.block n, ← hnone.block n]
      simp [Db.empty]
    · rw [← hsame.attestation n, ← hnone.attestation n]
      simp [Db.empty]
    · rw [hatts]
      simpa using (SpansOk.empty p).of_spanAt hsame.span
    · rw [hatts, ← hsame.bound]
      simp [Db.empty, lowerBoundOf, minEpoch]

/-- No recorded slot or target epoch reaches the largest safe integer. -/
def NumbersSafe (db : Db) : Prop :=
  (∀ (p : BLSPubkey) (s : Nat) (b : SlashingProtectionBlock),
    db.blockBySlot[((p, s) : Key)]? = some b → s < MAX_SAFE_INTEGER) ∧
  ∀ p, TargetsSafe p db

theorem exportedSpans_eq (hsafe : TargetsSafe p db) :
    {b | ∃ a ∈ getAll db.attestationByTarget p none, a.span = b} = recordSpans p db := by
  ext x
  constructor
  · rintro ⟨a, ha, rfl⟩
    obtain ⟨n, hget, -⟩ := mem_getAll.1 ha
    exact ⟨n, a, hget, rfl⟩
  · rintro ⟨n, a, hget, rfl⟩
    exact ⟨a, mem_getAll.2 ⟨n, hget, hsafe n a hget⟩, rfl⟩

theorem exists_import_of_numbersSafe (h : ∀ p, RecordsOk p db) (hsafe : NumbersSafe db) :
    ∃ db', (importValidators nan ((listPubkeys db).map (exportOf db))).run (act ssz) Db.empty =
      (.ok (), db') := by
  refine exists_importValidators (nodup_listPubkeys db) fun p _ db₀ hstart => ?_
  have hspans := (h p).spans (hsafe.2 p)
  rw [← exportedSpans_eq (hsafe.2 p)] at hspans
  have hempty : SpansOk ∅ ((db₀.setBlocks p (getAll db.blockBySlot p none)).setAttestations p
      (getAll db.attestationByTarget p none)) p :=
    ((SpansOk.empty p).of_spanAt hstart.span).congr rfl
  obtain ⟨d, hins⟩ := hempty.exists_insertSpans ssz
    (fun a ha => (ordered_of_mem_getAll (h p) ha).1) (by simpa using hspans.laminar)
  obtain ⟨r, span', hspans', himport⟩ := run_importAttestations ssz
    (db₀.setBlocks p (getAll db.blockBySlot p none)) p (getAll db.attestationByTarget p none)
  obtain rfl : Except.ok () = r := (Prod.mk.inj (hins.symm.trans hspans')).1
  have hblocks : (importBlocks p (getAll db.blockBySlot p none)).run (act ssz) db₀ =
      (.ok (), db₀.setBlocks p (getAll db.blockBySlot p none)) := rfl
  rw [exportOf, importValidator_toInterchange, Prog.run_mapError, Prog.run_bind_ok hblocks, himport]
  exact ⟨_, rfl⟩

/-! ## Later messages -/

/-- The slot or target of a message is not below an exported one. -/
def Message.NotBelow (db : Db) : Message → Prop
  | .proposal p b => ∀ x ∈ getAll db.blockBySlot p none, x.slot ≤ b.slot
  | .attestation p a => ∀ x ∈ getAll db.attestationByTarget p none, x.targetEpoch ≤ a.targetEpoch

/-- An attestation bound is met by attestations of `E`. -/
def BoundIn (E : List SlashingProtectionAttestation) (p : BLSPubkey) (db : Db) : Prop :=
  ∀ bound, db.attestationLowerBound[p]? = some bound →
    (∃ a ∈ E, bound.minSourceEpoch ≤ a.sourceEpoch) ∧ ∃ a ∈ E, bound.minTargetEpoch ≤ a.targetEpoch

/-- Two databases with the same entries of `p` but for the lower bound, in which the attestations
of `E` are recorded and known to the min span. -/
structure Alike (E : List SlashingProtectionAttestation) (p : BLSPubkey) (db db' : Db) : Prop where
  block : SameBlocks p db db'
  attestation : ∀ t : Nat,
    db.attestationByTarget[((p, t) : Key)]? = db'.attestationByTarget[((p, t) : Key)]?
  span : ∀ span, db.spanAt span p = db'.spanAt span p
  bound : BoundIn E p db
  bound' : BoundIn E p db'
  recorded : ∀ a ∈ E, (db.attestationByTarget[((p, a.targetEpoch) : Key)]?).isSome
  near : ∀ a ∈ E, ∀ e < a.sourceEpoch,
    ∃ d, db.spanAt .minSpan p e = some d ∧ 0 < d ∧ e + d ≤ a.targetEpoch

variable {E : List SlashingProtectionAttestation} {a : SlashingProtectionAttestation}

theorem Alike.clear_bound (h : Alike E p db db') (hlast : ∀ x ∈ E, x.targetEpoch ≤ a.targetEpoch)
    (hunused : db.attestationByTarget[((p, a.targetEpoch) : Key)]? = none)
    (hs : surrounding (db.spanAt .minSpan p a.sourceEpoch) a = false) {d : Db}
    (hd : BoundIn E p d) {bound : SlashingProtectionLowerBound}
    (hbound : d.attestationLowerBound[p]? = some bound) :
    bound.minSourceEpoch ≤ a.sourceEpoch ∧ bound.minTargetEpoch < a.targetEpoch := by
  have hlt : ∀ x ∈ E, x.targetEpoch < a.targetEpoch := by
    intro x hx
    refine lt_of_le_of_ne (hlast x hx) fun he => ?_
    have hsome := h.recorded x hx
    rw [he, hunused] at hsome
    cases hsome
  obtain ⟨⟨x, hx, hxs⟩, y, hy, hyt⟩ := hd bound hbound
  refine ⟨?_, lt_of_le_of_lt hyt (hlt y hy)⟩
  by_contra hlow
  obtain ⟨k, hk, hpos, hle⟩ := h.near x hx a.sourceEpoch (by omega)
  have hxa := hlt x hx
  rw [hk, surrounding_some] at hs
  omega

theorem Alike.clear_iff (h : Alike E p db db') (hlast : ∀ x ∈ E, x.targetEpoch ≤ a.targetEpoch) :
    Clear db p a ↔ Clear db' p a := by
  constructor
  · rintro ⟨hle, hunused, hs, hs', -⟩
    refine ⟨hle, (h.attestation _).symm.trans hunused, ?_, ?_, fun bound hb => ?_⟩
    · rw [← h.span]; exact hs
    · rw [← h.span]; exact hs'
    · exact h.clear_bound hlast hunused hs h.bound' hb
  · rintro ⟨hle, hunused, hs, hs', -⟩
    rw [← h.attestation] at hunused
    rw [← h.span] at hs hs'
    exact ⟨hle, hunused, hs, hs', fun bound hb => h.clear_bound hlast hunused hs h.bound hb⟩

theorem Alike.insert (h : Alike E p db db') (hlast : ∀ x ∈ E, x.targetEpoch ≤ a.targetEpoch) :
    Alike E p ((db.setAttestations p [a]).insertSpan ssz p a)
      ((db'.setAttestations p [a]).insertSpan ssz p a) where
  block := h.block
  attestation t := by
    show (db.setAttestations p [a]).attestationByTarget[((p, t) : Key)]? =
      (db'.setAttestations p [a]).attestationByTarget[((p, t) : Key)]?
    rw [setAttestations_get, setAttestations_get, h.attestation]
  span span := by
    funext e
    have hspan : ∀ s, (db.setAttestations p [a]).spanAt s p = (db'.setAttestations p [a]).spanAt s p :=
      h.span
    cases span with
    | minSpan => rw [spanAt_minSpan_insertSpan, spanAt_minSpan_insertSpan, hspan]
    | maxSpan => rw [spanAt_maxSpan_insertSpan, spanAt_maxSpan_insertSpan, hspan]
  bound := h.bound
  bound' := h.bound'
  recorded x hx := by
    show ((db.setAttestations p [a]).attestationByTarget[((p, x.targetEpoch) : Key)]?).isSome
    rw [setAttestations_get]
    cases lastAt [a] x.targetEpoch with
    | none => exact h.recorded x hx
    | some b => rfl
  near x hx e he := by
    obtain ⟨d, hd, hpos, hle⟩ := h.near x hx e he
    refine ⟨d, ?_, hpos, hle⟩
    -- the entry is near enough already, so it is not written over
    rw [spanAt_minSpan_insertSpan, if_neg]
    · exact hd
    · rintro ⟨hcut, hes⟩
      have hnear := (minCut_spec _ a.targetEpoch a.sourceEpoch).1 e hcut hes d hd
      have hxa := hlast x hx
      omega

theorem run_proposal_blocks (ssz : SszEpoch) (p : BLSPubkey) (b : SlashingProtectionBlock) (db : Db) :
    ∃ m, ((checkAndInsertBlockProposal p b).run (act ssz) db).2 = { db with blockBySlot := m } := by
  rcases run_checkAndInsertBlockProposal ssz db p b with ⟨e, hrun, -⟩ | ⟨hrun, -⟩ | ⟨hrun, -⟩
  · exact ⟨db.blockBySlot, by rw [hrun]⟩
  · exact ⟨db.blockBySlot, by rw [hrun]⟩
  · exact ⟨_, by rw [hrun]; rfl⟩

theorem Alike.proposal (h : Alike E p db db') (b : SlashingProtectionBlock) :
    ((checkAndInsertBlockProposal p b).run (act ssz) db).1 =
      ((checkAndInsertBlockProposal p b).run (act ssz) db').1 ∧
    Alike E p ((checkAndInsertBlockProposal p b).run (act ssz) db).2
      ((checkAndInsertBlockProposal p b).run (act ssz) db').2 := by
  obtain ⟨hres, hblock⟩ := h.block.run ssz (.checkAndInsertBlockProposal b)
  refine ⟨hres, ?_⟩
  change SameBlocks p ((checkAndInsertBlockProposal p b).run (act ssz) db).2
    ((checkAndInsertBlockProposal p b).run (act ssz) db').2 at hblock
  obtain ⟨m, hm⟩ := run_proposal_blocks ssz p b db
  obtain ⟨m', hm'⟩ := run_proposal_blocks ssz p b db'
  rw [hm, hm'] at hblock ⊢
  exact ⟨hblock, h.attestation, h.span, h.bound, h.bound', h.recorded, h.near⟩

theorem Alike.sign_attestation (h : Alike E p db db')
    (hlast : ∀ x ∈ E, x.targetEpoch ≤ a.targetEpoch) :
    ((checkAndInsertAttestation p a).run (act ssz) db).1.isOk =
      ((checkAndInsertAttestation p a).run (act ssz) db').1.isOk ∧
    Alike E p ((checkAndInsertAttestation p a).run (act ssz) db).2
      ((checkAndInsertAttestation p a).run (act ssz) db').2 := by
  have hrep : Repeated db p a ↔ Repeated db' p a := by
    unfold Repeated
    rw [h.attestation]
  have hnot : ∀ {d : Db}, Clear d p a → ¬ Repeated d p a := by
    rintro d hclear ⟨-, prev, hprev, -⟩
    rw [hclear.unused] at hprev
    cases hprev
  have hclear := h.clear_iff hlast
  rcases run_checkAndInsertAttestation ssz db p a with
      ⟨e, hrun, hr, hc⟩ | ⟨hrun, hr⟩ | ⟨hrun, hc⟩ <;>
    rcases run_checkAndInsertAttestation ssz db' p a with
      ⟨e', hrun', hr', hc'⟩ | ⟨hrun', hr'⟩ | ⟨hrun', hc'⟩
  · rw [hrun, hrun']; exact ⟨rfl, h⟩
  · exact (hr (hrep.2 hr')).elim
  · exact (hc (hclear.2 hc')).elim
  · exact (hr' (hrep.1 hr)).elim
  · rw [hrun, hrun']; exact ⟨rfl, h⟩
  · exact (hnot hc' (hrep.1 hr)).elim
  · exact (hc' (hclear.1 hc)).elim
  · exact (hnot hc (hrep.2 hr')).elim
  · rw [hrun, hrun']; exact ⟨rfl, h.insert hlast⟩

theorem Alike.congr {d d' : Db} (h : Alike E p db db') (hs : SameEntries p db d)
    (hs' : SameEntries p db' d') : Alike E p d d' where
  block := fun s => (hs.block s).symm.trans ((h.block s).trans (hs'.block s))
  attestation t := (hs.attestation t).symm.trans ((h.attestation t).trans (hs'.attestation t))
  span s := funext fun e =>
    (hs.span s e).symm.trans ((congrFun (h.span s) e).trans (hs'.span s e))
  bound bound hb := h.bound bound (hs.bound.trans hb)
  bound' bound hb := h.bound' bound (hs'.bound.trans hb)
  recorded a ha := by rw [← hs.attestation]; exact h.recorded a ha
  near a ha e he := by rw [← hs.span]; exact h.near a ha e he

theorem answers_of_alike {source : Db} {ms : List Message} (hms : ∀ m ∈ ms, m.NotBelow source)
    (h : ∀ p, Alike (getAll source.attestationByTarget p none) p db db') :
    answers ssz db ms = answers ssz db' ms := by
  induction ms generalizing db db' with
  | nil => rfl
  | cons m ms ih =>
    have hm := hms m List.mem_cons_self
    have hstep : (m.prog.run (act ssz) db).1.isOk = (m.prog.run (act ssz) db').1.isOk ∧
        Alike (getAll source.attestationByTarget m.pubkey none) m.pubkey
          (m.prog.run (act ssz) db).2 (m.prog.run (act ssz) db').2 := by
      cases m with
      | proposal p b =>
        obtain ⟨hres, hafter⟩ := (h p).proposal b
        exact ⟨congrArg Except.isOk hres, hafter⟩
      | attestation p a => exact (h p).sign_attestation hm
    unfold answers
    rw [hstep.1, ih (fun m' hm' => hms m' (List.mem_cons_of_mem _ hm')) fun p => ?_]
    by_cases hp : m.pubkey = p
    · exact hp ▸ hstep.2
    · exact (h p).congr (SameEntries.run_other ssz db m.own hp)
        (SameEntries.run_other ssz db' m.own hp)

/-! ## The round trip -/

theorem alike_of_restored (h : RecordsOk p db) (hsafe : NumbersSafe db) (hr : Restored p db db') :
    Alike (getAll db.attestationByTarget p none) p db db' := by
  have hspans := h.spans (hsafe.2 p)
  have hspans' := hr.spans
  rw [exportedSpans_eq (hsafe.2 p)] at hspans'
  have hmem : ∀ {t a}, db.attestationByTarget[((p, t) : Key)]? = some a →
      a ∈ getAll db.attestationByTarget p none := fun ha =>
    mem_getAll.2 ⟨_, ha, hsafe.2 p _ _ ha⟩
  refine ⟨fun s => ?_, fun t => ?_, fun span => ?_, fun bound hb => ?_, fun bound hb => ?_,
    fun a ha => ?_, fun a ha e he => ?_⟩
  · rw [hr.block s]
    split_ifs with hs
    · rfl
    · cases hget : db.blockBySlot[((p, s) : Key)]? with
      | none => rfl
      | some b => exact (hs (hsafe.1 p s b hget)).elim
  · rw [hr.attestation t]
    split_ifs with ht
    · rfl
    · cases hget : db.attestationByTarget[((p, t) : Key)]? with
      | none => rfl
      | some a => exact (ht (hsafe.2 p t a hget)).elim
  · cases span with
    | minSpan => exact hspans.nearest.unique hspans'.nearest
    | maxSpan => exact hspans.furthest.unique hspans'.furthest
  · obtain ⟨⟨t, a, ha, hle⟩, t', a', ha', hle'⟩ := h.bound hb
    exact ⟨⟨a, hmem ha, hle⟩, a', hmem ha', hle'⟩
  · rw [hr.bound] at hb
    obtain ⟨⟨a, ha, has⟩, b, hb, hbt⟩ := lowerBoundOf_mem hb
    exact ⟨⟨a, ha, has.ge⟩, b, hb, hbt.ge⟩
  · obtain ⟨n, hget, -⟩ := mem_getAll.1 ha
    rw [h.target hget, hget]
    rfl
  · obtain ⟨n, hget, -⟩ := mem_getAll.1 ha
    obtain ⟨d, hd, hle⟩ := hspans.nearest.least ⟨n, a, hget, rfl⟩ he
    obtain ⟨b, hb, hlt, heq⟩ := hspans.nearest.sound hd
    have hordered := hspans.ordered b hb
    exact ⟨d, hd, by omega, hle⟩

/-- Exported in either format, parsed and imported into an empty database, `db` gives a database
that judges all messages that are not below the exported ones as `db` does. -/
def RoundTrips (ssz : SszEpoch) (hex : HexStrings) (nan : Option Nat) (db : Db) : Prop :=
  ∀ (genesisValidatorsRoot : Root) (formatVersion : InterchangeFormatVersion),
    formatVersion = formatV5 ∨ formatVersion = formatCompleteV4 →
    ∃ interchange db',
      (exportInterchange hex genesisValidatorsRoot (listPubkeys db) formatVersion).run (act ssz) db =
        (.ok interchange, db) ∧
      (importInterchange hex nan interchange genesisValidatorsRoot).run (act ssz) Db.empty =
        (.ok (), db') ∧
      ∀ ms : List Message, (∀ m ∈ ms, m.NotBelow db) → answers ssz db' ms = answers ssz db ms

theorem roundTrips_of_numbersSafe (h : ∀ p, RecordsOk p db) (hsafe : NumbersSafe db) :
    RoundTrips ssz hex nan db := by
  intro genesisValidatorsRoot formatVersion hformat
  obtain ⟨interchange, hexport, hparse⟩ := run_exportInterchange ssz hex db genesisValidatorsRoot
    (listPubkeys db) hformat
  obtain ⟨db', himport⟩ := exists_import_of_numbersSafe h hsafe
  refine ⟨interchange, db', hexport, ?_, fun ms hms => ?_⟩
  · unfold importInterchange
    rw [hparse]
    exact himport
  · refine (answers_of_alike hms fun p => ?_).symm
    exact alike_of_restored (h p) hsafe (restored_of_import h himport p)

theorem RoundTrips.restored (hround : RoundTrips ssz hex nan db) (h : ∀ p, RecordsOk p db) :
    ∃ db', (∀ p, Restored p db db') ∧
      ∀ ms : List Message, (∀ m ∈ ms, m.NotBelow db) → answers ssz db' ms = answers ssz db ms := by
  obtain ⟨interchange, db', hexport, himport, hanswers⟩ := hround 0 formatV5 (.inl rfl)
  obtain ⟨interchange', hexport', hparse⟩ := run_exportInterchange ssz hex db 0 (listPubkeys db)
    (.inl rfl)
  obtain rfl : interchange = interchange' :=
    Except.ok.inj (Prod.mk.inj (hexport.symm.trans hexport')).1
  unfold importInterchange at himport
  rw [hparse] at himport
  exact ⟨db', restored_of_import h himport, hanswers⟩

theorem exists_other_root (root : Root) : ∃ root', isEqualNonZeroRoot root root' = false := by
  refine ⟨root + 1, ?_⟩
  by_contra hne
  obtain ⟨-, heq⟩ := isEqualNonZeroRoot_iff.1 (Bool.not_eq_false _ ▸ hne)
  exact absurd (BitVec.self_eq_add_right.1 heq) (by decide)

/-- A block that the export leaves out: its proposal is signed again with another root. -/
theorem not_roundTrips_of_block (h : ∀ p, RecordsOk p db) {s : Nat} {b : SlashingProtectionBlock}
    (hb : db.blockBySlot[((p, s) : Key)]? = some b) (hs : MAX_SAFE_INTEGER ≤ s) :
    ¬ RoundTrips ssz hex nan db := by
  intro hround
  obtain ⟨db', hrestored, hanswers⟩ := hround.restored h
  obtain ⟨root, hroot⟩ := exists_other_root b.signingRoot
  have hslot := (h p).slot hb
  have hmem : ∀ {n x}, db'.blockBySlot[((p, n) : Key)]? = some x →
      x.slot < MAX_SAFE_INTEGER := by
    intro n x hx
    rw [(hrestored p).block] at hx
    split_ifs at hx with hn
    rw [(h p).slot hx]
    exact hn
  have heq := hanswers [.proposal p ⟨s, root⟩] (by
    intro m hm
    cases List.mem_singleton.1 hm
    intro x hx
    obtain ⟨n, hn, hlt⟩ := mem_getAll.1 hx
    rw [(h p).slot hn]
    exact hlt.le.trans hs)
  have hrefused : ((checkAndInsertBlockProposal p ⟨s, root⟩).run (act ssz) db).1.isOk = false := by
    rcases run_checkAndInsertBlockProposal ssz db p ⟨s, root⟩ with
      ⟨e, hrun, -⟩ | ⟨-, prev, hprev, -, hr⟩ | ⟨-, hclear⟩
    · rw [hrun]; rfl
    · obtain rfl := Option.some.inj (hb.symm.trans hprev)
      exact absurd hr (by simp [hroot])
    · exact (hclear.unused b hb hslot.symm).elim
  have haccepted : ((checkAndInsertBlockProposal p ⟨s, root⟩).run (act ssz) db').1.isOk = true := by
    have hclear : BlockClear db' p ⟨s, root⟩ := by
      refine ⟨fun prev hprev he => ?_, fun first hfirst => ?_⟩
      · have hlt := hmem hprev
        exact absurd hlt (not_lt.2 (he ▸ hs))
      · obtain ⟨n, hn, -⟩ := firstBlock_mem hfirst
        exact lt_of_lt_of_le (hmem hn) hs
    rcases run_checkAndInsertBlockProposal ssz db' p ⟨s, root⟩ with
      ⟨e, -, -, hnot⟩ | ⟨hrun, -⟩ | ⟨hrun, -⟩
    · exact (hnot hclear).elim
    · rw [hrun]; rfl
    · rw [hrun]; rfl
  have hhead := (List.cons.inj heq).1
  rw [show Message.prog (.proposal p ⟨s, root⟩) = checkAndInsertBlockProposal p ⟨s, root⟩ from rfl,
    hrefused, haccepted] at hhead
  cases hhead

/-- An attestation that the export leaves out: its target is voted for again with another root. -/
theorem not_roundTrips_of_attestation (h : ∀ p, RecordsOk p db) {t : Nat}
    {a : SlashingProtectionAttestation} (ha : db.attestationByTarget[((p, t) : Key)]? = some a)
    (ht : MAX_SAFE_INTEGER ≤ t) : ¬ RoundTrips ssz hex nan db := by
  intro hround
  obtain ⟨db', hrestored, hanswers⟩ := hround.restored h
  obtain ⟨root, hroot⟩ := exists_other_root a.signingRoot
  have hexported : ∀ x ∈ getAll db.attestationByTarget p none,
      x.sourceEpoch ≤ x.targetEpoch ∧ x.targetEpoch < MAX_SAFE_INTEGER := by
    intro x hx
    obtain ⟨hordered, hlt⟩ := ordered_of_mem_getAll (h p) hx
    exact ⟨hordered.le, hlt⟩
  have heq := hanswers [.attestation p ⟨t, t, root⟩] (by
    intro m hm
    cases List.mem_singleton.1 hm
    intro x hx
    exact (hexported x hx).2.le.trans ht)
  have hrefused : ((checkAndInsertAttestation p ⟨t, t, root⟩).run (act ssz) db).1.isOk = false := by
    rcases run_checkAndInsertAttestation ssz db p ⟨t, t, root⟩ with
      ⟨e, hrun, -⟩ | ⟨-, -, prev, hprev, hr⟩ | ⟨-, hclear⟩
    · rw [hrun]; rfl
    · obtain rfl := Option.some.inj (ha.symm.trans hprev)
      exact absurd hr (by simp [hroot])
    · exact absurd (hclear.unused.symm.trans ha) (by simp)
  have hspans := (hrestored p).spans
  have hclear : Clear db' p ⟨t, t, root⟩ := by
    refine ⟨le_rfl, ?_, ?_, ?_, fun bound hbound => ?_⟩
    · rw [(hrestored p).attestation, if_neg (by simpa using ht)]
    · by_contra hne
      obtain ⟨b, ⟨x, hx, rfl⟩, hst, htt⟩ := hspans.surrounding_iff.1 (Bool.not_eq_false _ ▸ hne)
      have hx := hexported x hx
      change t < x.sourceEpoch at hst
      omega
    · by_contra hne
      obtain ⟨b, ⟨x, hx, rfl⟩, hst, htt⟩ := (hspans.surrounded_iff (a := ⟨t, t, root⟩) le_rfl).1
        (Bool.not_eq_false _ ▸ hne)
      have hx := hexported x hx
      change t < x.targetEpoch at htt
      omega
    · rw [(hrestored p).bound] at hbound
      obtain ⟨⟨x, hx, hxs⟩, y, hy, hyt⟩ := lowerBoundOf_mem hbound
      have hx := hexported x hx
      have hy := hexported y hy
      show bound.minSourceEpoch ≤ t ∧ bound.minTargetEpoch < t
      omega
  have haccepted : ((checkAndInsertAttestation p ⟨t, t, root⟩).run (act ssz) db').1.isOk = true := by
    rcases run_checkAndInsertAttestation ssz db' p ⟨t, t, root⟩ with
      ⟨e, -, -, hnot⟩ | ⟨hrun, -⟩ | ⟨hrun, -⟩
    · exact (hnot hclear).elim
    · rw [hrun]; rfl
    · rw [hrun]; rfl
  have hhead := (List.cons.inj heq).1
  rw [show Message.prog (.attestation p ⟨t, t, root⟩) = checkAndInsertAttestation p ⟨t, t, root⟩
    from rfl, hrefused, haccepted] at hhead
  cases hhead

/-- In a run of calls whose imports go through and write over no attestation with another source,
the round trip works exactly as long as no recorded number reaches the largest safe integer. What
is serialized parses back in any case. -/
theorem roundTrips_iff_numbersSafe (ssz : SszEpoch) (hex : HexStrings) (nan : Option Nat)
    (hrun : Relation.ReflTransGen (KeepsStep ssz hex nan) Db.empty db) :
    (RoundTrips ssz hex nan db ↔ NumbersSafe db) ∧
      ∀ (x : IInterchangeLodestar) (formatVersion : InterchangeFormatVersion),
        formatVersion = formatV5 ∨ formatVersion = formatCompleteV4 →
        ∃ interchange, serializeInterchange hex x formatVersion = .ok interchange ∧
          parseInterchange hex interchange x.genesisValidatorsRoot = .ok x := by
  have h := RecordsOk.reachable hrun
  refine ⟨⟨fun hround => ⟨fun p s b hb => ?_, fun p t a ha => ?_⟩, roundTrips_of_numbersSafe h⟩,
    fun x formatVersion hformat => parseInterchange_of_serializeInterchange hex hformat⟩
  · by_contra hs
    exact not_roundTrips_of_block h hb (not_lt.1 hs) hround
  · by_contra ht
    exact not_roundTrips_of_attestation h ha (not_lt.1 ht) hround

/-- A proposal and an attestation, with and without a signing root, of two validators. -/
def signedTwo : Db :=
  Request.perform sszUint64 hexStrings none
    (Request.perform sszUint64 hexStrings none Db.empty (.sign (.proposal 7 ⟨3, 0xaa⟩)))
    (.sign (.attestation 8 ⟨1, 2, 0⟩))

theorem signedTwo_reachable :
    Relation.ReflTransGen (KeepsStep sszUint64 hexStrings none) Db.empty signedTwo :=
  .tail (.single ⟨.sign (.proposal 7 ⟨3, 0xaa⟩), trivial, rfl⟩)
    ⟨.sign (.attestation 8 ⟨1, 2, 0⟩), trivial, rfl⟩

theorem roundTrips_iff_numbersSafe_signedTwo :
    (RoundTrips sszUint64 hexStrings none signedTwo ↔ NumbersSafe signedTwo) ∧
      ∀ (x : IInterchangeLodestar) (formatVersion : InterchangeFormatVersion),
        formatVersion = formatV5 ∨ formatVersion = formatCompleteV4 →
        ∃ interchange, serializeInterchange hexStrings x formatVersion = .ok interchange ∧
          parseInterchange hexStrings interchange x.genesisValidatorsRoot = .ok x :=
  roundTrips_iff_numbersSafe sszUint64 hexStrings none signedTwo_reachable

/-- A proposal at the largest safe integer. -/
def signedLast : Db :=
  Request.perform sszUint64 hexStrings none Db.empty
    (.sign (.proposal 7 ⟨MAX_SAFE_INTEGER, 0xaa⟩))

theorem not_roundTrips_signedLast :
    ¬ ∀ db, Relation.ReflTransGen (AnyRequest sszUint64 hexStrings none) Db.empty db →
      RoundTrips sszUint64 hexStrings none db := by
  intro h
  have hround := h signedLast (.single ⟨_, rfl⟩)
  have hrecord : signedLast.blockBySlot[(((7 : BLSPubkey), MAX_SAFE_INTEGER) : Key)]? =
      some ⟨MAX_SAFE_INTEGER, 0xaa⟩ := by decide +kernel
  have hok : ∀ p, RecordsOk p signedLast := RecordsOk.reachable
    (.single ⟨.sign (.proposal 7 ⟨MAX_SAFE_INTEGER, 0xaa⟩), trivial, rfl⟩)
  exact not_roundTrips_of_block hok hrecord le_rfl hround

end Lodestar.SlashingProtection
