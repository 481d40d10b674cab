import Mathlib.Logic.Relation
import Lodestar.SlashingProtection.Entries
import Lodestar.SlashingProtection.SelfSlashing

/-!
# Databases whose spans are those of their records

A record stands at its own slot or target. As long as imports go through and
write over no attestation with another source, the spans of a public key
describe the attestations recorded for it and no others, and its lower bound
is not above all of them (`RecordsOk`).
-/

namespace Lodestar.SlashingProtection

open Lodestar.Base

/-! ## Calls -/

/-- A call of the service. -/
inductive Request where
  | sign (m : Message)
  | importInterchange (interchange : Interchange) (genesisValidatorsRoot : Root)

/-- The database after a call. -/
def Request.perform (ssz : SszEpoch) (hex : HexStrings) (nan : Option Nat) (db : Db) : Request → Db
  | .sign m => (m.prog.run (act ssz) db).2
  | .importInterchange interchange genesisValidatorsRoot =>
    ((SlashingProtection.importInterchange hex nan interchange genesisValidatorsRoot).run (act ssz)
      db).2

/-- The attestations of a file have their epochs in order, and for each target epoch of a public
key the same source as each other and as the record that is there. -/
structure OneSource (db : Db) (data : List InterchangeValidator) : Prop where
  le : ∀ v ∈ data, ∀ a : SlashingProtectionAttestation,
    a.toInterchange ∈ v.signedAttestations → a.sourceEpoch ≤ a.targetEpoch
  recorded : ∀ v ∈ data, ∀ a : SlashingProtectionAttestation,
    a.toInterchange ∈ v.signedAttestations →
      ∀ prev, db.attestationByTarget[((v.pubkey, a.targetEpoch) : Key)]? = some prev →
        prev.sourceEpoch = a.sourceEpoch
  file : ∀ v ∈ data, ∀ w ∈ data, v.pubkey = w.pubkey → ∀ a b : SlashingProtectionAttestation,
    a.toInterchange ∈ v.signedAttestations → b.toInterchange ∈ w.signedAttestations →
      a.targetEpoch = b.targetEpoch → a.sourceEpoch = b.sourceEpoch

/-- An import goes through and writes over no attestation with another source. -/
def Request.Keeps (ssz : SszEpoch) (hex : HexStrings) (nan : Option Nat) (db : Db) :
    Request → Prop
  | .sign _ => True
  | .importInterchange interchange genesisValidatorsRoot =>
    ((SlashingProtection.importInterchange hex nan interchange genesisValidatorsRoot).run (act ssz)
      db).1 = .ok () ∧
    ∀ x, parseInterchange hex interchange genesisValidatorsRoot = .ok x → OneSource db x.data

/-- Any call. -/
def AnyRequest (ssz : SszEpoch) (hex : HexStrings) (nan : Option Nat) (db db' : Db) : Prop :=
  ∃ r : Request, db' = r.perform ssz hex nan db

/-- A call that keeps the spans those of the records. -/
def KeepsStep (ssz : SszEpoch) (hex : HexStrings) (nan : Option Nat) (db db' : Db) : Prop :=
  ∃ r : Request, r.Keeps ssz hex nan db ∧ db' = r.perform ssz hex nan db

/-! ## The invariant -/

/-- Source and target of the attestations recorded for `p`. -/
def recordSpans (p : BLSPubkey) (db : Db) : Set (Nat × Nat) :=
  {b | ∃ t a, db.attestationByTarget[((p, t) : Key)]? = some a ∧ a.span = b}

/-- No target epoch recorded for `p` reaches the largest safe integer. -/
def TargetsSafe (p : BLSPubkey) (db : Db) : Prop :=
  ∀ t a, db.attestationByTarget[((p, t) : Key)]? = some a → t < MAX_SAFE_INTEGER

structure RecordsOk (p : BLSPubkey) (db : Db) : Prop where
  slot : ∀ {s b}, db.blockBySlot[((p, s) : Key)]? = some b → b.slot = s
  target : ∀ {t a}, db.attestationByTarget[((p, t) : Key)]? = some a → a.targetEpoch = t
  le : ∀ {t a}, db.attestationByTarget[((p, t) : Key)]? = some a → a.sourceEpoch ≤ a.targetEpoch
  spans : TargetsSafe p db → SpansOk (recordSpans p db) db p
  bound : ∀ {bound}, db.attestationLowerBound[p]? = some bound →
    (∃ t a, db.attestationByTarget[((p, t) : Key)]? = some a ∧ bound.minSourceEpoch ≤ a.sourceEpoch) ∧
    ∃ t a, db.attestationByTarget[((p, t) : Key)]? = some a ∧ bound.minTargetEpoch ≤ a.targetEpoch

variable {ssz : SszEpoch} {hex : HexStrings} {nan : Option Nat} {p : BLSPubkey} {db db' : Db}
  {H : Set (Nat × Nat)}

theorem SpansOk.of_spanAt (h : SpansOk H db p)
    (hspan : ∀ span e, db.spanAt span p e = db'.spanAt span p e) : SpansOk H db' p := by
  have hat : ∀ s, db'.spanAt s p = db.spanAt s p := fun s => funext fun e => (hspan s e).symm
  exact ⟨hat _ ▸ h.nearest, hat _ ▸ h.furthest, h.ordered, h.laminar⟩

theorem recordSpans_congr (h : SameEntries p db db') : recordSpans p db = recordSpans p db' := by
  unfold recordSpans
  simp only [h.attestation]

theorem RecordsOk.congr (h : RecordsOk p db) (hs : SameEntries p db db') : RecordsOk p db' where
  slot hb := h.slot ((hs.block _).trans hb)
  target ha := h.target ((hs.attestation _).trans ha)
  le ha := h.le ((hs.attestation _).trans ha)
  spans hsafe := by
    rw [← recordSpans_congr hs]
    exact (h.spans fun t a ha => hsafe t a ((hs.attestation t).symm.trans ha)).of_spanAt hs.span
  bound hb := by
    obtain ⟨⟨t, a, ha, hle⟩, t', a', ha', hle'⟩ := h.bound (hs.bound.trans hb)
    exact ⟨⟨t, a, (hs.attestation t).symm.trans ha, hle⟩,
      t', a', (hs.attestation t').symm.trans ha', hle'⟩

theorem RecordsOk.empty (p : BLSPubkey) : RecordsOk p Db.empty where
  slot h := by simp [Db.empty] at h
  target h := by simp [Db.empty] at h
  le h := by simp [Db.empty] at h
  spans _ := by
    convert SpansOk.empty p using 1
    simp [recordSpans, Db.empty]
  bound h := by simp [Db.empty] at h

/-! ## Writes -/

theorem RecordsOk.setBlocks (h : RecordsOk p db) (bs : List SlashingProtectionBlock) :
    RecordsOk p (db.setBlocks p bs) where
  slot {s b} hb := by
    rcases batchPut_get_cases db.blockBySlot (fun b => (p, b.slot)) id bs (p, s) with
      ⟨c, -, hcs, hget⟩ | ⟨-, hget⟩
    · cases hget.symm.trans hb
      exact (Prod.mk.inj hcs).2
    · exact h.slot (hget.symm.trans hb)
  target := h.target
  le := h.le
  spans hsafe := (h.spans hsafe).congr rfl
  bound := h.bound

theorem RecordsOk.setLowerBound {bound : SlashingProtectionLowerBound} (h : RecordsOk p db)
    (hbound :
      (∃ t a, db.attestationByTarget[((p, t) : Key)]? = some a ∧
        bound.minSourceEpoch ≤ a.sourceEpoch) ∧
      ∃ t a, db.attestationByTarget[((p, t) : Key)]? = some a ∧
        bound.minTargetEpoch ≤ a.targetEpoch) :
    RecordsOk p (db.setLowerBound p bound) where
  slot := h.slot
  target := h.target
  le := h.le
  spans hsafe := (h.spans hsafe).congr rfl
  bound {bound'} hb := by
    have hself : (db.setLowerBound p bound).attestationLowerBound[p]? = some bound :=
      Std.TreeMap.getElem?_insert_self
    cases hself.symm.trans hb
    exact hbound

theorem lowerBoundOf_mem {atts : List SlashingProtectionAttestation}
    {bound : SlashingProtectionLowerBound} (h : lowerBoundOf atts = some bound) :
    (∃ a ∈ atts, a.sourceEpoch = bound.minSourceEpoch) ∧
      ∃ a ∈ atts, a.targetEpoch = bound.minTargetEpoch := by
  unfold lowerBoundOf minEpoch at h
  obtain ⟨s, hs, h⟩ := Option.bind_eq_some_iff.1 h
  obtain ⟨t, ht, h⟩ := Option.bind_eq_some_iff.1 h
  cases h
  exact ⟨List.mem_map.1 (List.min?_mem hs), List.mem_map.1 (List.min?_mem ht)⟩

section

variable {atts : List SlashingProtectionAttestation}
  (hfile : ∀ a ∈ atts, ∀ b ∈ atts, a.targetEpoch = b.targetEpoch → a.sourceEpoch = b.sourceEpoch)
  (hrecorded : ∀ a ∈ atts, ∀ prev, db.attestationByTarget[((p, a.targetEpoch) : Key)]? = some prev →
    prev.sourceEpoch = a.sourceEpoch)

include hfile

/-- Each attestation of a batch whose sources agree is recorded, by its source and target. -/
theorem setAttestations_get_of_mem {a : SlashingProtectionAttestation} (ha : a ∈ atts) :
    ∃ b, (db.setAttestations p atts).attestationByTarget[((p, a.targetEpoch) : Key)]? = some b ∧
      b.targetEpoch = a.targetEpoch ∧ b.sourceEpoch = a.sourceEpoch := by
  rw [setAttestations_get]
  cases hl : lastAt atts a.targetEpoch with
  | none => exact (lastAt_eq_none hl a ha rfl).elim
  | some b =>
    obtain ⟨hb, hbt⟩ := lastAt_eq_some hl
    exact ⟨b, rfl, hbt, hfile b hb a ha hbt⟩

include hrecorded

/-- The spans of the records after a batch that writes over no attestation with another source. -/
theorem recordSpans_setAttestations
    (htarget : ∀ {t a}, db.attestationByTarget[((p, t) : Key)]? = some a → a.targetEpoch = t) :
    recordSpans p (db.setAttestations p atts) = recordSpans p db ∪ {b | ∃ a ∈ atts, a.span = b} := by
  have hspan : ∀ {a b : SlashingProtectionAttestation}, a.targetEpoch = b.targetEpoch →
      a.sourceEpoch = b.sourceEpoch → a.span = b.span := by
    intro a b ht hs
    simp [SlashingProtectionAttestation.span, hs, ht]
  ext x
  constructor
  · rintro ⟨t, a, ha, rfl⟩
    rw [setAttestations_get] at ha
    cases hl : lastAt atts t with
    | none =>
      rw [hl] at ha
      exact .inl ⟨t, a, ha, rfl⟩
    | some b =>
      rw [hl] at ha
      obtain rfl := Option.some.inj ha
      exact .inr ⟨b, (lastAt_eq_some hl).1, rfl⟩
  · rintro (⟨t, a, ha, rfl⟩ | ⟨a, ha, rfl⟩)
    · cases hl : lastAt atts t with
      | none => exact ⟨t, a, by rw [setAttestations_get, hl]; exact ha, rfl⟩
      | some b =>
        obtain ⟨hb, hbt⟩ := lastAt_eq_some hl
        refine ⟨t, b, by rw [setAttestations_get, hl]; rfl, ?_⟩
        have hat := htarget ha
        exact hspan (hbt.trans hat.symm) (hrecorded b hb a (hbt ▸ ha)).symm
    · obtain ⟨b, hb, hbt, hbs⟩ := setAttestations_get_of_mem (p := p) hfile ha
      exact ⟨_, b, hb, hspan hbt hbs⟩

theorem RecordsOk.insert {db₁ : Db} (h : RecordsOk p db)
    (hle : ∀ a ∈ atts, a.sourceEpoch ≤ a.targetEpoch)
    (hrun : (insertSpans p atts).run (act ssz) (db.setAttestations p atts) = (.ok (), db₁)) :
    RecordsOk p db₁ := by
  obtain ⟨r, span', hspans⟩ := run_insertSpans ssz (db.setAttestations p atts) p atts
  have hdb₁ : db₁ = { db.setAttestations p atts with span := span' } :=
    (Prod.mk.inj (hrun.symm.trans hspans)).2
  have hget : ∀ {t}, db₁.attestationByTarget[((p, t) : Key)]? =
      (lastAt atts t).or db.attestationByTarget[((p, t) : Key)]? := by
    intro t
    rw [hdb₁]
    exact setAttestations_get atts t
  have hcases : ∀ {t a}, db₁.attestationByTarget[((p, t) : Key)]? = some a →
      (a ∈ atts ∧ a.targetEpoch = t) ∨ db.attestationByTarget[((p, t) : Key)]? = some a := by
    intro t a ha
    rw [hget] at ha
    cases hl : lastAt atts t with
    | none => rw [hl] at ha; exact .inr ha
    | some b => rw [hl] at ha; cases ha; exact .inl (lastAt_eq_some hl)
  -- what was recorded at a target still is, by its source and target
  have hkept : ∀ {t a}, db.attestationByTarget[((p, t) : Key)]? = some a →
      ∃ b, db₁.attestationByTarget[((p, t) : Key)]? = some b ∧ b.sourceEpoch = a.sourceEpoch ∧
        b.targetEpoch = a.targetEpoch := by
    intro t a ha
    rw [hget]
    cases hl : lastAt atts t with
    | none => exact ⟨a, ha, rfl, rfl⟩
    | some b =>
      obtain ⟨hb, hbt⟩ := lastAt_eq_some hl
      exact ⟨b, rfl, (hrecorded b hb a (hbt ▸ ha)).symm, hbt.trans (h.target ha).symm⟩
  refine ⟨?_, ?_, ?_, fun hsafe => ?_, ?_⟩
  · rw [hdb₁]
    exact h.slot
  · intro t a ha
    exact (hcases ha).elim (·.2) h.target
  · intro t a ha
    exact (hcases ha).elim (fun hm => hle a hm.1) h.le
  · have hold : TargetsSafe p db := by
      intro t a ha
      obtain ⟨b, hb, -⟩ := hkept ha
      exact hsafe t b hb
    have hordered : ∀ a ∈ atts, a.Ordered := by
      intro a ha
      obtain ⟨b, hb, -⟩ := setAttestations_get_of_mem (p := p) hfile ha
      refine ⟨hle a ha, (hsafe a.targetEpoch b ?_).le⟩
      rw [hdb₁]
      exact hb
    have hset : SpansOk (recordSpans p db) (db.setAttestations p atts) p := (h.spans hold).congr rfl
    have hrecords : recordSpans p db₁ = recordSpans p (db.setAttestations p atts) := by
      rw [hdb₁]
      rfl
    rw [hrecords, recordSpans_setAttestations hfile hrecorded h.target]
    exact hset.insertSpans hordered hrun
  · intro bound hb
    rw [hdb₁] at hb
    obtain ⟨⟨t, a, ha, hle⟩, t', a', ha', hle'⟩ := h.bound hb
    obtain ⟨b, hb, hbs, -⟩ := hkept ha
    obtain ⟨b', hb', -, hbt'⟩ := hkept ha'
    exact ⟨⟨t, b, hb, hbs ▸ hle⟩, t', b', hb', hbt' ▸ hle'⟩

/-! ## Calls keep it -/

theorem RecordsOk.importAttestations (h : RecordsOk p db)
    (hle : ∀ a ∈ atts, a.sourceEpoch ≤ a.targetEpoch)
    (hrun : (importAttestations p atts).run (act ssz) db = (.ok (), db')) :
    RecordsOk p db' := by
  obtain ⟨r, span', hspans, himport⟩ := run_importAttestations ssz db p atts
  obtain ⟨rfl, rfl⟩ := Prod.mk.inj (himport.symm.trans hrun)
  have hok := h.insert hfile hrecorded hle hspans
  cases hbound : lowerBoundOf atts with
  | none => exact hok
  | some bound =>
    obtain ⟨⟨a, ha, has⟩, b, hb, hbt⟩ := lowerBoundOf_mem hbound
    obtain ⟨a', ha', -, has'⟩ := setAttestations_get_of_mem (p := p) hfile ha
    obtain ⟨b', hb', hbt', -⟩ := setAttestations_get_of_mem (p := p) hfile hb
    exact hok.setLowerBound ⟨⟨_, a', ha', by omega⟩, _, b', hb', by omega⟩

end

theorem RecordsOk.sign (h : ∀ p, RecordsOk p db) (m : Message) (p : BLSPubkey) :
    RecordsOk p (m.prog.run (act ssz) db).2 := by
  by_cases hp : m.pubkey = p
  · subst hp
    cases m with
    | proposal p b =>
      show RecordsOk p ((checkAndInsertBlockProposal p b).run (act ssz) db).2
      rcases run_checkAndInsertBlockProposal ssz db p b with ⟨e, hrun, -⟩ | ⟨hrun, -⟩ | ⟨hrun, -⟩
      · rw [hrun]; exact h p
      · rw [hrun]; exact h p
      · rw [hrun]; exact (h p).setBlocks [b]
    | attestation p a =>
      show RecordsOk p ((checkAndInsertAttestation p a).run (act ssz) db).2
      rcases run_checkAndInsertAttestation ssz db p a with
        ⟨e, hrun, -⟩ | ⟨hrun, -⟩ | ⟨hrun, hclear⟩
      · rw [hrun]; exact h p
      · rw [hrun]; exact h p
      · rw [hrun]
        -- a clear attestation is inserted
        have hinserted : (insertSpans p [a]).run (act ssz) (db.setAttestations p [a]) =
            (.ok (), (db.setAttestations p [a]).insertSpan ssz p a) := by
          have hins := run_minMaxSurround_insertAttestation ssz (db.setAttestations p [a]) p a
          rcases hins with ⟨e, span', -, hnot⟩ | ⟨hins, -⟩
          · exact (hnot ⟨hclear.notSurrounding, hclear.notSurrounded⟩).elim
          · unfold insertSpans
            rw [Prog.run_bind_ok hins]
            rfl
        refine (h p).insert ?_ ?_ ?_ hinserted
        · simp
        · simp [hclear.unused]
        · simpa using hclear.le
  · exact (h p).congr (SameEntries.run_other ssz db m.own hp)

/-! ## Imports that go through -/

theorem mapM_record?_eq_some {blocks : List InterchangeBlock} {bs : List SlashingProtectionBlock}
    (h : blocks.mapM InterchangeBlock.record? = some bs) :
    blocks = bs.map SlashingProtectionBlock.toInterchange := by
  induction blocks generalizing bs with
  | nil => cases h; rfl
  | cons block blocks ih =>
    rw [List.mapM_cons] at h
    obtain ⟨b, hb, h⟩ := Option.bind_eq_some_iff.1 h
    obtain ⟨bs', hbs, h⟩ := Option.bind_eq_some_iff.1 h
    cases h
    obtain ⟨slot, root⟩ := block
    cases slot with
    | none => cases hb
    | some s =>
      cases hb
      rw [List.map_cons, ← ih hbs]
      rfl

theorem run_insertSignedSpans_ok {attestations : List InterchangeAttestation}
    (h : (insertSignedSpans p attestations).run (act ssz) db = (.ok (), db')) :
    ∃ atts : List SlashingProtectionAttestation,
      attestations = atts.map SlashingProtectionAttestation.toInterchange := by
  induction attestations generalizing db with
  | nil => exact ⟨[], rfl⟩
  | cons a attestations ih =>
    unfold insertSignedSpans at h
    cases hrec : a.record? none with
    | none => rw [hrec] at h; cases h
    | some att =>
      rw [hrec, Prog.run_bind] at h
      cases hins : ((MinMaxSurround.insertAttestation none p att).mapError
          TransferError.service).run (act ssz) db with
      | mk r db₁ =>
        rw [hins] at h
        cases r with
        | error e => cases h
        | ok u =>
          obtain ⟨atts, rfl⟩ := ih h
          exact ⟨att :: atts, by rw [record?_none_eq_some hrec]; rfl⟩

theorem exists_records_of_import {attestations : List InterchangeAttestation}
    (h : (importSignedAttestations nan p attestations).run (act ssz) db = (.ok (), db')) :
    ∃ atts : List SlashingProtectionAttestation,
      attestations = atts.map SlashingProtectionAttestation.toInterchange := by
  unfold importSignedAttestations at h
  cases hatts : attestations.mapM (InterchangeAttestation.record? nan) with
  | none => rw [hatts] at h; cases h
  | some atts =>
    rw [hatts, Prog.run_bind, Prog.run_mapError] at h
    change ((insertSignedSpans p attestations) >>= _).run (act ssz) (db.setAttestations p atts) = _
      at h
    rw [Prog.run_bind] at h
    cases hspans : (insertSignedSpans p attestations).run (act ssz) (db.setAttestations p atts) with
    | mk r db₁ =>
      rw [hspans] at h
      cases r with
      | error e => cases h
      | ok u => exact run_insertSignedSpans_ok hspans

/-- An entry whose import goes through is made of records, and its import is that of these. -/
theorem run_importValidator_ok {v : InterchangeValidator}
    (h : (importValidator nan v).run (act ssz) db = (.ok (), db')) :
    ∃ bs atts, v.signedBlocks = bs.map SlashingProtectionBlock.toInterchange ∧
      v.signedAttestations = atts.map SlashingProtectionAttestation.toInterchange ∧
      (importAttestations v.pubkey atts).run (act ssz) (db.setBlocks v.pubkey bs) = (.ok (), db') := by
  unfold importValidator importSignedBlocks at h
  cases hblocks : v.signedBlocks.mapM InterchangeBlock.record? with
  | none => rw [hblocks] at h; cases h
  | some bs =>
    rw [hblocks, Prog.run_bind, Prog.run_mapError] at h
    change (importSignedAttestations nan v.pubkey v.signedAttestations).run (act ssz)
      (db.setBlocks v.pubkey bs) = _ at h
    obtain ⟨atts, hatts⟩ := exists_records_of_import h
    rw [hatts, importSignedAttestations_toInterchange, Prog.run_mapError] at h
    refine ⟨bs, atts, mapM_record?_eq_some hblocks, hatts, ?_⟩
    cases hrun : (importAttestations v.pubkey atts).run (act ssz) (db.setBlocks v.pubkey bs) with
    | mk r db₁ =>
      rw [hrun] at h
      cases r with
      | error e => cases h
      | ok u => cases h; rfl

/-! ## Runs -/

theorem OneSource.rest {v : InterchangeValidator} {data : List InterchangeValidator} {db₁ : Db}
    (h : OneSource db (v :: data)) {atts : List SlashingProtectionAttestation}
    (hatts : v.signedAttestations = atts.map SlashingProtectionAttestation.toInterchange)
    (hget : ∀ q t, db₁.attestationByTarget[((q, t) : Key)]? =
      (if q = v.pubkey then lastAt atts t else none).or
        db.attestationByTarget[((q, t) : Key)]?) :
    OneSource db₁ data where
  le w hw := h.le w (List.mem_cons_of_mem _ hw)
  recorded w hw a ha prev hprev := by
    rw [hget] at hprev
    by_cases hq : w.pubkey = v.pubkey
    · rw [if_pos hq] at hprev
      cases hl : lastAt atts a.targetEpoch with
      | none =>
        rw [hl] at hprev
        exact h.recorded w (List.mem_cons_of_mem _ hw) a ha prev hprev
      | some b =>
        rw [hl] at hprev
        obtain rfl := Option.some.inj hprev
        obtain ⟨hb, hbt⟩ := lastAt_eq_some hl
        have hmem : b.toInterchange ∈ v.signedAttestations := hatts ▸ List.mem_map_of_mem hb
        exact h.file v List.mem_cons_self w (List.mem_cons_of_mem _ hw) hq.symm b a hmem ha hbt
    · rw [if_neg hq] at hprev
      exact h.recorded w (List.mem_cons_of_mem _ hw) a ha prev hprev
  file w hw w' hw' := h.file w (List.mem_cons_of_mem _ hw) w' (List.mem_cons_of_mem _ hw')

theorem attestation_importAttestations {atts : List SlashingProtectionAttestation} {r}
    (hrun : (importAttestations p atts).run (act ssz) db = (r, db')) (q : BLSPubkey) (t : Nat) :
    db'.attestationByTarget[((q, t) : Key)]? =
      (if q = p then lastAt atts t else none).or db.attestationByTarget[((q, t) : Key)]? := by
  obtain ⟨r', span', -, himport⟩ := run_importAttestations ssz db p atts
  have hset : db'.attestationByTarget = (db.setAttestations p atts).attestationByTarget := by
    obtain ⟨rfl, rfl⟩ := Prod.mk.inj (himport.symm.trans hrun)
    cases r' with
    | error e => rfl
    | ok u => cases lowerBoundOf atts <;> rfl
  rw [hset]
  by_cases hq : q = p
  · rw [if_pos hq, hq]
    exact setAttestations_get atts t
  · rw [if_neg hq]
    exact batchPut_get_of_notMem fun b _ he => hq (Prod.mk.inj he).1.symm

theorem RecordsOk.importValidators {data : List InterchangeValidator}
    (h : ∀ p, RecordsOk p db) (hone : OneSource db data)
    (hrun : (importValidators nan data).run (act ssz) db = (.ok (), db')) :
    ∀ p, RecordsOk p db' := by
  induction data generalizing db with
  | nil => cases hrun; exact h
  | cons v data ih =>
    unfold SlashingProtection.importValidators at hrun
    rw [Prog.run_bind] at hrun
    cases hv : (importValidator nan v).run (act ssz) db with
    | mk r db₁ =>
      rw [hv] at hrun
      cases r with
      | error e => cases hrun
      | ok u =>
        obtain ⟨bs, atts, -, hatts, himport⟩ := run_importValidator_ok hv
        have hmem : ∀ {a}, a ∈ atts → a.toInterchange ∈ v.signedAttestations := fun ha =>
          hatts ▸ List.mem_map_of_mem ha
        have hget := attestation_importAttestations himport
        refine ih (fun p => ?_) (hone.rest hatts hget) hrun
        by_cases hp : v.pubkey = p
        · subst hp
          refine ((h v.pubkey).setBlocks bs).importAttestations ?_ ?_ ?_ himport
          · intro a ha b hb
            exact hone.file v List.mem_cons_self v List.mem_cons_self rfl a b (hmem ha) (hmem hb)
          · intro a ha
            exact hone.recorded v List.mem_cons_self a (hmem ha)
          · intro a ha
            exact hone.le v List.mem_cons_self a (hmem ha)
        · have hsame := SameEntries.run_other ssz db (own_importValidator nan v) hp
          rw [hv] at hsame
          exact (h p).congr hsame

theorem RecordsOk.step (h : ∀ p, RecordsOk p db) (hstep : KeepsStep ssz hex nan db db') :
    ∀ p, RecordsOk p db' := by
  obtain ⟨r, hkeeps, rfl⟩ := hstep
  cases r with
  | sign m => exact RecordsOk.sign h m
  | importInterchange interchange genesisValidatorsRoot =>
    obtain ⟨hok, hone⟩ := hkeeps
    show ∀ p, RecordsOk p ((SlashingProtection.importInterchange hex nan interchange
      genesisValidatorsRoot).run (act ssz) db).2
    unfold importInterchange at hok ⊢
    cases hparse : parseInterchange hex interchange genesisValidatorsRoot with
    | error e => rw [hparse] at hok; cases hok
    | ok x =>
      rw [hparse] at hok
      exact RecordsOk.importValidators h (hone x hparse) (Prod.ext hok rfl)

theorem RecordsOk.reachable (hrun : Relation.ReflTransGen (KeepsStep ssz hex nan) Db.empty db) :
    ∀ p, RecordsOk p db := by
  induction hrun with
  | refl => exact RecordsOk.empty
  | tail _ hstep ih => exact RecordsOk.step ih hstep

end Lodestar.SlashingProtection
