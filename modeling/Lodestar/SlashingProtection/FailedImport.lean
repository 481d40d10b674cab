import Lodestar.SlashingProtection.Entries
import Lodestar.SlashingProtection.Spans

/-!
# Imports that throw

Nothing is written before the whole file is parsed. After that an import goes
through the validators one after the other and undoes nothing: when it throws,
those before the failing one are imported, those after it are not, and of the
failing one there is what was written until then (`Stopped`).
-/

namespace Lodestar.SlashingProtection

open Lodestar.Base

/-- The span update of `a` throws on `db` and leaves `db'`. -/
inductive Refuses (ssz : SszEpoch) (p : BLSPubkey) (db : Db) (a : InterchangeAttestation) :
    Db → Prop where
  | notANumber : a.record? none = none → Refuses ssz p db a db
  | surrounding (att : SlashingProtectionAttestation) : a.record? none = some att →
      surrounding (db.spanAt .minSpan p att.sourceEpoch) att = true → Refuses ssz p db a db
  /-- The min span is written before the max span is looked at. -/
  | surrounded (att : SlashingProtectionAttestation) : a.record? none = some att →
      SlashingProtection.surrounding (db.spanAt .minSpan p att.sourceEpoch) att = false →
      SlashingProtection.surrounded (db.spanAt .maxSpan p att.sourceEpoch) att = true →
      Refuses ssz p db a (db.setSpans ssz .minSpan p (minValues (db.spanAt .minSpan p) att))

/-- What the import of one entry leaves on `db` when it throws. -/
inductive Stopped (ssz : SszEpoch) (nan : Option Nat) (db : Db) (v : InterchangeValidator) :
    Db → Prop where
  /-- A slot is no number. -/
  | atBlocks : v.signedBlocks.mapM InterchangeBlock.record? = none → Stopped ssz nan db v db
  /-- A target epoch is no number. -/
  | atAttestations (blocks : List SlashingProtectionBlock) :
      v.signedBlocks.mapM InterchangeBlock.record? = some blocks →
      v.signedAttestations.mapM (InterchangeAttestation.record? nan) = none →
      Stopped ssz nan db v (db.setBlocks v.pubkey blocks)
  /-- A span update throws: all records are there, the spans have the attestations before. -/
  | atSpans (blocks : List SlashingProtectionBlock) (atts before : List SlashingProtectionAttestation)
      (a : InterchangeAttestation) (after : List InterchangeAttestation) (db₁ db₂ : Db) :
      v.signedBlocks.mapM InterchangeBlock.record? = some blocks →
      v.signedAttestations.mapM (InterchangeAttestation.record? nan) = some atts →
      v.signedAttestations = before.map SlashingProtectionAttestation.toInterchange ++ a :: after →
      (insertSpans v.pubkey before).run (act ssz)
        ((db.setBlocks v.pubkey blocks).setAttestations v.pubkey atts) = (.ok (), db₁) →
      Refuses ssz v.pubkey db₁ a db₂ → Stopped ssz nan db v db₂

variable {ssz : SszEpoch} {nan : Option Nat} {p : BLSPubkey} {db db' : Db} {e : TransferError}

/-! ## Where an import stops -/

variable (ssz p) in
theorem run_insertAttestation_cases (db : Db) (att : SlashingProtectionAttestation) :
    (MinMaxSurround.insertAttestation none p att).run (act ssz) db =
        (.ok (), db.insertSpan ssz p att) ∨
      ∃ e db', (MinMaxSurround.insertAttestation none p att).run (act ssz) db = (.error e, db') ∧
        Refuses ssz p db att.toInterchange db' := by
  unfold MinMaxSurround.insertAttestation
  rw [Prog.run_bind, run_updateMinSpan]
  cases hs : surrounding (db.spanAt .minSpan p att.sourceEpoch) att with
  | true => exact .inr ⟨_, _, rfl, .surrounding att rfl hs⟩
  | false =>
    simp only [Bool.false_eq_true, if_false]
    rw [run_updateMaxSpan, spanAt_setSpans_ne (by decide)]
    cases hs' : surrounded (db.spanAt .maxSpan p att.sourceEpoch) att with
    | true => exact .inr ⟨_, _, rfl, .surrounded att rfl hs hs'⟩
    | false => exact .inl rfl

theorem run_insertSignedSpans_error {attestations : List InterchangeAttestation}
    (h : (insertSignedSpans p attestations).run (act ssz) db = (.error e, db')) :
    ∃ before a after db₁,
      attestations = before.map SlashingProtectionAttestation.toInterchange ++ a :: after ∧
        (insertSpans p before).run (act ssz) db = (.ok (), db₁) ∧ Refuses ssz p db₁ a db' := by
  induction attestations generalizing db with
  | nil => cases h
  | cons a attestations ih =>
    unfold insertSignedSpans at h
    cases hrec : a.record? none with
    | none =>
      rw [hrec] at h
      cases h
      exact ⟨[], a, attestations, db', rfl, rfl, .notANumber hrec⟩
    | some att =>
      rw [hrec, Prog.run_bind, Prog.run_mapError] at h
      obtain rfl := record?_none_eq_some hrec
      rcases run_insertAttestation_cases ssz p db att with
        hok | ⟨e', db₁, herr, hrefuses⟩
      · rw [hok] at h
        obtain ⟨before, b, after, db₁, rfl, hrun, hrefuses⟩ := ih h
        refine ⟨att :: before, b, after, db₁, rfl, ?_, hrefuses⟩
        unfold insertSpans
        rw [Prog.run_bind_ok hok]
        exact hrun
      · rw [herr] at h
        cases h
        exact ⟨[], _, attestations, db, rfl, rfl, hrefuses⟩

theorem run_importValidator_error {v : InterchangeValidator}
    (h : (importValidator nan v).run (act ssz) db = (.error e, db')) : Stopped ssz nan db v db' := by
  unfold importValidator importSignedBlocks at h
  cases hblocks : v.signedBlocks.mapM InterchangeBlock.record? with
  | none =>
    rw [hblocks] at h
    cases h
    exact .atBlocks hblocks
  | some blocks =>
    rw [hblocks, Prog.run_bind, Prog.run_mapError] at h
    change (importSignedAttestations nan v.pubkey v.signedAttestations).run (act ssz)
      (db.setBlocks v.pubkey blocks) = _ at h
    unfold importSignedAttestations at h
    cases hatts : v.signedAttestations.mapM (InterchangeAttestation.record? nan) with
    | none =>
      rw [hatts] at h
      cases h
      exact .atAttestations blocks hblocks hatts
    | some atts =>
      rw [hatts, Prog.run_bind, Prog.run_mapError] at h
      change ((insertSignedSpans v.pubkey v.signedAttestations) >>= _).run (act ssz)
        ((db.setBlocks v.pubkey blocks).setAttestations v.pubkey atts) = _ at h
      rw [Prog.run_bind] at h
      cases hspans : (insertSignedSpans v.pubkey v.signedAttestations).run (act ssz)
          ((db.setBlocks v.pubkey blocks).setAttestations v.pubkey atts) with
      | mk r db₁ =>
        rw [hspans] at h
        cases r with
        | error e' =>
          cases h
          obtain ⟨before, a, after, db₂, hlist, hrun, hrefuses⟩ := run_insertSignedSpans_error hspans
          exact .atSpans blocks atts before a after db₂ _ hblocks hatts hlist hrun hrefuses
        | ok u =>
          -- storing the bound does not throw
          dsimp only at h
          cases hbound :
              (v.signedAttestations.mapM (InterchangeAttestation.record? none)).bind lowerBoundOf with
          | none => rw [hbound] at h; cases h
          | some bound => rw [hbound] at h; cases h

theorem run_importValidators_error {data : List InterchangeValidator}
    (h : (importValidators nan data).run (act ssz) db = (.error e, db')) :
    ∃ done v rest db₁, data = done ++ v :: rest ∧
      (importValidators nan done).run (act ssz) db = (.ok (), db₁) ∧
      (importValidator nan v).run (act ssz) db₁ = (.error e, db') := by
  induction data generalizing db with
  | nil => cases h
  | cons v data ih =>
    unfold importValidators at h
    rw [Prog.run_bind] at h
    cases hv : (importValidator nan v).run (act ssz) db with
    | mk r db₁ =>
      rw [hv] at h
      cases r with
      | error e' =>
        cases h
        exact ⟨[], v, data, db, rfl, rfl, hv⟩
      | ok u =>
        obtain ⟨done, w, rest, db₂, rfl, hdone, hstop⟩ := ih h
        refine ⟨v :: done, w, rest, db₂, rfl, ?_, hstop⟩
        unfold importValidators
        rw [Prog.run_bind_ok hv]
        exact hdone

/-! ## What it leaves -/

theorem Refuses.congr {a : InterchangeAttestation} (h : Refuses ssz p db a db') :
    db'.attestationLowerBound = db.attestationLowerBound := by
  cases h <;> rfl

theorem Stopped.lowerBound {v : InterchangeValidator} (h : Stopped ssz nan db v db') :
    db'.attestationLowerBound = db.attestationLowerBound := by
  cases h with
  | atBlocks => rfl
  | atAttestations => rfl
  | atSpans blocks atts before a after db₁ db₂ _ _ _ hrun hrefuses =>
    obtain ⟨r, span', hspans⟩ := run_insertSpans ssz
      ((db.setBlocks v.pubkey blocks).setAttestations v.pubkey atts) v.pubkey before
    rw [hspans] at hrun
    cases hrun
    exact hrefuses.congr

/-- A file that is refused by the parser changes nothing. Otherwise the import stopped at one
entry `v` of the file: the entries before it are imported, of `v` there are the records and the
spans up to where it stopped but no lower bound, and of the entries after it there is nothing. So
messages of other validators than `v`'s are judged as after an import of the entries before `v`
alone, and those of validators that are neither before `v` nor at it as before the import. -/
theorem importInterchange_throws {hex : HexStrings} {interchange : Interchange}
    {genesisValidatorsRoot : Root}
    (hrun : (importInterchange hex nan interchange genesisValidatorsRoot).run (act ssz) db =
      (.error e, db')) :
    (parseInterchange hex interchange genesisValidatorsRoot = .error e ∧ db' = db) ∨
    ∃ x done v rest db₁, parseInterchange hex interchange genesisValidatorsRoot = .ok x ∧
      x.data = done ++ v :: rest ∧
      (importValidators nan done).run (act ssz) db = (.ok (), db₁) ∧ Stopped ssz nan db₁ v db' ∧
      db'.attestationLowerBound = db₁.attestationLowerBound ∧
      (∀ ms : List Message, (∀ m ∈ ms, m.pubkey ≠ v.pubkey) →
        answers ssz db' ms = answers ssz db₁ ms) ∧
      ∀ ms : List Message, (∀ m ∈ ms, ∀ w ∈ done ++ [v], m.pubkey ≠ w.pubkey) →
        answers ssz db' ms = answers ssz db ms := by
  unfold importInterchange at hrun
  cases hparse : parseInterchange hex interchange genesisValidatorsRoot with
  | error e' =>
    rw [hparse] at hrun
    cases hrun
    exact .inl ⟨rfl, rfl⟩
  | ok x =>
    rw [hparse] at hrun
    obtain ⟨done, v, rest, db₁, hdata, hdone, hv⟩ := run_importValidators_error hrun
    have hstop := run_importValidator_error hv
    -- the failing entry touches its own public key alone
    have hown : ∀ {q}, q ≠ v.pubkey → SameEntries q db' db₁ := by
      intro q hq
      have hsame := SameEntries.run_other ssz db₁ (own_importValidator nan v) hq.symm
      rw [hv] at hsame
      exact hsame.symm
    have hbefore : ∀ {q}, (∀ w ∈ done, q ≠ w.pubkey) → SameEntries q db₁ db := by
      intro q hq
      have hsame := SameEntries.importValidators ssz db nan fun w hw => (hq w hw).symm
      rw [hdone] at hsame
      exact hsame.symm
    refine .inr ⟨x, done, v, rest, db₁, rfl, hdata, hdone, hstop, hstop.lowerBound, ?_, ?_⟩
    · intro ms hms
      exact answers_congr fun m hm => hown (hms m hm)
    · intro ms hms
      refine answers_congr fun m hm => ?_
      have hv := hms m hm v (List.mem_append_right _ List.mem_cons_self)
      exact (hown hv).trans (hbefore fun w hw => hms m hm w (List.mem_append_left _ hw))

/-! ## A file whose second attestation surrounds its first -/

/-- All records, spans and lower bounds of a file are in effect. -/
structure InEffect (db : Db) (data : List InterchangeValidator) : Prop where
  block : ∀ v ∈ data, ∀ b ∈ v.signedBlocks, ∀ record, b.record? = some record →
    (db.blockBySlot[((v.pubkey, record.slot) : Key)]?).isSome
  attestation : ∀ v ∈ data, ∀ a ∈ v.signedAttestations, ∀ record, a.record? none = some record →
    (db.attestationByTarget[((v.pubkey, record.targetEpoch) : Key)]?).isSome
  span : ∀ v ∈ data, ∀ a ∈ v.signedAttestations, ∀ record, a.record? none = some record →
    ∀ att : SlashingProtectionAttestation, att.sourceEpoch ≤ att.targetEpoch →
      (Contains att.span record.span →
        surrounding (db.spanAt .minSpan v.pubkey att.sourceEpoch) att = true) ∧
      (Contains record.span att.span →
        surrounded (db.spanAt .maxSpan v.pubkey att.sourceEpoch) att = true)
  bound : ∀ v ∈ data, v.signedAttestations ≠ [] → (db.attestationLowerBound[v.pubkey]?).isSome

/-- The import of the first entry throws at its second attestation. -/
def surroundingFile : IInterchangeLodestar where
  genesisValidatorsRoot := 0x42
  data := [⟨7, [⟨some 1, 0xaa⟩], [⟨some 2, some 3, 0xbb⟩, ⟨some 1, some 4, 0xcc⟩]⟩,
    ⟨8, [⟨some 5, 0xdd⟩], []⟩]

/-- What it leaves of an empty database. -/
def halfImported : Db :=
  ((importValidators (some 0) surroundingFile.data).run (act sszUint64) Db.empty).2

theorem run_surroundingFile :
    (importInterchange hexStrings (some 0) (serializeInterchangeV5 hexStrings surroundingFile)
        0x42).run (act sszUint64) Db.empty =
      (.error (.service (.surround .IS_SURROUNDING ⟨1, 4, 0xcc⟩ 3)), halfImported) := by
  have hparse : parseInterchange hexStrings (serializeInterchangeV5 hexStrings surroundingFile)
      0x42 = .ok surroundingFile :=
    parseInterchange_serializeInterchangeV5 hexStrings surroundingFile
  unfold importInterchange
  rw [hparse]
  refine Prod.ext ?_ rfl
  decide +kernel

theorem importInterchange_throws_surroundingFile :
    (parseInterchange hexStrings (serializeInterchangeV5 hexStrings surroundingFile) 0x42 =
        .error (.service (.surround .IS_SURROUNDING ⟨1, 4, 0xcc⟩ 3)) ∧ halfImported = Db.empty) ∨
    ∃ x done v rest db₁, parseInterchange hexStrings
        (serializeInterchangeV5 hexStrings surroundingFile) 0x42 = .ok x ∧
      x.data = done ++ v :: rest ∧
      (importValidators (some 0) done).run (act sszUint64) Db.empty = (.ok (), db₁) ∧
      Stopped sszUint64 (some 0) db₁ v halfImported ∧
      halfImported.attestationLowerBound = db₁.attestationLowerBound ∧
      (∀ ms : List Message, (∀ m ∈ ms, m.pubkey ≠ v.pubkey) →
        answers sszUint64 halfImported ms = answers sszUint64 db₁ ms) ∧
      ∀ ms : List Message, (∀ m ∈ ms, ∀ w ∈ done ++ [v], m.pubkey ≠ w.pubkey) →
        answers sszUint64 halfImported ms = answers sszUint64 Db.empty ms :=
  importInterchange_throws run_surroundingFile

/-- Neither all of the file is in effect, the second validator's block is not, nor none of it: the
first validator's block is. -/
theorem not_allOrNone_surroundingFile :
    ¬ ∀ (db db' : Db) (interchange : Interchange) (genesisValidatorsRoot : Root)
        (e : TransferError),
      (importInterchange hexStrings (some 0) interchange genesisValidatorsRoot).run (act sszUint64)
        db = (.error e, db') →
      (∃ x, parseInterchange hexStrings interchange genesisValidatorsRoot = .ok x ∧
        InEffect db' x.data) ∨
      ∀ ms, answers sszUint64 db' ms = answers sszUint64 db ms := by
  intro h
  rcases h _ _ _ _ _ run_surroundingFile with ⟨x, hparse, hall⟩ | hnone
  · obtain rfl : surroundingFile = x :=
      Except.ok.inj ((parseInterchange_serializeInterchangeV5 hexStrings surroundingFile).symm.trans
        hparse)
    have hmissing : (halfImported.blockBySlot[((8, 5) : Key)]?).isSome = false := by decide +kernel
    have hpresent := hall.block ⟨8, [⟨some 5, 0xdd⟩], []⟩ (by decide) ⟨some 5, 0xdd⟩ (by decide)
      ⟨5, 0xdd⟩ rfl
    rw [hmissing] at hpresent
    cases hpresent
  · have hrefused : answers sszUint64 halfImported [.proposal 7 ⟨1, 0xee⟩] = [false] := by
      decide +kernel
    have haccepted : answers sszUint64 Db.empty [.proposal 7 ⟨1, 0xee⟩] = [true] := by
      decide +kernel
    have heq := hnone [.proposal 7 ⟨1, 0xee⟩]
    rw [hrefused, haccepted] at heq
    cases heq

end Lodestar.SlashingProtection
