import Lodestar.SlashingProtection.Interchange
import Lodestar.SlashingProtection.Service

/-!
# Import and export

`SlashingProtection` of `index.ts`: an import goes through the validators of
the file one after the other, its blocks first, then its attestations; an
export reads the records of the public keys it is given. Writes are not undone
when a later step throws.
-/

namespace Lodestar.SlashingProtection

open Lodestar.Base

/-- The async functions of `SlashingProtection` that read or write a file. -/
abbrev TransferAsync (α : Type) := Prog DbOp DbOp.Resp TransferError α

/-- The record of a block, when its slot gives a key. -/
def InterchangeBlock.record? (block : InterchangeBlock) : Option SlashingProtectionBlock := do
  return ⟨← block.slot, block.signingRoot⟩

/-- The record of an attestation, when its target gives a key. `nan` is what `ssz.Epoch` stores for
a source that is no number, if it does not throw. -/
def InterchangeAttestation.record? (nan : Option Nat) (att : InterchangeAttestation) :
    Option SlashingProtectionAttestation := do
  return ⟨← att.sourceEpoch.or nan, ← att.targetEpoch, att.signingRoot⟩

def SlashingProtectionBlock.toInterchange (block : SlashingProtectionBlock) : InterchangeBlock :=
  ⟨some block.slot, block.signingRoot⟩

def SlashingProtectionAttestation.toInterchange (att : SlashingProtectionAttestation) :
    InterchangeAttestation :=
  ⟨some att.sourceEpoch, some att.targetEpoch, att.signingRoot⟩

/-! ## Import -/

/-- `importBlocks` of a file's blocks: the keys and values of the batch are made before it is
written. -/
def importSignedBlocks (pubkey : BLSPubkey) (blocks : List InterchangeBlock) : TransferAsync Unit :=
  match blocks.mapM InterchangeBlock.record? with
  | some blocks => (importBlocks pubkey blocks).mapError .service
  | none => throw .notANumber

/-- The loop of `importAttestations` over a file's attestations. -/
def insertSignedSpans (pubkey : BLSPubkey) : List InterchangeAttestation → TransferAsync Unit
  | [] => pure ()
  | attestation :: attestations => do
    match attestation.record? none with
    | some att => (MinMaxSurround.insertAttestation none pubkey att).mapError .service
    | none => throw .notANumber
    insertSignedSpans pubkey attestations

/-- `importAttestations` of a file's attestations. -/
def importSignedAttestations (nan : Option Nat) (pubkey : BLSPubkey)
    (attestations : List InterchangeAttestation) : TransferAsync Unit := do
  match attestations.mapM (InterchangeAttestation.record? nan) with
  | some atts => (AttestationByTargetRepository.set pubkey atts).mapError .service
  | none => throw .notANumber
  insertSignedSpans pubkey attestations
  if let some bound := (attestations.mapM (InterchangeAttestation.record? none)).bind lowerBoundOf then
    (AttestationLowerBoundRepository.set pubkey bound).mapError .service

/-- The body of the loop of `importInterchange`. -/
def importValidator (nan : Option Nat) (validator : InterchangeValidator) : TransferAsync Unit := do
  importSignedBlocks validator.pubkey validator.signedBlocks
  importSignedAttestations nan validator.pubkey validator.signedAttestations

def importValidators (nan : Option Nat) : List InterchangeValidator → TransferAsync Unit
  | [] => pure ()
  | validator :: data => do
    importValidator nan validator
    importValidators nan data

def importInterchange (hex : HexStrings) (nan : Option Nat) (interchange : Interchange)
    (genesisValidatorsRoot : Root) : TransferAsync Unit :=
  match parseInterchange hex interchange genesisValidatorsRoot with
  | .ok x => importValidators nan x.data
  | .error e => throw e

/-! ## Export -/

/-- The entry of one public key. -/
def exportValidator (pubkey : BLSPubkey) : TransferAsync InterchangeValidator := do
  let signedBlocks ← (exportBlocks pubkey).mapError .service
  let signedAttestations ← (exportAttestations pubkey).mapError .service
  return {
    pubkey
    signedBlocks := signedBlocks.map SlashingProtectionBlock.toInterchange
    signedAttestations := signedAttestations.map SlashingProtectionAttestation.toInterchange }

def exportValidators : List BLSPubkey → TransferAsync (List InterchangeValidator)
  | [] => pure []
  | pubkey :: pubkeys => do
    let validator ← exportValidator pubkey
    let validatorData ← exportValidators pubkeys
    return validator :: validatorData

def exportInterchange (hex : HexStrings) (genesisValidatorsRoot : Root) (pubkeys : List BLSPubkey)
    (formatVersion : InterchangeFormatVersion) : TransferAsync Interchange := do
  let data ← exportValidators pubkeys
  match serializeInterchange hex ⟨genesisValidatorsRoot, data⟩ formatVersion with
  | .ok interchange => return interchange
  | .error e => throw e

/-- Keeps the first of equal ones. -/
def uniqueVectorArr (buffers : List BLSPubkey) : List BLSPubkey := buffers.eraseDups

/-- The public keys in the keys of the whole store: the scan has no range, so it runs over all
buckets, in their order. -/
def Db.scanPubkeys (db : Db) : List BLSPubkey :=
  db.blockBySlot.keys.map (·.1) ++ db.attestationByTarget.keys.map (·.1) ++
    db.attestationLowerBound.keys ++ (db.span .minSpan).keys.map (·.1) ++
    (db.span .maxSpan).keys.map (·.1)

def listPubkeys (db : Db) : List BLSPubkey :=
  let pubkeysAtt := uniqueVectorArr db.scanPubkeys
  let pubkeysBlk := uniqueVectorArr db.scanPubkeys
  uniqueVectorArr (pubkeysAtt ++ pubkeysBlk)

/-! ## Records of a file that is made of records -/

theorem record?_none_eq_some {a : InterchangeAttestation} {att : SlashingProtectionAttestation}
    (h : a.record? none = some att) : a = att.toInterchange := by
  obtain ⟨source, target, root⟩ := a
  cases source with
  | none => cases h
  | some s =>
    cases target with
    | none => cases h
    | some t => cases h; rfl

theorem mapM_record?_blocks (blocks : List SlashingProtectionBlock) :
    (blocks.map SlashingProtectionBlock.toInterchange).mapM InterchangeBlock.record? =
      some blocks := by
  induction blocks with
  | nil => rfl
  | cons block blocks ih => rw [List.map_cons, List.mapM_cons, ih]; rfl

theorem mapM_record?_attestations (nan : Option Nat) (atts : List SlashingProtectionAttestation) :
    (atts.map SlashingProtectionAttestation.toInterchange).mapM
      (InterchangeAttestation.record? nan) = some atts := by
  induction atts with
  | nil => rfl
  | cons att atts ih => rw [List.map_cons, List.mapM_cons, ih]; rfl

variable {pubkey : BLSPubkey}

theorem importSignedBlocks_toInterchange (blocks : List SlashingProtectionBlock) :
    importSignedBlocks pubkey (blocks.map SlashingProtectionBlock.toInterchange) =
      (importBlocks pubkey blocks).mapError .service := by
  unfold importSignedBlocks
  rw [mapM_record?_blocks]

theorem insertSignedSpans_toInterchange (atts : List SlashingProtectionAttestation) :
    insertSignedSpans pubkey (atts.map SlashingProtectionAttestation.toInterchange) =
      (insertSpans pubkey atts).mapError .service := by
  induction atts with
  | nil => rfl
  | cons a atts ih =>
    have hrecord : a.toInterchange.record? none = some a := rfl
    rw [List.map_cons]
    unfold insertSignedSpans insertSpans
    rw [hrecord, ih, Prog.mapError_bind]

theorem importSignedAttestations_toInterchange (nan : Option Nat)
    (atts : List SlashingProtectionAttestation) :
    importSignedAttestations nan pubkey (atts.map SlashingProtectionAttestation.toInterchange) =
      (importAttestations pubkey atts).mapError .service := by
  unfold importSignedAttestations importAttestations
  rw [mapM_record?_attestations, mapM_record?_attestations, insertSignedSpans_toInterchange,
    Prog.mapError_bind]
  simp only [Prog.mapError_bind, Option.bind_some]
  cases lowerBoundOf atts <;> rfl

end Lodestar.SlashingProtection
