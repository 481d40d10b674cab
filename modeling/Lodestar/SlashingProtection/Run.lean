import Mathlib.Logic.Relation
import Lodestar.SlashingProtection.Spec

/-!
# Runs of one validator's calls

The calls for one public key, one after the other. A `World` is the database
with what has been recorded so far: attestations and blocks that were
accepted or imported, and the files whose import went through.
-/

namespace Lodestar.SlashingProtection

open Lodestar.Base

/-- The calls of a run. -/
inductive Call where
  | checkAndInsertAttestation (attestation : SlashingProtectionAttestation)
  | importAttestations (attestations : List SlashingProtectionAttestation)
  | checkAndInsertBlockProposal (block : SlashingProtectionBlock)
  | importBlocks (blocks : List SlashingProtectionBlock)
  deriving DecidableEq

structure World where
  db : Db
  attestations : List SlashingProtectionAttestation
  blocks : List SlashingProtectionBlock
  /-- Attestation files that were imported without an error, oldest first. -/
  imports : List (List SlashingProtectionAttestation)

/-- An empty database, nothing recorded. -/
def World.init : World := ⟨Db.empty, [], [], []⟩

/-- The program of a call. -/
def Call.prog (pubKey : BLSPubkey) : Call → Async Unit
  | .checkAndInsertAttestation a => SlashingProtection.checkAndInsertAttestation pubKey a
  | .importAttestations atts => SlashingProtection.importAttestations pubKey atts
  | .checkAndInsertBlockProposal b => SlashingProtection.checkAndInsertBlockProposal pubKey b
  | .importBlocks bs => SlashingProtection.importBlocks pubKey bs

/-- What a call records besides the database: an import writes its records before it can fail. -/
def World.note (w : World) (db : Db) : Call → Bool → World
  | .checkAndInsertAttestation a, ok =>
    { w with db, attestations := if ok then w.attestations ++ [a] else w.attestations }
  | .importAttestations atts, ok =>
    { w with
      db
      attestations := w.attestations ++ atts
      imports := if ok then w.imports ++ [atts] else w.imports }
  | .checkAndInsertBlockProposal b, ok =>
    { w with db, blocks := if ok then w.blocks ++ [b] else w.blocks }
  | .importBlocks bs, _ => { w with db, blocks := w.blocks ++ bs }

/-- The call ends without an error. -/
def World.accepts (ssz : SszEpoch) (pubKey : BLSPubkey) (w : World) (c : Call) : Bool :=
  ((c.prog pubKey).run (act ssz) w.db).1.isOk

/-- The world after a call. -/
def World.perform (ssz : SszEpoch) (pubKey : BLSPubkey) (w : World) (c : Call) : World :=
  w.note ((c.prog pubKey).run (act ssz) w.db).2 c (w.accepts ssz pubKey c)

/-! ## What a call does to the world -/

variable {ssz : SszEpoch} {pubKey : BLSPubkey}

theorem World.perform_eq {w : World} {c : Call} {r : Except SlashingProtectionError Unit} {db : Db}
    (h : (c.prog pubKey).run (act ssz) w.db = (r, db)) :
    w.accepts ssz pubKey c = r.isOk ∧ w.perform ssz pubKey c = w.note db c r.isOk := by
  unfold World.perform World.accepts
  rw [h]
  exact ⟨rfl, rfl⟩

theorem World.perform_checkAndInsertAttestation (ssz : SszEpoch) (pubKey : BLSPubkey) (w : World)
    (a : SlashingProtectionAttestation) :
    (w.accepts ssz pubKey (.checkAndInsertAttestation a) = false ∧
      w.perform ssz pubKey (.checkAndInsertAttestation a) = w) ∨
    (w.accepts ssz pubKey (.checkAndInsertAttestation a) = true ∧ Repeated w.db pubKey a ∧
      w.perform ssz pubKey (.checkAndInsertAttestation a) =
        { w with attestations := w.attestations ++ [a] }) ∨
    (w.accepts ssz pubKey (.checkAndInsertAttestation a) = true ∧ Clear w.db pubKey a ∧
      w.perform ssz pubKey (.checkAndInsertAttestation a) =
        { w with
          db := (w.db.setAttestations pubKey [a]).insertSpan ssz pubKey a
          attestations := w.attestations ++ [a] }) := by
  rcases run_checkAndInsertAttestation ssz w.db pubKey a with
    ⟨e, h, -⟩ | ⟨h, hr⟩ | ⟨h, hc⟩
  · exact .inl (World.perform_eq (c := .checkAndInsertAttestation a) h)
  · obtain ⟨hacc, hperf⟩ := World.perform_eq (c := .checkAndInsertAttestation a) h
    exact .inr (.inl ⟨hacc, hr, hperf⟩)
  · obtain ⟨hacc, hperf⟩ := World.perform_eq (c := .checkAndInsertAttestation a) h
    exact .inr (.inr ⟨hacc, hc, hperf⟩)

theorem World.perform_checkAndInsertBlockProposal (ssz : SszEpoch) (pubKey : BLSPubkey) (w : World)
    (b : SlashingProtectionBlock) :
    (w.accepts ssz pubKey (.checkAndInsertBlockProposal b) = false ∧
      w.perform ssz pubKey (.checkAndInsertBlockProposal b) = w) ∨
    (w.accepts ssz pubKey (.checkAndInsertBlockProposal b) = true ∧ BlockRepeated w.db pubKey b ∧
      w.perform ssz pubKey (.checkAndInsertBlockProposal b) =
        { w with blocks := w.blocks ++ [b] }) ∨
    (w.accepts ssz pubKey (.checkAndInsertBlockProposal b) = true ∧ BlockClear w.db pubKey b ∧
      w.perform ssz pubKey (.checkAndInsertBlockProposal b) =
        { w with db := w.db.setBlocks pubKey [b], blocks := w.blocks ++ [b] }) := by
  rcases run_checkAndInsertBlockProposal ssz w.db pubKey b with
    ⟨e, h, -⟩ | ⟨h, hr⟩ | ⟨h, hc⟩
  · exact .inl (World.perform_eq (c := .checkAndInsertBlockProposal b) h)
  · obtain ⟨hacc, hperf⟩ := World.perform_eq (c := .checkAndInsertBlockProposal b) h
    exact .inr (.inl ⟨hacc, hr, hperf⟩)
  · obtain ⟨hacc, hperf⟩ := World.perform_eq (c := .checkAndInsertBlockProposal b) h
    exact .inr (.inr ⟨hacc, hc, hperf⟩)

/-- An import writes its records; when it goes through it stores its lower bound too. -/
theorem World.perform_importAttestations (ssz : SszEpoch) (pubKey : BLSPubkey) (w : World)
    (atts : List SlashingProtectionAttestation) :
    ∃ span', (w.accepts ssz pubKey (.importAttestations atts) = false ∧
        w.perform ssz pubKey (.importAttestations atts) =
          { w with
            db := { w.db.setAttestations pubKey atts with span := span' }
            attestations := w.attestations ++ atts }) ∨
      (w.accepts ssz pubKey (.importAttestations atts) = true ∧
        (insertSpans pubKey atts).run (act ssz) (w.db.setAttestations pubKey atts) =
          (.ok (), { w.db.setAttestations pubKey atts with span := span' }) ∧
        w.perform ssz pubKey (.importAttestations atts) =
          { w with
            db := (lowerBoundOf atts).elim { w.db.setAttestations pubKey atts with span := span' }
              (Db.setLowerBound { w.db.setAttestations pubKey atts with span := span' } pubKey)
            attestations := w.attestations ++ atts
            imports := w.imports ++ [atts] }) := by
  obtain ⟨r, span', hspans, h⟩ := run_importAttestations ssz w.db pubKey atts
  obtain ⟨hacc, hperf⟩ := World.perform_eq (c := .importAttestations atts) h
  cases r with
  | error e => exact ⟨span', .inl ⟨hacc, hperf⟩⟩
  | ok u => exact ⟨span', .inr ⟨hacc, hspans, hperf⟩⟩

theorem World.perform_importBlocks (ssz : SszEpoch) (pubKey : BLSPubkey) (w : World)
    (bs : List SlashingProtectionBlock) :
    w.perform ssz pubKey (.importBlocks bs) =
      { w with db := w.db.setBlocks pubKey bs, blocks := w.blocks ++ bs } := rfl

end Lodestar.SlashingProtection
