import Lodestar.SlashingProtection.Run
import Lodestar.SlashingProtection.Spans

/-!
# No self-slashing

Along a run the record at a target epoch stands for all that was recorded
there: when it has a signing root, everything recorded has that root. Together
with the spans this makes the check complete (`Inv.not_slashable`).

A record can only be written over by an import, and the spans can only be
spoilt by one, so the runs are those whose imports do neither (`Call.Sound`).
-/

namespace Lodestar.SlashingProtection

open Lodestar.Base

/-- A validator that signs both can be slashed: a double vote, or one surrounds the other. A zero
signing root is an unknown one. -/
def Slashable (a b : SlashingProtectionAttestation) : Prop :=
  (a.targetEpoch = b.targetEpoch ∧
      (a.signingRoot ≠ b.signingRoot ∨ a.signingRoot = ZERO_ROOT)) ∨
    Contains a.span b.span ∨ Contains b.span a.span

instance (a b : SlashingProtectionAttestation) : Decidable (Slashable a b) := by
  unfold Slashable; infer_instance

/-- The record an import leaves at a target epoch. -/
def lastAt (attestations : List SlashingProtectionAttestation) (targetEpoch : Nat) :
    Option SlashingProtectionAttestation :=
  attestations.reverse.find? (·.targetEpoch = targetEpoch)

/-- The calls that keep the records truthful. A check comes with the recorded source epoch when it
comes with the recorded signing root. An import has its epochs in order, and when the last record
it writes at a target epoch has a signing root, all records of that epoch have the same one. -/
def Call.Sound (db : Db) (pubKey : BLSPubkey) : Call → Prop
  | .checkAndInsertAttestation a => a.targetEpoch ≤ MAX_SAFE_INTEGER ∧
    ∀ prev, db.attestationByTarget[(pubKey, a.targetEpoch)]? = some prev →
      isEqualNonZeroRoot prev.signingRoot a.signingRoot → prev.sourceEpoch = a.sourceEpoch
  | .importAttestations atts => (∀ a ∈ atts, a.Ordered) ∧
    ∀ t a, lastAt atts t = some a → a.signingRoot ≠ ZERO_ROOT →
      (∀ b ∈ atts, b.targetEpoch = t → b.signingRoot = a.signingRoot) ∧
      ∀ prev, db.attestationByTarget[(pubKey, t)]? = some prev → prev.signingRoot = a.signingRoot
  | .checkAndInsertBlockProposal _ => True
  | .importBlocks _ => True

/-- The call `c`, which goes through if it is an import. -/
def Step (ssz : SszEpoch) (pubKey : BLSPubkey) (c : Call) (w w' : World) : Prop :=
  (∀ atts, c = .importAttestations atts → w.accepts ssz pubKey c = true) ∧
    w' = w.perform ssz pubKey c

def SoundStep (ssz : SszEpoch) (pubKey : BLSPubkey) (w w' : World) : Prop :=
  ∃ c : Call, c.Sound w.db pubKey ∧ Step ssz pubKey c w w'

/-- What the database knows of the attestations recorded so far. -/
structure Inv (pubKey : BLSPubkey) (db : Db) (recorded : List SlashingProtectionAttestation) :
    Prop where
  spans : SpansOk {b | ∃ a ∈ recorded, a.span = b} db pubKey
  kept : ∀ b ∈ recorded, ∃ prev, db.attestationByTarget[(pubKey, b.targetEpoch)]? = some prev
  record : ∀ {t prev}, db.attestationByTarget[(pubKey, t)]? = some prev →
    prev ∈ recorded ∧ prev.targetEpoch = t
  root : ∀ {t prev}, db.attestationByTarget[(pubKey, t)]? = some prev →
    prev.signingRoot ≠ ZERO_ROOT → ∀ b ∈ recorded, b.targetEpoch = t →
      b.signingRoot = prev.signingRoot

variable {ssz : SszEpoch} {pubKey : BLSPubkey} {db : Db} {w w' : World}
  {recorded : List SlashingProtectionAttestation} {a : SlashingProtectionAttestation}

theorem Inv.init (pubKey : BLSPubkey) : Inv pubKey Db.empty [] where
  spans := by simpa using SpansOk.empty pubKey
  kept _ h := by cases h
  record h := by simp [Db.empty] at h
  root h := by simp [Db.empty] at h

theorem Inv.congr {db' : Db} (h : Inv pubKey db recorded)
    (hatt : db'.attestationByTarget = db.attestationByTarget) (hspan : db'.span = db.span) :
    Inv pubKey db' recorded := by
  obtain ⟨h₁, h₂, h₃, h₄⟩ := h
  exact ⟨h₁.congr hspan, hatt ▸ h₂, hatt ▸ h₃, hatt ▸ h₄⟩

theorem setAttestations_get (atts : List SlashingProtectionAttestation) (t : Nat) :
    (db.setAttestations pubKey atts).attestationByTarget[(pubKey, t)]? =
      (lastAt atts t).or db.attestationByTarget[(pubKey, t)]? := by
  unfold Db.setAttestations lastAt
  rw [batchPut_get]
  simp

theorem lastAt_eq_some {atts : List SlashingProtectionAttestation} {t : Nat}
    (h : lastAt atts t = some a) : a ∈ atts ∧ a.targetEpoch = t :=
  ⟨by simpa using List.mem_of_find?_eq_some h, by simpa using List.find?_some h⟩

theorem lastAt_eq_none {atts : List SlashingProtectionAttestation} {t : Nat}
    (h : lastAt atts t = none) : ∀ b ∈ atts, b.targetEpoch ≠ t := by
  simpa [lastAt] using h

/-- Records written by an import whose last roots are the only ones, or by a check that found
none. -/
theorem Inv.setAttestations {atts : List SlashingProtectionAttestation} {db' : Db}
    (h : Inv pubKey db recorded)
    (hroot : ∀ t a, lastAt atts t = some a → a.signingRoot ≠ ZERO_ROOT →
      (∀ b ∈ atts, b.targetEpoch = t → b.signingRoot = a.signingRoot) ∧
      ∀ prev, db.attestationByTarget[(pubKey, t)]? = some prev → prev.signingRoot = a.signingRoot)
    (hatt : db'.attestationByTarget = (db.setAttestations pubKey atts).attestationByTarget)
    (hspans : SpansOk ({b | ∃ a ∈ recorded, a.span = b} ∪ {b | ∃ a ∈ atts, a.span = b}) db' pubKey) :
    Inv pubKey db' (recorded ++ atts) where
  spans := by
    convert hspans using 1
    ext b
    simp [or_and_right, exists_or]
  kept b hb := by
    rw [hatt, setAttestations_get]
    cases hl : lastAt atts b.targetEpoch with
    | some a => exact ⟨a, rfl⟩
    | none =>
      rcases List.mem_append.1 hb with hb | hb
      · exact h.kept b hb
      · exact (lastAt_eq_none hl b hb rfl).elim
  record {t prev} hp := by
    rw [hatt, setAttestations_get] at hp
    cases hl : lastAt atts t with
    | some a =>
      rw [hl] at hp
      cases hp
      exact ⟨List.mem_append_right _ (lastAt_eq_some hl).1, (lastAt_eq_some hl).2⟩
    | none =>
      rw [hl] at hp
      exact ⟨List.mem_append_left _ (h.record hp).1, (h.record hp).2⟩
  root {t prev} hp hne b hb hbt := by
    rw [hatt, setAttestations_get] at hp
    cases hl : lastAt atts t with
    | some a =>
      rw [hl] at hp
      cases hp
      obtain ⟨hnew, hold⟩ := hroot t prev hl hne
      rcases List.mem_append.1 hb with hb | hb
      · obtain ⟨prev, hprev⟩ := h.kept b hb
        rw [hbt] at hprev
        rw [← hold prev hprev] at hne ⊢
        exact h.root hprev hne b hb hbt
      · exact hnew b hb hbt
    | none =>
      rw [hl] at hp
      rcases List.mem_append.1 hb with hb | hb
      · exact h.root hp hne b hb hbt
      · exact (lastAt_eq_none hl b hb hbt).elim

theorem Inv.clear (h : Inv pubKey db recorded) (hclear : Clear db pubKey a)
    (hsafe : a.targetEpoch ≤ MAX_SAFE_INTEGER) :
    Inv pubKey ((db.setAttestations pubKey [a]).insertSpan ssz pubKey a) (recorded ++ [a]) := by
  refine h.setAttestations (fun t b hl _ => ?_) rfl ?_
  · obtain ⟨hb, hbt⟩ := lastAt_eq_some hl
    cases List.mem_singleton.1 hb
    refine ⟨fun c hc _ => by rw [List.mem_singleton.1 hc], fun prev hprev => ?_⟩
    rw [← hbt, hclear.unused] at hprev
    cases hprev
  · have hspans : SpansOk {b | ∃ a ∈ recorded, a.span = b} (db.setAttestations pubKey [a]) pubKey :=
      h.spans.congr rfl
    convert hspans.insert ssz ⟨hclear.le, hsafe⟩ hclear.notSurrounding hclear.notSurrounded using 1
    ext b
    simp [or_comm, eq_comm]

theorem Inv.repeated (h : Inv pubKey db recorded) {prev : SlashingProtectionAttestation}
    (hprev : db.attestationByTarget[(pubKey, a.targetEpoch)]? = some prev)
    (hroot : isEqualNonZeroRoot prev.signingRoot a.signingRoot)
    (hsource : prev.sourceEpoch = a.sourceEpoch) : Inv pubKey db (recorded ++ [a]) := by
  obtain ⟨hmem, htarget⟩ := h.record hprev
  obtain ⟨hne, heq⟩ := isEqualNonZeroRoot_iff.1 hroot
  have hspan : prev.span = a.span := by
    simp [SlashingProtectionAttestation.span, hsource, htarget]
  refine ⟨?_, fun b hb => ?_, fun hp => ?_, fun {t p} hp hpne b hb hbt => ?_⟩
  · convert h.spans using 1
    ext b
    constructor
    · rintro ⟨c, hc, rfl⟩
      rcases List.mem_append.1 hc with hc | hc
      · exact ⟨c, hc, rfl⟩
      · exact ⟨prev, hmem, by rw [hspan, List.mem_singleton.1 hc]⟩
    · rintro ⟨c, hc, rfl⟩
      exact ⟨c, List.mem_append_left _ hc, rfl⟩
  · rcases List.mem_append.1 hb with hb | hb
    · exact h.kept b hb
    · rw [List.mem_singleton.1 hb]
      exact ⟨prev, hprev⟩
  · exact ⟨List.mem_append_left _ (h.record hp).1, (h.record hp).2⟩
  · rcases List.mem_append.1 hb with hb | hb
    · exact h.root hp hpne b hb hbt
    · cases List.mem_singleton.1 hb
      rw [← hbt, hprev] at hp
      cases hp
      exact heq.symm

theorem Inv.not_slashable_of_clear (h : Inv pubKey db recorded) (hclear : Clear db pubKey a) :
    ∀ b ∈ recorded, ¬ Slashable b a := by
  intro b hb
  rintro (⟨ht, -⟩ | hc | hc)
  · obtain ⟨prev, hprev⟩ := h.kept b hb
    rw [ht, hclear.unused] at hprev
    cases hprev
  · have := (h.spans.surrounded_iff hclear.le).2 ⟨_, ⟨b, hb, rfl⟩, hc⟩
    rw [hclear.notSurrounded] at this
    cases this
  · have := h.spans.surrounding_iff.2 ⟨_, ⟨b, hb, rfl⟩, hc⟩
    rw [hclear.notSurrounding] at this
    cases this

theorem Inv.not_slashable_of_repeated (h : Inv pubKey db recorded)
    {prev : SlashingProtectionAttestation}
    (hprev : db.attestationByTarget[(pubKey, a.targetEpoch)]? = some prev)
    (hroot : isEqualNonZeroRoot prev.signingRoot a.signingRoot)
    (hsource : prev.sourceEpoch = a.sourceEpoch) : ∀ b ∈ recorded, ¬ Slashable b a := by
  obtain ⟨hmem, htarget⟩ := h.record hprev
  obtain ⟨hne, heq⟩ := isEqualNonZeroRoot_iff.1 hroot
  have hspan : a.span = prev.span := by
    simp [SlashingProtectionAttestation.span, hsource, htarget]
  intro b hb
  rintro (⟨ht, hr⟩ | hc | hc)
  · have hbr := h.root hprev hne b hb ht
    rw [hbr, heq] at hr
    rcases hr with hr | hr
    · exact hr rfl
    · exact hne (heq ▸ hr)
  · exact h.spans.laminar _ ⟨b, hb, rfl⟩ _ ⟨prev, hmem, rfl⟩ (hspan ▸ hc)
  · exact h.spans.laminar _ ⟨prev, hmem, rfl⟩ _ ⟨b, hb, rfl⟩ (hspan ▸ hc)

/-- One sound call keeps the invariant. -/
theorem Inv.step (h : Inv pubKey w.db w.attestations) (hstep : SoundStep ssz pubKey w w') :
    Inv pubKey w'.db w'.attestations := by
  obtain ⟨c, hc, himport, rfl⟩ := hstep
  cases c with
  | checkAndInsertAttestation a =>
    rcases w.perform_checkAndInsertAttestation ssz pubKey a with
      ⟨-, hw⟩ | ⟨-, ⟨-, prev, hprev, hroot⟩, hw⟩ | ⟨-, hclear, hw⟩
    · rw [hw]; exact h
    · rw [hw]; exact h.repeated hprev hroot (hc.2 prev hprev hroot)
    · rw [hw]; exact h.clear hclear hc.1
  | importAttestations atts =>
    obtain ⟨span', ⟨hacc, -⟩ | ⟨-, hspans, hw⟩⟩ := w.perform_importAttestations ssz pubKey atts
    · rw [himport atts rfl] at hacc
      cases hacc
    · have hset : SpansOk _ (w.db.setAttestations pubKey atts) pubKey := h.spans.congr rfl
      have hspans' := hset.insertSpans hc.1 hspans
      have h' := h.setAttestations hc.2 (by rfl) hspans'
      rw [hw]
      cases lowerBoundOf atts with
      | none => exact h'
      | some bound => exact h'.congr rfl rfl
  | checkAndInsertBlockProposal b =>
    rcases w.perform_checkAndInsertBlockProposal ssz pubKey b with
      ⟨-, hw⟩ | ⟨-, -, hw⟩ | ⟨-, -, hw⟩
    · rw [hw]; exact h
    · rw [hw]; exact h
    · rw [hw]; exact h.congr rfl rfl
  | importBlocks bs =>
    rw [w.perform_importBlocks]
    exact h.congr rfl rfl

theorem Inv.reachable (hw : Relation.ReflTransGen (SoundStep ssz pubKey) World.init w) :
    Inv pubKey w.db w.attestations := by
  induction hw with
  | refl => exact Inv.init pubKey
  | tail _ hstep ih => exact ih.step hstep

/-- In a run of sound calls, an accepted attestation is slashable against nothing that was recorded
before it. -/
theorem not_slashable_of_accepts
    (hw : Relation.ReflTransGen (SoundStep ssz pubKey) World.init w)
    (ha : (Call.checkAndInsertAttestation a).Sound w.db pubKey)
    (hacc : w.accepts ssz pubKey (.checkAndInsertAttestation a) = true) :
    ∀ b ∈ w.attestations, ¬ Slashable b a := by
  have h := Inv.reachable hw
  rcases w.perform_checkAndInsertAttestation ssz pubKey a with
    ⟨hacc', -⟩ | ⟨-, ⟨-, prev, hprev, hroot⟩, -⟩ | ⟨-, hclear, -⟩
  · rw [hacc] at hacc'
    cases hacc'
  · exact h.not_slashable_of_repeated hprev hroot (ha.2 prev hprev hroot)
  · exact h.not_slashable_of_clear hclear

/-- An imported attestation and an accepted one. -/
def importedThenAccepted : World :=
  (World.init.perform sszUint64 7 (.importAttestations [⟨0, 1, 0xaa⟩])).perform sszUint64 7
    (.checkAndInsertAttestation ⟨1, 2, 0xbb⟩)

theorem importedThenAccepted_reachable :
    Relation.ReflTransGen (SoundStep sszUint64 7) World.init importedThenAccepted := by
  refine .tail (.single ⟨_, ?_, fun _ _ => by decide +kernel, rfl⟩) ⟨_, ?_, (fun _ h => by cases h), rfl⟩
  · refine ⟨by simpa using ⟨by decide, by decide⟩, fun t a h _ => ?_⟩
    obtain ⟨ha, rfl⟩ := lastAt_eq_some h
    rw [List.mem_singleton.1 ha]
    refine ⟨by simp, fun prev hprev => ?_⟩
    simp [World.init, Db.empty] at hprev
  · refine ⟨by decide, fun prev hprev => ?_⟩
    have hnone : (World.init.perform sszUint64 7 (.importAttestations [⟨0, 1, 0xaa⟩])).db
      |>.attestationByTarget[((7 : BLSPubkey), 2)]? = none := by decide +kernel
    rw [hnone] at hprev
    cases hprev

theorem not_slashable_of_accepts_third :
    importedThenAccepted.accepts sszUint64 7 (.checkAndInsertAttestation ⟨2, 3, 0xcc⟩) = true ∧
      ∀ b ∈ importedThenAccepted.attestations, ¬ Slashable b ⟨2, 3, 0xcc⟩ := by
  have hacc : importedThenAccepted.accepts sszUint64 7
      (.checkAndInsertAttestation ⟨2, 3, 0xcc⟩) = true := by decide +kernel
  refine ⟨hacc, not_slashable_of_accepts importedThenAccepted_reachable
    ⟨by decide, fun prev hprev => ?_⟩ hacc⟩
  have hnone : importedThenAccepted.db.attestationByTarget[((7 : BLSPubkey), 3)]? = none := by
    decide +kernel
  rw [hnone] at hprev
  cases hprev

/-- The same target epoch imported twice: the second record replaces the first. -/
def importedTwice : World :=
  (World.init.perform sszUint64 7 (.importAttestations [⟨0, 1, 0xaa⟩])).perform sszUint64 7
    (.importAttestations [⟨0, 1, 0xbb⟩])

/-- After that the other vote is signed again. -/
theorem slashable_of_importedTwice :
    Relation.ReflTransGen (fun w w' => ∃ c, Step sszUint64 7 c w w') World.init importedTwice ∧
      importedTwice.accepts sszUint64 7 (.checkAndInsertAttestation ⟨0, 1, 0xbb⟩) = true ∧
      ⟨0, 1, 0xaa⟩ ∈ importedTwice.attestations ∧ Slashable ⟨0, 1, 0xaa⟩ ⟨0, 1, 0xbb⟩ := by
  refine ⟨.tail (.single ⟨_, fun _ _ => ?_, rfl⟩) ⟨_, fun _ _ => ?_, rfl⟩, ?_, ?_, by decide⟩ <;>
    decide +kernel

end Lodestar.SlashingProtection
