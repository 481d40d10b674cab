import Lodestar.SlashingProtection.Run

/-!
# Lower bounds after imports

Every import that goes through stores the minima of its own file, so the
attestation bound is that of the latest one. The bound on proposals is read
from the records: nothing is ever removed there, so it is the lowest slot
recorded so far.
-/

namespace Lodestar.SlashingProtection

open Std (TreeMap)
open Lodestar.Base

/-- Any call. -/
def AnyStep (ssz : SszEpoch) (pubKey : BLSPubkey) (w w' : World) : Prop :=
  ∃ c : Call, w' = w.perform ssz pubKey c

/-- The latest file with attestations whose import went through. -/
def World.latestImport (w : World) : Option (List SlashingProtectionAttestation) :=
  (w.imports.filter (· ≠ [])).getLast?

structure Recorded (pubKey : BLSPubkey) (w : World) : Prop where
  bound : w.db.attestationLowerBound[pubKey]? = w.latestImport.bind lowerBoundOf
  attestation : ∀ {t prev}, w.db.attestationByTarget[(pubKey, t)]? = some prev →
    prev ∈ w.attestations ∧ prev.targetEpoch = t
  blockKept : ∀ b ∈ w.blocks, ∃ prev, w.db.blockBySlot[(pubKey, b.slot)]? = some prev
  block : ∀ {s prev}, w.db.blockBySlot[(pubKey, s)]? = some prev →
    prev ∈ w.blocks ∧ prev.slot = s

variable {ssz : SszEpoch} {pubKey : BLSPubkey} {db : Db} {w w' : World}

/-! ## The first block -/

theorem firstBlock_mem {first : SlashingProtectionBlock} (h : db.firstBlock pubKey = some first) :
    ∃ m, db.blockBySlot[(pubKey, m)]? = some first ∧ m < MAX_SAFE_INTEGER := by
  unfold Db.firstBlock getAll at h
  have hmem := List.mem_of_head? h
  obtain ⟨e, he, rfl⟩ := List.mem_map.1 hmem
  obtain ⟨heMem, heRange⟩ := List.mem_filter.1 (List.mem_of_mem_take he)
  obtain ⟨hpk, hlt⟩ := keyCmp_range.1 heRange
  refine ⟨e.1.2, ?_, hlt⟩
  rw [← hpk]
  exact TreeMap.mem_toList_iff_getElem?_eq_some.1 heMem

theorem firstBlock_le {m : Nat} {prev : SlashingProtectionBlock}
    (hm : db.blockBySlot[(pubKey, m)]? = some prev) (hmax : m < MAX_SAFE_INTEGER) :
    ∃ m' first, db.firstBlock pubKey = some first ∧
      db.blockBySlot[(pubKey, m')]? = some first ∧ m' ≤ m := by
  have hmem := TreeMap.mem_toList_iff_getElem?_eq_some.2 hm
  have hord := TreeMap.ordered_keys_toList (t := db.blockBySlot)
  unfold Db.firstBlock getAll
  set all := db.blockBySlot.toList.filter fun e =>
    (keyCmp (pubKey, 0) e.1).isLE && keyCmp e.1 (pubKey, MAX_SAFE_INTEGER) == .lt with hall
  have hin : ((pubKey, m), prev) ∈ all := List.mem_filter.2 ⟨hmem, keyCmp_range.2 ⟨rfl, hmax⟩⟩
  have hsorted : all.Pairwise fun a b => keyCmp a.1 b.1 = .lt := hord.filter _
  cases hc : all with
  | nil => rw [hc] at hin; cases hin
  | cons e rest =>
    have he : e ∈ all := hc ▸ List.mem_cons_self
    obtain ⟨heMem, heRange⟩ := List.mem_filter.1 he
    obtain ⟨hpk, -⟩ := keyCmp_range.1 heRange
    refine ⟨e.1.2, e.2, rfl, ?_, ?_⟩
    · rw [← hpk]
      exact TreeMap.mem_toList_iff_getElem?_eq_some.1 heMem
    · rw [hc] at hin hsorted
      rcases List.mem_cons.1 hin with heq | hrest
      · rw [← heq]
      · rcases keyCmp_eq_lt.1 (List.rel_of_pairwise_cons hsorted hrest) with hlt | ⟨-, hlt⟩
        · simp [hpk] at hlt
        · exact hlt.le

/-! ## What is recorded -/

theorem Recorded.init (pubKey : BLSPubkey) : Recorded pubKey World.init where
  bound := by simp [World.init, Db.empty, World.latestImport]
  attestation h := by simp [World.init, Db.empty] at h
  blockKept _ h := by cases h
  block h := by simp [World.init, Db.empty] at h

theorem attestation_of_set {recorded atts : List SlashingProtectionAttestation}
    (h : ∀ {t prev}, db.attestationByTarget[(pubKey, t)]? = some prev →
      prev ∈ recorded ∧ prev.targetEpoch = t) {t : Nat} {prev : SlashingProtectionAttestation}
    (hp : (db.setAttestations pubKey atts).attestationByTarget[(pubKey, t)]? = some prev) :
    prev ∈ recorded ++ atts ∧ prev.targetEpoch = t := by
  rcases batchPut_get_cases db.attestationByTarget (fun a => (pubKey, a.targetEpoch)) id atts
    (pubKey, t) with ⟨b, hb, hbt, hget⟩ | ⟨-, hget⟩
  · cases hget.symm.trans hp
    exact ⟨List.mem_append_right _ hb, (Prod.mk.inj hbt).2⟩
  · obtain ⟨hmem, ht⟩ := h (hget.symm.trans hp)
    exact ⟨List.mem_append_left _ hmem, ht⟩

theorem Recorded.setBlocks (h : Recorded pubKey w) (bs : List SlashingProtectionBlock) :
    Recorded pubKey { w with db := w.db.setBlocks pubKey bs, blocks := w.blocks ++ bs } where
  bound := h.bound
  attestation := h.attestation
  blockKept b hb := by
    rcases batchPut_get_cases w.db.blockBySlot (fun b => (pubKey, b.slot)) id bs
      (pubKey, b.slot) with ⟨c, -, -, hget⟩ | ⟨hnot, hget⟩
    · exact ⟨c, hget⟩
    · rcases List.mem_append.1 hb with hb | hb
      · obtain ⟨prev, hprev⟩ := h.blockKept b hb
        exact ⟨prev, hget.trans hprev⟩
      · exact (hnot b hb rfl).elim
  block {s prev} hp := by
    rcases batchPut_get_cases w.db.blockBySlot (fun b => (pubKey, b.slot)) id bs (pubKey, s) with
      ⟨c, hc, hcs, hget⟩ | ⟨-, hget⟩
    · cases hget.symm.trans hp
      exact ⟨List.mem_append_right _ hc, (Prod.mk.inj hcs).2⟩
    · obtain ⟨hmem, hs⟩ := h.block (hget.symm.trans hp)
      exact ⟨List.mem_append_left _ hmem, hs⟩

theorem bound_of_import {atts : List SlashingProtectionAttestation}
    (h : w.db.attestationLowerBound[pubKey]? = w.latestImport.bind lowerBoundOf)
    (hdb : db.attestationLowerBound = w.db.attestationLowerBound) :
    ((lowerBoundOf atts).elim db (Db.setLowerBound db pubKey)).attestationLowerBound[pubKey]? =
      ((({ w with imports := w.imports ++ [atts] } : World).latestImport).bind lowerBoundOf) := by
  cases atts with
  | nil => simpa [World.latestImport, lowerBoundOf, minEpoch, hdb] using h
  | cons a atts =>
    simp [World.latestImport, lowerBoundOf, minEpoch, Db.setLowerBound, List.min?_cons]

theorem Recorded.step (h : Recorded pubKey w) (hstep : AnyStep ssz pubKey w w') :
    Recorded pubKey w' := by
  obtain ⟨c, rfl⟩ := hstep
  cases c with
  | checkAndInsertAttestation a =>
    rcases w.perform_checkAndInsertAttestation ssz pubKey a with
      ⟨-, hw⟩ | ⟨-, -, hw⟩ | ⟨-, -, hw⟩
    · rw [hw]; exact h
    · rw [hw]
      exact ⟨h.bound, fun hp => ⟨List.mem_append_left _ (h.attestation hp).1, (h.attestation hp).2⟩,
        h.blockKept, h.block⟩
    · rw [hw]
      exact ⟨h.bound, attestation_of_set h.attestation, h.blockKept, h.block⟩
  | importAttestations atts =>
    obtain ⟨span', ⟨-, hw⟩ | ⟨-, -, hw⟩⟩ := w.perform_importAttestations ssz pubKey atts
    · rw [hw]
      exact ⟨h.bound, attestation_of_set h.attestation, h.blockKept, h.block⟩
    · rw [hw]
      refine ⟨bound_of_import h.bound rfl, ?_, ?_, ?_⟩ <;> cases lowerBoundOf atts
      · exact attestation_of_set h.attestation
      · exact attestation_of_set h.attestation
      · exact h.blockKept
      · exact h.blockKept
      · exact h.block
      · exact h.block
  | checkAndInsertBlockProposal b =>
    rcases w.perform_checkAndInsertBlockProposal ssz pubKey b with
      ⟨-, hw⟩ | ⟨-, ⟨prev, hprev, hslot, -⟩, hw⟩ | ⟨-, -, hw⟩
    · rw [hw]; exact h
    · rw [hw]
      refine ⟨h.bound, h.attestation, fun c hc => ?_, fun hp =>
        ⟨List.mem_append_left _ (h.block hp).1, (h.block hp).2⟩⟩
      rcases List.mem_append.1 hc with hc | hc
      · exact h.blockKept c hc
      · rw [List.mem_singleton.1 hc]
        exact ⟨prev, hprev⟩
    · rw [hw]; exact h.setBlocks [b]
  | importBlocks bs =>
    rw [w.perform_importBlocks]
    exact h.setBlocks bs

theorem Recorded.reachable (hw : Relation.ReflTransGen (AnyStep ssz pubKey) World.init w) :
    Recorded pubKey w := by
  induction hw with
  | refl => exact Recorded.init pubKey
  | tail _ hstep ih => exact ih.step hstep

/-! ## Accepted calls -/

/-- An accepted attestation that repeats no recorded one is at or above the least source and above
the least target of the latest import. -/
theorem Recorded.attestation_bound (h : Recorded pubKey w) {a : SlashingProtectionAttestation}
    (hacc : w.accepts ssz pubKey (.checkAndInsertAttestation a) = true)
    (hnew : ∀ b ∈ w.attestations, b.targetEpoch = a.targetEpoch →
      isEqualNonZeroRoot b.signingRoot a.signingRoot = false)
    {file : List SlashingProtectionAttestation} (hfile : w.latestImport = some file) :
    (∀ m, (file.map (·.sourceEpoch)).min? = some m → m ≤ a.sourceEpoch) ∧
      ∀ m, (file.map (·.targetEpoch)).min? = some m → m < a.targetEpoch := by
  rcases w.perform_checkAndInsertAttestation ssz pubKey a with
    ⟨hacc', -⟩ | ⟨-, ⟨-, prev, hprev, hroot⟩, -⟩ | ⟨-, hclear, -⟩
  · rw [hacc] at hacc'
    cases hacc'
  · obtain ⟨hmem, ht⟩ := h.attestation hprev
    rw [hnew prev hmem ht] at hroot
    cases hroot
  · have hbound : ∀ s t, (file.map (·.sourceEpoch)).min? = some s →
        (file.map (·.targetEpoch)).min? = some t → s ≤ a.sourceEpoch ∧ t < a.targetEpoch := by
      intro s t hs ht
      refine hclear.bound ⟨s, t⟩ ?_
      rw [h.bound, hfile]
      simp [lowerBoundOf, minEpoch, hs, ht]
    have hne : file ≠ [] := by
      have := List.mem_of_getLast? hfile
      simpa using (List.mem_filter.1 this).2
    obtain ⟨s, hs⟩ := Option.isSome_iff_exists.1
      (List.isSome_min?_of_ne_nil (l := file.map (·.sourceEpoch)) (by simpa using hne))
    obtain ⟨t, ht⟩ := Option.isSome_iff_exists.1
      (List.isSome_min?_of_ne_nil (l := file.map (·.targetEpoch)) (by simpa using hne))
    exact ⟨fun m hm => (hbound m t hm ht).1, fun m hm => (hbound s m hs hm).2⟩

/-- An accepted proposal that repeats no recorded one is above the lowest slot recorded. -/
theorem Recorded.block_bound (h : Recorded pubKey w) {b : SlashingProtectionBlock}
    (hacc : w.accepts ssz pubKey (.checkAndInsertBlockProposal b) = true)
    (hnew : ∀ c ∈ w.blocks, c.slot = b.slot →
      isEqualNonZeroRoot c.signingRoot b.signingRoot = false)
    {m : Nat} (hm : (w.blocks.map (·.slot)).min? = some m) (hmax : m < MAX_SAFE_INTEGER) :
    m < b.slot := by
  rcases w.perform_checkAndInsertBlockProposal ssz pubKey b with
    ⟨hacc', -⟩ | ⟨-, ⟨prev, hprev, -, hroot⟩, -⟩ | ⟨-, hclear, -⟩
  · rw [hacc] at hacc'
    cases hacc'
  · obtain ⟨hmem, hs⟩ := h.block hprev
    rw [hnew prev hmem hs] at hroot
    cases hroot
  · obtain ⟨c, hc, rfl⟩ := List.mem_map.1 (List.min?_mem hm)
    obtain ⟨prev, hprev⟩ := h.blockKept c hc
    obtain ⟨m', first, hfirst, hget, -⟩ := firstBlock_le hprev hmax
    have hle : c.slot ≤ first.slot :=
      (List.le_min?_iff hm).1 le_rfl _ (List.mem_map.2 ⟨first, (h.block hget).1, rfl⟩)
    exact lt_of_le_of_lt hle (hclear.bound first hfirst)

/-- In any run of calls, what is accepted and repeats nothing recorded respects the bounds of the
latest attestation import and of the lowest slot recorded. -/
theorem lower_bounds_of_accepts
    (hw : Relation.ReflTransGen (AnyStep ssz pubKey) World.init w) :
    (∀ a, w.accepts ssz pubKey (.checkAndInsertAttestation a) = true →
      (∀ b ∈ w.attestations, b.targetEpoch = a.targetEpoch →
        isEqualNonZeroRoot b.signingRoot a.signingRoot = false) →
      ∀ file, w.latestImport = some file →
        (∀ m, (file.map (·.sourceEpoch)).min? = some m → m ≤ a.sourceEpoch) ∧
        ∀ m, (file.map (·.targetEpoch)).min? = some m → m < a.targetEpoch) ∧
    ∀ b, w.accepts ssz pubKey (.checkAndInsertBlockProposal b) = true →
      (∀ c ∈ w.blocks, c.slot = b.slot →
        isEqualNonZeroRoot c.signingRoot b.signingRoot = false) →
      ∀ m, (w.blocks.map (·.slot)).min? = some m → m < MAX_SAFE_INTEGER → m < b.slot :=
  ⟨fun _ hacc hnew _ hfile => (Recorded.reachable hw).attestation_bound hacc hnew hfile,
    fun _ hacc hnew _ hm hmax => (Recorded.reachable hw).block_bound hacc hnew hm hmax⟩

/-- Two imports, the older data last. -/
def importedOlder : World :=
  (World.init.perform sszUint64 7 (.importAttestations [⟨10, 20, 0xaa⟩])).perform sszUint64 7
    (.importAttestations [⟨1, 2, 0xbb⟩])

theorem importedOlder_reachable :
    Relation.ReflTransGen (AnyStep sszUint64 7) World.init importedOlder :=
  .tail (.single ⟨_, rfl⟩) ⟨_, rfl⟩

theorem lower_bounds_of_accepts_importedOlder :
    importedOlder.accepts sszUint64 7 (.checkAndInsertAttestation ⟨3, 4, 0xcc⟩) = true ∧
      (∀ m, (([⟨1, 2, 0xbb⟩] : List SlashingProtectionAttestation).map (·.sourceEpoch)).min? =
        some m → m ≤ 3) ∧
      ∀ m, (([⟨1, 2, 0xbb⟩] : List SlashingProtectionAttestation).map (·.targetEpoch)).min? =
        some m → m < 4 := by
  have hacc : importedOlder.accepts sszUint64 7 (.checkAndInsertAttestation ⟨3, 4, 0xcc⟩) = true := by
    decide +kernel
  exact ⟨hacc, (lower_bounds_of_accepts importedOlder_reachable).1 ⟨3, 4, 0xcc⟩ hacc
    (by decide +kernel) _ (by decide +kernel)⟩

/-- The bound of the first import is gone after the second. -/
theorem lower_bound_lost :
    Relation.ReflTransGen (AnyStep sszUint64 7) World.init importedOlder ∧
      importedOlder.accepts sszUint64 7 (.checkAndInsertAttestation ⟨3, 4, 0xcc⟩) = true ∧
      ¬ ∀ file ∈ importedOlder.imports, file ≠ [] →
        (∀ m, (file.map (·.sourceEpoch)).min? = some m → m ≤ 3) ∧
          ∀ m, (file.map (·.targetEpoch)).min? = some m → m < 4 := by
  refine ⟨.tail (.single ⟨_, rfl⟩) ⟨_, rfl⟩, by decide +kernel, fun h => ?_⟩
  have hfile : [⟨10, 20, 0xaa⟩] ∈ importedOlder.imports := by decide +kernel
  exact absurd ((h _ hfile (by simp)).1 10 rfl) (by decide)

end Lodestar.SlashingProtection
