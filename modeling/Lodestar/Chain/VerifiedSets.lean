import Lodestar.Base.Except
import Lodestar.Chain.BlsVerifier
import Mathlib.Data.List.Forall2

/-!
# Verified signature sets

What a verification that does not throw says of the sets: on the main thread
and in the worker, whose batches and their retries fill one result for each
request.
-/

namespace Lodestar.Chain

open Lodestar.Base

/-! ## Lists -/

theorem forall₂_of_mapM {ε α β : Type} {f : α → Except ε β} {l : List α} {l' : List β}
    (h : l.mapM f = .ok l') : List.Forall₂ (fun a b => f a = .ok b) l l' := by
  induction l generalizing l' with
  | nil =>
    cases h
    exact .nil
  | cons a l ih =>
    rw [List.mapM_cons] at h
    obtain ⟨b, hb, h⟩ := eq_ok_of_bind h
    obtain ⟨bs, hbs, h⟩ := eq_ok_of_bind h
    cases h
    exact .cons hb (ih hbs)

theorem forall_mem_iff_of_forall₂ {α β : Type} {R : α → β → Prop} {p : α → Prop} {q : β → Prop}
    {l : List α} {l' : List β} (h : List.Forall₂ R l l')
    (hpq : ∀ a ∈ l, ∀ b, R a b → (p a ↔ q b)) : (∀ a ∈ l, p a) ↔ ∀ b ∈ l', q b := by
  induction h with
  | nil => simp
  | cons hab _ ih =>
    rw [List.forall_mem_cons] at hpq
    rw [List.forall_mem_cons, List.forall_mem_cons, hpq.1 _ hab, ih hpq.2]

theorem exists_of_forall₂ {α β : Type} {R : α → β → Prop} {l : List α} {l' : List β}
    (h : List.Forall₂ R l l') : ∀ b ∈ l', ∃ a ∈ l, R a b := by
  induction h with
  | nil => simp
  | cons hab _ ih =>
    intro b hb
    rcases List.mem_cons.1 hb with rfl | hb
    · exact ⟨_, List.mem_cons_self, hab⟩
    · obtain ⟨a, ha, hab⟩ := ih b hb
      exact ⟨a, List.mem_cons_of_mem _ ha, hab⟩

theorem flatten_toChunks_go {α : Type} (n : Nat) (xs : List α) (acc₁ : Array α)
    (acc₂ : Array (List α)) :
    (List.toChunks.go n xs acc₁ acc₂).flatten = acc₂.toList.flatten ++ (acc₁.toList ++ xs) := by
  induction xs generalizing acc₁ acc₂ with
  | nil => simp [List.toChunks.go]
  | cons x xs ih =>
    unfold List.toChunks.go
    split <;> simp [ih]

theorem flatten_toChunks {α : Type} (n : Nat) (xs : List α) : (xs.toChunks n).flatten = xs := by
  unfold List.toChunks
  split
  · rfl
  · simp
  · simp [flatten_toChunks_go]

theorem flatten_chunkifyMaximizeChunkSize {α : Type} (arr : List α) (minPerChunk : Nat) :
    (chunkifyMaximizeChunkSize arr minPerChunk).flatten = arr := by
  unfold chunkifyMaximizeChunkSize
  dsimp only
  split
  · simp
  · exact flatten_toChunks _ arr

section

variable {PublicKey Signature : Type} {bls : Bls PublicKey Signature}

/-! ## Valid sets -/

/-- What is relied on of the library: keys are read back, and many signatures are verified as each
of them is. -/
structure Bls.Lawful (bls : Bls PublicKey Signature) : Prop where
  publicKeyFromBytes_toBytes : ∀ pubkey, bls.publicKeyFromBytes (bls.toBytes pubkey) = .ok pubkey
  verifyMultipleSignatures_iff : ∀ sets isValid, bls.verifyMultipleSignatures sets = .ok isValid →
    (isValid = true ↔ ∀ set ∈ sets, bls.verify set.2.2 set.1 set.2.1 = .ok true)

def Bls.IsValid (bls : Bls PublicKey Signature) (pubkey : PublicKey) (message signature : Bytes) :
    Prop :=
  ∃ sig, bls.signatureFromBytes signature = .ok sig ∧ bls.verify sig pubkey message = .ok true

def SignatureSetDeserialized.IsValid (bls : Bls PublicKey Signature)
    (set : SignatureSetDeserialized PublicKey) : Prop :=
  bls.IsValid set.publicKey set.message set.signature

def SerializedSet.IsValid (bls : Bls PublicKey Signature) (set : SerializedSet) : Prop :=
  ∃ pubkey, bls.publicKeyFromBytes set.publicKey = .ok pubkey ∧
    bls.IsValid pubkey set.message set.signature

/-- The signature is one of the aggregated public key. -/
def ISignatureSet.IsValid (bls : Bls PublicKey Signature) (set : ISignatureSet PublicKey) : Prop :=
  ∃ pubkey, getAggregatedPubkey bls set = .ok pubkey ∧
    bls.IsValid pubkey set.signingRoot set.signature

theorem everySet_iff {sets : List (SignatureSetDeserialized PublicKey)} {isValid : Bool}
    (h : everySet bls sets = .ok isValid) :
    isValid = true ↔ ∀ set ∈ sets, set.IsValid bls := by
  induction sets with
  | nil =>
    cases h
    simp
  | cons set sets ih =>
    unfold everySet at h
    obtain ⟨sig, hsig, h⟩ := eq_ok_of_bind h
    obtain ⟨verified, hverified, h⟩ := eq_ok_of_bind h
    have hset : set.IsValid bls ↔ verified = true := by
      unfold SignatureSetDeserialized.IsValid Bls.IsValid
      rw [hsig]
      simp [hverified]
    rw [List.forall_mem_cons, hset]
    cases verified with
    | true => simpa using ih h
    | false =>
      cases h
      simp

theorem verifySignatureSetsMaybeBatch_iff (hbls : bls.Lawful)
    {sets : List (SignatureSetDeserialized PublicKey)} {isValid : Bool}
    (h : verifySignatureSetsMaybeBatch bls sets = .ok isValid) :
    isValid = true ↔ ∀ set ∈ sets, set.IsValid bls := by
  unfold verifySignatureSetsMaybeBatch at h
  split_ifs at h
  · obtain ⟨withSignatures, hsignatures, h⟩ := eq_ok_of_bind h
    rw [hbls.verifyMultipleSignatures_iff _ _ h]
    refine (forall_mem_iff_of_forall₂ (forall₂_of_mapM hsignatures) fun set _ signed hset => ?_).symm
    obtain ⟨sig, hsig, hset⟩ := eq_ok_of_bind hset
    cases hset
    unfold SignatureSetDeserialized.IsValid Bls.IsValid
    rw [hsig]
    simp
  · exact everySet_iff h

/-! ## The worker -/

theorem isValid_iff_of_deserializeSet {set : SerializedSet}
    {deserialized : SignatureSetDeserialized PublicKey}
    (h : deserializeSet bls set = .ok deserialized) :
    set.IsValid bls ↔ deserialized.IsValid bls := by
  obtain ⟨pubkey, hpubkey, h⟩ := eq_ok_of_bind h
  cases h
  unfold SerializedSet.IsValid SignatureSetDeserialized.IsValid
  rw [hpubkey]
  simp

variable {workReqArr : List BlsWorkReq} {results : List (Option WorkResult)}

/-- The sets are those of the request with the index. -/
def WorkSets.IsOf (bls : Bls PublicKey Signature) (workReqArr : List BlsWorkReq)
    (work : WorkSets PublicKey) : Prop :=
  ∃ workReq, workReqArr[work.idx]? = some workReq ∧
    workReq.sets.mapM (deserializeSet bls) = .ok work.sets

theorem WorkSets.IsOf.valid_iff {work : WorkSets PublicKey} (h : work.IsOf bls workReqArr)
    {workReq : BlsWorkReq} (hget : workReqArr[work.idx]? = some workReq) :
    (∀ set ∈ workReq.sets, set.IsValid bls) ↔ ∀ set ∈ work.sets, set.IsValid bls := by
  obtain ⟨workReq', hget', hsets⟩ := h
  rw [hget] at hget'
  cases hget'
  exact forall_mem_iff_of_forall₂ (forall₂_of_mapM hsets) fun set _ deserialized hset =>
    isValid_iff_of_deserializeSet hset

theorem splitWork_isOf (pre : List BlsWorkReq) {reqs : List BlsWorkReq}
    {batchableSets nonBatchableSets : List (WorkSets PublicKey)}
    (h : splitWork bls pre.length reqs = .ok (batchableSets, nonBatchableSets)) :
    (∀ work ∈ batchableSets, work.IsOf bls (pre ++ reqs)) ∧
      ∀ work ∈ nonBatchableSets, work.IsOf bls (pre ++ reqs) := by
  induction reqs generalizing pre batchableSets nonBatchableSets with
  | nil =>
    cases h
    simp
  | cons workReq reqs ih =>
    unfold splitWork at h
    obtain ⟨sets, hsets, h⟩ := eq_ok_of_bind h
    obtain ⟨rest, hrest, h⟩ := eq_ok_of_bind h
    obtain ⟨batchable, nonBatchable⟩ := rest
    have hrest := ih (pre ++ [workReq]) (by rwa [List.length_append, List.length_singleton])
    rw [List.append_assoc, List.singleton_append] at hrest
    have hwork : WorkSets.IsOf bls (pre ++ workReq :: reqs) ⟨pre.length, sets⟩ :=
      ⟨workReq, by simp, hsets⟩
    dsimp only at h
    split_ifs at h
    · cases h
      exact ⟨List.forall_mem_cons.2 ⟨hwork, hrest.1⟩, hrest.2⟩
    · cases h
      exact ⟨hrest.1, List.forall_mem_cons.2 ⟨hwork, hrest.2⟩⟩

end

end Lodestar.Chain
