import Lodestar.Base.Bytes

/-!
# Verification of signature sets

`chain/bls/maybeBatch.ts`, `chain/bls/utils.ts` and the worker of
`chain/bls/multithread`. The BLS library is a parameter.
-/

namespace Lodestar.Chain

open Lodestar.Base (Bytes)

/-- What `@chainsafe/bls` does; the public keys are in the format of the pool. -/
structure Bls (PublicKey Signature : Type) where
  aggregate : List PublicKey → Except String PublicKey
  toBytes : PublicKey → Bytes
  publicKeyFromBytes : Bytes → Except String PublicKey
  /-- With validation. -/
  signatureFromBytes : Bytes → Except String Signature
  verify : Signature → PublicKey → Bytes → Except String Bool
  verifyMultipleSignatures : List (PublicKey × Bytes × Signature) → Except String Bool

inductive ISignatureSet (PublicKey : Type) where
  | single (pubkey : PublicKey) (signingRoot signature : Bytes)
  | aggregate (pubkeys : List PublicKey) (signingRoot signature : Bytes)
  deriving DecidableEq

structure SignatureSetDeserialized (PublicKey : Type) where
  publicKey : PublicKey
  message : Bytes
  signature : Bytes

structure SerializedSet where
  publicKey : Bytes
  message : Bytes
  signature : Bytes
  deriving DecidableEq

structure VerifySignatureOpts where
  batchable : Bool
  verifyOnMainThread : Bool
  deriving DecidableEq

structure BlsWorkReq where
  opts : VerifySignatureOpts
  sets : List SerializedSet
  deriving DecidableEq

/-- `WorkResult<boolean>`. -/
inductive WorkResult where
  | success (result : Bool)
  | error (error : String)

def MIN_SET_COUNT_TO_BATCH : Nat := 2
def BATCHABLE_MIN_PER_CHUNK : Nat := 16

namespace ISignatureSet

variable {PublicKey : Type}

def signingRoot : ISignatureSet PublicKey → Bytes
  | .single _ signingRoot _ | .aggregate _ signingRoot _ => signingRoot

def signature : ISignatureSet PublicKey → Bytes
  | .single _ _ signature | .aggregate _ _ signature => signature

end ISignatureSet

/-- `arr.slice(i, i + perChunk)` for the multiples `i` of `perChunk`. -/
def chunkifyMaximizeChunkSize {α : Type} (arr : List α) (minPerChunk : Nat) : List (List α) :=
  let chunkCount := arr.length / minPerChunk
  if chunkCount ≤ 1 then [arr]
  else arr.toChunks ((arr.length + chunkCount - 1) / chunkCount)

section

variable {PublicKey Signature : Type} (bls : Bls PublicKey Signature)

def getAggregatedPubkey : ISignatureSet PublicKey → Except String PublicKey
  | .single pubkey _ _ => .ok pubkey
  | .aggregate pubkeys _ _ => bls.aggregate pubkeys

def withSignature (set : SignatureSetDeserialized PublicKey) :
    Except String (PublicKey × Bytes × Signature) := do
  let signature ← bls.signatureFromBytes set.signature
  return (set.publicKey, set.message, signature)

/-- `sets.every(..)`. -/
def everySet : List (SignatureSetDeserialized PublicKey) → Except String Bool
  | [] => .ok true
  | set :: sets => do
    let sig ← bls.signatureFromBytes set.signature
    if ← bls.verify sig set.publicKey set.message then everySet sets else return false

def verifySignatureSetsMaybeBatch (sets : List (SignatureSetDeserialized PublicKey)) :
    Except String Bool := do
  if MIN_SET_COUNT_TO_BATCH ≤ sets.length then
    bls.verifyMultipleSignatures (← sets.mapM (withSignature bls))
  else if sets.length = 0 then throw "Empty signature set"
  else everySet bls sets

/-! ## The worker -/

def deserializeSet (set : SerializedSet) : Except String (SignatureSetDeserialized PublicKey) := do
  return ⟨← bls.publicKeyFromBytes set.publicKey, set.message, set.signature⟩

/-- The sets of a request, with its index. -/
structure WorkSets (PublicKey : Type) where
  idx : Nat
  sets : List (SignatureSetDeserialized PublicKey)

/-- The results array, which has holes until it is filled, and the sets to verify one by one. -/
structure WorkState (PublicKey : Type) where
  results : List (Option WorkResult)
  nonBatchableSets : List (WorkSets PublicKey)

/-- The loop over the requests, to the batchable and the other sets. -/
def splitWork (i : Nat) :
    List BlsWorkReq → Except String (List (WorkSets PublicKey) × List (WorkSets PublicKey))
  | [] => .ok ([], [])
  | workReq :: workReqArr => do
    let sets ← workReq.sets.mapM (deserializeSet bls)
    let (batchableSets, nonBatchableSets) ← splitWork (i + 1) workReqArr
    if workReq.opts.batchable then return (⟨i, sets⟩ :: batchableSets, nonBatchableSets)
    else return (batchableSets, ⟨i, sets⟩ :: nonBatchableSets)

/-- One turn of the loop over the batchable chunks. -/
def verifyChunk (st : WorkState PublicKey) (batchableChunk : List (WorkSets PublicKey)) :
    WorkState PublicKey :=
  match verifySignatureSetsMaybeBatch bls (batchableChunk.flatMap (·.sets)) with
  | .ok true => { st with
      results := batchableChunk.foldl (fun results work =>
        results.set work.idx (some (.success true))) st.results }
  -- all are verified again
  | .ok false | .error _ => { st with nonBatchableSets := st.nonBatchableSets ++ batchableChunk }

/-- One turn of the last loop. -/
def verifyAlone (results : List (Option WorkResult)) (work : WorkSets PublicKey) :
    List (Option WorkResult) :=
  results.set work.idx <| some <| match verifySignatureSetsMaybeBatch bls work.sets with
    | .ok isValid => .success isValid
    | .error e => .error e

def verifyManySignatureSets (workReqArr : List BlsWorkReq) :
    Except String (List (Option WorkResult)) := do
  let (batchableSets, nonBatchableSets) ← splitWork bls 0 workReqArr
  let st : WorkState PublicKey := ⟨List.replicate workReqArr.length none, nonBatchableSets⟩
  let st := if batchableSets.length > 0 then
      (chunkifyMaximizeChunkSize batchableSets BATCHABLE_MIN_PER_CHUNK).foldl (verifyChunk bls) st
    else st
  return st.nonBatchableSets.foldl (verifyAlone bls) st.results

end

end Lodestar.Chain
