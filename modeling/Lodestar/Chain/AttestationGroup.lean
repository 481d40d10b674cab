import Mathlib
import Lodestar.Chain.SlotPools
import Lodestar.StateTransition.EpochProcess

/-!
# Aggregates over one committee

`MatchingDataAttestationGroup` of `chain/opPools/aggregatedAttestationPool.ts`:
a new aggregate is merged into each stored one that shares no attester with it,
and is stored itself if it was merged into none and is contained in none.
-/

namespace Lodestar.Chain

open Lodestar.Base Lodestar.StateTransition

/-! ## Signatures -/

/-- `Signature` of `@chainsafe/bls`: `B` is the type of the bytes, `P` that of the points. Bytes are
read with validation. -/
structure BlsSignature (B P : Type) where
  fromBytes : B → Except String P
  aggregate : List P → Except String P
  toBytes : P → B
  G2_POINT_AT_INFINITY : B

/-- What is relied on of the library: points are read back, aggregating adds them, and the neutral
one is the point at infinity. -/
structure BlsSignature.Lawful {B P : Type} [AddCommMonoid P] (bls : BlsSignature B P) : Prop where
  fromBytes_toBytes : ∀ point, bls.fromBytes (bls.toBytes point) = .ok point
  aggregate_cons : ∀ point points, bls.aggregate (point :: points) = .ok (point :: points).sum
  toBytes_zero : bls.toBytes 0 = bls.G2_POINT_AT_INFINITY

theorem BlsSignature.Lawful.aggregate_of_ne_nil {B P : Type} [AddCommMonoid P]
    {bls : BlsSignature B P} (hbls : bls.Lawful) {points : List P} (h : points ≠ []) :
    bls.aggregate points = .ok points.sum := by
  cases points with
  | nil => exact (h rfl).elim
  | cons point points => exact hbls.aggregate_cons point points

/-! ## Attestations of a group -/

/-- `phase0.Attestation`, with `B` for the bytes of a signature. -/
structure AggregateAttestation (B : Type) where
  aggregationBits : List Bool
  data : AttestationData
  signature : B
  deriving DecidableEq

structure AttestationWithIndex (B : Type) where
  attestation : AggregateAttestation B
  attestingIndices : Finset Nat
  notSeenAttesterCount : Option Nat := none
  deriving DecidableEq

abbrev MAX_RETAINED_ATTESTATIONS_PER_GROUP : Nat := 4

abbrev MAX_ATTESTATIONS_PER_GROUP : Nat := 2

structure MatchingDataAttestationGroup (B : Type) where
  committee : List Nat
  data : AttestationData
  attestations : List (AttestationWithIndex B)

variable {B P : Type}

/-- How many of `smallSet` are in `bigSet`. -/
def intersection (bigSet smallSet : Finset Nat) : Nat := (smallSet.filter (· ∈ bigSet)).card

def bitArrayMergeOrWith (bits1 bits2 : List Bool) : List Bool :=
  (List.range bits2.length).foldl
    (fun bits1 i => if bits2.getD i false then bits1.set i true else bits1) bits1

/-- Changes the first attestation. Its indices and bits are changed before a signature is read. -/
def aggregateInto (bls : BlsSignature B P) (attestation2 : AttestationWithIndex B) :
    EStateM String (AttestationWithIndex B) Unit := do
  modify fun attestation1 =>
    { attestation1 with
      attestingIndices := attestation1.attestingIndices ∪ attestation2.attestingIndices }
  modify fun attestation1 =>
    { attestation1 with
      attestation.aggregationBits := bitArrayMergeOrWith attestation1.attestation.aggregationBits
        attestation2.attestation.aggregationBits }
  let signature1 ← MonadExcept.ofExcept (bls.fromBytes (← get).attestation.signature)
  let signature2 ← MonadExcept.ofExcept (bls.fromBytes attestation2.attestation.signature)
  let signature ← MonadExcept.ofExcept (bls.aggregate [signature1, signature2])
  modify fun attestation1 =>
    { attestation1 with attestation.signature := bls.toBytes signature }

namespace MatchingDataAttestationGroup

def new (committee : List Nat) (data : AttestationData) : MatchingDataAttestationGroup B :=
  ⟨committee, data, []⟩

/-- How many attesters an existing attestation shares with a new one. -/
def numIntersection (existingAttestingIndices attestingIndices : Finset Nat) : Nat :=
  if attestingIndices.card ≤ existingAttestingIndices.card then
    intersection existingAttestingIndices attestingIndices
  else intersection attestingIndices existingAttestingIndices

/-- The loop of `add` over the existing attestations, the first of them at index `i`:
`insertResult` and `indicesToRemove`, and what is left of the attestations. -/
def preaggregate (bls : BlsSignature B P) (attestation : AttestationWithIndex B) :
    Nat → List (AttestationWithIndex B) → InsertOutcome → List Nat →
      EStateM.Result String (List (AttestationWithIndex B)) (InsertOutcome × List Nat)
  | _, [], insertResult, indicesToRemove => .ok (insertResult, indicesToRemove) []
  | i, existing :: attestations, insertResult, indicesToRemove =>
    let num := numIntersection existing.attestingIndices attestation.attestingIndices
    if num = 0 then
      match aggregateInto bls attestation existing with
      | .error e existing => .error e (existing :: attestations)
      | .ok _ existing => mapState (existing :: ·)
        (preaggregate bls attestation (i + 1) attestations .aggregated indicesToRemove)
    else mapState (existing :: ·) <|
      -- A subset of an existing one.
      if num = attestation.attestingIndices.card then
        preaggregate bls attestation (i + 1) attestations .alreadyKnown indicesToRemove
      -- A superset of an existing one.
      else if num = existing.attestingIndices.card then
        preaggregate bls attestation (i + 1) attestations insertResult (indicesToRemove ++ [i])
      else preaggregate bls attestation (i + 1) attestations insertResult indicesToRemove

/-- Those with the most attesters first. -/
def sortByAttesters (attestations : List (AttestationWithIndex B)) : List (AttestationWithIndex B) :=
  attestations.insertionSort fun a b => b.attestingIndices.card ≤ a.attestingIndices.card

/-- What `add` does to the attestations when the new one was neither merged nor known. -/
def insert (attestation : AttestationWithIndex B) (indicesToRemove : List Nat)
    (attestations : List (AttestationWithIndex B)) : List (AttestationWithIndex B) :=
  let kept := indicesToRemove.reverse.foldl List.eraseIdx attestations ++ [attestation]
  if MAX_RETAINED_ATTESTATIONS_PER_GROUP < kept.length then
    (sortByAttesters kept).take MAX_RETAINED_ATTESTATIONS_PER_GROUP
  else kept

def add (bls : BlsSignature B P) (attestation : AttestationWithIndex B) :
    EStateM String (MatchingDataAttestationGroup B) InsertOutcome := fun this =>
  match preaggregate bls attestation 0 this.attestations .newData [] with
  | .error e attestations => .error e { this with attestations }
  | .ok (insertResult, indicesToRemove) attestations =>
    .ok insertResult { this with
      attestations := if insertResult = .newData then insert attestation indicesToRemove attestations
        else attestations }

/-- `{...attestation, notSeenAttesterCount}` of those with attesters that are not seen. -/
def getAttestationsForBlock (this : MatchingDataAttestationGroup B)
    (seenAttestingIndices : Finset Nat) : List (AttestationWithIndex B) :=
  let attestations := this.attestations.filterMap fun attestation =>
    let notSeenAttesterCount := (attestation.attestingIndices \ seenAttestingIndices).card
    if 0 < notSeenAttesterCount then
      some { attestation with notSeenAttesterCount := some notSeenAttesterCount }
    else none
  let count := fun (a : AttestationWithIndex B) =>
    a.notSeenAttesterCount.getD a.attestingIndices.card
  (attestations.insertionSort fun a b => count b ≤ count a).take MAX_ATTESTATIONS_PER_GROUP

def getAttestations (this : MatchingDataAttestationGroup B) : List (AggregateAttestation B) :=
  this.attestations.map (·.attestation)

end MatchingDataAttestationGroup

/-! ## Shared attesters -/

theorem intersection_eq (bigSet smallSet : Finset Nat) :
    intersection bigSet smallSet = (bigSet ∩ smallSet).card := by
  rw [intersection, Finset.filter_mem_eq_inter, Finset.inter_comm]

namespace MatchingDataAttestationGroup

variable (existing attesting : Finset Nat)

theorem numIntersection_eq : numIntersection existing attesting = (existing ∩ attesting).card := by
  unfold numIntersection
  split
  · exact intersection_eq _ _
  · rw [intersection_eq, Finset.inter_comm]

theorem numIntersection_eq_zero : numIntersection existing attesting = 0 ↔
    Disjoint existing attesting := by
  rw [numIntersection_eq, Finset.card_eq_zero, Finset.disjoint_iff_inter_eq_empty]

theorem numIntersection_eq_new : numIntersection existing attesting = attesting.card ↔
    attesting ⊆ existing := by
  rw [numIntersection_eq, ← Finset.inter_eq_right]
  refine ⟨fun h => Finset.eq_of_subset_of_card_le Finset.inter_subset_right h.ge, fun h => by rw [h]⟩

theorem numIntersection_eq_existing : numIntersection existing attesting = existing.card ↔
    existing ⊆ attesting := by
  rw [numIntersection_eq, ← Finset.inter_eq_left]
  refine ⟨fun h => Finset.eq_of_subset_of_card_le Finset.inter_subset_left h.ge, fun h => by rw [h]⟩

end MatchingDataAttestationGroup

/-! ## Merged bits -/

theorem getElem?_mergeLoop (bits1 bits2 : List Bool) (n j : Nat) :
    ((List.range n).foldl
      (fun bits1 i => if bits2.getD i false then bits1.set i true else bits1) bits1)[j]? =
      bits1[j]?.map (· || (decide (j < n) && bits2.getD j false)) := by
  induction n with
  | zero => simp
  | succ n ih =>
    rw [List.range_succ, List.foldl_append, List.foldl_cons, List.foldl_nil]
    cases hbit : bits2.getD n false with
    | true =>
      rw [if_pos rfl, List.getElem?_set']
      by_cases hj : n = j
      · subst hj
        rw [if_pos rfl, ih, hbit]
        cases bits1[n]? <;> simp
      · have hlt : decide (j < n + 1) = decide (j < n) := decide_eq_decide.2 (by omega)
        rw [if_neg hj, ih, hlt]
    | false =>
      rw [if_neg Bool.false_ne_true, ih]
      by_cases hj : n = j
      · subst hj
        simp only [hbit, Bool.and_false]
      · have hlt : decide (j < n + 1) = decide (j < n) := decide_eq_decide.2 (by omega)
        rw [hlt]

theorem getElem?_bitArrayMergeOrWith (bits1 bits2 : List Bool) (j : Nat) :
    (bitArrayMergeOrWith bits1 bits2)[j]? = bits1[j]?.map (· || bits2.getD j false) := by
  rw [bitArrayMergeOrWith, getElem?_mergeLoop]
  by_cases hj : j < bits2.length
  · simp [hj]
  · have hnone : bits2[j]? = none := List.getElem?_eq_none (Nat.le_of_not_lt hj)
    simp [hj, List.getD_eq_getElem?_getD]

theorem length_bitArrayMergeOrWith (bits1 bits2 : List Bool) :
    (bitArrayMergeOrWith bits1 bits2).length = bits1.length := by
  have hnone : ∀ j, (bitArrayMergeOrWith bits1 bits2)[j]? = none ↔ bits1[j]? = none := fun j => by
    rw [getElem?_bitArrayMergeOrWith, Option.map_eq_none_iff]
  have h := (hnone (bitArrayMergeOrWith bits1 bits2).length).1 (List.getElem?_eq_none le_rfl)
  have h' := (hnone bits1.length).2 (List.getElem?_eq_none le_rfl)
  rw [List.getElem?_eq_none_iff] at h h'
  omega

theorem mem_zipIndexesCommitteeBits {committee : List Nat} {bits : List Bool} {v : Nat} :
    v ∈ zipIndexesCommitteeBits committee bits ↔
      ∃ i : Nat, committee[i]? = some v ∧ bits[i]? = some true := by
  unfold zipIndexesCommitteeBits
  rw [List.mem_map]
  constructor
  · rintro ⟨⟨w, bit⟩, hmem, rfl⟩
    obtain ⟨hzip, hbit⟩ := List.mem_filter.1 hmem
    obtain ⟨i, hi⟩ := List.mem_iff_getElem?.1 hzip
    obtain ⟨hcommittee, hbits⟩ := List.getElem?_zip_eq_some.1 hi
    obtain rfl : bit = true := hbit
    exact ⟨i, hcommittee, hbits⟩
  · rintro ⟨i, hcommittee, hbits⟩
    have hzip : (committee.zip bits)[i]? = some (v, true) :=
      List.getElem?_zip_eq_some.2 ⟨hcommittee, hbits⟩
    exact ⟨(v, true), List.mem_filter.2 ⟨List.mem_of_getElem? hzip, rfl⟩, rfl⟩

theorem toFinset_zip_merge {committee : List Nat} {bits1 bits2 : List Bool}
    (h : bits1.length = bits2.length) :
    (zipIndexesCommitteeBits committee (bitArrayMergeOrWith bits1 bits2)).toFinset =
      (zipIndexesCommitteeBits committee bits1).toFinset ∪
        (zipIndexesCommitteeBits committee bits2).toFinset := by
  have hbit : ∀ i : Nat, (bitArrayMergeOrWith bits1 bits2)[i]? = some true ↔
      bits1[i]? = some true ∨ bits2[i]? = some true := by
    intro i
    rw [getElem?_bitArrayMergeOrWith, List.getD_eq_getElem?_getD]
    rcases Nat.lt_or_ge i bits1.length with hi | hi
    · rw [List.getElem?_eq_getElem hi, List.getElem?_eq_getElem (h ▸ hi)]
      simp
    · rw [List.getElem?_eq_none hi, List.getElem?_eq_none (h ▸ hi)]
      simp
  ext v
  simp only [List.mem_toFinset, Finset.mem_union, mem_zipIndexesCommitteeBits, hbit, and_or_left,
    exists_or]

/-! ## Aggregates that count each attester once -/

section Valid

variable [AddCommMonoid P] {bls : BlsSignature B P} {sign : Nat → P} {committee : List Nat}

/-- Bits, indices and signature are of the same members: the signature is the sum of theirs, each
taken once. -/
structure AttestationWithIndex.Valid (bls : BlsSignature B P) (sign : Nat → P)
    (committee : List Nat) (attestation : AttestationWithIndex B) : Prop where
  length_bits : attestation.attestation.aggregationBits.length = committee.length
  bits : (zipIndexesCommitteeBits committee attestation.attestation.aggregationBits).toFinset =
    attestation.attestingIndices
  signature : bls.fromBytes attestation.attestation.signature =
    .ok (∑ i ∈ attestation.attestingIndices, sign i)

theorem aggregateInto_valid (hbls : bls.Lawful) {attestation1 attestation2 : AttestationWithIndex B}
    (h1 : attestation1.Valid bls sign committee) (h2 : attestation2.Valid bls sign committee)
    (hdisjoint : Disjoint attestation1.attestingIndices attestation2.attestingIndices) :
    ∃ merged, aggregateInto bls attestation2 attestation1 = .ok () merged ∧
      merged.Valid bls sign committee ∧
      merged.attestingIndices = attestation1.attestingIndices ∪ attestation2.attestingIndices := by
  set point := ∑ i ∈ attestation1.attestingIndices ∪ attestation2.attestingIndices, sign i
    with hpoint
  have hsum : [∑ i ∈ attestation1.attestingIndices, sign i,
      ∑ i ∈ attestation2.attestingIndices, sign i].sum = point := by
    simp [hpoint, Finset.sum_union hdisjoint]
  have haggregate := hbls.aggregate_cons (∑ i ∈ attestation1.attestingIndices, sign i)
    [∑ i ∈ attestation2.attestingIndices, sign i]
  rw [hsum] at haggregate
  refine ⟨{ attestation1 with
    attestingIndices := attestation1.attestingIndices ∪ attestation2.attestingIndices
    attestation := { attestation1.attestation with
      aggregationBits := bitArrayMergeOrWith attestation1.attestation.aggregationBits
        attestation2.attestation.aggregationBits
      signature := bls.toBytes point } }, ?_, ⟨?_, ?_, hbls.fromBytes_toBytes point⟩, rfl⟩
  · simp only [aggregateInto, bind, EStateM.bind, modify, modifyGet, MonadStateOf.modifyGet,
      EStateM.modifyGet, get, getThe, MonadStateOf.get, EStateM.get, h1.signature, h2.signature,
      haggregate, MonadExcept.ofExcept, pure, EStateM.pure]
  · exact (length_bitArrayMergeOrWith _ _).trans h1.length_bits
  · rw [toFinset_zip_merge (h1.length_bits.trans h2.length_bits.symm), h1.bits, h2.bits]

/-! ## The loop over the existing attestations -/

/-- What becomes of an existing attestation when a new one is added. -/
def Absorbs (bls : BlsSignature B P) (sign : Nat → P) (committee : List Nat)
    (attestation existing existing' : AttestationWithIndex B) : Prop :=
  existing'.Valid bls sign committee ∧
    ((Disjoint existing.attestingIndices attestation.attestingIndices ∧
        existing'.attestingIndices = existing.attestingIndices ∪ attestation.attestingIndices) ∨
      (¬ Disjoint existing.attestingIndices attestation.attestingIndices ∧ existing' = existing))

/-- The new attestation is merged into the existing one, or contained in it. -/
def Joins (attestation existing : AttestationWithIndex B) : Prop :=
  Disjoint existing.attestingIndices attestation.attestingIndices ∨
    attestation.attestingIndices ⊆ existing.attestingIndices

/-- The existing attestation is a proper subset of the new one. -/
def isReplaced (attestation existing : AttestationWithIndex B) : Bool :=
  decide (¬ Disjoint existing.attestingIndices attestation.attestingIndices ∧
    ¬ attestation.attestingIndices ⊆ existing.attestingIndices ∧
    existing.attestingIndices ⊆ attestation.attestingIndices)

open MatchingDataAttestationGroup in
theorem preaggregate_valid (hbls : bls.Lawful) {attestation : AttestationWithIndex B}
    (hnew : attestation.Valid bls sign committee) {attestations : List (AttestationWithIndex B)}
    (hvalid : ∀ e ∈ attestations, e.Valid bls sign committee) (i : Nat)
    (insertResult : InsertOutcome) (indicesToRemove : List Nat) :
    ∃ insertResult' attestations',
      preaggregate bls attestation i attestations insertResult indicesToRemove =
        .ok (insertResult', indicesToRemove ++ indicesOf (isReplaced attestation) i attestations)
          attestations' ∧
      List.Forall₂ (Absorbs bls sign committee attestation) attestations attestations' ∧
      (insertResult' = .newData ↔
        insertResult = .newData ∧ ∀ e ∈ attestations, ¬ Joins attestation e) := by
  induction attestations generalizing i insertResult indicesToRemove with
  | nil => exact ⟨insertResult, [], by simp [preaggregate, indicesOf], .nil, by simp⟩
  | cons existing attestations ih =>
    have hexisting := hvalid existing List.mem_cons_self
    have ih := ih fun e he => hvalid e (List.mem_cons_of_mem _ he)
    unfold preaggregate
    simp only [numIntersection_eq_zero, numIntersection_eq_new, numIntersection_eq_existing]
    by_cases hdisjoint : Disjoint existing.attestingIndices attestation.attestingIndices
    · obtain ⟨merged, hmerge, hmerged, hunion⟩ := aggregateInto_valid hbls hexisting hnew hdisjoint
      obtain ⟨insertResult', attestations', hrun, habsorbs, hiff⟩ :=
        ih (i + 1) .aggregated indicesToRemove
      have hreplaced : isReplaced attestation existing = false := by simp [isReplaced, hdisjoint]
      refine ⟨insertResult', merged :: attestations', ?_,
        .cons ⟨hmerged, .inl ⟨hdisjoint, hunion⟩⟩ habsorbs, ?_⟩
      · rw [if_pos hdisjoint, hmerge, hrun]
        simp [indicesOf, hreplaced]
      · simp [hiff, Joins, hdisjoint]
    · rw [if_neg hdisjoint]
      by_cases hsubset : attestation.attestingIndices ⊆ existing.attestingIndices
      · obtain ⟨insertResult', attestations', hrun, habsorbs, hiff⟩ :=
          ih (i + 1) .alreadyKnown indicesToRemove
        have hreplaced : isReplaced attestation existing = false := by simp [isReplaced, hsubset]
        refine ⟨insertResult', existing :: attestations', ?_,
          .cons ⟨hexisting, .inr ⟨hdisjoint, rfl⟩⟩ habsorbs, ?_⟩
        · rw [if_pos hsubset, hrun]
          simp [indicesOf, hreplaced]
        · simp [hiff, Joins, hsubset]
      · rw [if_neg hsubset]
        have hjoins : ¬ Joins attestation existing := not_or.2 ⟨hdisjoint, hsubset⟩
        by_cases hsuperset : existing.attestingIndices ⊆ attestation.attestingIndices
        · obtain ⟨insertResult', attestations', hrun, habsorbs, hiff⟩ :=
            ih (i + 1) insertResult (indicesToRemove ++ [i])
          have hreplaced : isReplaced attestation existing = true := by
            simp [isReplaced, hdisjoint, hsubset, hsuperset]
          refine ⟨insertResult', existing :: attestations', ?_,
            .cons ⟨hexisting, .inr ⟨hdisjoint, rfl⟩⟩ habsorbs, ?_⟩
          · rw [if_pos hsuperset, hrun]
            simp [indicesOf, hreplaced]
          · simp [hiff, hjoins]
        · obtain ⟨insertResult', attestations', hrun, habsorbs, hiff⟩ :=
            ih (i + 1) insertResult indicesToRemove
          have hreplaced : isReplaced attestation existing = false := by
            simp [isReplaced, hsuperset]
          refine ⟨insertResult', existing :: attestations', ?_,
            .cons ⟨hexisting, .inr ⟨hdisjoint, rfl⟩⟩ habsorbs, ?_⟩
          · rw [if_neg hsuperset, hrun]
            simp [indicesOf, hreplaced]
          · simp [hiff, hjoins]

/-! ## What an addition does -/

/-- The validators that some attestation counts. -/
def coverage (attestations : List (AttestationWithIndex B)) : Finset Nat :=
  attestations.foldr (fun attestation covered => attestation.attestingIndices ∪ covered) ∅

omit [AddCommMonoid P] in
theorem mem_coverage {attestations : List (AttestationWithIndex B)} {v : Nat} :
    v ∈ coverage attestations ↔ ∃ e ∈ attestations, v ∈ e.attestingIndices := by
  induction attestations with
  | nil => simp [coverage]
  | cons e attestations ih =>
    show v ∈ e.attestingIndices ∪ coverage attestations ↔ _
    rw [Finset.mem_union, ih, List.exists_mem_cons_iff]

omit [AddCommMonoid P] in
theorem coverage_append (l l' : List (AttestationWithIndex B)) :
    coverage (l ++ l') = coverage l ∪ coverage l' := by
  ext v
  simp [mem_coverage, or_and_right, exists_or]

section Absorbs

variable {attestation existing existing' : AttestationWithIndex B}
  {attestations attestations' : List (AttestationWithIndex B)}

theorem Absorbs.subset (h : Absorbs bls sign committee attestation existing existing') :
    existing.attestingIndices ⊆ existing'.attestingIndices := by
  rcases h.2 with ⟨-, hunion⟩ | ⟨-, rfl⟩
  · rw [hunion]
    exact Finset.subset_union_left
  · exact subset_rfl

theorem Absorbs.subset_union (h : Absorbs bls sign committee attestation existing existing') :
    existing'.attestingIndices ⊆ existing.attestingIndices ∪ attestation.attestingIndices := by
  rcases h.2 with ⟨-, hunion⟩ | ⟨-, rfl⟩
  · rw [hunion]
  · exact Finset.subset_union_left

theorem Absorbs.of_joins (h : Absorbs bls sign committee attestation existing existing')
    (hjoins : Joins attestation existing) :
    attestation.attestingIndices ⊆ existing'.attestingIndices := by
  rcases h.2 with ⟨-, hunion⟩ | ⟨hdisjoint, rfl⟩
  · rw [hunion]
    exact Finset.subset_union_right
  · exact hjoins.resolve_left hdisjoint

/-- Nothing is lost by merging, and the new attesters are added if some attestation takes them. -/
theorem coverage_absorbs
    (h : List.Forall₂ (Absorbs bls sign committee attestation) attestations attestations')
    (hjoins : ∃ e ∈ attestations, Joins attestation e) :
    coverage attestations' = coverage attestations ∪ attestation.attestingIndices := by
  have hgrows : coverage attestations ⊆ coverage attestations' ∧
      coverage attestations' ⊆ coverage attestations ∪ attestation.attestingIndices := by
    clear hjoins
    induction h with
    | nil => simp [coverage]
    | @cons e e' l l' he _ ih =>
      refine ⟨Finset.union_subset_union he.subset ih.1, ?_⟩
      show e'.attestingIndices ∪ coverage l' ⊆
        e.attestingIndices ∪ coverage l ∪ attestation.attestingIndices
      refine Finset.union_subset (he.subset_union.trans ?_) (ih.2.trans ?_)
      · exact Finset.union_subset_union Finset.subset_union_left subset_rfl
      · exact Finset.union_subset_union Finset.subset_union_right subset_rfl
  have hadded : attestation.attestingIndices ⊆ coverage attestations' := by
    clear hgrows
    induction h with
    | nil => simp at hjoins
    | @cons e e' l l' he _ ih =>
      show _ ⊆ e'.attestingIndices ∪ coverage l'
      rcases (List.exists_mem_cons_iff _ _ _).1 hjoins with hhead | htail
      · exact (he.of_joins hhead).trans Finset.subset_union_left
      · exact (ih htail).trans Finset.subset_union_right
  exact subset_antisymm hgrows.2 (Finset.union_subset hgrows.1 hadded)

theorem valid_of_absorbs
    (h : List.Forall₂ (Absorbs bls sign committee attestation) attestations attestations') :
    ∀ e ∈ attestations', e.Valid bls sign committee := by
  induction h with
  | nil => simp
  | cons he _ ih => exact List.forall_mem_cons.2 ⟨he.1, ih⟩

theorem absorbs_eq (h : List.Forall₂ (Absorbs bls sign committee attestation) attestations
    attestations') (hnone : ∀ e ∈ attestations, ¬ Joins attestation e) :
    attestations' = attestations := by
  induction h with
  | nil => rfl
  | @cons e e' l l' he _ ih =>
    rw [ih fun d hd => hnone d (List.mem_cons_of_mem _ hd)]
    rcases he.2 with ⟨hdisjoint, -⟩ | ⟨-, rfl⟩
    · exact (hnone e List.mem_cons_self (.inl hdisjoint)).elim
    · rfl

end Absorbs

/-- The attestations that stay when a new one is stored, and the new one. -/
def keptWith (attestation : AttestationWithIndex B) (attestations : List (AttestationWithIndex B)) :
    List (AttestationWithIndex B) :=
  attestations.filter (fun e => decide (¬ e.attestingIndices ⊆ attestation.attestingIndices))
    ++ [attestation]

section KeptWith

variable {attestation : AttestationWithIndex B} {attestations : List (AttestationWithIndex B)}

omit [AddCommMonoid P] in
theorem coverage_keptWith : coverage (keptWith attestation attestations) =
    coverage attestations ∪ attestation.attestingIndices := by
  have hlast : coverage [attestation] = attestation.attestingIndices := by simp [coverage]
  rw [keptWith, coverage_append, hlast]
  ext v
  rw [Finset.mem_union, Finset.mem_union, mem_coverage, mem_coverage]
  constructor
  · refine Or.imp_left ?_
    rintro ⟨e, he, hv⟩
    exact ⟨e, List.mem_of_mem_filter he, hv⟩
  · rintro (⟨e, he, hv⟩ | hv)
    · by_cases hsubset : e.attestingIndices ⊆ attestation.attestingIndices
      · exact .inr (hsubset hv)
      · exact .inl ⟨e, List.mem_filter.2 ⟨he, decide_eq_true hsubset⟩, hv⟩
    · exact .inr hv

omit [AddCommMonoid P] in
theorem filter_keptWith :
    (keptWith attestation attestations).filter
      (fun e => decide (e.attestingIndices ⊆ attestation.attestingIndices)) = [attestation] := by
  rw [keptWith, List.filter_append, List.filter_filter]
  simp

omit [AddCommMonoid P] in
/-- If no attestation is merged with the new one or contains it, those removed by their index are
those that it contains. -/
theorem insert_eq (hnone : ∀ e ∈ attestations, ¬ Joins attestation e) :
    MatchingDataAttestationGroup.insert attestation
      (indicesOf (isReplaced attestation) 0 attestations) attestations =
      if MAX_RETAINED_ATTESTATIONS_PER_GROUP < (keptWith attestation attestations).length then
        (MatchingDataAttestationGroup.sortByAttesters (keptWith attestation attestations)).take
          MAX_RETAINED_ATTESTATIONS_PER_GROUP
      else keptWith attestation attestations := by
  have hfilter : attestations.filter (!isReplaced attestation ·) = attestations.filter
      (fun e => decide (¬ e.attestingIndices ⊆ attestation.attestingIndices)) := by
    refine List.filter_congr fun e he => ?_
    obtain ⟨hdisjoint, hsubset⟩ := not_or.1 (hnone e he)
    simp [isReplaced, hdisjoint, hsubset]
  unfold MatchingDataAttestationGroup.insert
  rw [foldl_eraseIdx_indicesOf, hfilter]
  rfl

end KeptWith

namespace MatchingDataAttestationGroup

/-- The groups that additions of valid aggregates lead to. -/
inductive Reached (bls : BlsSignature B P) (sign : Nat → P) (committee : List Nat)
    (data : AttestationData) : MatchingDataAttestationGroup B → Prop
  | new : Reached bls sign committee data (.new committee data)
  | add {group : MatchingDataAttestationGroup B} {attestation : AttestationWithIndex B} :
    Reached bls sign committee data group → attestation.Valid bls sign committee →
    Reached bls sign committee data (stateOf (add bls attestation group))

/-- After an addition: a new aggregate that was stored contains no other stored one, and what the
attestations count together grows by the new attesters, up to the trim. -/
structure Added (attestation : AttestationWithIndex B)
    (before after : List (AttestationWithIndex B)) (insertResult : InsertOutcome) : Prop where
  not_contained : insertResult = .newData →
    (after.filter fun e => decide (e.attestingIndices ⊆ attestation.attestingIndices)).Sublist
      [attestation]
  coverage : ∃ kept, coverage kept = coverage before ∪ attestation.attestingIndices ∧
    (after = kept ∨ insertResult = .newData ∧
      MAX_RETAINED_ATTESTATIONS_PER_GROUP < kept.length ∧
      after = (sortByAttesters kept).take MAX_RETAINED_ATTESTATIONS_PER_GROUP)

variable {attestation : AttestationWithIndex B} {group : MatchingDataAttestationGroup B}

theorem add_valid (hbls : bls.Lawful) (hnew : attestation.Valid bls sign committee)
    (hgroup : ∀ e ∈ group.attestations, e.Valid bls sign committee) :
    ∃ insertResult group', add bls attestation group = .ok insertResult group' ∧
      (∀ e ∈ group'.attestations, e.Valid bls sign committee) ∧
      Added attestation group.attestations group'.attestations insertResult := by
  obtain ⟨insertResult, attestations', hrun, habsorbs, hiff⟩ :=
    preaggregate_valid hbls hnew hgroup 0 .newData []
  rw [List.nil_append] at hrun
  have hadd : add bls attestation group = .ok insertResult { group with
      attestations := if insertResult = .newData then
          insert attestation (indicesOf (isReplaced attestation) 0 group.attestations) attestations'
        else attestations' } := by
    unfold add
    rw [hrun]
  refine ⟨insertResult, _, hadd, ?_⟩
  by_cases hresult : insertResult = .newData
  · have hnone := (hiff.1 hresult).2
    obtain rfl := absorbs_eq habsorbs hnone
    simp only [if_pos hresult, insert_eq hnone]
    have hkept : ∀ e ∈ keptWith attestation group.attestations, e.Valid bls sign committee := by
      intro e he
      rcases List.mem_append.1 he with he | he
      · exact hgroup e (List.mem_of_mem_filter he)
      · rw [List.mem_singleton.1 he]
        exact hnew
    split
    · next htrim =>
      have hperm : (sortByAttesters (keptWith attestation group.attestations)).Perm
          (keptWith attestation group.attestations) := List.perm_insertionSort _ _
      refine ⟨fun e he => hkept e (hperm.mem_iff.1 (List.mem_of_mem_take he)), fun _ => ?_,
        keptWith attestation group.attestations, coverage_keptWith, .inr ⟨hresult, htrim, rfl⟩⟩
      have hsingle := hperm.filter fun e =>
        decide (e.attestingIndices ⊆ attestation.attestingIndices)
      rw [filter_keptWith] at hsingle
      rw [← List.perm_singleton.1 hsingle]
      exact (List.take_sublist _ _).filter _
    · refine ⟨hkept, fun _ => ?_, keptWith attestation group.attestations, coverage_keptWith,
        .inl rfl⟩
      rw [filter_keptWith]
  · simp only [if_neg hresult]
    have hjoins : ∃ e ∈ group.attestations, Joins attestation e := by
      by_contra hnone
      exact hresult (hiff.2 ⟨rfl, fun e he hj => hnone ⟨e, he, hj⟩⟩)
    exact ⟨valid_of_absorbs habsorbs, fun h => (hresult h).elim, attestations',
      coverage_absorbs habsorbs hjoins, .inl rfl⟩

/-- In every run of additions the stored attestations count each of their attesters once, and each
addition loses nothing but by the trim. -/
theorem reached_add (hbls : bls.Lawful) {data : AttestationData}
    (h : Reached bls sign committee data group) :
    (∀ e ∈ group.attestations, e.Valid bls sign committee) ∧
    ∀ attestation : AttestationWithIndex B, attestation.Valid bls sign committee →
      ∃ insertResult group', add bls attestation group = .ok insertResult group' ∧
        Added attestation group.attestations group'.attestations insertResult := by
  have hvalid : ∀ e ∈ group.attestations, e.Valid bls sign committee := by
    induction h with
    | new => simp [new]
    | add _ hnew ih =>
      obtain ⟨insertResult, group', hadd, hgroup', -⟩ := add_valid hbls hnew ih
      rw [hadd]
      exact hgroup'
  refine ⟨hvalid, fun attestation hnew => ?_⟩
  obtain ⟨insertResult, group', hadd, -, hadded⟩ := add_valid hbls hnew hvalid
  exact ⟨insertResult, group', hadd, hadded⟩

/-- Signatures as the multisets of their signers. -/
def signers : BlsSignature (Multiset Nat) (Multiset Nat) where
  fromBytes := .ok
  aggregate points := .ok points.sum
  toBytes point := point
  G2_POINT_AT_INFINITY := 0

theorem lawful_signers : signers.Lawful := ⟨fun _ => rfl, fun _ _ => rfl, rfl⟩

/-- An aggregate of members of the committee `[3, 5, 8]`. -/
def aggregateOf (bits : List Bool) : AttestationWithIndex (Multiset Nat) where
  attestation :=
    { aggregationBits := bits
      data := ⟨25, 0, 0xb1, ⟨2, 0xa0⟩, ⟨3, 0xb0⟩⟩
      signature := (zipIndexesCommitteeBits [3, 5, 8] bits).toFinset.val }
  attestingIndices := (zipIndexesCommitteeBits [3, 5, 8] bits).toFinset

theorem valid_aggregateOf {bits : List Bool} (h : bits.length = 3) :
    (aggregateOf bits).Valid signers (fun i => {i}) [3, 5, 8] :=
  ⟨h, rfl, congrArg Except.ok (Finset.sum_multiset_singleton _).symm⟩

/-- The group `[3, 5, 8]` with the aggregate of `3`. -/
def groupOfOne : MatchingDataAttestationGroup (Multiset Nat) :=
  stateOf (add signers (aggregateOf [true, false, false])
    (.new [3, 5, 8] ⟨25, 0, 0xb1, ⟨2, 0xa0⟩, ⟨3, 0xb0⟩⟩))

theorem reached_add_groupOfOne :
    ∃ insertResult group',
      add signers (aggregateOf [false, true, true]) groupOfOne = .ok insertResult group' ∧
      Added (aggregateOf [false, true, true]) groupOfOne.attestations group'.attestations
        insertResult :=
  (reached_add lawful_signers (.add .new (valid_aggregateOf rfl))).2 _ (valid_aggregateOf rfl)

example : (stateOf (add signers (aggregateOf [false, true, true]) groupOfOne)).attestations =
    [aggregateOf [true, true, true]] := by decide +kernel

/-! ## What a block is given -/

theorem Reached.valid (hbls : bls.Lawful) {data : AttestationData}
    (h : Reached bls sign committee data group) :
    ∀ e ∈ group.attestations, e.Valid bls sign committee := by
  induction h with
  | new => exact fun e he => absurd he List.not_mem_nil
  | add _ hnew ih =>
    obtain ⟨insertResult, group', hadd, hgroup', -⟩ := add_valid hbls hnew ih
    rw [hadd]
    exact hgroup'

/-- In every run of additions, a block is given valid attestations with attesters that are not seen:
all there are, or two that have the most such attesters. -/
theorem getAttestationsForBlock_reached (hbls : bls.Lawful) {data : AttestationData}
    (h : Reached bls sign committee data group) (seenAttestingIndices : Finset Nat) :
    let unseen := fun e : AttestationWithIndex B => (e.attestingIndices \ seenAttestingIndices).card
    let packed := group.getAttestationsForBlock seenAttestingIndices
    (∀ a ∈ packed, a.Valid bls sign committee ∧ a.notSeenAttesterCount = some (unseen a)) ∧
    ∃ left, ((packed ++ left).map fun e => (e.attestation, e.attestingIndices)).Perm
        ((group.attestations.filter (0 < unseen ·)).map fun e =>
          (e.attestation, e.attestingIndices)) ∧
      (∀ a ∈ packed, ∀ b ∈ left, unseen b ≤ unseen a) ∧
      (left ≠ [] → packed.length = MAX_ATTESTATIONS_PER_GROUP) := by
  intro unseen packed
  set counted := (group.attestations.filter (0 < unseen ·)).map fun e =>
    { e with notSeenAttesterCount := some (unseen e) } with hcounted
  set count := fun a : AttestationWithIndex B =>
    a.notSeenAttesterCount.getD a.attestingIndices.card with hcount
  set sorted := counted.insertionSort fun a b => count b ≤ count a with hsorted
  have hpacked : packed = sorted.take MAX_ATTESTATIONS_PER_GROUP := by
    show List.take _ (List.insertionSort _ (List.filterMap _ _)) = _
    simp only [hsorted, hcounted, ← List.filterMap_eq_map', List.filterMap_filter,
      decide_eq_true_eq]
    rfl
  have hperm : sorted.Perm counted := List.perm_insertionSort _ _
  have hmem : ∀ a ∈ sorted, a.Valid bls sign committee ∧
      a.notSeenAttesterCount = some (unseen a) := by
    intro a ha
    obtain ⟨e, he, rfl⟩ := List.mem_map.1 (hperm.mem_iff.1 ha)
    have hvalid := h.valid hbls e (List.mem_of_mem_filter he)
    exact ⟨⟨hvalid.length_bits, hvalid.bits, hvalid.signature⟩, rfl⟩
  have hdescending : sorted.Pairwise fun a b => count b ≤ count a :=
    have : Std.Total fun a b : AttestationWithIndex B => count b ≤ count a :=
      ⟨fun a b => le_total (count b) (count a)⟩
    have : IsTrans (AttestationWithIndex B) fun a b => count b ≤ count a :=
      ⟨fun _ _ _ hab hbc => hbc.trans hab⟩
    List.pairwise_insertionSort _ _
  refine ⟨fun a ha => hmem a (List.mem_of_mem_take (hpacked ▸ ha)),
    sorted.drop MAX_ATTESTATIONS_PER_GROUP, ?_, fun a ha b hb => ?_, fun hleft => ?_⟩
  · rw [hpacked, List.take_append_drop]
    have hsame := hperm.map fun e => (e.attestation, e.attestingIndices)
    rwa [hcounted, List.map_map] at hsame
  · rw [hpacked] at ha
    rw [← List.take_append_drop MAX_ATTESTATIONS_PER_GROUP sorted] at hdescending
    have hle := (List.pairwise_append.1 hdescending).2.2 a ha b hb
    simpa only [hcount, (hmem a (List.mem_of_mem_take ha)).2,
      (hmem b (List.mem_of_mem_drop hb)).2, Option.getD_some] using hle
  · rw [hpacked, List.length_take]
    have hlt := List.length_pos_iff.2 hleft
    rw [List.length_drop] at hlt
    omega

theorem getAttestationsForBlock_groupOfOne :
    ∃ left, ((groupOfOne.getAttestationsForBlock {5} ++ left).map (·.attestation)).Perm
      [(aggregateOf [true, false, false]).attestation] := by
  obtain ⟨-, left, hperm, -⟩ := getAttestationsForBlock_reached lawful_signers
    (.add .new (valid_aggregateOf (rfl : [true, false, false].length = 3))) {5}
  have hattestations := hperm.map Prod.fst
  rw [List.map_map] at hattestations
  exact ⟨left, hattestations.trans (.of_eq (by decide +kernel))⟩

end MatchingDataAttestationGroup

end Valid

end Lodestar.Chain
