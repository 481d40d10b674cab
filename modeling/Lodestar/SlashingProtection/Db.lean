import Mathlib.Tactic
import Lodestar.Base.Prog
import Lodestar.SlashingProtection.Types

/-!
# The database behind the two services

One store holds the five repositories. Their keys are the public key followed
by the slot or epoch in big-endian order, so they sort by public key first and
by number second. `DbOp` lists the reads and writes the services await;
`batchPut` is one write.
-/

namespace Lodestar.SlashingProtection

open Std (TreeMap LawfulEqCmp)
open Lodestar.Base

/-- `ssz.Epoch`: what is read back after writing a number. It is a `uint64`, so a natural number
below `2^53` comes back as it was; nothing is said about the rest. -/
structure SszEpoch where
  roundTrip : Int → Nat
  roundTrip_natCast : ∀ n : Nat, n < 2 ^ 53 → roundTrip n = n

/-- What the field gives for the numbers it is meant for. -/
def sszUint64 : SszEpoch where
  roundTrip n := n.toNat
  roundTrip_natCast _ _ := rfl

/-- A repository key. -/
abbrev Key := BLSPubkey × Nat

/-- Byte order of encoded keys. -/
abbrev keyCmp : Key → Key → Ordering := compareLex (compareOn (·.1)) (compareOn (·.2))

/-- The entries of one bucket. -/
abbrev Bucket (α : Type) := TreeMap Key α keyCmp

/-- The two repositories of `DistanceStoreRepository`. -/
inductive Span where
  | minSpan
  | maxSpan
  deriving DecidableEq, Repr

structure Db where
  blockBySlot : Bucket SlashingProtectionBlock
  attestationByTarget : Bucket SlashingProtectionAttestation
  attestationLowerBound : TreeMap BLSPubkey SlashingProtectionLowerBound
  span : Span → Bucket Nat

/-- The empty database. -/
def Db.empty : Db := ⟨∅, ∅, ∅, fun _ => ∅⟩

/-- An awaited read or write. -/
inductive DbOp where
  | attestationByTargetGet (pubkey : BLSPubkey) (targetEpoch : Nat)
  | attestationByTargetGetAll (pubkey : BLSPubkey) (limit : Option Nat)
  | attestationByTargetSet (pubkey : BLSPubkey) (atts : List SlashingProtectionAttestation)
  | attestationLowerBoundGet (pubkey : BLSPubkey)
  | attestationLowerBoundSet (pubkey : BLSPubkey) (value : SlashingProtectionLowerBound)
  | spanGet (span : Span) (pubkey : BLSPubkey) (epoch : Nat)
  | spanSetBatch (span : Span) (pubkey : BLSPubkey) (values : List IDistanceEntry)
  | blockBySlotGet (pubkey : BLSPubkey) (slot : Nat)
  | blockBySlotGetAll (pubkey : BLSPubkey) (limit : Option Nat)
  | blockBySlotSet (pubkey : BLSPubkey) (blocks : List SlashingProtectionBlock)

def DbOp.Resp : DbOp → Type
  | .attestationByTargetGet .. => Option SlashingProtectionAttestation
  | .attestationByTargetGetAll .. => List SlashingProtectionAttestation
  | .attestationLowerBoundGet .. => Option SlashingProtectionLowerBound
  | .spanGet .. => Option Nat
  | .blockBySlotGet .. => Option SlashingProtectionBlock
  | .blockBySlotGetAll .. => List SlashingProtectionBlock
  | .attestationByTargetSet .. | .attestationLowerBoundSet .. | .spanSetBatch ..
  | .blockBySlotSet .. => Unit

/-- The values at the keys of `pubkey` from `0` to `MAX_SAFE_INTEGER` (excluded), in key order. -/
def getAll {α : Type} (bucket : Bucket α) (pubkey : BLSPubkey) (limit : Option Nat) : List α :=
  let all := bucket.toList.filter fun e =>
    (keyCmp (pubkey, 0) e.1).isLE && keyCmp e.1 (pubkey, MAX_SAFE_INTEGER) == .lt
  ((limit.elim all all.take)).map (·.2)

/-- Puts the entries one after the other: of two with one key the later stays. -/
def batchPut {α β : Type} (bucket : Bucket α) (key : β → Key) (value : β → α) (items : List β) :
    Bucket α := items.foldl (fun m b => m.insert (key b) (value b)) bucket

/-- `AttestationByTargetRepository.set`. -/
def Db.setAttestations (db : Db) (pubkey : BLSPubkey) (atts : List SlashingProtectionAttestation) :
    Db :=
  { db with
    attestationByTarget :=
      batchPut db.attestationByTarget (fun att => (pubkey, att.targetEpoch)) id atts }

/-- `AttestationLowerBoundRepository.set`. -/
def Db.setLowerBound (db : Db) (pubkey : BLSPubkey) (value : SlashingProtectionLowerBound) : Db :=
  { db with attestationLowerBound := db.attestationLowerBound.insert pubkey value }

/-- `SpanDistanceRepository.setBatch`. -/
def Db.setSpans (ssz : SszEpoch) (db : Db) (span : Span) (pubkey : BLSPubkey)
    (values : List IDistanceEntry) : Db :=
  { db with
    span := Function.update db.span span
      (batchPut (db.span span) (fun v => (pubkey, v.source)) (fun v => ssz.roundTrip v.distance)
        values) }

/-- `BlockBySlotRepository.set`. -/
def Db.setBlocks (db : Db) (pubkey : BLSPubkey) (blocks : List SlashingProtectionBlock) : Db :=
  { db with
    blockBySlot := batchPut db.blockBySlot (fun block => (pubkey, block.slot)) id blocks }

/-- What an operation answers and does. -/
def act (ssz : SszEpoch) : (o : DbOp) → Db → o.Resp × Db
  | .attestationByTargetGet pubkey targetEpoch, db =>
    (db.attestationByTarget[(pubkey, targetEpoch)]?, db)
  | .attestationByTargetGetAll pubkey limit, db => (getAll db.attestationByTarget pubkey limit, db)
  | .attestationByTargetSet pubkey atts, db => ((), db.setAttestations pubkey atts)
  | .attestationLowerBoundGet pubkey, db => (db.attestationLowerBound[pubkey]?, db)
  | .attestationLowerBoundSet pubkey value, db => ((), db.setLowerBound pubkey value)
  | .spanGet span pubkey epoch, db => ((db.span span)[(pubkey, epoch)]?, db)
  | .spanSetBatch span pubkey values, db => ((), db.setSpans ssz span pubkey values)
  | .blockBySlotGet pubkey slot, db => (db.blockBySlot[(pubkey, slot)]?, db)
  | .blockBySlotGetAll pubkey limit, db => (getAll db.blockBySlot pubkey limit, db)
  | .blockBySlotSet pubkey blocks, db => ((), db.setBlocks pubkey blocks)

/-- The async functions of this package. -/
abbrev Async (α : Type) := Prog DbOp DbOp.Resp SlashingProtectionError α

/-- `await` of a read or write. -/
abbrev awaitOp (o : DbOp) : Async o.Resp := Prog.op o

/-! ## Repositories -/

namespace AttestationByTargetRepository

def get (pubkey : BLSPubkey) (targetEpoch : Nat) : Async (Option SlashingProtectionAttestation) :=
  awaitOp (.attestationByTargetGet pubkey targetEpoch)

def getAll (pubkey : BLSPubkey) (limit : Option Nat) : Async (List SlashingProtectionAttestation) :=
  awaitOp (.attestationByTargetGetAll pubkey limit)

def set (pubkey : BLSPubkey) (atts : List SlashingProtectionAttestation) : Async Unit :=
  awaitOp (.attestationByTargetSet pubkey atts)

end AttestationByTargetRepository

namespace AttestationLowerBoundRepository

def get (pubkey : BLSPubkey) : Async (Option SlashingProtectionLowerBound) :=
  awaitOp (.attestationLowerBoundGet pubkey)

def set (pubkey : BLSPubkey) (value : SlashingProtectionLowerBound) : Async Unit :=
  awaitOp (.attestationLowerBoundSet pubkey value)

end AttestationLowerBoundRepository

namespace SpanDistanceRepository

def get (span : Span) (pubkey : BLSPubkey) (epoch : Nat) : Async (Option Nat) :=
  awaitOp (.spanGet span pubkey epoch)

def setBatch (span : Span) (pubkey : BLSPubkey) (values : List IDistanceEntry) : Async Unit :=
  awaitOp (.spanSetBatch span pubkey values)

end SpanDistanceRepository

namespace BlockBySlotRepository

def getAll (pubkey : BLSPubkey) (limit : Option Nat) : Async (List SlashingProtectionBlock) :=
  awaitOp (.blockBySlotGetAll pubkey limit)

def getFirst (pubkey : BLSPubkey) : Async (Option SlashingProtectionBlock) := do
  let blocks ← getAll pubkey (some 1)
  return blocks.head?

def get (pubkey : BLSPubkey) (slot : Nat) : Async (Option SlashingProtectionBlock) :=
  awaitOp (.blockBySlotGet pubkey slot)

def set (pubkey : BLSPubkey) (blocks : List SlashingProtectionBlock) : Async Unit :=
  awaitOp (.blockBySlotSet pubkey blocks)

end BlockBySlotRepository

/-! ## Reading back -/

theorem keyCmp_eq_iff {k l : Key} : keyCmp k l = .eq ↔ k = l := by
  obtain ⟨p, n⟩ := k; obtain ⟨q, m⟩ := l
  simp [keyCmp, compareLex, compareOn, Ordering.then_eq_eq]

instance : LawfulEqCmp keyCmp where
  compare_self := keyCmp_eq_iff.2 rfl
  eq_of_compare := keyCmp_eq_iff.1

theorem keyCmp_eq_lt {k l : Key} :
    keyCmp k l = .lt ↔ compare k.1 l.1 = .lt ∨ k.1 = l.1 ∧ k.2 < l.2 := by
  simp [keyCmp, compareLex, compareOn, Ordering.then_eq_lt, compare_lt_iff_lt]

/-- A key counts in `getAll` when it is one of `pubkey` below the largest safe integer. -/
theorem keyCmp_range {pubkey : BLSPubkey} {k : Key} :
    ((keyCmp (pubkey, 0) k).isLE && keyCmp k (pubkey, MAX_SAFE_INTEGER) == .lt) = true ↔
      k.1 = pubkey ∧ k.2 < MAX_SAFE_INTEGER := by
  rw [Bool.and_eq_true, beq_iff_eq, keyCmp_eq_lt]
  constructor
  · rintro ⟨hle, hlt | h⟩
    · have hgt : keyCmp (pubkey, 0) k = .gt := by
        rw [Std.OrientedCmp.gt_iff_lt, keyCmp_eq_lt]
        exact .inl hlt
      rw [hgt] at hle
      cases hle
    · exact h
  · rintro ⟨rfl, hlt⟩
    refine ⟨?_, .inr ⟨rfl, hlt⟩⟩
    cases h : keyCmp (k.1, 0) k with
    | lt => rfl
    | eq => rfl
    | gt =>
      rw [Std.OrientedCmp.gt_iff_lt, keyCmp_eq_lt] at h
      simp at h

theorem batchPut_append {α β : Type} (m : Bucket α) (key : β → Key) (value : β → α)
    (l₁ l₂ : List β) :
    batchPut m key value (l₁ ++ l₂) = batchPut (batchPut m key value l₁) key value l₂ := by
  simp [batchPut]

/-- What is read at `k` after a batch: its last entry there, else what was there before. -/
theorem batchPut_get {α β : Type} (m : Bucket α) (key : β → Key) (value : β → α) (items : List β)
    (k : Key) : (batchPut m key value items)[k]? =
      ((items.reverse.find? fun b => key b = k).map value).or m[k]? := by
  induction items using List.reverseRecOn with
  | nil => rfl
  | append_singleton l b ih =>
    rw [batchPut_append]
    show (TreeMap.insert _ (key b) (value b))[k]? = _
    rw [TreeMap.getElem?_insert, List.reverse_append, List.reverse_singleton,
      List.singleton_append, List.find?_cons]
    by_cases hb : key b = k
    · rw [if_pos (keyCmp_eq_iff.2 hb)]; simp [hb]
    · rw [if_neg (mt keyCmp_eq_iff.1 hb), ih]; simp [hb]

theorem batchPut_get_of_notMem {α β : Type} {m : Bucket α} {key : β → Key} {value : β → α}
    {items : List β} {k : Key} (h : ∀ b ∈ items, key b ≠ k) :
    (batchPut m key value items)[k]? = m[k]? := by
  rw [batchPut_get, List.find?_eq_none.2 (by simpa using h), Option.map_none, Option.none_or]

theorem batchPut_get_cases {α β : Type} (m : Bucket α) (key : β → Key) (value : β → α)
    (items : List β) (k : Key) :
    (∃ b ∈ items, key b = k ∧ (batchPut m key value items)[k]? = some (value b)) ∨
      ((∀ b ∈ items, key b ≠ k) ∧ (batchPut m key value items)[k]? = m[k]?) := by
  cases h : items.reverse.find? fun b => key b = k with
  | some b =>
    refine .inl ⟨b, by simpa using List.mem_of_find?_eq_some h, by simpa using List.find?_some h, ?_⟩
    rw [batchPut_get, h]
    rfl
  | none =>
    have hnot : ∀ b ∈ items, key b ≠ k := by simpa using h
    exact .inr ⟨hnot, batchPut_get_of_notMem hnot⟩

theorem batchPut_get_of_mem {α β : Type} {m : Bucket α} (key : β → Key) (value : β → α)
    {items : List β} {k : Key} {b : β} (hb : b ∈ items) (hk : key b = k)
    (hv : ∀ c ∈ items, key c = k → value c = value b) :
    (batchPut m key value items)[k]? = some (value b) := by
  rcases batchPut_get_cases m key value items k with ⟨c, hc, hck, h⟩ | ⟨h, -⟩
  · rw [h, hv c hc hck]
  · exact (h b hb hk).elim

end Lodestar.SlashingProtection
