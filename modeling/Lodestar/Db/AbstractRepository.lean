import Lodestar.Base.ByteStore
import Lodestar.Base.KeyValues

/-!
# Repositories on a key-value store

`abstractRepository.ts`, `schema.ts` and the iterators of `controller/level.ts`
of the package `db`. A repository scans the range of its bucket, whose prefix
and big-endian ids make the order of the keys that of the ids.
-/

namespace Lodestar.Db

open Lodestar.Base (Bytes ByteStore IFilterOptions toBytesBE ofBytesBE)

/-! ## Keys -/

inductive Bucket where
  | allForks_stateArchive
  | allForks_block
  | allForks_blockArchive
  | index_blockArchiveParentRootIndex
  | index_blockArchiveRootIndex
  | index_mainChain
  | index_chainInfo
  | phase0_eth1Data
  | index_depositDataRoot
  | phase0_depositEvent
  | phase0_preGenesisState
  | phase0_preGenesisStateLastProcessedBlock
  | phase0_depositData
  | phase0_exit
  | phase0_proposerSlashing
  | phase0_attesterSlashing
  | phase0_slashingProtectionBlockBySlot
  | phase0_slashingProtectionAttestationByTarget
  | phase0_slashingProtectionAttestationLowerBound
  | index_slashingProtectionMinSpanDistance
  | index_slashingProtectionMaxSpanDistance
  | index_stateArchiveRootIndex
  | lightClient_syncCommitteeWitness
  | lightClient_syncCommittee
  | lightClient_checkpointHeader
  | lightClient_bestPartialLightClientUpdate
  | validator_metaData
  | backfilled_ranges
  deriving DecidableEq

/-- The value of the enumeration. -/
def Bucket.value : Bucket → Nat
  | allForks_stateArchive => 0
  | allForks_block => 1
  | allForks_blockArchive => 2
  | index_blockArchiveParentRootIndex => 3
  | index_blockArchiveRootIndex => 4
  | index_mainChain => 6
  | index_chainInfo => 7
  | phase0_eth1Data => 8
  | index_depositDataRoot => 9
  | phase0_depositEvent => 19
  | phase0_preGenesisState => 30
  | phase0_preGenesisStateLastProcessedBlock => 31
  | phase0_depositData => 12
  | phase0_exit => 13
  | phase0_proposerSlashing => 14
  | phase0_attesterSlashing => 15
  | phase0_slashingProtectionBlockBySlot => 20
  | phase0_slashingProtectionAttestationByTarget => 21
  | phase0_slashingProtectionAttestationLowerBound => 22
  | index_slashingProtectionMinSpanDistance => 23
  | index_slashingProtectionMaxSpanDistance => 24
  | index_stateArchiveRootIndex => 26
  | lightClient_syncCommitteeWitness => 51
  | lightClient_syncCommittee => 52
  | lightClient_checkpointHeader => 53
  | lightClient_bestPartialLightClientUpdate => 54
  | validator_metaData => 41
  | backfilled_ranges => 42

def BUCKET_LENGTH : Nat := 1
def uintLen : Nat := 8

/-- A `Uint8Array` or a number. -/
inductive Id where
  | bytes (key : Bytes)
  | number (key : Nat)

/-- The bucket, in little-endian order, and the key. -/
def encodeKey (bucket : Nat) (key : Id) : Bytes :=
  (toBytesBE BUCKET_LENGTH bucket).reverse ++
    match key with
    | .bytes key => key
    | .number key => toBytesBE uintLen key

/-! ## The store -/

/-- `level`: what it stores, and what its iterator yields for a range and a limit. -/
structure Level where
  entries : ByteStore Bytes
  iterator : IFilterOptions Bytes → Int → List (Bytes × Bytes)

/-- The iterator passes through the entries in the order of the keys, or in the other one, and a
negative limit is none. -/
def Level.InOrder (db : Level) : Prop :=
  ∀ (opts : IFilterOptions Bytes) (limit : Int), db.iterator opts limit =
    if limit < 0 then opts.between db.entries.toList
    else (opts.between db.entries.toList).take limit.toNat

namespace LevelDbController

variable (db : Level) (opts : IFilterOptions Bytes)

def entriesStream : List (Bytes × Bytes) :=
  db.iterator opts (match opts.limit with
    | some limit => limit
    | none => -1)

def keysStream : List Bytes := (entriesStream db opts).map Prod.fst

def valuesStream : List Bytes := (entriesStream db opts).map Prod.snd

end LevelDbController

/-! ## Repositories -/

/-- A repository; its class may decode keys in its own way. -/
structure Repository (I T : Type) where
  bucket : Bucket
  decodeKey : Bytes → I
  decodeValue : Bytes → Except String T

def decodeKey (key : Bytes) : Bytes := key.drop BUCKET_LENGTH

/-- `decodeKey` of the repositories that read their ids back. -/
def decodeNumberKey (key : Bytes) : Nat := ofBytesBE (decodeKey key)

namespace Repository

variable {I T : Type} (this : Repository I T) (db : Level) (opts : IFilterOptions Nat)

def dbFilterOptions : IFilterOptions Bytes :=
  let _opts : IFilterOptions Bytes :=
    { gte := some (encodeKey this.bucket.value (.bytes []))
      lt := some (encodeKey (this.bucket.value + 1) (.bytes [])) }
  let _opts :=
    match opts.lt, opts.lte with
    | some lt, _ => { _opts with lt := some (encodeKey this.bucket.value (.number lt)) }
    | none, some lte =>
      { _opts with lt := none, lte := some (encodeKey this.bucket.value (.number lte)) }
    | none, none => _opts
  let _opts :=
    match opts.gt, opts.gte with
    | some gt, _ => { _opts with gte := none, gt := some (encodeKey this.bucket.value (.number gt)) }
    | none, some gte => { _opts with gte := some (encodeKey this.bucket.value (.number gte)) }
    | none, none => _opts
  { _opts with reverse := opts.reverse, limit := opts.limit }

def keys : List I :=
  (LevelDbController.keysStream db (this.dbFilterOptions opts)).map this.decodeKey

def values : Except String (List T) :=
  (LevelDbController.valuesStream db (this.dbFilterOptions opts)).mapM this.decodeValue

def entries : Except String (List (I × T)) :=
  (LevelDbController.entriesStream db (this.dbFilterOptions opts)).mapM fun data => do
    return (this.decodeKey data.1, ← this.decodeValue data.2)

/-! The streams yield what they decode one after the other. -/

def binaryEntriesStream : List (Bytes × Bytes) :=
  LevelDbController.entriesStream db (this.dbFilterOptions opts)

def keysStream : List I :=
  (LevelDbController.keysStream db (this.dbFilterOptions opts)).map this.decodeKey

def valuesStream : List (Except String T) :=
  (LevelDbController.valuesStream db (this.dbFilterOptions opts)).map this.decodeValue

def entriesStream : List (Except String (I × T)) :=
  (LevelDbController.entriesStream db (this.dbFilterOptions opts)).map fun entry => do
    return (this.decodeKey entry.1, ← this.decodeValue entry.2)

end Repository

/-! ## The order of the keys -/

theorem Bucket.value_lt (bucket : Bucket) : bucket.value + 1 < 256 := by
  cases bucket <;> decide

theorem encodeKey_number (bucket key : Nat) :
    encodeKey bucket (.number key) = UInt8.ofNat bucket :: toBytesBE uintLen key := by
  simp [encodeKey, toBytesBE, BUCKET_LENGTH]

theorem encodeKey_empty (bucket : Nat) : encodeKey bucket (.bytes []) = [UInt8.ofNat bucket] := by
  simp [encodeKey, toBytesBE, BUCKET_LENGTH]

theorem decodeNumberKey_encodeKey {bucket key : Nat} (h : key < 2 ^ 64) :
    decodeNumberKey (encodeKey bucket (.number key)) = key := by
  unfold decodeNumberKey decodeKey BUCKET_LENGTH
  rw [encodeKey_number, List.drop_succ_cons, List.drop_zero, Lodestar.Base.ofBytesBE_toBytesBE]
  exact Nat.mod_eq_of_lt (by unfold uintLen; omega)

theorem compare_cons_self (x : UInt8) (a b : Bytes) : compare (x :: a) (x :: b) = compare a b := by
  have hself : compare x x = .eq := Std.ReflCmp.compare_self
  rw [List.compare_cons_cons, hself, Ordering.eq_then]

theorem compare_encodeKey {bucket n m : Nat} (hn : n < 2 ^ 64) (hm : m < 2 ^ 64) :
    compare (encodeKey bucket (.number n)) (encodeKey bucket (.number m)) = compare n m := by
  rw [encodeKey_number, encodeKey_number, compare_cons_self]
  exact Lodestar.Base.compare_toBytesBE (by unfold uintLen; omega) (by unfold uintLen; omega)

theorem compare_cons_of_lt {x y : UInt8} (h : x < y) (a b : Bytes) :
    compare (x :: a) (y :: b) = .lt := by
  rw [List.compare_cons_cons, Std.compare_eq_lt.mpr h]
  rfl

theorem compare_cons_of_gt {x y : UInt8} (h : y < x) (a b : Bytes) :
    compare (x :: a) (y :: b) = .gt := by
  rw [List.compare_cons_cons, Std.compare_eq_gt.mpr h]
  rfl

/-- The key is one of the bucket. -/
def inBucket (bucket : Bucket) (key : Bytes) : Bool :=
  key.head? = some (UInt8.ofNat bucket.value)

theorem inBucket_encodeKey (bucket : Bucket) (id : Nat) :
    inBucket bucket (encodeKey bucket.value (.number id)) = true := by
  rw [inBucket, encodeKey_number]
  exact decide_eq_true rfl

theorem prefix_lt (bucket : Bucket) :
    UInt8.ofNat bucket.value < UInt8.ofNat (bucket.value + 1) := by
  have := bucket.value_lt
  rw [UInt8.lt_iff_toNat_lt, UInt8.toNat_ofNat', UInt8.toNat_ofNat']
  omega

namespace Repository

variable {I T : Type} {this : Repository I T} {db : Level} {opts : IFilterOptions Nat} {key : Bytes}

theorem inRange_of_before
    (h : ∀ rest, compare (UInt8.ofNat this.bucket.value :: rest) key = .gt) :
    (this.dbFilterOptions opts).inRange key = false := by
  have hnumber : ∀ id, compare (encodeKey this.bucket.value (.number id)) key = .gt := by
    intro id
    rw [encodeKey_number]
    exact h _
  have hprefix : compare (encodeKey this.bucket.value (.bytes [])) key = .gt := by
    rw [encodeKey_empty]
    exact h _
  obtain ⟨gt, gte, lt, lte, reverse, limit⟩ := opts
  cases gt <;> cases gte <;> cases lt <;> cases lte <;>
    simp [dbFilterOptions, IFilterOptions.inRange, hnumber, hprefix]

theorem inRange_of_after
    (h : ∀ rest, compare key (UInt8.ofNat this.bucket.value :: rest) = .gt)
    (hnext : (compare key [UInt8.ofNat (this.bucket.value + 1)]).isLT = false) :
    (this.dbFilterOptions opts).inRange key = false := by
  have hnumber : ∀ id, compare key (encodeKey this.bucket.value (.number id)) = .gt := by
    intro id
    rw [encodeKey_number]
    exact h _
  have hprefix : (compare key (encodeKey (this.bucket.value + 1) (.bytes []))).isLT = false := by
    rw [encodeKey_empty]
    exact hnext
  obtain ⟨gt, gte, lt, lte, reverse, limit⟩ := opts
  cases gt <;> cases gte <;> cases lt <;> cases lte <;>
    simp [dbFilterOptions, IFilterOptions.inRange, hnumber, hprefix]

theorem inRange_of_not_inBucket (h : inBucket this.bucket key = false) :
    (this.dbFilterOptions opts).inRange key = false := by
  cases key with
  | nil => exact inRange_of_before fun rest => rfl
  | cons c key =>
    have hne : c ≠ UInt8.ofNat this.bucket.value := by
      rintro rfl
      exact absurd h (by simp [inBucket])
    have hne : c.toNat ≠ (UInt8.ofNat this.bucket.value).toNat := fun h => hne (UInt8.toNat_inj.mp h)
    rcases Nat.lt_or_gt_of_ne hne with hlt | hgt
    · exact inRange_of_before fun rest => compare_cons_of_gt (UInt8.lt_iff_toNat_lt.mpr hlt) rest key
    · have hgt := UInt8.lt_iff_toNat_lt.mpr hgt
      refine inRange_of_after (fun rest => compare_cons_of_gt hgt key rest) ?_
      -- the next bucket starts where this one ends
      have hle : (UInt8.ofNat (this.bucket.value + 1)).toNat ≤ c.toNat := by
        have := this.bucket.value_lt
        rw [UInt8.lt_iff_toNat_lt, UInt8.toNat_ofNat'] at hgt
        rw [UInt8.toNat_ofNat']
        omega
      rcases Nat.eq_or_lt_of_le hle with heq | hlt
      · rw [UInt8.toNat_inj.mp heq, compare_cons_self]
        cases key <;> rfl
      · rw [compare_cons_of_gt (UInt8.lt_iff_toNat_lt.mpr hlt)]
        rfl

/-- The filter names at most one bound on either side, and ids that a number can hold. -/
structure Admissible (opts : IFilterOptions Nat) : Prop where
  upper : opts.lt = none ∨ opts.lte = none
  lower : opts.gt = none ∨ opts.gte = none
  lt_of_mem : ∀ id, id ∈ opts.gt ∨ id ∈ opts.gte ∨ id ∈ opts.lt ∨ id ∈ opts.lte → id < 2 ^ 53

theorem inRange_encodeKey (h : Admissible opts) {id : Nat} (hid : id < 2 ^ 53) :
    (this.dbFilterOptions opts).inRange (encodeKey this.bucket.value (.number id)) =
      opts.inRange id := by
  have hgte : (compare (encodeKey this.bucket.value (.bytes []))
      (encodeKey this.bucket.value (.number id))).isLE = true := by
    rw [encodeKey_empty, encodeKey_number, compare_cons_self]
    rfl
  have hlt : (compare (encodeKey this.bucket.value (.number id))
      (encodeKey (this.bucket.value + 1) (.bytes []))).isLT = true := by
    rw [encodeKey_empty, encodeKey_number, compare_cons_of_lt (prefix_lt _)]
    rfl
  obtain ⟨gt, gte, lt, lte, reverse, limit⟩ := opts
  obtain ⟨hupper, hlower, hmem⟩ := h
  have hbelow : ∀ bound, bound ∈ gt ∨ bound ∈ gte ∨ bound ∈ lt ∨ bound ∈ lte →
      compare (encodeKey this.bucket.value (.number bound))
        (encodeKey this.bucket.value (.number id)) = compare bound id := fun bound hbound =>
    compare_encodeKey ((hmem bound hbound).trans (by decide)) (hid.trans (by decide))
  have habove : ∀ bound, bound ∈ gt ∨ bound ∈ gte ∨ bound ∈ lt ∨ bound ∈ lte →
      compare (encodeKey this.bucket.value (.number id))
        (encodeKey this.bucket.value (.number bound)) = compare id bound := fun bound hbound =>
    compare_encodeKey (hid.trans (by decide)) ((hmem bound hbound).trans (by decide))
  -- the default bounds hold of all ids, and those of the filter as for numbers
  rcases hupper with hupper | hupper <;> rcases hlower with hlower | hlower <;>
    dsimp only at hupper hlower <;> subst hupper hlower
  · cases gte <;> cases lte <;>
      simp [dbFilterOptions, IFilterOptions.inRange, hgte, hlt, hbelow, habove]
  · cases gt <;> cases lte <;>
      simp [dbFilterOptions, IFilterOptions.inRange, hgte, hlt, hbelow, habove]
  · cases gte <;> cases lt <;>
      simp [dbFilterOptions, IFilterOptions.inRange, hgte, hlt, hbelow, habove]
  · cases gt <;> cases lt <;>
      simp [dbFilterOptions, IFilterOptions.inRange, hgte, hlt, hbelow, habove]

/-! ## Scans -/

/-- The entries of the bucket by id, in ascending order. -/
structure IsContent (this : Repository I T) (db : Level) (content : List (Nat × Bytes)) : Prop where
  ascending : content.Pairwise fun e e' => e.1 < e'.1
  mem_iff : ∀ id value, (id, value) ∈ content ↔
    id < 2 ^ 53 ∧ db.entries[encodeKey this.bucket.value (.number id)]? = some value

/-- The keys of the bucket are those of ids. -/
def HoldsIds (this : Repository I T) (db : Level) : Prop :=
  ∀ key, inBucket this.bucket key = true → db.entries[key]? ≠ none →
    ∃ id < 2 ^ 53, key = encodeKey this.bucket.value (.number id)

theorem HoldsIds.exists_id (h : this.HoldsIds db) {e : Bytes × Bytes}
    (he : e ∈ db.entries.toList.filter (inBucket this.bucket ·.1)) :
    ∃ id < 2 ^ 53, e.1 = encodeKey this.bucket.value (.number id) := by
  obtain ⟨hmem, hbucket⟩ := List.mem_filter.mp he
  refine h e.1 hbucket ?_
  have hget : db.entries[e.1]? = some e.2 := Std.TreeMap.mem_toList_iff_getElem?_eq_some.mp hmem
  rw [hget]
  exact Option.some_ne_none _

theorem exists_content (h : this.HoldsIds db) : ∃ content, this.IsContent db content ∧
    db.entries.toList.filter (inBucket this.bucket ·.1) =
      content.map fun e => (encodeKey this.bucket.value (.number e.1), e.2) := by
  set own := db.entries.toList.filter (inBucket this.bucket ·.1) with hown
  have hread : ∀ id < 2 ^ 53,
      decodeNumberKey (encodeKey this.bucket.value (.number id)) = id := fun id hid =>
    decodeNumberKey_encodeKey (hid.trans (by decide))
  refine ⟨own.map fun e => (decodeNumberKey e.1, e.2), ⟨?_, fun id value => ?_⟩, ?_⟩
  · rw [List.pairwise_map]
    refine (Std.TreeMap.ordered_keys_toList.filter _).imp_of_mem fun {e e'} he he' hlt => ?_
    obtain ⟨id, hid, hkey⟩ := h.exists_id he
    obtain ⟨id', hid', hkey'⟩ := h.exists_id he'
    rw [hkey, hkey', compare_encodeKey (hid.trans (by decide)) (hid'.trans (by decide))] at hlt
    rw [hkey, hkey', hread id hid, hread id' hid']
    exact Nat.compare_eq_lt.mp hlt
  · rw [List.mem_map]
    constructor
    · rintro ⟨e, he, heq⟩
      obtain ⟨id', hid, hkey⟩ := h.exists_id he
      obtain ⟨rfl, rfl⟩ := Prod.mk.inj heq
      rw [hkey, hread id' hid, ← hkey]
      exact ⟨hid, Std.TreeMap.mem_toList_iff_getElem?_eq_some.mp (List.mem_filter.mp he).1⟩
    · rintro ⟨hid, hget⟩
      refine ⟨(encodeKey this.bucket.value (.number id), value), ?_, by rw [hread id hid]⟩
      rw [hown, List.mem_filter]
      exact ⟨Std.TreeMap.mem_toList_iff_getElem?_eq_some.mpr hget, inBucket_encodeKey _ id⟩
  · rw [List.map_map]
    refine (List.map_id own).symm.trans (List.map_congr_left fun e he => ?_)
    obtain ⟨id, hid, hkey⟩ := h.exists_id he
    show e = (encodeKey this.bucket.value (.number (decodeNumberKey e.1)), e.2)
    rw [hkey, hread id hid, ← hkey]

theorem binaryEntriesStream_eq (hdb : db.InOrder) (hopts : Admissible opts) {content : List (Nat × Bytes)}
    (hcontent : this.IsContent db content)
    (hown : db.entries.toList.filter (inBucket this.bucket ·.1) =
      content.map fun e => (encodeKey this.bucket.value (.number e.1), e.2)) :
    this.binaryEntriesStream db opts =
      (opts.scan content).map fun e => (encodeKey this.bucket.value (.number e.1), e.2) := by
  have hreverse : (this.dbFilterOptions opts).reverse = opts.reverse := rfl
  have hlimit : (this.dbFilterOptions opts).limit = opts.limit := rfl
  have hbetween : (this.dbFilterOptions opts).between db.entries.toList =
      (opts.between content).map fun e => (encodeKey this.bucket.value (.number e.1), e.2) := by
    rw [← IFilterOptions.between_filter fun key => inRange_of_not_inBucket, hown]
    have hrange : ∀ e ∈ content, (this.dbFilterOptions opts).inRange
        (encodeKey this.bucket.value (.number e.1)) = opts.inRange e.1 := fun e he =>
      inRange_encodeKey hopts ((hcontent.mem_iff e.1 e.2).mp he).1
    exact IFilterOptions.between_map (f := fun id => encodeKey this.bucket.value (.number id))
      hreverse hrange
  rw [binaryEntriesStream, LevelDbController.entriesStream, hdb, hbetween, hlimit, IFilterOptions.scan]
  cases opts.limit with
  | none => rfl
  | some limit =>
    dsimp only
    rw [if_neg (by omega), Int.toNat_natCast, List.map_take]

/-- Keys, values and entries are those of the ids of the bucket that are within the bounds, in
order and up to the limit. A key is decoded to its eight bytes, or to the id. -/
theorem scans_exact (hdb : db.InOrder) (hids : this.HoldsIds db) :
    ∃ content, this.IsContent db content ∧
      (∀ e ∈ content,
        Db.decodeKey (encodeKey this.bucket.value (.number e.1)) = toBytesBE uintLen e.1 ∧
          decodeNumberKey (encodeKey this.bucket.value (.number e.1)) = e.1) ∧
      ∀ opts, Admissible opts →
        let keyOf := fun e : Nat × Bytes =>
          this.decodeKey (encodeKey this.bucket.value (.number e.1))
        let valueOf := fun e : Nat × Bytes => this.decodeValue e.2
        let entryOf := fun e : Nat × Bytes => do return (keyOf e, ← valueOf e)
        this.keys db opts = (opts.scan content).map keyOf ∧
          this.values db opts = (opts.scan content).mapM valueOf ∧
          this.entries db opts = (opts.scan content).mapM entryOf ∧
          this.binaryEntriesStream db opts =
            (opts.scan content).map (fun e => (encodeKey this.bucket.value (.number e.1), e.2)) ∧
          this.keysStream db opts = (opts.scan content).map keyOf ∧
          this.valuesStream db opts = (opts.scan content).map valueOf ∧
          this.entriesStream db opts = (opts.scan content).map entryOf := by
  obtain ⟨content, hcontent, hown⟩ := exists_content hids
  refine ⟨content, hcontent, fun e he => ⟨?_, ?_⟩, fun opts hopts => ?_⟩
  · rw [encodeKey_number]
    rfl
  · have hid := ((hcontent.mem_iff e.1 e.2).mp he).1
    exact decodeNumberKey_encodeKey (hid.trans (by decide))
  · have hstream := binaryEntriesStream_eq hdb hopts hcontent hown
    have hkeys : this.keys db opts = (this.binaryEntriesStream db opts).map
        fun e => this.decodeKey e.1 := List.map_map
    have hvalues : this.valuesStream db opts = (this.binaryEntriesStream db opts).map
        fun e => this.decodeValue e.2 := List.map_map
    rw [hstream, List.map_map] at hkeys hvalues
    refine ⟨hkeys, ?_, ?_, hstream, hkeys, hvalues, ?_⟩
    · show List.mapM _ ((this.binaryEntriesStream db opts).map Prod.snd) = _
      rw [hstream, List.map_map, List.mapM_map]
      rfl
    · show List.mapM _ (this.binaryEntriesStream db opts) = _
      rw [hstream, List.mapM_map]
      rfl
    · show List.map _ (this.binaryEntriesStream db opts) = _
      rw [hstream, List.map_map]
      rfl

/-- The deposit data roots, whose values are kept as bytes. -/
def depositDataRoot : Repository Nat Bytes where
  bucket := .index_depositDataRoot
  decodeKey := decodeNumberKey
  decodeValue := .ok

/-- A deposit data root between an entry of the bucket before and one of the bucket after. -/
def smallEntries : ByteStore Bytes :=
  ((∅ : ByteStore Bytes).insert (encodeKey 8 (.number 300)) [8]
    |>.insert (encodeKey 10 (.bytes [])) [10]).insert (encodeKey 9 (.number 256)) [9]

def smallDb : Level where
  entries := smallEntries
  iterator opts limit :=
    if limit < 0 then opts.between smallEntries.toList
    else (opts.between smallEntries.toList).take limit.toNat

theorem holdsIds_smallDb : depositDataRoot.HoldsIds smallDb := by
  intro key hbucket hkey
  by_cases heq : encodeKey 9 (.number 256) = key
  · exact ⟨256, by decide, heq.symm⟩
  · have hother : encodeKey 8 (.number 300) ≠ key ∧ encodeKey 10 (.bytes []) ≠ key := by
      constructor <;>
      · rintro rfl
        exact absurd hbucket (by decide)
    refine absurd ?_ hkey
    show smallEntries[key]? = none
    rw [smallEntries, Lodestar.Base.ByteStore.getElem?_insert, if_neg heq,
      Lodestar.Base.ByteStore.getElem?_insert, if_neg hother.2,
      Lodestar.Base.ByteStore.getElem?_insert, if_neg hother.1]
    rfl

theorem scans_exact_smallDb : ∃ content, depositDataRoot.IsContent smallDb content ∧
    depositDataRoot.keys smallDb { gt := some 255, limit := some 1 } =
      (IFilterOptions.scan { gt := some 255, limit := some 1 } content).map
        (fun e => decodeNumberKey (encodeKey 9 (.number e.1))) := by
  obtain ⟨content, hcontent, -, hscan⟩ :=
    scans_exact (fun _ _ => rfl : smallDb.InOrder) holdsIds_smallDb
  refine ⟨content, hcontent, (hscan _ ⟨.inr rfl, .inr rfl, ?_⟩).1⟩
  rintro id (h | h | h | h)
  · obtain rfl := Option.some.inj (Option.mem_def.mp h)
    decide
  · cases h
  · cases h
  · cases h

end Repository

end Lodestar.Db
