import Lodestar.Base.ByteStore
import Lodestar.Chain.PrunedOperations
import Lodestar.SlashingProtection.Level

/-!
# The pool over a restart

`fromPersisted`, `toPersisted` and `persistDiff`. The repositories of the
proposer slashings and of the exits write a key as a number and read it back as
bytes, which no `Set` of numbers has: all of the pool is put, and then all that
was persisted before is deleted.
-/

namespace Lodestar.Chain

open Std (TreeMap)
open Lodestar.Base Lodestar.StateTransition

/-! ## Keys -/

/-- A key of a repository of `ValidatorIndex`. -/
inductive IndexKey where
  | number (index : Nat)
  /-- What `decodeKey` returns, whatever its type says. -/
  | bytes (key : Bytes)

/-- `encodeKey`, after the byte of the bucket. -/
def IndexKey.encodeKey : IndexKey → Bytes
  | .number index => toBytesBE SlashingProtection.uintLen index
  | .bytes key => key

/-- `decodeKey` of `Repository`, which slices off the byte of the bucket. -/
def IndexKey.decodeKey (key : Bytes) : IndexKey := .bytes key

/-- What `serializeKey` returns, as a member of a `Set`. -/
inductive SetMember where
  | number (n : Nat)
  | string (s : List Char)
  | array

/-- Two members are one; a decoded array is none of the others. -/
def SetMember.sameValueZero : SetMember → SetMember → Bool
  | .number m, .number n => m = n
  | .string s, .string t => s = t
  | _, _ => false

/-- `has` of the `Set` of the members. -/
def setHas (members : List SetMember) (member : SetMember) : Bool :=
  members.any (·.sameValueZero member)

/-- `(index) => index`. -/
def IndexKey.serializeKey : IndexKey → SetMember
  | .number index => .number index
  | .bytes _ => .array

/-! ## persistDiff -/

/-- A repository of keys `K`; a key is encoded for the database. -/
structure KeyCoding (K : Type) where
  encodeKey : K → Bytes
  decodeKey : Bytes → K
  serializeKey : K → SetMember

/-- The repository of `Uint8Array` keys, with `toHexString`. -/
def rootCoding : KeyCoding Bytes where
  encodeKey := id
  decodeKey := id
  serializeKey key := .string key.toHexString

def indexCoding : KeyCoding IndexKey where
  encodeKey := IndexKey.encodeKey
  decodeKey := IndexKey.decodeKey
  serializeKey := IndexKey.serializeKey

section

variable {K β : Type} (coding : KeyCoding K) (dbRepo : ByteStore β) (items : List (K × β))

/-- `keys` of the repository. -/
def persistedKeys : List K := (TreeMap.keys dbRepo).map coding.decodeKey

def itemsToPut : List (K × β) :=
  items.filter fun item =>
    !setHas ((persistedKeys coding dbRepo).map coding.serializeKey) (coding.serializeKey item.1)

def keysToDelete : List K :=
  (persistedKeys coding dbRepo).filter fun persistedKey =>
    !setHas (items.map fun item => coding.serializeKey item.1) (coding.serializeKey persistedKey)

/-- Persist target items `items` in `dbRepo`. -/
def persistDiff : ByteStore β :=
  (dbRepo.batchPut ((itemsToPut coding dbRepo items).map fun item =>
    (coding.encodeKey item.1, item.2))).batchDelete
      ((keysToDelete coding dbRepo items).map coding.encodeKey)

end

/-- The repositories of the pool. -/
structure BeaconDb where
  attesterSlashing : ByteStore AttesterSlashing
  proposerSlashing : ByteStore ProposerSlashing
  voluntaryExit : ByteStore SignedVoluntaryExit

namespace OpPool

/-- What is put into each repository. -/
def attesterSlashingItems (this : OpPool) : List (Bytes × AttesterSlashing) :=
  this.attesterSlashings.entries.map fun e =>
    (SlashingProtection.rootBytes e.1, e.2.attesterSlashing)

def proposerSlashingItems (this : OpPool) : List (IndexKey × ProposerSlashing) :=
  this.proposerSlashings.entries.map fun e => (.number e.1, e.2)

def voluntaryExitItems (this : OpPool) : List (IndexKey × SignedVoluntaryExit) :=
  this.voluntaryExits.entries.map fun e => (.number e.1, e.2)

def toPersisted (this : OpPool) (db : BeaconDb) : BeaconDb where
  attesterSlashing := persistDiff rootCoding db.attesterSlashing this.attesterSlashingItems
  proposerSlashing := persistDiff indexCoding db.proposerSlashing this.proposerSlashingItems
  voluntaryExit := persistDiff indexCoding db.voluntaryExit this.voluntaryExitItems

def fromPersisted (this : OpPool) (db : BeaconDb) : OpPool :=
  let this := db.attesterSlashing.toList.foldl (fun this e =>
    this.insertAttesterSlashing e.2 (SlashingProtection.ofRootBytes e.1)) this
  let this := db.proposerSlashing.toList.foldl (fun this e => this.insertProposerSlashing e.2) this
  db.voluntaryExit.toList.foldl (fun this e => this.insertVoluntaryExit e.2) this

end OpPool

/-! ## What a repository holds after a diff -/

/-- The repository holds the items under their keys, and nothing else. -/
def HoldsExactly {K β : Type} (coding : KeyCoding K) (dbRepo : ByteStore β)
    (items : List (K × β)) : Prop :=
  ∀ key value, dbRepo[key]? = some value ↔
    ∃ item ∈ items, coding.encodeKey item.1 = key ∧ item.2 = value

section

variable {K β : Type} {coding : KeyCoding K} {dbRepo : ByteStore β} {items : List (K × β)}
  {key : Bytes}

/-- A persisted key is found among those of the items if it is one and `comparable` is true. -/
structure KeyCoding.Compares (coding : KeyCoding K) (comparable : Bool) (items : List (K × β)) :
    Prop where
  encode_decode : ∀ key, coding.encodeKey (coding.decodeKey key) = key
  persisted : ∀ key, ∀ item ∈ items,
    (coding.serializeKey (coding.decodeKey key)).sameValueZero (coding.serializeKey item.1)
      = (comparable && decide (key = coding.encodeKey item.1))
  target : ∀ key, ∀ item ∈ items,
    (coding.serializeKey item.1).sameValueZero (coding.serializeKey (coding.decodeKey key))
      = (comparable && decide (key = coding.encodeKey item.1))

theorem mem_itemsToPut {comparable : Bool} (h : coding.Compares comparable items) {item : K × β} :
    item ∈ itemsToPut coding dbRepo items ↔ item ∈ items ∧
      ¬ (comparable = true ∧ ∃ value, dbRepo[coding.encodeKey item.1]? = some value) := by
  unfold itemsToPut
  rw [List.mem_filter, Bool.not_eq_true', Bool.eq_false_iff]
  refine and_congr_right fun hitem => not_congr ?_
  unfold setHas persistedKeys
  rw [List.any_eq_true, ← ByteStore.mem_keys]
  constructor
  · rintro ⟨member, hmember, hsame⟩
    rw [List.map_map] at hmember
    obtain ⟨key, hkey, rfl⟩ := List.mem_map.mp hmember
    rw [Function.comp_apply, h.persisted key item hitem, Bool.and_eq_true, decide_eq_true_eq]
      at hsame
    exact ⟨hsame.1, hsame.2 ▸ hkey⟩
  · rintro ⟨hcomparable, hkey⟩
    refine ⟨_, List.mem_map_of_mem (List.mem_map_of_mem hkey), ?_⟩
    rw [h.persisted _ item hitem, hcomparable]
    simp

theorem mem_keysToDelete {comparable : Bool} (h : coding.Compares comparable items) :
    key ∈ (keysToDelete coding dbRepo items).map coding.encodeKey ↔
      (∃ value, dbRepo[key]? = some value) ∧
        ¬ (comparable = true ∧ ∃ item ∈ items, coding.encodeKey item.1 = key) := by
  have hfound (key : Bytes) : setHas (items.map fun item => coding.serializeKey item.1)
      (coding.serializeKey (coding.decodeKey key)) = true ↔
        comparable = true ∧ ∃ item ∈ items, coding.encodeKey item.1 = key := by
    unfold setHas
    rw [List.any_map, List.any_eq_true]
    constructor
    · rintro ⟨item, hitem, hsame⟩
      rw [Function.comp_apply, h.target key item hitem, Bool.and_eq_true, decide_eq_true_eq]
        at hsame
      exact ⟨hsame.1, item, hitem, hsame.2.symm⟩
    · rintro ⟨hcomparable, item, hitem, rfl⟩
      refine ⟨item, hitem, ?_⟩
      rw [Function.comp_apply, h.target _ item hitem, hcomparable]
      simp
  rw [List.mem_map, ← ByteStore.mem_keys]
  unfold keysToDelete persistedKeys
  constructor
  · rintro ⟨k, hk, rfl⟩
    obtain ⟨hmem, hnot⟩ := List.mem_filter.mp hk
    obtain ⟨persisted, hpersisted, rfl⟩ := List.mem_map.mp hmem
    rw [h.encode_decode]
    rw [Bool.not_eq_true', Bool.eq_false_iff] at hnot
    exact ⟨hpersisted, mt (hfound persisted).mpr hnot⟩
  · rintro ⟨hkey, hnot⟩
    refine ⟨coding.decodeKey key, List.mem_filter.mpr ⟨List.mem_map_of_mem hkey, ?_⟩,
      h.encode_decode key⟩
    rw [Bool.not_eq_true', Bool.eq_false_iff]
    exact mt (hfound key).mp hnot

theorem getElem?_persistDiff_of_none {comparable : Bool} (h : coding.Compares comparable items)
    (hnodup : (items.map fun item => coding.encodeKey item.1).Nodup)
    (hnone : dbRepo[key]? = none) {value : β} :
    (persistDiff coding dbRepo items)[key]? = some value ↔
      ∃ item ∈ items, coding.encodeKey item.1 = key ∧ item.2 = value := by
  have hkept : key ∉ (keysToDelete coding dbRepo items).map coding.encodeKey := by
    intro hdelete
    obtain ⟨⟨value, hvalue⟩, _⟩ := (mem_keysToDelete h).mp hdelete
    rw [hnone] at hvalue
    cases hvalue
  have hput {item : K × β} (hitem : item ∈ items) (hkey : coding.encodeKey item.1 = key) :
      item ∈ itemsToPut coding dbRepo items := by
    refine (mem_itemsToPut h).mpr ⟨hitem, ?_⟩
    rintro ⟨-, value, hvalue⟩
    rw [hkey, hnone] at hvalue
    cases hvalue
  have hnodup' : (((itemsToPut coding dbRepo items).map fun item =>
      (coding.encodeKey item.1, item.2)).map Prod.fst).Nodup := by
    rw [List.map_map]
    exact hnodup.sublist (List.filter_sublist.map _)
  unfold persistDiff
  rw [ByteStore.getElem?_batchDelete, if_neg hkept]
  constructor
  · intro hvalue
    by_cases hmem : key ∈ ((itemsToPut coding dbRepo items).map fun item =>
        (coding.encodeKey item.1, item.2)).map Prod.fst
    · rw [List.map_map] at hmem
      obtain ⟨item, hitem, rfl⟩ := List.mem_map.mp hmem
      have hget : (dbRepo.batchPut ((itemsToPut coding dbRepo items).map fun item =>
          (coding.encodeKey item.1, item.2)))[coding.encodeKey item.1]? = some item.2 :=
        ByteStore.getElem?_batchPut_of_mem hnodup' (List.mem_map_of_mem hitem)
      refine ⟨item, ((mem_itemsToPut h).mp hitem).1, rfl, ?_⟩
      exact Option.some.inj (hget.symm.trans hvalue)
    · rw [ByteStore.getElem?_batchPut_of_notMem hmem, hnone] at hvalue
      cases hvalue
  · rintro ⟨item, hitem, rfl, rfl⟩
    exact ByteStore.getElem?_batchPut_of_mem hnodup' (List.mem_map_of_mem (hput hitem rfl))

/-- A key that was persisted holds what it held, if the items have it and it is found. -/
theorem getElem?_persistDiff_of_some {comparable : Bool} (h : coding.Compares comparable items)
    {persisted : β} (hsome : dbRepo[key]? = some persisted) {value : β} :
    (persistDiff coding dbRepo items)[key]? = some value ↔
      (comparable = true ∧ ∃ item ∈ items, coding.encodeKey item.1 = key) ∧ persisted = value := by
  unfold persistDiff
  rw [ByteStore.getElem?_batchDelete]
  by_cases hfound : comparable = true ∧ ∃ item ∈ items, coding.encodeKey item.1 = key
  · have hkept : key ∉ (keysToDelete coding dbRepo items).map coding.encodeKey :=
      mt (mem_keysToDelete h).mp fun hdelete => hdelete.2 hfound
    have hnotMem : key ∉ ((itemsToPut coding dbRepo items).map fun item =>
        (coding.encodeKey item.1, item.2)).map Prod.fst := by
      rw [List.map_map]
      intro hmem
      obtain ⟨item, hitem, rfl⟩ := List.mem_map.mp hmem
      exact ((mem_itemsToPut h).mp hitem).2 ⟨hfound.1, persisted, hsome⟩
    rw [if_neg hkept, ByteStore.getElem?_batchPut_of_notMem hnotMem, hsome, and_iff_right hfound,
      Option.some.injEq]
  · rw [if_pos ((mem_keysToDelete h).mpr ⟨⟨persisted, hsome⟩, hfound⟩)]
    exact iff_of_false (by simp) fun hheld => hfound hheld.1

/-- After a diff the repository holds the items, unless one of them was persisted under its key with
another value, or was not found. -/
theorem holdsExactly_persistDiff_iff {comparable : Bool} (h : coding.Compares comparable items)
    (hnodup : (items.map fun item => coding.encodeKey item.1).Nodup) :
    HoldsExactly coding (persistDiff coding dbRepo items) items ↔
      ∀ item ∈ items, ∀ persisted, dbRepo[coding.encodeKey item.1]? = some persisted →
        comparable = true ∧ persisted = item.2 := by
  constructor
  · intro hholds item hitem persisted hsome
    have hheld := (hholds _ _).mpr ⟨item, hitem, rfl, rfl⟩
    obtain ⟨⟨hcomparable, -⟩, hvalue⟩ := (getElem?_persistDiff_of_some h hsome).mp hheld
    exact ⟨hcomparable, hvalue⟩
  · intro hitems key value
    cases hkey : dbRepo[key]? with
    | none => exact getElem?_persistDiff_of_none h hnodup hkey
    | some persisted =>
      rw [getElem?_persistDiff_of_some h hkey]
      constructor
      · rintro ⟨⟨-, item, hitem, rfl⟩, rfl⟩
        exact ⟨item, hitem, rfl, (hitems item hitem persisted hkey).2.symm⟩
      · rintro ⟨item, hitem, rfl, rfl⟩
        obtain ⟨hcomparable, hvalue⟩ := hitems item hitem persisted hkey
        exact ⟨⟨hcomparable, item, hitem, rfl⟩, hvalue⟩

/-! ## The two kinds of keys -/

theorem compares_rootCoding (items : List (Bytes × β)) : rootCoding.Compares true items where
  encode_decode _ := rfl
  persisted key item _ := by
    rw [Bool.true_and, rootCoding, Bool.eq_iff_iff]
    simp [SetMember.sameValueZero, Bytes.toHexString_injective.eq_iff]
  target key item _ := by
    rw [Bool.true_and, rootCoding, Bool.eq_iff_iff]
    simp [SetMember.sameValueZero, Bytes.toHexString_injective.eq_iff, eq_comm]

theorem compares_indexCoding {m : List (Nat × β)} :
    indexCoding.Compares false (m.map fun e => (IndexKey.number e.1, e.2)) where
  encode_decode _ := rfl
  persisted key item hitem := by
    obtain ⟨e, -, rfl⟩ := List.mem_map.mp hitem
    rfl
  target key item hitem := by
    obtain ⟨e, -, rfl⟩ := List.mem_map.mp hitem
    rfl

theorem rootBytes_injective : Function.Injective SlashingProtection.rootBytes := by
  intro a b h
  rw [← SlashingProtection.ofRootBytes_rootBytes a, h, SlashingProtection.ofRootBytes_rootBytes]

theorem encodeKey_number_inj {m n : Nat} (hm : m < 2 ^ 64) (hn : n < 2 ^ 64)
    (h : (IndexKey.number m).encodeKey = (IndexKey.number n).encodeKey) : m = n := by
  have hread := congrArg ofBytesBE h
  unfold IndexKey.encodeKey at hread
  rw [ofBytesBE_toBytesBE, ofBytesBE_toBytesBE, Nat.mod_eq_of_lt (by omega),
    Nat.mod_eq_of_lt (by omega)] at hread
  exact hread

/-! ## Reading back -/

/-- A map that is filled from a repository that holds it; `toKey` and `proj` make the items. -/
theorem get_filled {α γ : Type} [DecidableEq α] {m : OrderedMap α γ} (toKey : α → K) (proj : γ → β)
    (key : Bytes × β → α) (val : Bytes × β → γ)
    (hholds : HoldsExactly coding dbRepo (m.entries.map fun e => (toKey e.1, proj e.2)))
    (hkey : ∀ e ∈ m.entries, key (coding.encodeKey (toKey e.1), proj e.2) = e.1)
    (hval : ∀ c, proj (val c) = c.2) (a : α) :
    ((dbRepo.toList.foldl (fun m c => m.set (key c) (val c))
        (OrderedMap.empty : OrderedMap α γ)).get a).map proj
      = (m.get a).map proj := by
  have hmem {c : Bytes × β} : c ∈ dbRepo.toList ↔
      ∃ e ∈ m.entries, coding.encodeKey (toKey e.1) = c.1 ∧ proj e.2 = c.2 := by
    rw [TreeMap.mem_toList_iff_getElem?_eq_some, hholds]
    constructor
    · rintro ⟨item, hitem, hfst, hsnd⟩
      obtain ⟨e, he, rfl⟩ := List.mem_map.mp hitem
      exact ⟨e, he, hfst, hsnd⟩
    · rintro ⟨e, he, hfst, hsnd⟩
      exact ⟨_, List.mem_map_of_mem he, hfst, hsnd⟩
  have hentry {c : Bytes × β} (hc : c ∈ dbRepo.toList) :
      ∃ e ∈ m.entries, key c = e.1 ∧ coding.encodeKey (toKey e.1) = c.1 ∧ proj e.2 = c.2 := by
    obtain ⟨e, he, hfst, hsnd⟩ := hmem.mp hc
    have hc : c = (coding.encodeKey (toKey e.1), proj e.2) := Prod.ext hfst.symm hsnd.symm
    exact ⟨e, he, hc ▸ hkey e he, hfst, hsnd⟩
  have hdistinct : dbRepo.toList.Pairwise fun c d => key c ≠ key d := by
    refine (TreeMap.distinct_keys_toList (t := dbRepo)).imp_of_mem ?_
    intro c d hc hd hne hsame
    obtain ⟨e, -, hce, hcfst, -⟩ := hentry hc
    obtain ⟨e', -, hde, hdfst, -⟩ := hentry hd
    have hfst : e.1 = e'.1 := hce.symm.trans (hsame.trans hde)
    apply hne
    rw [Std.LawfulEqCmp.compare_eq_iff_eq, ← hcfst, ← hdfst, hfst]
  apply Option.ext
  intro b
  rw [Option.map_eq_some_iff, Option.map_eq_some_iff]
  constructor
  · rintro ⟨v, hv, rfl⟩
    obtain ⟨c, hc, rfl, rfl⟩ := (OrderedMap.get_foldl_set_empty_eq_some_iff hdistinct).mp hv
    obtain ⟨e, he, hce, -, hsnd⟩ := hentry hc
    rw [hval, ← hsnd, hce]
    exact ⟨e.2, OrderedMap.get_eq_some_iff.mpr he, rfl⟩
  · rintro ⟨v, hv, rfl⟩
    have he := OrderedMap.get_eq_some_iff.mp hv
    refine ⟨val (coding.encodeKey (toKey a), proj v), ?_, hval _⟩
    refine (OrderedMap.get_foldl_set_empty_eq_some_iff hdistinct).mpr ⟨_, ?_, hkey (a, v) he, rfl⟩
    exact hmem.mpr ⟨(a, v), he, rfl, rfl⟩

theorem get_filled_index {m : OrderedMap Nat β} (index : β → Nat)
    (hholds : HoldsExactly indexCoding dbRepo (m.entries.map fun e => (IndexKey.number e.1, e.2)))
    (hkey : ∀ e ∈ m.entries, e.1 = index e.2) (a : Nat) :
    (dbRepo.toList.foldl (fun m c => m.set (index c.2) c.2)
      (OrderedMap.empty : OrderedMap Nat β)).get a = m.get a := by
  have hget := get_filled IndexKey.number id (fun c => index c.2) Prod.snd hholds
    (fun e he => (hkey e he).symm) (fun _ => rfl) a
  rwa [Option.map_id, id, id] at hget

end

namespace OpPool

/-! ## Runs -/

/-- The indices that are stored are of 64 bits. -/
structure Uint64Indices (db : BeaconDb) : Prop where
  proposerSlashing : ∀ (key : Bytes) (value : ProposerSlashing),
    db.proposerSlashing[key]? = some value → value.signedHeader1.message.proposerIndex < 2 ^ 64
  voluntaryExit : ∀ (key : Bytes) (value : SignedVoluntaryExit),
    db.voluntaryExit[key]? = some value → value.message.validatorIndex < 2 ^ 64

/-- A call on the pool, each `toPersisted` complete before the next call; or a restart. -/
inductive PoolStep (hashTreeRoot : AttesterSlashing → RootHex) :
    OpPool × BeaconDb → OpPool × BeaconDb → Prop
  | insertAttesterSlashing (this : OpPool) (db : BeaconDb) (op : AttesterSlashing) :
      PoolStep hashTreeRoot (this, db) (this.insertAttesterSlashing op (hashTreeRoot op), db)
  | insertProposerSlashing (this : OpPool) (db : BeaconDb) (op : ProposerSlashing)
      (hindex : op.signedHeader1.message.proposerIndex < 2 ^ 64) :
      PoolStep hashTreeRoot (this, db) (this.insertProposerSlashing op, db)
  | insertVoluntaryExit (this : OpPool) (db : BeaconDb) (op : SignedVoluntaryExit)
      (hindex : op.message.validatorIndex < 2 ^ 64) :
      PoolStep hashTreeRoot (this, db) (this.insertVoluntaryExit op, db)
  | pruneAll [Preset] (this : OpPool) (db : BeaconDb) (headState : KeyedBeaconState) :
      PoolStep hashTreeRoot (this, db) (this.pruned headState, db)
  | toPersisted (this : OpPool) (db : BeaconDb) :
      PoolStep hashTreeRoot (this, db) (this, this.toPersisted db)
  | fromPersisted (this : OpPool) (db : BeaconDb) :
      PoolStep hashTreeRoot (this, db) (OpPool.empty.fromPersisted db, db)

/-- The pool and the database after a run that starts with an empty pool. -/
def Reached (hashTreeRoot : AttesterSlashing → RootHex) (this : OpPool) (db : BeaconDb) : Prop :=
  ∃ start, Uint64Indices start ∧
    Relation.ReflTransGen (PoolStep hashTreeRoot) (.empty, start) (this, db)

/-! ## What survives -/

/-- The repositories hold exactly the operations of the pool, under their keys. -/
structure Holds (this : OpPool) (db : BeaconDb) : Prop where
  attesterSlashing : HoldsExactly rootCoding db.attesterSlashing this.attesterSlashingItems
  proposerSlashing : HoldsExactly indexCoding db.proposerSlashing this.proposerSlashingItems
  voluntaryExit : HoldsExactly indexCoding db.voluntaryExit this.voluntaryExitItems

structure SameOperations (this other : OpPool) : Prop where
  attesterSlashings : ∀ root, (other.attesterSlashings.get root).map (·.attesterSlashing)
    = (this.attesterSlashings.get root).map (·.attesterSlashing)
  proposerSlashings : ∀ index, other.proposerSlashings.get index = this.proposerSlashings.get index
  voluntaryExits : ∀ index, other.voluntaryExits.get index = this.voluntaryExits.get index

/-- The pool is persisted, and a new one has its operations. -/
def Survives (this : OpPool) (db : BeaconDb) : Prop :=
  this.Holds db ∧ this.SameOperations (OpPool.empty.fromPersisted db)

/-- No proposer slashing and no exit of the pool is persisted yet, and the attester slashings that
are persisted under a root of the pool are those of the pool. -/
structure NotPersisted (this : OpPool) (db : BeaconDb) : Prop where
  attesterSlashings : ∀ e ∈ this.attesterSlashings.entries, ∀ persisted,
    db.attesterSlashing[SlashingProtection.rootBytes e.1]? = some persisted →
      persisted = e.2.attesterSlashing
  proposerSlashings : ∀ e ∈ this.proposerSlashings.entries,
    db.proposerSlashing[(IndexKey.number e.1).encodeKey]? = none
  voluntaryExits : ∀ e ∈ this.voluntaryExits.entries,
    db.voluntaryExit[(IndexKey.number e.1).encodeKey]? = none

variable {this : OpPool} {db : BeaconDb}

/-! ## Filling a new pool -/

theorem foldl_insertAttesterSlashing (l : List (Bytes × AttesterSlashing)) (this : OpPool) :
    (l.foldl (fun this e => this.insertAttesterSlashing e.2 (SlashingProtection.ofRootBytes e.1))
        this).attesterSlashings
        = l.foldl (fun m e => m.set (SlashingProtection.ofRootBytes e.1)
          ⟨e.2, getAttesterSlashableIndices e.2, rfl⟩) this.attesterSlashings ∧
      (l.foldl (fun this e => this.insertAttesterSlashing e.2
        (SlashingProtection.ofRootBytes e.1)) this).proposerSlashings = this.proposerSlashings ∧
      (l.foldl (fun this e => this.insertAttesterSlashing e.2
        (SlashingProtection.ofRootBytes e.1)) this).voluntaryExits = this.voluntaryExits := by
  induction l generalizing this with
  | nil => exact ⟨rfl, rfl, rfl⟩
  | cons e l ih => exact ih _

theorem foldl_insertProposerSlashing (l : List (Bytes × ProposerSlashing)) (this : OpPool) :
    (l.foldl (fun this e => this.insertProposerSlashing e.2) this).attesterSlashings
        = this.attesterSlashings ∧
      (l.foldl (fun this e => this.insertProposerSlashing e.2) this).proposerSlashings
        = l.foldl (fun m e => m.set e.2.signedHeader1.message.proposerIndex e.2)
          this.proposerSlashings ∧
      (l.foldl (fun this e => this.insertProposerSlashing e.2) this).voluntaryExits
        = this.voluntaryExits := by
  induction l generalizing this with
  | nil => exact ⟨rfl, rfl, rfl⟩
  | cons e l ih => exact ih _

theorem foldl_insertVoluntaryExit (l : List (Bytes × SignedVoluntaryExit)) (this : OpPool) :
    (l.foldl (fun this e => this.insertVoluntaryExit e.2) this).attesterSlashings
        = this.attesterSlashings ∧
      (l.foldl (fun this e => this.insertVoluntaryExit e.2) this).proposerSlashings
        = this.proposerSlashings ∧
      (l.foldl (fun this e => this.insertVoluntaryExit e.2) this).voluntaryExits
        = l.foldl (fun m e => m.set e.2.message.validatorIndex e.2) this.voluntaryExits := by
  induction l generalizing this with
  | nil => exact ⟨rfl, rfl, rfl⟩
  | cons e l ih => exact ih _

theorem fromPersisted_eq (this : OpPool) (db : BeaconDb) :
    (this.fromPersisted db).attesterSlashings
        = db.attesterSlashing.toList.foldl (fun m e => m.set (SlashingProtection.ofRootBytes e.1)
          ⟨e.2, getAttesterSlashableIndices e.2, rfl⟩) this.attesterSlashings ∧
      (this.fromPersisted db).proposerSlashings
        = db.proposerSlashing.toList.foldl (fun m e =>
          m.set e.2.signedHeader1.message.proposerIndex e.2) this.proposerSlashings ∧
      (this.fromPersisted db).voluntaryExits
        = db.voluntaryExit.toList.foldl (fun m e => m.set e.2.message.validatorIndex e.2)
          this.voluntaryExits := by
  unfold fromPersisted
  obtain ⟨hattester, hproposer, hexit⟩ :=
    foldl_insertAttesterSlashing db.attesterSlashing.toList this
  refine ⟨?_, ?_, ?_⟩
  · rw [(foldl_insertVoluntaryExit _ _).1, (foldl_insertProposerSlashing _ _).1, hattester]
  · rw [(foldl_insertVoluntaryExit _ _).2.1, (foldl_insertProposerSlashing _ _).2.1, hproposer]
  · rw [(foldl_insertVoluntaryExit _ _).2.2, (foldl_insertProposerSlashing _ _).2.2, hexit]

theorem Holds.sameOperations (h : this.Holds db) :
    this.SameOperations (OpPool.empty.fromPersisted db) := by
  obtain ⟨hattester, hproposer, hexit⟩ := fromPersisted_eq OpPool.empty db
  refine ⟨?_, ?_, ?_⟩
  · intro root
    rw [hattester]
    exact get_filled SlashingProtection.rootBytes AttesterSlashingCached.attesterSlashing
      (fun e => SlashingProtection.ofRootBytes e.1)
      (fun e => ⟨e.2, getAttesterSlashableIndices e.2, rfl⟩) h.attesterSlashing
      (fun e _ => SlashingProtection.ofRootBytes_rootBytes e.1) (fun _ => rfl) root
  · intro index
    rw [hproposer]
    exact get_filled_index (·.signedHeader1.message.proposerIndex) h.proposerSlashing
      this.proposerSlashings_key index
  · intro index
    rw [hexit]
    exact get_filled_index (·.message.validatorIndex) h.voluntaryExit this.voluntaryExits_key index

/-! ## Indices of 64 bits -/

/-- The indices of a pool and of its database are of 64 bits. -/
structure Fits (this : OpPool) (db : BeaconDb) : Prop where
  proposerSlashings : ∀ e ∈ this.proposerSlashings.entries, e.1 < 2 ^ 64
  voluntaryExits : ∀ e ∈ this.voluntaryExits.entries, e.1 < 2 ^ 64
  db : Uint64Indices db

theorem getElem?_persistDiff_cases {K β : Type} {coding : KeyCoding K} {dbRepo : ByteStore β}
    {items : List (K × β)} {comparable : Bool} (h : coding.Compares comparable items)
    (hnodup : (items.map fun item => coding.encodeKey item.1).Nodup) {key : Bytes} {value : β}
    (hget : (persistDiff coding dbRepo items)[key]? = some value) :
    (∃ item ∈ items, item.2 = value) ∨ dbRepo[key]? = some value := by
  cases hkey : dbRepo[key]? with
  | none =>
    obtain ⟨item, hitem, -, hvalue⟩ := (getElem?_persistDiff_of_none h hnodup hkey).mp hget
    exact .inl ⟨item, hitem, hvalue⟩
  | some persisted =>
    obtain ⟨-, hvalue⟩ := (getElem?_persistDiff_of_some h hkey).mp hget
    exact .inr (congrArg some hvalue)

theorem nodup_encodeKey {β : Type} {m : OrderedMap Nat β} (h : ∀ e ∈ m.entries, e.1 < 2 ^ 64) :
    ((m.entries.map fun e => (IndexKey.number e.1, e.2)).map fun item =>
      indexCoding.encodeKey item.1).Nodup := by
  rw [List.map_map]
  have hpairwise := List.pairwise_map.mp m.nodup
  refine List.pairwise_map.mpr (hpairwise.imp_of_mem ?_)
  intro a b ha hb hne hsame
  exact hne (encodeKey_number_inj (h a ha) (h b hb) hsame)

theorem nodup_rootBytes (this : OpPool) :
    (this.attesterSlashingItems.map fun item => rootCoding.encodeKey item.1).Nodup := by
  unfold attesterSlashingItems
  rw [List.map_map]
  have hpairwise := List.pairwise_map.mp this.attesterSlashings.nodup
  exact List.pairwise_map.mpr (hpairwise.imp fun hne hsame => hne (rootBytes_injective hsame))

theorem forall_mem_foldl_set {β : Type} {p : Nat → Prop} (index : β → Nat) {l : List (Bytes × β)}
    {m : OrderedMap Nat β} (hl : ∀ c ∈ l, p (index c.2)) (hm : ∀ e ∈ m.entries, p e.1) :
    ∀ e ∈ (l.foldl (fun m c => m.set (index c.2) c.2) m).entries, p e.1 := by
  induction l generalizing m with
  | nil => exact hm
  | cons c l ih =>
    obtain ⟨hc, hl⟩ := List.forall_mem_cons.mp hl
    refine ih hl fun e he => ?_
    rcases OrderedMap.mem_entries_set he with rfl | he
    · exact hc
    · exact hm e he

theorem Fits.step {hashTreeRoot : AttesterSlashing → RootHex} {s s' : OpPool × BeaconDb}
    (h : s.1.Fits s.2) (hstep : PoolStep hashTreeRoot s s') : s'.1.Fits s'.2 := by
  cases hstep with
  | insertAttesterSlashing this db op => exact ⟨h.proposerSlashings, h.voluntaryExits, h.db⟩
  | insertProposerSlashing this db op hindex =>
    refine ⟨fun e he => ?_, h.voluntaryExits, h.db⟩
    rcases OrderedMap.mem_entries_set he with rfl | he
    · exact hindex
    · exact h.proposerSlashings e he
  | insertVoluntaryExit this db op hindex =>
    refine ⟨h.proposerSlashings, fun e he => ?_, h.db⟩
    rcases OrderedMap.mem_entries_set he with rfl | he
    · exact hindex
    · exact h.voluntaryExits e he
  | pruneAll this db headState =>
    obtain ⟨-, hproposer, hexit⟩ := fewer_pruned this headState
    exact ⟨fun e he => h.proposerSlashings e (hproposer he),
      fun e he => h.voluntaryExits e (hexit he), h.db⟩
  | toPersisted this db =>
    refine ⟨h.proposerSlashings, h.voluntaryExits, ⟨?_, ?_⟩⟩
    · intro key value hget
      rcases getElem?_persistDiff_cases compares_indexCoding
        (nodup_encodeKey h.proposerSlashings) hget with ⟨item, hitem, rfl⟩ | hold
      · obtain ⟨e, he, rfl⟩ := List.mem_map.mp hitem
        exact this.proposerSlashings_key e he ▸ h.proposerSlashings e he
      · exact h.db.proposerSlashing key value hold
    · intro key value hget
      rcases getElem?_persistDiff_cases compares_indexCoding
        (nodup_encodeKey h.voluntaryExits) hget with ⟨item, hitem, rfl⟩ | hold
      · obtain ⟨e, he, rfl⟩ := List.mem_map.mp hitem
        exact this.voluntaryExits_key e he ▸ h.voluntaryExits e he
      · exact h.db.voluntaryExit key value hold
  | fromPersisted this db =>
    obtain ⟨-, hproposer, hexit⟩ := fromPersisted_eq OpPool.empty db
    have hnone {β : Type} : ∀ e ∈ (OrderedMap.empty : OrderedMap Nat β).entries, e.1 < 2 ^ 64 :=
      fun e he => absurd he List.not_mem_nil
    refine ⟨?_, ?_, h.db⟩
    · rw [hproposer]
      refine forall_mem_foldl_set (p := (· < 2 ^ 64))
        (fun op : ProposerSlashing => op.signedHeader1.message.proposerIndex)
        (fun c hc => ?_) hnone
      exact h.db.proposerSlashing c.1 c.2 (TreeMap.mem_toList_iff_getElem?_eq_some.mp hc)
    · rw [hexit]
      refine forall_mem_foldl_set (p := (· < 2 ^ 64))
        (fun op : SignedVoluntaryExit => op.message.validatorIndex)
        (fun c hc => ?_) hnone
      exact h.db.voluntaryExit c.1 c.2 (TreeMap.mem_toList_iff_getElem?_eq_some.mp hc)

theorem Fits.of_reached {hashTreeRoot : AttesterSlashing → RootHex}
    (h : Reached hashTreeRoot this db) : this.Fits db := by
  obtain ⟨start, hstart, hrun⟩ := h
  generalize hs : (this, db) = s at hrun
  suffices hfits : s.1.Fits s.2 by rwa [← hs] at hfits
  clear hs
  induction hrun with
  | refl => exact ⟨by simp [OpPool.empty, OrderedMap.empty],
      by simp [OpPool.empty, OrderedMap.empty], hstart⟩
  | tail _ hstep ih => exact ih.step hstep

/-! ## After a diff -/

theorem holdsExactly_index_iff {β : Type} {m : OrderedMap Nat β} {dbRepo : ByteStore β}
    (h : ∀ e ∈ m.entries, e.1 < 2 ^ 64) :
    HoldsExactly indexCoding (persistDiff indexCoding dbRepo
        (m.entries.map fun e => (IndexKey.number e.1, e.2)))
        (m.entries.map fun e => (IndexKey.number e.1, e.2)) ↔
      ∀ e ∈ m.entries, dbRepo[(IndexKey.number e.1).encodeKey]? = none := by
  rw [holdsExactly_persistDiff_iff compares_indexCoding (nodup_encodeKey h)]
  constructor
  · intro hitems e he
    cases hget : dbRepo[(IndexKey.number e.1).encodeKey]? with
    | none => rfl
    | some persisted =>
      exact absurd (hitems _ (List.mem_map_of_mem he) persisted hget).1 Bool.false_ne_true
  · intro hnone item hitem persisted hget
    obtain ⟨e, he, rfl⟩ := List.mem_map.mp hitem
    have habsent : dbRepo[indexCoding.encodeKey (IndexKey.number e.1)]? = none := hnone e he
    rw [habsent] at hget
    cases hget

theorem holdsExactly_root_iff {dbRepo : ByteStore AttesterSlashing} :
    HoldsExactly rootCoding (persistDiff rootCoding dbRepo this.attesterSlashingItems)
        this.attesterSlashingItems ↔
      ∀ e ∈ this.attesterSlashings.entries, ∀ persisted,
        dbRepo[SlashingProtection.rootBytes e.1]? = some persisted →
          persisted = e.2.attesterSlashing := by
  rw [holdsExactly_persistDiff_iff (compares_rootCoding _) (nodup_rootBytes this)]
  constructor
  · intro hitems e he persisted hget
    exact (hitems _ (List.mem_map_of_mem he) persisted hget).2
  · intro hsame item hitem persisted hget
    obtain ⟨e, he, rfl⟩ := List.mem_map.mp hitem
    exact ⟨rfl, hsame e he persisted hget⟩

/-- In every run, the pool survives a restart after `toPersisted` if and only if none of its proposer
slashings and exits was persisted already, and what was persisted of its attester slashings is the
same. -/
theorem survives_toPersisted_iff (hashTreeRoot : AttesterSlashing → RootHex) (this : OpPool)
    (db : BeaconDb) (h : Reached hashTreeRoot this db) :
    this.Survives (this.toPersisted db) ↔ this.NotPersisted db := by
  have hfits := Fits.of_reached h
  have hholds : this.Holds (this.toPersisted db) ↔ this.NotPersisted db := by
    constructor
    · intro hholds
      exact ⟨holdsExactly_root_iff.mp hholds.attesterSlashing,
        (holdsExactly_index_iff hfits.proposerSlashings).mp hholds.proposerSlashing,
        (holdsExactly_index_iff hfits.voluntaryExits).mp hholds.voluntaryExit⟩
    · intro hnone
      exact ⟨holdsExactly_root_iff.mpr hnone.attesterSlashings,
        (holdsExactly_index_iff hfits.proposerSlashings).mpr hnone.proposerSlashings,
        (holdsExactly_index_iff hfits.voluntaryExits).mpr hnone.voluntaryExits⟩
  rw [← hholds]
  exact ⟨fun hsurvives => hsurvives.1, fun hholds => ⟨hholds, hholds.sameOperations⟩⟩

/-! ## An exit that stays in the pool -/

def emptyDb : BeaconDb := ⟨∅, ∅, ∅⟩

def oneExit : OpPool := OpPool.empty.insertVoluntaryExit ⟨⟨90, 7⟩, 0⟩

theorem reached_oneExit : Reached (fun _ => 0) oneExit emptyDb :=
  ⟨emptyDb, ⟨fun key value h => by simp [emptyDb] at h, fun key value h => by simp [emptyDb] at h⟩,
    .single (.insertVoluntaryExit .empty emptyDb ⟨⟨90, 7⟩, 0⟩ (by decide))⟩

/-- The first time it is persisted. -/
theorem survives_oneExit : oneExit.Survives (oneExit.toPersisted emptyDb) :=
  (survives_toPersisted_iff (fun _ => 0) oneExit emptyDb reached_oneExit).mpr
    ⟨fun e he => absurd he List.not_mem_nil, fun e he => absurd he List.not_mem_nil,
      fun _ _ => by simp [emptyDb]⟩

/-- The second time it is deleted. -/
theorem not_survives_oneExit :
    ¬ ∀ (hashTreeRoot : AttesterSlashing → RootHex) (this : OpPool) (db : BeaconDb),
      Reached hashTreeRoot this db → this.Survives (this.toPersisted db) := by
  intro h
  obtain ⟨start, hstart, hrun⟩ := reached_oneExit
  have hreached : Reached (fun _ => 0) oneExit (oneExit.toPersisted emptyDb) :=
    ⟨start, hstart, hrun.tail (.toPersisted oneExit emptyDb)⟩
  have hholds := (h _ _ _ hreached).1.voluntaryExit
  have hheld := (hholds _ _).mpr ⟨(.number 7, ⟨⟨90, 7⟩, 0⟩), List.mem_cons_self, rfl, rfl⟩
  have hnone : (oneExit.toPersisted (oneExit.toPersisted emptyDb)).voluntaryExit[
      (IndexKey.number 7).encodeKey]? = none := by decide +kernel
  cases hheld.symm.trans hnone

end OpPool

end Lodestar.Chain
