import Lodestar.Base.Bytes
import Lodestar.SlashingProtection.Db

/-!
# The keys and values of the database

The five repositories share one LevelDB store of byte strings. A key is the
byte of the repository's bucket followed by the public key and, except for the
lower bounds, the slot or epoch as eight big-endian bytes. A store
`Represents` a `Db` when every repository reads from it what the `Db` says;
the operations keep it so as long as their numbers are safe integers.
-/

namespace Lodestar.SlashingProtection

open Std (TreeMap)
open Lodestar.Base

/-! ## Keys -/

def Bucket.phase0_slashingProtectionBlockBySlot : UInt8 := 20
def Bucket.phase0_slashingProtectionAttestationByTarget : UInt8 := 21
def Bucket.phase0_slashingProtectionAttestationLowerBound : UInt8 := 22
def Bucket.index_slashingProtectionMinSpanDistance : UInt8 := 23
def Bucket.index_slashingProtectionMaxSpanDistance : UInt8 := 24

def Span.bucket : Span → UInt8
  | .minSpan => Bucket.index_slashingProtectionMinSpanDistance
  | .maxSpan => Bucket.index_slashingProtectionMaxSpanDistance

abbrev uintLen : Nat := 8

abbrev blsPubkeyLen : Nat := 48

/-- `encodeKey` of the `db` package. -/
def encodeKey (bucket : UInt8) (key : Bytes) : Bytes := bucket :: key

def pubkeyBytes (pubkey : BLSPubkey) : Bytes := toBytesBE blsPubkeyLen pubkey.toNat

/-- What the repositories but that of the lower bounds give `encodeKey`. -/
def numberKey (k : Key) : Bytes := pubkeyBytes k.1 ++ toBytesBE uintLen k.2

/-! ## The store -/

/-- Serialization of the stored types. It is exact on safe integers. -/
structure SszTypes where
  serializeBlock : SlashingProtectionBlock → Bytes
  deserializeBlock : Bytes → SlashingProtectionBlock
  serializeAttestation : SlashingProtectionAttestation → Bytes
  deserializeAttestation : Bytes → SlashingProtectionAttestation
  serializeLowerBound : SlashingProtectionLowerBound → Bytes
  deserializeLowerBound : Bytes → SlashingProtectionLowerBound
  serializeEpoch : Int → Bytes
  deserializeEpoch : Bytes → Nat
  block : ∀ b : SlashingProtectionBlock, b.slot ≤ MAX_SAFE_INTEGER →
    deserializeBlock (serializeBlock b) = b
  attestation : ∀ a : SlashingProtectionAttestation, a.sourceEpoch ≤ MAX_SAFE_INTEGER →
    a.targetEpoch ≤ MAX_SAFE_INTEGER → deserializeAttestation (serializeAttestation a) = a
  lowerBound : ∀ b : SlashingProtectionLowerBound, b.minSourceEpoch ≤ MAX_SAFE_INTEGER →
    b.minTargetEpoch ≤ MAX_SAFE_INTEGER → deserializeLowerBound (serializeLowerBound b) = b
  epoch : ∀ n : Nat, n < 2 ^ 53 → deserializeEpoch (serializeEpoch n) = n

def SszTypes.toEpoch (ssz : SszTypes) : SszEpoch where
  roundTrip d := ssz.deserializeEpoch (ssz.serializeEpoch d)
  roundTrip_natCast := ssz.epoch

def rootBytes (root : Root) : Bytes := toBytesBE 32 root.toNat

def ofRootBytes (bytes : Bytes) : Root := BitVec.ofNat 256 (ofBytesBE bytes)

theorem ofRootBytes_rootBytes (root : Root) : ofRootBytes (rootBytes root) = root := by
  unfold ofRootBytes rootBytes
  rw [ofBytesBE_toBytesBE]
  apply BitVec.eq_of_toNat_eq
  rw [BitVec.toNat_ofNat, Nat.mod_eq_of_lt (show root.toNat < 256 ^ 32 from root.isLt)]
  exact Nat.mod_eq_of_lt root.isLt

/-- The fields one after the other, numbers as `uint64`. -/
def sszContainers : SszTypes where
  serializeBlock b := uint64Bytes b.slot ++ rootBytes b.signingRoot
  deserializeBlock bytes := ⟨ofUint64Bytes (bytes.take 8), ofRootBytes (bytes.drop 8)⟩
  serializeAttestation a :=
    uint64Bytes a.sourceEpoch ++ (uint64Bytes a.targetEpoch ++ rootBytes a.signingRoot)
  deserializeAttestation bytes :=
    ⟨ofUint64Bytes (bytes.take 8), ofUint64Bytes ((bytes.drop 8).take 8),
      ofRootBytes ((bytes.drop 8).drop 8)⟩
  serializeLowerBound b := uint64Bytes b.minSourceEpoch ++ uint64Bytes b.minTargetEpoch
  deserializeLowerBound bytes := ⟨ofUint64Bytes (bytes.take 8), ofUint64Bytes (bytes.drop 8)⟩
  serializeEpoch d := uint64Bytes d.toNat
  deserializeEpoch := ofUint64Bytes
  block b h := by
    rw [List.take_left' (length_uint64Bytes _), List.drop_left' (length_uint64Bytes _),
      ofUint64Bytes_uint64Bytes (lt_of_le_of_lt h (by decide)), ofRootBytes_rootBytes]
  attestation a hs ht := by
    rw [List.take_left' (length_uint64Bytes _), List.drop_left' (length_uint64Bytes _),
      List.take_left' (length_uint64Bytes _), List.drop_left' (length_uint64Bytes _),
      ofUint64Bytes_uint64Bytes (lt_of_le_of_lt hs (by decide)),
      ofUint64Bytes_uint64Bytes (lt_of_le_of_lt ht (by decide)), ofRootBytes_rootBytes]
  lowerBound b hs ht := by
    rw [List.take_left' (length_uint64Bytes _), List.drop_left' (length_uint64Bytes _),
      ofUint64Bytes_uint64Bytes (lt_of_le_of_lt hs (by decide)),
      ofUint64Bytes_uint64Bytes (lt_of_le_of_lt ht (by decide))]
  epoch n h := by
    show ofUint64Bytes (uint64Bytes n) = n
    exact ofUint64Bytes_uint64Bytes (by omega)

abbrev LevelDb := TreeMap Bytes Bytes

namespace LevelDb

/-- `values` with `gte`, `lt` and `limit`. -/
def values (level : LevelDb) (gte lt : Bytes) (limit : Option Nat) : List Bytes :=
  let all := level.toList.filter fun e => (compare gte e.1).isLE && compare e.1 lt == .lt
  (limit.elim all all.take).map (·.2)

/-- `batchPut` of the entries `item`s stand for. -/
def batchPut {β : Type} (level : LevelDb) (key value : β → Bytes) (items : List β) : LevelDb :=
  items.foldl (fun m b => m.insert (key b) (value b)) level

/-- `getAll` of the repositories. -/
def getAll {α : Type} (level : LevelDb) (bucket : UInt8) (deserialize : Bytes → α)
    (pubkey : BLSPubkey) (limit : Option Nat) : List α :=
  (level.values (encodeKey bucket (numberKey (pubkey, 0)))
    (encodeKey bucket (numberKey (pubkey, MAX_SAFE_INTEGER))) limit).map deserialize

end LevelDb

/-- What an operation answers and does on the store. -/
def actLevel (ssz : SszTypes) : (o : DbOp) → LevelDb → o.Resp × LevelDb
  | .attestationByTargetGet pubkey targetEpoch, level =>
    (level[encodeKey Bucket.phase0_slashingProtectionAttestationByTarget
      (numberKey (pubkey, targetEpoch))]?.map ssz.deserializeAttestation, level)
  | .attestationByTargetGetAll pubkey limit, level =>
    (level.getAll Bucket.phase0_slashingProtectionAttestationByTarget ssz.deserializeAttestation
      pubkey limit, level)
  | .attestationByTargetSet pubkey atts, level =>
    ((), level.batchPut (fun att => encodeKey Bucket.phase0_slashingProtectionAttestationByTarget
      (numberKey (pubkey, att.targetEpoch))) ssz.serializeAttestation atts)
  | .attestationLowerBoundGet pubkey, level =>
    (level[encodeKey Bucket.phase0_slashingProtectionAttestationLowerBound
      (pubkeyBytes pubkey)]?.map ssz.deserializeLowerBound, level)
  | .attestationLowerBoundSet pubkey value, level =>
    ((), level.insert (encodeKey Bucket.phase0_slashingProtectionAttestationLowerBound
      (pubkeyBytes pubkey)) (ssz.serializeLowerBound value))
  | .spanGet span pubkey epoch, level =>
    (level[encodeKey span.bucket (numberKey (pubkey, epoch))]?.map ssz.deserializeEpoch, level)
  | .spanSetBatch span pubkey values, level =>
    ((), level.batchPut (fun value => encodeKey span.bucket (numberKey (pubkey, value.source)))
      (fun value => ssz.serializeEpoch value.distance) values)
  | .blockBySlotGet pubkey slot, level =>
    (level[encodeKey Bucket.phase0_slashingProtectionBlockBySlot
      (numberKey (pubkey, slot))]?.map ssz.deserializeBlock, level)
  | .blockBySlotGetAll pubkey limit, level =>
    (level.getAll Bucket.phase0_slashingProtectionBlockBySlot ssz.deserializeBlock pubkey limit,
      level)
  | .blockBySlotSet pubkey blocks, level =>
    ((), level.batchPut (fun block => encodeKey Bucket.phase0_slashingProtectionBlockBySlot
      (numberKey (pubkey, block.slot))) ssz.serializeBlock blocks)

/-! ## Order of the keys -/

theorem length_pubkeyBytes (p q : BLSPubkey) :
    (pubkeyBytes p).length = (pubkeyBytes q).length := by
  simp [pubkeyBytes]

theorem toNat_lt_pow (len : Nat) (v : BitVec (8 * len)) : v.toNat < 256 ^ len := by
  rw [show 256 = 2 ^ 8 from rfl, ← pow_mul]
  exact v.isLt

theorem compare_pubkeyBytes (p q : BLSPubkey) :
    compare (pubkeyBytes p) (pubkeyBytes q) = compare p q := by
  have hlt : ∀ p : BLSPubkey, p.toNat < 256 ^ blsPubkeyLen := fun p => toNat_lt_pow 48 p
  unfold pubkeyBytes
  rw [compare_toBytesBE (hlt p) (hlt q)]
  show compareOfLessAndEq p.toNat q.toNat = compareOfLessAndEq p q
  simp only [compareOfLessAndEq, BitVec.lt_def, BitVec.toNat_inj]

theorem compare_numberKey {k l : Key} (hk : k.2 ≤ MAX_SAFE_INTEGER) (hl : l.2 ≤ MAX_SAFE_INTEGER) :
    compare (numberKey k) (numberKey l) = keyCmp k l := by
  have hlt : ∀ n, n ≤ MAX_SAFE_INTEGER → n < 256 ^ uintLen := fun n hn =>
    lt_of_le_of_lt hn (by decide)
  unfold numberKey
  rw [compare_append (length_pubkeyBytes _ _), compare_pubkeyBytes,
    compare_toBytesBE (hlt _ hk) (hlt _ hl)]
  rfl

theorem compare_encodeKey (bucket : UInt8) (a b : Bytes) :
    compare (encodeKey bucket a) (encodeKey bucket b) = compare a b := by
  have hb : compare bucket bucket = .eq := Std.ReflCmp.compare_self
  unfold encodeKey
  rw [List.compare_cons_cons, hb, Ordering.eq_then]

theorem numberKey_inj {k l : Key} (hk : k.2 ≤ MAX_SAFE_INTEGER) (hl : l.2 ≤ MAX_SAFE_INTEGER)
    (h : numberKey k = numberKey l) : k = l := by
  apply keyCmp_eq_iff.1
  rw [← compare_numberKey hk hl, h]
  exact Std.ReflCmp.compare_self

theorem pubkeyBytes_inj {p q : BLSPubkey} (h : pubkeyBytes p = pubkeyBytes q) : p = q := by
  have hcmp : compare p q = .eq := by
    rw [← compare_pubkeyBytes, h]
    exact Std.ReflCmp.compare_self
  exact Std.LawfulEqCmp.eq_of_compare hcmp

/-! ## Reading back -/

namespace LevelDb

theorem insert_get (level : LevelDb) (key value bytes : Bytes) :
    (TreeMap.insert level key value)[bytes]? = if key = bytes then some value else level[bytes]? := by
  rw [TreeMap.getElem?_insert]
  simp only [Std.LawfulEqCmp.compare_eq_iff_eq]

theorem batchPut_get_of_notMem {β : Type} {level : LevelDb} {key value : β → Bytes}
    {items : List β} {bytes : Bytes} (h : ∀ b ∈ items, key b ≠ bytes) :
    (level.batchPut key value items)[bytes]? = level[bytes]? := by
  unfold batchPut
  induction items generalizing level with
  | nil => rfl
  | cons b items ih =>
    rw [List.foldl_cons, ih fun c hc => h c (List.mem_cons_of_mem _ hc), insert_get,
      if_neg (h b List.mem_cons_self)]

theorem mem_batchPut {β : Type} {level : LevelDb} {key value : β → Bytes} {items : List β}
    {bytes : Bytes} (h : bytes ∈ level.batchPut key value items) :
    bytes ∈ level ∨ ∃ b ∈ items, key b = bytes := by
  by_contra hnot
  obtain ⟨hlevel, hitems⟩ := not_or.1 hnot
  apply hlevel
  rw [TreeMap.mem_iff_isSome_getElem?] at h ⊢
  rwa [batchPut_get_of_notMem fun b hb hk => hitems ⟨b, hb, hk⟩] at h

end LevelDb

/-- Reading `level` at the safe keys of a bucket gives the entries of `m`. -/
def ReadsBucket {α : Type} (level : LevelDb) (bucket : UInt8) (deserialize : Bytes → α)
    (m : Bucket α) : Prop :=
  ∀ k : Key, k.2 ≤ MAX_SAFE_INTEGER →
    level[encodeKey bucket (numberKey k)]?.map deserialize = m[k]?

section ReadsBucket

variable {α β : Type} {level level' : LevelDb} {bucket : UInt8} {deserialize : Bytes → α}
  {m : Bucket α}

theorem ReadsBucket.congr (h : ReadsBucket level bucket deserialize m)
    (heq : ∀ key, level'[encodeKey bucket key]? = level[encodeKey bucket key]?) :
    ReadsBucket level' bucket deserialize m := by
  intro k hk
  rw [heq, h k hk]

theorem ReadsBucket.batchPut (h : ReadsBucket level bucket deserialize m) {key : β → Key}
    {serialize : β → Bytes} {value : β → α} {items : List β}
    (hkey : ∀ b ∈ items, (key b).2 ≤ MAX_SAFE_INTEGER)
    (hvalue : ∀ b ∈ items, deserialize (serialize b) = value b) :
    ReadsBucket (level.batchPut (fun b => encodeKey bucket (numberKey (key b))) serialize items)
      bucket deserialize (SlashingProtection.batchPut m key value items) := by
  unfold LevelDb.batchPut SlashingProtection.batchPut
  induction items generalizing level m with
  | nil => exact h
  | cons b items ih =>
    refine ih (fun k hk => ?_) (fun c hc => hkey c (List.mem_cons_of_mem _ hc))
      fun c hc => hvalue c (List.mem_cons_of_mem _ hc)
    have hb := hkey b List.mem_cons_self
    rw [LevelDb.insert_get, TreeMap.getElem?_insert]
    by_cases hbk : key b = k
    · rw [if_pos (congrArg (fun k => encodeKey bucket (numberKey k)) hbk), if_pos (keyCmp_eq_iff.2 hbk), Option.map_some,
        hvalue b List.mem_cons_self]
    · have hne : encodeKey bucket (numberKey (key b)) ≠ encodeKey bucket (numberKey k) := fun he =>
        hbk (numberKey_inj hb hk (List.cons.inj he).2)
      rw [if_neg hne, if_neg (mt keyCmp_eq_iff.1 hbk), h k hk]

end ReadsBucket

/-! ## Range scans -/

/-- The keys of `bucket` are safe ones. -/
def KeysOf (level : LevelDb) (bucket : UInt8) : Prop :=
  ∀ bytes ∈ level, bytes.head? = some bucket →
    ∃ k : Key, k.2 ≤ MAX_SAFE_INTEGER ∧ bytes = encodeKey bucket (numberKey k)

theorem KeysOf.batchPut {β : Type} {level : LevelDb} {bucket bucket' : UInt8}
    (h : KeysOf level bucket) {key : β → Key} {serialize : β → Bytes} {items : List β}
    (hkey : ∀ b ∈ items, (key b).2 ≤ MAX_SAFE_INTEGER) :
    KeysOf (level.batchPut (fun b => encodeKey bucket' (numberKey (key b))) serialize items)
      bucket := by
  intro bytes hbytes hhead
  rcases LevelDb.mem_batchPut hbytes with hmem | ⟨b, hb, rfl⟩
  · exact h bytes hmem hhead
  · cases hhead
    exact ⟨key b, hkey b hb, rfl⟩

theorem head_of_between {bucket : UInt8} {a b bytes : Bytes}
    (hle : (compare (encodeKey bucket a) bytes).isLE = true)
    (hlt : compare bytes (encodeKey bucket b) = .lt) : bytes.head? = some bucket := by
  cases bytes with
  | nil => cases hle
  | cons x xs =>
    unfold encodeKey at hle hlt
    rw [List.compare_cons_cons] at hle hlt
    have hx : compare bucket x = .eq := by
      cases hc : compare bucket x with
      | eq => rfl
      | lt =>
        have hgt : compare x bucket = .gt := Std.OrientedCmp.gt_of_lt hc
        rw [hgt] at hlt
        cases hlt
      | gt =>
        rw [hc] at hle
        cases hle
    rw [Std.LawfulEqCmp.eq_of_compare hx]
    rfl

theorem eq_of_ordered {α : Type} {r : α → α → Prop} (hr : ∀ {a b}, r a b → ¬ r b a)
    {l₁ l₂ : List α} (h₁ : l₁.Pairwise r) (h₂ : l₂.Pairwise r) (h : ∀ a, a ∈ l₁ ↔ a ∈ l₂) :
    l₁ = l₂ := by
  have hne : ∀ {a b : α}, r a b → a ≠ b := by
    rintro a b hab rfl
    exact hr hab hab
  have hperm : l₁.Perm l₂ := (List.perm_ext_iff_of_nodup (h₁.imp hne) (h₂.imp hne)).2 h
  exact hperm.eq_of_pairwise (fun a b _ _ hab hba => (hr hab hba).elim) h₁ h₂

theorem mem_range {level : LevelDb} {gte lt : Bytes} {e : Bytes × Bytes} :
    e ∈ level.toList.filter (fun e => (compare gte e.1).isLE && compare e.1 lt == .lt) ↔
      level[e.1]? = some e.2 ∧ (compare gte e.1).isLE ∧ compare e.1 lt = .lt := by
  rw [List.mem_filter, TreeMap.mem_toList_iff_getElem?_eq_some, Bool.and_eq_true, beq_iff_eq]

theorem ReadsBucket.getAll {α : Type} {level : LevelDb} {bucket : UInt8}
    {deserialize : Bytes → α} {m : Bucket α} (h : ReadsBucket level bucket deserialize m)
    (hkeys : KeysOf level bucket) (pubkey : BLSPubkey) (limit : Option Nat) :
    level.getAll bucket deserialize pubkey limit = SlashingProtection.getAll m pubkey limit := by
  set found := level.toList.filter fun e =>
    (compare (encodeKey bucket (numberKey (pubkey, 0))) e.1).isLE &&
      compare e.1 (encodeKey bucket (numberKey (pubkey, MAX_SAFE_INTEGER))) == .lt with hfound
  set held := m.toList.filter fun e =>
    (keyCmp (pubkey, 0) e.1).isLE && keyCmp e.1 (pubkey, MAX_SAFE_INTEGER) == .lt with hheld
  have heq : found.map (fun e => (e.1, deserialize e.2)) =
      held.map fun e => (encodeKey bucket (numberKey e.1), e.2) := by
    have hfoundOrd : found.Pairwise fun a b => compare a.1 b.1 = .lt :=
      TreeMap.ordered_keys_toList.filter _
    have hheldOrd : held.Pairwise fun a b => keyCmp a.1 b.1 = .lt :=
      TreeMap.ordered_keys_toList.filter _
    have hsafe : ∀ e ∈ held, e.1.2 ≤ MAX_SAFE_INTEGER := fun e he =>
      (keyCmp_range.1 (List.mem_filter.1 he).2).2.le
    refine eq_of_ordered (r := fun a b => compare a.1 b.1 = .lt) ?_ ?_ ?_ ?_
    · intro a b hab hba
      rw [Std.OrientedCmp.gt_of_lt hab] at hba
      cases hba
    · exact List.pairwise_map.2 hfoundOrd
    · refine List.pairwise_map.2 (List.Pairwise.imp_of_mem (fun ha hb hab => ?_) hheldOrd)
      rw [compare_encodeKey, compare_numberKey (hsafe _ ha) (hsafe _ hb)]
      exact hab
    · rintro ⟨bytes, v⟩
      rw [List.mem_map, List.mem_map]
      constructor
      · rintro ⟨e, he, heq⟩
        obtain ⟨hget, hle, hlt⟩ := mem_range.1 he
        obtain ⟨k, hk, hbytes⟩ := hkeys e.1 (TreeMap.mem_iff_isSome_getElem?.2 (by rw [hget]; rfl))
          (head_of_between hle hlt)
        have hm := h k hk
        rw [← hbytes, hget] at hm
        rw [hbytes, compare_encodeKey] at hle hlt
        rw [compare_numberKey (Nat.zero_le _) hk] at hle
        rw [compare_numberKey hk le_rfl] at hlt
        refine ⟨(k, deserialize e.2), List.mem_filter.2 ⟨?_, by simp [hle, hlt]⟩, ?_⟩
        · exact TreeMap.mem_toList_iff_getElem?_eq_some.2 hm.symm
        · rw [← heq, hbytes]
      · rintro ⟨⟨k, w⟩, he, heq⟩
        cases heq
        have hk := hsafe _ he
        obtain ⟨hmem, hrange⟩ := List.mem_filter.1 he
        rw [Bool.and_eq_true, beq_iff_eq] at hrange
        have hget := h k hk
        rw [TreeMap.mem_toList_iff_getElem?_eq_some.1 hmem] at hget
        obtain ⟨raw, hraw, hdes⟩ := Option.map_eq_some_iff.1 hget
        refine ⟨(encodeKey bucket (numberKey k), raw), mem_range.2 ⟨hraw, ?_, ?_⟩, by rw [hdes]⟩
        · rw [compare_encodeKey, compare_numberKey (Nat.zero_le _) hk]
          exact hrange.1
        · rw [compare_encodeKey, compare_numberKey hk le_rfl]
          exact hrange.2
  have hvalues : found.map (fun e => deserialize e.2) = held.map (·.2) := by
    have hmap := congrArg (List.map (·.2)) heq
    rwa [List.map_map, List.map_map] at hmap
  unfold LevelDb.getAll LevelDb.values SlashingProtection.getAll
  rw [List.map_map]
  cases limit with
  | none => exact hvalues
  | some n =>
    show (found.take n).map _ = (held.take n).map _
    rw [List.map_take, List.map_take]
    exact congrArg (List.take n) hvalues

/-! ## The store represents the `Db` -/

/-- The numbers of an operation are safe integers. -/
def DbOp.Safe : DbOp → Prop
  | .attestationByTargetGet _ targetEpoch => targetEpoch ≤ MAX_SAFE_INTEGER
  | .attestationByTargetSet _ atts => ∀ att ∈ atts,
    att.sourceEpoch ≤ MAX_SAFE_INTEGER ∧ att.targetEpoch ≤ MAX_SAFE_INTEGER
  | .attestationLowerBoundSet _ value =>
    value.minSourceEpoch ≤ MAX_SAFE_INTEGER ∧ value.minTargetEpoch ≤ MAX_SAFE_INTEGER
  | .spanGet _ _ epoch => epoch ≤ MAX_SAFE_INTEGER
  | .spanSetBatch _ _ values => ∀ value ∈ values, value.source ≤ MAX_SAFE_INTEGER
  | .blockBySlotGet _ slot => slot ≤ MAX_SAFE_INTEGER
  | .blockBySlotSet _ blocks => ∀ block ∈ blocks, block.slot ≤ MAX_SAFE_INTEGER
  | .attestationByTargetGetAll .. | .attestationLowerBoundGet .. | .blockBySlotGetAll .. => True

structure Represents (ssz : SszTypes) (level : LevelDb) (db : Db) : Prop where
  blockBySlot : ReadsBucket level Bucket.phase0_slashingProtectionBlockBySlot
    ssz.deserializeBlock db.blockBySlot
  blockKeys : KeysOf level Bucket.phase0_slashingProtectionBlockBySlot
  attestationByTarget : ReadsBucket level Bucket.phase0_slashingProtectionAttestationByTarget
    ssz.deserializeAttestation db.attestationByTarget
  attestationKeys : KeysOf level Bucket.phase0_slashingProtectionAttestationByTarget
  attestationLowerBound : ∀ pubkey,
    level[encodeKey Bucket.phase0_slashingProtectionAttestationLowerBound
      (pubkeyBytes pubkey)]?.map ssz.deserializeLowerBound = db.attestationLowerBound[pubkey]?
  span : ∀ span : Span, ReadsBucket level span.bucket ssz.deserializeEpoch (db.span span)

theorem encodeKey_ne {bucket bucket' : UInt8} (h : bucket ≠ bucket') (a b : Bytes) :
    encodeKey bucket a ≠ encodeKey bucket' b := fun he => h (List.cons.inj he).1

theorem batchPut_get_bucket {β : Type} {level : LevelDb} {bucket bucket' : UInt8}
    {key serialize : β → Bytes} {items : List β} (h : bucket ≠ bucket') (a : Bytes) :
    (level.batchPut (fun b => encodeKey bucket (key b)) serialize items)[encodeKey bucket' a]? =
      level[encodeKey bucket' a]? :=
  LevelDb.batchPut_get_of_notMem fun b _ => encodeKey_ne h (key b) a

theorem Represents.empty (ssz : SszTypes) : Represents ssz ∅ Db.empty where
  blockBySlot k _ := by simp [Db.empty]
  blockKeys bytes h := by simp at h
  attestationByTarget k _ := by simp [Db.empty]
  attestationKeys bytes h := by simp at h
  attestationLowerBound p := by simp [Db.empty]
  span _ k _ := by simp [Db.empty]

variable {ssz : SszTypes} {level : LevelDb} {db : Db}

theorem Represents.setBlocks (h : Represents ssz level db) (pubkey : BLSPubkey)
    {blocks : List SlashingProtectionBlock} (hsafe : (DbOp.blockBySlotSet pubkey blocks).Safe) :
    Represents ssz (actLevel ssz (.blockBySlotSet pubkey blocks) level).2
      (db.setBlocks pubkey blocks) where
  blockBySlot := h.blockBySlot.batchPut hsafe fun b hb => ssz.block b (hsafe b hb)
  blockKeys := h.blockKeys.batchPut hsafe
  attestationByTarget := h.attestationByTarget.congr (batchPut_get_bucket (by decide))
  attestationKeys := h.attestationKeys.batchPut hsafe
  attestationLowerBound p :=
    (congrArg _ (batchPut_get_bucket (by decide) _)).trans (h.attestationLowerBound p)
  span s := (h.span s).congr (batchPut_get_bucket (by cases s <;> decide))

theorem Represents.setAttestations (h : Represents ssz level db) (pubkey : BLSPubkey)
    {atts : List SlashingProtectionAttestation}
    (hsafe : (DbOp.attestationByTargetSet pubkey atts).Safe) :
    Represents ssz (actLevel ssz (.attestationByTargetSet pubkey atts) level).2
      (db.setAttestations pubkey atts) where
  blockBySlot := h.blockBySlot.congr (batchPut_get_bucket (by decide))
  blockKeys := h.blockKeys.batchPut fun a ha => (hsafe a ha).2
  attestationByTarget := h.attestationByTarget.batchPut (fun a ha => (hsafe a ha).2)
    fun a ha => ssz.attestation a (hsafe a ha).1 (hsafe a ha).2
  attestationKeys := h.attestationKeys.batchPut fun a ha => (hsafe a ha).2
  attestationLowerBound p :=
    (congrArg _ (batchPut_get_bucket (by decide) _)).trans (h.attestationLowerBound p)
  span s := (h.span s).congr (batchPut_get_bucket (by cases s <;> decide))

theorem Represents.setLowerBound (h : Represents ssz level db) (pubkey : BLSPubkey)
    {value : SlashingProtectionLowerBound}
    (hsafe : (DbOp.attestationLowerBoundSet pubkey value).Safe) :
    Represents ssz (actLevel ssz (.attestationLowerBoundSet pubkey value) level).2
      (db.setLowerBound pubkey value) := by
  have hother : ∀ {bucket} (a : Bytes),
      Bucket.phase0_slashingProtectionAttestationLowerBound ≠ bucket →
      (actLevel ssz (.attestationLowerBoundSet pubkey value) level).2[encodeKey bucket a]? =
        level[encodeKey bucket a]? := by
    intro bucket a hne
    show (TreeMap.insert level _ _)[_]? = _
    rw [LevelDb.insert_get, if_neg (encodeKey_ne hne _ _)]
  have hkeys : ∀ {bucket}, Bucket.phase0_slashingProtectionAttestationLowerBound ≠ bucket →
      KeysOf level bucket →
      KeysOf (actLevel ssz (.attestationLowerBoundSet pubkey value) level).2 bucket := by
    intro bucket hne hk bytes hbytes hhead
    rcases TreeMap.mem_insert.1 hbytes with he | hmem
    · rw [← Std.LawfulEqCmp.eq_of_compare he] at hhead
      exact (hne (Option.some.inj hhead)).elim
    · exact hk bytes hmem hhead
  refine ⟨h.blockBySlot.congr fun a => hother a (by decide), hkeys (by decide) h.blockKeys,
    h.attestationByTarget.congr fun a => hother a (by decide), hkeys (by decide) h.attestationKeys,
    fun p => ?_, fun s => (h.span s).congr fun a => hother a (by cases s <;> decide)⟩
  show (TreeMap.insert level _ _)[_]?.map _ = (TreeMap.insert db.attestationLowerBound _ _)[p]?
  rw [LevelDb.insert_get, TreeMap.getElem?_insert]
  by_cases hp : pubkey = p
  · rw [if_pos (by rw [hp]), if_pos (by rw [hp]; exact Std.ReflCmp.compare_self), Option.map_some,
      ssz.lowerBound value hsafe.1 hsafe.2]
  · have hne : compare pubkey p ≠ .eq := mt Std.LawfulEqCmp.eq_of_compare hp
    have hkey : encodeKey Bucket.phase0_slashingProtectionAttestationLowerBound
        (pubkeyBytes pubkey) ≠
        encodeKey Bucket.phase0_slashingProtectionAttestationLowerBound (pubkeyBytes p) := fun he =>
      hp (pubkeyBytes_inj (List.cons.inj he).2)
    rw [if_neg hkey, if_neg hne]
    exact h.attestationLowerBound p

theorem Represents.setSpans (h : Represents ssz level db) (span : Span) (pubkey : BLSPubkey)
    {values : List IDistanceEntry} (hsafe : (DbOp.spanSetBatch span pubkey values).Safe) :
    Represents ssz (actLevel ssz (.spanSetBatch span pubkey values) level).2
      (db.setSpans ssz.toEpoch span pubkey values) where
  blockBySlot := h.blockBySlot.congr (batchPut_get_bucket (by cases span <;> decide))
  blockKeys := h.blockKeys.batchPut hsafe
  attestationByTarget :=
    h.attestationByTarget.congr (batchPut_get_bucket (by cases span <;> decide))
  attestationKeys := h.attestationKeys.batchPut hsafe
  attestationLowerBound p :=
    (congrArg _ (batchPut_get_bucket (by cases span <;> decide) _)).trans
      (h.attestationLowerBound p)
  span s := by
    show ReadsBucket _ _ _ (Function.update db.span span _ s)
    by_cases hs : s = span
    · subst hs
      rw [Function.update_self]
      exact (h.span s).batchPut hsafe fun _ _ => rfl
    · rw [Function.update_of_ne hs]
      exact (h.span s).congr
        (batchPut_get_bucket (by revert hs; cases s <;> cases span <;> decide))

/-- On a store that represents a `Db` an operation answers as on the `Db`, and the two stay so. -/
theorem Represents.act {o : DbOp} (hsafe : o.Safe) (h : Represents ssz level db) :
    (actLevel ssz o level).1 = (act ssz.toEpoch o db).1 ∧
      Represents ssz (actLevel ssz o level).2 (act ssz.toEpoch o db).2 := by
  cases o with
  | attestationByTargetGet p t => exact ⟨h.attestationByTarget (p, t) hsafe, h⟩
  | attestationByTargetGetAll p limit =>
    exact ⟨h.attestationByTarget.getAll h.attestationKeys p limit, h⟩
  | attestationByTargetSet p atts => exact ⟨rfl, h.setAttestations p hsafe⟩
  | attestationLowerBoundGet p => exact ⟨h.attestationLowerBound p, h⟩
  | attestationLowerBoundSet p value => exact ⟨rfl, h.setLowerBound p hsafe⟩
  | spanGet span p e => exact ⟨h.span span (p, e) hsafe, h⟩
  | spanSetBatch span p values => exact ⟨rfl, h.setSpans span p hsafe⟩
  | blockBySlotGet p slot => exact ⟨h.blockBySlot (p, slot) hsafe, h⟩
  | blockBySlotGetAll p limit => exact ⟨h.blockBySlot.getAll h.blockKeys p limit, h⟩
  | blockBySlotSet p blocks => exact ⟨rfl, h.setBlocks p hsafe⟩

/-- A program whose numbers are safe gives the same result on a store and on the `Db` it
represents. -/
theorem Represents.run {α : Type} {p : Async α} (hp : p.Issues DbOp.Safe)
    (h : Represents ssz level db) :
    (p.run (actLevel ssz) level).1 = (p.run (SlashingProtection.act ssz.toEpoch) db).1 ∧
      Represents ssz (p.run (actLevel ssz) level).2
        (p.run (SlashingProtection.act ssz.toEpoch) db).2 := by
  have hact : ∀ (o : DbOp) level db, o.Safe → Represents ssz level db →
      (actLevel ssz o level).1 = (SlashingProtection.act ssz.toEpoch o db).1 ∧
        Represents ssz (actLevel ssz o level).2 (SlashingProtection.act ssz.toEpoch o db).2 :=
    fun o level db hsafe hrep => hrep.act hsafe
  exact Prog.run_refines hact hp h

end Lodestar.SlashingProtection
