import Lodestar.Base.Slices
import Lodestar.SlashingProtection.Level

/-!
# Keys read back

`decodeKey` and `listPubkeys` of the two repositories of records. A listing has
no range: it decodes the keys of the whole database, also those of the lower
bounds, of the spans and of the validator's metadata (`ValidatorDbKey`).
-/

namespace Lodestar.SlashingProtection

open Std (TreeMap)
open Lodestar.Base

/-! ## Numbers -/

/-- `Number` of a `bigint`: what has more than 53 binary digits is rounded, ties to even. -/
def toNumber (n : Nat) : Nat :=
  let ulp := 2 ^ (Nat.log2 n - 52)
  let floor := n / ulp
  let rest := n % ulp
  if 2 * rest < ulp ∨ 2 * rest = ulp ∧ floor % 2 = 0 then floor * ulp else (floor + 1) * ulp

def bytesToInt (bytes : Bytes) : Nat := toNumber (ofBytesBE bytes)

theorem toNumber_of_lt {n : Nat} (h : n < 2 ^ 53) : toNumber n = n := by
  have hlog : Nat.log2 n - 52 = 0 := by
    rcases Nat.eq_zero_or_pos n with rfl | hpos
    · rfl
    · have hlt := (Nat.log2_lt hpos.ne').2 h
      omega
  simp [toNumber, hlog, Nat.mod_one]

theorem le_toNumber {n : Nat} (h : 2 ^ 53 ≤ n) : 2 ^ 53 ≤ toNumber n := by
  have hne : n ≠ 0 := by omega
  have hlog : 53 ≤ Nat.log2 n := (Nat.le_log2 hne).2 h
  set e := Nat.log2 n - 52 with he
  have hfloor : 2 ^ 52 ≤ n / 2 ^ e := by
    rw [Nat.le_div_iff_mul_le (Nat.two_pow_pos e), ← pow_add, show 52 + e = Nat.log2 n by omega]
    exact Nat.log2_self_le hne
  have hulp : 2 ^ 1 ≤ 2 ^ e := Nat.pow_le_pow_right (by decide) (by omega)
  have hprod : 2 ^ 52 * 2 ^ 1 ≤ n / 2 ^ e * 2 ^ e := Nat.mul_le_mul hfloor hulp
  have hstep : n / 2 ^ e * 2 ^ e ≤ (n / 2 ^ e + 1) * 2 ^ e :=
    Nat.mul_le_mul_right _ (Nat.le_succ _)
  simp only [toNumber, ← he]
  split <;> omega

theorem toNumber_eq_iff {m n : Nat} (h : n < 2 ^ 53) : toNumber m = n ↔ m = n := by
  rcases Nat.lt_or_ge m (2 ^ 53) with hm | hm
  · rw [toNumber_of_lt hm]
  · have hle := le_toNumber hm
    omega

/-! ## The two repositories -/

abbrev DB_PREFIX_LENGTH : Nat := 1

/-- `uniqueVectorArr` of byte strings: keeps the first of equal ones. -/
def uniqueBytes (buffers : List Bytes) : List Bytes := buffers.eraseDups

namespace BlockBySlotRepository

structure DecodedKey where
  pubkey : Bytes
  slot : Nat
  deriving DecidableEq

def encodeKey (pubkey : BLSPubkey) (slot : Nat) : Bytes :=
  SlashingProtection.encodeKey Bucket.phase0_slashingProtectionBlockBySlot (numberKey (pubkey, slot))

/-- The slot is read from where the public key starts. -/
def decodeKey (key : Bytes) : DecodedKey where
  pubkey := slice key DB_PREFIX_LENGTH (DB_PREFIX_LENGTH + blsPubkeyLen)
  slot := bytesToInt (slice key DB_PREFIX_LENGTH (DB_PREFIX_LENGTH + uintLen))

def listPubkeys (level : LevelDb) : List Bytes :=
  uniqueBytes (level.keys.map fun key => (decodeKey key).pubkey)

end BlockBySlotRepository

namespace AttestationByTargetRepository

structure DecodedKey where
  pubkey : Bytes
  targetEpoch : Nat
  deriving DecidableEq

def encodeKey (pubkey : BLSPubkey) (targetEpoch : Nat) : Bytes :=
  SlashingProtection.encodeKey Bucket.phase0_slashingProtectionAttestationByTarget
    (numberKey (pubkey, targetEpoch))

def decodeKey (key : Bytes) : DecodedKey where
  pubkey := slice key DB_PREFIX_LENGTH (DB_PREFIX_LENGTH + blsPubkeyLen)
  targetEpoch := bytesToInt
    (slice key (DB_PREFIX_LENGTH + blsPubkeyLen) (DB_PREFIX_LENGTH + blsPubkeyLen + uintLen))

def listPubkeys (level : LevelDb) : List Bytes :=
  uniqueBytes (level.keys.map fun key => (decodeKey key).pubkey)

end AttestationByTargetRepository

/-- `listPubkeys` of `SlashingProtection`. -/
def LevelDb.listPubkeys (level : LevelDb) : List Bytes :=
  let pubkeysAtt := AttestationByTargetRepository.listPubkeys level
  let pubkeysBlk := BlockBySlotRepository.listPubkeys level
  uniqueBytes (pubkeysAtt ++ pubkeysBlk)

/-! ## The keys of the shared database -/

def Bucket.validator_metaData : UInt8 := 41

/-- What `MetaDataRepository` stores. -/
inductive MetaData where
  | GENESIS_VALIDATORS_ROOT
  | GENESIS_TIME
  deriving DecidableEq

def MetaData.name : MetaData → String
  | .GENESIS_VALIDATORS_ROOT => "GENESIS_VALIDATORS_ROOT"
  | .GENESIS_TIME => "GENESIS_TIME"

/-- `Buffer.from` of the name. -/
def MetaData.nameBytes (data : MetaData) : Bytes := data.name.toList.map Char.toUInt8

/-- The keys the repositories of the database write. -/
inductive ValidatorDbKey where
  | blockBySlot (pubkey : BLSPubkey) (slot : Nat)
  | attestationByTarget (pubkey : BLSPubkey) (targetEpoch : Nat)
  | attestationLowerBound (pubkey : BLSPubkey)
  | span (span : Span) (pubkey : BLSPubkey) (epoch : Nat)
  | metaData (data : MetaData)
  deriving DecidableEq

namespace ValidatorDbKey

def bytes : ValidatorDbKey → Bytes
  | blockBySlot pubkey slot => BlockBySlotRepository.encodeKey pubkey slot
  | attestationByTarget pubkey targetEpoch =>
    AttestationByTargetRepository.encodeKey pubkey targetEpoch
  | attestationLowerBound pubkey =>
    encodeKey Bucket.phase0_slashingProtectionAttestationLowerBound (pubkeyBytes pubkey)
  | span s pubkey epoch => encodeKey s.bucket (numberKey (pubkey, epoch))
  | metaData data => encodeKey Bucket.validator_metaData data.nameBytes

def pubkey? : ValidatorDbKey → Option BLSPubkey
  | blockBySlot pubkey _ | attestationByTarget pubkey _ | attestationLowerBound pubkey
  | span _ pubkey _ => some pubkey
  | metaData _ => none

end ValidatorDbKey

/-- Every key of the store is one that its repositories write. -/
def WrittenKeys (level : LevelDb) : Prop :=
  ∀ bytes ∈ level, ∃ key : ValidatorDbKey, key.bytes = bytes

section WrittenKeys

variable {level : LevelDb}

theorem WrittenKeys.insert (h : WrittenKeys level) (key : ValidatorDbKey) (value : Bytes) :
    WrittenKeys (TreeMap.insert level key.bytes value) := by
  intro bytes hbytes
  rcases TreeMap.mem_insert.1 hbytes with heq | hmem
  · exact ⟨key, Std.LawfulEqCmp.eq_of_compare heq⟩
  · exact h bytes hmem

theorem WrittenKeys.batchPut {β : Type} (h : WrittenKeys level) {key serialize : β → Bytes}
    {items : List β} (hkey : ∀ b ∈ items, ∃ k : ValidatorDbKey, k.bytes = key b) :
    WrittenKeys (level.batchPut key serialize items) := by
  intro bytes hbytes
  rcases LevelDb.mem_batchPut hbytes with hmem | ⟨b, hb, rfl⟩
  · exact h bytes hmem
  · exact hkey b hb

theorem WrittenKeys.act {ssz : SszTypes} (h : WrittenKeys level) (o : DbOp) :
    WrittenKeys (actLevel ssz o level).2 := by
  cases o with
  | attestationByTargetGet | attestationByTargetGetAll | attestationLowerBoundGet | spanGet
  | blockBySlotGet | blockBySlotGetAll => exact h
  | attestationByTargetSet pubkey atts =>
    exact h.batchPut fun att _ => ⟨.attestationByTarget pubkey att.targetEpoch, rfl⟩
  | attestationLowerBoundSet pubkey value => exact h.insert (.attestationLowerBound pubkey) _
  | spanSetBatch span pubkey values =>
    exact h.batchPut fun value _ => ⟨.span span pubkey value.source, rfl⟩
  | blockBySlotSet pubkey blocks =>
    exact h.batchPut fun block _ => ⟨.blockBySlot pubkey block.slot, rfl⟩

/-- Whatever the services do, only the repositories' keys are written. -/
theorem run {ssz : SszTypes} {ε α : Type} (h : WrittenKeys level)
    (p : Prog DbOp DbOp.Resp ε α) : WrittenKeys (p.run (actLevel ssz) level).2 := by
  induction p generalizing level with
  | ret a => exact h
  | raise e => exact h
  | await o k ih => exact ih _ (h.act o)
end WrittenKeys

/-! ## Reading a key back -/

theorem slice_pubkey (bucket : UInt8) (pubkey : BLSPubkey) (rest : Bytes) :
    slice (encodeKey bucket (pubkeyBytes pubkey ++ rest)) DB_PREFIX_LENGTH
      (DB_PREFIX_LENGTH + blsPubkeyLen) = pubkeyBytes pubkey := by
  have hlen : (pubkeyBytes pubkey).length = blsPubkeyLen := length_toBytesBE _ _
  show ((pubkeyBytes pubkey ++ rest).drop 0).take _ = _
  rw [List.drop_zero, List.take_left' (by omega)]

theorem slice_number (bucket : UInt8) (pubkey : BLSPubkey) (n : Nat) :
    slice (encodeKey bucket (numberKey (pubkey, n))) (DB_PREFIX_LENGTH + blsPubkeyLen)
      (DB_PREFIX_LENGTH + blsPubkeyLen + uintLen) = toBytesBE uintLen n := by
  have hlen : (pubkeyBytes pubkey).length = blsPubkeyLen := length_toBytesBE _ _
  show ((pubkeyBytes pubkey ++ toBytesBE uintLen n).drop blsPubkeyLen).take _ = _
  rw [List.drop_left' hlen, List.take_of_length_le (by simp)]

theorem take_toBytesBE (a b n : Nat) : (toBytesBE (a + b) n).take a = toBytesBE a (n / 256 ^ b) := by
  induction a with
  | zero => rfl
  | succ a ih =>
    rw [show a + 1 + b = a + b + 1 by omega]
    simp only [toBytesBE, List.take_succ_cons, ih]
    rw [Nat.div_div_eq_div_mul, ← pow_add, add_comm b a]

theorem slice_misplaced (bucket : UInt8) (pubkey : BLSPubkey) (n : Nat) :
    slice (encodeKey bucket (numberKey (pubkey, n))) DB_PREFIX_LENGTH
      (DB_PREFIX_LENGTH + uintLen) = toBytesBE uintLen (pubkey.toNat / 256 ^ 40) := by
  have hlen : (pubkeyBytes pubkey).length = blsPubkeyLen := length_toBytesBE _ _
  show ((pubkeyBytes pubkey ++ toBytesBE uintLen n).drop 0).take uintLen = _
  rw [List.drop_zero, List.take_append_of_le_length (by rw [hlen]; decide)]
  exact take_toBytesBE uintLen 40 _

theorem bytesToInt_toBytesBE {n : Nat} (h : n < 2 ^ 53) : bytesToInt (toBytesBE uintLen n) = n := by
  unfold bytesToInt
  rw [ofBytesBE_toBytesBE, Nat.mod_eq_of_lt (lt_trans h (by decide)), toNumber_of_lt h]

theorem AttestationByTargetRepository.decodeKey_encodeKey (pubkey : BLSPubkey) {targetEpoch : Nat}
    (h : targetEpoch < 2 ^ 53) :
    decodeKey (encodeKey pubkey targetEpoch) = ⟨pubkeyBytes pubkey, targetEpoch⟩ := by
  unfold decodeKey encodeKey
  rw [slice_number, bytesToInt_toBytesBE h, numberKey, slice_pubkey]

/-- The decoded slot is the number that the first eight bytes of the public key write. -/
theorem BlockBySlotRepository.decodeKey_encodeKey (pubkey : BLSPubkey) (slot : Nat) :
    decodeKey (encodeKey pubkey slot) =
      ⟨pubkeyBytes pubkey, toNumber (pubkey.toNat / 256 ^ 40)⟩ := by
  have hlt : pubkey.toNat / 256 ^ 40 < 256 ^ uintLen := by
    have hpubkey : pubkey.toNat < 256 ^ 48 := toNat_lt_pow 48 pubkey
    show pubkey.toNat / 256 ^ 40 < 256 ^ 8
    omega
  unfold decodeKey encodeKey bytesToInt
  rw [slice_misplaced, ofBytesBE_toBytesBE, Nat.mod_eq_of_lt hlt, numberKey, slice_pubkey]

/-! ## What a listing names -/

theorem mem_listPubkeys_iff {level : LevelDb} {bytes : Bytes} {decodePubkey : Bytes → Bytes} :
    bytes ∈ uniqueBytes (level.keys.map decodePubkey) ↔
      ∃ key ∈ level, decodePubkey key = bytes := by
  simp [uniqueBytes, List.mem_eraseDups, List.mem_map, TreeMap.mem_keys]

/-- The bytes `listPubkeys` takes from a key. -/
def listedBytes (key : Bytes) : Bytes := slice key DB_PREFIX_LENGTH (DB_PREFIX_LENGTH + blsPubkeyLen)

namespace ValidatorDbKey

theorem listedBytes_bytes {key : ValidatorDbKey} {pubkey : BLSPubkey}
    (h : key.pubkey? = some pubkey) : listedBytes key.bytes = pubkeyBytes pubkey := by
  cases key with
  | blockBySlot p slot => cases h; exact slice_pubkey _ _ _
  | attestationByTarget p targetEpoch => cases h; exact slice_pubkey _ _ _
  | attestationLowerBound p =>
    cases h
    have hslice := slice_pubkey Bucket.phase0_slashingProtectionAttestationLowerBound pubkey []
    rwa [List.append_nil] at hslice
  | span s p epoch => cases h; exact slice_pubkey _ _ _
  | metaData data => cases h

theorem listedBytes_metaData (data : MetaData) (pubkey : BLSPubkey) :
    listedBytes (metaData data).bytes ≠ pubkeyBytes pubkey := by
  have hlen : (pubkeyBytes pubkey).length = blsPubkeyLen := length_toBytesBE _ _
  intro h
  rw [← h] at hlen
  cases data <;> revert hlen <;> decide

end ValidatorDbKey

/-- The list names each public key with a record once, and nothing else. -/
def ListsExactly (listed : List Bytes) (HasRecord : BLSPubkey → Prop) : Prop :=
  listed.Nodup ∧ ∀ bytes, bytes ∈ listed ↔ ∃ pubkey, HasRecord pubkey ∧ pubkeyBytes pubkey = bytes

/-- No metadata is stored, and every public key with an entry in some bucket has a record. -/
def OnlyMentions (level : LevelDb) (HasRecord : BLSPubkey → Prop) : Prop :=
  (∀ data : MetaData, (ValidatorDbKey.metaData data).bytes ∉ level) ∧
    ∀ (key : ValidatorDbKey) pubkey, key.bytes ∈ level → key.pubkey? = some pubkey →
      HasRecord pubkey

section ListsExactly

variable {level : LevelDb} {listed : List Bytes} {HasRecord : BLSPubkey → Prop}

/-- Everything listed is a public key with a record just when nothing else has an entry. -/
theorem forall_listed_iff (hwritten : WrittenKeys level)
    (hlisted : ∀ bytes, bytes ∈ listed ↔ ∃ key ∈ level, listedBytes key = bytes) :
    (∀ bytes ∈ listed, ∃ pubkey, HasRecord pubkey ∧ pubkeyBytes pubkey = bytes) ↔
      OnlyMentions level HasRecord := by
  constructor
  · intro h
    have hmem : ∀ key : ValidatorDbKey, key.bytes ∈ level → ∃ pubkey, HasRecord pubkey ∧
        pubkeyBytes pubkey = listedBytes key.bytes := fun key hkey =>
      h _ ((hlisted _).2 ⟨_, hkey, rfl⟩)
    constructor
    · intro data hdata
      obtain ⟨pubkey, -, heq⟩ := hmem _ hdata
      exact ValidatorDbKey.listedBytes_metaData data pubkey heq.symm
    · intro key pubkey hkey hpubkey
      obtain ⟨q, hq, heq⟩ := hmem key hkey
      rw [ValidatorDbKey.listedBytes_bytes hpubkey] at heq
      exact pubkeyBytes_inj heq ▸ hq
  · rintro ⟨hdata, hrecord⟩ bytes hbytes
    obtain ⟨raw, hraw, rfl⟩ := (hlisted bytes).1 hbytes
    obtain ⟨key, rfl⟩ := hwritten raw hraw
    cases hpubkey : key.pubkey? with
    | none =>
      cases key with
      | metaData data => exact (hdata data hraw).elim
      | _ => cases hpubkey
    | some pubkey =>
      exact ⟨pubkey, hrecord key pubkey hraw hpubkey,
        (ValidatorDbKey.listedBytes_bytes hpubkey).symm⟩

/-- A listing that names everything stored is exact just when nothing else has an entry. -/
theorem listsExactly_iff (hwritten : WrittenKeys level) (hnodup : listed.Nodup)
    (hlisted : ∀ bytes, bytes ∈ listed ↔ ∃ key ∈ level, listedBytes key = bytes)
    (hrecord : ∀ pubkey, HasRecord pubkey → ∃ key : ValidatorDbKey, key.bytes ∈ level ∧
      key.pubkey? = some pubkey) :
    ListsExactly listed HasRecord ↔ OnlyMentions level HasRecord := by
  rw [← forall_listed_iff hwritten hlisted]
  constructor
  · intro h bytes hbytes
    exact (h.2 bytes).1 hbytes
  · refine fun h => ⟨hnodup, fun bytes => ⟨h bytes, ?_⟩⟩
    rintro ⟨pubkey, hpubkey, rfl⟩
    obtain ⟨key, hkey, hsome⟩ := hrecord pubkey hpubkey
    exact (hlisted _).2 ⟨_, hkey, ValidatorDbKey.listedBytes_bytes hsome⟩

end ListsExactly

namespace LevelDb

/-- The public key has a record in `BlockBySlotRepository`. -/
def HasBlock (level : LevelDb) (pubkey : BLSPubkey) : Prop :=
  ∃ slot, BlockBySlotRepository.encodeKey pubkey slot ∈ level

/-- The public key has a record in `AttestationByTargetRepository`. -/
def HasAttestation (level : LevelDb) (pubkey : BLSPubkey) : Prop :=
  ∃ targetEpoch, AttestationByTargetRepository.encodeKey pubkey targetEpoch ∈ level

end LevelDb

/-- The keys of attestations decode to what was encoded, those of blocks when the slot is what the
first eight bytes of the public key write. A listing is exact just when no metadata is stored and
the other buckets mention no public key without a record. -/
theorem decodeKey_and_listPubkeys (pubkey : BLSPubkey) {n : Nat} (hn : n < 2 ^ 53)
    {level : LevelDb} (hwritten : WrittenKeys level) :
    AttestationByTargetRepository.decodeKey (AttestationByTargetRepository.encodeKey pubkey n) =
      ⟨pubkeyBytes pubkey, n⟩ ∧
    (BlockBySlotRepository.decodeKey (BlockBySlotRepository.encodeKey pubkey n) =
      ⟨pubkeyBytes pubkey, n⟩ ↔ pubkey.toNat / 256 ^ 40 = n) ∧
    (ListsExactly (AttestationByTargetRepository.listPubkeys level) level.HasAttestation ↔
      OnlyMentions level level.HasAttestation) ∧
    (ListsExactly (BlockBySlotRepository.listPubkeys level) level.HasBlock ↔
      OnlyMentions level level.HasBlock) ∧
    ((∀ bytes ∈ level.listPubkeys, ∃ pubkey,
        (level.HasAttestation pubkey ∨ level.HasBlock pubkey) ∧ pubkeyBytes pubkey = bytes) ↔
      OnlyMentions level fun pubkey => level.HasAttestation pubkey ∨ level.HasBlock pubkey) := by
  refine ⟨AttestationByTargetRepository.decodeKey_encodeKey pubkey hn, ?_, ?_, ?_, ?_⟩
  · rw [BlockBySlotRepository.decodeKey_encodeKey, BlockBySlotRepository.DecodedKey.mk.injEq]
    simp [toNumber_eq_iff hn]
  · refine listsExactly_iff hwritten (nodup_eraseDups _) (fun _ => mem_listPubkeys_iff) ?_
    rintro pubkey ⟨targetEpoch, hmem⟩
    exact ⟨.attestationByTarget pubkey targetEpoch, hmem, rfl⟩
  · refine listsExactly_iff hwritten (nodup_eraseDups _) (fun _ => mem_listPubkeys_iff) ?_
    rintro pubkey ⟨slot, hmem⟩
    exact ⟨.blockBySlot pubkey slot, hmem, rfl⟩
  · refine forall_listed_iff hwritten fun bytes => ?_
    have hatt : bytes ∈ AttestationByTargetRepository.listPubkeys level ↔
        ∃ key ∈ level, listedBytes key = bytes := mem_listPubkeys_iff
    have hblk : bytes ∈ BlockBySlotRepository.listPubkeys level ↔
        ∃ key ∈ level, listedBytes key = bytes := mem_listPubkeys_iff
    unfold LevelDb.listPubkeys uniqueBytes
    rw [List.mem_eraseDups, List.mem_append, hatt, hblk, or_self]

/-- One attestation of the public key is recorded. -/
def attestedDb : LevelDb :=
  TreeMap.insert ∅ (ValidatorDbKey.attestationByTarget 0xa0 3).bytes []

theorem writtenKeys_attestedDb : WrittenKeys attestedDb :=
  WrittenKeys.insert (fun bytes h => by simp at h) _ _

theorem mem_attestedDb {key : ValidatorDbKey} (h : key.bytes ∈ attestedDb) :
    (ValidatorDbKey.attestationByTarget 0xa0 3).bytes = key.bytes := by
  rcases TreeMap.mem_insert.1 h with heq | hmem
  · exact Std.LawfulEqCmp.eq_of_compare heq
  · simp at hmem

theorem onlyMentions_attestedDb : OnlyMentions attestedDb attestedDb.HasAttestation := by
  refine ⟨fun data hdata => ?_, fun key pubkey hkey hpubkey => ⟨3, ?_⟩⟩
  · have heq := (List.cons.inj (mem_attestedDb hdata)).1
    revert heq
    decide
  · have heq := congrArg listedBytes (mem_attestedDb hkey)
    have hattested : listedBytes (ValidatorDbKey.attestationByTarget 0xa0 3).bytes = pubkeyBytes 0xa0 :=
      ValidatorDbKey.listedBytes_bytes rfl
    rw [ValidatorDbKey.listedBytes_bytes hpubkey, hattested] at heq
    obtain rfl := pubkeyBytes_inj heq
    exact TreeMap.mem_insert_self

theorem decodeKey_and_listPubkeys_attestedDb :
    AttestationByTargetRepository.decodeKey (AttestationByTargetRepository.encodeKey 0xa0 3) =
      ⟨pubkeyBytes 0xa0, 3⟩ ∧
    BlockBySlotRepository.decodeKey (BlockBySlotRepository.encodeKey 0xa0 0) =
      ⟨pubkeyBytes 0xa0, 0⟩ ∧
    ListsExactly (AttestationByTargetRepository.listPubkeys attestedDb)
      attestedDb.HasAttestation := by
  obtain ⟨hattestation, -, hlist, -⟩ := decodeKey_and_listPubkeys 0xa0 (show 3 < 2 ^ 53 by decide)
    writtenKeys_attestedDb
  obtain ⟨-, hblock, -⟩ := decodeKey_and_listPubkeys 0xa0 (show 0 < 2 ^ 53 by decide)
    writtenKeys_attestedDb
  exact ⟨hattestation, hblock.2 (by decide +kernel), hlist.2 onlyMentions_attestedDb⟩

/-- The genesis time is stored as well. -/
def usedDb : LevelDb :=
  TreeMap.insert attestedDb (ValidatorDbKey.metaData .GENESIS_TIME).bytes []

/-- A block's slot is lost, and the name of the genesis time counts as a public key. -/
theorem decodeKey_and_listPubkeys_usedDb :
    BlockBySlotRepository.decodeKey (BlockBySlotRepository.encodeKey 0xa0 3) =
      ⟨pubkeyBytes 0xa0, 0⟩ ∧
    WrittenKeys usedDb ∧
    ¬ ListsExactly (AttestationByTargetRepository.listPubkeys usedDb) usedDb.HasAttestation ∧
    ¬ ListsExactly (BlockBySlotRepository.listPubkeys usedDb) usedDb.HasBlock := by
  have hmem : (ValidatorDbKey.metaData .GENESIS_TIME).bytes ∈ usedDb := TreeMap.mem_insert_self
  refine ⟨by decide +kernel, writtenKeys_attestedDb.insert _ _, fun h => ?_, fun h => ?_⟩
  · obtain ⟨pubkey, -, heq⟩ := (h.2 _).1 (mem_listPubkeys_iff.2 ⟨_, hmem, rfl⟩)
    exact ValidatorDbKey.listedBytes_metaData _ pubkey heq.symm
  · obtain ⟨pubkey, -, heq⟩ := (h.2 _).1 (mem_listPubkeys_iff.2 ⟨_, hmem, rfl⟩)
    exact ValidatorDbKey.listedBytes_metaData _ pubkey heq.symm

end Lodestar.SlashingProtection
