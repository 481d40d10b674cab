import Lodestar.Chain.GossipAttestation
import Lodestar.StateTransition.ProcessSyncAggregate

/-!
# Aggregation bits

`util/aggregationBits.ts`: bits are read from the booleans of the struct or from
the chunks of the tree, a byte at a time. The library that keeps the tree is a
parameter. The table of `getUint8ByteToBitBooleanArray` only keeps what
`computeUint8ByteToBitBooleanArray` gives and is left out.
-/

namespace Lodestar.StateTransition

def BITS_PER_BYTE : Nat := 8

inductive AggregationBitsErrorCode where
  | NOT_EXACTLY_ONE_BIT_SET
  deriving DecidableEq

/-- What is called of a `BitListType` and of a `TreeBacked` value of it. -/
structure BitsType (Tree : Type) where
  length : Tree → Nat
  tree_getChunkCount : Tree → Nat
  getChunkDepth : Nat
  /-- The `root` of each node. -/
  iterateNodesAtDepth : Tree → (depth start count : Nat) → List (List Nat)

/-- `BitList | BitVector`, or `TreeBacked`. -/
inductive BitArr (Tree : Type) where
  | struct (bits : List Bool)
  | treeBacked (bits : Tree)

variable {Tree : Type}

/-! ## Bytes -/

def computeUint8ByteToBitBooleanArray (byte : Nat) : List Bool :=
  let binaryStr := Nat.toDigits 2 byte
  let binaryLength := binaryStr.length
  (List.range BITS_PER_BYTE).map fun j =>
    if j < binaryLength then binaryStr[binaryLength - j - 1]? = some '1' else false

def bitsToUint8Array (bits : Tree) (sszType : BitsType Tree) : List Nat :=
  let chunkCount := sszType.tree_getChunkCount bits
  let chunkDepth := sszType.getChunkDepth
  let chunks := sszType.iterateNodesAtDepth bits chunkDepth 0 chunkCount
  -- `Math.ceil`
  chunks.flatten.take ((sszType.length bits + (BITS_PER_BYTE - 1)) / BITS_PER_BYTE)

/-! ## `zipIndexes` -/

/-- `push` to the one list or to the other. -/
def pushIndex (selected : Bool) (index : Nat) (lists : List Nat × List Nat) :
    List Nat × List Nat :=
  if selected then (lists.1 ++ [index], lists.2) else (lists.1, lists.2 ++ [index])

def zipIndexesTreeBacked (indexes : List Nat) (bits : Tree) (sszType : BitsType Tree) :
    List Nat × List Nat :=
  let bytes := bitsToUint8Array bits sszType
  (List.range bytes.length).foldl (fun lists iByte =>
    let booleansInByte := computeUint8ByteToBitBooleanArray (bytes.getD iByte 0)
    (List.range BITS_PER_BYTE).foldl (fun lists iBit =>
      match indexes[iByte * BITS_PER_BYTE + iBit]? with
      | none => lists
      | some committeeIndex => pushIndex (booleansInByte.getD iBit false) committeeIndex lists)
      lists) ([], [])

def zipIndexes (indexes : List Nat) (bitlist : BitArr Tree) (sszType : BitsType Tree) :
    List Nat × List Nat :=
  match bitlist with
  | .treeBacked bits => zipIndexesTreeBacked indexes bits sszType
  | .struct bits =>
    (List.range indexes.length).foldl
      (fun lists i => pushIndex (bits.getD i false) (indexes.getD i 0) lists) ([], [])

/-! ## `getSingleBitIndex` -/

/-- One turn of either loop, at a bit and its position. -/
def singleBitStep (bit : Bool) (i : Nat) (index : Option Nat) :
    Except AggregationBitsErrorCode (Option Nat) :=
  if bit then
    match index with
    | some _ => .error .NOT_EXACTLY_ONE_BIT_SET
    | none => .ok (some i)
  else .ok index

def getSingleBitIndex (bits : BitArr Tree) (sszType : BitsType Tree) :
    Except AggregationBitsErrorCode Nat := do
  let index ← match bits with
    | .treeBacked bits =>
      let bytes := bitsToUint8Array bits sszType
      (List.range bytes.length).foldlM (fun index iByte =>
        if bytes.getD iByte 0 = 0 then .ok index
        else
          let booleansInByte := computeUint8ByteToBitBooleanArray (bytes.getD iByte 0)
          (List.range BITS_PER_BYTE).foldlM (fun index iBit =>
            singleBitStep (booleansInByte.getD iBit false) (iByte * BITS_PER_BYTE + iBit) index)
            index) none
    | .struct bits =>
      (List.range bits.length).foldlM
        (fun index i => singleBitStep (bits.getD i false) i index) none
  match index with
  | none => .error .NOT_EXACTLY_ONE_BIT_SET
  | some index => .ok index

/-! ## The tree -/

/-- The tree of some bits: its chunks are of 32 bytes, no more than it takes, and have the bits
from the lowest of the first byte on, with zeros after the last. -/
structure BitsType.Backs (sszType : BitsType Tree) (tree : Tree) (bits : List Bool) : Prop where
  length : sszType.length tree = bits.length
  chunkCount : (sszType.iterateNodesAtDepth tree sszType.getChunkDepth 0
    (sszType.tree_getChunkCount tree)).length = (bits.length + 255) / 256
  chunkSize : ∀ chunk ∈ sszType.iterateNodesAtDepth tree sszType.getChunkDepth 0
    (sszType.tree_getChunkCount tree), chunk.length = 32 ∧ ∀ byte ∈ chunk, byte < 256
  bit : ∀ i : Nat, (((sszType.iterateNodesAtDepth tree sszType.getChunkDepth 0
    (sszType.tree_getChunkCount tree)).flatten.getD (i / 8) 0).testBit (i % 8))
      = bits.getD i false

theorem computeUint8ByteToBitBooleanArray_eq : ∀ byte < 256,
    computeUint8ByteToBitBooleanArray byte = (List.range 8).map byte.testBit := by
  decide +kernel

theorem getD_computeUint8ByteToBitBooleanArray {byte : Nat} (h : byte < 256) {i : Nat}
    (hi : i < 8) : (computeUint8ByteToBitBooleanArray byte).getD i false = byte.testBit i := by
  rw [computeUint8ByteToBitBooleanArray_eq byte h, List.getD_eq_getElem?_getD, List.getElem?_map,
    List.getElem?_range hi, Option.map_some, Option.getD_some]

theorem length_flatten_of_forall {α : Type} {n : Nat} {lists : List (List α)}
    (h : ∀ list ∈ lists, list.length = n) : lists.flatten.length = lists.length * n := by
  rw [List.length_flatten, List.map_eq_replicate_iff.mpr h, List.sum_replicate_nat]

namespace BitsType.Backs

variable {sszType : BitsType Tree} {tree : Tree} {bits : List Bool}

theorem length_bytes (h : sszType.Backs tree bits) :
    (bitsToUint8Array tree sszType).length = (bits.length + 7) / 8 := by
  have hflat := length_flatten_of_forall fun chunk hchunk => (h.chunkSize chunk hchunk).1
  rw [h.chunkCount] at hflat
  rw [bitsToUint8Array, List.length_take, hflat, h.length, BITS_PER_BYTE]
  omega

theorem byte_lt (h : sszType.Backs tree bits) (i : Nat) :
    (bitsToUint8Array tree sszType).getD i 0 < 256 := by
  rw [List.getD_eq_getElem?_getD]
  cases hget : (bitsToUint8Array tree sszType)[i]? with
  | none => decide
  | some byte =>
    have hmem : byte ∈ bitsToUint8Array tree sszType := List.mem_of_getElem? hget
    obtain ⟨chunk, hchunk, hbyte⟩ := List.mem_flatten.mp (List.mem_of_mem_take hmem)
    exact (h.chunkSize chunk hchunk).2 byte hbyte

theorem bit_bytes (h : sszType.Backs tree bits) {iByte iBit : Nat}
    (hiByte : iByte < (bitsToUint8Array tree sszType).length) (hiBit : iBit < 8) :
    (computeUint8ByteToBitBooleanArray ((bitsToUint8Array tree sszType).getD iByte 0)).getD iBit
      false = bits.getD (iByte * 8 + iBit) false := by
  have hbit := h.bit (iByte * 8 + iBit)
  have hdiv : (iByte * 8 + iBit) / 8 = iByte := by omega
  have hmod : (iByte * 8 + iBit) % 8 = iBit := by omega
  rw [hdiv, hmod] at hbit
  rw [getD_computeUint8ByteToBitBooleanArray (h.byte_lt iByte) hiBit, ← hbit]
  rw [bitsToUint8Array, List.length_take, lt_inf_iff] at hiByte
  rw [bitsToUint8Array, List.getD_eq_getElem?_getD, List.getElem?_take, if_pos hiByte.1,
    List.getD_eq_getElem?_getD]

end BitsType.Backs

/-! ## Loops over the bits of bytes -/

theorem range_mul (m n : Nat) :
    List.range (m * n) = (List.range m).flatMap fun i => (List.range n).map (i * n + ·) := by
  induction m with
  | zero => simp
  | succ m ih => simp [Nat.succ_mul, List.range_add, List.range_succ, ih]

section

variable {m : Type → Type} [Monad m] [LawfulMonad m] {σ : Type}

theorem foldlM_flatMap {α β : Type} (f : α → List β) (step : σ → β → m σ) (l : List α) (init : σ) :
    (l.flatMap f).foldlM step init = l.foldlM (fun acc a => (f a).foldlM step acc) init := by
  induction l generalizing init with
  | nil => rfl
  | cons a l ih =>
    rw [List.flatMap_cons, List.foldlM_append, List.foldlM_cons]
    exact bind_congr ih

omit [LawfulMonad m] in
theorem foldlM_ext {α : Type} {f g : σ → α → m σ} {l : List α}
    (h : ∀ acc, ∀ a ∈ l, f acc a = g acc a) (init : σ) : l.foldlM f init = l.foldlM g init := by
  induction l generalizing init with
  | nil => rfl
  | cons a l ih =>
    rw [List.foldlM_cons, List.foldlM_cons, h init a List.mem_cons_self]
    exact bind_congr fun acc => ih (fun acc b hb => h acc b (List.mem_cons_of_mem a hb)) acc

theorem foldlM_skip {α : Type} {step : σ → α → m σ} {l : List α}
    (h : ∀ acc, ∀ a ∈ l, step acc a = pure acc) (init : σ) :
    l.foldlM step init = pure init := by
  induction l with
  | nil => rfl
  | cons a l ih =>
    rw [List.foldlM_cons, h init a List.mem_cons_self, pure_bind,
      ih fun acc b hb => h acc b (List.mem_cons_of_mem a hb)]

/-- A loop over bytes that does `step` at each of their bits is one over the bits, when `step` does
nothing at those past the end. -/
theorem foldlM_bytes {inner step : σ → Nat → m σ} {byteLen len : Nat}
    (hinner : ∀ acc, ∀ iByte < byteLen, inner acc iByte
      = (List.range 8).foldlM (fun acc iBit => step acc (iByte * 8 + iBit)) acc)
    (hpast : ∀ acc, ∀ i ≥ len, step acc i = pure acc) (hlen : len ≤ byteLen * 8) (init : σ) :
    (List.range byteLen).foldlM inner init = (List.range len).foldlM step init := by
  calc (List.range byteLen).foldlM inner init
      = (List.range byteLen).foldlM
          (fun acc iByte => ((List.range 8).map (iByte * 8 + ·)).foldlM step acc) init := by
        refine foldlM_ext (fun acc iByte hiByte => ?_) init
        rw [hinner acc iByte (List.mem_range.mp hiByte), List.foldlM_map]
    _ = (List.range (byteLen * 8)).foldlM step init := by rw [range_mul, foldlM_flatMap]
    _ = (List.range (len + (byteLen * 8 - len))).foldlM step init := by
        rw [Nat.add_sub_cancel' hlen]
    _ = (List.range len).foldlM step init := by
        rw [List.range_add, List.foldlM_append]
        refine Eq.trans (bind_congr fun acc => ?_) (bind_pure _)
        rw [List.foldlM_map]
        exact foldlM_skip (fun acc i _ => hpast acc _ (Nat.le_add_right len i)) acc

end

/-! ## Both representations -/

section

variable {sszType : BitsType Tree} {tree : Tree} {bits : List Bool} {indexes : List Nat}

theorem zipIndexesTreeBacked_eq (h : sszType.Backs tree bits)
    (hlength : indexes.length ≤ bits.length) :
    zipIndexesTreeBacked indexes tree sszType = zipIndexes indexes (.struct bits) sszType := by
  have hbytes := h.length_bytes
  let step (lists : List Nat × List Nat) (i : Nat) : Id (List Nat × List Nat) :=
    pure (match indexes[i]? with
      | none => lists
      | some committeeIndex => pushIndex (bits.getD i false) committeeIndex lists)
  rw [zipIndexesTreeBacked, zipIndexes, List.foldl_eq_foldlM, List.foldl_eq_foldlM,
    @foldlM_bytes Id _ _ _ _ step _ indexes.length]
  · congr 1
    refine foldlM_ext (fun lists i hi => ?_) _
    have hget := List.getElem?_eq_getElem (List.mem_range.mp hi)
    simp only [step, List.getD_eq_getElem?_getD, hget, Option.getD_some]
  · intro lists iByte hiByte
    rw [List.foldl_eq_foldlM]
    refine foldlM_ext (fun lists iBit hiBit => ?_) lists
    rw [h.bit_bytes hiByte (List.mem_range.mp hiBit), BITS_PER_BYTE]
  · intro lists i hi
    simp only [step, List.getElem?_eq_none hi]
  · omega

theorem getSingleBitIndex_treeBacked (h : sszType.Backs tree bits) :
    getSingleBitIndex (.treeBacked tree) sszType = getSingleBitIndex (.struct bits) sszType := by
  have hbytes := h.length_bytes
  rw [getSingleBitIndex, getSingleBitIndex]
  congr 1
  refine foldlM_bytes (fun index iByte hiByte => ?_) (fun index i hi => ?_) (by omega) none
  · have hstep : ∀ index : Option Nat,
        (List.range 8).foldlM (fun index iBit => singleBitStep
          ((computeUint8ByteToBitBooleanArray ((bitsToUint8Array tree sszType).getD iByte 0)).getD
            iBit false) (iByte * BITS_PER_BYTE + iBit) index) index
          = (List.range 8).foldlM (fun index iBit => singleBitStep
              (bits.getD (iByte * 8 + iBit) false) (iByte * 8 + iBit) index) index :=
      foldlM_ext fun index iBit hiBit => by
        rw [h.bit_bytes hiByte (List.mem_range.mp hiBit), BITS_PER_BYTE]
    by_cases hzero : (bitsToUint8Array tree sszType).getD iByte 0 = 0
    · -- no bit of the byte is set
      rw [if_pos hzero, ← hstep, hzero]
      symm
      refine foldlM_skip (m := Except AggregationBitsErrorCode) (fun index iBit hiBit => ?_) index
      rw [getD_computeUint8ByteToBitBooleanArray (by decide) (List.mem_range.mp hiBit),
        Nat.zero_testBit]
      rfl
    · rw [if_neg hzero]
      exact hstep index
  · rw [List.getD_eq_getElem?_getD, List.getElem?_eq_none hi]
    rfl

theorem foldl_pushIndex (pairs : List (Nat × Bool)) (lists : List Nat × List Nat) :
    pairs.foldl (fun lists pair => pushIndex pair.2 pair.1 lists) lists
      = (lists.1 ++ (pairs.filter (·.2)).map (·.1),
          lists.2 ++ (pairs.filter (!·.2)).map (·.1)) := by
  induction pairs generalizing lists with
  | nil => simp
  | cons pair pairs ih =>
    obtain ⟨index, selected⟩ := pair
    rw [List.foldl_cons, ih]
    cases selected <;> simp [pushIndex]

theorem map_range_withBits (indexes : List Nat) (bits : List Bool) :
    (List.range indexes.length).map (fun i => (indexes.getD i 0, bits.getD i false))
      = withBits indexes bits := by
  refine List.ext_getElem (by simp [withBits]) fun i hi _ => ?_
  have hlt : i < indexes.length := by simpa using hi
  simp [withBits, hlt]

theorem map_fst_withBits (indexes : List Nat) (bits : List Bool) :
    (withBits indexes bits).map (·.1) = indexes := by
  refine List.ext_getElem (by simp [withBits]) fun i _ _ => by simp [withBits]

theorem zipIndexes_struct (indexes : List Nat) (bits : List Bool) :
    zipIndexes indexes (.struct bits) sszType = zipAllIndexesSyncCommitteeBits indexes bits := by
  have hfold := foldl_pushIndex (withBits indexes bits) ([], [])
  rw [← map_range_withBits, List.foldl_map, map_range_withBits, List.nil_append,
    List.nil_append] at hfold
  exact hfold

/-- The two lists of `zipIndexes`. -/
structure ZipsInOrder (indexes : List Nat) (bits : List Bool) (zipped : List Nat × List Nat) :
    Prop where
  participants : zipped.1 = ((withBits indexes bits).filter (·.2)).map (·.1)
  unparticipants : zipped.2 = ((withBits indexes bits).filter (!·.2)).map (·.1)
  participantsOrder : zipped.1.Sublist indexes
  unparticipantsOrder : zipped.2.Sublist indexes
  perm : (zipped.1 ++ zipped.2).Perm indexes

theorem zipsInOrder (indexes : List Nat) (bits : List Bool) :
    ZipsInOrder indexes bits (zipAllIndexesSyncCommitteeBits indexes bits) := by
  have hfst := map_fst_withBits indexes bits
  refine ⟨rfl, rfl, ?_, ?_, ?_⟩
  · have := (List.filter_sublist (p := (·.2)) (l := withBits indexes bits)).map Prod.fst
    rwa [hfst] at this
  · have := (List.filter_sublist (p := (!·.2)) (l := withBits indexes bits)).map Prod.fst
    rwa [hfst] at this
  · have := (List.filter_append_perm (·.2) (withBits indexes bits)).map Prod.fst
    rwa [hfst, List.map_append] at this

/-- The tree and the struct of the same bits give the same. -/
theorem treeBacked_agrees (hbacks : sszType.Backs tree bits)
    (hlength : indexes.length ≤ bits.length) :
    zipIndexes indexes (.treeBacked tree) sszType = zipIndexes indexes (.struct bits) sszType ∧
      ZipsInOrder indexes bits (zipIndexes indexes (.treeBacked tree) sszType) ∧
      getSingleBitIndex (.treeBacked tree) sszType
        = getSingleBitIndex (.struct bits) sszType := by
  have hzip : zipIndexes indexes (.treeBacked tree) sszType
      = zipIndexes indexes (.struct bits) sszType := zipIndexesTreeBacked_eq hbacks hlength
  refine ⟨hzip, ?_, getSingleBitIndex_treeBacked hbacks⟩
  rw [hzip, zipIndexes_struct]
  exact zipsInOrder indexes bits

/-- What follows either loop. -/
def exactlyOne (index : Option Nat) : Except AggregationBitsErrorCode Nat :=
  match index with
  | none => .error .NOT_EXACTLY_ONE_BIT_SET
  | some index => .ok index

theorem toOption_foldlM_singleBitStep (pairs : List (Bool × Nat)) (index : Option Nat) :
    (pairs.foldlM (fun index pair => singleBitStep pair.1 pair.2 index) index
      >>= exactlyOne).toOption = Chain.singleBitLoop pairs index := by
  induction pairs generalizing index with
  | nil => cases index <;> rfl
  | cons pair pairs ih =>
    obtain ⟨bit, i⟩ := pair
    cases bit with
    | false => exact ih index
    | true =>
      cases index with
      | none => exact ih (some i)
      | some _ => rfl

theorem map_range_zipIdx (bits : List Bool) :
    (List.range bits.length).map (fun i => (bits.getD i false, i)) = bits.zipIdx := by
  refine List.ext_getElem (by simp) fun i hi _ => ?_
  have hlt : i < bits.length := by simpa using hi
  simp [hlt]

theorem getSingleBitIndex_struct (bits : List Bool) :
    (getSingleBitIndex (.struct bits) sszType).toOption = Chain.getSingleBitIndex bits := by
  have hloop := toOption_foldlM_singleBitStep bits.zipIdx none
  rw [← map_range_zipIdx, List.foldlM_map, map_range_zipIdx] at hloop
  exact hloop

end

/-! ## Ten bits in a chunk -/

/-- A tree kept as its length and its chunks. -/
def chunksType : BitsType (Nat × List (List Nat)) where
  length := (·.1)
  tree_getChunkCount := (·.2.length)
  getChunkDepth := 3
  iterateNodesAtDepth tree _ start count := (tree.2.drop start).take count

theorem chunksType_backs :
    chunksType.Backs (10, [[160, 3] ++ List.replicate 30 0])
      [false, false, false, false, false, true, false, true, true, true] where
  length := rfl
  chunkCount := rfl
  chunkSize := by decide
  bit i := by
    rcases Nat.lt_or_ge i 16 with hi | hi
    · revert i
      decide
    · have hzero : ([160, 3] ++ List.replicate 30 0).getD (i / 8) 0 = 0 := by
        rw [List.getD_eq_getElem?_getD, List.getElem?_append_right (by simp; omega),
          List.getElem?_replicate]
        split <;> rfl
      have hbit : [false, false, false, false, false, true, false, true, true, true].getD i false
          = false := by
        rw [List.getD_eq_getElem?_getD, List.getElem?_eq_none (by simp; omega), Option.getD_none]
      rw [hbit]
      exact (congrArg (Nat.testBit · (i % 8)) hzero).trans (Nat.zero_testBit (i % 8))

theorem treeBacked_agrees_tenBits :
    zipIndexes [7, 3, 9, 3, 1, 8, 2, 6, 4] (.treeBacked (10, [[160, 3] ++ List.replicate 30 0]))
        chunksType = ([8, 6, 4], [7, 3, 9, 3, 1, 2]) ∧
      (zipIndexes [7, 3, 9, 3, 1, 8, 2, 6, 4] (.treeBacked (10, [[160, 3] ++ List.replicate 30 0]))
          chunksType = zipIndexes [7, 3, 9, 3, 1, 8, 2, 6, 4]
            (.struct [false, false, false, false, false, true, false, true, true, true])
            chunksType ∧
        ZipsInOrder [7, 3, 9, 3, 1, 8, 2, 6, 4]
          [false, false, false, false, false, true, false, true, true, true]
          (zipIndexes [7, 3, 9, 3, 1, 8, 2, 6, 4]
            (.treeBacked (10, [[160, 3] ++ List.replicate 30 0])) chunksType) ∧
        getSingleBitIndex (.treeBacked (10, [[160, 3] ++ List.replicate 30 0])) chunksType
          = getSingleBitIndex
            (.struct [false, false, false, false, false, true, false, true, true, true])
            chunksType) :=
  ⟨by decide +kernel, treeBacked_agrees chunksType_backs (by decide)⟩

end Lodestar.StateTransition
