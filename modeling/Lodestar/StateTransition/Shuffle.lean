import Lodestar.StateTransition.Seed

/-!
# The list shuffle

`util/shuffle.ts`. A round swaps in two loops, each with its own `mirror`, and
keeps the bytes it reads the bits from. The operators `>>` and `&` take 32-bit
integers.
-/

namespace Lodestar.StateTransition

open Lodestar.Base

/-! ## 32-bit operators -/

def toInt32 (x : Int) : Int := x.bmod (2 ^ 32)

/-- `x >> k`. -/
def shiftRight32 (x : Int) (k : Nat) : Int := toInt32 x / 2 ^ k

/-- `x & (2 ** k - 1)`. -/
def lowBits32 (x : Int) (k : Nat) : Nat := (toInt32 x % 2 ^ k).toNat

theorem toInt32_eq {x : Int} (hpos : 0 ≤ x) (hlt : x < 2 ^ 31) : toInt32 x = x := by
  unfold toInt32
  rw [Int.bmod_def]
  omega

theorem toInt32_neg {x : Int} (hge : 2 ^ 31 ≤ x) (hlt : x < 2 ^ 32) : toInt32 x < 0 := by
  unfold toInt32
  rw [Int.bmod_def]
  omega

/-! ## A round -/

/-- `setPositionUint32`: the bytes that it writes. -/
def setPositionUint32 (value : Int) : Bytes :=
  [0, 8, 16, 24].map fun k => UInt8.ofNat (lowBits32 (shiftRight32 value k) 8)

/-- What the loops of a round write. -/
structure ShuffleLoop where
  input : List Nat
  source : Bytes32
  byteV : UInt8

section

variable (hash : Bytes → Bytes32)

/-- `step()`; `buf` is the seed with the round. -/
def shuffleStep (buf : Bytes) (loop : ShuffleLoop) (i j : Nat) : ShuffleLoop :=
  let source :=
    if lowBits32 j 8 = 0xff then hash (buf ++ setPositionUint32 (shiftRight32 j 8)) else loop.source
  let byteV :=
    if lowBits32 j 3 = 0x7 then source.toList.getD (shiftRight32 (lowBits32 j 8) 3).toNat 0
    else loop.byteV
  let bitV := lowBits32 (shiftRight32 byteV.toNat (lowBits32 j 3)) 1
  { input := if bitV = 1 then swap loop.input i j else loop.input
    source
    byteV }

/-- `for (let i = start; i < mirror; i++)` with `j` of each `i`, after the first byte is read. -/
def shuffleHalf (buf : Bytes) (input : List Nat) (first start : Nat) (mirror : Int) (j : Nat → Nat) :
    List Nat :=
  let source := hash (buf ++ setPositionUint32 (shiftRight32 first 8))
  let byteV := source.toList.getD (shiftRight32 (lowBits32 first 8) 3).toNat 0
  let loop := (List.range' start (mirror - start).toNat).foldl
    (fun loop i => shuffleStep hash buf loop i (j i)) ⟨input, source, byteV⟩
  loop.input

/-- A turn of the loop over the rounds. -/
def innerShuffleRound (seed : Bytes32) (input : List Nat) (r : Nat) : List Nat :=
  let listSize := input.length
  let buf := seed.toList ++ [UInt8.ofNat r]
  let h := hash buf
  let pivot := bytesToBigInt (h.toList.take 8) % listSize
  let mirror := shiftRight32 (pivot + 1) 1
  let input := shuffleHalf hash buf input pivot 0 mirror fun i => pivot - i
  let mirror := shiftRight32 (pivot + listSize + 1) 1
  let endIndex := listSize - 1
  shuffleHalf hash buf input endIndex (pivot + 1) mirror fun i => endIndex - i + pivot + 1

variable [Preset]

/-- `dir` is true for shuffling, false for unshuffling. -/
def innerShuffleList (input : List Nat) (seed : Bytes32) (dir : Bool) : Except String (List Nat) := do
  if input.length ≤ 1 then return input
  if SHUFFLE_ROUND_COUNT = 0 then return input
  let listSize := input.length % 2 ^ 32
  if listSize ≠ input.length then
    throw s!"input length does not fit uint32: {listSize} === {input.length}"
  let rounds := List.range SHUFFLE_ROUND_COUNT
  return (if dir then rounds else rounds.reverse).foldl (innerShuffleRound hash seed) input

def shuffleList (input : List Nat) (seed : Bytes32) : Except String (List Nat) :=
  innerShuffleList hash input seed true

def unshuffleList (input : List Nat) (seed : Bytes32) : Except String (List Nat) :=
  innerShuffleList hash input seed false

end

/-! ## Bits read in passing -/

section

variable {hash : Bytes → Bytes32} {seed : Bytes32} {r j : Nat}

theorem shiftRight32_natCast (h : j < 2 ^ 31) (k : Nat) :
    shiftRight32 (j : Int) k = ((j / 2 ^ k : Nat) : Int) := by
  unfold shiftRight32
  rw [toInt32_eq (by omega) (by exact_mod_cast h)]
  push_cast
  rfl

theorem lowBits32_natCast (h : j < 2 ^ 31) (k : Nat) : lowBits32 (j : Int) k = j % 2 ^ k := by
  unfold lowBits32
  rw [toInt32_eq (by omega) (by exact_mod_cast h)]
  exact_mod_cast Int.toNat_natCast (j % 2 ^ k)

theorem setPositionUint32_natCast (h : j < 2 ^ 31) : setPositionUint32 (j : Int) = intToBytes j 4 := by
  have hbyte : ∀ k, UInt8.ofNat (lowBits32 (shiftRight32 (j : Int) k) 8) = UInt8.ofNat (j / 2 ^ k) := by
    intro k
    rw [shiftRight32_natCast h, lowBits32_natCast (lt_of_le_of_lt (Nat.div_le_self _ _) h)]
    apply UInt8.toNat_inj.1
    simp
  unfold setPositionUint32
  simp only [List.map_cons, List.map_nil, hbyte]
  simp [intToBytes, toBytesBE]

variable (hash seed r) in
/-- The loop holds the bytes for the position `j`. -/
structure Fetched (loop : ShuffleLoop) (j : Nat) : Prop where
  source : loop.source = hash (seed.toList ++ intToBytes r 1 ++ intToBytes (j / 256) 4)
  byteV : loop.byteV = loop.source.toList.getD (j % 256 / 8) 0

theorem intToBytes_one (r : Nat) : intToBytes r 1 = [UInt8.ofNat r] := by
  simp [intToBytes, toBytesBE]

theorem byteIndex_eq (h : j < 2 ^ 31) : (shiftRight32 (lowBits32 j 8) 3).toNat = j % 256 / 8 := by
  rw [lowBits32_natCast h, shiftRight32_natCast (lt_of_le_of_lt (Nat.mod_le _ _) h)]
  exact Int.toNat_natCast _

theorem bitV_eq (byteV : UInt8) (h : j < 2 ^ 31) :
    lowBits32 (shiftRight32 byteV.toNat (lowBits32 j 3)) 1 = byteV.toNat >>> (j % 8) % 2 := by
  have hbyte : byteV.toNat < 2 ^ 31 := lt_trans byteV.toNat_lt (by decide)
  rw [lowBits32_natCast h, shiftRight32_natCast hbyte,
    lowBits32_natCast (lt_of_le_of_lt (Nat.div_le_self _ _) hbyte), Nat.shiftRight_eq_div_pow]
  rfl

section

variable (buf : Bytes) (loop : ShuffleLoop) (i : Nat)

theorem shuffleStep_source : (shuffleStep hash buf loop i j).source =
    if lowBits32 j 8 = 0xff then hash (buf ++ setPositionUint32 (shiftRight32 j 8))
    else loop.source := by
  unfold shuffleStep
  with_reducible rfl

theorem shuffleStep_byteV : (shuffleStep hash buf loop i j).byteV =
    if lowBits32 j 3 = 0x7 then
      (shuffleStep hash buf loop i j).source.toList.getD (shiftRight32 (lowBits32 j 8) 3).toNat 0
    else loop.byteV := by
  unfold shuffleStep
  with_reducible rfl

theorem shuffleStep_input : (shuffleStep hash buf loop i j).input =
    if lowBits32 (shiftRight32 (shuffleStep hash buf loop i j).byteV.toNat (lowBits32 j 3)) 1 = 1 then
      swap loop.input i j
    else loop.input := by
  unfold shuffleStep
  with_reducible rfl

end

theorem shuffleStep_spec {loop : ShuffleLoop} {j' : Nat} (hj : j < 2 ^ 31)
    (hfetched : Fetched hash seed r loop j') (hnext : j' = j ∨ j' = j + 1) (i : Nat) :
    Fetched hash seed r (shuffleStep hash (seed.toList ++ [UInt8.ofNat r]) loop i j) j ∧
      (shuffleStep hash (seed.toList ++ [UInt8.ofNat r]) loop i j).input =
        if shuffleBit hash seed r j then swap loop.input i j else loop.input := by
  have hsource : (shuffleStep hash (seed.toList ++ [UInt8.ofNat r]) loop i j).source =
      hash (seed.toList ++ intToBytes r 1 ++ intToBytes (j / 256) 4) := by
    rw [shuffleStep_source, lowBits32_natCast hj, shiftRight32_natCast hj,
      setPositionUint32_natCast (lt_of_le_of_lt (Nat.div_le_self _ _) hj), intToBytes_one]
    split
    · rfl
    next hinside =>
      -- both positions are in one window of 256
      rw [hfetched.source, intToBytes_one]
      congr 3
      omega
  have hbyteV : (shuffleStep hash (seed.toList ++ [UInt8.ofNat r]) loop i j).byteV =
      (shuffleStep hash (seed.toList ++ [UInt8.ofNat r]) loop i j).source.toList.getD
        (j % 256 / 8) 0 := by
    rw [shuffleStep_byteV, byteIndex_eq hj]
    split
    · rfl
    next hinside =>
      -- both positions are in one byte
      rw [lowBits32_natCast hj] at hinside
      have hsame : j' % 256 / 8 = j % 256 / 8 := by omega
      rw [hfetched.byteV, shuffleStep_source, lowBits32_natCast hj, if_neg (by omega), hsame]
  refine ⟨⟨hsource, hbyteV⟩, ?_⟩
  have hbit : shuffleBit hash seed r j = true ↔
      (shuffleStep hash (seed.toList ++ [UInt8.ofNat r]) loop i j).byteV.toNat >>> (j % 8) % 2 = 1 := by
    rw [hbyteV, hsource]
    unfold shuffleBit
    rw [decide_eq_true_iff]
    omega
  rw [shuffleStep_input, bitV_eq _ hj]
  exact if_congr hbit.symm rfl rfl

/-! ## The two loops -/

/-- A loop that runs down from the position it began with swaps the pairs of the round. -/
theorem shuffleLoop_spec {c : Nat} {jOf : Nat → Nat} (hc : c < 2 ^ 31) (start count : Nat)
    (hcount : start + count ≤ c + 1) (hj : ∀ i < start + count, start ≤ i → jOf i = c - i)
    {loop : ShuffleLoop} {j' : Nat} (hfetched : Fetched hash seed r loop j')
    (hnext : j' = c - start ∨ j' = c - start + 1) :
    ((List.range' start count).foldl
      (fun loop i => shuffleStep hash (seed.toList ++ [UInt8.ofNat r]) loop i (jOf i)) loop).input =
      swapPairs c (shuffleBit hash seed r) start count loop.input := by
  induction count generalizing start loop j' with
  | zero => rfl
  | succ count ih =>
    have hstart := hj start (by omega) le_rfl
    obtain ⟨hstep, hinput⟩ := shuffleStep_spec (by omega) hfetched hnext start
    unfold swapPairs at ih ⊢
    rw [List.range'_succ, List.foldl_cons, List.foldl_cons, hstart, ← hinput]
    exact ih (start + 1) (by omega) (fun i hi hle => hj i (by omega) (by omega)) hstep (by omega)

variable (hash seed r) in
theorem shuffleHalf_spec (c start : Nat) (mirror : Int) (jOf : Nat → Nat) (hc : c < 2 ^ 31)
    (hstart : start ≤ c) (hmirror : mirror ≤ c + 1)
    (hj : ∀ i : Nat, i < mirror → start ≤ i → jOf i = c - i) (input : List Nat) :
    shuffleHalf hash (seed.toList ++ [UInt8.ofNat r]) input (c - start) start mirror jOf =
      swapPairs c (shuffleBit hash seed r) start (mirror - start).toNat input := by
  have hfirst : c - start < 2 ^ 31 := by omega
  unfold shuffleHalf
  refine shuffleLoop_spec hc start _ (by omega) (fun i hi hle => hj i (by omega) hle)
    (⟨?_, ?_⟩ : Fetched hash seed r _ (c - start)) (.inl rfl)
  · rw [shiftRight32_natCast hfirst, intToBytes_one,
      setPositionUint32_natCast (lt_of_le_of_lt (Nat.div_le_self _ _) hfirst)]
    rfl
  · rw [byteIndex_eq hfirst]

theorem shuffleHalf_none {first start : Nat} {mirror : Int} {jOf : Nat → Nat} (buf : Bytes)
    (h : mirror ≤ start) (input : List Nat) :
    shuffleHalf hash buf input first start mirror jOf = input := by
  have hcount : (mirror - start).toNat = 0 := by omega
  unfold shuffleHalf
  rw [hcount]
  rfl

/-! ## The rounds -/

theorem swapPairs_congr {α : Type*} {c start count : Nat} {bit : Nat → Bool} (bit' : Nat → Bool)
    {l : List α} (h : ∀ i, start ≤ i → i < start + count → bit (c - i) = bit' (c - i)) :
    swapPairs c bit start count l = swapPairs c bit' start count l := by
  unfold swapPairs
  refine List.foldl_ext _ _ _ fun l i hmem => ?_
  rw [List.mem_range'_1] at hmem
  rw [h i hmem.1 hmem.2]

theorem swapPairs_none {α : Type*} {c start count : Nat} {bit : Nat → Bool} {l : List α}
    (h : ∀ i, start ≤ i → i < start + count → bit (c - i) = false) :
    swapPairs c bit start count l = l := by
  rw [swapPairs_congr (fun _ => false) h]
  unfold swapPairs
  exact List.foldl_fixed' (fun _ => rfl) _

variable (hash seed r) in
/-- The second loop is left out where its `mirror` does not fit a 32-bit integer. -/
def innerRound (listSize r : Nat) : Round :=
  { pivot := shufflePivot hash seed listSize r
    bit := fun position => shuffleBit hash seed r position &&
      (position ≤ shufflePivot hash seed listSize r ||
        shufflePivot hash seed listSize r + listSize + 1 < 2 ^ 31) }

theorem shuffleHalf_first {input : List Nat} {pivot : Nat} (hpivot : pivot + 1 < 2 ^ 31) :
    shuffleHalf hash (seed.toList ++ [UInt8.ofNat r]) input pivot 0 (shiftRight32 (pivot + 1) 1)
      (fun i => pivot - i) = swapPairs pivot (shuffleBit hash seed r) 0 ((pivot + 1) / 2) input := by
  have hmirror : shiftRight32 ((pivot : Int) + 1) 1 = ((pivot + 1) / 2 : Nat) := by
    exact_mod_cast shiftRight32_natCast hpivot 1
  rw [hmirror]
  have hhalf := shuffleHalf_spec hash seed r pivot 0 ((pivot + 1) / 2 : Nat) (fun i => pivot - i)
    (by omega) (by omega) (by omega) (fun _ _ _ => rfl) input
  rwa [Nat.sub_zero, Nat.cast_zero, sub_zero, Int.toNat_natCast] at hhalf

theorem shuffleHalf_second {input : List Nat} {pivot listSize : Nat} (hpivot : pivot < listSize)
    (hfits : pivot + listSize + 1 < 2 ^ 31) :
    shuffleHalf hash (seed.toList ++ [UInt8.ofNat r]) input (listSize - 1) (pivot + 1)
      (shiftRight32 (pivot + listSize + 1) 1) (fun i => listSize - 1 - i + pivot + 1) =
      swapPairs (listSize + pivot) (shuffleBit hash seed r) (pivot + 1)
        ((pivot + listSize + 1) / 2 - (pivot + 1)) input := by
  have hmirror : shiftRight32 ((pivot : Int) + listSize + 1) 1 =
      ((pivot + listSize + 1) / 2 : Nat) := by
    exact_mod_cast shiftRight32_natCast hfits 1
  rw [hmirror]
  have hhalf := shuffleHalf_spec hash seed r (listSize + pivot) (pivot + 1)
    ((pivot + listSize + 1) / 2 : Nat) (fun i => listSize - 1 - i + pivot + 1) (by omega) (by omega)
    (by omega) (fun i hi hle => by omega) input
  rwa [show listSize + pivot - (pivot + 1) = listSize - 1 by omega,
    show (((pivot + listSize + 1) / 2 : Nat) - ((pivot + 1 : Nat) : Int)).toNat =
      (pivot + listSize + 1) / 2 - (pivot + 1) by omega] at hhalf

theorem shiftRight32_overflow {pivot listSize : Nat} (hpivot : pivot < listSize)
    (hlength : listSize < 2 ^ 31) (hover : ¬ pivot + listSize + 1 < 2 ^ 31) :
    shiftRight32 ((pivot : Int) + listSize + 1) 1 ≤ ((pivot + 1 : Nat) : Int) := by
  have hneg : toInt32 ((pivot : Int) + listSize + 1) < 0 := toInt32_neg (by omega) (by omega)
  unfold shiftRight32
  omega

theorem innerShuffleRound_eq {input : List Nat} (hpos : 0 < input.length)
    (hlength : input.length < 2 ^ 31) :
    innerShuffleRound hash seed input r = (innerRound hash seed input.length r).swapPairs input := by
  have hpivot : shufflePivot hash seed input.length r < input.length := Nat.mod_lt _ hpos
  have hround : innerShuffleRound hash seed input r =
      shuffleHalf hash (seed.toList ++ [UInt8.ofNat r])
        (shuffleHalf hash (seed.toList ++ [UInt8.ofNat r]) input
          (shufflePivot hash seed input.length r) 0
          (shiftRight32 (shufflePivot hash seed input.length r + 1) 1)
          fun i => shufflePivot hash seed input.length r - i)
        (input.length - 1) (shufflePivot hash seed input.length r + 1)
        (shiftRight32 (shufflePivot hash seed input.length r + input.length + 1) 1)
        fun i => input.length - 1 - i + shufflePivot hash seed input.length r + 1 := by
    unfold innerShuffleRound shufflePivot
    rw [intToBytes_one]
  rw [hround]
  unfold Round.swapPairs innerRound
  generalize shufflePivot hash seed input.length r = pivot at hpivot
  rw [shuffleHalf_first (by omega)]
  have hfirst : swapPairs pivot (shuffleBit hash seed r) 0 ((pivot + 1) / 2) input =
      swapPairs pivot (fun position => shuffleBit hash seed r position &&
        (position ≤ pivot || pivot + input.length + 1 < 2 ^ 31)) 0 ((pivot + 1) / 2) input := by
    refine swapPairs_congr _ fun i _ _ => ?_
    simp
  rw [hfirst]
  by_cases hfits : pivot + input.length + 1 < 2 ^ 31
  · rw [shuffleHalf_second hpivot hfits]
    refine swapPairs_congr _ fun i _ _ => ?_
    simp only [hfits, decide_true, Bool.or_true, Bool.and_true]
  · rw [shuffleHalf_none _ (shiftRight32_overflow hpivot hlength hfits)]
    refine (swapPairs_none fun i hle hlt => ?_).symm
    have hhigh : ¬ input.length + pivot - i ≤ pivot := by omega
    simp only [hhigh, hfits, decide_false, Bool.or_self, Bool.and_false]

variable [Preset]

variable (hash seed) in
def innerRounds (listSize : Nat) (dir : Bool) : List Round :=
  (if dir then List.range SHUFFLE_ROUND_COUNT else (List.range SHUFFLE_ROUND_COUNT).reverse).map
    (innerRound hash seed listSize)

theorem innerRounds_reverse (listSize : Nat) (dir : Bool) :
    (innerRounds hash seed listSize dir).reverse = innerRounds hash seed listSize !dir := by
  unfold innerRounds
  cases dir <;> simp

theorem pivot_lt_of_mem_innerRounds {listSize : Nat} {dir : Bool} {round : Round}
    (hpos : 0 < listSize) (hmem : round ∈ innerRounds hash seed listSize dir) :
    round.pivot < listSize := by
  obtain ⟨r, -, rfl⟩ := List.mem_map.1 hmem
  exact Nat.mod_lt _ hpos

omit [Preset] in
theorem foldl_innerShuffleRound {input : List Nat} (hpos : 0 < input.length)
    (hlength : input.length < 2 ^ 31) (rounds : List Nat) :
    rounds.foldl (innerShuffleRound hash seed) input =
      shuffle (rounds.map (innerRound hash seed input.length)) input := by
  induction rounds generalizing input with
  | nil => rfl
  | cons r rounds ih =>
    have hkeeps := ((innerRound hash seed input.length r).swapPairs_perm input).length_eq
    rw [List.foldl_cons, innerShuffleRound_eq hpos hlength, ih (by omega) (by omega), hkeeps]
    rfl

omit [Preset] in
theorem shuffleHalf_perm (buf : Bytes) (input : List Nat) (first start : Nat) (mirror : Int)
    (jOf : Nat → Nat) : (shuffleHalf hash buf input first start mirror jOf).Perm input := by
  have hloop : ∀ (turns : List Nat) (loop : ShuffleLoop),
      (turns.foldl (fun loop i => shuffleStep hash buf loop i (jOf i)) loop).input.Perm loop.input := by
    intro turns
    induction turns with
    | nil => exact fun loop => List.Perm.refl _
    | cons i turns ih =>
      intro loop
      have hstep : (shuffleStep hash buf loop i (jOf i)).input.Perm loop.input := by
        rw [shuffleStep_input]
        split
        · exact swap_perm _ _ _
        · exact List.Perm.refl _
      rw [List.foldl_cons]
      exact (ih (shuffleStep hash buf loop i (jOf i))).trans hstep
  unfold shuffleHalf
  exact hloop _ ⟨input, _, _⟩

omit [Preset] in
theorem innerShuffleRound_perm (input : List Nat) (r : Nat) :
    (innerShuffleRound hash seed input r).Perm input := by
  unfold innerShuffleRound
  exact (shuffleHalf_perm _ _ _ _ _ _).trans (shuffleHalf_perm _ _ _ _ _ _)

theorem innerShuffleList_perm {input : List Nat} (hlength : input.length < 2 ^ 32) (dir : Bool) :
    ∃ output, innerShuffleList hash input seed dir = .ok output ∧ output.Perm input := by
  have hrounds : ∀ (rounds : List Nat) (input : List Nat),
      (rounds.foldl (innerShuffleRound hash seed) input).Perm input := by
    intro rounds
    induction rounds with
    | nil => exact fun input => List.Perm.refl _
    | cons r rounds ih =>
      intro input
      rw [List.foldl_cons]
      exact (ih (innerShuffleRound hash seed input r)).trans (innerShuffleRound_perm input r)
  unfold innerShuffleList
  rw [Nat.mod_eq_of_lt hlength, if_neg (not_not.2 rfl)]
  split
  · exact ⟨_, rfl, List.Perm.refl _⟩
  · split
    · exact ⟨_, rfl, List.Perm.refl _⟩
    · exact ⟨_, rfl, hrounds _ _⟩

theorem innerShuffleList_eq {input : List Nat} (hlength : input.length < 2 ^ 31) (dir : Bool) :
    innerShuffleList hash input seed dir =
      .ok (shuffle (innerRounds hash seed input.length dir) input) := by
  have hperm := shuffle_perm (innerRounds hash seed input.length dir) input
  unfold innerShuffleList
  by_cases hshort : input.length ≤ 1
  · have hkeeps : shuffle (innerRounds hash seed input.length dir) input = input := by
      match input with
      | [] => exact List.perm_nil.1 hperm
      | [index] => exact List.perm_singleton.1 hperm
      | index :: other :: input => simp at hshort
    rw [if_pos hshort, hkeeps]
    rfl
  · by_cases hrounds : SHUFFLE_ROUND_COUNT = 0
    · have hnil : innerRounds hash seed input.length dir = [] := by
        unfold innerRounds
        rw [hrounds]
        cases dir <;> rfl
      rw [if_neg hshort, if_pos hrounds, hnil]
      rfl
    · have hfits : input.length % 2 ^ 32 = input.length := Nat.mod_eq_of_lt (by omega)
      rw [if_neg hshort, if_neg hrounds, hfits, if_neg (not_not.2 rfl)]
      exact congrArg Except.ok (foldl_innerShuffleRound (by omega) hlength _)

theorem innerShuffleList_inverse {input output : List Nat} {dir : Bool}
    (hlength : input.length < 2 ^ 31) (h : innerShuffleList hash input seed dir = .ok output) :
    innerShuffleList hash output seed (!dir) = .ok input := by
  rw [innerShuffleList_eq hlength] at h
  obtain rfl := Except.ok.inj h
  have hperm := shuffle_perm (innerRounds hash seed input.length dir) input
  rw [innerShuffleList_eq (by rw [hperm.length_eq]; exact hlength), hperm.length_eq,
    ← innerRounds_reverse]
  refine congrArg Except.ok ?_
  cases input with
  | nil => exact List.perm_nil.1 ((shuffle_perm _ _).trans hperm)
  | cons index input =>
    exact shuffle_reverse_shuffle fun round hmem => pivot_lt_of_mem_innerRounds (by simp) hmem

/-! ## Against the single index -/

variable (hash seed) in
/-- In each round the `mirror` of the second loop fits, or that loop has no pair to swap. -/
def RoundsFit (listSize : Nat) : Prop :=
  ∀ r < SHUFFLE_ROUND_COUNT, shufflePivot hash seed listSize r + listSize + 1 < 2 ^ 31 ∨
    ∀ position < listSize, shufflePivot hash seed listSize r + listSize < 2 * position →
      shuffleBit hash seed r position = false

theorem roundsFit_of_lt {listSize : Nat} (hlength : listSize < 2 ^ 30) :
    RoundsFit hash seed listSize := by
  intro r _
  rcases Nat.eq_zero_or_pos listSize with rfl | hpos
  · exact .inr fun position hlt => absurd hlt (Nat.not_lt_zero _)
  · have hpivot : shufflePivot hash seed listSize r < listSize := Nat.mod_lt _ hpos
    exact .inl (by omega)

omit [Preset] in
theorem innerRound_apply {listSize p : Nat} (hp : p < listSize)
    (hfits : shufflePivot hash seed listSize r + listSize + 1 < 2 ^ 31 ∨
      ∀ position < listSize, shufflePivot hash seed listSize r + listSize < 2 * position →
        shuffleBit hash seed r position = false) :
    (innerRound hash seed listSize r).apply listSize p =
      (shuffleRound hash seed listSize r).apply listSize p := by
  have hpivot : shufflePivot hash seed listSize r < listSize := Nat.mod_lt _ (by omega)
  unfold innerRound shuffleRound Round.apply
  generalize shufflePivot hash seed listSize r = pivot at hpivot hfits
  dsimp only
  rcases hfits with hfits | hnone
  · simp only [hfits, decide_true, Bool.or_true, Bool.and_true]
  · rcases Nat.lt_or_ge pivot p with hgt | hle
    · rw [flip_of_gt hgt hp]
      by_cases hbit : shuffleBit hash seed r (max p (listSize + pivot - p)) = true
      · -- only the centre may have its bit set
        have hcentre : ¬ pivot + listSize < 2 * max p (listSize + pivot - p) := by
          intro hlt
          rw [hnone _ (by omega) hlt] at hbit
          cases hbit
        rw [if_pos hbit]
        split <;> omega
      · simp only [hbit, Bool.false_and, Bool.false_eq_true, if_false]
    · rw [flip_of_le hpivot hle]
      have hlow : max p (pivot - p) ≤ pivot := by omega
      simp only [hlow, decide_true, Bool.true_or, Bool.and_true]

theorem shuffle_agrees {input : List Nat} (hfits : RoundsFit hash seed input.length) {i : Nat}
    (hi : i < input.length) :
    walk input.length (innerRounds hash seed input.length true) i =
      shuffledIndex hash seed input.length i := by
  have hrange : ∀ rounds : List Nat, (∀ r ∈ rounds, r < SHUFFLE_ROUND_COUNT) → ∀ i < input.length,
      walk input.length (rounds.map (innerRound hash seed input.length)) i =
        walk input.length (rounds.map (shuffleRound hash seed input.length)) i := by
    intro rounds hrounds i hi
    induction rounds generalizing i with
    | nil => rfl
    | cons r rounds ih =>
      have hround := innerRound_apply hi (hfits r (hrounds r List.mem_cons_self))
      have hlt : (shuffleRound hash seed input.length r).apply input.length i < input.length :=
        Round.apply_lt _ (Nat.mod_lt _ (by omega)) hi
      have hrest := ih (fun r' hmem => hrounds r' (List.mem_cons_of_mem _ hmem)) _ hlt
      rw [← hround] at hrest
      exact hrest.trans (by rw [hround]; rfl)
  exact hrange _ (fun r hmem => List.mem_range.1 hmem) i hi

variable (hash seed) in
theorem unshuffleList_reindexes (input : List Nat) (hlength : input.length < 2 ^ 31) :
    ∃ output, unshuffleList hash input seed = .ok output ∧
      Reindexes (walk input.length (innerRounds hash seed input.length true)) input output := by
  refine ⟨_, innerShuffleList_eq hlength false, ?_⟩
  cases input with
  | nil => exact ⟨(shuffle_perm _ _).length_eq, fun p hp => absurd hp (Nat.not_lt_zero p),
      fun p hp => absurd hp (Nat.not_lt_zero p)⟩
  | cons index input =>
    have hpivot : ∀ round ∈ innerRounds hash seed (index :: input).length false,
        round.pivot < (index :: input).length :=
      fun round hmem => pivot_lt_of_mem_innerRounds (by simp) hmem
    have hreindexes := shuffle_reindexes hpivot
    rwa [innerRounds_reverse] at hreindexes

theorem shuffle_unshuffle_spec (hash : Bytes → Bytes32) (input : List Nat) (seed : Bytes32)
    (hlength : input.length < 2 ^ 31) :
    ∃ shuffled unshuffled, shuffleList hash input seed = .ok shuffled ∧
      unshuffleList hash input seed = .ok unshuffled ∧
      shuffled.Perm input ∧ unshuffled.Perm input ∧
      unshuffleList hash shuffled seed = .ok input ∧
      shuffleList hash unshuffled seed = .ok input ∧
      (RoundsFit hash seed input.length → ∀ i < input.length, ∃ k,
        computeShuffledIndex hash i input.length seed = .ok k ∧ unshuffled[i]? = input[k]?) := by
  have hshuffle : shuffleList hash input seed = _ := innerShuffleList_eq hlength true
  obtain ⟨unshuffled, hunshuffle, hreindexes⟩ := unshuffleList_reindexes hash seed input hlength
  have hunshuffled : unshuffled = _ := Except.ok.inj (hunshuffle.symm.trans
    (innerShuffleList_eq hlength false))
  refine ⟨_, unshuffled, hshuffle, hunshuffle, shuffle_perm _ _, ?_,
    innerShuffleList_inverse hlength hshuffle, innerShuffleList_inverse hlength hunshuffle,
    fun hfits i hi => ⟨_, computeShuffledIndex_eq hi (by omega), ?_⟩⟩
  · rw [hunshuffled]
    exact shuffle_perm _ _
  · rw [hreindexes.getElem? i hi, shuffle_agrees hfits hi]

end

/-! ## A long list -/

local instance shufflePreset : Preset := minimal

def zeroSeed : Bytes32 := Vector.replicate 32 0

theorem shuffle_unshuffle_spec_four :
    [7, 8, 9, 10].length < 2 ^ 31 ∧ RoundsFit sha256 zeroSeed 4 ∧
      ∃ unshuffled, unshuffleList sha256 [7, 8, 9, 10] zeroSeed = .ok unshuffled ∧
        shuffleList sha256 unshuffled zeroSeed = .ok [7, 8, 9, 10] ∧
        ∀ i < 4, ∃ k, computeShuffledIndex sha256 i 4 zeroSeed = .ok k ∧
          unshuffled[i]? = [7, 8, 9, 10][k]? := by
  have hfits : RoundsFit sha256 zeroSeed 4 := roundsFit_of_lt (by decide)
  obtain ⟨-, unshuffled, -, hunshuffle, -, -, -, hinverse, hagrees⟩ :=
    shuffle_unshuffle_spec sha256 [7, 8, 9, 10] zeroSeed (by decide)
  exact ⟨by decide, hfits, unshuffled, hunshuffle, hinverse, hagrees hfits⟩

/-- The list moves another validator to the front than the single index names. -/
theorem long_list_shuffled_differently :
    ¬ ∀ input : List Nat, input.length < 2 ^ 31 → ∀ seed : Bytes32, ∃ unshuffled,
      unshuffleList sha256 input seed = .ok unshuffled ∧
      ∀ i < input.length, ∃ k, computeShuffledIndex sha256 i input.length seed = .ok k ∧
        unshuffled[i]? = input[k]? := by
  intro hagree
  have hlength : (List.range (2 ^ 31 - 1)).length = 2 ^ 31 - 1 := List.length_range
  obtain ⟨unshuffled, hunshuffle, hagree⟩ :=
    hagree (List.range (2 ^ 31 - 1)) (by rw [hlength]; decide) zeroSeed
  obtain ⟨other, hother, hreindexes⟩ := unshuffleList_reindexes sha256 zeroSeed
    (List.range (2 ^ 31 - 1)) (by rw [hlength]; decide)
  obtain rfl := Except.ok.inj (hother.symm.trans hunshuffle)
  rw [hlength] at hreindexes hagree
  obtain ⟨k, hk, hsame⟩ := hagree 0 (by decide)
  have hpos : 0 < (List.range (2 ^ 31 - 1)).length := by rw [hlength]; decide
  rw [hreindexes.getElem? 0 hpos] at hsame
  have hwalk : walk (2 ^ 31 - 1) (innerRounds sha256 zeroSeed (2 ^ 31 - 1) true) 0 = 777836177 := by
    decide +kernel
  have hindex : shuffledIndex sha256 zeroSeed (2 ^ 31 - 1) 0 = 1406421850 := by
    decide +kernel
  rw [computeShuffledIndex_eq (by decide) (by decide), hindex] at hk
  obtain rfl := Except.ok.inj hk
  rw [hwalk, List.getElem?_range (by decide), List.getElem?_range (by decide)] at hsame
  cases hsame

end Lodestar.StateTransition
