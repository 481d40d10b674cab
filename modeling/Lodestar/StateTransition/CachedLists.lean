import Lodestar.Base.Bytes
import Lodestar.Base.SharedVectors
import Lodestar.Base.Slices
import Lodestar.StateTransition.ProcessAttestation

/-!
# Lists that a cached state keeps twice

`cache/cachedEpochParticipation.ts`, `cache/cachedInactivityScoreList.ts`,
`util/unsafeUint8ArrayToTree.ts`, the lists of `cache/cachedBeaconState.ts` and
what the transition does with them. Each list is a vector and a tree, and the
tree is hooked to the tree of the state. Vectors and trees come from libraries.
-/

namespace Lodestar.StateTransition.CachedLists

open Lodestar.Base

/-! ## The libraries -/

/-- `BasicListType`: what it reads in a node and writes to it. -/
structure BasicListType (Node : Type) where
  limit : Nat
  /-- The elements are the numbers below it. -/
  bound : Nat
  values : Node → List Nat
  treeSetProperty : Node → Nat → Nat → Node
  treePush : Node → Nat → Node
  treePop : Node → Node

structure BasicListType.Lawful {Node : Type} (type : BasicListType Node) : Prop where
  values_setProperty : ∀ {node i value}, i < (type.values node).length → value < type.bound →
    type.values (type.treeSetProperty node i value) = (type.values node).set i value
  values_push : ∀ {node value}, (type.values node).length < type.limit → value < type.bound →
    type.values (type.treePush node value) = type.values node ++ [value]
  values_pop : ∀ {node}, type.values node ≠ [] →
    type.values (type.treePop node) = (type.values node).dropLast

/-- The type of a list of bytes, which packs 32 of them in a chunk. -/
structure ByteListType (Node : Type) extends BasicListType Node where
  getChunkDepth : Nat
  chunkAt : Node → Nat → Bytes
  treeGetLength : Node → Nat
  treeSetLength : Node → Nat → Node

/-- `persistent-ts`, `ssz` and `persistent-merkle-tree`. A property of a state is `none` if
the type of the state does not have it. -/
class Libraries where
  vectors : VectorLib Nat
  Node : Type
  StateTree : Type
  epochParticipation : ByteListType Node
  inactivityScores : BasicListType Node
  subtreeFillToContents : List Bytes → Nat → Node
  treeGetProperty : StateTree → String → Option Node
  treeSetProperty : StateTree → String → Node → StateTree

/-- The lists that a state keeps twice. -/
inductive ListName where
  | previousEpochParticipation
  | currentEpochParticipation
  | inactivityScores
  deriving DecidableEq

def ListName.key : ListName → String
  | .previousEpochParticipation => "previousEpochParticipation"
  | .currentEpochParticipation => "currentEpochParticipation"
  | .inactivityScores => "inactivityScores"

/-- The lists of `CachedEpochParticipation`. -/
inductive ParticipationName where
  | previous
  | current
  deriving DecidableEq

def ParticipationName.list : ParticipationName → ListName
  | .previous => .previousEpochParticipation
  | .current => .currentEpochParticipation

theorem ListName.key_injective : Function.Injective ListName.key := by
  intro a b h
  cases a <;> cases b <;> first | rfl | (revert h; decide)

section

variable [Libraries]

open Libraries

abbrev Vec : Type := (vectors : VectorLib Nat).Vec
abbrev Heap : Type := (vectors : VectorLib Nat).Heap

def ListName.type : ListName → BasicListType Node
  | .previousEpochParticipation => epochParticipation.toBasicListType
  | .currentEpochParticipation => epochParticipation.toBasicListType
  | .inactivityScores => Libraries.inactivityScores

theorem ParticipationName.type_list (name : ParticipationName) :
    name.list.type = epochParticipation.toBasicListType := by
  cases name <;> rfl

end

open Libraries in
/-- What the code relies on. -/
class LawfulLibraries [Libraries] : Prop where
  vectors : (vectors : VectorLib Nat).Lawful
  type : ∀ name : ListName, name.type.Lawful
  values_bytes : ∀ node, epochParticipation.values node
    = (List.range (epochParticipation.treeGetLength node)).map fun i =>
      ((epochParticipation.chunkAt node (i / 32)).getD (i % 32) 0).toNat
  limit_le : epochParticipation.limit ≤ 32 * 2 ^ (epochParticipation.getChunkDepth - 1)
  bound_bytes : epochParticipation.bound = 256
  bound_pos : 0 < Libraries.inactivityScores.bound
  treeGetLength_setLength : ∀ node length,
    epochParticipation.treeGetLength (epochParticipation.treeSetLength node length) = length
  chunkAt_setLength : ∀ node length i,
    epochParticipation.chunkAt (epochParticipation.treeSetLength node length) i
      = epochParticipation.chunkAt node i
  chunkAt_fill : ∀ {leaves i leaf}, (∀ leaf ∈ leaves, leaf.length = 32) →
    leaves.length ≤ 2 ^ (epochParticipation.getChunkDepth - 1) → leaves[i]? = some leaf →
    epochParticipation.chunkAt
      (subtreeFillToContents leaves epochParticipation.getChunkDepth) i = leaf
  getProperty_set : ∀ {state key node}, (treeGetProperty state key).isSome = true →
    treeGetProperty (treeSetProperty state key node) key = some node
  getProperty_set_of_ne : ∀ {state key key' node}, key' ≠ key →
    treeGetProperty (treeSetProperty state key node) key' = treeGetProperty state key'
  /-- A fork has all three lists or none. -/
  isSome_getProperty : ∀ state, ∀ name name' : ListName,
    (treeGetProperty state name.key).isSome = (treeGetProperty state name'.key).isSome

/-! ## Packed bytes -/

/-- The loop of `unsafeUint8ArrayToTree`, 32 bytes at a time from index `i` on. -/
def wholeLeaves (data : Bytes) : Nat → Nat → List Bytes
  | 0, _ => []
  | fuel + 1, i =>
    -- `i < maxStartIndex`
    if i + 31 < data.length then slice data i (i + 32) :: wholeLeaves data fuel (i + 32) else []

/-- The leaves of `unsafeUint8ArrayToTree`; the last one is filled up with zeros. -/
def leaves (data : Bytes) : List Bytes :=
  let lengthMod32 := data.length % 32
  wholeLeaves data data.length 0 ++
    if lengthMod32 ≠ 0 then
      [data.drop (data.length - lengthMod32) ++ List.replicate (32 - lengthMod32) 0]
    else []

def unsafeUint8ArrayToTree [Libraries] (data : Bytes) (depth : Nat) : Libraries.Node :=
  Libraries.subtreeFillToContents (leaves data) depth

theorem wholeLeaves_eq {data : Bytes} {fuel i : Nat} (hfuel : data.length ≤ i + 32 * fuel) :
    wholeLeaves data fuel i = (List.range ((data.length - i) / 32)).map fun k =>
      slice data (i + 32 * k) (i + 32 * k + 32) := by
  induction fuel generalizing i with
  | zero =>
    have hnone : (data.length - i) / 32 = 0 := by omega
    rw [hnone]
    rfl
  | succ fuel ih =>
    unfold wholeLeaves
    split
    · rename_i hi
      have hone : (data.length - i) / 32 = (data.length - (i + 32)) / 32 + 1 := by omega
      rw [ih (by omega), hone, List.range_succ_eq_map, List.map_cons, List.map_map, mul_zero,
        add_zero]
      congr 1
      refine List.map_congr_left fun k _ => ?_
      simp only [Function.comp_apply]
      congr 1 <;> omega
    · have hnone : (data.length - i) / 32 = 0 := by omega
      rw [hnone]
      rfl

theorem length_leaves (data : Bytes) : (leaves data).length = (data.length + 31) / 32 := by
  unfold leaves
  rw [wholeLeaves_eq (by omega), List.length_append, List.length_map, List.length_range]
  split
  · rw [List.length_singleton]
    omega
  · rw [List.length_nil]
    omega

theorem length_of_mem_leaves {data leaf : Bytes} (h : leaf ∈ leaves data) : leaf.length = 32 := by
  unfold leaves at h
  rw [wholeLeaves_eq (by omega), List.mem_append, List.mem_map] at h
  rcases h with ⟨k, hk, rfl⟩ | h
  · rw [List.mem_range] at hk
    rw [length_slice (by omega)]
    omega
  · split at h
    · rw [List.mem_singleton] at h
      rw [h, List.length_append, List.length_drop, List.length_replicate]
      omega
    · cases h

theorem getElem?_leaves {data : Bytes} {i : Nat} (hi : i < data.length) :
    ∃ leaf, (leaves data)[i / 32]? = some leaf ∧ leaf[i % 32]? = data[i]? := by
  unfold leaves
  rw [wholeLeaves_eq (by omega)]
  simp only [Nat.sub_zero, zero_add]
  by_cases hwhole : i / 32 < data.length / 32
  · refine ⟨slice data (32 * (i / 32)) (32 * (i / 32) + 32), ?_, ?_⟩
    · rw [List.getElem?_append_left (by simpa using hwhole), List.getElem?_map,
        List.getElem?_range hwhole, Option.map_some]
    · rw [getElem?_slice (by omega)]
      congr 1
      omega
  · have hlast : i / 32 = data.length / 32 := by omega
    rw [if_pos (by omega)]
    refine ⟨data.drop (data.length - data.length % 32)
      ++ List.replicate (32 - data.length % 32) 0, ?_, ?_⟩
    · rw [List.getElem?_append_right (by simp [hlast]), List.length_map, List.length_range, hlast,
        Nat.sub_self, List.getElem?_cons_zero]
    · rw [List.getElem?_append_left (by rw [List.length_drop]; omega), List.getElem?_drop]
      congr 1
      omega

section

variable [Libraries]

open Libraries

theorem values_unsafeUint8ArrayToTree [LawfulLibraries] (data : Bytes)
    (hlimit : data.length ≤ epochParticipation.limit) :
    epochParticipation.values (epochParticipation.treeSetLength
      (unsafeUint8ArrayToTree data epochParticipation.getChunkDepth) data.length)
      = data.map UInt8.toNat := by
  have hfit : (leaves data).length ≤ 2 ^ (epochParticipation.getChunkDepth - 1) := by
    have hcapacity := LawfulLibraries.limit_le
    rw [length_leaves]
    omega
  rw [LawfulLibraries.values_bytes, LawfulLibraries.treeGetLength_setLength]
  refine List.ext_getElem? fun i => ?_
  rw [List.getElem?_map, List.getElem?_map]
  by_cases hi : i < data.length
  · obtain ⟨leaf, hleaf, hbyte⟩ := getElem?_leaves hi
    rw [List.getElem?_range hi, Option.map_some, LawfulLibraries.chunkAt_setLength,
      unsafeUint8ArrayToTree,
      LawfulLibraries.chunkAt_fill (fun _ => length_of_mem_leaves) hfit hleaf,
      List.getD_eq_getElem?_getD, hbyte, List.getElem?_eq_getElem hi]
    rfl
  · rw [List.getElem?_eq_none (by simpa using hi), List.getElem?_eq_none (by simpa using hi)]
    rfl

/-! ## One list -/

/-- A cached list, with the tree of the state that its own tree is hooked to, and the heap
its vector is in. -/
structure ListView where
  persistent : Vec
  /-- `none` when the type of the state does not have the list. -/
  tree : Option Node
  state : StateTree
  heap : Heap

namespace ListView

/-- The vector becomes the result of an operation. -/
def move (view : ListView) (result : Vec × Heap) : ListView :=
  { view with persistent := result.1, heap := result.2 }

def asTransient (view : ListView) : ListView :=
  view.move (vectors.asTransient view.persistent view.heap)

def asPersistent (view : ListView) : ListView :=
  view.move (vectors.asPersistent view.persistent view.heap)

/-- A write to the tree, if there is one; its hook writes the tree of the state. -/
def writeTree (name : ListName) (f : Node → Node) (view : ListView) : ListView :=
  match view.tree with
  | none => view
  | some node =>
    { view with tree := some (f node), state := treeSetProperty view.state name.key (f node) }

def set (name : ListName) (index value : Nat) (view : ListView) : ListView :=
  (view.move (vectors.set view.persistent index value view.heap)).writeTree name fun node =>
    name.type.treeSetProperty node index value

def push (name : ListName) (value : Nat) (view : ListView) : ListView :=
  (view.move (vectors.push view.persistent value view.heap)).writeTree name fun node =>
    name.type.treePush node value

def pop (name : ListName) (view : ListView) : ListView :=
  (view.move (vectors.pop view.persistent view.heap)).writeTree name name.type.treePop

def setMultiple (name : ListName) (newValues : List (Nat × Nat)) (view : ListView) : ListView :=
  newValues.foldl (fun view e => view.set name e.1 e.2) view

def updateAllStatus (name : ParticipationName) (data : Vec) (view : ListView) : ListView :=
  let values := vectors.toList data view.heap
  let packedData : Bytes := values.map UInt8.ofNat
  let view := { view with persistent := data }
  let view := view.writeTree name.list fun _ =>
    unsafeUint8ArrayToTree packedData epochParticipation.getChunkDepth
  view.writeTree name.list fun node =>
    epochParticipation.treeSetLength node values.length

/-- `updateEpochParticipants`: in batch, or one by one. -/
def updateEpochParticipants [Preset] (name : ParticipationName) (epochStatuses : List (Nat × Nat))
    (numActiveValidators : Nat) (view : ListView) : ListView :=
  if numActiveValidators ≤ epochStatuses.length * (2 * SLOTS_PER_EPOCH) then
    let view := view.asTransient
    let view := view.move (vectors.setAll view.persistent epochStatuses view.heap)
    view.updateAllStatus name view.persistent
  else
    epochStatuses.foldl (fun view e => view.set name.list e.1 e.2) view

/-- The values of the vector. -/
def values (view : ListView) : List Nat := vectors.toList view.persistent view.heap

/-! ## One write -/

/-- The vector is there, the tree is the one of the state, and both hold the same values. -/
structure Agrees (name : ListName) (view : ListView) : Prop where
  live : vectors.Live view.heap view.persistent
  hook : treeGetProperty view.state name.key = view.tree
  values : ∀ node, view.tree = some node → view.values = name.type.values node
  limit : ∀ node, view.tree = some node → (name.type.values node).length ≤ name.type.limit

/-- What one write of a list does to the heap and the state. -/
structure Writes (name : ListName) (before after : ListView) : Prop where
  moves : vectors.Moves (before.persistent, before.heap) (after.persistent, after.heap)
  agrees : after.Agrees name
  fields : ∀ key, key ≠ name.key →
    treeGetProperty after.state key = treeGetProperty before.state key

variable {name : ListName} {view before after : ListView}

theorem Writes.refl (h : view.Agrees name) : Writes name view view :=
  ⟨VectorLib.Moves.refl h.live, h, fun _ _ => rfl⟩

theorem Writes.trans {last : ListView} (h : Writes name before after)
    (h' : Writes name after last) : Writes name before last where
  moves := h.moves.trans h'.moves
  agrees := h'.agrees
  fields := fun key hkey => (h'.fields key hkey).trans (h.fields key hkey)

section

variable {f : Node → Node}

@[simp] theorem persistent_writeTree : (view.writeTree name f).persistent = view.persistent := by
  unfold writeTree
  split <;> rfl

@[simp] theorem heap_writeTree : (view.writeTree name f).heap = view.heap := by
  unfold writeTree
  split <;> rfl

@[simp] theorem values_writeTree : (view.writeTree name f).values = view.values := by
  unfold values
  rw [persistent_writeTree, heap_writeTree]

@[simp] theorem tree_writeTree : (view.writeTree name f).tree = view.tree.map f := by
  unfold writeTree
  split
  · rename_i h
    rw [h]
    rfl
  · rename_i node h
    rw [h]
    rfl

theorem getProperty_writeTree [LawfulLibraries]
    (hook : treeGetProperty view.state name.key = view.tree) :
    treeGetProperty (view.writeTree name f).state name.key = (view.writeTree name f).tree := by
  rw [tree_writeTree]
  unfold writeTree
  split
  · rename_i h
    rw [hook, h]
    rfl
  · rename_i node h
    rw [h]
    exact LawfulLibraries.getProperty_set (by rw [hook, h]; rfl)

theorem getProperty_writeTree_of_ne [LawfulLibraries] {key : String} (hkey : key ≠ name.key) :
    treeGetProperty (view.writeTree name f).state key = treeGetProperty view.state key := by
  unfold writeTree
  split
  · rfl
  · exact LawfulLibraries.getProperty_set_of_ne hkey

end

theorem Writes.of_moves [LawfulLibraries] {result : Vec × Heap} {f : Node → Node}
    (h : view.Agrees name) (hmoves : vectors.Moves (view.persistent, view.heap) result)
    (hvalues : ∀ node, view.tree = some node →
      vectors.toList result.1 result.2 = name.type.values (f node))
    (hlimit : ∀ node, view.tree = some node →
      (name.type.values (f node)).length ≤ name.type.limit) :
    Writes name view ((view.move result).writeTree name f) where
  moves := by
    rw [persistent_writeTree, heap_writeTree]
    exact hmoves
  agrees :=
    { live := by
        rw [persistent_writeTree, heap_writeTree]
        exact hmoves.live
      hook := getProperty_writeTree h.hook
      values := by
        intro node hnode
        rw [tree_writeTree, Option.map_eq_some_iff] at hnode
        obtain ⟨old, hold, rfl⟩ := hnode
        rw [values_writeTree]
        exact hvalues old hold
      limit := by
        intro node hnode
        rw [tree_writeTree, Option.map_eq_some_iff] at hnode
        obtain ⟨old, hold, rfl⟩ := hnode
        exact hlimit old hold }
  fields := fun _ hkey => getProperty_writeTree_of_ne hkey

section

variable [LawfulLibraries] {index value : Nat}

theorem writes_set (h : view.Agrees name) (hindex : index < view.values.length)
    (hvalue : value < name.type.bound) : Writes name view (view.set name index value) := by
  refine Writes.of_moves h (LawfulLibraries.vectors.set h.live hindex) ?_ ?_
  · intro node hnode
    have hsame := h.values node hnode
    rw [(LawfulLibraries.type name).values_setProperty (hsame ▸ hindex) hvalue, ← hsame]
    exact LawfulLibraries.vectors.toList_set h.live hindex
  · intro node hnode
    rw [(LawfulLibraries.type name).values_setProperty (h.values node hnode ▸ hindex) hvalue,
      List.length_set]
    exact h.limit node hnode

theorem values_set (h : view.Agrees name) (hindex : index < view.values.length) :
    (view.set name index value).values = view.values.set index value := by
  unfold ListView.set
  rw [values_writeTree]
  exact LawfulLibraries.vectors.toList_set h.live hindex

theorem writes_push (h : view.Agrees name) (hlength : view.values.length < name.type.limit)
    (hvalue : value < name.type.bound) : Writes name view (view.push name value) := by
  refine Writes.of_moves h (LawfulLibraries.vectors.push h.live) ?_ ?_
  · intro node hnode
    have hsame := h.values node hnode
    rw [(LawfulLibraries.type name).values_push (hsame ▸ hlength) hvalue, ← hsame]
    exact LawfulLibraries.vectors.toList_push h.live
  · intro node hnode
    have hsame := h.values node hnode
    rw [(LawfulLibraries.type name).values_push (hsame ▸ hlength) hvalue, List.length_append,
      List.length_singleton, ← hsame]
    exact hlength

theorem writes_pop (h : view.Agrees name) (hne : view.values ≠ []) :
    Writes name view (view.pop name) := by
  refine Writes.of_moves h (LawfulLibraries.vectors.pop h.live hne) ?_ ?_
  · intro node hnode
    have hsame := h.values node hnode
    rw [(LawfulLibraries.type name).values_pop (hsame ▸ hne), ← hsame]
    exact LawfulLibraries.vectors.toList_pop h.live hne
  · intro node hnode
    have hlimit := h.limit node hnode
    rw [(LawfulLibraries.type name).values_pop (h.values node hnode ▸ hne), List.length_dropLast]
    omega

omit [LawfulLibraries] in
theorem writes_move {result : Vec × Heap} (h : view.Agrees name)
    (hmoves : vectors.Moves (view.persistent, view.heap) result)
    (hvalues : vectors.toList result.1 result.2 = view.values) :
    Writes name view (view.move result) where
  moves := hmoves
  agrees := ⟨hmoves.live, h.hook, fun node hnode => hvalues.trans (h.values node hnode), h.limit⟩
  fields := fun _ _ => rfl

theorem writes_asTransient (h : view.Agrees name) : Writes name view view.asTransient :=
  writes_move h (LawfulLibraries.vectors.asTransient h.live)
    (LawfulLibraries.vectors.toList_asTransient h.live)

theorem writes_asPersistent (h : view.Agrees name) : Writes name view view.asPersistent :=
  writes_move h (LawfulLibraries.vectors.asPersistent h.live)
    (LawfulLibraries.vectors.toList_asPersistent h.live)

theorem writes_setMultiple {entries : List (Nat × Nat)} (h : view.Agrees name)
    (hfits : ∀ e ∈ entries, e.1 < view.values.length ∧ e.2 < name.type.bound) :
    Writes name view (view.setMultiple name entries) ∧
      (view.setMultiple name entries).values
        = entries.foldl (fun l e => l.set e.1 e.2) view.values := by
  induction entries generalizing view with
  | nil => exact ⟨Writes.refl h, rfl⟩
  | cons e entries ih =>
    obtain ⟨hindex, hvalue⟩ := hfits e List.mem_cons_self
    have hwrites := writes_set h hindex hvalue
    have hset : (view.set name e.1 e.2).values = view.values.set e.1 e.2 := values_set h hindex
    obtain ⟨hrest, hvalues⟩ := ih hwrites.agrees fun e' he' => by
      rw [hset, List.length_set]
      exact hfits e' (List.mem_cons_of_mem e he')
    refine ⟨hwrites.trans hrest, hvalues.trans ?_⟩
    rw [hset, List.foldl_cons]

end

end ListView

/-! ## A list written as a whole -/

namespace ListView

variable [LawfulLibraries] {name : ParticipationName} {view : ListView}

theorem lt_bound_of_agrees (name : ParticipationName) (h : view.Agrees name.list) {node : Node}
    (hnode : view.tree = some node) {x : Nat} (hx : x ∈ view.values) : x < epochParticipation.bound := by
  rw [h.values node hnode, name.type_list, LawfulLibraries.values_bytes, List.mem_map] at hx
  obtain ⟨i, -, rfl⟩ := hx
  rw [LawfulLibraries.bound_bytes]
  exact UInt8.toNat_lt _

omit [LawfulLibraries] in
@[simp] theorem values_updateAllStatus (data : Vec) :
    (view.updateAllStatus name data).values = vectors.toList data view.heap := by
  unfold updateAllStatus
  rw [values_writeTree, values_writeTree]
  rfl

omit [LawfulLibraries] in
@[simp] theorem persistent_updateAllStatus (data : Vec) :
    (view.updateAllStatus name data).persistent = data := by
  unfold updateAllStatus
  rw [persistent_writeTree, persistent_writeTree]

omit [LawfulLibraries] in
@[simp] theorem heap_updateAllStatus (data : Vec) :
    (view.updateAllStatus name data).heap = view.heap := by
  unfold updateAllStatus
  rw [heap_writeTree, heap_writeTree]

theorem getProperty_updateAllStatus_of_ne (data : Vec) {key : String} (hkey : key ≠ name.list.key) :
    treeGetProperty (view.updateAllStatus name data).state key
      = treeGetProperty view.state key := by
  unfold updateAllStatus
  rw [getProperty_writeTree_of_ne hkey, getProperty_writeTree_of_ne hkey]

theorem agrees_updateAllStatus (name : ParticipationName) {data : Vec}
    (hlive : vectors.Live view.heap data)
    (hook : treeGetProperty view.state name.list.key = view.tree)
    (hdata : view.tree.isSome = true →
      (∀ x ∈ vectors.toList data view.heap, x < epochParticipation.bound) ∧
        (vectors.toList data view.heap).length ≤ epochParticipation.limit) :
    (view.updateAllStatus name data).Agrees name.list := by
  -- the tree that is built reads as `data`
  have hbuilt : ∀ node, (view.updateAllStatus name data).tree = some node →
      name.list.type.values node = vectors.toList data view.heap ∧
        (vectors.toList data view.heap).length ≤ epochParticipation.limit := by
    intro node hnode
    unfold updateAllStatus at hnode
    rw [tree_writeTree, tree_writeTree, Option.map_map, Option.map_eq_some_iff] at hnode
    obtain ⟨old, hold, rfl⟩ := hnode
    obtain ⟨hbytes, hlimit⟩ := hdata (by rw [hold]; rfl)
    refine ⟨?_, hlimit⟩
    have hpacked := values_unsafeUint8ArrayToTree
      ((vectors.toList data view.heap).map UInt8.ofNat) (by rwa [List.length_map])
    rw [List.length_map, List.map_map] at hpacked
    rw [name.type_list]
    refine hpacked.trans ?_
    conv_rhs => rw [← List.map_id (vectors.toList data view.heap)]
    refine List.map_congr_left fun x hx => ?_
    have hx := hbytes x hx
    rw [LawfulLibraries.bound_bytes] at hx
    rw [Function.comp_apply, UInt8.toNat_ofNat', id_eq]
    exact Nat.mod_eq_of_lt hx
  constructor
  · rw [heap_updateAllStatus, persistent_updateAllStatus]
    exact hlive
  · unfold updateAllStatus
    exact getProperty_writeTree (getProperty_writeTree hook)
  · intro node hnode
    rw [values_updateAllStatus, (hbuilt node hnode).1]
  · intro node hnode
    rw [(hbuilt node hnode).1, name.type_list]
    exact (hbuilt node hnode).2

omit [Libraries] [LawfulLibraries] in
theorem length_foldl_set (entries : List (Nat × Nat)) (l : List Nat) :
    (entries.foldl (fun l e => l.set e.1 e.2) l).length = l.length := by
  induction entries generalizing l with
  | nil => rfl
  | cons e entries ih => rw [List.foldl_cons, ih, List.length_set]

omit [Libraries] [LawfulLibraries] in
theorem lt_of_mem_foldl_set {bound x : Nat} {entries : List (Nat × Nat)} {l : List Nat}
    (hl : ∀ x ∈ l, x < bound) (hentries : ∀ e ∈ entries, e.2 < bound)
    (hx : x ∈ entries.foldl (fun l e => l.set e.1 e.2) l) : x < bound := by
  induction entries generalizing l with
  | nil => exact hl x hx
  | cons e entries ih =>
    refine ih (fun y hy => ?_) (fun e' he' => hentries e' (List.mem_cons_of_mem e he')) hx
    rcases List.mem_or_eq_of_mem_set hy with hy | rfl
    · exact hl y hy
    · exact hentries e List.mem_cons_self

theorem writes_updateAllStatus {result : Vec × Heap} (h : view.Agrees name.list)
    (hmoves : vectors.Moves (view.persistent, view.heap) result)
    (hbytes : (∀ x ∈ view.values, x < epochParticipation.bound) →
      ∀ x ∈ vectors.toList result.1 result.2, x < epochParticipation.bound)
    (hlength : (vectors.toList result.1 result.2).length = view.values.length) :
    Writes name.list view ((view.move result).updateAllStatus name result.1) where
  moves := by
    rw [persistent_updateAllStatus, heap_updateAllStatus]
    exact hmoves
  agrees := by
    refine agrees_updateAllStatus name hmoves.live h.hook fun htree => ?_
    obtain ⟨node, hnode⟩ := Option.isSome_iff_exists.mp htree
    have hlimit := h.limit node hnode
    rw [← h.values node hnode, name.type_list] at hlimit
    exact ⟨hbytes fun x hx => lt_bound_of_agrees name h hnode hx, hlength.trans_le hlimit⟩
  fields := fun _ hkey => getProperty_updateAllStatus_of_ne _ hkey

theorem writes_updateEpochParticipants [Preset] {epochStatuses : List (Nat × Nat)}
    {numActiveValidators : Nat} (h : view.Agrees name.list)
    (hfits : ∀ e ∈ epochStatuses,
      e.1 < view.values.length ∧ e.2 < epochParticipation.bound) :
    Writes name.list view (view.updateEpochParticipants name epochStatuses numActiveValidators) ∧
      (view.updateEpochParticipants name epochStatuses numActiveValidators).values
        = epochStatuses.foldl (fun l e => l.set e.1 e.2) view.values := by
  unfold updateEpochParticipants
  split
  · have htransient := writes_asTransient h
    have hsame : view.asTransient.values = view.values :=
      LawfulLibraries.vectors.toList_asTransient h.live
    obtain ⟨hmoves, hvalues⟩ := LawfulLibraries.vectors.setAll epochStatuses
      htransient.agrees.live fun e he => by
        change e.1 < view.asTransient.values.length
        rw [hsame]
        exact (hfits e he).1
    replace hvalues := hvalues.trans
      (congrArg (fun l => epochStatuses.foldl (fun l e => l.set e.1 e.2) l) hsame)
    constructor
    · refine writes_updateAllStatus h (htransient.moves.trans hmoves) (fun hbytes x hx => ?_) ?_
      · rw [hvalues] at hx
        exact lt_of_mem_foldl_set hbytes (fun e he => (hfits e he).2) hx
      · rw [hvalues, length_foldl_set]
    · rw [values_updateAllStatus]
      exact hvalues
  · exact writes_setMultiple h fun e he => by
      rw [name.type_list]
      exact hfits e he

/-! ## Participation as plain lists -/

omit [Libraries] [LawfulLibraries] in
theorem map_foldl_set (entries : List (Nat × ParticipationFlags)) (l : List ParticipationFlags) :
    (entries.foldl (fun l e => l.set e.1 e.2) l).map BitVec.toNat
      = (entries.map fun e => (e.1, e.2.toNat)).foldl (fun l e => l.set e.1 e.2)
        (l.map BitVec.toNat) := by
  induction entries generalizing l with
  | nil => rfl
  | cons e entries ih => rw [List.foldl_cons, ih, List.map_cons, List.foldl_cons, List.map_set]

/-- On the heap, the statuses of a block are written as `processAttestations` writes them to
plain lists. -/
theorem updateEpochParticipants_refines [Preset]
    {statuses : Std.TreeMap Nat ParticipationFlags} {participation : List ParticipationFlags}
    {numActiveValidators : Nat} (h : view.Agrees name.list)
    (hview : view.values = participation.map BitVec.toNat)
    (hkeys : ∀ i ∈ statuses, i < participation.length) :
    (view.updateEpochParticipants name (statuses.toList.map fun e => (e.1, e.2.toNat))
        numActiveValidators).values
      = (StateTransition.updateEpochParticipants statuses (.ofList participation)
        numActiveValidators).persistent.map BitVec.toNat := by
  have hfits : ∀ e ∈ statuses.toList.map fun e => (e.1, e.2.toNat),
      e.1 < view.values.length ∧ e.2 < epochParticipation.bound := by
    intro e he
    obtain ⟨entry, hentry, rfl⟩ := List.mem_map.mp he
    have hmem : entry.1 ∈ statuses := by
      rw [Std.TreeMap.mem_iff_isSome_getElem?,
        Std.TreeMap.mem_toList_iff_getElem?_eq_some.mp hentry]
      rfl
    rw [hview, List.length_map, LawfulLibraries.bound_bytes]
    exact ⟨hkeys entry.1 hmem, entry.2.isLt⟩
  rw [(writes_updateEpochParticipants h hfits).2, hview, updateEpochParticipants_eq,
    ← foldl_set_toList, CachedEpochParticipation.ofList, map_foldl_set]

end ListView

end

end Lodestar.StateTransition.CachedLists
