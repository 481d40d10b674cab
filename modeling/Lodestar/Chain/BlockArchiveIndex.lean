import Lodestar.Base.WriteCalls
import Lodestar.Types
import Mathlib.Logic.Relation

/-!
# The block archive and its indices

`db/repositories/blockArchive.ts` and `blockArchiveIndex.ts` over a store whose
writes take effect in any order. The keys of the three buckets and the encoded
values are kept as what they encode.
-/

namespace Lodestar.Chain

open Lodestar.Base

/-- The part of a signed block that the repository reads. -/
structure ArchivedBlock where
  slot : Nat
  parentRoot : Root
  /-- `BeaconBlock.hashTreeRoot(message)`, of the type of the slot's fork. -/
  blockRoot : Root
  signature : BLSSignature
  deriving DecidableEq

inductive ArchiveKey where
  /-- Of `Bucket.allForks_blockArchive`. -/
  | block (slot : Nat)
  /-- `getRootIndexKey`. -/
  | root (root : Root)
  /-- `getParentRootIndexKey`. -/
  | parentRoot (parentRoot : Root)
  deriving DecidableEq

inductive ArchiveValue where
  | block (block : ArchivedBlock)
  | slot (slot : Nat)
  deriving DecidableEq

abbrev ArchiveStore := Repository ArchiveKey ArchiveValue
abbrev ArchiveWrite := Write ArchiveKey ArchiveValue

def storeRootIndex (slot : Nat) (blockRoot : Root) : ArchiveWrite :=
  [(.root blockRoot, some (.slot slot))]

def storeParentRootIndex (slot : Nat) (parentRoot : Root) : ArchiveWrite :=
  [(.parentRoot parentRoot, some (.slot slot))]

def deleteRootIndex (block : ArchivedBlock) : ArchiveWrite := [(.root block.blockRoot, none)]

def deleteParentRootIndex (block : ArchivedBlock) : ArchiveWrite :=
  [(.parentRoot block.parentRoot, none)]

/-- `BlockArchiveBatchPutBinaryItem`, with the block that the bytes decode to. -/
structure BatchPutBinaryItem where
  key : Nat
  value : ArchivedBlock
  slot : Nat
  blockRoot : Root
  parentRoot : Root
  deriving DecidableEq

inductive BlockArchiveCall where
  | put (key : Nat) (value : ArchivedBlock)
  | batchPut (items : List (Nat × ArchivedBlock))
  | batchPutBinary (items : List BatchPutBinaryItem)
  | remove (value : ArchivedBlock)
  | batchRemove (values : List ArchivedBlock)
  deriving DecidableEq

namespace BlockArchiveCall

/-- The writes of a call. `Promise.all` waits for the promises among its elements, not for those
of the arrays that the batch calls give it. -/
def writes : BlockArchiveCall → WriteCall ArchiveKey ArchiveValue
  | put key value =>
    [(true, [(.block key, some (.block value))]),
      (true, storeRootIndex value.slot value.blockRoot),
      (true, storeParentRootIndex value.slot value.parentRoot)]
  | batchPut items =>
    (true, items.map fun (key, value) => (.block key, some (.block value))) ::
      (items.map fun (_, value) => (false, storeRootIndex value.slot value.blockRoot)) ++
      items.map fun (_, value) => (false, storeParentRootIndex value.slot value.parentRoot)
  | batchPutBinary items =>
    (true, items.map fun item => (.block item.key, some (.block item.value))) ::
      (items.map fun item => (false, storeRootIndex item.slot item.blockRoot)) ++
      items.map fun item => (false, storeParentRootIndex item.slot item.parentRoot)
  | remove value =>
    [(true, [(.block value.slot, none)]), (true, deleteRootIndex value),
      (true, deleteParentRootIndex value)]
  | batchRemove values =>
    (true, values.map fun value => (.block value.slot, none)) ::
      (values.map fun value => (false, deleteRootIndex value)) ++
      values.map fun value => (false, deleteParentRootIndex value)

def blocks : BlockArchiveCall → List ArchivedBlock
  | put _ value => [value]
  | batchPut items => items.map (·.2)
  | batchPutBinary items => items.map (·.value)
  | remove value => [value]
  | batchRemove values => values

/-- The call stores its blocks; the others remove them. -/
def stores : BlockArchiveCall → Bool
  | put .. | batchPut _ | batchPutBinary _ => true
  | remove _ | batchRemove _ => false

/-- The keys and the fields beside a block are its own, as callers give them. -/
def WellFormed : BlockArchiveCall → Prop
  | put key value => key = value.slot
  | batchPut items => ∀ item ∈ items, item.1 = item.2.slot
  | batchPutBinary items => ∀ item ∈ items, item.key = item.value.slot ∧
      item.slot = item.value.slot ∧ item.blockRoot = item.value.blockRoot ∧
      item.parentRoot = item.value.parentRoot
  | remove _ | batchRemove _ => True

/-- The blocks are of one chain: distinct slots, roots and parent roots. -/
def OneChain (call : BlockArchiveCall) : Prop :=
  (call.blocks.map (·.slot)).Nodup ∧ (call.blocks.map (·.blockRoot)).Nodup ∧
    (call.blocks.map (·.parentRoot)).Nodup

def isBatch : BlockArchiveCall → Bool
  | put .. | remove _ => false
  | batchPut _ | batchPutBinary _ | batchRemove _ => true

end BlockArchiveCall

/-! ## Reading -/

def getSlotByRoot (store : ArchiveStore) (root : Root) : Option Nat :=
  match store (.root root) with
  | some (.slot slot) => some slot
  | _ => none

def getSlotByParentRoot (store : ArchiveStore) (root : Root) : Option Nat :=
  match store (.parentRoot root) with
  | some (.slot slot) => some slot
  | _ => none

/-- `Repository.get`. -/
def getArchived (store : ArchiveStore) (slot : Nat) : Option ArchivedBlock :=
  match store (.block slot) with
  | some (.block block) => some block
  | _ => none

def getByRoot (store : ArchiveStore) (root : Root) : Option ArchivedBlock :=
  (getSlotByRoot store root).bind (getArchived store)

def getByParentRoot (store : ArchiveStore) (root : Root) : Option ArchivedBlock :=
  (getSlotByParentRoot store root).bind (getArchived store)

/-! ## Runs -/

abbrev ArchiveState := WriteState BlockArchiveCall ArchiveKey ArchiveValue

/-- A call on the archive, a write that takes effect, or a promise that resolves. -/
def ArchiveStep (s s' : ArchiveState) : Prop :=
  ∃ e, s.Orderly BlockArchiveCall.writes e ∧ s.step BlockArchiveCall.writes e = some s'

/-- A step in which no batch call resolves before all its writes took effect. -/
def AwaitedStep (s s' : ArchiveState) : Prop :=
  ∃ e, s.Orderly BlockArchiveCall.writes e ∧ s.step BlockArchiveCall.writes e = some s' ∧
    ∀ (i : Nat) issued, e = .resolve i → s.calls[i]? = some issued → issued.call.isBatch = true →
      issued.pending = []

/-- What a call promises once it has resolved, until a later call is made on a key of its own. -/
def Readable (s : ArchiveState) : Prop :=
  ∀ (i : Nat) issued, s.calls[i]? = some issued → issued.resolved = true →
    issued.call.WellFormed → issued.call.OneChain →
    (∀ (j : Nat) later, i < j → s.calls[j]? = some later →
      ∀ k ∈ issued.call.writes.keys, k ∉ later.call.writes.keys) →
    ∀ block ∈ issued.call.blocks,
      getByRoot s.store block.blockRoot = (if issued.call.stores then some block else none) ∧
      getByParentRoot s.store block.parentRoot = (if issued.call.stores then some block else none)

/-! ## What a call writes -/

namespace BlockArchiveCall

/-- The value and the two index entries of a block. -/
def entries (stores : Bool) (block : ArchivedBlock) : List (ArchiveKey × Option ArchiveValue) :=
  [(.block block.slot, if stores then some (.block block) else none),
    (.root block.blockRoot, if stores then some (.slot block.slot) else none),
    (.parentRoot block.parentRoot, if stores then some (.slot block.slot) else none)]

variable {call : BlockArchiveCall}

/-- The writes of a batch: one for the values, and one for each entry of the two indices. -/
theorem mem_assignments_batch {α : Type} (items : List α)
    (value rootIndex parentRootIndex : α → ArchiveKey × Option ArchiveValue)
    (p : ArchiveKey × Option ArchiveValue) :
    p ∈ WriteCall.assignments ((true, items.map value) ::
        (items.map fun item => (false, [rootIndex item])) ++
        items.map fun item => (false, [parentRootIndex item])) ↔
      ∃ item ∈ items, p ∈ [value item, rootIndex item, parentRootIndex item] := by
  simp only [WriteCall.assignments, List.flatMap_append, List.flatMap_cons, List.mem_append,
    List.mem_flatMap, List.mem_map, List.mem_cons, List.not_mem_nil, or_false]
  constructor
  · rintro ((⟨item, hitem, rfl⟩ | ⟨_, ⟨item, hitem, rfl⟩, hp⟩) | ⟨_, ⟨item, hitem, rfl⟩, hp⟩)
    · exact ⟨item, hitem, .inl rfl⟩
    · exact ⟨item, hitem, .inr (.inl (by simpa using hp))⟩
    · exact ⟨item, hitem, .inr (.inr (by simpa using hp))⟩
  · rintro ⟨item, hitem, rfl | rfl | rfl⟩
    · exact .inl (.inl ⟨item, hitem, rfl⟩)
    · exact .inl (.inr ⟨_, ⟨item, hitem, rfl⟩, by simp⟩)
    · exact .inr ⟨_, ⟨item, hitem, rfl⟩, by simp⟩

theorem mem_assignments_iff (hwell : call.WellFormed) {p : ArchiveKey × Option ArchiveValue} :
    p ∈ call.writes.assignments ↔ ∃ block ∈ call.blocks, p ∈ entries call.stores block := by
  cases call with
  | put key value =>
    obtain rfl : key = value.slot := hwell
    simp [WriteCall.assignments, writes, blocks, entries, stores, storeRootIndex,
      storeParentRootIndex]
  | remove value =>
    simp [WriteCall.assignments, writes, blocks, entries, stores, deleteRootIndex,
      deleteParentRootIndex]
  | batchPut items =>
    have hkey : ∀ item ∈ items, item.1 = item.2.slot := hwell
    refine (mem_assignments_batch items (fun item => (.block item.1, some (.block item.2)))
      (fun item => (.root item.2.blockRoot, some (.slot item.2.slot)))
      (fun item => (.parentRoot item.2.parentRoot, some (.slot item.2.slot))) p).trans ?_
    simp only [blocks, stores, entries, List.mem_map]
    constructor
    · rintro ⟨item, hitem, hp⟩
      exact ⟨item.2, ⟨item, hitem, rfl⟩, hkey item hitem ▸ hp⟩
    · rintro ⟨_, ⟨item, hitem, rfl⟩, hp⟩
      exact ⟨item, hitem, (hkey item hitem).symm ▸ hp⟩
  | batchPutBinary items =>
    have hkey : ∀ item ∈ items, item.key = item.value.slot ∧ item.slot = item.value.slot ∧
      item.blockRoot = item.value.blockRoot ∧ item.parentRoot = item.value.parentRoot := hwell
    refine (mem_assignments_batch items (fun item => (.block item.key, some (.block item.value)))
      (fun item => (.root item.blockRoot, some (.slot item.slot)))
      (fun item => (.parentRoot item.parentRoot, some (.slot item.slot))) p).trans ?_
    have hitem : ∀ item ∈ items, (p ∈ [(ArchiveKey.block item.key, some (ArchiveValue.block item.value)),
        (.root item.blockRoot, some (.slot item.slot)),
        (.parentRoot item.parentRoot, some (.slot item.slot))] ↔ p ∈ entries true item.value) := by
      intro item hitem
      obtain ⟨hk, hs, hr, hp⟩ := hkey item hitem
      rw [hk, hs, hr, hp]
      rfl
    simp only [blocks, stores, List.mem_map]
    constructor
    · rintro ⟨item, hmem, hp⟩
      exact ⟨item.value, ⟨item, hmem, rfl⟩, (hitem item hmem).1 hp⟩
    · rintro ⟨_, ⟨item, hmem, rfl⟩, hp⟩
      exact ⟨item, hmem, (hitem item hmem).2 hp⟩
  | batchRemove values =>
    exact mem_assignments_batch values (fun value => (.block value.slot, none))
      (fun value => (.root value.blockRoot, none)) (fun value => (.parentRoot value.parentRoot, none)) p

theorem singleValued (hwell : call.WellFormed) (hchain : call.OneChain) :
    call.writes.SingleValued := by
  obtain ⟨hslot, hroot, hparent⟩ := hchain
  intro k v v' hv hv'
  obtain ⟨block, hblock, hmem⟩ := (mem_assignments_iff hwell).1 hv
  obtain ⟨block', hblock', hmem'⟩ := (mem_assignments_iff hwell).1 hv'
  unfold entries at hmem hmem'
  simp only [List.mem_cons, List.not_mem_nil, or_false, Prod.mk.injEq] at hmem hmem'
  rcases hmem with ⟨rfl, rfl⟩ | ⟨rfl, rfl⟩ | ⟨rfl, rfl⟩
  · obtain ⟨hk, rfl⟩ | ⟨hk, -⟩ | ⟨hk, -⟩ := hmem'
    · obtain rfl := List.inj_on_of_nodup_map hslot hblock hblock' (ArchiveKey.block.inj hk)
      rfl
    · cases hk
    · cases hk
  · obtain ⟨hk, -⟩ | ⟨hk, rfl⟩ | ⟨hk, -⟩ := hmem'
    · cases hk
    · obtain rfl := List.inj_on_of_nodup_map hroot hblock hblock' (ArchiveKey.root.inj hk)
      rfl
    · cases hk
  · obtain ⟨hk, -⟩ | ⟨hk, -⟩ | ⟨hk, rfl⟩ := hmem'
    · cases hk
    · cases hk
    · obtain rfl := List.inj_on_of_nodup_map hparent hblock hblock' (ArchiveKey.parentRoot.inj hk)
      rfl

theorem awaited_of_not_isBatch (h : call.isBatch = false) : ∀ p ∈ call.writes, p.1 = true := by
  cases call with
  | put key value => simp [writes]
  | remove value => simp [writes]
  | batchPut items => cases h
  | batchPutBinary items => cases h
  | batchRemove values => cases h

end BlockArchiveCall

/-! ## Once a call has resolved -/

/-- Nothing of a call that resolved is under way. -/
def Complete (s : ArchiveState) : Prop :=
  ∀ (i : Nat) issued, s.calls[i]? = some issued → issued.resolved = true → issued.pending = []

theorem Complete.step {s s' : ArchiveState} (h : Complete s)
    (hordered : s.Ordered BlockArchiveCall.writes) (hstep : AwaitedStep s s') : Complete s' := by
  obtain ⟨e, -, hstep, hawaited⟩ := hstep
  intro j c hj hresolved
  cases e with
  | issue call =>
    obtain rfl := Option.some.inj hstep
    rcases lt_or_ge j s.calls.length with hlt | hge
    · rw [List.getElem?_append_left hlt] at hj
      exact h j c hj hresolved
    · -- the new call has not resolved
      rw [List.getElem?_append_right hge] at hj
      obtain rfl := List.mem_singleton.1 (List.mem_of_getElem? hj)
      cases hresolved
  | complete i n =>
    unfold WriteState.step at hstep
    simp only [Option.bind_eq_bind, Option.bind_eq_some_iff, Option.pure_def,
      Option.some.injEq] at hstep
    obtain ⟨issued, hi, ⟨awaited, w⟩, hw, rfl⟩ := hstep
    obtain ⟨c', hj', -, -, hne, heq⟩ := WriteState.getElem?_set_of_same
      { issued with pending := issued.pending.eraseIdx n } hi rfl
      (fun p hp => List.mem_of_mem_eraseIdx hp) hj
    by_cases hji : j = i
    · obtain ⟨rfl, rfl⟩ := heq hji
      have hempty := h j c' hj' hresolved
      rw [hempty] at hw
      cases hw
    · obtain rfl := hne hji
      exact h j c hj' hresolved
  | resolve i =>
    unfold WriteState.step at hstep
    simp only [Option.bind_eq_bind, Option.bind_eq_some_iff] at hstep
    obtain ⟨issued, hi, hstep⟩ := hstep
    split_ifs at hstep with hany
    obtain rfl := Option.some.inj hstep
    obtain ⟨c', hj', -, -, hne, heq⟩ := WriteState.getElem?_set_of_same
      { issued with resolved := true } hi rfl (fun p hp => hp) hj
    by_cases hji : j = i
    · obtain ⟨rfl, rfl⟩ := heq hji
      show c'.pending = []
      cases hbatch : c'.call.isBatch with
      | true => exact hawaited i c' rfl hi hbatch
      | false =>
        -- it waited for whatever is under way
        refine List.eq_nil_iff_forall_not_mem.2 fun p hp => hany (List.any_eq_true.2 ⟨p, hp, ?_⟩)
        exact BlockArchiveCall.awaited_of_not_isBatch hbatch p (hordered.pending i c' hi p hp)
    · obtain rfl := hne hji
      exact h j c hj' hresolved

theorem Readable.of_complete {s : ArchiveState} (h : Complete s)
    (hordered : s.Ordered BlockArchiveCall.writes) : Readable s := by
  intro i issued hi hresolved hwell hchain hlast block hblock
  have hvalue : ∀ p ∈ BlockArchiveCall.entries issued.call.stores block, s.store p.1 = p.2 := by
    intro p hp
    have hmem := (BlockArchiveCall.mem_assignments_iff hwell).2 ⟨block, hblock, hp⟩
    refine hordered.value i issued hi (BlockArchiveCall.singleValued hwell hchain) p.1 p.2 hmem ?_
      fun j later hij hj => hlast j later hij hj p.1 (List.mem_map.2 ⟨p, hmem, rfl⟩)
    rw [h i issued hi hresolved]
    exact List.not_mem_nil
  have hblockKey := hvalue _ List.mem_cons_self
  have hrootKey := hvalue _ (List.mem_cons_of_mem _ List.mem_cons_self)
  have hparentKey := hvalue _ (List.mem_cons_of_mem _ (List.mem_cons_of_mem _ List.mem_cons_self))
  unfold getByRoot getByParentRoot getSlotByRoot getSlotByParentRoot
  rw [hrootKey, hparentKey]
  cases hstores : issued.call.stores with
  | true =>
    rw [hstores] at hblockKey
    unfold getArchived
    simp [hblockKey]
  | false => simp

/-- In runs on any archive in which no batch call resolves before its index entries are written or
deleted, the blocks of a resolved call are found by both roots, or are not if it removed them. -/
theorem archived_blocks_readable {store : ArchiveStore} {s : ArchiveState}
    (hrun : Relation.ReflTransGen AwaitedStep ⟨store, []⟩ s) : Readable s := by
  have hinv : Complete s ∧ s.Ordered BlockArchiveCall.writes := by
    induction hrun with
    | refl =>
      refine ⟨fun i issued hi => ?_, WriteState.Ordered.start store⟩
      cases hi
    | tail _ hstep ih =>
      obtain ⟨e, horderly, hnext, -⟩ := id hstep
      exact ⟨ih.1.step ih.2 hstep, ih.2.step horderly hnext⟩
  exact .of_complete hinv.1 hinv.2

/-! ## A batch -/

def archivedOne : ArchivedBlock := { slot := 1, parentRoot := 10, blockRoot := 11, signature := 0 }

def putOne : BlockArchiveCall := .batchPut [(1, archivedOne)]

theorem wellFormed_putOne : putOne.WellFormed := by
  intro item hitem
  obtain rfl := List.mem_singleton.1 hitem
  rfl

theorem oneChain_putOne : putOne.OneChain :=
  ⟨List.nodup_singleton _, List.nodup_singleton _, List.nodup_singleton _⟩

/-- A call on an empty archive, of whose writes the first `n` took effect. -/
def afterWrites (call : BlockArchiveCall) (n : Nat) (resolved : Bool) : ArchiveState :=
  { store := (call.writes.take n).foldl (fun store p => Write.apply p.2 store) Repository.empty
    calls := [⟨call, call.writes.drop n, resolved⟩] }

theorem step_afterWrites {call : BlockArchiveCall} {n : Nat} (hn : n < call.writes.length) :
    AwaitedStep (afterWrites call n false) (afterWrites call (n + 1) false) := by
  refine ⟨.complete 0 0, trivial, ?_, fun i issued hi => ?_⟩
  · unfold afterWrites
    rw [List.drop_eq_getElem_cons hn, List.take_add_one, List.getElem?_eq_getElem hn,
      List.foldl_append]
    rfl
  · cases hi

theorem ArchiveStep.of_awaited {s s' : ArchiveState} (h : AwaitedStep s s') : ArchiveStep s s' := by
  obtain ⟨e, horderly, hstep, -⟩ := h
  exact ⟨e, horderly, hstep⟩

theorem afterWrites_reachable (call : BlockArchiveCall) {n : Nat} (hn : n ≤ call.writes.length) :
    Relation.ReflTransGen AwaitedStep ⟨Repository.empty, []⟩ (afterWrites call n false) := by
  induction n with
  | zero =>
    refine .single ⟨.issue call, fun _ h => absurd h List.not_mem_nil, rfl, fun i issued hi => ?_⟩
    cases hi
  | succ n ih => exact (ih (by omega)).tail (step_afterWrites (by omega))

/-- A block that was put in a batch is not found by its root when the call has resolved. -/
theorem not_readable_of_batch : ¬ ∀ (store : ArchiveStore) (s : ArchiveState),
    Relation.ReflTransGen ArchiveStep ⟨store, []⟩ s → Readable s := by
  intro h
  -- its value alone is written when it resolves
  have hrun : Relation.ReflTransGen ArchiveStep ⟨Repository.empty, []⟩ (afterWrites putOne 1 true) :=
    (Relation.ReflTransGen.lift id (fun _ _ => ArchiveStep.of_awaited) _ _
      (afterWrites_reachable putOne (n := 1) (by decide))).tail ⟨.resolve 0, trivial, rfl⟩
  have hreadable := h _ _ hrun 0 ⟨putOne, putOne.writes.drop 1, true⟩ rfl rfl wellFormed_putOne
    oneChain_putOne (fun j later hj hget => by
      rw [List.getElem?_eq_none (show 1 ≤ j from hj)] at hget
      cases hget) archivedOne (List.mem_singleton_self _)
  have hmissing : getByRoot (afterWrites putOne 1 true).store 11 = none := by decide
  exact absurd (hmissing.symm.trans hreadable.1) (by decide)

/-- The same batch when its entries are written before it resolves. -/
theorem batch_readable : Readable (afterWrites putOne 3 true) :=
  archived_blocks_readable ((afterWrites_reachable putOne (n := 3) (by decide)).tail
    ⟨.resolve 0, trivial, rfl, fun i issued hi hget _ => by
      obtain rfl : i = 0 := (WriteEvent.resolve.inj hi).symm
      obtain rfl := Option.some.inj hget
      rfl⟩)

end Lodestar.Chain
