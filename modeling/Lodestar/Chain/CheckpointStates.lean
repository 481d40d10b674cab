import Lodestar.Chain.StateCaches

/-!
# Runs of the checkpoint state cache

`CheckpointStateCache` keeps the roots of each epoch beside the states. Epochs
are evicted in the order in which they came, which is not that of their numbers
once an old epoch comes late.
-/

namespace Lodestar.Chain

open Lodestar.Base Lodestar.ForkChoice

namespace CheckpointStateCache

variable {State : Type}

def MAX_EPOCHS : Nat := 10

section

variable (this : CheckpointStateCache State)

def deleteAllEpochItems (epoch : Nat) : CheckpointStateCache State where
  cache := ((this.epochIndex.get epoch).getD []).foldl
    (fun cache rootHex => cache.delete (rootHex, epoch)) this.cache
  epochIndex := this.epochIndex.delete epoch

def pruneFinalized (finalizedEpoch : Nat) : CheckpointStateCache State :=
  this.epochIndex.keys.foldl
    (fun this epoch => if epoch < finalizedEpoch then this.deleteAllEpochItems epoch else this) this

/-- The epochs that `prune` may delete, in the order in which they came. -/
def prunableEpochs (finalizedEpoch justifiedEpoch : Nat) : List Nat :=
  this.epochIndex.keys.filter fun epoch => epoch ≠ finalizedEpoch ∧ epoch ≠ justifiedEpoch

def prune (finalizedEpoch justifiedEpoch : Nat) : CheckpointStateCache State :=
  let epochs := this.prunableEpochs finalizedEpoch justifiedEpoch
  if epochs.length > MAX_EPOCHS then
    (epochs.take (epochs.length - MAX_EPOCHS)).foldl deleteAllEpochItems this
  else this

def delete (cp : CheckpointWithHex) : CheckpointStateCache State where
  cache := this.cache.delete (cp.rootHex, cp.epoch)
  epochIndex :=
    match this.epochIndex.get cp.epoch with
    | none => this.epochIndex
    | some value =>
      let value := value.filter (· ≠ cp.rootHex)
      if value.length = 0 then this.epochIndex.delete cp.epoch
      else this.epochIndex.set cp.epoch value

def clear : CheckpointStateCache State := ⟨.empty, .empty⟩

end

/-! ## The index -/

/-- The pairs of the index are the keys of the cache, and no epoch is left without roots. -/
structure Indexed (this : CheckpointStateCache State) : Prop where
  mem_iff : ∀ epoch rootHex, rootHex ∈ (this.epochIndex.get epoch).getD [] ↔
    (rootHex, epoch) ∈ this.cache.keys
  ne_nil : ∀ epoch roots, this.epochIndex.get epoch = some roots → roots ≠ []

variable {this : CheckpointStateCache State} {rootHex : RootHex} {epoch finalizedEpoch
  justifiedEpoch : Nat} {cp : CheckpointWithHex}

theorem indexed_clear : (clear : CheckpointStateCache State).Indexed where
  mem_iff := fun _ _ => iff_of_false List.not_mem_nil List.not_mem_nil
  ne_nil := by
    rintro epoch roots ⟨⟩

theorem Indexed.add (h : this.Indexed) (item : State) : (this.add cp item).Indexed := by
  unfold CheckpointStateCache.add
  split_ifs with hhas
  · exact h
  refine ⟨fun epoch rootHex => ?_, fun epoch roots hget => ?_⟩
  · simp only [OrderedMap.get_set, OrderedMap.mem_keys_iff, Prod.mk.injEq]
    have hmem := h.mem_iff epoch rootHex
    rw [OrderedMap.mem_keys_iff] at hmem
    by_cases hepoch : epoch = cp.epoch
    · subst hepoch
      rw [if_pos rfl, Option.getD_some, List.mem_insert_iff, hmem]
      by_cases hroot : rootHex = cp.rootHex <;> simp [hroot]
    · rw [if_neg hepoch, if_neg fun heq => hepoch heq.2, hmem]
  · dsimp only at hget
    rw [OrderedMap.get_set] at hget
    split_ifs at hget
    · obtain rfl := Option.some.inj hget
      exact List.ne_nil_of_mem (List.mem_insert_self)
    · exact h.ne_nil epoch roots hget

theorem get_foldl_delete_root (roots : List RootHex) (cache : OrderedMap (RootHex × Nat) State)
    (key : RootHex × Nat) :
    (roots.foldl (fun cache rootHex => cache.delete (rootHex, epoch)) cache).get key =
      if key.2 = epoch ∧ key.1 ∈ roots then none else cache.get key := by
  have hmap : roots.foldl (fun cache rootHex => cache.delete (rootHex, epoch)) cache =
      (roots.map (·, epoch)).foldl (·.delete ·) cache := by
    rw [List.foldl_map]
  have hmem : key ∈ roots.map (·, epoch) ↔ key.2 = epoch ∧ key.1 ∈ roots := by
    rw [List.mem_map]
    constructor
    · rintro ⟨root, hroot, rfl⟩
      exact ⟨rfl, hroot⟩
    · rintro ⟨rfl, hroot⟩
      exact ⟨key.1, hroot, rfl⟩
  rw [hmap]
  split_ifs with hkey
  · exact OrderedMap.get_foldl_delete_of_mem (hmem.mpr hkey)
  · exact OrderedMap.get_foldl_delete_of_notMem fun hk => hkey (hmem.mp hk)

theorem Indexed.deleteAllEpochItems (h : this.Indexed) (epoch : Nat) :
    (this.deleteAllEpochItems epoch).Indexed := by
  refine ⟨fun other rootHex => ?_, fun other roots hget => ?_⟩
  · have hmem := h.mem_iff other rootHex
    rw [OrderedMap.mem_keys_iff] at hmem ⊢
    simp only [CheckpointStateCache.deleteAllEpochItems, get_foldl_delete_root, OrderedMap.get_delete]
    by_cases hepoch : other = epoch
    · subst hepoch
      by_cases hroot : rootHex ∈ (this.epochIndex.get other).getD []
      · simp [hroot]
      · simpa [hroot] using hmem
    · simpa [hepoch] using hmem
  · simp only [CheckpointStateCache.deleteAllEpochItems, OrderedMap.get_delete] at hget
    split_ifs at hget
    exact h.ne_nil other roots hget

theorem Indexed.foldl_deleteAllEpochItems (h : this.Indexed) (epochs : List Nat) :
    (epochs.foldl CheckpointStateCache.deleteAllEpochItems this).Indexed := by
  induction epochs generalizing this with
  | nil => exact h
  | cons epoch epochs ih => exact ih (h.deleteAllEpochItems epoch)

theorem Indexed.prune (h : this.Indexed) (finalizedEpoch justifiedEpoch : Nat) :
    (this.prune finalizedEpoch justifiedEpoch).Indexed := by
  unfold CheckpointStateCache.prune
  dsimp only
  split_ifs
  · exact h.foldl_deleteAllEpochItems _
  · exact h

theorem Indexed.pruneFinalized (h : this.Indexed) (finalizedEpoch : Nat) :
    (this.pruneFinalized finalizedEpoch).Indexed := by
  unfold CheckpointStateCache.pruneFinalized
  refine List.foldlRecOn (motive := Indexed) _ _ h fun this h epoch _ => ?_
  split_ifs
  · exact h.deleteAllEpochItems epoch
  · exact h

theorem get_epochIndex_delete (this : CheckpointStateCache State) (cp : CheckpointWithHex) :
    (this.delete cp).epochIndex.get epoch =
      if epoch = cp.epoch then
        ((this.epochIndex.get epoch).map fun roots => roots.filter (· ≠ cp.rootHex)).filter (· ≠ [])
      else this.epochIndex.get epoch := by
  unfold CheckpointStateCache.delete
  split_ifs with hepoch
  · subst hepoch
    cases hget : this.epochIndex.get cp.epoch with
    | none => exact hget
    | some roots =>
      dsimp only
      rw [Option.map_some, Option.filter_some]
      split_ifs with hlen hnil hnil
      · exact absurd (List.eq_nil_of_length_eq_zero hlen) (of_decide_eq_true hnil)
      · exact OrderedMap.get_delete_self
      · exact OrderedMap.get_set_self
      · exact absurd (List.length_eq_zero_iff.mpr (by simpa using hnil)) hlen
  · cases hget : this.epochIndex.get cp.epoch with
    | none => rfl
    | some roots =>
      dsimp only
      split_ifs
      · exact OrderedMap.get_delete_of_ne hepoch
      · exact OrderedMap.get_set_of_ne hepoch

theorem Indexed.delete (h : this.Indexed) (cp : CheckpointWithHex) : (this.delete cp).Indexed := by
  refine ⟨fun epoch rootHex => ?_, fun epoch roots hget => ?_⟩
  · have hmem := h.mem_iff epoch rootHex
    rw [OrderedMap.mem_keys_iff] at hmem ⊢
    rw [get_epochIndex_delete]
    show _ ↔ (this.cache.delete (cp.rootHex, cp.epoch)).get (rootHex, epoch) ≠ none
    rw [OrderedMap.get_delete]
    simp only [Prod.mk.injEq]
    by_cases hepoch : epoch = cp.epoch
    · subst hepoch
      have hfilter : rootHex ∈ (((this.epochIndex.get cp.epoch).map fun roots =>
          roots.filter (· ≠ cp.rootHex)).filter (· ≠ [])).getD [] ↔
          rootHex ∈ (this.epochIndex.get cp.epoch).getD [] ∧ rootHex ≠ cp.rootHex := by
        cases this.epochIndex.get cp.epoch with
        | none => simp
        | some roots =>
          rw [Option.map_some, Option.filter_some]
          split_ifs with hnil
          · simp
          · rw [decide_eq_true_eq, not_not] at hnil
            simpa [hnil] using List.filter_eq_nil_iff.mp hnil rootHex
      rw [if_pos rfl, hfilter, hmem]
      by_cases hroot : rootHex = cp.rootHex <;> simp [hroot]
    · rw [if_neg hepoch, if_neg fun heq => hepoch heq.2, hmem]
  · rw [get_epochIndex_delete] at hget
    split_ifs at hget
    · obtain ⟨-, hne⟩ := Option.filter_eq_some_iff.mp hget
      exact of_decide_eq_true hne
    · exact h.ne_nil epoch roots hget

/-! ## Runs -/

inductive Step : CheckpointStateCache State → CheckpointStateCache State → Prop
  | add {this : CheckpointStateCache State} (cp : CheckpointWithHex) (item : State) :
    Step this (this.add cp item)
  | get {this : CheckpointStateCache State} (rootHex : RootHex) (epoch : Nat) : Step this this
  | delete {this : CheckpointStateCache State} (cp : CheckpointWithHex) : Step this (this.delete cp)
  | prune {this : CheckpointStateCache State} (finalizedEpoch justifiedEpoch : Nat) :
    Step this (this.prune finalizedEpoch justifiedEpoch)
  | pruneFinalized {this : CheckpointStateCache State} (finalizedEpoch : Nat) :
    Step this (this.pruneFinalized finalizedEpoch)
  | deleteAllEpochItems {this : CheckpointStateCache State} (epoch : Nat) :
    Step this (this.deleteAllEpochItems epoch)
  | clear {this : CheckpointStateCache State} : Step this clear

/-- After any calls on a new cache. -/
def Reachable (this : CheckpointStateCache State) : Prop :=
  Relation.ReflTransGen Step ⟨.empty, .empty⟩ this

theorem Indexed.step {this' : CheckpointStateCache State} (h : this.Indexed)
    (hstep : Step this this') : this'.Indexed := by
  cases hstep with
  | add cp item => exact h.add item
  | get => exact h
  | delete cp => exact h.delete cp
  | prune finalizedEpoch justifiedEpoch => exact h.prune finalizedEpoch justifiedEpoch
  | pruneFinalized finalizedEpoch => exact h.pruneFinalized finalizedEpoch
  | deleteAllEpochItems epoch => exact h.deleteAllEpochItems epoch
  | clear => exact indexed_clear

theorem Reachable.indexed (h : this.Reachable) : this.Indexed := by
  induction h with
  | refl => exact indexed_clear
  | tail _ hstep ih => exact ih.step hstep

/-! ## The latest state -/

theorem find?_eq_some_iff_of_pairwise {l : List Nat} (h : l.Pairwise (· ≥ ·)) {p : Nat → Bool}
    {n : Nat} : l.find? p = some n ↔ n ∈ l ∧ p n = true ∧ ∀ m ∈ l, p m = true → m ≤ n := by
  induction l with
  | nil => simp
  | cons k l ih =>
    obtain ⟨hk, hl⟩ := List.pairwise_cons.mp h
    by_cases hp : p k = true
    · rw [List.find?_cons_of_pos hp]
      constructor
      · rintro ⟨⟩
        refine ⟨List.mem_cons_self, hp, fun m hm _ => ?_⟩
        rcases List.mem_cons.mp hm with rfl | hm
        · exact le_rfl
        · exact hk m hm
      · rintro ⟨hn, -, hmax⟩
        have hkn := hmax k List.mem_cons_self hp
        rcases List.mem_cons.mp hn with rfl | hn
        · rfl
        · rw [le_antisymm hkn (hk n hn)]
    · rw [List.find?_cons_of_neg hp, ih hl]
      constructor
      · rintro ⟨hn, hpn, hmax⟩
        refine ⟨List.mem_cons_of_mem k hn, hpn, fun m hm hpm => ?_⟩
        rcases List.mem_cons.mp hm with rfl | hm
        · exact absurd hpm hp
        · exact hmax m hm hpm
      · rintro ⟨hn, hpn, hmax⟩
        rcases List.mem_cons.mp hn with rfl | hn
        · exact absurd hpn hp
        · exact ⟨hn, hpn, fun m hm => hmax m (List.mem_cons_of_mem k hm)⟩

/-- The greatest epoch up to `maxEpoch` with a state for the root. -/
def IsLatestEpoch (this : CheckpointStateCache State) (rootHex : RootHex) (maxEpoch : Int)
    (epoch : Nat) : Prop :=
  epoch ≤ maxEpoch ∧ this.get rootHex epoch ≠ none ∧
    ∀ other : Nat, other ≤ maxEpoch → this.get rootHex other ≠ none → other ≤ epoch

theorem Indexed.get_ne_none_iff (h : this.Indexed) :
    this.get rootHex epoch ≠ none ↔
      ((this.epochIndex.get epoch).getD []).contains rootHex = true := by
  rw [List.contains_iff_mem, h.mem_iff, OrderedMap.mem_keys_iff]
  rfl

theorem Indexed.mem_keys_of_get (h : this.Indexed) (hget : this.get rootHex epoch ≠ none) :
    epoch ∈ this.epochIndex.keys := by
  rw [h.get_ne_none_iff, List.contains_iff_mem] at hget
  rw [OrderedMap.mem_keys_iff]
  intro hnone
  rw [hnone] at hget
  exact List.not_mem_nil hget

theorem mem_epochs_iff {maxEpoch : Int} :
    epoch ∈ (this.epochIndex.keys.insertionSort (· ≥ ·)).filter
      (fun epoch : Nat => (epoch : Int) ≤ maxEpoch) ↔
      epoch ∈ this.epochIndex.keys ∧ epoch ≤ maxEpoch := by
  rw [List.mem_filter, decide_eq_true_eq, (List.perm_insertionSort _ _).mem_iff]

theorem Indexed.find?_eq_some_iff (h : this.Indexed) {maxEpoch : Int} :
    ((this.epochIndex.keys.insertionSort (· ≥ ·)).filter fun epoch : Nat =>
        (epoch : Int) ≤ maxEpoch).find?
        (fun epoch => ((this.epochIndex.get epoch).getD []).contains rootHex) = some epoch ↔
      this.IsLatestEpoch rootHex maxEpoch epoch := by
  have hsorted := (List.pairwise_insertionSort (· ≥ ·) this.epochIndex.keys).filter
    fun epoch : Nat => (epoch : Int) ≤ maxEpoch
  rw [find?_eq_some_iff_of_pairwise hsorted, mem_epochs_iff, ← h.get_ne_none_iff]
  constructor
  · rintro ⟨⟨-, hle⟩, hget, hmax⟩
    refine ⟨hle, hget, fun other hother hgetOther => ?_⟩
    exact hmax other (mem_epochs_iff.mpr ⟨h.mem_keys_of_get hgetOther, hother⟩)
      (h.get_ne_none_iff.mp hgetOther)
  · rintro ⟨hle, hget, hmax⟩
    refine ⟨⟨h.mem_keys_of_get hget, hle⟩, hget, fun other hother hcontains => ?_⟩
    exact hmax other (mem_epochs_iff.mp hother).2 (h.get_ne_none_iff.mpr hcontains)

theorem Indexed.getLatest_eq_some_iff (h : this.Indexed) {maxEpoch : Int} {state : State} :
    this.getLatest rootHex maxEpoch = some state ↔
      ∃ epoch, this.IsLatestEpoch rootHex maxEpoch epoch ∧ this.get rootHex epoch = some state := by
  unfold getLatest
  simp only [Option.bind_eq_some_iff, h.find?_eq_some_iff]

theorem Indexed.getLatest_eq_none_iff (h : this.Indexed) {maxEpoch : Int} :
    this.getLatest rootHex maxEpoch = none ↔
      ∀ epoch : Nat, epoch ≤ maxEpoch → this.get rootHex epoch = none := by
  constructor
  · intro hnone epoch hle
    by_contra hget
    -- the search stops at this epoch at the latest, and there is a state where it stops
    unfold getLatest at hnone
    have hfound := Option.bind_eq_none_iff.mp hnone
    have hfind := Option.eq_none_iff_forall_ne_some.mpr fun latest hlatest =>
      (h.find?_eq_some_iff.mp hlatest).2.1 (hfound latest hlatest)
    exact List.find?_eq_none.mp hfind epoch
      (mem_epochs_iff.mpr ⟨h.mem_keys_of_get hget, hle⟩) (h.get_ne_none_iff.mp hget)
  · intro hall
    by_contra hsome
    obtain ⟨state, hstate⟩ := Option.ne_none_iff_exists'.mp hsome
    obtain ⟨epoch, hlatest, -⟩ := h.getLatest_eq_some_iff.mp hstate
    exact hlatest.2.1 (hall epoch hlatest.1)

/-! ## Eviction -/

theorem keys_foldl_deleteAllEpochItems (epochs : List Nat) :
    epoch ∈ (epochs.foldl CheckpointStateCache.deleteAllEpochItems this).epochIndex.keys ↔
      epoch ∈ this.epochIndex.keys ∧ epoch ∉ epochs := by
  induction epochs generalizing this with
  | nil => simp
  | cons evicted epochs ih =>
    have hkeys : epoch ∈ (this.deleteAllEpochItems evicted).epochIndex.keys ↔
        epoch ∈ this.epochIndex.keys ∧ epoch ≠ evicted := by
      rw [OrderedMap.mem_keys_iff, OrderedMap.mem_keys_iff]
      show (this.epochIndex.delete evicted).get epoch ≠ none ↔ _
      rw [OrderedMap.get_delete]
      by_cases heq : epoch = evicted <;> simp [heq]
    rw [List.foldl_cons, ih, hkeys, List.mem_cons, not_or, and_assoc]

/-- The epochs that `prune` deletes. -/
def evicted (this : CheckpointStateCache State) (finalizedEpoch justifiedEpoch : Nat) : List Nat :=
  let epochs := this.prunableEpochs finalizedEpoch justifiedEpoch
  epochs.take (epochs.length - MAX_EPOCHS)

theorem prune_eq : this.prune finalizedEpoch justifiedEpoch =
    (this.evicted finalizedEpoch justifiedEpoch).foldl
      CheckpointStateCache.deleteAllEpochItems this := by
  unfold CheckpointStateCache.prune evicted
  dsimp only
  split_ifs with hlen
  · rfl
  · rw [Nat.sub_eq_zero_of_le (Nat.le_of_not_lt hlen)]
    rfl

theorem mem_keys_prune : epoch ∈ (this.prune finalizedEpoch justifiedEpoch).epochIndex.keys ↔
    epoch ∈ this.epochIndex.keys ∧ epoch ∉ this.evicted finalizedEpoch justifiedEpoch := by
  rw [prune_eq, keys_foldl_deleteAllEpochItems]

/-- `prune` removes no epoch while it keeps an older one beside the two checkpoints. -/
def PrunesOldest (this : CheckpointStateCache State) (finalizedEpoch justifiedEpoch : Nat) : Prop :=
  ∀ removed ∈ this.epochIndex.keys,
    removed ∉ (this.prune finalizedEpoch justifiedEpoch).epochIndex.keys →
      ∀ kept ∈ (this.prune finalizedEpoch justifiedEpoch).epochIndex.keys,
        kept ≠ finalizedEpoch → kept ≠ justifiedEpoch → ¬ kept < removed

/-- Of the epochs that may be deleted, the last `MAX_EPOCHS` to come are newer than all others. -/
def LastAreNewest (this : CheckpointStateCache State) (finalizedEpoch justifiedEpoch : Nat) :
    Prop :=
  let epochs := this.prunableEpochs finalizedEpoch justifiedEpoch
  ∀ first ∈ epochs.take (epochs.length - MAX_EPOCHS),
    ∀ last ∈ epochs.drop (epochs.length - MAX_EPOCHS), first < last

theorem prunesOldest_iff : this.PrunesOldest finalizedEpoch justifiedEpoch ↔
    this.LastAreNewest finalizedEpoch justifiedEpoch := by
  set epochs := this.prunableEpochs finalizedEpoch justifiedEpoch with hepochs
  have hmem : ∀ epoch, epoch ∈ epochs ↔
      epoch ∈ this.epochIndex.keys ∧ epoch ≠ finalizedEpoch ∧ epoch ≠ justifiedEpoch := by
    intro epoch
    rw [hepochs, prunableEpochs, List.mem_filter, decide_eq_true_eq]
  have hsplit : ∀ epoch, epoch ∈ epochs ↔
      epoch ∈ this.evicted finalizedEpoch justifiedEpoch ∨
        epoch ∈ epochs.drop (epochs.length - MAX_EPOCHS) := by
    intro epoch
    rw [← List.mem_append]
    show _ ↔ epoch ∈ epochs.take _ ++ epochs.drop _
    rw [List.take_append_drop]
  have hnodup : epochs.Nodup := this.epochIndex.nodup.filter _
  have hdisjoint : ∀ epoch, epoch ∈ epochs.drop (epochs.length - MAX_EPOCHS) →
      epoch ∉ this.evicted finalizedEpoch justifiedEpoch := by
    intro epoch hdrop htake
    rw [← List.take_append_drop (epochs.length - MAX_EPOCHS) epochs] at hnodup
    exact List.disjoint_of_nodup_append hnodup htake hdrop
  constructor
  · intro h first hfirst last hlast
    have hfirst' := (hmem first).mp ((hsplit first).mpr (.inl hfirst))
    have hlast' := (hmem last).mp ((hsplit last).mpr (.inr hlast))
    have hnot := h first hfirst'.1 (fun hkept => (mem_keys_prune.mp hkept).2 hfirst) last
      (mem_keys_prune.mpr ⟨hlast'.1, hdisjoint last hlast⟩) hlast'.2.1 hlast'.2.2
    have hne : first ≠ last := by
      rintro rfl
      exact hdisjoint first hlast hfirst
    omega
  · intro h removed hremoved hnot kept hkept hfinalized hjustified
    obtain ⟨hkey, hnotEvicted⟩ := mem_keys_prune.mp hkept
    have hevicted : removed ∈ this.evicted finalizedEpoch justifiedEpoch := by
      by_contra hnotMem
      exact hnot (mem_keys_prune.mpr ⟨hremoved, hnotMem⟩)
    have hlast := ((hsplit kept).mp ((hmem kept).mpr ⟨hkey, hfinalized, hjustified⟩)).resolve_left
      hnotEvicted
    exact (h removed hevicted kept hlast).le.not_gt

/-- In every run, the index is that of the cache and the latest state is found; an old epoch that
comes late is what makes `prune` keep it in the place of a newer one. -/
theorem checkpointStates_of_reachable (hr : this.Reachable) :
    this.Indexed ∧
      (∀ (rootHex : RootHex) (maxEpoch : Int),
        (∀ state, this.getLatest rootHex maxEpoch = some state ↔
          ∃ epoch, this.IsLatestEpoch rootHex maxEpoch epoch ∧
            this.get rootHex epoch = some state) ∧
          (this.getLatest rootHex maxEpoch = none ↔
            ∀ epoch : Nat, epoch ≤ maxEpoch → this.get rootHex epoch = none)) ∧
      ∀ finalizedEpoch justifiedEpoch, this.PrunesOldest finalizedEpoch justifiedEpoch ↔
        this.LastAreNewest finalizedEpoch justifiedEpoch :=
  ⟨hr.indexed, fun _ _ => ⟨fun _ => hr.indexed.getLatest_eq_some_iff,
    hr.indexed.getLatest_eq_none_iff⟩, fun _ _ => prunesOldest_iff⟩

/-- The epochs from 2 to 11, and then epoch 1. -/
def lateEpoch : CheckpointStateCache Unit :=
  [2, 3, 4, 5, 6, 7, 8, 9, 10, 11, 1].foldl (fun this epoch => this.add ⟨epoch, 0xaa⟩ ()) clear

theorem lateEpoch_reachable : lateEpoch.Reachable := by
  refine List.foldlRecOn (motive := Reachable) _ _ .refl fun this h epoch _ => ?_
  exact .tail h (.add _ _)

theorem checkpointStates_of_reachable_lateEpoch :
    lateEpoch.Indexed ∧ (lateEpoch.PrunesOldest 2 3 ↔ lateEpoch.LastAreNewest 2 3) := by
  obtain ⟨hindexed, -, hprune⟩ := checkpointStates_of_reachable lateEpoch_reachable
  exact ⟨hindexed, hprune 2 3⟩

/-- Epoch 2 goes and epoch 1 stays. -/
theorem lateEpoch_not_prunesOldest :
    lateEpoch.Reachable ∧ ¬ lateEpoch.PrunesOldest 0 0 := by
  refine ⟨lateEpoch_reachable, fun h => ?_⟩
  exact h 2 (by decide) (by decide) 1 (by decide) (by decide) (by decide) (by decide)

end CheckpointStateCache

end Lodestar.Chain
