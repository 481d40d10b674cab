import Lodestar.Base.ModifyAt
import Lodestar.Base.OrderedMap
import Lodestar.Types
import Mathlib.Data.List.TakeWhile
import Mathlib.Tactic

/-!
# Attestations that wait for their block

`ReprocessController` of `chain/reprocess.ts`. Promises are numbered in the order
they are made, and every call of `waitForBlockOfAttestation` is kept with the
promise it returned.
-/

namespace Lodestar.Chain

open Lodestar.Base

def MAXIMUM_QUEUED_ATTESTATIONS : Nat := 16384

/-- `resolve` and `promise` are of the promise with this number. -/
structure AwaitingAttestationPromise where
  promise : Nat
  awaitingAttestationsCount : Nat
  deriving DecidableEq

/-- A promise with the block it is about; `settled` is what it was resolved to. -/
structure BlockPromise where
  slot : Nat
  root : RootHex
  settled : Option Bool
  deriving DecidableEq

/-- `ReprocessController`, the promises made so far and those that the attestations wait for. -/
structure ReprocessController where
  awaitingPromisesByRootBySlot : OrderedMap Nat (OrderedMap RootHex AwaitingAttestationPromise)
  awaitingPromisesCount : Int
  promises : List BlockPromise
  waits : List Nat

/-- `resolve`, which does nothing the second time. -/
def settle (promises : List BlockPromise) (id : Nat) (found : Bool) : List BlockPromise :=
  promises.modify id fun promise =>
    { promise with settled := promise.settled.or (some found) }

namespace ReprocessController

def empty : ReprocessController := ⟨.empty, 0, [], []⟩

/-- The promise that is returned is the last of `waits`. -/
def waitForBlockOfAttestation (this : ReprocessController) (slot : Nat) (root : RootHex) :
    ReprocessController :=
  if this.awaitingPromisesCount ≥ MAXIMUM_QUEUED_ATTESTATIONS then
    -- `Promise.resolve(false)`
    { this with
      promises := this.promises ++ [⟨slot, root, some false⟩]
      waits := this.waits ++ [this.promises.length] }
  else
    let awaitingPromisesCount := this.awaitingPromisesCount + 1
    let awaitingPromisesByRoot := (this.awaitingPromisesByRootBySlot.get slot).getD .empty
    match awaitingPromisesByRoot.get root with
    | some promiseCached =>
      { this with
        awaitingPromisesCount
        awaitingPromisesByRootBySlot := this.awaitingPromisesByRootBySlot.set slot <|
          awaitingPromisesByRoot.set root
            { promiseCached with
              awaitingAttestationsCount := promiseCached.awaitingAttestationsCount + 1 }
        waits := this.waits ++ [promiseCached.promise] }
    | none =>
      { this with
        awaitingPromisesCount
        awaitingPromisesByRootBySlot := this.awaitingPromisesByRootBySlot.set slot <|
          awaitingPromisesByRoot.set root ⟨this.promises.length, 1⟩
        promises := this.promises ++ [⟨slot, root, none⟩]
        waits := this.waits ++ [this.promises.length] }

def onBlockImported (this : ReprocessController) (blockSlot : Nat) (root : RootHex)
    (advancedSlot : Nat) : ReprocessController :=
  if blockSlot < advancedSlot then this
  else
    let awaitingPromisesBySlot := (this.awaitingPromisesByRootBySlot.get blockSlot).getD .empty
    let this :=
      match awaitingPromisesBySlot.get root with
      | some awaitingPromise =>
        { this with
          promises := settle this.promises awaitingPromise.promise true
          awaitingPromisesCount :=
            this.awaitingPromisesCount - awaitingPromise.awaitingAttestationsCount }
      | none => this
    -- the entry of the slot stays, or is there from now on
    { this with
      awaitingPromisesByRootBySlot :=
        this.awaitingPromisesByRootBySlot.set blockSlot (awaitingPromisesBySlot.delete root) }

/-- The loop of `onSlot`. -/
def expire (clockSlot : Nat) :
    List (Nat × OrderedMap RootHex AwaitingAttestationPromise) → ReprocessController →
      ReprocessController
  | [], this => this
  | (key, awaitingPromisesByRoot) :: entries, this =>
    if key < clockSlot then
      expire clockSlot entries
        { this with
          promises := awaitingPromisesByRoot.values.foldl
            (fun promises awaitingPromise => settle promises awaitingPromise.promise false)
            this.promises
          awaitingPromisesByRootBySlot := this.awaitingPromisesByRootBySlot.delete key }
    else this

def onSlot (this : ReprocessController) (clockSlot : Nat) : ReprocessController :=
  { expire clockSlot this.awaitingPromisesByRootBySlot.entries this with
    awaitingPromisesCount := 0 }

end ReprocessController

/-! ## Runs -/

inductive ReprocessEvent where
  | waitForBlockOfAttestation (slot : Nat) (root : RootHex)
  | onBlockImported (slot : Nat) (root : RootHex) (advancedSlot : Nat)
  | onSlot (clockSlot : Nat)
  deriving DecidableEq

namespace ReprocessController

def step (this : ReprocessController) : ReprocessEvent → ReprocessController
  | .waitForBlockOfAttestation slot root => this.waitForBlockOfAttestation slot root
  | .onBlockImported slot root advancedSlot => this.onBlockImported slot root advancedSlot
  | .onSlot clockSlot => this.onSlot clockSlot

def run (events : List ReprocessEvent) : ReprocessController := events.foldl step empty

theorem run_snoc (events : List ReprocessEvent) (event : ReprocessEvent) :
    run (events ++ [event]) = (run events).step event := by
  rw [run, List.foldl_concat]
  rfl

/-- Whether a promise is not resolved yet. -/
def isPending (promises : List BlockPromise) (id : Nat) : Bool :=
  promises[id]?.any (·.settled.isNone)

/-- The attestations whose promise is not resolved. -/
def waiting (this : ReprocessController) : Nat := this.waits.countP (isPending this.promises)

end ReprocessController

/-- What is wanted after some events. -/
structure ReleasedInTime (events : List ReprocessEvent) : Prop where
  count : (ReprocessController.run events).awaitingPromisesCount
    = (ReprocessController.run events).waiting
  limit : (ReprocessController.run events).waiting ≤ MAXIMUM_QUEUED_ATTESTATIONS
  expired : ∀ (earlier : List ReprocessEvent) (clockSlot : Nat),
    events = earlier ++ [.onSlot clockSlot] →
      ∀ promise ∈ (ReprocessController.run events).promises,
        promise.slot < clockSlot → promise.settled ≠ none
  /-- Its block was imported while it was waited for. -/
  found : ∀ (id : Nat) (promise : BlockPromise),
    (ReprocessController.run events).promises[id]? = some promise →
      promise.settled = some true → ∃ earlier advancedSlot later,
        events = earlier ++ .onBlockImported promise.slot promise.root advancedSlot :: later ∧
          (ReprocessController.run earlier).promises[id]? = some { promise with settled := none }

/-- What `onSlot` relies on: no attestation waits for a slot that is not over, and where there is
an entry of such a slot, attestations wait at no older slot behind it. -/
structure ReprocessController.OnlyOldWait (this : ReprocessController) (clockSlot : Nat) :
    Prop where
  old : ∀ promise ∈ this.promises, promise.settled = none → promise.slot < clockSlot
  order : this.awaitingPromisesByRootBySlot.entries.Pairwise fun entry later =>
    clockSlot ≤ entry.1 → later.1 < clockSlot → later.2.values = []

/-! ## Promises -/

theorem getElem?_settle (promises : List BlockPromise) (id i : Nat) (found : Bool) :
    (settle promises id found)[i]? =
      if id = i then promises[i]?.map fun promise =>
        { promise with settled := promise.settled.or (some found) }
      else promises[i]? :=
  getElem?_modify_eq _ promises id i

namespace ReprocessController

theorem isPending_iff {promises : List BlockPromise} {id : Nat} :
    isPending promises id = true ↔ ∃ slot root, promises[id]? = some ⟨slot, root, none⟩ := by
  unfold isPending
  cases promises[id]? with
  | none => simp
  | some promise =>
    obtain ⟨slot, root, settled⟩ := promise
    cases settled <;> simp

theorem isPending_settle (promises : List BlockPromise) (id i : Nat) (found : Bool) :
    isPending (settle promises id found) i = (isPending promises i && i != id) := by
  unfold isPending
  rw [getElem?_settle]
  by_cases h : id = i
  · subst h
    rw [if_pos rfl, bne_self_eq_false, Bool.and_false]
    cases promises[id]? with
    | none => rfl
    | some promise => cases hsettled : promise.settled <;> simp [hsettled]
  · rw [if_neg h, bne_iff_ne.mpr (Ne.symm h), Bool.and_true]

theorem isPending_concat (promises : List BlockPromise) (promise : BlockPromise) {i : Nat}
    (h : i ≠ promises.length) : isPending (promises ++ [promise]) i = isPending promises i := by
  unfold isPending
  rcases Nat.lt_or_gt_of_ne h with hlt | hgt
  · rw [List.getElem?_append_left hlt]
  · rw [List.getElem?_eq_none (by simp; omega), List.getElem?_eq_none (by omega)]

theorem isPending_length (promises : List BlockPromise) (promise : BlockPromise) :
    isPending (promises ++ [promise]) promises.length = promise.settled.isNone := by
  simp [isPending]

theorem countP_and_ne (waits : List Nat) (pending : Nat → Bool) {id : Nat} (h : pending id = true) :
    waits.countP pending = waits.countP (fun i => pending i && i != id) + waits.count id := by
  induction waits with
  | nil => rfl
  | cons i waits ih =>
    rw [List.countP_cons, List.countP_cons, List.count_cons, ih]
    by_cases hi : i = id
    · subst hi
      simp [h]
      omega
    · simp [hi]
      omega

/-- The entry of a block. -/
def lookup (this : ReprocessController) (slot : Nat) (root : RootHex) :
    Option AwaitingAttestationPromise :=
  (this.awaitingPromisesByRootBySlot.get slot).bind (·.get root)

/-- The entries are of the promises that are not resolved, each with the number of attestations
that wait for it. -/
structure Inv (this : ReprocessController) : Prop where
  pending_of_lookup : ∀ {slot : Nat} {root : RootHex} {awaiting : AwaitingAttestationPromise},
    this.lookup slot root = some awaiting →
      this.promises[awaiting.promise]? = some ⟨slot, root, none⟩ ∧
        awaiting.awaitingAttestationsCount = this.waits.count awaiting.promise
  lookup_of_pending : ∀ {id slot : Nat} {root : RootHex},
    this.promises[id]? = some ⟨slot, root, none⟩ →
      id ∈ this.waits ∧ ∃ awaiting, this.lookup slot root = some awaiting ∧ awaiting.promise = id
  known : ∀ id ∈ this.waits, id < this.promises.length
  count : this.awaitingPromisesCount = this.waiting
  limit : this.waiting ≤ MAXIMUM_QUEUED_ATTESTATIONS

theorem inv_empty : Inv empty where
  pending_of_lookup h := by cases h
  lookup_of_pending h := by cases h
  known _ h := by cases h
  count := rfl
  limit := Nat.zero_le _

theorem get_set_bySlot (map : OrderedMap Nat (OrderedMap RootHex AwaitingAttestationPromise))
    (slot slot' : Nat) (root' : RootHex) (byRoot : OrderedMap RootHex AwaitingAttestationPromise) :
    ((map.set slot byRoot).get slot').bind (·.get root')
      = if slot' = slot then byRoot.get root' else (map.get slot').bind (·.get root') := by
  rw [OrderedMap.get_set]
  split_ifs <;> rfl

theorem lookup_set (map : OrderedMap Nat (OrderedMap RootHex AwaitingAttestationPromise))
    (slot slot' : Nat) (root root' : RootHex) (awaiting : AwaitingAttestationPromise) :
    ((map.set slot (((map.get slot).getD .empty).set root awaiting)).get slot').bind (·.get root')
      = if slot' = slot ∧ root' = root then some awaiting
        else (map.get slot').bind (·.get root') := by
  rw [get_set_bySlot, OrderedMap.get_set, OrderedMap.get_getD_empty]
  by_cases hslot : slot' = slot
  · subst hslot
    by_cases hroot : root' = root <;> simp [hroot]
  · simp [hslot]

theorem lookup_delete (map : OrderedMap Nat (OrderedMap RootHex AwaitingAttestationPromise))
    (slot slot' : Nat) (root root' : RootHex) :
    ((map.set slot (((map.get slot).getD .empty).delete root)).get slot').bind (·.get root')
      = if slot' = slot ∧ root' = root then none else (map.get slot').bind (·.get root') := by
  rw [get_set_bySlot, OrderedMap.get_delete, OrderedMap.get_getD_empty]
  by_cases hslot : slot' = slot
  · subst hslot
    by_cases hroot : root' = root <;> simp [hroot]
  · simp [hslot]

/-! ## One step -/

section

variable {this : ReprocessController}

theorem Inv.lt_length (h : Inv this) {slot : Nat} {root : RootHex}
    {awaiting : AwaitingAttestationPromise} (hlookup : this.lookup slot root = some awaiting) :
    awaiting.promise < this.promises.length :=
  (List.getElem?_eq_some_iff.mp (h.pending_of_lookup hlookup).1).1

theorem Inv.promise_inj (h : Inv this) {slot slot' : Nat} {root root' : RootHex}
    {awaiting awaiting' : AwaitingAttestationPromise}
    (hlookup : this.lookup slot root = some awaiting)
    (hlookup' : this.lookup slot' root' = some awaiting')
    (heq : awaiting.promise = awaiting'.promise) : slot = slot' ∧ root = root' := by
  have hpending := (h.pending_of_lookup hlookup).1
  rw [heq, (h.pending_of_lookup hlookup').1, Option.some.injEq, BlockPromise.mk.injEq] at hpending
  exact ⟨hpending.1.symm, hpending.2.1.symm⟩

theorem Inv.waiting_concat (h : Inv this) (promise : BlockPromise) :
    (this.waits ++ [this.promises.length]).countP (isPending (this.promises ++ [promise]))
      = this.waiting + if promise.settled = none then 1 else 0 := by
  have hold : this.waits.countP (isPending (this.promises ++ [promise])) = this.waiting :=
    List.countP_congr fun i hi => by rw [isPending_concat _ _ (h.known i hi).ne]
  rw [List.countP_append, hold, List.countP_singleton, isPending_length]
  cases promise.settled <;> rfl

theorem known_concat (h : Inv this) {promises : List BlockPromise} {id : Nat}
    (hlength : this.promises.length ≤ promises.length) (hid : id < promises.length) :
    ∀ i ∈ this.waits ++ [id], i < promises.length := by
  intro i hi
  rcases List.mem_append.mp hi with hi | hi
  · exact (h.known i hi).trans_le hlength
  · rwa [List.mem_singleton.mp hi]

theorem Inv.waitForBlockOfAttestation (h : Inv this) (slot : Nat) (root : RootHex) :
    Inv (this.waitForBlockOfAttestation slot root) := by
  have hlimit := h.limit
  have hcount := h.count
  unfold ReprocessController.waitForBlockOfAttestation
  by_cases hfull : this.awaitingPromisesCount ≥ MAXIMUM_QUEUED_ATTESTATIONS
  · rw [if_pos hfull]
    have hwaiting := h.waiting_concat ⟨slot, root, some false⟩
    rw [if_neg nofun, Nat.add_zero] at hwaiting
    refine ⟨fun {slot' root' awaiting} hlookup => ?_, fun {id slot' root'} hpending => ?_,
      known_concat h (by simp) (by simp), ?_, ?_⟩
    · obtain ⟨hpending, hcount⟩ := h.pending_of_lookup hlookup
      have hlt := h.lt_length hlookup
      refine ⟨(List.getElem?_append_left hlt).trans hpending, ?_⟩
      rw [hcount, List.count_append, List.count_singleton]
      simp [hlt.ne']
    · rw [List.getElem?_append] at hpending
      split_ifs at hpending with hlt
      · obtain ⟨hmem, hlookup⟩ := h.lookup_of_pending hpending
        exact ⟨List.mem_append_left _ hmem, hlookup⟩
      · rw [List.getElem?_singleton] at hpending
        split_ifs at hpending
        cases hpending
    · exact hcount.trans (congrArg Nat.cast hwaiting.symm)
    · exact hwaiting.trans_le hlimit
  · rw [if_neg hfull]
    dsimp only
    rw [OrderedMap.get_getD_empty]
    change Inv (match this.lookup slot root with | some _ => _ | none => _)
    cases hcached : this.lookup slot root with
    | some promiseCached =>
      have hpromise := h.pending_of_lookup hcached
      have hlt := h.lt_length hcached
      have hwaiting : (this.waits ++ [promiseCached.promise]).countP (isPending this.promises)
          = this.waiting + 1 := by
        rw [List.countP_append, List.countP_singleton, if_pos (isPending_iff.mpr ⟨_, _, hpromise.1⟩)]
        rfl
      refine ⟨fun {slot' root' awaiting} hlookup => ?_, fun {id slot' root'} hpending => ?_,
        known_concat h le_rfl hlt, ?_, ?_⟩
      · rw [lookup, lookup_set] at hlookup
        split_ifs at hlookup with hsame
        · obtain rfl := Option.some.inj hlookup
          obtain ⟨rfl, rfl⟩ := hsame
          exact ⟨hpromise.1, by simp [hpromise.2]⟩
        · obtain ⟨hpending, hcount⟩ := h.pending_of_lookup hlookup
          have hne : promiseCached.promise ≠ awaiting.promise := fun heq =>
            hsame (h.promise_inj hlookup hcached heq.symm)
          refine ⟨hpending, ?_⟩
          rw [hcount, List.count_append, List.count_singleton]
          simp [hne]
      · obtain ⟨hmem, awaiting, hlookup, rfl⟩ := h.lookup_of_pending hpending
        refine ⟨List.mem_append_left _ hmem, ?_⟩
        rw [lookup, lookup_set]
        by_cases hsame : slot' = slot ∧ root' = root
        · obtain ⟨rfl, rfl⟩ := hsame
          rw [hcached, Option.some.injEq] at hlookup
          exact ⟨_, if_pos ⟨rfl, rfl⟩, by rw [← hlookup]⟩
        · exact ⟨awaiting, (if_neg hsame).trans hlookup, rfl⟩
      · refine Eq.trans ?_ (congrArg Nat.cast hwaiting.symm)
        push_cast
        omega
      · exact hwaiting.trans_le (by omega)
    | none =>
      have hwaiting := h.waiting_concat ⟨slot, root, none⟩
      rw [if_pos rfl] at hwaiting
      refine ⟨fun {slot' root' awaiting} hlookup => ?_, fun {id slot' root'} hpending => ?_,
        known_concat h (by simp) (by simp), ?_, ?_⟩
      · rw [lookup, lookup_set] at hlookup
        split_ifs at hlookup with hsame
        · obtain rfl := Option.some.inj hlookup
          obtain ⟨rfl, rfl⟩ := hsame
          have hnew : this.waits.count this.promises.length = 0 :=
            List.count_eq_zero_of_not_mem fun hmem => (h.known _ hmem).false
          exact ⟨by simp, by simp [hnew]⟩
        · obtain ⟨hpending, hcount⟩ := h.pending_of_lookup hlookup
          have hlt := h.lt_length hlookup
          refine ⟨(List.getElem?_append_left hlt).trans hpending, ?_⟩
          rw [hcount, List.count_append, List.count_singleton]
          simp [hlt.ne']
      · rw [List.getElem?_append] at hpending
        split_ifs at hpending with hlt
        · obtain ⟨hmem, awaiting, hlookup, rfl⟩ := h.lookup_of_pending hpending
          refine ⟨List.mem_append_left _ hmem, awaiting, ?_, rfl⟩
          rw [lookup, lookup_set, if_neg, ← hlookup, lookup]
          rintro ⟨rfl, rfl⟩
          rw [hcached] at hlookup
          cases hlookup
        · rw [List.getElem?_singleton] at hpending
          split_ifs at hpending with hid
          simp only [Option.some.injEq, BlockPromise.mk.injEq, and_true] at hpending
          obtain ⟨rfl, rfl⟩ := hpending
          obtain rfl : id = this.promises.length := by omega
          refine ⟨by simp, ⟨this.promises.length, 1⟩, ?_, rfl⟩
          rw [lookup, lookup_set, if_pos ⟨rfl, rfl⟩]
      · refine Eq.trans ?_ (congrArg Nat.cast hwaiting.symm)
        push_cast
        omega
      · exact hwaiting.trans_le (by omega)

theorem onBlockImported_eq (this : ReprocessController) (slot : Nat) (root : RootHex)
    (advancedSlot : Nat) :
    this.onBlockImported slot root advancedSlot =
      if slot < advancedSlot then this
      else
        { this with
          awaitingPromisesByRootBySlot := this.awaitingPromisesByRootBySlot.set slot
            (((this.awaitingPromisesByRootBySlot.get slot).getD .empty).delete root)
          promises := (this.lookup slot root).elim this.promises (settle this.promises ·.promise true)
          awaitingPromisesCount := this.awaitingPromisesCount
            - ((this.lookup slot root).elim 0 (·.awaitingAttestationsCount) : Nat) } := by
  unfold ReprocessController.onBlockImported
  dsimp only
  rw [OrderedMap.get_getD_empty]
  unfold lookup
  cases (this.awaitingPromisesByRootBySlot.get slot).bind (·.get root) with
  | none => simp
  | some awaitingPromise => rfl

theorem Inv.onBlockImported (h : Inv this) (slot : Nat) (root : RootHex) (advancedSlot : Nat) :
    Inv (this.onBlockImported slot root advancedSlot) := by
  rw [onBlockImported_eq]
  split_ifs
  · exact h
  cases hfound : this.lookup slot root with
  | none =>
    have hlookup : ∀ slot' root', lookup { this with
        awaitingPromisesByRootBySlot := this.awaitingPromisesByRootBySlot.set slot
          (((this.awaitingPromisesByRootBySlot.get slot).getD .empty).delete root) } slot' root'
        = this.lookup slot' root' := by
      intro slot' root'
      rw [lookup, lookup_delete]
      split_ifs with hsame
      · rw [hsame.1, hsame.2, hfound]
      · rfl
    refine ⟨fun {slot' root' awaiting} h' => h.pending_of_lookup ((hlookup slot' root').symm.trans h'),
      fun {id slot' root'} h' => ?_, h.known, ?_, h.limit⟩
    · obtain ⟨hmem, awaiting, hget, hid⟩ := h.lookup_of_pending h'
      exact ⟨hmem, awaiting, (hlookup slot' root').trans hget, hid⟩
    · exact (Int.sub_zero _).trans h.count
  | some awaitingPromise =>
    obtain ⟨hpromise, hwaits⟩ := h.pending_of_lookup hfound
    have hsettled : isPending (settle this.promises awaitingPromise.promise true)
        = fun i => isPending this.promises i && i != awaitingPromise.promise :=
      funext fun i => isPending_settle ..
    have hwaiting : this.waiting
        = this.waits.countP (isPending (settle this.promises awaitingPromise.promise true))
          + awaitingPromise.awaitingAttestationsCount := by
      rw [hwaits, waiting, countP_and_ne _ _ (isPending_iff.mpr ⟨_, _, hpromise⟩), hsettled]
    have hlimit := h.limit
    have hcount := h.count
    refine ⟨fun {slot' root' awaiting} h' => ?_, fun {id slot' root'} h' => ?_, ?_, ?_, ?_⟩
    · rw [lookup, lookup_delete] at h'
      split_ifs at h' with hsame
      obtain ⟨hpending, hcount⟩ := h.pending_of_lookup h'
      have hne : awaitingPromise.promise ≠ awaiting.promise := fun heq =>
        hsame (h.promise_inj h' hfound heq.symm)
      exact ⟨(getElem?_settle ..).trans ((if_neg hne).trans hpending), hcount⟩
    · change (settle this.promises awaitingPromise.promise true)[id]? = _ at h'
      rw [getElem?_settle] at h'
      split_ifs at h' with hid
      · -- a promise that is resolved does not wait
        obtain ⟨promise, -, hmap⟩ := Option.map_eq_some_iff.mp h'
        have := congrArg BlockPromise.settled hmap
        cases hold : promise.settled <;> simp [hold] at this
      · obtain ⟨hmem, awaiting, hget, rfl⟩ := h.lookup_of_pending h'
        refine ⟨hmem, awaiting, ?_, rfl⟩
        rw [lookup, lookup_delete, if_neg]
        · exact hget
        · rintro ⟨rfl, rfl⟩
          rw [hfound, Option.some.injEq] at hget
          exact hid (congrArg _ hget)
    · intro id hid
      exact (h.known id hid).trans_eq (List.length_modify ..).symm
    · show this.awaitingPromisesCount - (awaitingPromise.awaitingAttestationsCount : Nat)
        = (this.waits.countP (isPending (settle this.promises awaitingPromise.promise true)) : Nat)
      omega
    · show this.waits.countP (isPending (settle this.promises awaitingPromise.promise true)) ≤ _
      omega

/-! ## The next slot -/

/-- The entries that the loop of `onSlot` reaches. -/
def expiredEntries (this : ReprocessController) (clockSlot : Nat) :
    List (Nat × OrderedMap RootHex AwaitingAttestationPromise) :=
  this.awaitingPromisesByRootBySlot.entries.takeWhile (·.1 < clockSlot)

/-- The promises they have. -/
def expiredPromises (this : ReprocessController) (clockSlot : Nat) : List Nat :=
  (this.expiredEntries clockSlot).flatMap fun entry => entry.2.values.map (·.promise)

theorem foldl_settle_append (promises : List BlockPromise) (ids : List Nat) (i : Nat) :
    (ids.foldl (fun promises id => settle promises id false) promises)[i]? =
      if i ∈ ids then promises[i]?.map fun promise =>
        { promise with settled := promise.settled.or (some false) }
      else promises[i]? := by
  induction ids generalizing promises with
  | nil => rfl
  | cons id ids ih =>
    rw [List.foldl_cons, ih, getElem?_settle]
    by_cases hid : id = i
    · subst hid
      rw [if_pos rfl, if_pos List.mem_cons_self]
      split_ifs
      · rw [Option.map_map]
        congr 1
        funext promise
        cases hsettled : promise.settled <;> simp [hsettled]
      · rfl
    · have hmem : i ∈ id :: ids ↔ i ∈ ids := by simp [Ne.symm hid]
      simp only [if_neg hid, hmem]

theorem expire_eq (clockSlot : Nat)
    (entries : List (Nat × OrderedMap RootHex AwaitingAttestationPromise))
    (this : ReprocessController) :
    expire clockSlot entries this =
      { this with
        promises := ((entries.takeWhile (·.1 < clockSlot)).flatMap fun entry =>
          entry.2.values.map (·.promise)).foldl
            (fun promises id => settle promises id false) this.promises
        awaitingPromisesByRootBySlot := ((entries.takeWhile (·.1 < clockSlot)).map (·.1)).foldl
          (·.delete ·) this.awaitingPromisesByRootBySlot } := by
  induction entries generalizing this with
  | nil => rfl
  | cons entry entries ih =>
    obtain ⟨key, awaitingPromisesByRoot⟩ := entry
    rw [expire, List.takeWhile_cons]
    by_cases hkey : key < clockSlot
    · rw [if_pos hkey, if_pos (decide_eq_true hkey), ih, List.flatMap_cons, List.foldl_append]
      simp only [List.foldl_map, List.map_cons, List.foldl_cons]
    · rw [if_neg hkey, if_neg (by simpa using hkey)]
      rfl

theorem getElem?_promises_onSlot (this : ReprocessController) (clockSlot i : Nat) :
    (this.onSlot clockSlot).promises[i]? =
      if i ∈ this.expiredPromises clockSlot then this.promises[i]?.map fun promise =>
        { promise with settled := promise.settled.or (some false) }
      else this.promises[i]? := by
  rw [onSlot, expire_eq]
  exact foldl_settle_append ..

theorem bySlot_onSlot (this : ReprocessController) (clockSlot : Nat) :
    (this.onSlot clockSlot).awaitingPromisesByRootBySlot
      = ((this.expiredEntries clockSlot).map (·.1)).foldl (·.delete ·)
          this.awaitingPromisesByRootBySlot := by
  rw [onSlot, expire_eq]
  rfl

theorem waits_onSlot (this : ReprocessController) (clockSlot : Nat) :
    (this.onSlot clockSlot).waits = this.waits := by
  rw [onSlot, expire_eq]

theorem length_promises_onSlot (this : ReprocessController) (clockSlot : Nat) :
    (this.onSlot clockSlot).promises.length = this.promises.length := by
  have hlength : ∀ (ids : List Nat) (promises : List BlockPromise),
      (ids.foldl (fun promises id => settle promises id false) promises).length
        = promises.length := by
    intro ids
    induction ids with
    | nil => exact fun _ => rfl
    | cons id ids ih => exact fun promises => (ih _).trans (List.length_modify ..)
  rw [onSlot, expire_eq]
  exact hlength ..

theorem lookup_of_mem {entry : Nat × OrderedMap RootHex AwaitingAttestationPromise}
    (hentry : entry ∈ this.awaitingPromisesByRootBySlot.entries)
    {awaiting : AwaitingAttestationPromise} (hmem : awaiting ∈ entry.2.values) :
    ∃ root, this.lookup entry.1 root = some awaiting := by
  obtain ⟨⟨root, _⟩, hroot, rfl⟩ := List.mem_map.mp hmem
  refine ⟨root, ?_⟩
  rw [lookup, OrderedMap.get_eq_some_iff.mpr hentry]
  exact OrderedMap.get_eq_some_iff.mpr hroot

theorem mem_of_lookup {slot : Nat} {root : RootHex} {awaiting : AwaitingAttestationPromise}
    (h : this.lookup slot root = some awaiting) :
    ∃ entry ∈ this.awaitingPromisesByRootBySlot.entries,
      entry.1 = slot ∧ awaiting ∈ entry.2.values := by
  obtain ⟨byRoot, hslot, hroot⟩ := Option.bind_eq_some_iff.mp h
  exact ⟨(slot, byRoot), OrderedMap.get_eq_some_iff.mp hslot, rfl,
    List.mem_map.mpr ⟨_, OrderedMap.get_eq_some_iff.mp hroot, rfl⟩⟩

theorem OnlyOldWait.mem_expiredEntries {clockSlot : Nat} (hold : this.OnlyOldWait clockSlot)
    (h : Inv this) {entry : Nat × OrderedMap RootHex AwaitingAttestationPromise}
    (hentry : entry ∈ this.awaitingPromisesByRootBySlot.entries)
    {awaiting : AwaitingAttestationPromise} (hmem : awaiting ∈ entry.2.values) :
    entry ∈ this.expiredEntries clockSlot := by
  obtain ⟨root, hlookup⟩ := lookup_of_mem hentry hmem
  have hslot : entry.1 < clockSlot :=
    hold.old _ (List.mem_of_getElem? (h.pending_of_lookup hlookup).1) rfl
  have horder := hold.order
  rw [← List.takeWhile_append_dropWhile (p := (·.1 < clockSlot))
    (l := this.awaitingPromisesByRootBySlot.entries)] at hentry horder
  refine (List.mem_append.mp hentry).resolve_right fun hdrop => ?_
  have horder := (List.pairwise_append.mp horder).2.1
  cases hrest : this.awaitingPromisesByRootBySlot.entries.dropWhile (·.1 < clockSlot) with
  | nil =>
    rw [hrest] at hdrop
    cases hdrop
  | cons first rest =>
    have hfirst : ¬ first.1 < clockSlot := by
      have hhead := List.head?_dropWhile_not (fun entry => decide (entry.1 < clockSlot))
        this.awaitingPromisesByRootBySlot.entries
      rw [hrest] at hhead
      simpa using hhead
    rw [hrest] at hdrop horder
    rcases List.mem_cons.mp hdrop with rfl | hlater
    · exact hfirst hslot
    · have := List.rel_of_pairwise_cons horder hlater (Nat.not_lt.mp hfirst) hslot
      rw [this] at hmem
      cases hmem

theorem mem_expiredPromises {clockSlot id : Nat} :
    id ∈ this.expiredPromises clockSlot ↔ ∃ entry ∈ this.expiredEntries clockSlot,
      ∃ awaiting ∈ entry.2.values, awaiting.promise = id := by
  simp only [expiredPromises, List.mem_flatMap, List.mem_map]

theorem slot_lt_of_mem_expiredEntries {clockSlot : Nat}
    {entry : Nat × OrderedMap RootHex AwaitingAttestationPromise}
    (h : entry ∈ this.expiredEntries clockSlot) :
    entry ∈ this.awaitingPromisesByRootBySlot.entries ∧ entry.1 < clockSlot :=
  ⟨(List.takeWhile_sublist _).subset h, by simpa using List.mem_takeWhile_imp h⟩

theorem Inv.slot_of_mem_expiredPromises (h : Inv this) {clockSlot id slot : Nat} {root : RootHex}
    (hpending : this.promises[id]? = some ⟨slot, root, none⟩)
    (hmem : id ∈ this.expiredPromises clockSlot) :
    slot < clockSlot ∧ ∃ entry ∈ this.expiredEntries clockSlot, entry.1 = slot := by
  obtain ⟨entry, hentry, awaiting, hawaiting, rfl⟩ := mem_expiredPromises.mp hmem
  obtain ⟨hin, hlt⟩ := slot_lt_of_mem_expiredEntries hentry
  obtain ⟨root', hlookup⟩ := lookup_of_mem hin hawaiting
  have hslot := (h.pending_of_lookup hlookup).1
  rw [hpending, Option.some.injEq, BlockPromise.mk.injEq] at hslot
  exact ⟨hslot.1 ▸ hlt, entry, hentry, hslot.1.symm⟩

theorem Inv.not_pending_onSlot (h : Inv this) {clockSlot : Nat}
    (hold : this.OnlyOldWait clockSlot) (id : Nat) :
    isPending (this.onSlot clockSlot).promises id = false := by
  rw [Bool.eq_false_iff]
  intro hpending
  obtain ⟨slot, root, hpending⟩ := isPending_iff.mp hpending
  rw [getElem?_promises_onSlot] at hpending
  split_ifs at hpending with hmem
  · obtain ⟨promise, -, hmap⟩ := Option.map_eq_some_iff.mp hpending
    have := congrArg BlockPromise.settled hmap
    cases hsettled : promise.settled <;> simp [hsettled] at this
  · obtain ⟨-, awaiting, hlookup, rfl⟩ := h.lookup_of_pending hpending
    obtain ⟨entry, hentry, -, hawaiting⟩ := mem_of_lookup hlookup
    exact hmem (mem_expiredPromises.mpr
      ⟨entry, hold.mem_expiredEntries h hentry hawaiting, awaiting, hawaiting, rfl⟩)

theorem waiting_onSlot (h : Inv this) {clockSlot : Nat} (hold : this.OnlyOldWait clockSlot) :
    (this.onSlot clockSlot).waiting = 0 :=
  List.countP_eq_zero.mpr fun id _ => by rw [h.not_pending_onSlot hold id]; decide

theorem Inv.onSlot (h : Inv this) {clockSlot : Nat} (hold : this.OnlyOldWait clockSlot) :
    Inv (this.onSlot clockSlot) where
  pending_of_lookup {slot root awaiting} hlookup := by
    -- an entry that is left is not reached, and those that wait all are
    exfalso
    obtain ⟨byRoot, hslot, hroot⟩ := Option.bind_eq_some_iff.mp hlookup
    rw [bySlot_onSlot] at hslot
    have hentry := OrderedMap.get_eq_some_iff.mp (OrderedMap.get_of_get_foldl_delete hslot)
    have hvalue : awaiting ∈ byRoot.values :=
      List.mem_map.mpr ⟨_, OrderedMap.get_eq_some_iff.mp hroot, rfl⟩
    have hmem := hold.mem_expiredEntries h hentry hvalue
    rw [OrderedMap.get_foldl_delete_of_mem (List.mem_map.mpr ⟨_, hmem, rfl⟩)] at hslot
    cases hslot
  lookup_of_pending {id slot root} hpending := by
    have := h.not_pending_onSlot hold id
    rw [isPending_iff.mpr ⟨slot, root, hpending⟩] at this
    cases this
  known id hid := by
    rw [waits_onSlot] at hid
    rw [length_promises_onSlot]
    exact h.known id hid
  count := by
    rw [waiting_onSlot h hold]
    rfl
  limit := by
    rw [waiting_onSlot h hold]
    exact Nat.zero_le _

/-- The count is right and nothing old waits after `onSlot` only if nothing but old attestations
waited before. -/
theorem Inv.onlyOldWait (h : Inv this) {clockSlot : Nat}
    (hcount : (this.onSlot clockSlot).awaitingPromisesCount = (this.onSlot clockSlot).waiting)
    (hexpired : ∀ promise ∈ (this.onSlot clockSlot).promises,
      promise.slot < clockSlot → promise.settled ≠ none) :
    this.OnlyOldWait clockSlot where
  old promise hmem hsettled := by
    obtain ⟨slot, root, settled⟩ := promise
    obtain rfl : settled = none := hsettled
    obtain ⟨id, hid⟩ := List.mem_iff_getElem?.mp hmem
    by_contra hslot
    have hnot : id ∉ this.expiredPromises clockSlot := fun hexp =>
      hslot (h.slot_of_mem_expiredPromises hid hexp).1
    have hafter : (this.onSlot clockSlot).promises[id]? = some ⟨slot, root, none⟩ := by
      rw [getElem?_promises_onSlot, if_neg hnot, hid]
    -- it is still waited for, but the count is zero
    have hzero : (this.onSlot clockSlot).waiting = 0 := Int.natCast_inj.mp hcount.symm
    have hnone := List.countP_eq_zero.mp hzero id
      (by rw [waits_onSlot]; exact (h.lookup_of_pending hid).1)
    exact hnone (isPending_iff.mpr ⟨slot, root, hafter⟩)
  order := by
    rw [← List.takeWhile_append_dropWhile (p := (·.1 < clockSlot))
      (l := this.awaitingPromisesByRootBySlot.entries)]
    have hreached : ∀ entry ∈ this.expiredEntries clockSlot, ¬ clockSlot ≤ entry.1 :=
      fun entry hentry => Nat.not_le.mpr (slot_lt_of_mem_expiredEntries hentry).2
    have hleft : ∀ later ∈ this.awaitingPromisesByRootBySlot.entries.dropWhile (·.1 < clockSlot),
        later.1 < clockSlot → later.2.values = [] := by
      intro later hlater hslot
      refine List.eq_nil_iff_forall_not_mem.mpr fun awaiting hawaiting => ?_
      have hentry := (List.dropWhile_sublist _).subset hlater
      obtain ⟨root, hlookup⟩ := lookup_of_mem hentry hawaiting
      obtain ⟨hpending, -⟩ := h.pending_of_lookup hlookup
      by_cases hmem : awaiting.promise ∈ this.expiredPromises clockSlot
      · -- no second entry of the slot
        obtain ⟨-, entry, hexp, heq⟩ := h.slot_of_mem_expiredPromises hpending hmem
        have hnodup := this.awaitingPromisesByRootBySlot.nodup
        rw [← List.takeWhile_append_dropWhile (p := (·.1 < clockSlot))
          (l := this.awaitingPromisesByRootBySlot.entries), List.map_append] at hnodup
        exact (List.nodup_append.mp hnodup).2.2 entry.1 (List.mem_map_of_mem hexp) later.1
          (List.mem_map_of_mem hlater) heq
      · have hafter : (this.onSlot clockSlot).promises[awaiting.promise]?
            = some ⟨later.1, root, none⟩ := by
          rw [getElem?_promises_onSlot, if_neg hmem, hpending]
        exact hexpired _ (List.mem_of_getElem? hafter) hslot rfl
    refine List.pairwise_append.mpr ⟨?_, ?_, fun entry hentry _ _ hle =>
      absurd hle (hreached entry hentry)⟩
    · exact List.pairwise_of_forall_mem_list fun entry hentry _ _ hle =>
        absurd hle (hreached entry hentry)
    · exact List.pairwise_of_forall_mem_list fun _ _ later hlater _ => hleft later hlater

/-! ## Every run -/

theorem Inv.found_of_step (h : Inv this) {event : ReprocessEvent} {id : Nat}
    {promise : BlockPromise} (hafter : (this.step event).promises[id]? = some promise)
    (hfound : promise.settled = some true) :
    this.promises[id]? = some promise ∨
      (∃ advancedSlot, event = .onBlockImported promise.slot promise.root advancedSlot) ∧
        this.promises[id]? = some { promise with settled := none } := by
  cases event with
  | waitForBlockOfAttestation slot root =>
    refine .inl ?_
    simp only [step, ReprocessController.waitForBlockOfAttestation] at hafter
    have hconcat : ∀ made : BlockPromise, made.settled ≠ some true →
        (this.promises ++ [made])[id]? = some promise → this.promises[id]? = some promise := by
      intro made hmade hget
      rw [List.getElem?_append] at hget
      split_ifs at hget with hlt
      · exact hget
      · rw [List.getElem?_singleton] at hget
        split_ifs at hget
        rw [Option.some.injEq] at hget
        exact absurd (hget ▸ hfound) hmade
    split_ifs at hafter
    · exact hconcat ⟨slot, root, some false⟩ (by simp) hafter
    · split at hafter
      · exact hafter
      · exact hconcat ⟨slot, root, none⟩ (by simp) hafter
  | onBlockImported slot root advancedSlot =>
    rw [step, onBlockImported_eq] at hafter
    split_ifs at hafter
    · exact .inl hafter
    cases hlookup : this.lookup slot root with
    | none =>
      rw [hlookup] at hafter
      exact .inl hafter
    | some awaiting =>
      rw [hlookup] at hafter
      change (settle this.promises awaiting.promise true)[id]? = _ at hafter
      rw [getElem?_settle] at hafter
      split_ifs at hafter with hid
      · obtain ⟨hpending, -⟩ := h.pending_of_lookup hlookup
        rw [← hid, hpending, Option.map_some, Option.some.injEq] at hafter
        subst hafter
        exact .inr ⟨⟨advancedSlot, rfl⟩, hid ▸ hpending⟩
      · exact .inl hafter
  | onSlot clockSlot =>
    refine .inl ?_
    rw [step, getElem?_promises_onSlot] at hafter
    split_ifs at hafter
    · -- one that was not resolved before is resolved with `false`
      obtain ⟨before, hbefore, rfl⟩ := Option.map_eq_some_iff.mp hafter
      obtain ⟨slot, root, settled⟩ := before
      cases settled with
      | none => cases hfound
      | some _ => exact hbefore
    · exact hafter

end

/-- Every `onSlot` of a run finds only old attestations waiting. -/
def OnSlotsMeet (events : List ReprocessEvent) : Prop :=
  ∀ (earlier : List ReprocessEvent) (clockSlot : Nat) (later : List ReprocessEvent),
    events = earlier ++ .onSlot clockSlot :: later → (run earlier).OnlyOldWait clockSlot

theorem OnSlotsMeet.earlier {earlier later : List ReprocessEvent}
    (h : OnSlotsMeet (earlier ++ later)) : OnSlotsMeet earlier := by
  rintro first clockSlot rest rfl
  exact h first clockSlot (rest ++ later) (by simp)

theorem inv_run {events : List ReprocessEvent} (h : OnSlotsMeet events) : Inv (run events) := by
  induction events using List.reverseRecOn with
  | nil => exact inv_empty
  | append_singleton events event ih =>
    have hinv := ih h.earlier
    rw [run_snoc]
    cases event with
    | waitForBlockOfAttestation slot root => exact hinv.waitForBlockOfAttestation slot root
    | onBlockImported slot root advancedSlot => exact hinv.onBlockImported slot root advancedSlot
    | onSlot clockSlot => exact hinv.onSlot (h events clockSlot [] rfl)

theorem found_of_run {events : List ReprocessEvent} (h : OnSlotsMeet events) {id : Nat}
    {promise : BlockPromise} (hget : (run events).promises[id]? = some promise)
    (hfound : promise.settled = some true) :
    ∃ earlier advancedSlot later,
      events = earlier ++ .onBlockImported promise.slot promise.root advancedSlot :: later ∧
        (run earlier).promises[id]? = some { promise with settled := none } := by
  induction events using List.reverseRecOn with
  | nil => cases hget
  | append_singleton events event ih =>
    rw [run_snoc] at hget
    rcases (inv_run h.earlier).found_of_step hget hfound with hbefore | ⟨⟨advancedSlot, rfl⟩, hbefore⟩
    · obtain ⟨earlier, advancedSlot, later, rfl, hpending⟩ := ih h.earlier hbefore
      exact ⟨earlier, advancedSlot, later ++ [event], by simp, hpending⟩
    · exact ⟨events, advancedSlot, [], rfl, hbefore⟩

theorem releasedInTime {events : List ReprocessEvent} (h : OnSlotsMeet events) :
    ReleasedInTime events where
  count := (inv_run h).count
  limit := (inv_run h).limit
  expired := by
    rintro earlier clockSlot rfl promise hmem hslot hsettled
    obtain ⟨id, hid⟩ := List.mem_iff_getElem?.mp hmem
    obtain ⟨slot, root, settled⟩ := promise
    obtain rfl : settled = none := hsettled
    rw [run_snoc] at hid
    have hnot := (inv_run h.earlier).not_pending_onSlot (h earlier clockSlot [] rfl) id
    exact Bool.false_ne_true (hnot.symm.trans (isPending_iff.mpr ⟨slot, root, hid⟩))
  found _ _ := found_of_run h

end ReprocessController

open ReprocessController

/-- The count is right, old attestations are released and no attestation is told of a block that was
not imported, all along a run, if and only if each `onSlot` of it finds only old ones waiting. -/
theorem releasedInTime_iff (events : List ReprocessEvent) :
    (∀ earlier later, events = earlier ++ later → ReleasedInTime earlier) ↔
      OnSlotsMeet events := by
  constructor
  · intro h
    induction events using List.reverseRecOn with
    | nil => exact fun earlier clockSlot later heq => by simp at heq
    | append_singleton events event ih =>
      have hmeet : OnSlotsMeet events := ih fun earlier later heq =>
        h earlier (later ++ [event]) (by rw [heq, List.append_assoc])
      intro earlier clockSlot later heq
      rcases List.eq_nil_or_concat' later with rfl | ⟨rest, last, rfl⟩
      · obtain ⟨rfl, hevent⟩ := List.append_inj' heq rfl
        obtain rfl := List.singleton_inj.mp hevent
        have hreleased := h (events ++ [.onSlot clockSlot]) [] (List.append_nil _).symm
        have hcount := hreleased.count
        have hexpired := hreleased.expired events clockSlot rfl
        rw [run_snoc] at hcount hexpired
        exact (inv_run hmeet).onlyOldWait hcount hexpired
      · refine hmeet earlier clockSlot rest ?_
        rw [← List.cons_append, ← List.append_assoc] at heq
        exact (List.append_inj' heq rfl).1
  · rintro h earlier later rfl
    exact releasedInTime h.earlier

/-- An attestation of slot 1 that arrives before the slot starts is not counted any more when it
does. -/
theorem earlyAttestation_not_releasedInTime :
    ¬ ReleasedInTime [.waitForBlockOfAttestation 1 0xaa, .onSlot 1] := by
  intro h
  have := h.count
  revert this
  decide

end Lodestar.Chain
