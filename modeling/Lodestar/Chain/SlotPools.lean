import Lodestar.Base.Except
import Lodestar.Base.ModifyAt
import Lodestar.Base.OrderedMap

/-!
# Pools with an entry for each slot

`chain/opPools/types.ts` and `utils.ts`, and what the pools that are pruned by
slot have in common. `pruneBySlot` counts the slots that are present, while the
additions that are refused depend on the clock. The two agree when the pool
`FitsWindow`.
-/

namespace Lodestar.Chain

open Lodestar.Base

/-! ## Results and errors -/

/-- Result of adding data to an operation pool of an aggregatable object. -/
inductive InsertOutcome where
  | newData
  | alreadyKnown
  | old
  | aggregated
  | notBetterThan
  deriving DecidableEq, Repr

/-- `OpPoolErrorType`, and the errors with a message only. -/
inductive PoolError where
  | slotTooLow (slot lowestPermissibleSlot : Nat)
  | reachedMaxPerSlot
  | error (message : String)
  deriving DecidableEq, Repr

/-! ## The map of slots -/

/-- The map by slot of a pool, and its `lowestPermissibleSlot`. -/
structure SlotPool (γ : Type) where
  bySlot : OrderedMap Nat γ
  lowestPermissibleSlot : Nat

variable {γ : Type}

/-- The slots that a prune removes: those after the `slotsRetained` greatest. -/
def slotsToDelete (slots : List Nat) (slotsRetained : Nat) : List Nat :=
  (slots.insertionSort (· ≥ ·)).drop slotsRetained

/-- `lowestPermissibleSlot`, and what is left of the map. -/
def pruneBySlot (map : OrderedMap Nat γ) (slot : Int) (slotsRetained : Nat) :
    Nat × OrderedMap Nat γ :=
  let lowestPermissibleSlot := (slot - slotsRetained).toNat
  if map.size ≤ slotsRetained then (lowestPermissibleSlot, map)
  else
    (lowestPermissibleSlot, (slotsToDelete map.keys slotsRetained).foldl (·.delete ·) map)

namespace SlotPool

def new : SlotPool γ := ⟨.empty, 0⟩

/-- `prune` of the pools: each has its own number of slots. -/
def prune (slotsRetained : Nat) (this : SlotPool γ) (clockSlot : Int) : SlotPool γ where
  bySlot := (pruneBySlot this.bySlot clockSlot slotsRetained).2
  lowestPermissibleSlot := (clockSlot - slotsRetained).toNat

/-- `f` on the entry of a slot, which is made if there is none. -/
def update {α : Type} (this : SlotPool γ) (slot : Nat) (default : γ) (f : EStateM PoolError γ α) :
    EStateM.Result PoolError (SlotPool γ) α :=
  mapState (fun entry => { this with bySlot := this.bySlot.set slot entry })
    (f ((this.bySlot.get slot).getD default))

@[simp] theorem lowestPermissibleSlot_update {α : Type} (this : SlotPool γ) (slot : Nat)
    (default : γ) (f : EStateM PoolError γ α) :
    (stateOf (this.update slot default f)).lowestPermissibleSlot = this.lowestPermissibleSlot := by
  rw [update, stateOf_mapState]

/-- An `add` answers a slot below the bound without a change, and updates the entry of any other. -/
theorem lowestPermissibleSlot_add {α : Type} {old : Prop} [Decidable old] {this : SlotPool γ}
    {answer : EStateM.Result PoolError (SlotPool γ) α} (hanswer : stateOf answer = this)
    (slot : Nat) (default : γ) (f : EStateM PoolError γ α) :
    (stateOf (if old then answer else this.update slot default f)).lowestPermissibleSlot =
      this.lowestPermissibleSlot := by
  split
  · rw [hanswer]
  · exact lowestPermissibleSlot_update this slot default f

/-! ## The window -/

/-- The slot is not below the bound. -/
def isRecent (slotsRetained : Nat) (clockSlot : Int) (slot : Nat) : Bool :=
  decide (clockSlot - slotsRetained ≤ slot)

/-- After a prune: no slot below the bound is held, and the others are as before. -/
structure RetainsWindow (slotsRetained : Nat) (clockSlot : Int) (before after : SlotPool γ) :
    Prop where
  none_below : ∀ slot ∈ after.bySlot.keys, isRecent slotsRetained clockSlot slot = true
  others_kept : ∀ slot, isRecent slotsRetained clockSlot slot = true →
    after.bySlot.get slot = before.bySlot.get slot

/-- At most `slotsRetained` slots are not below the bound, and exactly that many if any slot is
below it. -/
def FitsWindow (slotsRetained : Nat) (clockSlot : Int) (this : SlotPool γ) : Prop :=
  let recent := this.bySlot.keys.filter (isRecent slotsRetained clockSlot)
  recent.length ≤ slotsRetained ∧
    ((∀ slot ∈ this.bySlot.keys, isRecent slotsRetained clockSlot slot = true) ∨
      recent.length = slotsRetained)

end SlotPool

section Slots

variable {slots : List Nat} {slotsRetained : Nat} {p : Nat → Bool}

theorem slots_perm (slots : List Nat) : (slots.insertionSort (· ≥ ·)).Perm slots :=
  List.perm_insertionSort _ _

theorem take_append_slotsToDelete (slots : List Nat) (slotsRetained : Nat) :
    (slots.insertionSort (· ≥ ·)).take slotsRetained ++ slotsToDelete slots slotsRetained =
      slots.insertionSort (· ≥ ·) :=
  List.take_append_drop _ _

/-- What is deleted is what `p` does not hold of just when `p` holds of as many as are retained. -/
theorem mem_slotsToDelete_iff (hnodup : slots.Nodup) (hlt : slotsRetained < slots.length)
    (hp : ∀ a b, b ≤ a → p b = true → p a = true) :
    (∀ slot ∈ slots, slot ∈ slotsToDelete slots slotsRetained ↔ p slot = false) ↔
      (slots.filter p).length = slotsRetained := by
  have hperm := slots_perm slots
  have hsplit := take_append_slotsToDelete slots slotsRetained
  set sorted := slots.insertionSort (· ≥ ·) with hsorted
  have hcount : (slots.filter p).length = (sorted.filter p).length :=
    (hperm.filter p).length_eq.symm
  have hdisjoint : (sorted.take slotsRetained ++ slotsToDelete slots slotsRetained).Nodup := by
    rw [hsplit]
    exact hperm.nodup_iff.2 hnodup
  constructor
  · intro h
    have htake : (sorted.take slotsRetained).filter p = sorted.take slotsRetained := by
      refine List.filter_eq_self.2 fun slot hslot => ?_
      have hmem := hperm.mem_iff.1 (List.mem_of_mem_take hslot)
      by_contra hfalse
      have hdelete := (h slot hmem).2 (Bool.eq_false_iff.2 hfalse)
      exact (List.disjoint_of_nodup_append hdisjoint) hslot hdelete
    have hdrop : (slotsToDelete slots slotsRetained).filter p = [] := by
      refine List.filter_eq_nil_iff.2 fun slot hslot => ?_
      have hmem := hperm.mem_iff.1 (List.mem_of_mem_drop hslot)
      exact Bool.eq_false_iff.1 ((h slot hmem).1 hslot)
    rw [hcount, ← hsplit, List.filter_append, htake, hdrop, List.append_nil, List.length_take,
      hperm.length_eq]
    omega
  · intro h slot hslot
    have hpairwise : sorted.Pairwise fun a b => decide (a ≥ b) = true :=
      (List.pairwise_insertionSort (· ≥ ·) slots).imp decide_eq_true
    have hrest := drop_eq_filter_not (p := p) hpairwise fun a _ b _ hab hb =>
      hp a b (of_decide_eq_true hab) hb
    rw [← hcount, h] at hrest
    show slot ∈ sorted.drop slotsRetained ↔ _
    rw [hrest, List.mem_filter, hperm.mem_iff]
    simp [hslot]

end Slots

/-! ## Prunes -/

namespace SlotPool

variable {slotsRetained : Nat} {this : SlotPool γ} {clockSlot : Int} {slot : Nat}

theorem prune_of_le (h : this.bySlot.size ≤ slotsRetained) :
    (this.prune slotsRetained clockSlot).bySlot = this.bySlot := by
  unfold prune pruneBySlot
  rw [if_pos h]

theorem get_prune (h : slotsRetained < this.bySlot.size) :
    (this.prune slotsRetained clockSlot).bySlot.get slot =
      if slot ∈ slotsToDelete this.bySlot.keys slotsRetained then none
      else this.bySlot.get slot := by
  unfold prune pruneBySlot
  rw [if_neg (Nat.not_le.2 h)]
  split
  · next hmem => exact OrderedMap.get_foldl_delete_of_mem hmem
  · next hmem => exact OrderedMap.get_foldl_delete_of_notMem hmem

theorem mem_keys_iff {map : OrderedMap Nat γ} : slot ∈ map.keys ↔ (map.get slot).isSome = true := by
  rw [OrderedMap.mem_keys_iff, Option.isSome_iff_ne_none]

theorem get_prune_eq_or :
    (this.prune slotsRetained clockSlot).bySlot.get slot = this.bySlot.get slot ∨
      (this.prune slotsRetained clockSlot).bySlot.get slot = none := by
  rcases Nat.lt_or_ge slotsRetained this.bySlot.size with hlt | hge
  · rw [get_prune hlt]
    split
    · exact .inr rfl
    · exact .inl rfl
  · rw [prune_of_le hge]
    exact .inl rfl

theorem retainsWindow_iff_delete (h : slotsRetained < this.bySlot.size) :
    RetainsWindow slotsRetained clockSlot this (this.prune slotsRetained clockSlot) ↔
      ∀ slot ∈ this.bySlot.keys, slot ∈ slotsToDelete this.bySlot.keys slotsRetained ↔
        isRecent slotsRetained clockSlot slot = false := by
  constructor
  · rintro ⟨hbelow, hkept⟩ slot hslot
    rw [← Bool.not_eq_true]
    constructor
    · intro hdelete hrecent
      have heq := hkept slot hrecent
      rw [get_prune h, if_pos hdelete] at heq
      exact OrderedMap.get_eq_none_iff.1 heq.symm hslot
    · intro hold
      by_contra hdelete
      refine hold (hbelow slot (mem_keys_iff.2 ?_))
      rw [get_prune h, if_neg hdelete]
      exact mem_keys_iff.1 hslot
  · intro hdelete
    constructor
    · intro slot hslot
      have hsome := mem_keys_iff.1 hslot
      rw [get_prune h] at hsome
      split at hsome
      · cases hsome
      · next hkeep =>
        have hnot := mt (hdelete slot (mem_keys_iff.2 hsome)).2 hkeep
        rwa [Bool.not_eq_false] at hnot
    · intro slot hrecent
      rw [get_prune h]
      refine if_neg fun hmem => ?_
      have hkey := (slots_perm _).mem_iff.1 (List.mem_of_mem_drop hmem)
      have hold := (hdelete slot hkey).1 hmem
      rw [hrecent] at hold
      cases hold

theorem isRecent_of_le {a b : Nat} (h : b ≤ a) (hb : isRecent slotsRetained clockSlot b = true) :
    isRecent slotsRetained clockSlot a = true := by
  simp only [isRecent, decide_eq_true_eq] at *
  omega

theorem retainsWindow_prune_iff :
    RetainsWindow slotsRetained clockSlot this (this.prune slotsRetained clockSlot) ↔
      FitsWindow slotsRetained clockSlot this := by
  have hsize : this.bySlot.size = this.bySlot.keys.length := by
    simp [OrderedMap.size, OrderedMap.keys]
  have hnodup : this.bySlot.keys.Nodup := this.bySlot.nodup
  have hle := List.length_filter_le (isRecent slotsRetained clockSlot) this.bySlot.keys
  have hall : (∀ slot ∈ this.bySlot.keys, isRecent slotsRetained clockSlot slot = true) ↔
      (this.bySlot.keys.filter (isRecent slotsRetained clockSlot)).length =
        this.bySlot.keys.length :=
    List.length_filter_eq_length_iff.symm
  unfold FitsWindow
  rcases Nat.lt_or_ge slotsRetained this.bySlot.size with hlt | hge
  · rw [retainsWindow_iff_delete hlt,
      mem_slotsToDelete_iff (p := isRecent slotsRetained clockSlot) hnodup (hsize ▸ hlt)
        fun a b => isRecent_of_le]
    show _ ↔ _ ∧ (_ ∨ _)
    rw [hall]
    omega
  · constructor
    · intro h
      have hbelow := h.none_below
      rw [prune_of_le hge] at hbelow
      exact ⟨by omega, .inl hbelow⟩
    · rintro ⟨-, hbelow⟩
      have hbelow : ∀ slot ∈ this.bySlot.keys, isRecent slotsRetained clockSlot slot = true := by
        refine hbelow.elim id fun hcount => hall.2 ?_
        omega
      refine ⟨?_, fun slot _ => by rw [prune_of_le hge]⟩
      rw [prune_of_le hge]
      exact hbelow

/-! ## Runs -/

/-- Additions, which `Adds` describes, and prunes whose slots do not go back; with the slots of the
prunes, the last one first. -/
inductive Run (slotsRetained : Nat) (Adds : SlotPool γ → SlotPool γ → Prop) :
    List Int → SlotPool γ → Prop
  | new : Run slotsRetained Adds [] new
  | add {pruned : List Int} {this after : SlotPool γ} : Run slotsRetained Adds pruned this →
    Adds this after → Run slotsRetained Adds pruned after
  | prune {pruned : List Int} {this : SlotPool γ} {clockSlot : Int} :
    Run slotsRetained Adds pruned this → (∀ earlier ∈ pruned, earlier ≤ clockSlot) →
    Run slotsRetained Adds (clockSlot :: pruned) (this.prune slotsRetained clockSlot)

variable {Adds : SlotPool γ → SlotPool γ → Prop} {pruned : List Int}

theorem Run.lt_lowestPermissibleSlot (h : Run slotsRetained Adds pruned this)
    (hadds : ∀ {a b}, Adds a b → b.lowestPermissibleSlot = a.lowestPermissibleSlot)
    (hclock : clockSlot ∈ pruned) (hslot : isRecent slotsRetained clockSlot slot = false) :
    slot < this.lowestPermissibleSlot := by
  induction h with
  | new => cases hclock
  | add _ hadd ih => exact (hadds hadd) ▸ ih hclock
  | @prune pruned this now _ hle _ =>
    have hearlier : clockSlot ≤ now := by
      rcases List.mem_cons.1 hclock with rfl | hmem
      · exact le_rfl
      · exact hle _ hmem
    have hbelow := of_decide_eq_false hslot
    show slot < (now - slotsRetained).toNat
    omega

end SlotPool

end Lodestar.Chain
