import Lodestar.Base.FirstFit
import Lodestar.Chain.OpPool
import Lodestar.StateTransition.Processable

/-!
# Operations packed into a block

The slashings and exits that `getSlashingsAndExits` chooses can be processed one
after the other on the state they are chosen for. Nothing bounds the number of
attester slashings: those of the pool that fit beside each other are all chosen.
-/

namespace Lodestar.Chain.OpPool

open Lodestar.Base Lodestar.StateTransition

section

variable [Preset]

/-- Every operation of the pool passed its checks on an earlier state of the chain. -/
structure Validated (bls : Signatures) (this : OpPool) (state : KeyedBeaconState) : Prop where
  proposerSlashings : ∀ proposerSlashing ∈ this.proposerSlashings.values,
    ValidatedBefore state fun earlier =>
      assertValidProposerSlashing bls earlier proposerSlashing true = .ok ()
  attesterSlashings : ∀ cached ∈ this.attesterSlashings.values,
    ValidatedBefore state fun earlier =>
      assertValidAttesterSlashing bls earlier cached.attesterSlashing true = .ok ()
  voluntaryExits : ∀ voluntaryExit ∈ this.voluntaryExits.values,
    ValidatedBefore state fun earlier =>
      isValidVoluntaryExit bls earlier voluntaryExit true = .ok true

/-- The operations chosen for `state` can be processed on it, and are as many as a block takes. -/
def Processable (bls : Signatures) (this : OpPool) (state : KeyedBeaconState)
    (verifySignatures : Bool) (fork : ForkName) : Prop :=
  ∃ attesterSlashings proposerSlashings voluntaryExits,
    this.getSlashingsAndExits bls state
        = .ok (attesterSlashings, proposerSlashings, voluntaryExits) ∧
      (∃ state', processSlashingsAndExits bls verifySignatures fork state attesterSlashings
        proposerSlashings voluntaryExits = .ok state') ∧
      proposerSlashings.length ≤ MAX_PROPOSER_SLASHINGS ∧
      attesterSlashings.length ≤ MAX_ATTESTER_SLASHINGS ∧
      voluntaryExits.length ≤ MAX_VOLUNTARY_EXITS

/-! ## Slashings that fit beside each other -/

/-- The first proposers of the pool that may be slashed, as many as a block takes. -/
def proposersToBeSlashed (this : OpPool) (state : KeyedBeaconState) : List Nat :=
  ((this.proposerSlashings.values.map (·.signedHeader1.message.proposerIndex)).filter
    (slashable state)).take MAX_PROPOSER_SLASHINGS

/-- A slashing with a validator to slash, and none of `proposers`. -/
def Usable (proposers : List Nat) (state : KeyedBeaconState) (cached : AttesterSlashingCached) :
    Prop :=
  (∀ i ∈ cached.intersectingIndices, i ∉ proposers) ∧
    ∃ i ∈ cached.intersectingIndices, slashable state i = true

/-- The first slashing slashes a validator of the second. -/
def Clash (state : KeyedBeaconState) (first second : AttesterSlashingCached) : Prop :=
  ∃ i ∈ second.intersectingIndices, i ∈ first.intersectingIndices ∧ slashable state i = true

instance (proposers : List Nat) (state : KeyedBeaconState) :
    DecidablePred (Usable proposers state) :=
  fun _ => inferInstanceAs (Decidable (_ ∧ _))

instance (state : KeyedBeaconState) : DecidableRel (Clash state) :=
  fun _ _ => inferInstanceAs (Decidable (∃ _, _))

/-- Of the attester slashings, in the order they came in, no more fit beside the proposers that
are slashed and beside each other than a block takes. -/
def FewSlashingsFit (this : OpPool) (state : KeyedBeaconState) : Prop :=
  ∀ places, IsFirstFit (Usable (this.proposersToBeSlashed state) state) (Clash state)
    this.attesterSlashings.values places → places.card ≤ MAX_ATTESTER_SLASHINGS

/-! ## A pool filled along a chain -/

/-- Operations are checked on the state of the head before they are inserted. -/
inductive Fills (bls : Signatures) : OpPool × KeyedBeaconState → OpPool × KeyedBeaconState → Prop
  | head (this : OpPool) (state state' : KeyedBeaconState) (h : Earlier state state') :
      Fills bls (this, state) (this, state')
  | proposerSlashing (this : OpPool) (state : KeyedBeaconState) (op : ProposerSlashing)
      (hcached : Cached state) (h : assertValidProposerSlashing bls state op true = .ok ()) :
      Fills bls (this, state) (this.insertProposerSlashing op, state)
  | attesterSlashing (this : OpPool) (state : KeyedBeaconState) (op : AttesterSlashing)
      (rootHash : RootHex) (hcached : Cached state)
      (h : assertValidAttesterSlashing bls state op true = .ok ()) :
      Fills bls (this, state) (this.insertAttesterSlashing op rootHash, state)
  | voluntaryExit (this : OpPool) (state : KeyedBeaconState) (op : SignedVoluntaryExit)
      (hcached : Cached state) (h : isValidVoluntaryExit bls state op true = .ok true) :
      Fills bls (this, state) (this.insertVoluntaryExit op, state)

variable {bls : Signatures} {this : OpPool} {state state' : KeyedBeaconState}

theorem Validated.empty : OpPool.empty.Validated bls state where
  proposerSlashings := by simp [OpPool.empty, OrderedMap.empty, OrderedMap.values]
  attesterSlashings := by simp [OpPool.empty, OrderedMap.empty, OrderedMap.values]
  voluntaryExits := by simp [OpPool.empty, OrderedMap.empty, OrderedMap.values]

theorem Validated.later (h : this.Validated bls state) (hstate : Earlier state state') :
    this.Validated bls state' where
  proposerSlashings op hop := (h.proposerSlashings op hop).later hstate
  attesterSlashings op hop := (h.attesterSlashings op hop).later hstate
  voluntaryExits op hop := (h.voluntaryExits op hop).later hstate

theorem Validated.step {s s' : OpPool × KeyedBeaconState} (h : s.1.Validated bls s.2)
    (hstep : Fills bls s s') : s'.1.Validated bls s'.2 := by
  cases hstep with
  | head this state state' hstate => exact h.later hstate
  | proposerSlashing this state op hcached hop =>
    refine { h with proposerSlashings := fun p hp => ?_ }
    rcases OrderedMap.mem_values_set hp with rfl | hp
    · exact ⟨state, hcached, .refl, hop⟩
    · exact h.proposerSlashings p hp
  | attesterSlashing this state op rootHash hcached hop =>
    refine { h with attesterSlashings := fun p hp => ?_ }
    rcases OrderedMap.mem_values_set hp with rfl | hp
    · exact ⟨state, hcached, .refl, hop⟩
    · exact h.attesterSlashings p hp
  | voluntaryExit this state op hcached hop =>
    refine { h with voluntaryExits := fun p hp => ?_ }
    rcases OrderedMap.mem_values_set hp with rfl | hp
    · exact ⟨state, hcached, .refl, hop⟩
    · exact h.voluntaryExits p hp

theorem Validated.of_fills (state₀ : KeyedBeaconState)
    (h : Relation.ReflTransGen (Fills bls) (.empty, state₀) (this, state)) :
    this.Validated bls state := by
  generalize hs : (this, state) = s at h
  suffices hs' : s.1.Validated bls s.2 by rwa [← hs] at hs'
  clear hs
  induction h with
  | refl => exact .empty
  | tail _ hstep ih => exact ih.step hstep

/-! ## The loops -/

omit [Preset] in
theorem pushUntil_eq {α : Type} {accept : α → Except String Bool} {p : α → Bool} {max : Nat}
    {l chosen : List α} (haccept : ∀ a ∈ l, accept a = .ok (p a)) (hlt : chosen.length < max) :
    pushUntil accept max l chosen = .ok (chosen ++ (l.filter p).take (max - chosen.length)) := by
  induction l generalizing chosen with
  | nil => simp [pushUntil]
  | cons a l ih =>
    obtain ⟨ha, hl⟩ := List.forall_mem_cons.mp haccept
    rw [pushUntil, ha]
    show (if p a = true then _ else _) = _
    by_cases hp : p a = true
    · rw [if_pos hp, List.filter_cons_of_pos hp]
      obtain ⟨k, hk⟩ : ∃ k, max - chosen.length = k + 1 := ⟨max - chosen.length - 1, by omega⟩
      rw [hk, List.take_succ_cons]
      split_ifs with hfull
      · have hk0 : k = 0 := by
          rw [List.length_append, List.length_singleton] at hfull
          omega
        rw [hk0, List.take_zero]
        rfl
      · rw [List.length_append, List.length_singleton] at hfull
        rw [ih hl (by rw [List.length_append, List.length_singleton]; omega)]
        have hk' : max - (chosen ++ [a]).length = k := by
          rw [List.length_append, List.length_singleton]
          omega
        rw [hk', List.append_assoc, List.singleton_append]
    · rw [if_neg hp, List.filter_cons_of_neg hp]
      exact ih hl hlt

theorem getSlashableIndices_eq (hcached : Cached state) {toBeSlashedIndices : Finset Nat}
    {indices : List Nat} (hindices : ∀ i ∈ indices, i < state.validators.length)
    (slashableIndices : Finset Nat) :
    getSlashableIndices state (computeEpochAtSlot state.slot) toBeSlashedIndices indices
        slashableIndices
      = .ok (if ∃ i ∈ indices, i ∈ toBeSlashedIndices then none
        else some (slashableIndices ∪ (indices.filter (slashable state)).toFinset)) := by
  induction indices generalizing slashableIndices with
  | nil => simp [getSlashableIndices]
  | cons i indices ih =>
    obtain ⟨hi, hindices⟩ := List.forall_mem_cons.mp hindices
    rw [getSlashableIndices]
    by_cases hseen : i ∈ toBeSlashedIndices
    · simp [hseen]
    · have hslashable : isSlashableAtEpoch state.validators[i] (computeEpochAtSlot state.slot)
          = slashable state i := by
        rw [slashable, List.getElem?_eq_getElem hi, hcached.currentEpoch]
        rfl
      rw [if_neg hseen, getValidator_eq_ok hi]
      show getSlashableIndices state _ _ indices (if isSlashableAtEpoch _ _ = true then _ else _) = _
      rw [ih hindices, hslashable]
      congr 1
      by_cases hs : slashable state i = true
      · simp [hseen, hs, Finset.insert_union, Finset.union_insert]
      · simp [hseen, hs]

/-- `toBeSlashedIndices` after the slashings of `taken`. -/
def ToBeSlashed (proposers : List Nat) (state : KeyedBeaconState)
    (taken : List AttesterSlashingCached) (toBeSlashedIndices : Finset Nat) : Prop :=
  ∀ i, i ∈ toBeSlashedIndices ↔
    i ∈ proposers ∨ ∃ b ∈ taken, i ∈ b.intersectingIndices ∧ slashable state i = true

theorem ToBeSlashed.exists_mem_iff {proposers : List Nat} {taken : List AttesterSlashingCached}
    {toBeSlashedIndices : Finset Nat} (h : ToBeSlashed proposers state taken toBeSlashedIndices)
    (cached : AttesterSlashingCached) :
    (∃ i ∈ cached.intersectingIndices, i ∈ toBeSlashedIndices) ↔
      ¬ ((∀ i ∈ cached.intersectingIndices, i ∉ proposers) ∧
        ∀ b ∈ taken, ¬ Clash state b cached) := by
  constructor
  · rintro ⟨i, hi, hmem⟩ ⟨hproposers, hclash⟩
    rcases (h i).mp hmem with hp | ⟨b, hb, hib, hslashable⟩
    · exact hproposers i hi hp
    · exact hclash b hb ⟨i, hi, hib, hslashable⟩
  · intro hfree
    by_contra hnone
    apply hfree
    constructor
    · intro i hi hp
      exact hnone ⟨i, hi, (h i).mpr (.inl hp)⟩
    · rintro b hb ⟨i, hi, hib, hslashable⟩
      exact hnone ⟨i, hi, (h i).mpr (.inr ⟨b, hb, hib, hslashable⟩)⟩

theorem chooseAttesterSlashings_eq (hcached : Cached state) {proposers : List Nat}
    {l taken : List AttesterSlashingCached}
    (hindices : ∀ cached ∈ l, ∀ i ∈ cached.intersectingIndices, i < state.validators.length)
    {toBeSlashedIndices : Finset Nat} (h : ToBeSlashed proposers state taken toBeSlashedIndices) :
    ∃ toBeSlashedIndices',
      chooseAttesterSlashings state (computeEpochAtSlot state.slot) l
          (taken.map (·.attesterSlashing), toBeSlashedIndices)
        = .ok ((firstFit (Usable proposers state) (Clash state) taken l).map (·.attesterSlashing),
            toBeSlashedIndices') ∧
        ToBeSlashed proposers state (firstFit (Usable proposers state) (Clash state) taken l)
          toBeSlashedIndices' := by
  induction l generalizing taken toBeSlashedIndices with
  | nil => exact ⟨toBeSlashedIndices, rfl, h⟩
  | cons cached l ih =>
    obtain ⟨hcachedIndices, hindices⟩ := List.forall_mem_cons.mp hindices
    rw [chooseAttesterSlashings, getSlashableIndices_eq hcached hcachedIndices, firstFit]
    by_cases hskip : ∃ i ∈ cached.intersectingIndices, i ∈ toBeSlashedIndices
    · have hnotfit : ¬ (Usable proposers state cached ∧ ∀ b ∈ taken, ¬ Clash state b cached) :=
        fun hfit => (h.exists_mem_iff cached).mp hskip ⟨hfit.1.1, hfit.2⟩
      rw [if_pos hskip, if_neg hnotfit]
      exact ih hindices h
    · have hfree := not_not.mp (mt (h.exists_mem_iff cached).mpr hskip)
      rw [if_neg hskip, Finset.empty_union]
      show ∃ _, (if 0 < _ then _ else _) = _ ∧ _
      by_cases hany : ∃ i ∈ cached.intersectingIndices, slashable state i = true
      · have hcard : 0 < (cached.intersectingIndices.filter (slashable state)).toFinset.card := by
          obtain ⟨i, hi, hslashable⟩ := hany
          apply Finset.card_pos.mpr
          exact ⟨i, by simp [hi, hslashable]⟩
        rw [if_pos hcard, if_pos ⟨⟨hfree.1, hany⟩, hfree.2⟩]
        have hnext : ToBeSlashed proposers state (taken ++ [cached])
            (toBeSlashedIndices ∪ (cached.intersectingIndices.filter (slashable state)).toFinset) := by
          intro i
          rw [Finset.mem_union, h i, List.mem_toFinset, List.mem_filter, or_assoc]
          simp [or_and_right, exists_or]
        have hmap : taken.map (·.attesterSlashing) ++ [cached.attesterSlashing]
            = (taken ++ [cached]).map (·.attesterSlashing) := by simp
        rw [hmap]
        exact ih hindices hnext
      · have hcard : ¬ 0 < (cached.intersectingIndices.filter (slashable state)).toFinset.card := by
          have hnil : cached.intersectingIndices.filter (slashable state) = [] :=
            List.filter_eq_nil_iff.mpr fun i hi hs => hany ⟨i, hi, hs⟩
          simp [hnil]
        have hnotfit : ¬ (Usable proposers state cached ∧ ∀ b ∈ taken, ¬ Clash state b cached) :=
          fun hfit => hany hfit.1.2
        rw [if_neg hcard, if_neg hnotfit]
        exact ih hindices h

theorem firstFit_apart (state : KeyedBeaconState) (proposers : List Nat) (l : List AttesterSlashingCached) :
    (∀ a ∈ firstFit (Usable proposers state) (Clash state) [] l,
        a ∈ l ∧ Usable proposers state a) ∧
      (firstFit (Usable proposers state) (Clash state) [] l).Pairwise
        fun a b => ¬ Clash state a b := by
  apply firstFit_induction (P := fun taken =>
    (∀ a ∈ taken, a ∈ l ∧ Usable proposers state a) ∧ taken.Pairwise fun a b => ¬ Clash state a b)
  · exact ⟨by simp, .nil⟩
  · rintro taken a ⟨hmem, hpairwise⟩ ha husable hfree
    constructor
    · intro b hb
      rcases List.mem_append.mp hb with hb | hb
      · exact hmem b hb
      · obtain rfl := List.mem_singleton.mp hb
        exact ⟨ha, husable⟩
    · rw [List.pairwise_append]
      refine ⟨hpairwise, List.pairwise_singleton _ _, ?_⟩
      intro b hb c hc
      obtain rfl := List.mem_singleton.mp hc
      exact hfree b hb

/-! ## What is chosen -/

/-- The proposer slashings chosen. -/
def chosenProposerSlashings (this : OpPool) (state : KeyedBeaconState) : List ProposerSlashing :=
  (this.proposerSlashings.values.filter fun proposerSlashing =>
    slashable state proposerSlashing.signedHeader1.message.proposerIndex).take
      MAX_PROPOSER_SLASHINGS

/-- The attester slashings taken. -/
def takenAttesterSlashings (this : OpPool) (state : KeyedBeaconState) :
    List AttesterSlashingCached :=
  firstFit (Usable (this.proposersToBeSlashed state) state) (Clash state) []
    this.attesterSlashings.values

/-- An exit of a validator that is not to be slashed. -/
def mayExit (bls : Signatures) (state : KeyedBeaconState) (toBeSlashedIndices : Finset Nat)
    (voluntaryExit : SignedVoluntaryExit) : Bool :=
  if voluntaryExit.message.validatorIndex ∈ toBeSlashedIndices then false
  else okOr false (isValidVoluntaryExit bls state voluntaryExit false)

theorem map_chosenProposerSlashings :
    (this.chosenProposerSlashings state).map (·.signedHeader1.message.proposerIndex)
      = this.proposersToBeSlashed state := by
  rw [chosenProposerSlashings, proposersToBeSlashed, List.map_take, List.filter_map]
  rfl

omit [Preset] in
theorem nodup_proposerSlashings :
    (this.proposerSlashings.values.map (·.signedHeader1.message.proposerIndex)).Nodup := by
  have hkeys : this.proposerSlashings.values.map (·.signedHeader1.message.proposerIndex)
      = this.proposerSlashings.entries.map Prod.fst := by
    rw [OrderedMap.values, List.map_map]
    exact List.map_congr_left fun e he => (this.proposerSlashings_key e he).symm
  rw [hkeys]
  exact this.proposerSlashings.nodup

omit [Preset] in
theorem nodup_voluntaryExits :
    (this.voluntaryExits.values.map (·.message.validatorIndex)).Nodup := by
  have hkeys : this.voluntaryExits.values.map (·.message.validatorIndex)
      = this.voluntaryExits.entries.map Prod.fst := by
    rw [OrderedMap.values, List.map_map]
    exact List.map_congr_left fun e he => (this.voluntaryExits_key e he).symm
  rw [hkeys]
  exact this.voluntaryExits.nodup

/-- Without its signature, the check of an exit throws for no validator of the registry. -/
theorem isValidVoluntaryExit_isOk {voluntaryExit : SignedVoluntaryExit}
    (hi : voluntaryExit.message.validatorIndex < state.validators.length) :
    (isValidVoluntaryExit bls state voluntaryExit false).isOk = true := by
  simp only [isValidVoluntaryExit, getValidator_eq_ok hi, bind, Except.bind, Bool.false_eq_true,
    if_false]
  split_ifs <;> rfl

theorem getSlashingsAndExits_eq (hcached : Cached state) (h : this.Validated bls state) :
    ∃ toBeSlashedIndices,
      ToBeSlashed (this.proposersToBeSlashed state) state (this.takenAttesterSlashings state)
        toBeSlashedIndices ∧
      this.getSlashingsAndExits bls state
        = .ok ((this.takenAttesterSlashings state).map (·.attesterSlashing),
            this.chosenProposerSlashings state,
            (this.voluntaryExits.values.filter (mayExit bls state toBeSlashedIndices)).take
              MAX_VOLUNTARY_EXITS) := by
  have hproposer : ∀ op ∈ this.proposerSlashings.values,
      (getValidator state op.signedHeader1.message.proposerIndex >>= fun validator =>
          pure (isSlashableAtEpoch validator (computeEpochAtSlot state.slot)))
        = Except.ok (slashable state op.signedHeader1.message.proposerIndex) := by
    intro op hop
    obtain ⟨earlier, _, hearlier, hvalid⟩ := h.proposerSlashings op hop
    have hi := (assertValidProposerSlashing_eq_ok hvalid).2.1.trans_le hearlier.validators_le
    rw [getValidator_eq_ok hi, slashable, List.getElem?_eq_getElem hi, hcached.currentEpoch]
    rfl
  have hindices : ∀ cached ∈ this.attesterSlashings.values, ∀ i ∈ cached.intersectingIndices,
      i < state.validators.length := by
    intro cached hmem i hi
    obtain ⟨earlier, _, hearlier, hvalid⟩ := h.attesterSlashings cached hmem
    rw [cached.intersectingIndices_eq] at hi
    exact ((getAttesterSlashableIndices_of_valid hvalid).2 i hi).trans_le hearlier.validators_le
  have hstart : ToBeSlashed (this.proposersToBeSlashed state) state []
      ((this.chosenProposerSlashings state).map
        (·.signedHeader1.message.proposerIndex)).toFinset := by
    intro i
    rw [map_chosenProposerSlashings]
    simp
  obtain ⟨toBeSlashedIndices, hchoose, htoBeSlashed⟩ :=
    chooseAttesterSlashings_eq hcached hindices hstart
  have hexit : ∀ op ∈ this.voluntaryExits.values,
      (if op.message.validatorIndex ∈ toBeSlashedIndices then Except.ok false
        else isValidVoluntaryExit bls state op false)
        = .ok (mayExit bls state toBeSlashedIndices op) := by
    intro op hop
    obtain ⟨earlier, _, hearlier, hvalid⟩ := h.voluntaryExits op hop
    have hi := (isValidVoluntaryExit_eq_ok hvalid).1.trans_le hearlier.validators_le
    unfold mayExit
    split_ifs
    · rfl
    · exact eq_ok_okOr false (isValidVoluntaryExit_isOk hi)
  refine ⟨toBeSlashedIndices, htoBeSlashed, ?_⟩
  unfold getSlashingsAndExits
  dsimp only
  rw [pushUntil_eq hproposer Preset.MAX_PROPOSER_SLASHINGS_pos, List.nil_append]
  show (chooseAttesterSlashings state _ _ ([], _) >>= _) = _
  rw [show ([] : List AttesterSlashing) = [].map AttesterSlashingCached.attesterSlashing from rfl]
  show (chooseAttesterSlashings state _ _ (_, ((this.chosenProposerSlashings state).map
    (·.signedHeader1.message.proposerIndex)).toFinset) >>= _) = _
  rw [hchoose]
  show (pushUntil _ MAX_VOLUNTARY_EXITS _ [] >>= _) = _
  rw [pushUntil_eq hexit Preset.MAX_VOLUNTARY_EXITS_pos, List.nil_append]
  rfl

/-! ## Processing what is chosen -/

theorem processSlashingsAndExits_ok (hcached : Cached state) (h : this.Validated bls state)
    {toBeSlashedIndices : Finset Nat}
    (htoBeSlashed : ToBeSlashed (this.proposersToBeSlashed state) state
      (this.takenAttesterSlashings state) toBeSlashedIndices)
    (verifySignatures : Bool) (fork : ForkName) :
    ∃ state', processSlashingsAndExits bls verifySignatures fork state
      ((this.takenAttesterSlashings state).map (·.attesterSlashing))
      (this.chosenProposerSlashings state)
      ((this.voluntaryExits.values.filter (mayExit bls state toBeSlashedIndices)).take
        MAX_VOLUNTARY_EXITS) = .ok state' := by
  -- the proposer slashings
  have hproposers : (this.chosenProposerSlashings state).Sublist this.proposerSlashings.values :=
    (List.take_sublist _ _).trans List.filter_sublist
  obtain ⟨state₁, hprocess₁, htouched₁⟩ := processProposerSlashings_ok fork verifySignatures hcached
    (nodup_proposerSlashings.sublist (hproposers.map _))
    (fun op hop => h.proposerSlashings op (hproposers.subset hop))
    (fun op hop => (List.mem_filter.mp (List.mem_of_mem_take hop)).2)
  rw [map_chosenProposerSlashings] at htouched₁
  -- the attester slashings see their validators unchanged
  obtain ⟨htaken, hapart⟩ :=
    firstFit_apart state (this.proposersToBeSlashed state) this.attesterSlashings.values
  have hsame : ∀ cached ∈ this.takenAttesterSlashings state,
      ∀ i ∈ getAttesterSlashableIndices cached.attesterSlashing,
        slashable state₁ i = slashable state i := by
    intro cached hmem i hi
    rw [← cached.intersectingIndices_eq] at hi
    exact htouched₁.slashable_eq ((htaken cached hmem).2.1 i hi)
  have hvalid₂ : ∀ op ∈ (this.takenAttesterSlashings state).map (·.attesterSlashing),
      ValidatedBefore state₁ fun earlier =>
        assertValidAttesterSlashing bls earlier op true = .ok () := by
    intro op hop
    obtain ⟨cached, hmem, rfl⟩ := List.mem_map.mp hop
    exact (h.attesterSlashings cached (htaken cached hmem).1).later htouched₁.earlier
  have hslashable₂ : ∀ op ∈ (this.takenAttesterSlashings state).map (·.attesterSlashing),
      ∃ i ∈ getAttesterSlashableIndices op, slashable state₁ i = true := by
    intro op hop
    obtain ⟨cached, hmem, rfl⟩ := List.mem_map.mp hop
    obtain ⟨i, hi, hslashable⟩ := (htaken cached hmem).2.2
    rw [cached.intersectingIndices_eq] at hi
    exact ⟨i, hi, (hsame cached hmem i hi).trans hslashable⟩
  have hapart₂ : ((this.takenAttesterSlashings state).map (·.attesterSlashing)).Pairwise
      fun a b => ∀ i ∈ getAttesterSlashableIndices b,
        ¬ (i ∈ getAttesterSlashableIndices a ∧ slashable state₁ i = true) := by
    rw [List.pairwise_map]
    apply hapart.imp_of_mem
    rintro a b ha hb hclash i hi ⟨hia, hslashable⟩
    rw [hsame b hb i hi] at hslashable
    rw [← a.intersectingIndices_eq] at hia
    rw [← b.intersectingIndices_eq] at hi
    exact hclash ⟨i, hi, hia, hslashable⟩
  obtain ⟨state₂, hprocess₂, htouched₂⟩ := processAttesterSlashings_ok fork verifySignatures
    (htouched₁.cached hcached) hvalid₂ hslashable₂ hapart₂
  -- no exit is of a validator that was slashed
  have htouched := (htouched₁.trans htouched₂).mono (T := {i | i ∈ toBeSlashedIndices}) (by
    rintro i (hi | ⟨op, hop, hi, hslashable⟩)
    · exact (htoBeSlashed i).mpr (.inl hi)
    · obtain ⟨cached, hmem, rfl⟩ := List.mem_map.mp hop
      rw [hsame cached hmem i hi] at hslashable
      rw [← cached.intersectingIndices_eq] at hi
      exact (htoBeSlashed i).mpr (.inr ⟨cached, hmem, hi, hslashable⟩))
  have hexits : ((this.voluntaryExits.values.filter (mayExit bls state toBeSlashedIndices)).take
      MAX_VOLUNTARY_EXITS).Sublist this.voluntaryExits.values :=
    (List.take_sublist _ _).trans List.filter_sublist
  have hvalid₃ : ∀ op ∈ (this.voluntaryExits.values.filter
      (mayExit bls state toBeSlashedIndices)).take MAX_VOLUNTARY_EXITS,
      isValidVoluntaryExit bls state₂ op false = .ok true := by
    intro op hop
    have hmay := (List.mem_filter.mp (List.mem_of_mem_take hop)).2
    obtain ⟨earlier, _, hearlier, hvalid⟩ := h.voluntaryExits op (hexits.subset hop)
    have hi := (isValidVoluntaryExit_eq_ok hvalid).1.trans_le hearlier.validators_le
    unfold mayExit at hmay
    split_ifs at hmay with hmem
    rw [htouched.isValidVoluntaryExit_eq hmem, eq_ok_okOr false (isValidVoluntaryExit_isOk hi), hmay]
  obtain ⟨state', hprocess₃⟩ := processVoluntaryExits_ok verifySignatures
    (nodup_voluntaryExits.sublist (hexits.map _))
    (fun op hop => (h.voluntaryExits op (hexits.subset hop)).later htouched.earlier) hvalid₃
  refine ⟨state', ?_⟩
  unfold processSlashingsAndExits
  rw [hprocess₁]
  show ((List.foldlM _ state₁ _ : Except String KeyedBeaconState) >>= _) = _
  rw [hprocess₂]
  exact hprocess₃

/-- What is chosen can be processed on the state, and is as much as a block takes, if and only if
no more attester slashings of the pool fit beside each other than a block takes. -/
theorem processable_iff (bls : Signatures) (this : OpPool) (state : KeyedBeaconState)
    (verifySignatures : Bool) (fork : ForkName) (hcached : Cached state)
    (h : this.Validated bls state) :
    this.Processable bls state verifySignatures fork ↔ this.FewSlashingsFit state := by
  obtain ⟨toBeSlashedIndices, htoBeSlashed, hchosen⟩ := getSlashingsAndExits_eq hcached h
  have hfew : this.FewSlashingsFit state ↔
      (this.takenAttesterSlashings state).length ≤ MAX_ATTESTER_SLASHINGS :=
    forall_isFirstFit_card_le_iff _ _
  rw [hfew]
  constructor
  · rintro ⟨attesterSlashings, proposerSlashings, voluntaryExits, hget, _, _, hlength, _⟩
    rw [hchosen] at hget
    obtain ⟨rfl, _⟩ := Prod.mk.inj (Except.ok.inj hget)
    rwa [List.length_map] at hlength
  · intro hlength
    refine ⟨_, _, _, hchosen, processSlashingsAndExits_ok hcached h htoBeSlashed _ _, ?_, ?_, ?_⟩
    · exact List.length_take_le _ _
    · rwa [List.length_map]
    · exact List.length_take_le _ _

end

/-! ## Three attester slashings -/

attribute [local instance] minimal

/-- Eight validators, active since genesis. -/
def eightValidators : List Validator :=
  (List.range 8).map fun i =>
    { pubkey := i
      withdrawalCredentials := 0
      effectiveBalance := 32000000000
      slashed := false
      activationEligibilityEpoch := 0
      activationEpoch := 0
      exitEpoch := FAR_FUTURE_EPOCH
      withdrawableEpoch := FAR_FUTURE_EPOCH }

def eightCommittees : ShuffledCommittees where
  shuffling := List.range 8
  committees := (List.range 8).map fun i => [[i]]
  committeesPerSlot := 1

/-- A state of epoch 100. -/
def eightState : KeyedBeaconState where
  config := chainConfigMinimal
  slot := 803
  validators := eightValidators
  balanceList := List.replicate 8 32000000000
  slashings := List.replicate 64 0
  finalizedCheckpoint := ⟨98, 0⟩
  inactivityScores := List.replicate 8 0
  epochCtx :=
    { previousShuffling := ⟨99, List.range 8⟩
      currentShuffling := ⟨100, List.range 8⟩
      nextShuffling := ⟨101, List.range 8⟩
      effectiveBalanceIncrements := List.replicate 8 32 ++ List.replicate 1016 0
      totalActiveBalanceIncrements := 256
      churnLimit := 4
      exitQueueEpoch := 105
      exitQueueChurn := 0
      epoch := 100 }
  blockRoots := Vector.replicate _ 0
  randaoMixes := Vector.replicate _ 0
  justificationBits := Vector.replicate _ true
  previousJustifiedCheckpoint := ⟨98, 0⟩
  currentJustifiedCheckpoint := ⟨99, 0⟩
  epochCache :=
    { previousCommittees := eightCommittees
      currentCommittees := eightCommittees
      nextCommittees := eightCommittees
      proposers := List.range 8
      syncParticipantReward := 0
      baseRewardPerIncrement := 0
      currentSyncCommitteeIndexed := none
      nextSyncCommitteeIndexed := none
      syncPeriod := 0 }
  index2pubkey := eightValidators.map (·.pubkey)

/-- A check of signatures that every set with its keys passes. -/
def signedByAll : Signatures where
  computeDomain domainType version := domainType.setWidth 256 <<< 32 ||| version.setWidth 256
  headerSigningRoot header domain := header.bodyRoot ^^^ domain
  attestationSigningRoot data domain := data.beaconBlockRoot ^^^ domain
  exitSigningRoot voluntaryExit domain := voluntaryExit.epoch ^^^ domain
  verifySignatureSet
    | .single pubkey _ _ => .ok pubkey.isSome
    | .aggregate pubkeys _ _ => .ok (pubkeys.all Option.isSome)

/-- Two votes of a validator for one target epoch. -/
def doubleVote (validatorIndex : Nat) : AttesterSlashing where
  attestation1 := ⟨[validatorIndex], ⟨792, 0, 1, ⟨98, 0⟩, ⟨99, 1⟩⟩, 0⟩
  attestation2 := ⟨[validatorIndex], ⟨792, 0, 2, ⟨98, 0⟩, ⟨99, 2⟩⟩, 0⟩

/-- Two headers of a validator for one slot. -/
def doubleProposal (proposerIndex : Nat) : ProposerSlashing where
  signedHeader1 := ⟨⟨799, proposerIndex, 0, 0, 1⟩, 0⟩
  signedHeader2 := ⟨⟨799, proposerIndex, 0, 0, 2⟩, 0⟩

/-- A proposer slashing, an exit, and a double vote of each of `validators`. -/
def doubleVotes (validators : List Nat) : OpPool :=
  validators.foldl (fun this i => this.insertAttesterSlashing (doubleVote i) i)
    ((OpPool.empty.insertProposerSlashing (doubleProposal 6)).insertVoluntaryExit ⟨⟨90, 7⟩, 0⟩)

theorem eightState_cached : Cached eightState where
  currentEpoch := rfl
  validators_le := by decide

theorem doubleVotes_validated (validators : List Nat) (h : ∀ i ∈ validators, i < 8) :
    (doubleVotes validators).Validated signedByAll eightState := by
  have hproposer : assertValidProposerSlashing signedByAll eightState (doubleProposal 6) true
      = .ok () := by decide +kernel
  have hexit : isValidVoluntaryExit signedByAll eightState ⟨⟨90, 7⟩, 0⟩ true = .ok true := by
    decide +kernel
  have hvotes : ∀ i < 8,
      assertValidAttesterSlashing signedByAll eightState (doubleVote i) true = .ok () := by
    decide +kernel
  apply Validated.of_fills eightState
  unfold doubleVotes
  have hstart := (Relation.ReflTransGen.single
    (Fills.proposerSlashing .empty eightState _ eightState_cached hproposer)).tail
    (.voluntaryExit _ eightState _ eightState_cached hexit)
  generalize (OpPool.empty.insertProposerSlashing (doubleProposal 6)).insertVoluntaryExit
    ⟨⟨90, 7⟩, 0⟩ = pool at hstart ⊢
  induction validators generalizing pool with
  | nil => exact hstart
  | cons i validators ih =>
    obtain ⟨hi, h⟩ := List.forall_mem_cons.mp h
    exact ih h _ (hstart.tail
      (.attesterSlashing pool eightState _ _ eightState_cached (hvotes i hi)))

/-- Of three double votes all are chosen. -/
theorem not_processable_doubleVotes :
    ¬ ∀ (bls : Signatures) (this : OpPool) (state : KeyedBeaconState) (verifySignatures : Bool)
      (fork : ForkName), Cached state → this.Validated bls state →
      this.Processable bls state verifySignatures fork := by
  intro h
  have hvalidated := doubleVotes_validated [0, 1, 2] (by decide)
  obtain ⟨attesterSlashings, proposerSlashings, voluntaryExits, hget, _, _, hlength, _⟩ :=
    h signedByAll _ eightState true .altair eightState_cached hvalidated
  have hthree : ((doubleVotes [0, 1, 2]).getSlashingsAndExits signedByAll eightState).toOption.map
      (fun chosen => chosen.1.length) = some 3 := by decide +kernel
  rw [hget] at hthree
  have hthree : attesterSlashings.length = 3 := Option.some.inj hthree
  rw [hthree] at hlength
  exact absurd hlength (by decide)

/-- Two double votes fit into a block. -/
theorem processable_doubleVotes :
    (doubleVotes [0, 1]).Processable signedByAll eightState true .altair :=
  (processable_iff signedByAll (doubleVotes [0, 1]) eightState true .altair eightState_cached
    (doubleVotes_validated [0, 1] (by decide))).mpr
      ((forall_isFirstFit_card_le_iff _ _).mpr (by decide +kernel))

end Lodestar.Chain.OpPool
