import Lodestar.StateTransition.CachedLists

/-!
# Cached lists over the runs of the transition

The lists of a `BeaconStateContext`, what the transition does with them, and
states that are created and cloned. All vectors are in one heap, so that what
one state does could show in another one.
-/

namespace Lodestar.StateTransition.CachedLists

open Lodestar.Base

section

variable [Libraries]

open Libraries

/-! ## Contexts -/

/-- `CachedEpochParticipation` and `CachedInactivityScoreList`. -/
structure CachedList where
  persistent : Vec
  tree : Option Node

/-- The tree of `BeaconStateContext` and its cached lists. -/
structure BeaconStateContext where
  tree : StateTree
  previousEpochParticipation : CachedList
  currentEpochParticipation : CachedList
  inactivityScores : CachedList

namespace BeaconStateContext

def list (ctx : BeaconStateContext) : ListName → CachedList
  | .previousEpochParticipation => ctx.previousEpochParticipation
  | .currentEpochParticipation => ctx.currentEpochParticipation
  | .inactivityScores => ctx.inactivityScores

def view (ctx : BeaconStateContext) (heap : Heap) (name : ListName) : ListView where
  persistent := (ctx.list name).persistent
  tree := (ctx.list name).tree
  state := ctx.tree
  heap := heap

def put (ctx : BeaconStateContext) (name : ListName) (view : ListView) : BeaconStateContext :=
  match name with
  | .previousEpochParticipation =>
    { ctx with tree := view.state, previousEpochParticipation := ⟨view.persistent, view.tree⟩ }
  | .currentEpochParticipation =>
    { ctx with tree := view.state, currentEpochParticipation := ⟨view.persistent, view.tree⟩ }
  | .inactivityScores =>
    { ctx with tree := view.state, inactivityScores := ⟨view.persistent, view.tree⟩ }

variable (ctx : BeaconStateContext) {name name' : ListName} (view : ListView)

@[simp] theorem tree_put : (ctx.put name view).tree = view.state := by
  cases name <;> rfl

@[simp] theorem list_put_self : (ctx.put name view).list name = ⟨view.persistent, view.tree⟩ := by
  cases name <;> rfl

theorem list_put_of_ne (h : name' ≠ name) : (ctx.put name view).list name' = ctx.list name' := by
  cases name <;> cases name' <;> first | rfl | exact absurd rfl h

/-- The constructor: the tree of each list is taken from the tree of the state. -/
def new (tree : StateTree) (previousEpochParticipationCache currentEpochParticipationCache
    inactivityScoresCache : Vec) : BeaconStateContext where
  tree := tree
  previousEpochParticipation :=
    ⟨previousEpochParticipationCache,
      treeGetProperty tree ListName.previousEpochParticipation.key⟩
  currentEpochParticipation :=
    ⟨currentEpochParticipationCache, treeGetProperty tree ListName.currentEpochParticipation.key⟩
  inactivityScores :=
    ⟨inactivityScoresCache, treeGetProperty tree ListName.inactivityScores.key⟩

end BeaconStateContext

/-- A state and the heap. -/
abbrev HeapState : Type := BeaconStateContext × Heap

namespace HeapState

/-- One list of the state is written. -/
def update (name : ListName) (f : ListView → ListView) (s : HeapState) : HeapState :=
  let view := f (s.1.view s.2 name)
  (s.1.put name view, view.heap)

/-- Several lists, in order. -/
def updateEach (names : List ListName) (f : ListName → ListView → ListView) (s : HeapState) :
    HeapState :=
  names.foldl (fun s name => s.update name (f name)) s

def values (s : HeapState) (name : ListName) : List Nat := (s.1.view s.2 name).values

/-! ## What the transition does -/

/-- The end of `processDeposit` for a new validator. -/
def processDeposit (fork : ForkName) (s : HeapState) : HeapState :=
  let s := s.updateEach [.previousEpochParticipation, .currentEpochParticipation] fun name view =>
    view.push name 0
  if fork ≠ .phase0 then s.update .inactivityScores fun view => view.push .inactivityScores 0
  else s

def processParticipationFlagUpdates (validatorCount : Nat) (s : HeapState) : HeapState :=
  let s := s.update .previousEpochParticipation fun view =>
    view.updateAllStatus .previous s.1.currentEpochParticipation.persistent
  let zeros := vectors.fromValues (List.replicate validatorCount 0) s.2
  HeapState.update .currentEpochParticipation
    (fun view => view.updateAllStatus .current zeros.1) (s.1, zeros.2)

def setStateCachesAsTransient (s : HeapState) : HeapState :=
  s.updateEach [.previousEpochParticipation, .currentEpochParticipation, .inactivityScores]
    fun _ view => view.asTransient

def setStateCachesAsPersistent (s : HeapState) : HeapState :=
  s.updateEach [.previousEpochParticipation, .currentEpochParticipation, .inactivityScores]
    fun _ view => view.asPersistent

section

variable [Preset]

/-- The body of the loop of `processInactivityUpdates`. -/
def processInactivityScore (config : ChainConfig) (inActivityLeak : Bool)
    (flags inactivityScore : Nat) : Nat :=
  if hasMarkers flags FLAG_ELIGIBLE_ATTESTER then
    let inactivityScore :=
      if hasMarkers flags FLAG_PREV_TARGET_ATTESTER_OR_UNSLASHED then
        inactivityScore - min 1 inactivityScore
      else inactivityScore + config.INACTIVITY_SCORE_BIAS
    if inActivityLeak then inactivityScore
    else inactivityScore - min config.INACTIVITY_SCORE_RECOVERY_RATE inactivityScore
  else inactivityScore

/-- The scores that change, by index. -/
def newInactivityScores (config : ChainConfig) (inActivityLeak : Bool)
    (statuses : List IAttesterStatus) (scores : List Nat) : List (Nat × Nat) :=
  scores.zipIdx.filterMap fun e =>
    let flags := (statuses.getD e.2 createIAttesterStatus).flags
    let inactivityScore := processInactivityScore config inActivityLeak flags e.1
    if inactivityScore ≠ e.1 then some (e.2, inactivityScore) else none

def processInactivityUpdates (config : ChainConfig) (currentEpoch : Nat) (inActivityLeak : Bool)
    (statuses : List IAttesterStatus) (s : HeapState) : HeapState :=
  if currentEpoch = GENESIS_EPOCH then s
  else
    let newValues :=
      newInactivityScores config inActivityLeak statuses (s.values .inactivityScores)
    s.update .inactivityScores fun view => view.setMultiple .inactivityScores newValues

end

/-- `set` of the proxy handler: no cached list is assigned. -/
def proxySet (key : String) (value : Node) (s : HeapState) : Except String HeapState :=
  if key = "validators" then .error "Cannot set validators"
  else if key = "balanceList" ∨ key = "balances" then
    .error "Cannot set either balanceList or balances"
  else if key = "previousEpochParticipation" then
    .error "Cannot set previousEpochParticipation"
  else if key = "currentEpochParticipation" then .error "Cannot set currentEpochParticipation"
  else if key = "inactivityScores" then .error "Cannot set inactivityScores"
  else if (treeGetProperty s.1.tree key).isSome then
    .ok ({ s.1 with tree := treeSetProperty s.1.tree key value }, s.2)
  else .error s!"'set' on proxy: trap returned falsish for property '{key}'"

/-- A write through the tree of a property, such as `validators`, which its hook passes on. -/
def writeSubtree (key : String) (node : Node) (s : HeapState) : HeapState :=
  ({ s.1 with tree := treeSetProperty s.1.tree key node }, s.2)

/-- `clone`: the tree is immutable, and the vectors are cloned. -/
def clone (s : HeapState) : HeapState :=
  let previous := vectors.clone s.1.previousEpochParticipation.persistent s.2
  let current := vectors.clone s.1.currentEpochParticipation.persistent previous.2
  let scores := vectors.clone s.1.inactivityScores.persistent current.2
  (.new s.1.tree previous.1 current.1 scores.1, scores.2)

end HeapState

def createCachedBeaconState (fork : ForkName) (validatorCount : Nat) (tree : StateTree)
    (heap : Heap) : HeapState :=
  let readonlyValues := fun name : ListName =>
    ((treeGetProperty tree name.key).map name.type.values).getD []
  if fork = .phase0 then
    let previous := vectors.fromValues (List.replicate validatorCount 0) heap
    let current := vectors.fromValues (List.replicate validatorCount 0) previous.2
    let scores := vectors.empty current.2
    (.new tree previous.1 current.1 scores.1, scores.2)
  else
    let previous := vectors.fromValues (readonlyValues .previousEpochParticipation) heap
    let current := vectors.fromValues (readonlyValues .currentEpochParticipation) previous.2
    let scores := vectors.fromValues (readonlyValues .inactivityScores) current.2
    (.new tree previous.1 current.1 scores.1, scores.2)

/-! ## Runs -/

/-- The states that exist, which share the heap. -/
structure World where
  heap : Heap
  contexts : List BeaconStateContext

/-- What is done with the lists of one state. -/
inductive Action where
  | set (name : ListName) (index value : Nat)
  | push (name : ListName) (value : Nat)
  | pop (name : ListName)
  | setMultiple (newValues : List (Nat × Nat))
  | updateEpochParticipants (name : ParticipationName) (epochStatuses : List (Nat × Nat))
      (numActiveValidators : Nat)
  | processDeposit (fork : ForkName)
  | processParticipationFlagUpdates (validatorCount : Nat)
  | processInactivityUpdates (config : ChainConfig) (currentEpoch : Nat) (inActivityLeak : Bool)
      (statuses : List IAttesterStatus)
  | setStateCachesAsTransient
  | setStateCachesAsPersistent
  | proxySet (key : String) (value : Node)
  | writeSubtree (key : String) (node : Node)

section

variable [Preset]

namespace Action

def exec (action : Action) (s : HeapState) : HeapState :=
  match action with
  | set name index value => s.update name fun view => view.set name index value
  | push name value => s.update name fun view => view.push name value
  | pop name => s.update name fun view => view.pop name
  | setMultiple newValues =>
    s.update .inactivityScores fun view => view.setMultiple .inactivityScores newValues
  | updateEpochParticipants name epochStatuses numActiveValidators =>
    s.update name.list fun view =>
      view.updateEpochParticipants name epochStatuses numActiveValidators
  | processDeposit fork => s.processDeposit fork
  | processParticipationFlagUpdates validatorCount =>
    s.processParticipationFlagUpdates validatorCount
  | processInactivityUpdates config currentEpoch inActivityLeak statuses =>
    s.processInactivityUpdates config currentEpoch inActivityLeak statuses
  | setStateCachesAsTransient => s.setStateCachesAsTransient
  | setStateCachesAsPersistent => s.setStateCachesAsPersistent
  -- what is thrown leaves the state as it is
  | proxySet key value => (s.proxySet key value).toOption.getD s
  | writeSubtree key node => s.writeSubtree key node

/-- The entries are of the list, and their values of its type. -/
def EntriesFit (name : ListName) (entries : List (Nat × Nat)) (s : HeapState) : Prop :=
  ∀ e ∈ entries, e.1 < (s.values name).length ∧ e.2 < name.type.bound

/-- What the transition sees to when it calls: indices are of validators in the list, values
are of the type, and the registry has not more validators than its limit. -/
def Fits (action : Action) (s : HeapState) : Prop :=
  match action with
  | set name index value => index < (s.values name).length ∧ value < name.type.bound
  | push name value => (s.values name).length < name.type.limit ∧ value < name.type.bound
  | pop name => s.values name ≠ []
  | setMultiple newValues => EntriesFit .inactivityScores newValues s
  | updateEpochParticipants name epochStatuses _ => EntriesFit name.list epochStatuses s
  | processDeposit _ => ∀ name : ListName, (s.values name).length < name.type.limit
  | processParticipationFlagUpdates validatorCount => validatorCount ≤ epochParticipation.limit
  | processInactivityUpdates config _ inActivityLeak statuses =>
    ∀ e ∈ HeapState.newInactivityScores config inActivityLeak statuses
      (s.values .inactivityScores), e.2 < ListName.inactivityScores.type.bound
  | writeSubtree key _ => ∀ name : ListName, key ≠ name.key
  | setStateCachesAsTransient => True
  | setStateCachesAsPersistent => True
  | proxySet _ _ => True

end Action

/-- A state is worked on, cloned or created. -/
inductive Event where
  | act (k : Nat) (action : Action)
  | clone (k : Nat)
  | createCachedBeaconState (fork : ForkName) (validatorCount : Nat) (tree : StateTree)

/-- The state that an event works on. -/
def Event.target : Event → Option Nat
  | act k _ => some k
  | clone _ => none
  | createCachedBeaconState _ _ _ => none

namespace World

def put (w : World) (k : Nat) (s : HeapState) : World := ⟨s.2, w.contexts.set k s.1⟩

def add (w : World) (s : HeapState) : World := ⟨s.2, w.contexts ++ [s.1]⟩

def exec (w : World) : Event → World
  | .act k action =>
    w.contexts[k]?.elim w fun ctx : BeaconStateContext => w.put k (action.exec (ctx, w.heap))
  | .clone k =>
    w.contexts[k]?.elim w fun ctx : BeaconStateContext => w.add (HeapState.clone (ctx, w.heap))
  | .createCachedBeaconState fork validatorCount tree =>
    w.add (CachedLists.createCachedBeaconState fork validatorCount tree w.heap)

/-- Calls fit, and a state that is created is of its fork and within the limits of its type. -/
def Fits (w : World) : Event → Prop
  | .act k action => ∀ ctx, w.contexts[k]? = some ctx → action.Fits (ctx, w.heap)
  | .clone _ => True
  | .createCachedBeaconState fork _ tree =>
    (fork = .phase0 → ∀ name : ListName, treeGetProperty tree name.key = none) ∧
      ∀ name : ListName, ∀ node, treeGetProperty tree name.key = some node →
        (name.type.values node).length ≤ name.type.limit

inductive Run : World → List Event → World → Prop where
  | nil (w : World) : Run w [] w
  | cons {w w' : World} {e : Event} {events : List Event} :
    w.Fits e → Run (w.exec e) events w' → Run w (e :: events) w'

end World

omit [Preset] in
theorem World.fits_act {w : World} {k : Nat} {ctx : BeaconStateContext} {action : Action}
    (hctx : w.contexts[k]? = some ctx) (h : action.Fits (ctx, w.heap)) :
    w.Fits (.act k action) := by
  intro ctx' hctx'
  rw [hctx, Option.some.injEq] at hctx'
  exact hctx' ▸ h

theorem World.Run.append {w w' w'' : World} {events later : List Event} (h : Run w events w')
    (h' : Run w' later w'') : Run w (events ++ later) w'' := by
  induction h with
  | nil w => exact h'
  | cons hfits _ ih => exact .cons hfits (ih h')

end

/-! ## The invariant -/

namespace World

def holder (w : World) (i : Nat × ListName) : Option Vec :=
  w.contexts[i.1]?.map fun ctx : BeaconStateContext => (ctx.list i.2).persistent

def values (w : World) (i : Nat × ListName) : Option (List Nat) :=
  w.contexts[i.1]?.map fun ctx : BeaconStateContext => (ctx.view w.heap i.2).values

/-- No transient vector is in two lists, and each list agrees with its tree. -/
structure Consistent (w : World) : Prop where
  separated : vectors.Separated w.heap w.holder
  agrees : ∀ {k : Nat} {ctx : BeaconStateContext}, w.contexts[k]? = some ctx →
    ∀ name, (ctx.view w.heap name).Agrees name

variable {w : World} {k : Nat} {ctx : BeaconStateContext}

theorem holder_of_getElem? (hctx : w.contexts[k]? = some ctx) (name : ListName) :
    w.holder (k, name) = some (ctx.list name).persistent := by
  unfold holder
  rw [hctx]
  rfl

theorem values_of_getElem? (hctx : w.contexts[k]? = some ctx) (name : ListName) :
    w.values (k, name) = some (ctx.view w.heap name).values := by
  unfold values
  rw [hctx]
  rfl

theorem values_eq_map_holder (i : Nat × ListName) :
    w.values i = (w.holder i).map fun v => vectors.toList v w.heap := by
  unfold World.values holder
  rw [Option.map_map]
  rfl

theorem consistent_start (heap : Heap) : Consistent ⟨heap, []⟩ where
  separated := VectorLib.Separated.of_none fun _ => rfl
  agrees := fun h => by cases h

theorem getElem?_put_self (hctx : w.contexts[k]? = some ctx) (s : HeapState) :
    (w.put k s).contexts[k]? = some s.1 := by
  obtain ⟨hk, -⟩ := List.getElem?_eq_some_iff.mp hctx
  exact List.getElem?_set_self hk

theorem getElem?_put_of_ne {j : Nat} (h : j ≠ k) (s : HeapState) :
    (w.put k s).contexts[j]? = w.contexts[j]? :=
  List.getElem?_set_ne h.symm

theorem put_self (hctx : w.contexts[k]? = some ctx) : w.put k (ctx, w.heap) = w := by
  obtain ⟨hk, rfl⟩ := List.getElem?_eq_some_iff.mp hctx
  unfold put
  rw [List.set_getElem_self]

theorem getElem?_add_self (s : HeapState) :
    (w.add s).contexts[w.contexts.length]? = some s.1 := by
  unfold add
  rw [List.getElem?_append_right (Nat.le_refl _), Nat.sub_self, List.getElem?_cons_zero]

theorem getElem?_add_of_ne {j : Nat} (h : j ≠ w.contexts.length) (s : HeapState) :
    (w.add s).contexts[j]? = w.contexts[j]? := by
  unfold add
  rcases Nat.lt_or_gt_of_ne h with hlt | hgt
  · rw [List.getElem?_append_left hlt]
  · rw [List.getElem?_eq_none (by rw [List.length_append, List.length_singleton]; exact hgt),
      List.getElem?_eq_none (Nat.le_of_lt hgt)]

theorem put_put (s t : HeapState) : (w.put k s).put k t = w.put k t := by
  unfold put
  rw [List.set_set]

section

variable {s : HeapState} {i : Nat × ListName}

theorem holder_put_of_ne (h : i.1 ≠ k) : (w.put k s).holder i = w.holder i := by
  unfold holder
  rw [getElem?_put_of_ne h]

end

end World

namespace ListView.Agrees

theorem transport {name : ListName} {view view' : ListView} (h : view.Agrees name)
    (hlive : vectors.Live view'.heap view'.persistent) (htree : view'.tree = view.tree)
    (hstate : treeGetProperty view'.state name.key = treeGetProperty view.state name.key)
    (hvalues : view'.values = view.values) : view'.Agrees name where
  live := hlive
  hook := by rw [hstate, h.hook, htree]
  values := fun node hnode => hvalues.trans (h.values node (htree ▸ hnode))
  limit := fun node hnode => h.limit node (htree ▸ hnode)

end ListView.Agrees

namespace World

variable {w : World} {k : Nat} {ctx : BeaconStateContext} {name : ListName}

/-- Consistent again, and the lists other than those at `changed` hold what they held. -/
structure Keeps (changed : Nat × ListName → Prop) (w w' : World) : Prop where
  consistent : w'.Consistent
  values : ∀ i, ¬ changed i → w'.values i = w.values i

theorem Consistent.put (hw : w.Consistent) (hctx : w.contexts[k]? = some ctx) {after : ListView}
    (hwrites : ListView.Writes name (ctx.view w.heap name) after) :
    Keeps (· = (k, name)) w (w.put k (ctx.put name after, after.heap)) := by
  have hself := getElem?_put_self hctx (ctx.put name after, after.heap)
  have hholder : w.holder (k, name) = some (ctx.view w.heap name).persistent :=
    holder_of_getElem? hctx name
  -- the holders after the write
  have hnew : (w.put k (ctx.put name after, after.heap)).holder (k, name)
      = some after.persistent := by
    rw [holder_of_getElem? hself, BeaconStateContext.list_put_self]
  have hsame : ∀ i, i ≠ (k, name) →
      (w.put k (ctx.put name after, after.heap)).holder i = w.holder i := by
    rintro ⟨j, m⟩ hne
    by_cases hj : j = k
    · subst hj
      have hm : m ≠ name := fun heq => hne (by rw [heq])
      rw [holder_of_getElem? hself, holder_of_getElem? hctx,
        BeaconStateContext.list_put_of_ne _ _ hm]
    · exact holder_put_of_ne hj
  have hsep := hw.separated.moves hholder hwrites.moves hnew hsame
  have hvalues : ∀ i v, i ≠ (k, name) → w.holder i = some v →
      vectors.toList v after.heap = vectors.toList v w.heap := fun i v hne hi =>
    hw.separated.same_of_moves hholder hwrites.moves hne hi
  refine ⟨⟨hsep, ?_⟩, ?_⟩
  · intro j ctx' hctx' m
    by_cases hj : j = k
    · subst hj
      rw [hself, Option.some.injEq] at hctx'
      subst hctx'
      by_cases hm : m = name
      · subst hm
        have hagrees := hwrites.agrees
        refine hagrees.transport ?_ ?_ ?_ ?_ <;>
          simp only [BeaconStateContext.view, BeaconStateContext.list_put_self,
            BeaconStateContext.tree_put, ListView.values] <;> first | rfl | exact hagrees.live
      · have hlist := BeaconStateContext.list_put_of_ne ctx after hm
        refine (hw.agrees hctx m).transport (hsep.live (holder_of_getElem? hself m)) ?_ ?_ ?_
        · exact congrArg CachedList.tree hlist
        · change treeGetProperty (ctx.put name after).tree m.key = _
          rw [BeaconStateContext.tree_put]
          exact hwrites.fields m.key fun heq => hm (ListName.key_injective heq)
        · change vectors.toList ((ctx.put name after).list m).persistent after.heap = _
          rw [hlist]
          exact hvalues (j, m) _ (fun heq => hm (Prod.mk.inj heq).2) (holder_of_getElem? hctx m)
    · rw [getElem?_put_of_ne hj] at hctx'
      have hne : (j, m) ≠ (k, name) := fun heq => hj (Prod.mk.inj heq).1
      have hi := holder_of_getElem? hctx' m
      exact (hw.agrees hctx' m).transport (hsep.live ((hsame _ hne).trans hi)) rfl rfl
        (hvalues _ _ hne hi)
  · intro i hne
    rw [values_eq_map_holder, values_eq_map_holder, hsame i hne]
    cases hi : w.holder i with
    | none => rfl
    | some v => exact congrArg some (hvalues i v hne hi)

theorem Consistent.add (hw : w.Consistent) {tree : StateTree} {c : ListName → List Nat}
    {previous current scores : Vec × Heap} (hprevious : vectors.Makes w.heap previous)
    (hcurrent : vectors.Makes previous.2 current) (hscores : vectors.Makes current.2 scores)
    (hvalues : vectors.toList previous.1 previous.2 = c .previousEpochParticipation ∧
      vectors.toList current.1 current.2 = c .currentEpochParticipation ∧
      vectors.toList scores.1 scores.2 = c .inactivityScores)
    (htree : ∀ name : ListName, ∀ node, treeGetProperty tree name.key = some node →
      c name = name.type.values node ∧ (name.type.values node).length ≤ name.type.limit) :
    Keeps (fun i => i.1 = w.contexts.length) w
      (w.add (.new tree previous.1 current.1 scores.1, scores.2)) := by
  have hnone : ∀ m, w.holder (w.contexts.length, m) = none := by
    intro m
    unfold holder
    rw [List.getElem?_eq_none (Nat.le_refl _)]
    rfl
  -- the holders as the vectors come
  have hsep : vectors.Separated scores.2 (Function.update (Function.update (Function.update w.holder
      (w.contexts.length, .previousEpochParticipation) (some previous.1))
      (w.contexts.length, .currentEpochParticipation) (some current.1))
      (w.contexts.length, .inactivityScores) (some scores.1)) :=
    ((hw.separated.makes hprevious (Function.update_self _ _ _)
      fun j hj => Function.update_of_ne hj _ _).makes hcurrent (Function.update_self _ _ _)
      fun j hj => Function.update_of_ne hj _ _).makes hscores (Function.update_self _ _ _)
      fun j hj => Function.update_of_ne hj _ _
  have hold : ∀ i : Nat × ListName, i.1 ≠ w.contexts.length →
      (w.add (.new tree previous.1 current.1 scores.1, scores.2)).holder i = w.holder i := by
    intro i hi
    unfold holder
    rw [getElem?_add_of_ne hi]
  have hlast := w.getElem?_add_self (.new tree previous.1 current.1 scores.1, scores.2)
  have hholder : (w.add (.new tree previous.1 current.1 scores.1, scores.2)).holder
      = Function.update (Function.update (Function.update w.holder
      (w.contexts.length, .previousEpochParticipation) (some previous.1))
      (w.contexts.length, .currentEpochParticipation) (some current.1))
      (w.contexts.length, .inactivityScores) (some scores.1) := by
    funext ⟨j, m⟩
    by_cases hj : j = w.contexts.length
    · subst hj
      rw [holder_of_getElem? hlast]
      cases m <;> simp [BeaconStateContext.list, BeaconStateContext.new]
    · rw [hold _ hj]
      simp [hj]
  have hextends : vectors.Extends w.heap scores.2 :=
    (hprevious.frame.trans hcurrent.frame).trans hscores.frame
  have hkept : ∀ i v, w.holder i = some v →
      vectors.toList v scores.2 = vectors.toList v w.heap := fun i v hi =>
    (hextends v (hw.separated.live hi)).2
  refine ⟨⟨hholder ▸ hsep, ?_⟩, ?_⟩
  · intro j ctx' hctx' m
    by_cases hj : j = w.contexts.length
    · subst hj
      rw [hlast, Option.some.injEq] at hctx'
      subst hctx'
      have hlists : vectors.toList
          ((BeaconStateContext.new tree previous.1 current.1 scores.1).list m).persistent scores.2
          = c m := by
        cases m with
        | previousEpochParticipation =>
          exact ((hcurrent.frame.trans hscores.frame) _ hprevious.live).2.trans hvalues.1
        | currentEpochParticipation => exact (hscores.frame _ hcurrent.live).2.trans hvalues.2.1
        | inactivityScores => exact hvalues.2.2
      have htrees : ((BeaconStateContext.new tree previous.1 current.1 scores.1).list m).tree
          = treeGetProperty tree m.key := by
        cases m <;> rfl
      refine ⟨?_, htrees.symm, ?_, ?_⟩
      · exact (hholder ▸ hsep : vectors.Separated scores.2 _).live (holder_of_getElem? hlast m)
      · intro node hnode
        exact hlists.trans (htree m node (htrees.symm.trans hnode)).1
      · intro node hnode
        exact (htree m node (htrees.symm.trans hnode)).2
    · rw [getElem?_add_of_ne hj] at hctx'
      have hi := holder_of_getElem? hctx' m
      exact (hw.agrees hctx' m).transport (hextends _ (hw.separated.live hi)).1 rfl rfl
        (hkept _ _ hi)
  · intro i hi
    rw [values_eq_map_holder, values_eq_map_holder, hold i hi]
    cases hv : w.holder i with
    | none => rfl
    | some v => exact congrArg some (hkept i v hv)

theorem Keeps.trans {changed changed' : Nat × ListName → Prop} {w' w'' : World}
    (h : Keeps changed w w') (h' : Keeps changed' w' w'') :
    Keeps (fun i => changed i ∨ changed' i) w w'' where
  consistent := h'.consistent
  values := by
    intro i hi
    rw [not_or] at hi
    exact (h'.values i hi.2).trans (h.values i hi.1)

theorem Keeps.mono {changed changed' : Nat × ListName → Prop} {w' : World}
    (h : Keeps changed w w') (hmono : ∀ i, changed i → changed' i) : Keeps changed' w w' :=
  ⟨h.consistent, fun i hi => h.values i fun hc => hi (hmono i hc)⟩

theorem Keeps.values_state {changed : Nat × ListName → Prop} {w' : World}
    {ctx' : BeaconStateContext} (h : Keeps changed w w') (hctx : w.contexts[k]? = some ctx)
    (hctx' : w'.contexts[k]? = some ctx') (hname : ¬ changed (k, name)) :
    HeapState.values (ctx', w'.heap) name = HeapState.values (ctx, w.heap) name := by
  have hsame := h.values (k, name) hname
  rw [values_of_getElem? hctx, values_of_getElem? hctx', Option.some.injEq] at hsame
  exact hsame

/-- Several lists of a state, each written when the others may have been written before. -/
theorem Consistent.updateEach {f : ListName → ListView → ListView} {P : ListName → List Nat → Prop}
    {names : List ListName} (hw : w.Consistent) (hctx : w.contexts[k]? = some ctx)
    (hnodup : names.Nodup)
    (hf : ∀ name ∈ names, ∀ view : ListView, view.Agrees name → P name view.values →
      ListView.Writes name view (f name view))
    (hP : ∀ name ∈ names, P name (HeapState.values (ctx, w.heap) name)) :
    Keeps (·.1 = k) w (w.put k (HeapState.updateEach names f (ctx, w.heap))) := by
  induction names generalizing w ctx with
  | nil =>
    change Keeps _ w (w.put k (ctx, w.heap))
    rw [put_self hctx]
    exact ⟨hw, fun _ _ => rfl⟩
  | cons name names ih =>
    obtain ⟨hnew, hnodup⟩ := List.nodup_cons.mp hnodup
    have hfirst := hw.put hctx (hf name List.mem_cons_self _ (hw.agrees hctx name)
      (hP name List.mem_cons_self))
    have hself := getElem?_put_self hctx (HeapState.update name (f name) (ctx, w.heap))
    have hrest := ih hfirst.consistent hself hnodup
      (fun m hm => hf m (List.mem_cons_of_mem name hm)) fun m hm => by
        rw [hfirst.values_state hctx hself fun heq => hnew ((Prod.mk.inj heq).2 ▸ hm)]
        exact hP m (List.mem_cons_of_mem name hm)
    rw [put_put] at hrest
    refine (hfirst.trans hrest).mono fun i hi => ?_
    rcases hi with rfl | hi
    · rfl
    · exact hi

theorem Consistent.putTree (hw : w.Consistent) (hctx : w.contexts[k]? = some ctx)
    {tree : StateTree} (htree : ∀ name : ListName,
      treeGetProperty tree name.key = treeGetProperty ctx.tree name.key) :
    Keeps (fun _ => False) w (w.put k ({ ctx with tree := tree }, w.heap)) := by
  have hself := getElem?_put_self hctx ({ ctx with tree := tree }, w.heap)
  have hlist : ∀ m, BeaconStateContext.list { ctx with tree := tree } m = ctx.list m := by
    intro m
    cases m <;> rfl
  have hholder : (w.put k ({ ctx with tree := tree }, w.heap)).holder = w.holder := by
    funext ⟨j, m⟩
    by_cases hj : j = k
    · subst hj
      rw [holder_of_getElem? hself, holder_of_getElem? hctx, hlist]
    · exact holder_put_of_ne hj
  refine ⟨⟨hholder ▸ hw.separated, ?_⟩, ?_⟩
  · intro j ctx' hctx' m
    by_cases hj : j = k
    · subst hj
      rw [hself, Option.some.injEq] at hctx'
      subst hctx'
      have hagrees := hw.agrees hctx m
      refine hagrees.transport ?_ (congrArg CachedList.tree (hlist m)) (htree m) ?_
      · exact (congrArg (fun list : CachedList => vectors.Live w.heap list.persistent)
          (hlist m)).mpr hagrees.live
      · exact congrArg (fun list : CachedList => vectors.toList list.persistent w.heap) (hlist m)
    · rw [getElem?_put_of_ne hj] at hctx'
      exact hw.agrees hctx' m
  · intro i _
    rw [values_eq_map_holder, values_eq_map_holder, hholder]
    rfl

/-! ## Each event -/

section

variable [LawfulLibraries]

/-- The previous list with the vector of the current one: what the two trees hold is of one
type. -/
theorem Consistent.agrees_taken (hw : w.Consistent) (hctx : w.contexts[k]? = some ctx) :
    ((ctx.view w.heap .previousEpochParticipation).updateAllStatus .previous
      ctx.currentEpochParticipation.persistent).Agrees .previousEpochParticipation := by
  have hprevious := hw.agrees hctx .previousEpochParticipation
  have hcurrent := hw.agrees hctx .currentEpochParticipation
  refine ListView.agrees_updateAllStatus .previous hcurrent.live hprevious.hook fun htree => ?_
  have hfields := LawfulLibraries.isSome_getProperty ctx.tree .previousEpochParticipation
    .currentEpochParticipation
  have hsome : ctx.currentEpochParticipation.tree.isSome = true :=
    (congrArg Option.isSome hcurrent.hook).symm.trans
      (hfields.symm.trans ((congrArg Option.isSome hprevious.hook).trans htree))
  obtain ⟨node, hnode⟩ := Option.isSome_iff_exists.mp hsome
  refine ⟨fun x hx => ListView.lt_bound_of_agrees .current hcurrent hnode hx, ?_⟩
  exact (congrArg List.length (hcurrent.values node hnode)).trans_le (hcurrent.limit node hnode)

theorem agrees_zeros {validatorCount : Nat} {view : ListView} {zeros : Vec}
    (hlive : vectors.Live view.heap zeros)
    (hzeros : vectors.toList zeros view.heap = List.replicate validatorCount 0)
    (hlimit : validatorCount ≤ epochParticipation.limit)
    (hook : treeGetProperty view.state ListName.currentEpochParticipation.key = view.tree) :
    (view.updateAllStatus .current zeros).Agrees .currentEpochParticipation := by
  refine ListView.agrees_updateAllStatus .current hlive hook fun _ => ?_
  rw [hzeros, LawfulLibraries.bound_bytes, List.length_replicate]
  refine ⟨fun x hx => ?_, hlimit⟩
  rw [List.eq_of_mem_replicate hx]
  decide

section

variable {zeros : Vec × Heap} {first second : ListView}

omit [LawfulLibraries] in
theorem Consistent.separated_rotated (hw : w.Consistent) (hctx : w.contexts[k]? = some ctx)
    (hzeros : vectors.Makes w.heap zeros)
    (hfirst : first.persistent = ctx.currentEpochParticipation.persistent)
    (hsecond : second.persistent = zeros.1) :
    vectors.Separated zeros.2 (w.put k ((ctx.put .previousEpochParticipation first).put
      .currentEpochParticipation second, zeros.2)).holder := by
  have hself := getElem?_put_self hctx ((ctx.put .previousEpochParticipation first).put
    .currentEpochParticipation second, zeros.2)
  have htaken : vectors.Separated w.heap (Function.update (Function.update w.holder
      (k, .previousEpochParticipation) (w.holder (k, .currentEpochParticipation)))
      (k, .currentEpochParticipation) none) :=
    hw.separated.takeOver (i := (k, .currentEpochParticipation))
      (j := (k, .previousEpochParticipation)) (Function.update_self _ _ _)
      (by rw [Function.update_of_ne (by simp), Function.update_self])
      fun j hcur hprev => by rw [Function.update_of_ne hcur, Function.update_of_ne hprev]
  refine htaken.makes hzeros (i := (k, .currentEpochParticipation)) ?_ ?_
  · rw [holder_of_getElem? hself]
    exact congrArg some hsecond
  · rintro ⟨j, m⟩ hne
    rw [Function.update_of_ne hne]
    by_cases hj : j = k
    · subst hj
      rw [holder_of_getElem? hself]
      cases m with
      | previousEpochParticipation =>
        rw [Function.update_self, holder_of_getElem? hctx]
        exact congrArg some hfirst
      | currentEpochParticipation => exact absurd rfl hne
      | inactivityScores =>
        rw [Function.update_of_ne (by simp), holder_of_getElem? hctx]
        rfl
    · rw [Function.update_of_ne fun heq => hj (Prod.mk.inj heq).1]
      exact holder_put_of_ne hj

omit [LawfulLibraries] in
theorem Consistent.rotated (hw : w.Consistent) (hctx : w.contexts[k]? = some ctx)
    (hzeros : vectors.Makes w.heap zeros)
    (hfirst : first.Agrees .previousEpochParticipation)
    (hfirstVector : first.persistent = ctx.currentEpochParticipation.persistent)
    (hfirstHeap : first.heap = w.heap)
    (hsecond : second.Agrees .currentEpochParticipation)
    (hsecondVector : second.persistent = zeros.1) (hsecondHeap : second.heap = zeros.2)
    (hprevious : treeGetProperty second.state ListName.previousEpochParticipation.key
      = treeGetProperty first.state ListName.previousEpochParticipation.key)
    (hscores : treeGetProperty second.state ListName.inactivityScores.key
      = treeGetProperty ctx.tree ListName.inactivityScores.key) :
    Keeps (·.1 = k) w (w.put k ((ctx.put .previousEpochParticipation first).put
      .currentEpochParticipation second, zeros.2)) := by
  have hself := getElem?_put_self hctx ((ctx.put .previousEpochParticipation first).put
    .currentEpochParticipation second, zeros.2)
  refine ⟨⟨hw.separated_rotated hctx hzeros hfirstVector hsecondVector, ?_⟩, ?_⟩
  · intro j ctx' hctx' m
    by_cases hj : j = k
    · subst hj
      rw [hself, Option.some.injEq] at hctx'
      subst hctx'
      cases m with
      | previousEpochParticipation =>
        have hframe := hzeros.frame first.persistent (hfirstHeap ▸ hfirst.live)
        refine hfirst.transport hframe.1 rfl hprevious ?_
        rw [ListView.values, ListView.values, hfirstHeap]
        exact hframe.2
      | currentEpochParticipation =>
        refine hsecond.transport (hsecondHeap ▸ hsecond.live) rfl rfl ?_
        rw [ListView.values, ListView.values, hsecondHeap]
        rfl
      | inactivityScores =>
        have hagrees := hw.agrees hctx .inactivityScores
        have hframe := hzeros.frame _ hagrees.live
        exact hagrees.transport hframe.1 rfl hscores hframe.2
    · rw [getElem?_put_of_ne hj] at hctx'
      have hagrees := hw.agrees hctx' m
      have hframe := hzeros.frame _ hagrees.live
      exact hagrees.transport hframe.1 rfl rfl hframe.2
  · intro i hi
    rw [values_eq_map_holder, values_eq_map_holder, holder_put_of_ne hi]
    cases hv : w.holder i with
    | none => rfl
    | some v => exact congrArg some (hzeros.frame v (hw.separated.live hv)).2

end

/-- The previous list takes the vector of the current one, which gets one of its own. -/
theorem Consistent.processParticipationFlagUpdates {validatorCount : Nat} (hw : w.Consistent)
    (hctx : w.contexts[k]? = some ctx) (hlimit : validatorCount ≤ epochParticipation.limit) :
    Keeps (·.1 = k) w
      (w.put k (HeapState.processParticipationFlagUpdates validatorCount (ctx, w.heap))) := by
  have hzeros := LawfulLibraries.vectors.fromValues (List.replicate validatorCount 0) w.heap
  have hvalues := LawfulLibraries.vectors.toList_fromValues (List.replicate validatorCount 0) w.heap
  have hcurrent := (hw.agrees hctx .currentEpochParticipation).hook
  unfold HeapState.processParticipationFlagUpdates HeapState.update
  simp only [ListView.heap_updateAllStatus]
  refine hw.rotated hctx hzeros (hw.agrees_taken hctx) (ListView.persistent_updateAllStatus _)
    (ListView.heap_updateAllStatus _) (agrees_zeros hzeros.live hvalues hlimit ?_)
    (ListView.persistent_updateAllStatus _) (ListView.heap_updateAllStatus _) ?_ ?_
  · change treeGetProperty (ctx.put .previousEpochParticipation _).tree _ = _
    rw [BeaconStateContext.tree_put, ListView.getProperty_updateAllStatus_of_ne _ (by decide)]
    exact hcurrent
  · rw [ListView.getProperty_updateAllStatus_of_ne _ (by decide)]
    exact congrArg (treeGetProperty · _) (BeaconStateContext.tree_put _ _)
  · rw [ListView.getProperty_updateAllStatus_of_ne _ (by decide)]
    refine (congrArg (treeGetProperty · _) (BeaconStateContext.tree_put _ _)).trans ?_
    rw [ListView.getProperty_updateAllStatus_of_ne _ (by decide)]
    rfl

omit [LawfulLibraries] in
theorem Consistent.update {f : ListView → ListView} (hw : w.Consistent)
    (hctx : w.contexts[k]? = some ctx)
    (hf : ListView.Writes name (ctx.view w.heap name) (f (ctx.view w.heap name))) :
    Keeps (·.1 = k) w (w.put k (HeapState.update name f (ctx, w.heap))) :=
  (hw.put hctx hf).mono fun _ hi => congrArg Prod.fst hi

theorem Consistent.processDeposit {fork : ForkName} (hw : w.Consistent)
    (hctx : w.contexts[k]? = some ctx)
    (hlimit : ∀ name : ListName,
      (HeapState.values (ctx, w.heap) name).length < name.type.limit) :
    Keeps (·.1 = k) w (w.put k (HeapState.processDeposit fork (ctx, w.heap))) := by
  have hpush : ∀ m : ListName, ∀ view : ListView, view.Agrees m →
      view.values.length < m.type.limit → ListView.Writes m view (view.push m 0) := by
    intro m view hview hlength
    refine ListView.writes_push hview hlength ?_
    cases m with
    | previousEpochParticipation => exact LawfulLibraries.bound_bytes ▸ (by decide : 0 < 256)
    | currentEpochParticipation => exact LawfulLibraries.bound_bytes ▸ (by decide : 0 < 256)
    | inactivityScores => exact LawfulLibraries.bound_pos
  have hall : ∀ names : List ListName, names.Nodup →
      Keeps (·.1 = k) w (w.put k (HeapState.updateEach names
        (fun name view => view.push name 0) (ctx, w.heap))) := fun names hnodup =>
    hw.updateEach (P := fun m values => values.length < m.type.limit) hctx hnodup
      (fun m _ => hpush m) fun m _ => hlimit m
  unfold HeapState.processDeposit
  by_cases hfork : fork ≠ .phase0
  · rw [if_pos hfork]
    exact hall [.previousEpochParticipation, .currentEpochParticipation, .inactivityScores]
      (by decide)
  · rw [if_neg hfork]
    exact hall [.previousEpochParticipation, .currentEpochParticipation] (by decide)

omit [LawfulLibraries] in
theorem Consistent.convert {f : ListView → ListView} (hw : w.Consistent)
    (hctx : w.contexts[k]? = some ctx)
    (hf : ∀ (m : ListName) (view : ListView), view.Agrees m → ListView.Writes m view (f view)) :
    Keeps (·.1 = k) w (w.put k (HeapState.updateEach
      [.previousEpochParticipation, .currentEpochParticipation, .inactivityScores]
      (fun _ => f) (ctx, w.heap))) :=
  hw.updateEach (P := fun _ _ => True) hctx (by decide) (fun m _ view hview _ => hf m view hview)
    fun _ _ => trivial

omit [Libraries] [LawfulLibraries] in
theorem newInactivityScores_lt [Preset] {config : ChainConfig} {inActivityLeak : Bool}
    {statuses : List IAttesterStatus} {scores : List Nat} {e : Nat × Nat}
    (he : e ∈ HeapState.newInactivityScores config inActivityLeak statuses scores) :
    e.1 < scores.length := by
  unfold HeapState.newInactivityScores at he
  obtain ⟨⟨score, i⟩, hmem, hsome⟩ := List.mem_filterMap.mp he
  have hi := List.snd_lt_of_mem_zipIdx hmem
  simp only at hsome
  split at hsome
  · cases hsome
    exact hi
  · cases hsome

theorem Consistent.proxySet {key : String} {value : Node} (hw : w.Consistent)
    (hctx : w.contexts[k]? = some ctx) :
    Keeps (·.1 = k) w (w.put k ((HeapState.proxySet key value (ctx, w.heap)).toOption.getD
      (ctx, w.heap))) := by
  have hsame : Keeps (·.1 = k) w (w.put k (ctx, w.heap)) := by
    rw [put_self hctx]
    exact ⟨hw, fun _ _ => rfl⟩
  unfold HeapState.proxySet
  -- every throw leaves the state
  split_ifs with hvalidators hbalances hprevious hcurrent hscores hfield
  · exact hsame
  · exact hsame
  · exact hsame
  · exact hsame
  · exact hsame
  · refine (hw.putTree hctx fun m => ?_).mono fun _ hi => hi.elim
    refine LawfulLibraries.getProperty_set_of_ne ?_
    cases m with
    | previousEpochParticipation => exact Ne.symm hprevious
    | currentEpochParticipation => exact Ne.symm hcurrent
    | inactivityScores => exact Ne.symm hscores
  · exact hsame

variable [Preset]

/-- One step of a state keeps everything in order, and changes no list of another state. -/
theorem Consistent.act {action : Action} (hw : w.Consistent) (hctx : w.contexts[k]? = some ctx)
    (hfits : action.Fits (ctx, w.heap)) :
    Keeps (·.1 = k) w (w.put k (action.exec (ctx, w.heap))) := by
  cases action with
  | set m index value =>
    exact hw.update hctx (ListView.writes_set (hw.agrees hctx m) hfits.1 hfits.2)
  | push m value =>
    exact hw.update hctx (ListView.writes_push (hw.agrees hctx m) hfits.1 hfits.2)
  | pop m => exact hw.update hctx (ListView.writes_pop (hw.agrees hctx m) hfits)
  | setMultiple newValues =>
    exact hw.update hctx (ListView.writes_setMultiple (hw.agrees hctx .inactivityScores) hfits).1
  | updateEpochParticipants m epochStatuses numActiveValidators =>
    refine hw.update hctx
      (ListView.writes_updateEpochParticipants (hw.agrees hctx m.list) fun e he => ?_).1
    have hfit := hfits e he
    rw [m.type_list] at hfit
    exact hfit
  | processDeposit fork => exact hw.processDeposit hctx hfits
  | processParticipationFlagUpdates validatorCount =>
    exact hw.processParticipationFlagUpdates hctx hfits
  | processInactivityUpdates config currentEpoch inActivityLeak statuses =>
    change Keeps _ w (w.put k (HeapState.processInactivityUpdates _ _ _ _ _))
    unfold HeapState.processInactivityUpdates
    split
    · rw [put_self hctx]
      exact ⟨hw, fun _ _ => rfl⟩
    · exact hw.update hctx (ListView.writes_setMultiple (hw.agrees hctx .inactivityScores)
        fun e he => ⟨newInactivityScores_lt he, hfits e he⟩).1
  | setStateCachesAsTransient => exact hw.convert hctx fun _ _ => ListView.writes_asTransient
  | setStateCachesAsPersistent => exact hw.convert hctx fun _ _ => ListView.writes_asPersistent
  | proxySet key value => exact hw.proxySet hctx
  | writeSubtree key node =>
    refine (hw.putTree hctx fun m => ?_).mono fun _ hi => hi.elim
    exact LawfulLibraries.getProperty_set_of_ne (hfits m).symm

omit [Preset] in
theorem Consistent.clone (hw : w.Consistent) (hctx : w.contexts[k]? = some ctx) :
    Keeps (·.1 = w.contexts.length) w (w.add (HeapState.clone (ctx, w.heap))) := by
  have hprevious := hw.agrees hctx .previousEpochParticipation
  have hcurrent := hw.agrees hctx .currentEpochParticipation
  have hscores := hw.agrees hctx .inactivityScores
  have hmakesPrevious := LawfulLibraries.vectors.clone hprevious.live
  have hcurrentKept := hmakesPrevious.frame _ hcurrent.live
  have hmakesCurrent := LawfulLibraries.vectors.clone hcurrentKept.1
  have hscoresKept := (hmakesPrevious.frame.trans hmakesCurrent.frame) _ hscores.live
  have hmakesScores := LawfulLibraries.vectors.clone hscoresKept.1
  refine hw.add (c := fun m => (ctx.view w.heap m).values) hmakesPrevious hmakesCurrent
    hmakesScores ⟨?_, ?_, ?_⟩ fun m node hnode => ?_
  · exact LawfulLibraries.vectors.toList_clone hprevious.live
  · exact (LawfulLibraries.vectors.toList_clone hcurrentKept.1).trans hcurrentKept.2
  · exact (LawfulLibraries.vectors.toList_clone hscoresKept.1).trans hscoresKept.2
  · have hagrees := hw.agrees hctx m
    have htree := hagrees.hook.symm.trans hnode
    exact ⟨hagrees.values node htree, hagrees.limit node htree⟩

/-- The lists that a state of phase0 gets. -/
def phase0Values (validatorCount : Nat) : ListName → List Nat
  | .previousEpochParticipation => List.replicate validatorCount 0
  | .currentEpochParticipation => List.replicate validatorCount 0
  | .inactivityScores => []

omit [Preset] in
theorem Consistent.createCachedBeaconState {fork : ForkName} {tree : StateTree}
    (hw : w.Consistent) (validatorCount : Nat)
    (hphase0 : fork = .phase0 → ∀ m : ListName, treeGetProperty tree m.key = none)
    (hlimit : ∀ m : ListName, ∀ node, treeGetProperty tree m.key = some node →
      (m.type.values node).length ≤ m.type.limit) :
    Keeps (·.1 = w.contexts.length) w
      (w.add (CachedLists.createCachedBeaconState fork validatorCount tree w.heap)) := by
  have hlib := LawfulLibraries.vectors
  unfold CachedLists.createCachedBeaconState
  split
  · rename_i hfork
    exact hw.add (c := phase0Values validatorCount)
      (hlib.fromValues _ _) (hlib.fromValues _ _) (hlib.empty _)
      ⟨hlib.toList_fromValues _ _, hlib.toList_fromValues _ _, hlib.toList_empty _⟩
      fun m node hnode => by rw [hphase0 hfork m] at hnode; cases hnode
  · exact hw.add (c := fun m => ((treeGetProperty tree m.key).map m.type.values).getD [])
      (hlib.fromValues _ _) (hlib.fromValues _ _) (hlib.fromValues _ _)
      ⟨hlib.toList_fromValues _ _, hlib.toList_fromValues _ _, hlib.toList_fromValues _ _⟩
      fun m node hnode => ⟨by rw [hnode]; rfl, hlimit m node hnode⟩

/-! ## All runs -/

/-- `ctx` is state `k`, as it was, and its lists hold what they held. -/
def Unchanged (k : Nat) (ctx : BeaconStateContext) (w w' : World) : Prop :=
  w'.contexts[k]? = some ctx ∧ ∀ m, HeapState.values (ctx, w'.heap) m
    = HeapState.values (ctx, w.heap) m

omit [LawfulLibraries] [Preset] in
theorem Keeps.unchanged {changed : Nat × ListName → Prop} {w' : World}
    (h : Keeps changed w w') (hctx : w.contexts[k]? = some ctx)
    (hctx' : w'.contexts[k]? = some ctx) (hk : ∀ m, ¬ changed (k, m)) : Unchanged k ctx w w' :=
  ⟨hctx', fun m => h.values_state hctx hctx' (hk m)⟩

theorem Consistent.exec {e : Event} (hw : w.Consistent) (hfits : w.Fits e) :
    (w.exec e).Consistent ∧ ∀ k ctx, w.contexts[k]? = some ctx → e.target ≠ some k →
      Unchanged k ctx w (w.exec e) := by
  -- a state that is added comes after those that are there
  have hadd : ∀ {s : HeapState}, Keeps (·.1 = w.contexts.length) w (w.add s) →
      (w.add s).Consistent ∧ ∀ k ctx, w.contexts[k]? = some ctx → Unchanged k ctx w (w.add s) := by
    intro s hkeeps
    refine ⟨hkeeps.consistent, fun k ctx hctx => ?_⟩
    have hk : k ≠ w.contexts.length :=
      Nat.ne_of_lt (List.getElem?_eq_some_iff.mp hctx).1
    exact hkeeps.unchanged hctx ((getElem?_add_of_ne hk s).trans hctx) fun _ => hk
  have hnothing : w.Consistent ∧ ∀ k ctx, w.contexts[k]? = some ctx → Unchanged k ctx w w :=
    ⟨hw, fun _ _ hctx => ⟨hctx, fun _ => rfl⟩⟩
  cases e with
  | act j action =>
    cases hctx₀ : w.contexts[j]? with
    | none =>
      have hexec : w.exec (.act j action) = w := by rw [World.exec, hctx₀]; rfl
      rw [hexec]
      exact ⟨hnothing.1, fun k ctx hctx _ => hnothing.2 k ctx hctx⟩
    | some ctx₀ =>
      have hexec : w.exec (.act j action) = w.put j (action.exec (ctx₀, w.heap)) := by
        rw [World.exec, hctx₀]; rfl
      have hkeeps := hw.act hctx₀ (hfits ctx₀ hctx₀)
      rw [hexec]
      refine ⟨hkeeps.consistent, fun k ctx hctx hk => ?_⟩
      have hne : k ≠ j := fun heq => hk (congrArg some heq.symm)
      exact hkeeps.unchanged hctx ((getElem?_put_of_ne hne _).trans hctx) fun _ => hne
  | clone j =>
    cases hctx₀ : w.contexts[j]? with
    | none =>
      have hexec : w.exec (.clone j) = w := by rw [World.exec, hctx₀]; rfl
      rw [hexec]
      exact ⟨hnothing.1, fun k ctx hctx _ => hnothing.2 k ctx hctx⟩
    | some ctx₀ =>
      have hexec : w.exec (.clone j) = w.add (HeapState.clone (ctx₀, w.heap)) := by
        rw [World.exec, hctx₀]; rfl
      have hboth := hadd (hw.clone hctx₀)
      rw [hexec]
      exact ⟨hboth.1, fun k ctx hctx _ => hboth.2 k ctx hctx⟩
  | createCachedBeaconState fork validatorCount tree =>
    have hboth := hadd (hw.createCachedBeaconState validatorCount hfits.1 hfits.2)
    exact ⟨hboth.1, fun k ctx hctx _ => hboth.2 k ctx hctx⟩

theorem Consistent.run {w' : World} {events : List Event} (hw : w.Consistent)
    (hrun : Run w events w') : w'.Consistent := by
  induction hrun with
  | nil w => exact hw
  | cons hfits _ ih => exact ih (hw.exec hfits).1

theorem Consistent.unchanged {w' : World} {events : List Event} (hw : w.Consistent)
    (hrun : Run w events w') (hctx : w.contexts[k]? = some ctx)
    (hothers : ∀ e ∈ events, e.target ≠ some k) : Unchanged k ctx w w' := by
  induction hrun with
  | nil w => exact ⟨hctx, fun _ => rfl⟩
  | cons hfits _ ih =>
    have hstep := hw.exec hfits
    have hfirst := hstep.2 k ctx hctx (hothers _ List.mem_cons_self)
    have hrest := ih hstep.1 hfirst.1 fun e he => hothers e (List.mem_cons_of_mem _ he)
    exact ⟨hrest.1, fun m => (hrest.2 m).trans (hfirst.2 m)⟩

/-- After every event of every run, each list of each state holds in its vector what the tree of
the state holds; and events that work on other states, clones of it among them, leave both as
they are. -/
theorem cachedLists_equal_trees {heap : Heap} {events : List Event}
    (hrun : Run ⟨heap, []⟩ events w) :
    (∀ (k : Nat) (ctx : BeaconStateContext), w.contexts[k]? = some ctx →
      ∀ name : ListName, ∀ node,
      treeGetProperty ctx.tree name.key = some node →
        (ctx.list name).tree = some node ∧
          vectors.toList (ctx.list name).persistent w.heap = name.type.values node) ∧
      ∀ later w', Run w later w' → ∀ (k : Nat) (ctx : BeaconStateContext),
        w.contexts[k]? = some ctx →
        (∀ e ∈ later, e.target ≠ some k) →
          w'.contexts[k]? = some ctx ∧ ∀ name : ListName,
            vectors.toList (ctx.list name).persistent w'.heap
              = vectors.toList (ctx.list name).persistent w.heap := by
  have hw := (consistent_start heap).run hrun
  constructor
  · intro k ctx hctx m node hnode
    have hagrees := hw.agrees hctx m
    have htree := hagrees.hook.symm.trans hnode
    exact ⟨htree, hagrees.values node htree⟩
  · intro later w' hlater k ctx hctx hothers
    exact hw.unchanged hlater hctx hothers

/-- In every state of every run, the statuses of a block are written as `processAttestations` writes
them to plain lists, whichever of its two ways is taken on the heap. -/
theorem values_updateEpochParticipants {heap : Heap} {events : List Event}
    (hrun : Run ⟨heap, []⟩ events w) (name : ParticipationName)
    {participation : List ParticipationFlags}
    (hvalues : w.values (k, name.list) = some (participation.map BitVec.toNat))
    {statuses : Std.TreeMap Nat ParticipationFlags}
    (hkeys : ∀ i ∈ statuses, i < participation.length) (numActiveValidators : Nat) :
    (w.exec (.act k (.updateEpochParticipants name
        (statuses.toList.map fun e => (e.1, e.2.toNat)) numActiveValidators))).values (k, name.list)
      = some ((updateEpochParticipants statuses (.ofList participation)
          numActiveValidators).persistent.map BitVec.toNat) := by
  obtain ⟨ctx, hctx, hview⟩ := Option.map_eq_some_iff.mp hvalues
  have hagrees := ((consistent_start heap).run hrun).agrees hctx name.list
  rw [World.exec, hctx]
  refine (values_of_getElem? (getElem?_put_self hctx _) name.list).trans (congrArg some ?_)
  rw [← ListView.updateEpochParticipants_refines hagrees hview hkeys]
  simp only [Action.exec, HeapState.update, BeaconStateContext.view, ListView.values,
    BeaconStateContext.list_put_self]
  rfl

end

end World

end

/-! ## A clone that goes on -/

/-- A node as the lists read it. -/
structure PlainNode where
  bytes : Nat → UInt8
  length : Nat
  numbers : List Nat

def PlainNode.empty : PlainNode where
  bytes := fun _ => 0
  length := 0
  numbers := []

structure PlainState where
  altair : Bool
  fields : String → PlainNode

def plainParticipation : ByteListType PlainNode where
  limit := 2 ^ 40
  bound := 256
  values := fun node => (List.range node.length).map fun i => (node.bytes i).toNat
  treeSetProperty := fun node i value =>
    { node with bytes := Function.update node.bytes i (UInt8.ofNat value) }
  treePush := fun node value =>
    { node with
      bytes := Function.update node.bytes node.length (UInt8.ofNat value)
      length := node.length + 1 }
  treePop := fun node => { node with length := node.length - 1 }
  getChunkDepth := 36
  chunkAt := fun node i => (List.range 32).map fun j => node.bytes (32 * i + j)
  treeGetLength := PlainNode.length
  treeSetLength := fun node length => { node with length := length }

def plainScores : BasicListType PlainNode where
  limit := 2 ^ 40
  bound := 2 ^ 64
  values := PlainNode.numbers
  treeSetProperty := fun node i value => { node with numbers := node.numbers.set i value }
  treePush := fun node value => { node with numbers := node.numbers ++ [value] }
  treePop := fun node => { node with numbers := node.numbers.dropLast }

@[reducible] def plainLibraries : Libraries where
  vectors := cellVectors Nat
  Node := PlainNode
  StateTree := PlainState
  epochParticipation := plainParticipation
  inactivityScores := plainScores
  subtreeFillToContents := fun leaves _ =>
    { PlainNode.empty with bytes := fun k => (leaves.getD (k / 32) []).getD (k % 32) 0 }
  treeGetProperty := fun state key => if state.altair then some (state.fields key) else none
  treeSetProperty := fun state key node =>
    { state with fields := Function.update state.fields key node }

theorem toNat_ofNat_of_lt {value : Nat} (hvalue : value < 256) :
    (UInt8.ofNat value).toNat = value := by
  rw [UInt8.toNat_ofNat']
  exact Nat.mod_eq_of_lt hvalue

theorem lawful_plainParticipation : plainParticipation.toBasicListType.Lawful where
  values_setProperty := by
    intro node index value hindex hvalue
    change index < ((List.range node.length).map fun i => (node.bytes i).toNat).length at hindex
    change (List.range node.length).map (fun i =>
        (Function.update node.bytes index (UInt8.ofNat value) i).toNat)
      = ((List.range node.length).map fun i => (node.bytes i).toNat).set index value
    refine List.ext_getElem? fun i => ?_
    rw [List.getElem?_map, List.getElem?_set, List.getElem?_map]
    by_cases hi : index = i
    · subst hi
      have hlength : index < node.length := by simpa using hindex
      rw [if_pos rfl, if_pos hindex, List.getElem?_range hlength, Option.map_some,
        Function.update_self, toNat_ofNat_of_lt hvalue]
    · rw [if_neg hi]
      cases hrange : (List.range node.length)[i]? with
      | none => rfl
      | some j =>
        have hj : j = i := by
          obtain ⟨_, hj⟩ := List.getElem?_eq_some_iff.mp hrange
          rw [← hj, List.getElem_range]
        rw [Option.map_some, Option.map_some, hj, Function.update_of_ne (Ne.symm hi)]
  values_push := by
    intro node value _ hvalue
    change (List.range (node.length + 1)).map (fun i =>
        (Function.update node.bytes node.length (UInt8.ofNat value) i).toNat)
      = ((List.range node.length).map fun i => (node.bytes i).toNat) ++ [value]
    rw [List.range_succ, List.map_append, List.map_singleton, Function.update_self,
      toNat_ofNat_of_lt hvalue]
    congr 1
    refine List.map_congr_left fun i hi => ?_
    rw [Function.update_of_ne (Nat.ne_of_lt (List.mem_range.mp hi))]
  values_pop := by
    intro node _
    change (List.range (node.length - 1)).map (fun i => (node.bytes i).toNat)
      = ((List.range node.length).map fun i => (node.bytes i).toNat).dropLast
    cases node.length with
    | zero => rfl
    | succ length => rw [List.range_succ, List.map_append, List.map_singleton,
        List.dropLast_concat, Nat.add_sub_cancel]

theorem lawful_plainScores : plainScores.Lawful where
  values_setProperty := fun _ _ => rfl
  values_push := fun _ _ => rfl
  values_pop := fun _ => rfl

attribute [local instance] plainLibraries

theorem lawful_plainLibraries : LawfulLibraries where
  vectors := lawful_cellVectors Nat
  type := by
    intro name
    cases name with
    | previousEpochParticipation => exact lawful_plainParticipation
    | currentEpochParticipation => exact lawful_plainParticipation
    | inactivityScores => exact lawful_plainScores
  values_bytes := by
    intro node
    change (List.range node.length).map (fun i => (node.bytes i).toNat)
      = (List.range node.length).map fun i =>
        (((List.range 32).map fun j => node.bytes (32 * (i / 32) + j)).getD (i % 32) 0).toNat
    refine List.map_congr_left fun i _ => ?_
    rw [List.getD_eq_getElem?_getD, List.getElem?_map,
      List.getElem?_range (Nat.mod_lt i (by decide)), Option.map_some, Option.getD_some,
      Nat.div_add_mod]
  limit_le := by decide
  bound_bytes := rfl
  bound_pos := by decide
  treeGetLength_setLength := fun _ _ => rfl
  chunkAt_setLength := fun _ _ _ => rfl
  chunkAt_fill := by
    intro leaves i leaf hlength _ hleaf
    change (List.range 32).map (fun j =>
      (leaves.getD ((32 * i + j) / 32) []).getD ((32 * i + j) % 32) 0) = leaf
    have hleaf32 := hlength leaf (List.mem_of_getElem? hleaf)
    refine List.ext_getElem (by rw [List.length_map, List.length_range, hleaf32]) fun j hj hj' => ?_
    have hdiv : (32 * i + j) / 32 = i := by omega
    have hmod : (32 * i + j) % 32 = j := by omega
    have hget : leaves.getD i [] = leaf := by rw [List.getD_eq_getElem?_getD, hleaf]; rfl
    rw [List.getElem_map, List.getElem_range, hdiv, hmod, hget, List.getD_eq_getElem?_getD,
      List.getElem?_eq_getElem hj', Option.getD_some]
  getProperty_set := by
    intro state key node hsome
    change (if state.altair then some (Function.update state.fields key node key) else none)
      = some node
    change (if state.altair then some (state.fields key) else none).isSome = true at hsome
    cases haltair : state.altair with
    | true => rw [if_pos rfl, Function.update_self]
    | false => rw [haltair] at hsome; cases hsome
  getProperty_set_of_ne := by
    intro state key key' node hne
    change (if state.altair then some (Function.update state.fields key node key') else none)
      = if state.altair then some (state.fields key') else none
    rw [Function.update_of_ne hne]
  isSome_getProperty := by
    intro state name name'
    change (if state.altair then some (state.fields name.key) else none).isSome
      = (if state.altair then some (state.fields name'.key) else none).isSome
    cases state.altair <;> rfl

attribute [local instance] lawful_plainLibraries minimal

/-- Two validators, with no flags and no scores. -/
def twoValidators : PlainState where
  altair := true
  fields := fun _ => { PlainNode.empty with length := 2, numbers := [0, 0] }

/-- A state is created and cloned. -/
def cloning : List Event :=
  [.createCachedBeaconState .altair 2 twoValidators, .clone 0]

/-- The clone is taken on: a block with a deposit, the end of an epoch, one more write. -/
def takenOn : List Event :=
  [.act 1 .setStateCachesAsTransient, .act 1 (.updateEpochParticipants .current [(0, 7), (1, 3)] 2),
    .act 1 (.processDeposit .altair), .act 1 (.processParticipationFlagUpdates 3),
    .act 1 (.set .previousEpochParticipation 2 1), .act 1 .setStateCachesAsPersistent]

/-- The run, event by event. -/
def World.execAll (w : World) (events : List Event) : World := events.foldl World.exec w

theorem run_cloning : World.Run ⟨[], []⟩ cloning (World.execAll ⟨[], []⟩ cloning) := by
  refine .cons ⟨fun hphase0 => absurd hphase0 (by decide), fun name node hnode => ?_⟩
    (.cons trivial (.nil _))
  cases hnode
  cases name <;> decide

theorem run_takenOn : World.Run (World.execAll ⟨[], []⟩ cloning) takenOn
    (World.execAll (World.execAll ⟨[], []⟩ cloning) takenOn) := by
  refine .cons (World.fits_act rfl trivial) (.cons (World.fits_act rfl ?_)
    (.cons (World.fits_act rfl ?_) (.cons (World.fits_act rfl ?_) (.cons (World.fits_act rfl ?_)
      (.cons (World.fits_act rfl trivial) (.nil _))))))
  · change ∀ e ∈ [(0, 7), (1, 3)], e.1 < 2 ∧ e.2 < 256
    decide
  · intro name
    cases name <;> decide
  · change 3 ≤ 2 ^ 40
    decide
  · change 2 < 3 ∧ 1 < 256
    decide

/-- The clone has its lists in its tree, and the lists of the state it was made from are as they
were. -/
theorem cachedLists_equal_trees_takenOn :
    (∃ ctx, (World.execAll (World.execAll ⟨[], []⟩ cloning) takenOn).contexts[1]? = some ctx ∧
      ∀ name : ListName, ∀ node, Libraries.treeGetProperty ctx.tree name.key = some node →
        (ctx.list name).tree = some node ∧
          CellVec.toList (ctx.list name).persistent
              (World.execAll (World.execAll ⟨[], []⟩ cloning) takenOn).heap
            = name.type.values node) ∧
      ∃ ctx, (World.execAll ⟨[], []⟩ cloning).contexts[0]? = some ctx ∧
        (World.execAll (World.execAll ⟨[], []⟩ cloning) takenOn).contexts[0]? = some ctx ∧
          ∀ name : ListName, CellVec.toList (ctx.list name).persistent
              (World.execAll (World.execAll ⟨[], []⟩ cloning) takenOn).heap
            = CellVec.toList (ctx.list name).persistent (World.execAll ⟨[], []⟩ cloning).heap :=
  ⟨⟨_, rfl, (World.cachedLists_equal_trees (run_cloning.append run_takenOn)).1 1 _ rfl⟩,
    ⟨_, rfl, (World.cachedLists_equal_trees run_cloning).2 takenOn _ run_takenOn 0 _ rfl
      (by decide)⟩⟩

/-- The clone's second validator attests. -/
def secondAttests : Std.TreeMap Nat ParticipationFlags := .insert ∅ 1 3

theorem values_updateEpochParticipants_cloning :
    ((World.execAll ⟨[], []⟩ cloning).exec (.act 1 (.updateEpochParticipants .current
      (secondAttests.toList.map fun e => (e.1, e.2.toNat)) 2))).values
        (1, .currentEpochParticipation) =
      some ((updateEpochParticipants secondAttests (.ofList [0, 0]) 2).persistent.map
        BitVec.toNat) := by
  refine World.values_updateEpochParticipants run_cloning .current rfl (fun i hi => ?_) 2
  simp only [secondAttests, Std.TreeMap.mem_insert] at hi
  simp at hi
  exact hi ▸ Nat.one_lt_two

example : (World.execAll (World.execAll ⟨[], []⟩ cloning) takenOn).values
    (1, .previousEpochParticipation) = some [7, 3, 1] := rfl

end Lodestar.StateTransition.CachedLists
