import Lodestar.LightClient.BestUpdate
import Lodestar.LightClient.Tasks

/-!
# Best updates under concurrency

Two tasks that read the stored update of a period before either puts its own
leave the one that is put last. `RunImproves` says that every put finds an
update that is not better, which is so for a put that finds what its task has
read, up to the finality test of `isBetterUpdate`.
-/

namespace Lodestar.LightClient

open Lodestar.Base Lodestar.Base.Conf Lodestar.StateTransition

section Main

variable [Preset] {ι : Type} [DecidableEq ι]

/-! ## Tasks of the imports -/

/-- The arguments of a call of `onImportBlock`. -/
structure ImportCall where
  block : BeaconBlock
  postState : BeaconState
  parentBlock : ParentBlock

/-- The two tasks of a call. -/
inductive Half where
  | onSyncAggregate
  | persistPostBlockImportData
  deriving DecidableEq

def tasks (imports : ι → ImportCall) : ι × Half → ServerTask Unit
  | (i, .onSyncAggregate) =>
    ServerTask.onSyncAggregate (imports i).block.syncAggregate (imports i).block.parentRoot
  | (i, .persistPostBlockImportData) =>
    ServerTask.persistPostBlockImportData (imports i).block (imports i).postState
      (imports i).parentBlock

/-- The tasks and the server at a point of a run. -/
abbrev ServerConf (ι : Type) :=
  Conf (ι × Half) ServerOp ServerOp.Resp LightClientServerError Unit LightClientServer

/-- The run of a schedule. -/
abbrev afterTurns (imports : ι → ImportCall) (this : LightClientServer) (sched : List (ι × Half)) :
    ServerConf ι :=
  exec ServerOp.act sched (start (tasks imports) this)

/-- The data that an operation has found to be signed. -/
def attestedOf : TaskEvent → Option SyncAttestedData
  | ⟨.prevHeadDataGet _, data⟩ => data
  | _ => none

/-- The pair that the call has offered, by what its first operation has found. -/
def offer (imports : ι → ImportCall) (tr : List ((ι × Half) × TaskEvent)) (i : ι) :
    Option SignedData :=
  ((view tr (i, .onSyncAggregate)).head?.bind attestedOf).map fun attestedData =>
    ⟨(imports i).block.syncAggregate, attestedData⟩

/-! ## Runs -/

/-- The stored update is as good as the pair. -/
def AsGood (best : Option PartialLightClientUpdate) (signed : SignedData) : Prop :=
  ∃ update, best = some update ∧
    isBetterUpdate update signed.syncAggregate signed.attestedData = false

/-- Once all tasks have ended, the stored update of a period is as good as each that was offered. -/
def KeepsBest (imports : ι → ImportCall) (this : LightClientServer) (sched : List (ι × Half)) :
    Prop :=
  (∀ task, ((afterTurns imports this sched).thread task).isDone = true) →
    ∀ i, ∀ signed ∈ offer imports (afterTurns imports this sched).trace i,
      AsGood ((afterTurns imports this sched).store.db.bestPartialLightClientUpdate signed.period)
        signed

/-- The update that is put weighs as much as the stored one, and is finalized if that one, or its
own pair, is finalized with a majority. -/
def Improves (best : Option PartialLightClientUpdate) (offered : Option SignedData)
    (update : PartialLightClientUpdate) : Prop :=
  (∀ prevBestUpdate ∈ best, prevBestUpdate.stats.weight ≤ update.stats.weight ∧
    (prevBestUpdate.stats.Supermajority → update.isFinalized = true)) ∧
  ∀ signed ∈ offered, signed.stats.Supermajority → update.isFinalized = true

instance (best : Option PartialLightClientUpdate) (offered : Option SignedData)
    (update : PartialLightClientUpdate) : Decidable (Improves best offered update) :=
  inferInstanceAs (Decidable (_ ∧ _))

/-- The update that the task is about to put, and its period. -/
def putOf : ServerTask Unit → Option (Nat × PartialLightClientUpdate)
  | .await (.bestPartialUpdatePut period update) _ => some (period, update)
  | _ => none

/-- The turn is not a put, or one that improves on what is stored. -/
def StepImproves (imports : ι → ImportCall) (c : ServerConf ι) (task : ι × Half) : Prop :=
  ∀ put ∈ putOf (c.thread task),
    Improves (c.store.db.bestPartialLightClientUpdate put.1) (offer imports c.trace task.1) put.2

instance (imports : ι → ImportCall) (c : ServerConf ι) (task : ι × Half) :
    Decidable (StepImproves imports c task) :=
  inferInstanceAs (Decidable (∀ put ∈ putOf (c.thread task), _))

/-- Every put improves on what is stored by then. -/
def RunImproves (imports : ι → ImportCall) (c : ServerConf ι) : List (ι × Half) → Prop
  | [] => True
  | task :: sched => StepImproves imports c task ∧ RunImproves imports (c.step ServerOp.act task) sched

instance instDecidableRunImproves (imports : ι → ImportCall) : ∀ (c : ServerConf ι) (sched : List (ι × Half)),
    Decidable (RunImproves imports c sched)
  | _, [] => inferInstanceAs (Decidable True)
  | c, task :: sched =>
    have := instDecidableRunImproves imports (c.step ServerOp.act task) sched
    inferInstanceAs (Decidable (_ ∧ _))

/-! ## A task from inside -/

variable {signed : SignedData} {tr : List TaskEvent}

theorem isBetterUpdate_eq_false_iff {update : PartialLightClientUpdate} :
    isBetterUpdate update signed.syncAggregate signed.attestedData = false ↔
      (signed.stats.Supermajority → update.isFinalized = true) ∧
        signed.stats.weight ≤ update.stats.weight := by
  rw [isBetterUpdate_eq, ← Bool.not_eq_true, LightclientUpdateStats.isBetterUpdate_iff, not_or,
    not_lt, not_and']
  exact and_congr_left' (imp_congr_right fun _ => Bool.not_eq_false _ ▸ Iff.rfl)

theorem exec_getFinalizedHeader {root : Root}
    {r : Except LightClientServerError (Option BeaconBlockHeader)}
    (h : Prog.Exec (ServerTask.getFinalizedHeader root) tr r) : ∃ header, r = .ok header := by
  unfold ServerTask.getFinalizedHeader at h
  obtain ⟨(cached : Option BeaconBlockHeader), t, rfl, hcached⟩ := Prog.exec_op_bind h
  cases cached with
  | some header => exact ⟨_, (Prog.exec_pure.mp hcached).2⟩
  | none =>
    obtain ⟨(stored : Option BeaconBlockHeader), t', rfl, hstored⟩ := Prog.exec_op_bind hcached
    cases stored with
    | none => exact ⟨_, (Prog.exec_pure.mp hstored).2⟩
    | some header =>
      obtain ⟨_, t'', rfl, hret⟩ := Prog.exec_op_bind hstored
      exact ⟨_, (Prog.exec_pure.mp hret).2⟩

theorem exec_newPartialUpdate {r : Except LightClientServerError PartialLightClientUpdate}
    (h : Prog.Exec (ServerTask.newPartialUpdate signed.syncAggregate signed.attestedData) tr r) :
    ∃ update : PartialLightClientUpdate, r = .ok update ∧
      update.stats.weight = signed.stats.weight := by
  unfold ServerTask.newPartialUpdate at h
  cases hfinality : signed.attestedData.finality with
  | none =>
    rw [hfinality] at h
    exact ⟨_, (Prog.exec_pure.mp h).2, rfl⟩
  | some finality =>
    rw [hfinality] at h
    rcases Prog.exec_bind h with ⟨t₁, t₂, header, rfl, -, hret⟩ | ⟨e, rfl, hheader⟩
    · exact ⟨_, (Prog.exec_pure.mp hret).2, rfl⟩
    · obtain ⟨header, hok⟩ := exec_getFinalizedHeader hheader
      cases hok

variable (signed) in
theorem exec_maybeStoreNewBestPartialUpdate {r : Except LightClientServerError Unit}
    (h : Prog.Exec (ServerTask.maybeStoreNewBestPartialUpdate signed.syncAggregate
      signed.attestedData) tr r) :
    ∃ tr', (∃ best : PartialLightClientUpdate,
        tr = tr' ++ [⟨.bestPartialUpdateGet signed.period, some best⟩] ∧
          isBetterUpdate best signed.syncAggregate signed.attestedData = false) ∨
      ∃ update : PartialLightClientUpdate,
        tr = tr' ++ [⟨.bestPartialUpdatePut signed.period update, ()⟩] ∧
          update.stats.weight = signed.stats.weight := by
  unfold ServerTask.maybeStoreNewBestPartialUpdate at h
  obtain ⟨(prev : Option PartialLightClientUpdate), t, rfl, hread⟩ := Prog.exec_op_bind h
  have hstore : ∀ {t}, Prog.Exec (do
      let newPartialUpdate ← ServerTask.newPartialUpdate signed.syncAggregate signed.attestedData
      let _ ← ServerTask.op (.bestPartialUpdatePut signed.period newPartialUpdate)
      return ()) t r → ∃ t' : List TaskEvent, ∃ update : PartialLightClientUpdate,
        t = t' ++ [⟨.bestPartialUpdatePut signed.period update, ()⟩] ∧
          update.stats.weight = signed.stats.weight := by
    intro t h
    rcases Prog.exec_bind h with ⟨t₁, t₂, update, rfl, hnew, hput⟩ | ⟨e, rfl, hnew⟩
    · obtain ⟨update', hok, hweight⟩ := exec_newPartialUpdate hnew
      cases hok
      obtain ⟨⟨⟩, t₃, rfl, hret⟩ := Prog.exec_op_bind hput
      obtain ⟨rfl, -⟩ := Prog.exec_pure.mp hret
      exact ⟨t₁, update, rfl, hweight⟩
    · obtain ⟨update', hok, -⟩ := exec_newPartialUpdate hnew
      cases hok
  cases prev with
  | none =>
    obtain ⟨t', update, rfl, hweight⟩ := hstore hread
    exact ⟨_ :: t', .inr ⟨update, rfl, hweight⟩⟩
  | some best =>
    dsimp only at hread
    by_cases hkeeps : (!isBetterUpdate best signed.syncAggregate signed.attestedData) = true
    · rw [if_pos hkeeps] at hread
      obtain ⟨rfl, -⟩ := Prog.exec_pure.mp hread
      exact ⟨[], .inl ⟨best, rfl, by simpa using hkeeps⟩⟩
    · rw [if_neg hkeeps] at hread
      obtain ⟨t', update, rfl, hweight⟩ := hstore hread
      exact ⟨_ :: t', .inr ⟨update, rfl, hweight⟩⟩

theorem exec_onSyncAggregate {syncAggregate : SyncAggregate} {signedBlockRoot : Root}
    {r : Except LightClientServerError Unit}
    (h : Prog.Exec (ServerTask.onSyncAggregate syncAggregate signedBlockRoot) tr r) :
    ∃ (found : Option SyncAttestedData) (t : List TaskEvent),
      tr = ⟨.prevHeadDataGet signedBlockRoot, found⟩ :: t ∧
        ∀ attestedData, found = some attestedData → ∃ e t', t = e :: t' ∧
          Prog.Exec (ServerTask.maybeStoreNewBestPartialUpdate syncAggregate attestedData) t' r := by
  unfold ServerTask.onSyncAggregate at h
  obtain ⟨(found : Option SyncAttestedData), t, rfl, hfound⟩ := Prog.exec_op_bind h
  refine ⟨found, t, rfl, ?_⟩
  rintro attestedData rfl
  obtain ⟨x, t', rfl, hrest⟩ := Prog.exec_op_bind hfound
  exact ⟨_, t', rfl, hrest⟩

/-! ## Turns -/

theorem bestPartialLightClientUpdate_act {o : ServerOp} {this : LightClientServer}
    (h : ∀ period update, o ≠ .bestPartialUpdatePut period update) :
    (o.act this).2.db.bestPartialLightClientUpdate = this.db.bestPartialLightClientUpdate := by
  cases o with
  | bestPartialUpdatePut period update => exact absurd rfl (h period update)
  | latestHeadUpdate headerUpdate =>
    show (this.updateLatestHeadUpdate headerUpdate).db.bestPartialLightClientUpdate = _
    unfold LightClientServer.updateLatestHeadUpdate
    split
    · rfl
    · split_ifs <;> rfl
  | addDependantRoot period root =>
    show (this.addDependantRoot period root).db.bestPartialLightClientUpdate = _
    unfold LightClientServer.addDependantRoot
    split_ifs <;> rfl
  | _ => rfl

variable {imports : ι → ImportCall} {this : LightClientServer} {c : ServerConf ι} {task : ι × Half}

theorem AsGood.improves {best : Option PartialLightClientUpdate} {offered : Option SignedData}
    {update : PartialLightClientUpdate} (h : AsGood best signed)
    (himproves : Improves best offered update) : AsGood (some update) signed := by
  obtain ⟨prevBestUpdate, rfl, hprev⟩ := h
  obtain ⟨hfinalized, hweight⟩ := isBetterUpdate_eq_false_iff.mp hprev
  obtain ⟨hle, hkept⟩ := himproves.1 prevBestUpdate rfl
  refine ⟨update, rfl, isBetterUpdate_eq_false_iff.mpr ⟨fun hsuper => hkept ?_, hweight.trans hle⟩⟩
  -- the stored update is finalized, with as many bits as the majority
  have hbits := LightclientUpdateStats.participation_le_of_weight_le hweight
  have hmajority := hsuper.2
  exact ⟨hfinalized hsuper, by omega⟩

/-- A turn that improves leaves what is as good as before. -/
theorem AsGood.step (h : AsGood (c.store.db.bestPartialLightClientUpdate signed.period) signed)
    (himproves : StepImproves imports c task) :
    AsGood ((c.step ServerOp.act task).store.db.bestPartialLightClientUpdate signed.period)
      signed := by
  rcases c.step_cases ServerOp.act task with ⟨o, k, htask⟩ | hsame
  · unfold StepImproves at himproves
    rw [htask] at himproves
    rw [step_await htask]
    dsimp only
    by_cases hput : ∃ period update, o = .bestPartialUpdatePut period update
    · obtain ⟨period, update, rfl⟩ := hput
      show AsGood (Repository.put _ period update signed.period) signed
      by_cases hperiod : signed.period = period
      · subst hperiod
        rw [Repository.put_self]
        exact h.improves (himproves (_, update) rfl)
      · rw [Repository.put_of_ne hperiod]
        exact h
    · rw [bestPartialLightClientUpdate_act fun period update ho => hput ⟨period, update, ho⟩]
      exact h
  · rw [hsame]
    exact h

/-- What holds between two turns. -/
structure BetweenTurns (imports : ι → ImportCall) (this : LightClientServer) (c : ServerConf ι) :
    Prop where
  point : Point ServerOp.act (tasks imports) this c
  asGood : ∀ i, (c.thread (i, .onSyncAggregate)).isDone = true →
    ∀ signed ∈ offer imports c.trace i,
      AsGood (c.store.db.bestPartialLightClientUpdate signed.period) signed

theorem asGood_of_last_turn {i : ι} {o : ServerOp} {k : o.Resp → ServerTask Unit}
    (hpoint : Point ServerOp.act (tasks imports) this c)
    (htask : c.thread (i, .onSyncAggregate) = .await o k)
    (himproves : StepImproves imports c (i, .onSyncAggregate))
    (hdone : ((c.step ServerOp.act (i, .onSyncAggregate)).thread (i, .onSyncAggregate)).isDone = true)
    (hsigned : signed ∈ offer imports (c.step ServerOp.act (i, .onSyncAggregate)).trace i) :
    AsGood ((c.step ServerOp.act (i, .onSyncAggregate)).store.db.bestPartialLightClientUpdate
      signed.period) signed := by
  obtain ⟨r, hexec⟩ := Prog.exec_of_isDone hdone
  have hview := (hpoint.step (i, .onSyncAggregate)).rest _ _ _ hexec
  rw [List.append_nil] at hview
  obtain ⟨found, t, htrace, hfound⟩ := exec_onSyncAggregate hview
  unfold offer at hsigned
  rw [htrace] at hsigned
  obtain ⟨attestedData, hattested, rfl⟩ := Option.map_eq_some_iff.mp hsigned
  obtain ⟨e, t', rfl, hstore⟩ := hfound attestedData hattested
  obtain ⟨tr', hlast⟩ := exec_maybeStoreNewBestPartialUpdate
    ⟨(imports i).block.syncAggregate, attestedData⟩ hstore
  rw [step_await htask, view_append, view_cons_self, view_nil] at htrace
  rw [step_await htask]
  dsimp only
  rcases hlast with ⟨best, rfl, hbest⟩ | ⟨update, rfl, hweight⟩
  · obtain ⟨-, hevent⟩ := List.append_inj' (htrace.trans (List.append_assoc [_, e] tr' _).symm) rfl
    obtain ⟨rfl, hbest'⟩ := Sigma.mk.inj (List.head_eq_of_cons_eq hevent)
    exact ⟨best, eq_of_heq hbest', hbest⟩
  · obtain ⟨hinit, hevent⟩ :=
      List.append_inj' (htrace.trans (List.append_assoc [_, e] tr' _).symm) rfl
    have hoffer : offer imports c.trace i =
        some ⟨(imports i).block.syncAggregate, attestedData⟩ := by
      unfold offer
      rw [hinit]
      exact hsigned
    obtain ⟨rfl, -⟩ := Sigma.mk.inj (List.head_eq_of_cons_eq hevent)
    unfold StepImproves at himproves
    rw [htask] at himproves
    refine ⟨update, Repository.put_self, isBetterUpdate_eq_false_iff.mpr ⟨?_, hweight.ge⟩⟩
    exact (himproves (_, update) rfl).2 _ hoffer

theorem BetweenTurns.step (h : BetweenTurns imports this c) (himproves : StepImproves imports c task) :
    BetweenTurns imports this (c.step ServerOp.act task) := by
  refine ⟨h.point.step task, ?_⟩
  intro i hdone signed hsigned
  rcases c.step_cases ServerOp.act task with ⟨o, k, htask⟩ | hsame
  · by_cases hi : task = (i, .onSyncAggregate)
    · subst hi
      exact asGood_of_last_turn h.point htask himproves hdone hsigned
    · have hview : view (c.step ServerOp.act task).trace (i, .onSyncAggregate) =
          view c.trace (i, .onSyncAggregate) := by
        rw [step_await htask, view_append, view_cons_ne hi, view_nil, List.append_nil]
      have hthread : (c.step ServerOp.act task).thread (i, .onSyncAggregate) =
          c.thread (i, .onSyncAggregate) := by
        rw [step_await htask]
        exact Function.update_of_ne (Ne.symm hi) _ _
      rw [hthread] at hdone
      unfold offer at hsigned
      rw [hview] at hsigned
      exact (h.asGood i hdone signed hsigned).step himproves
  · rw [hsame] at hdone hsigned ⊢
    exact h.asGood i hdone signed hsigned

theorem BetweenTurns.run {sched : List (ι × Half)} (h : BetweenTurns imports this c)
    (himproves : RunImproves imports c sched) :
    BetweenTurns imports this (exec ServerOp.act sched c) := by
  induction sched generalizing c with
  | nil => exact h
  | cons task sched ih => exact ih (h.step himproves.1) himproves.2

/-- If every put improves on what is stored by then, no best update is lost. -/
theorem keepsBest_of_runImproves {sched : List (ι × Half)}
    (himproves : RunImproves imports (start (tasks imports) this) sched) :
    KeepsBest imports this sched := by
  have hstart : BetweenTurns imports this (start (tasks imports) this) := by
    refine ⟨.start _ _, ?_⟩
    rintro i hdone signed hsigned
    cases hsigned
  intro hdone i signed hsigned
  exact (hstart.run himproves).asGood i (hdone _) signed hsigned

end Main

/-! ## A lost update -/

attribute [local instance] minimal

/-- A block whose sync aggregate has `bits` members. -/
def importCall (slot : Nat) (root : Root) (parentBlock : ParentBlock) (bits : Nat) :
    ImportCall where
  block :=
    { slot := slot
      proposerIndex := 0
      parentRoot := parentBlock.blockRoot
      stateRoot := 0
      syncAggregate := ⟨Vector.ofFn fun i => i.val < bits, 0⟩
      bodyRoot := 0
      hashTreeRoot := root }
  postState :=
    { currentSyncCommittee := ⟨[], 0⟩
      nextSyncCommittee := ⟨[], 0⟩
      finalizedCheckpoint := ⟨0, 0⟩
      tree := fun gindex => BitVec.ofNat 256 gindex }
  parentBlock := parentBlock

/-- A block and two children of it, of which the first signs it with more members. -/
def siblingImports : Fin 3 → ImportCall
  | 0 => importCall 1 1 ⟨0xaa, 0⟩ 20
  | 1 => importCall 2 2 ⟨1, 1⟩ 30
  | 2 => importCall 3 3 ⟨1, 1⟩ 20

def turns (i : Fin 3) (half : Half) (n : Nat) : List (Fin 3 × Half) := List.replicate n (i, half)

def persistTurns (i : Fin 3) : List (Fin 3 × Half) := turns i .persistPostBlockImportData 10

/-- Both children read before either puts. -/
def racingTurns : List (Fin 3 × Half) :=
  turns 0 .onSyncAggregate 2 ++ persistTurns 0 ++
    turns 1 .onSyncAggregate 3 ++ turns 2 .onSyncAggregate 3 ++
    turns 1 .onSyncAggregate 1 ++ turns 2 .onSyncAggregate 1 ++ persistTurns 1 ++ persistTurns 2

/-- The second child reads what the first has put. -/
def serialTurns : List (Fin 3 × Half) :=
  turns 0 .onSyncAggregate 2 ++ persistTurns 0 ++
    turns 1 .onSyncAggregate 4 ++ turns 2 .onSyncAggregate 4 ++ persistTurns 1 ++ persistTurns 2

theorem isDone_racingTurns (task : Fin 3 × Half) :
    ((afterTurns siblingImports (.new .empty) racingTurns).thread task).isDone = true := by
  have hdone : ∀ i : Fin 3,
      ((afterTurns siblingImports (.new .empty) racingTurns).thread (i, .onSyncAggregate)).isDone
        = true ∧
      ((afterTurns siblingImports (.new .empty) racingTurns).thread
        (i, .persistPostBlockImportData)).isDone = true := by decide +kernel
  obtain ⟨i, half⟩ := task
  cases half with
  | onSyncAggregate => exact (hdone i).1
  | persistPostBlockImportData => exact (hdone i).2

theorem not_keepsBest_racingTurns : ¬ KeepsBest siblingImports (.new .empty) racingTurns := by
  intro h
  have hoffer : (offer siblingImports (afterTurns siblingImports (.new .empty) racingTurns).trace
      1).isSome = true := by decide +kernel
  obtain ⟨signed, hsigned⟩ := Option.isSome_iff_exists.mp hoffer
  obtain ⟨update, hstored, hbetter⟩ := h isDone_racingTurns 1 signed hsigned
  have hworse : ((offer siblingImports
      (afterTurns siblingImports (.new .empty) racingTurns).trace 1).bind fun signed =>
        ((afterTurns siblingImports (.new .empty) racingTurns).store.db.bestPartialLightClientUpdate
          signed.period).map fun update =>
            isBetterUpdate update signed.syncAggregate signed.attestedData) = some true := by
    decide +kernel
  rw [hsigned, Option.bind_some, hstored, Option.map_some, hbetter] at hworse
  cases hworse

theorem runImproves_serialTurns :
    RunImproves siblingImports (start (tasks siblingImports) (.new .empty)) serialTurns := by
  decide +kernel

theorem keepsBest_serialTurns : KeepsBest siblingImports (.new .empty) serialTurns :=
  keepsBest_of_runImproves runImproves_serialTurns

end Lodestar.LightClient
