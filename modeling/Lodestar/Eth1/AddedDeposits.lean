import Lodestar.Base.Except
import Lodestar.Eth1.DepositsCache

/-!
# Adding deposit events

`Eth1DepositsCache.add` extends two repositories and the tree of deposit data
by the events that are new. The roots are stored before the tree takes them, and
the tree throws on a root that comes past its end.
-/

namespace Lodestar.Eth1

open Lodestar.Base Lodestar.StateTransition

/-- Assignment to an index of the `TreeBacked<List<Root>>`. -/
class DepositRootTree where
  setProperty : List Root → Nat → Root → Except String (List Root)
  setProperty_length : ∀ tree root, setProperty tree tree.length root = .ok (tree ++ [root])
  setProperty_gt : ∀ (tree : List Root) (index : Nat) (root : Root), tree.length < index →
    ∃ e, setProperty tree index root = .error e

inductive AddError where
  /-- `Non consecutive deposits. deposit[${i}] = ${indexLeft}, deposit[${i + 1}] ${indexRight}`. -/
  | nonConsecutive (i indexLeft indexRight : Nat)
  | MISSING_DEPOSIT_LOG (newIndex lastLogIndex : Nat)
  | DUPLICATE_DISTINCT_LOG (newIndex lastLogIndex : Nat)
  | NON_CONSECUTIVE_LOGS (newIndex lastLogIndex : Nat)
  /-- An error of the tree. -/
  | tree (message : String)

/-- The repositories of the cache, and the tree once it was read. -/
structure DepositsDb where
  depositEvent : KeyValues DepositEvent
  depositDataRoot : KeyValues Root
  depositRootTree : Option (List Root)

def DepositsDb.empty : DepositsDb := ⟨∅, ∅, none⟩

/-- The loop of `assertConsecutiveDeposits` from position `i`. -/
def assertConsecutiveDeposits (i : Nat) : List DepositEvent → Except AddError Unit
  | left :: right :: depositEvents =>
    if (left.index : Int) ≠ (right.index : Int) - 1 then
      .error (.nonConsecutive i left.index right.index)
    else assertConsecutiveDeposits (i + 1) (right :: depositEvents)
  | _ => .ok ()

def lastValue {α : Type} (m : KeyValues α) : Option α :=
  (m.values { limit := some 1, reverse := true }).head?

def batchPut {α : Type} (m : KeyValues α) (items : List (Nat × α)) : KeyValues α :=
  items.foldl (fun m item => m.insert item.1 item.2) m

/-- The events that are there already. Their serializations are compared, as the events are. -/
def checkSkipEvents (depositEvent : KeyValues DepositEvent) (newIndex lastLogIndex : Nat) :
    List DepositEvent → Except AddError Unit
  | [] => .ok ()
  | event :: skipEvents =>
    match depositEvent[event.index]? with
    | none => .error (.MISSING_DEPOSIT_LOG newIndex lastLogIndex)
    | some prevDBEvent =>
      if prevDBEvent ≠ event then .error (.DUPLICATE_DISTINCT_LOG newIndex lastLogIndex)
      else checkSkipEvents depositEvent newIndex lastLogIndex skipEvents

/-- The events to add, if they follow those in the database. -/
def newEvents (unsafeAllowDepositDataOverwrite : Bool) (depositEvent : KeyValues DepositEvent)
    (depositEvents : List DepositEvent) : Except AddError (List DepositEvent) :=
  match lastValue depositEvent, depositEvents.head? with
  | some lastLog, some firstEvent =>
    let newIndex := firstEvent.index
    let lastLogIndex := lastLog.index
    if !unsafeAllowDepositDataOverwrite && newIndex ≤ lastLogIndex then do
      let skipEvents := depositEvents.take (lastLogIndex - newIndex + 1)
      checkSkipEvents depositEvent newIndex lastLogIndex skipEvents
      return depositEvents.drop (lastLogIndex - newIndex + 1)
    else if newIndex > lastLogIndex + 1 then
      throw (.NON_CONSECUTIVE_LOGS newIndex lastLogIndex)
    else return depositEvents
  | _, _ => return depositEvents

def DepositsDb.getDepositRootTree (db : DepositsDb) : List Root :=
  db.depositRootTree.getD (db.depositDataRoot.values {})

section

variable [DepositRootTree]

/-- The loop of `batchPut` over the tree, which it leaves as far as it came. -/
def putRoots : List (Nat × Root) → List Root → List Root × Except AddError Unit
  | [], depositRootTree => (depositRootTree, .ok ())
  | (key, value) :: items, depositRootTree =>
    match DepositRootTree.setProperty depositRootTree key value with
    | .ok depositRootTree => putRoots items depositRootTree
    | .error e => (depositRootTree, .error (.tree e))

/-- `DepositDataRootRepository.batchPut`: the database comes first. -/
def batchPutRoots (items : List (Nat × Root)) : EStateM AddError DepositsDb Unit := do
  let depositRootTree := (← get).getDepositRootTree
  modify fun db => { db with
    depositDataRoot := batchPut db.depositDataRoot items
    depositRootTree := some (putRoots items depositRootTree).1 }
  MonadExcept.ofExcept (putRoots items depositRootTree).2

variable [DepositCrypto]

def add (unsafeAllowDepositDataOverwrite : Bool) (depositEvents : List DepositEvent) :
    EStateM AddError DepositsDb Unit := do
  MonadExcept.ofExcept (assertConsecutiveDeposits 0 depositEvents)
  let depositEvents ← MonadExcept.ofExcept
    (newEvents unsafeAllowDepositDataOverwrite (← get).depositEvent depositEvents)
  batchPutRoots (depositEvents.map fun event => (event.index, hashTreeRoot event.depositData))
  modify fun db => { db with
    depositEvent := batchPut db.depositEvent (depositEvents.map fun event => (event.index, event)) }

end

/-! ## Consecutive events -/

variable {depositEvents log : List DepositEvent} {first : DepositEvent}

/-- The indices count up from that of the first event. -/
def Consecutive (depositEvents : List DepositEvent) : Prop :=
  ∀ first ∈ depositEvents.head?, ∀ (i : Nat) (event : DepositEvent),
    depositEvents[i]? = some event → event.index = first.index + i

theorem Consecutive.tail {event : DepositEvent} (h : Consecutive (event :: depositEvents)) :
    Consecutive depositEvents := by
  intro first hfirst i next hnext
  have hnext := h event rfl (i + 1) next hnext
  have hsecond := h event rfl 1 first (by rwa [List.head?_eq_getElem?] at hfirst)
  omega

theorem assertConsecutiveDeposits_eq_ok_iff (i : Nat) :
    assertConsecutiveDeposits i depositEvents = .ok () ↔ Consecutive depositEvents := by
  induction depositEvents generalizing i with
  | nil => exact iff_of_true rfl fun _ h => absurd h (by simp)
  | cons left rest ih =>
    cases rest with
    | nil =>
      refine iff_of_true rfl fun first hfirst j event hevent => ?_
      obtain rfl := Option.some.inj (Option.mem_def.mp hfirst)
      cases j with
      | zero => rw [← Option.some.inj hevent]; rfl
      | succ j => cases hevent
    | cons right rest =>
      rw [assertConsecutiveDeposits]
      split_ifs with hgap
      · refine iff_of_false (fun h => by cases h) fun h => hgap ?_
        have := h left rfl 1 right rfl
        omega
      · rw [ih]
        refine ⟨fun h first hfirst j event hevent => ?_, fun h => h.tail⟩
        obtain rfl := Option.some.inj (Option.mem_def.mp hfirst)
        cases j with
        | zero => rw [← Option.some.inj hevent]; rfl
        | succ j =>
          have := h right rfl j event hevent
          omega

theorem Consecutive.drop_eq_filter (h : Consecutive depositEvents)
    (hfirst : depositEvents.head? = some first) (count : Nat) :
    depositEvents.drop (count - first.index) = depositEvents.filter (count ≤ ·.index) := by
  induction depositEvents generalizing first with
  | nil => simp
  | cons event rest ih =>
    obtain rfl := Option.some.inj hfirst
    rw [List.filter_cons]
    by_cases hle : count ≤ event.index
    · have hall : rest.filter (count ≤ ·.index) = rest := by
        refine List.filter_eq_self.mpr fun next hnext => ?_
        obtain ⟨j, hj⟩ := List.getElem?_of_mem hnext
        have := h event rfl (j + 1) next hj
        exact decide_eq_true (by omega)
      rw [if_pos (decide_eq_true hle), Nat.sub_eq_zero_of_le hle, hall]
      rfl
    · rw [if_neg (by simpa using hle), show count - event.index = count - event.index - 1 + 1 by omega,
        List.drop_succ_cons]
      cases hrest : rest.head? with
      | none =>
        rw [List.head?_eq_none_iff.mp hrest]
        simp
      | some next =>
        have hnext : next.index = event.index + 1 :=
          h event rfl 1 next (by rwa [List.head?_eq_getElem?] at hrest)
        rw [← ih h.tail hrest, hnext, Nat.sub_sub]

/-! ## Values by position -/

theorem lastValue_eq {α : Type} (m : KeyValues α) :
    lastValue m = m.toList.getLast?.map Prod.snd := by
  have hall : (m.toList.filter fun entry => FilterOptions.contains
      { limit := some 1, reverse := true } entry.1) = m.toList :=
    List.filter_eq_self.mpr fun _ _ => rfl
  unfold lastValue KeyValues.values KeyValues.entries
  rw [hall]
  show ((m.toList.reverse.take 1).map (·.2)).head? = _
  rw [List.head?_map, List.head?_take, if_neg Nat.one_ne_zero, List.head?_reverse]

theorem lastValue_eq_getLast? {α : Type} {m : KeyValues α} {l : List α}
    (h : ∀ i : Nat, m[i]? = l[i]?) : lastValue m = l.getLast? := by
  rw [lastValue_eq]
  cases hlast : m.toList.getLast? with
  | none =>
    have hnil := List.getLast?_eq_none_iff.mp hlast
    cases l with
    | nil => rfl
    | cons a l =>
      have hmem := KeyValues.mem_toList.mpr (h 0)
      rw [hnil] at hmem
      cases hmem
  | some entry =>
    obtain ⟨init, hinit⟩ := List.getLast?_eq_some_iff.mp hlast
    have hget : l[entry.1]? = some entry.2 := by
      rw [← h]
      exact KeyValues.mem_toList.mp (List.mem_of_getLast? hlast)
    have hlen := (List.getElem?_eq_some_iff.mp hget).1
    -- no key comes after the last one
    have hend : l.length ≤ entry.1 + 1 := by
      by_contra hlt
      have hlt : entry.1 + 1 < l.length := by omega
      have hnext : m[entry.1 + 1]? = some l[entry.1 + 1] := by
        rw [h, List.getElem?_eq_getElem hlt]
      have hmem := KeyValues.mem_toList.mpr hnext
      have hpairwise := KeyValues.pairwise_toList (m := m)
      rw [hinit] at hmem hpairwise
      rcases List.mem_append.mp hmem with hmem | hmem
      · have := (List.pairwise_append.mp hpairwise).2.2 _ hmem entry List.mem_cons_self
        dsimp only at this
        omega
      · have := congrArg Prod.fst (List.mem_singleton.mp hmem)
        dsimp only at this
        omega
    rw [Option.map_some, List.getLast?_eq_getElem?, show l.length - 1 = entry.1 by omega, hget]

theorem getElem?_insert {α : Type} (m : KeyValues α) (a : Nat) (v : α) (key : Nat) :
    (m.insert a v)[key]? = if a = key then some v else m[key]? := by
  rw [Std.TreeMap.getElem?_insert]
  simp only [Std.LawfulEqCmp.compare_eq_iff_eq]

theorem getElem?_batchPut {α : Type} {m : KeyValues α} {l : List α} {items : List (Nat × α)}
    (h : ∀ i : Nat, m[i]? = l[i]?)
    (hkeys : ∀ (i : Nat) (item : Nat × α), items[i]? = some item → item.1 = l.length + i) (i : Nat) :
    (batchPut m items)[i]? = (l ++ items.map Prod.snd)[i]? := by
  induction items generalizing m l with
  | nil => rw [List.map_nil, List.append_nil]; exact h i
  | cons item items ih =>
    have hkey : item.1 = l.length := hkeys 0 item rfl
    have hnext := ih (m := m.insert item.1 item.2) (l := l ++ [item.2]) (fun j => ?_) fun j next hj => ?_
    · rw [List.map_cons, List.append_cons]
      exact hnext
    · rw [getElem?_insert, hkey, h]
      rcases Nat.lt_trichotomy j l.length with hlt | rfl | hgt
      · rw [if_neg (by omega), List.getElem?_append_left hlt]
      · simp
      · rw [if_neg (by omega), List.getElem?_eq_none hgt.le, List.getElem?_eq_none]
        simpa using hgt
    · have := hkeys (j + 1) next hj
      rw [List.length_append, List.length_singleton]
      omega

theorem batchPut_ne_none {α : Type} {m : KeyValues α} {items : List (Nat × α)} {key : Nat}
    (h : m[key]? ≠ none ∨ key ∈ items.map Prod.fst) : (batchPut m items)[key]? ≠ none := by
  induction items generalizing m with
  | nil => exact h.resolve_right List.not_mem_nil
  | cons item items ih =>
    apply ih
    rw [getElem?_insert]
    split_ifs with heq
    · exact .inl (Option.some_ne_none _)
    · refine h.imp id fun hmem => ?_
      exact (List.mem_cons.mp hmem).resolve_left (Ne.symm heq)

theorem putRoots_eq [DepositRootTree] {items : List (Nat × Root)} {tree : List Root}
    (hkeys : ∀ (i : Nat) (item : Nat × Root), items[i]? = some item → item.1 = tree.length + i) :
    putRoots items tree = (tree ++ items.map Prod.snd, .ok ()) := by
  induction items generalizing tree with
  | nil => rw [putRoots, List.map_nil, List.append_nil]
  | cons item items ih =>
    obtain ⟨key, value⟩ := item
    obtain rfl : key = tree.length := hkeys 0 (key, value) rfl
    rw [putRoots, DepositRootTree.setProperty_length]
    dsimp only
    have hrest : ∀ (i : Nat) (item : Nat × Root), items[i]? = some item →
        item.1 = (tree ++ [value]).length + i := by
      intro i item hitem
      have := hkeys (i + 1) item hitem
      rw [List.length_append, List.length_singleton]
      omega
    rw [ih hrest, List.append_assoc]
    rfl

/-! ## The database of a log -/

section

variable [DepositCrypto]

/-- Both repositories and the tree hold the events of the log, whose indices are `0..n-1`. -/
structure Holds (db : DepositsDb) (log : List DepositEvent) : Prop where
  index : ∀ (i : Nat) (event : DepositEvent), log[i]? = some event → event.index = i
  depositEvent : ∀ i : Nat, db.depositEvent[i]? = log[i]?
  depositDataRoot : ∀ i : Nat, db.depositDataRoot[i]? =
    (log[i]?).map fun event => hashTreeRoot event.depositData
  depositRootTree : db.getDepositRootTree = log.map fun event => hashTreeRoot event.depositData

theorem holds_empty : Holds .empty [] where
  index := fun i event h => by cases h
  depositEvent := fun i => rfl
  depositDataRoot := fun i => rfl
  depositRootTree := rfl

variable {db db' : DepositsDb}

theorem Holds.lastValue_eq (h : Holds db log) : lastValue db.depositEvent = log.getLast? :=
  lastValue_eq_getLast? h.depositEvent

theorem Holds.index_of_getLast? (h : Holds db log) {last : DepositEvent}
    (hlast : log.getLast? = some last) : log.length = last.index + 1 := by
  rw [List.getLast?_eq_getElem?] at hlast
  have := h.index _ last hlast
  have := (List.getElem?_eq_some_iff.mp hlast).1
  omega

/-- On an empty database, events that are consecutive start at index 0. -/
def StartsRight (db : DepositsDb) (depositEvents : List DepositEvent) : Prop :=
  lastValue db.depositEvent = none → Consecutive depositEvents →
    ∀ first ∈ depositEvents.head?, first.index = 0

theorem Holds.newEvents_eq (h : Holds db log) (hconsecutive : Consecutive depositEvents)
    (hstart : StartsRight db depositEvents) {events : List DepositEvent}
    (hok : newEvents false db.depositEvent depositEvents = .ok events) :
    events = depositEvents.filter (log.length ≤ ·.index) ∧
      ∀ (i : Nat) (event : DepositEvent), events[i]? = some event → event.index = log.length + i := by
  cases hhead : depositEvents.head? with
  | none =>
    obtain rfl := List.head?_eq_none_iff.mp hhead
    have hevents : events = [] := by
      unfold newEvents at hok
      rw [List.head?_nil] at hok
      cases hlast : lastValue db.depositEvent <;>
      · rw [hlast] at hok
        exact (Except.ok.inj hok).symm
    subst hevents
    exact ⟨rfl, fun i event hevent => by cases hevent⟩
  | some first =>
    -- a part of the batch that starts at the length of the log
    have hpart : ∀ count, count + first.index = log.length ∨ (count = 0 ∧ log.length = first.index) →
        ∀ (i : Nat) (event : DepositEvent), (depositEvents.drop count)[i]? = some event →
          event.index = log.length + i := by
      intro count hcount i event hevent
      rw [List.getElem?_drop] at hevent
      have := hconsecutive first hhead _ event hevent
      omega
    have hfilter := hconsecutive.drop_eq_filter hhead log.length
    unfold newEvents at hok
    rw [hhead] at hok
    cases hlast : lastValue db.depositEvent with
    | none =>
      rw [hlast] at hok
      obtain rfl := Except.ok.inj hok
      have hzero := hstart hlast hconsecutive first hhead
      have hnil : log.length = 0 := by
        rw [h.lastValue_eq, List.getLast?_eq_none_iff] at hlast
        rw [hlast]
        rfl
      rw [hnil] at hfilter ⊢
      rw [Nat.zero_sub, List.drop_zero] at hfilter
      refine ⟨hfilter, fun i event hevent => ?_⟩
      have := hconsecutive first hhead i event hevent
      omega
    | some last =>
      rw [hlast] at hok
      have hlen := h.index_of_getLast? (h.lastValue_eq.symm.trans hlast)
      dsimp only at hok
      split_ifs at hok with hle hgt
      · obtain ⟨-, -, hok⟩ := eq_ok_of_bind hok
        obtain rfl := Except.ok.inj hok
        have hle : first.index ≤ last.index := by simpa using hle
        have hcount : last.index - first.index + 1 = log.length - first.index := by omega
        rw [hcount]
        exact ⟨hfilter, hpart _ (by omega)⟩
      · obtain rfl := Except.ok.inj hok
        have hle : ¬ first.index ≤ last.index := by simpa using hle
        have hcount : log.length - first.index = 0 := by omega
        rw [hcount, List.drop_zero] at hfilter
        exact ⟨hfilter, hpart 0 (by omega)⟩

variable [DepositRootTree]

/-- A call on the database of a log. -/
def AddIsRight (db : DepositsDb) (log depositEvents : List DepositEvent) : Prop :=
  (∀ db', (add false depositEvents).run db = .ok () db' →
    Holds db' (log ++ depositEvents.filter (log.length ≤ ·.index))) ∧
  ∀ e db', (add false depositEvents).run db = .error e db' →
    db'.depositEvent = db.depositEvent ∧ db'.depositDataRoot = db.depositDataRoot ∧
      db'.getDepositRootTree = db.getDepositRootTree

omit [DepositCrypto] in
theorem run_batchPutRoots (items : List (Nat × Root)) (db : DepositsDb) :
    (batchPutRoots items).run db = atState
      { db with
        depositDataRoot := batchPut db.depositDataRoot items
        depositRootTree := some (putRoots items db.getDepositRootTree).1 }
      (putRoots items db.getDepositRootTree).2 :=
  run_ofExcept _ _

theorem Holds.store (h : Holds db log) {events : List DepositEvent}
    (hevents : ∀ (i : Nat) (event : DepositEvent), events[i]? = some event →
      event.index = log.length + i) :
    ∃ db', (batchPutRoots (events.map fun event =>
        (event.index, hashTreeRoot event.depositData))).run db = .ok () db' ∧
      Holds { db' with
        depositEvent := batchPut db'.depositEvent (events.map fun event => (event.index, event)) }
        (log ++ events) := by
  have hkeys : ∀ {α : Type} (f : DepositEvent → α) (i : Nat) (item : Nat × α),
      (events.map fun event => (event.index, f event))[i]? = some item →
        item.1 = log.length + i := by
    intro α f i item hitem
    rw [List.getElem?_map, Option.map_eq_some_iff] at hitem
    obtain ⟨event, hevent, rfl⟩ := hitem
    exact hevents i event hevent
  have hroots : (events.map fun event => (event.index, hashTreeRoot event.depositData)).map Prod.snd
      = events.map fun event => hashTreeRoot event.depositData := List.map_map
  have hlength : log.length = (log.map fun event => hashTreeRoot event.depositData).length :=
    List.length_map .. |>.symm
  have htree := putRoots_eq
    (hlength ▸ hkeys fun event => hashTreeRoot event.depositData)
  rw [hroots, ← List.map_append] at htree
  have hrun := run_batchPutRoots
    (events.map fun event => (event.index, hashTreeRoot event.depositData)) db
  rw [h.depositRootTree, htree, atState_ok] at hrun
  refine ⟨_, hrun, fun i event hevent => ?_, fun i => ?_, fun i => ?_, rfl⟩
  · rcases Nat.lt_or_ge i log.length with hlt | hge
    · rw [List.getElem?_append_left hlt] at hevent
      exact h.index i event hevent
    · rw [List.getElem?_append_right hge] at hevent
      have := hevents _ event hevent
      omega
  · have hput := getElem?_batchPut h.depositEvent (hkeys id) i
    have hvalues : (events.map fun event => (event.index, id event)).map Prod.snd = events := by
      rw [List.map_map]
      exact List.map_id events
    rw [hvalues] at hput
    exact hput
  · have hput := getElem?_batchPut (l := log.map fun event => hashTreeRoot event.depositData)
      (fun i => by rw [h.depositDataRoot, List.getElem?_map])
      (by rw [List.length_map]; exact hkeys fun event => hashTreeRoot event.depositData) i
    rw [hroots, ← List.map_append, List.getElem?_map] at hput
    exact hput

/-! ## Runs -/

/-- The writes of `add`. -/
def storeEvents (depositEvents : List DepositEvent) : EStateM AddError DepositsDb Unit := do
  batchPutRoots (depositEvents.map fun event => (event.index, hashTreeRoot event.depositData))
  modify fun db => { db with
    depositEvent := batchPut db.depositEvent (depositEvents.map fun event => (event.index, event)) }

theorem run_add (db : DepositsDb) (depositEvents : List DepositEvent) :
    (add false depositEvents).run db =
      ((MonadExcept.ofExcept (assertConsecutiveDeposits 0 depositEvents) :
          EStateM AddError DepositsDb Unit) >>= fun _ =>
        (MonadExcept.ofExcept (newEvents false db.depositEvent depositEvents) :
          EStateM AddError DepositsDb (List DepositEvent)) >>= storeEvents).run db := by
  rw [add, EStateM.run_bind, EStateM.run_bind, run_ofExcept]
  cases assertConsecutiveDeposits 0 depositEvents <;> rfl

theorem run_add_of_ok {events : List DepositEvent}
    (hassert : assertConsecutiveDeposits 0 depositEvents = .ok ())
    (hevents : newEvents false db.depositEvent depositEvents = .ok events) :
    (add false depositEvents).run db = (storeEvents events).run db := by
  rw [run_add, EStateM.run_bind, run_ofExcept, hassert, atState_ok]
  dsimp only
  rw [EStateM.run_bind, run_ofExcept, hevents]
  rfl

theorem run_add_eq_or (db : DepositsDb) (depositEvents : List DepositEvent) :
    (∃ e, (add false depositEvents).run db = .error e db) ∨
      ∃ events, Consecutive depositEvents ∧
        newEvents false db.depositEvent depositEvents = .ok events ∧
        (add false depositEvents).run db = (storeEvents events).run db := by
  cases hassert : assertConsecutiveDeposits 0 depositEvents with
  | error e =>
    refine .inl ⟨e, ?_⟩
    rw [run_add, EStateM.run_bind, run_ofExcept, hassert]
    rfl
  | ok =>
    cases hevents : newEvents false db.depositEvent depositEvents with
    | error e =>
      refine .inl ⟨e, ?_⟩
      rw [run_add, EStateM.run_bind, run_ofExcept, hassert, atState_ok]
      dsimp only
      rw [EStateM.run_bind, run_ofExcept, hevents]
      rfl
    | ok events =>
      exact .inr ⟨events, (assertConsecutiveDeposits_eq_ok_iff 0).mp hassert, rfl,
        run_add_of_ok hassert hevents⟩

theorem Holds.run_storeEvents (h : Holds db log) {events : List DepositEvent}
    (hevents : ∀ (i : Nat) (event : DepositEvent), events[i]? = some event →
      event.index = log.length + i) :
    ∃ db', (storeEvents events).run db = .ok () db' ∧ Holds db' (log ++ events) := by
  obtain ⟨db', hrun, hholds⟩ := h.store hevents
  refine ⟨_, ?_, hholds⟩
  rw [storeEvents, EStateM.run_bind, hrun]
  rfl

/-- A call that starts right throws before any write, or extends the log by what is new. -/
theorem Holds.run_add (h : Holds db log) (hstart : StartsRight db depositEvents) :
    (∃ e, (add false depositEvents).run db = .error e db) ∨
      ∃ db', (add false depositEvents).run db = .ok () db' ∧
        Holds db' (log ++ depositEvents.filter (log.length ≤ ·.index)) := by
  rcases run_add_eq_or db depositEvents with herror | ⟨events, hconsecutive, hnew, hrun⟩
  · exact .inl herror
  · obtain ⟨rfl, hevents⟩ := h.newEvents_eq hconsecutive hstart hnew
    obtain ⟨db', hstore, hholds⟩ := h.run_storeEvents hevents
    exact .inr ⟨db', hrun.trans hstore, hholds⟩

theorem Holds.add_of_not_startsRight (h : Holds db log) (hstart : ¬ StartsRight db depositEvents) :
    ∃ e db', (add false depositEvents).run db = .error e db' ∧
      db'.depositDataRoot ≠ db.depositDataRoot := by
  unfold StartsRight at hstart
  push Not at hstart
  obtain ⟨hlast, hconsecutive, first, hfirst, hindex⟩ := hstart
  have hnil : log = [] := by rwa [h.lastValue_eq, List.getLast?_eq_none_iff] at hlast
  subst hnil
  have hnew : newEvents false db.depositEvent depositEvents = .ok depositEvents := by
    unfold newEvents
    rw [hlast]
    rfl
  obtain ⟨rest, rfl⟩ : ∃ rest, depositEvents = first :: rest := by
    cases depositEvents with
    | nil => cases hfirst
    | cons event rest => exact ⟨rest, by rw [Option.some.inj (Option.mem_def.mp hfirst)]⟩
  obtain ⟨e, he⟩ := DepositRootTree.setProperty_gt [] first.index
    (hashTreeRoot first.depositData) (Nat.pos_of_ne_zero hindex)
  have htree : db.getDepositRootTree = [] := h.depositRootTree
  have hrun : (add false (first :: rest)).run db = .error (.tree e)
      { db with
        depositDataRoot := batchPut db.depositDataRoot ((first :: rest).map fun event =>
          (event.index, hashTreeRoot event.depositData))
        depositRootTree := some [] } := by
    rw [run_add_of_ok ((assertConsecutiveDeposits_eq_ok_iff 0).mpr hconsecutive) hnew, storeEvents,
      EStateM.run_bind, run_batchPutRoots, htree, List.map_cons, putRoots, he]
    rfl
  refine ⟨.tree e, _, hrun, fun heq => ?_⟩
  have hroot := h.depositDataRoot first.index
  rw [← heq] at hroot
  exact batchPut_ne_none (.inr List.mem_cons_self) hroot

theorem Holds.addIsRight_iff (h : Holds db log) :
    AddIsRight db log depositEvents ↔ StartsRight db depositEvents := by
  constructor
  · intro hright
    by_contra hstart
    obtain ⟨e, db', hrun, hne⟩ := h.add_of_not_startsRight hstart
    exact hne (hright.2 e db' hrun).2.1
  · intro hstart
    rcases h.run_add hstart with ⟨e, hrun⟩ | ⟨db', hrun, hholds⟩
    · refine ⟨fun db' heq => ?_, fun e' db' heq => ?_⟩
      · rw [hrun] at heq
        cases heq
      · rw [hrun] at heq
        cases heq
        exact ⟨rfl, rfl, rfl⟩
    · refine ⟨fun db'' heq => ?_, fun e' db'' heq => ?_⟩
      · rw [hrun] at heq
        cases heq
        exact hholds
      · rw [hrun] at heq
        cases heq

/-- After calls that all start right on an empty database. -/
inductive AddRun : DepositsDb → Prop
  | empty : AddRun .empty
  | add {db : DepositsDb} (h : AddRun db) (depositEvents : List DepositEvent)
    (hstart : StartsRight db depositEvents) :
    AddRun (stateOf ((add false depositEvents).run db))

theorem AddRun.exists_log (h : AddRun db) : ∃ log, Holds db log := by
  induction h with
  | empty => exact ⟨[], holds_empty⟩
  | add _ depositEvents hstart ih =>
    obtain ⟨log, hholds⟩ := ih
    rcases hholds.run_add hstart with ⟨e, hrun⟩ | ⟨db', hrun, hnext⟩
    · rw [hrun]
      exact ⟨log, hholds⟩
    · rw [hrun]
      exact ⟨_, hnext⟩

/-- The repositories and the tree hold one log in every state of such a run, and another call is
right there if and only if it starts right too. -/
theorem deposits_of_addRun (h : AddRun db) :
    ∃ log, Holds db log ∧ ∀ depositEvents,
      AddIsRight db log depositEvents ↔ StartsRight db depositEvents := by
  obtain ⟨log, hholds⟩ := h.exists_log
  exact ⟨log, hholds, fun depositEvents => hholds.addIsRight_iff⟩

end

local instance addedCrypto : DepositCrypto where
  digest64 left right := BitVec.ofNat 256 (left.toNat * 31 + right.toNat)
  hashTreeRoot data := BitVec.ofNat 256 (data.pubkey.toNat * 31 + data.amount)
  isValidSignature _ := true

/-- A list that throws past its end. -/
local instance plainTree : DepositRootTree where
  setProperty tree index root :=
    if tree.length < index then .error "Invalid length index"
    else if index = tree.length then .ok (tree ++ [root])
    else .ok (tree.set index root)
  setProperty_length tree root := by simp
  setProperty_gt tree index root h := ⟨"Invalid length index", if_pos h⟩

def eventAt (index : Nat) : DepositEvent where
  depositData := { pubkey := BitVec.ofNat 384 index, withdrawalCredentials := 0,
                   amount := 32000000000, signature := 0 }
  blockNumber := 1
  index

theorem deposits_of_addRun_eventAt :
    ∃ log, Holds (stateOf ((add false [eventAt 0, eventAt 1]).run .empty)) log := by
  have hrun : AddRun (stateOf ((add false [eventAt 0, eventAt 1]).run .empty)) := by
    refine .add .empty _ fun _ _ first hfirst => ?_
    obtain rfl := Option.some.inj (Option.mem_def.mp hfirst)
    rfl
  obtain ⟨log, hholds, -⟩ := deposits_of_addRun hrun
  exact ⟨log, hholds⟩

/-- A first event with index 1 throws, and leaves its root without its event. -/
theorem eventAt_not_addIsRight :
    ¬ AddIsRight .empty [] [eventAt 1] ∧
      ∃ e db', (add false [eventAt 1]).run .empty = .error e db' ∧
        db'.depositDataRoot[1]? = some (hashTreeRoot (eventAt 1).depositData) ∧
        db'.depositEvent[1]? = none ∧ db'.getDepositRootTree = [] := by
  have hrun : ∃ e db', (add false [eventAt 1]).run .empty = .error e db' ∧
      db'.depositDataRoot[1]? = some (hashTreeRoot (eventAt 1).depositData) ∧
      db'.depositEvent[1]? = none ∧ db'.getDepositRootTree = [] :=
    ⟨_, _, rfl, by rw [show (1 : Nat) = (eventAt 1).index from rfl]; exact
      (getElem?_insert ∅ _ _ _).trans (if_pos rfl), rfl, rfl⟩
  refine ⟨fun h => ?_, hrun⟩
  obtain ⟨e, db', hcall, hroot, -⟩ := hrun
  rw [(h.2 e db' hcall).2.1] at hroot
  cases hroot

end Lodestar.Eth1
