import Lodestar.SlashingProtection.Level
import Lodestar.SlashingProtection.LowerBound

/-!
# Proposals of many validators in one store

Runs of `checkAndInsertBlockProposal` and `importBlocks` for any public keys,
on the shared store of byte strings. The store of a run represents a `Db`, so
what a call decides is what it decides there, and depends on the entries of
its own public key alone.
-/

namespace Lodestar.SlashingProtection

open Std (TreeMap)
open Lodestar.Base

/-! ## Runs -/

/-- The calls of a run. -/
inductive BlockCall where
  | checkAndInsertBlockProposal (block : SlashingProtectionBlock)
  | importBlocks (blocks : List SlashingProtectionBlock)
  deriving DecidableEq

namespace BlockCall

def prog (pubkey : BLSPubkey) : BlockCall → Async Unit
  | .checkAndInsertBlockProposal b => SlashingProtection.checkAndInsertBlockProposal pubkey b
  | .importBlocks bs => SlashingProtection.importBlocks pubkey bs

/-- The blocks of a call. -/
def blocks : BlockCall → List SlashingProtectionBlock
  | .checkAndInsertBlockProposal b => [b]
  | .importBlocks bs => bs

/-- The slots are safe integers. -/
def Safe (c : BlockCall) : Prop := ∀ b ∈ c.blocks, b.slot ≤ MAX_SAFE_INTEGER

instance (c : BlockCall) : Decidable c.Safe :=
  inferInstanceAs (Decidable (∀ b ∈ c.blocks, b.slot ≤ MAX_SAFE_INTEGER))

end BlockCall

/-- The store with the blocks recorded so far, accepted or imported, by public key. -/
structure BlockWorld where
  level : LevelDb
  recorded : BLSPubkey → List SlashingProtectionBlock

namespace BlockWorld

/-- An empty store, nothing recorded. -/
def init : BlockWorld := ⟨∅, fun _ => []⟩

/-- The call ends without an error. -/
def accepts (ssz : SszTypes) (w : BlockWorld) (pubkey : BLSPubkey) (c : BlockCall) : Bool :=
  ((c.prog pubkey).run (actLevel ssz) w.level).1.isOk

/-- The world after a call. -/
def perform (ssz : SszTypes) (w : BlockWorld) (pubkey : BLSPubkey) (c : BlockCall) : BlockWorld where
  level := ((c.prog pubkey).run (actLevel ssz) w.level).2
  recorded := Function.update w.recorded pubkey
    (w.recorded pubkey ++ if w.accepts ssz pubkey c then c.blocks else [])

/-- The world after the calls, the first one first. -/
def runCalls (ssz : SszTypes) (calls : List (BLSPubkey × BlockCall)) : BlockWorld :=
  calls.foldl (fun w call => w.perform ssz call.1 call.2) init

/-- The record the store holds at a slot. -/
def record (ssz : SszTypes) (w : BlockWorld) (pubkey : BLSPubkey) (slot : Nat) :
    Option SlashingProtectionBlock :=
  (actLevel ssz (.blockBySlotGet pubkey slot) w.level).1

end BlockWorld

/-- The block an import leaves at a slot. -/
def lastBlockAt (blocks : List SlashingProtectionBlock) (slot : Nat) :
    Option SlashingProtectionBlock :=
  blocks.reverse.find? (·.slot = slot)

/-- The calls that keep the records truthful: when the last block an import writes at a slot has a
signing root, all its blocks of that slot and the record there have the same one. -/
def BlockCall.Sound (ssz : SszTypes) (w : BlockWorld) (pubkey : BLSPubkey) : BlockCall → Prop
  | .checkAndInsertBlockProposal _ => True
  | .importBlocks bs => ∀ slot b, lastBlockAt bs slot = some b → b.signingRoot ≠ ZERO_ROOT →
    (∀ c ∈ bs, c.slot = slot → c.signingRoot = b.signingRoot) ∧
      ∀ prev, w.record ssz pubkey slot = some prev → prev.signingRoot = b.signingRoot

/-- Every call is sound where it is made. -/
def SoundCalls (ssz : SszTypes) (calls : List (BLSPubkey × BlockCall)) : Prop :=
  ∀ before call after, calls = before ++ call :: after →
    call.2.Sound ssz (BlockWorld.runCalls ssz before) call.1

variable {ssz : SszTypes} {calls : List (BLSPubkey × BlockCall)} {p q : BLSPubkey} {c : BlockCall}

/-! ## The run on the `Db` -/

theorem issues_checkBlockProposal {P : DbOp → Prop} {b : SlashingProtectionBlock}
    (hget : P (.blockBySlotGet p b.slot)) (hall : P (.blockBySlotGetAll p (some 1))) :
    (checkBlockProposal p b).Issues P := by
  have hfirst : (BlockBySlotRepository.getFirst p).Issues P :=
    Prog.issues_bind ((Prog.issues_op P _).2 hall) fun _ => trivial
  unfold checkBlockProposal
  refine Prog.issues_bind ((Prog.issues_op P _).2 hget) fun sameSlotBlock => ?_
  rcases sameSlotBlock with _ | prev
  on_goal 2 =>
    dsimp only
    split_ifs
    · trivial
    · trivial
  -- the lower bound check, with no record or one of another slot
  all_goals
    refine Prog.issues_bind hfirst fun minBlock => ?_
    rcases minBlock with _ | first
    · trivial
    · dsimp only
      split_ifs <;> trivial

theorem BlockCall.issues {P : DbOp → Prop} (c : BlockCall)
    (hget : ∀ b ∈ c.blocks, P (.blockBySlotGet p b.slot)) (hall : P (.blockBySlotGetAll p (some 1)))
    (hset : P (.blockBySlotSet p c.blocks)) : (c.prog p).Issues P := by
  cases c with
  | checkAndInsertBlockProposal b =>
    refine Prog.issues_bind (issues_checkBlockProposal (hget b List.mem_cons_self) hall) ?_
    intro safeStatus
    cases safeStatus with
    | SAME_DATA => trivial
    | OK => exact (Prog.issues_op P _).2 hset
  | importBlocks bs => exact (Prog.issues_op P _).2 hset

theorem BlockCall.issues_safe (hsafe : c.Safe) : (c.prog p).Issues DbOp.Safe :=
  c.issues hsafe trivial hsafe

/-- The `Db` after the calls. -/
def dbAfter (ssz : SszTypes) (calls : List (BLSPubkey × BlockCall)) : Db :=
  calls.foldl (fun db call => ((call.2.prog call.1).run (act ssz.toEpoch) db).2) Db.empty

theorem dbAfter_concat (call : BLSPubkey × BlockCall) :
    dbAfter ssz (calls ++ [call]) =
      ((call.2.prog call.1).run (act ssz.toEpoch) (dbAfter ssz calls)).2 := by
  simp [dbAfter]

theorem runCalls_concat (call : BLSPubkey × BlockCall) :
    BlockWorld.runCalls ssz (calls ++ [call]) =
      (BlockWorld.runCalls ssz calls).perform ssz call.1 call.2 := by
  simp [BlockWorld.runCalls]

theorem represents_dbAfter (hsafe : ∀ call ∈ calls, call.2.Safe) :
    Represents ssz (BlockWorld.runCalls ssz calls).level (dbAfter ssz calls) := by
  induction calls using List.reverseRecOn with
  | nil => exact Represents.empty ssz
  | append_singleton calls call ih =>
    have hrep := ih fun c hc => hsafe c (List.mem_append_left _ hc)
    have hcall := hsafe call (List.mem_append_right _ List.mem_cons_self)
    rw [runCalls_concat, dbAfter_concat]
    exact (hrep.run (BlockCall.issues_safe hcall)).2

theorem accepts_eq (hsafe : ∀ call ∈ calls, call.2.Safe) (hc : c.Safe) :
    (BlockWorld.runCalls ssz calls).accepts ssz p c =
      ((c.prog p).run (act ssz.toEpoch) (dbAfter ssz calls)).1.isOk := by
  unfold BlockWorld.accepts
  rw [((represents_dbAfter hsafe).run (BlockCall.issues_safe hc)).1]

/-! ## One public key's entries -/

/-- Two databases hold the same blocks of `p`. -/
def SameBlocks (p : BLSPubkey) (db db' : Db) : Prop :=
  ∀ slot : Nat, db.blockBySlot[((p, slot) : Key)]? = db'.blockBySlot[((p, slot) : Key)]?

/-- The block operations for `p`. -/
def OwnBlocks (p : BLSPubkey) : DbOp → Prop
  | .blockBySlotGet q _ | .blockBySlotGetAll q _ | .blockBySlotSet q _ => q = p
  | _ => False

theorem getAll_congr {α : Type} {m m' : Bucket α}
    (h : ∀ n, m[((p, n) : Key)]? = m'[((p, n) : Key)]?) (limit : Option Nat) :
    getAll m p limit = getAll m' p limit := by
  have hmem : ∀ m : Bucket α, ∀ e : Key × α,
      e ∈ m.toList.filter (fun e => (keyCmp (p, 0) e.1).isLE &&
        keyCmp e.1 (p, MAX_SAFE_INTEGER) == .lt) ↔
      m[e.1]? = some e.2 ∧ e.1.1 = p ∧ e.1.2 < MAX_SAFE_INTEGER := by
    intro m e
    rw [List.mem_filter, TreeMap.mem_toList_iff_getElem?_eq_some, keyCmp_range]
  have heq : m.toList.filter (fun e => (keyCmp (p, 0) e.1).isLE &&
      keyCmp e.1 (p, MAX_SAFE_INTEGER) == .lt) =
      m'.toList.filter fun e => (keyCmp (p, 0) e.1).isLE &&
        keyCmp e.1 (p, MAX_SAFE_INTEGER) == .lt := by
    refine eq_of_ordered (r := fun a b => keyCmp a.1 b.1 = .lt) ?_
      (TreeMap.ordered_keys_toList.filter _) (TreeMap.ordered_keys_toList.filter _) ?_
    · intro a b hab hba
      rw [Std.OrientedCmp.gt_of_lt hab] at hba
      cases hba
    · rintro ⟨⟨q, n⟩, v⟩
      rw [hmem, hmem]
      refine and_congr_left fun ⟨hq, _⟩ => ?_
      obtain rfl : q = p := hq
      rw [h n]
  unfold getAll
  rw [heq]

theorem SameBlocks.setBlocks {db db' : Db} (h : SameBlocks p db db')
    (bs : List SlashingProtectionBlock) :
    SameBlocks p (db.setBlocks p bs) (db'.setBlocks p bs) := by
  intro slot
  show (batchPut _ _ _ _)[_]? = (batchPut _ _ _ _)[_]?
  rw [batchPut_get, batchPut_get, h slot]

theorem SameBlocks.act (ssz : SszEpoch) {db db' : Db} {o : DbOp} (ho : OwnBlocks p o)
    (h : SameBlocks p db db') :
    (act ssz o db).1 = (act ssz o db').1 ∧ SameBlocks p (act ssz o db).2 (act ssz o db').2 := by
  cases o with
  | blockBySlotGet q slot =>
    obtain rfl : q = p := ho
    exact ⟨h slot, h⟩
  | blockBySlotGetAll q limit =>
    obtain rfl : q = p := ho
    exact ⟨getAll_congr h limit, h⟩
  | blockBySlotSet q bs =>
    obtain rfl : q = p := ho
    exact ⟨rfl, h.setBlocks bs⟩
  | attestationByTargetGet | attestationByTargetGetAll | attestationByTargetSet
  | attestationLowerBoundGet | attestationLowerBoundSet | spanGet | spanSetBatch => cases ho

/-- A call for `p` is decided alike on the same blocks of `p`, and leaves the same. -/
theorem SameBlocks.run (ssz : SszEpoch) {db db' : Db} (c : BlockCall) (h : SameBlocks p db db') :
    ((c.prog p).run (SlashingProtection.act ssz) db).1 =
      ((c.prog p).run (SlashingProtection.act ssz) db').1 ∧
    SameBlocks p ((c.prog p).run (SlashingProtection.act ssz) db).2
      ((c.prog p).run (SlashingProtection.act ssz) db').2 := by
  have hact : ∀ (o : DbOp) db db', OwnBlocks p o → SameBlocks p db db' →
      (SlashingProtection.act ssz o db).1 = (SlashingProtection.act ssz o db').1 ∧
        SameBlocks p (SlashingProtection.act ssz o db).2 (SlashingProtection.act ssz o db').2 :=
    fun o db db' ho h => h.act ssz ho
  exact Prog.run_refines hact (c.issues (fun _ _ => rfl) rfl rfl) h

/-- What a call does: it is refused, repeats a recorded proposal, or writes its blocks. -/
theorem BlockCall.outcome (ssz : SszEpoch) (p : BLSPubkey) (c : BlockCall) (db : Db) :
    (((c.prog p).run (act ssz) db).1.isOk = false ∧ ((c.prog p).run (act ssz) db).2 = db) ∨
    (((c.prog p).run (act ssz) db).1.isOk = true ∧ (∃ b, c = .checkAndInsertBlockProposal b ∧
      BlockRepeated db p b) ∧ ((c.prog p).run (act ssz) db).2 = db) ∨
    (((c.prog p).run (act ssz) db).1.isOk = true ∧
      (∀ b, c = .checkAndInsertBlockProposal b → BlockClear db p b) ∧
      ((c.prog p).run (act ssz) db).2 = db.setBlocks p c.blocks) := by
  cases c with
  | checkAndInsertBlockProposal b =>
    show (((SlashingProtection.checkAndInsertBlockProposal p b).run (act ssz) db).1.isOk = _ ∧ _) ∨ _
    unfold prog
    rcases run_checkAndInsertBlockProposal ssz db p b with ⟨e, h, -⟩ | ⟨h, hrep⟩ | ⟨h, hclear⟩
    · rw [h]
      exact .inl ⟨rfl, rfl⟩
    · rw [h]
      exact .inr (.inl ⟨rfl, ⟨b, rfl, hrep⟩, rfl⟩)
    · rw [h]
      refine .inr (.inr ⟨rfl, fun b' hb' => ?_, rfl⟩)
      cases hb'
      exact hclear
  | importBlocks bs => exact .inr (.inr ⟨rfl, (fun _ hb => by cases hb), rfl⟩)

theorem SameBlocks.of_other (ssz : SszEpoch) (db : Db) (c : BlockCall) (h : p ≠ q) :
    SameBlocks q ((c.prog p).run (SlashingProtection.act ssz) db).2 db := by
  intro slot
  rcases c.outcome ssz p db with ⟨-, hdb⟩ | ⟨-, -, hdb⟩ | ⟨-, -, hdb⟩
  · rw [hdb]
  · rw [hdb]
  · rw [hdb]
    exact batchPut_get_of_notMem fun b _ he => h (Prod.mk.inj he).1

theorem SameBlocks.trans {db db' db'' : Db} (h : SameBlocks p db db') (h' : SameBlocks p db' db'') :
    SameBlocks p db db'' := fun slot => (h slot).trans (h' slot)

theorem sameBlocks_filter (ssz : SszTypes) (p : BLSPubkey) (calls : List (BLSPubkey × BlockCall)) :
    SameBlocks p (dbAfter ssz calls) (dbAfter ssz (calls.filter (·.1 = p))) := by
  induction calls using List.reverseRecOn with
  | nil => exact fun _ => rfl
  | append_singleton calls call ih =>
    rw [dbAfter_concat, List.filter_append]
    by_cases hp : call.1 = p
    · subst hp
      rw [List.filter_cons_of_pos (by simp), List.filter_nil, dbAfter_concat]
      exact (ih.run ssz.toEpoch call.2).2
    · rw [List.filter_cons_of_neg (by simpa using hp), List.filter_nil, List.append_nil]
      exact (SameBlocks.of_other ssz.toEpoch _ call.2 hp).trans ih

/-! ## What is recorded -/

/-- What the `Db` holds of the blocks recorded for `p`. -/
structure BlocksKept (p : BLSPubkey) (db : Db) (recorded : List SlashingProtectionBlock) :
    Prop where
  kept : ∀ b ∈ recorded, ∃ prev, db.blockBySlot[(p, b.slot)]? = some prev
  record : ∀ {s prev}, db.blockBySlot[(p, s)]? = some prev → prev ∈ recorded ∧ prev.slot = s

/-- The record at a slot has the signing root of all that was recorded there, or none. -/
def RootsKept (p : BLSPubkey) (db : Db) (recorded : List SlashingProtectionBlock) : Prop :=
  ∀ s prev, db.blockBySlot[(p, s)]? = some prev → prev.signingRoot ≠ ZERO_ROOT →
    ∀ b ∈ recorded, b.slot = s → b.signingRoot = prev.signingRoot

section Recorded

variable {db db' : Db} {recorded bs : List SlashingProtectionBlock} {b : SlashingProtectionBlock}

theorem BlocksKept.congr (h : BlocksKept p db recorded) (hs : SameBlocks p db' db) :
    BlocksKept p db' recorded where
  kept b hb := by
    obtain ⟨prev, hprev⟩ := h.kept b hb
    exact ⟨prev, (hs b.slot).trans hprev⟩
  record {s prev} hp := h.record ((hs s).symm.trans hp)

theorem RootsKept.congr (h : RootsKept p db recorded) (hs : SameBlocks p db' db) :
    RootsKept p db' recorded := fun s prev hp => h s prev ((hs s).symm.trans hp)

theorem BlocksKept.setBlocks (h : BlocksKept p db recorded) (bs : List SlashingProtectionBlock) :
    BlocksKept p (db.setBlocks p bs) (recorded ++ bs) where
  kept b hb := by
    rcases batchPut_get_cases db.blockBySlot (fun b => (p, b.slot)) id bs (p, b.slot) with
      ⟨c, -, -, hget⟩ | ⟨hnot, hget⟩
    · exact ⟨c, hget⟩
    · rcases List.mem_append.1 hb with hb | hb
      · obtain ⟨prev, hprev⟩ := h.kept b hb
        exact ⟨prev, hget.trans hprev⟩
      · exact (hnot b hb rfl).elim
  record {s prev} hp := by
    rcases batchPut_get_cases db.blockBySlot (fun b => (p, b.slot)) id bs (p, s) with
      ⟨c, hc, hcs, hget⟩ | ⟨-, hget⟩
    · cases hget.symm.trans hp
      exact ⟨List.mem_append_right _ hc, (Prod.mk.inj hcs).2⟩
    · obtain ⟨hmem, hs⟩ := h.record (hget.symm.trans hp)
      exact ⟨List.mem_append_left _ hmem, hs⟩

theorem BlocksKept.repeated (h : BlocksKept p db recorded) (hb : BlockRepeated db p b) :
    b ∈ recorded := by
  obtain ⟨prev, hprev, hslot, hroot⟩ := hb
  obtain ⟨hmem, -⟩ := h.record hprev
  have heq : prev = b := by
    cases prev; cases b
    simp_all [isEqualNonZeroRoot_iff]
  exact heq ▸ hmem

theorem BlocksKept.unused (h : BlocksKept p db recorded) (hb : BlockClear db p b) :
    ∀ c ∈ recorded, c.slot ≠ b.slot := by
  intro c hc hslot
  obtain ⟨prev, hprev⟩ := h.kept c hc
  rw [hslot] at hprev
  exact hb.unused prev hprev (h.record hprev).2.symm

theorem BlocksKept.append (h : BlocksKept p db recorded) (hbs : ∀ b ∈ bs, b ∈ recorded) :
    BlocksKept p db (recorded ++ bs) where
  kept b hb := (List.mem_append.1 hb).elim (h.kept b) fun hb => h.kept b (hbs b hb)
  record hp := ⟨List.mem_append_left _ (h.record hp).1, (h.record hp).2⟩

theorem RootsKept.append (h : RootsKept p db recorded) (hbs : ∀ b ∈ bs, b ∈ recorded) :
    RootsKept p db (recorded ++ bs) := by
  intro s prev hp hne b hb hbs'
  rcases List.mem_append.1 hb with hb | hb
  · exact h s prev hp hne b hb hbs'
  · exact h s prev hp hne b (hbs b hb) hbs'

theorem RootsKept.setBlocks (h : RootsKept p db recorded) (hkept : BlocksKept p db recorded)
    (hbs : ∀ s b, lastBlockAt bs s = some b → b.signingRoot ≠ ZERO_ROOT →
      (∀ c ∈ bs, c.slot = s → c.signingRoot = b.signingRoot) ∧
        ∀ prev, db.blockBySlot[(p, s)]? = some prev → prev.signingRoot = b.signingRoot) :
    RootsKept p (db.setBlocks p bs) (recorded ++ bs) := by
  intro s prev hp hne b hb hslot
  have hget : (db.setBlocks p bs).blockBySlot[(p, s)]? =
      (lastBlockAt bs s).or db.blockBySlot[(p, s)]? := by
    show (batchPut _ _ _ _)[_]? = _
    rw [batchPut_get, Option.map_id]
    simp [lastBlockAt]
  rw [hget] at hp
  cases hlast : lastBlockAt bs s with
  | none =>
    rw [hlast, Option.none_or] at hp
    rcases List.mem_append.1 hb with hb | hb
    · exact h s prev hp hne b hb hslot
    · have := List.find?_eq_none.1 hlast b (List.mem_reverse.2 hb)
      simp [hslot] at this
  | some last =>
    rw [hlast, Option.some_or] at hp
    cases hp
    obtain ⟨hfile, hrecord⟩ := hbs s prev hlast hne
    rcases List.mem_append.1 hb with hb | hb
    · obtain ⟨old, hold⟩ := hkept.kept b hb
      rw [hslot] at hold
      rw [← hrecord old hold]
      exact h s old hold (by rw [hrecord old hold]; exact hne) b hb hslot
    · exact hfile b hb hslot

end Recorded

/-! ## Along a run -/

theorem recorded_concat (call : BLSPubkey × BlockCall) (p : BLSPubkey) :
    (BlockWorld.runCalls ssz (calls ++ [call])).recorded p =
      (BlockWorld.runCalls ssz calls).recorded p ++
        if call.1 = p ∧ (BlockWorld.runCalls ssz calls).accepts ssz call.1 call.2 = true
          then call.2.blocks else [] := by
  rw [runCalls_concat]
  show Function.update _ _ _ p = _
  by_cases hp : call.1 = p
  · subst hp
    simp
  · rw [Function.update_of_ne (Ne.symm hp)]
    simp [hp]

variable (ssz) in
theorem blocksKept_runCalls (hsafe : ∀ call ∈ calls, call.2.Safe) (p : BLSPubkey) :
    BlocksKept p (dbAfter ssz calls) ((BlockWorld.runCalls ssz calls).recorded p) := by
  induction calls using List.reverseRecOn with
  | nil => exact ⟨fun _ h => (List.not_mem_nil h).elim, fun h => by simp [dbAfter, Db.empty] at h⟩
  | append_singleton calls call ih =>
    have hcalls : ∀ c ∈ calls, c.2.Safe := fun c hc => hsafe c (List.mem_append_left _ hc)
    have hcall := hsafe call (List.mem_append_right _ List.mem_cons_self)
    rw [recorded_concat, dbAfter_concat, accepts_eq hcalls hcall]
    by_cases hp : call.1 = p
    · subst hp
      have h := ih hcalls
      rcases call.2.outcome ssz.toEpoch call.1 (dbAfter ssz calls) with
        ⟨hok, hdb⟩ | ⟨hok, ⟨b, hb, hrep⟩, hdb⟩ | ⟨hok, -, hdb⟩
      · rw [if_neg (by simp [hok]), hdb, List.append_nil]
        exact h
      · rw [if_pos ⟨rfl, hok⟩, hdb, hb]
        exact h.append (by simpa [BlockCall.blocks] using h.repeated hrep)
      · rw [if_pos ⟨rfl, hok⟩, hdb]
        exact h.setBlocks call.2.blocks
    · rw [if_neg (fun h => hp h.1), List.append_nil]
      exact (ih hcalls).congr (SameBlocks.of_other ssz.toEpoch _ call.2 hp)

theorem record_eq (hsafe : ∀ call ∈ calls, call.2.Safe) {slot : Nat}
    (hslot : slot ≤ MAX_SAFE_INTEGER) :
    (BlockWorld.runCalls ssz calls).record ssz p slot =
      (dbAfter ssz calls).blockBySlot[((p, slot) : Key)]? :=
  ((represents_dbAfter hsafe).act (o := .blockBySlotGet p slot) hslot).1

theorem rootsKept_runCalls (hsafe : ∀ call ∈ calls, call.2.Safe) (hsound : SoundCalls ssz calls)
    (p : BLSPubkey) :
    RootsKept p (dbAfter ssz calls) ((BlockWorld.runCalls ssz calls).recorded p) := by
  induction calls using List.reverseRecOn with
  | nil => exact fun _ _ h => by simp [dbAfter, Db.empty] at h
  | append_singleton calls call ih =>
    have hcalls : ∀ c ∈ calls, c.2.Safe := fun c hc => hsafe c (List.mem_append_left _ hc)
    have hcall := hsafe call (List.mem_append_right _ List.mem_cons_self)
    have h := ih hcalls fun before c after hc =>
      hsound before c (after ++ [call]) (by rw [hc, List.append_assoc, List.cons_append])
    have hkept := blocksKept_runCalls ssz hcalls p
    rw [recorded_concat, dbAfter_concat, accepts_eq hcalls hcall]
    by_cases hp : call.1 = p
    · subst hp
      rcases call.2.outcome ssz.toEpoch call.1 (dbAfter ssz calls) with
        ⟨hok, hdb⟩ | ⟨hok, ⟨b, hb, hrep⟩, hdb⟩ | ⟨hok, hclear, hdb⟩
      · rw [if_neg (by simp [hok]), hdb, List.append_nil]
        exact h
      · rw [if_pos ⟨rfl, hok⟩, hdb, hb]
        exact h.append (by simpa [BlockCall.blocks] using hkept.repeated hrep)
      · rw [if_pos ⟨rfl, hok⟩, hdb]
        refine h.setBlocks hkept fun s b hlast hne => ?_
        have hmem : b ∈ call.2.blocks := List.mem_reverse.1 (List.mem_of_find?_eq_some hlast)
        have hs : b.slot = s := by simpa using List.find?_some hlast
        have hslot : s ≤ MAX_SAFE_INTEGER := hs ▸ hcall b hmem
        have hcs := hsound calls call [] rfl
        cases hc : call.2 with
        | checkAndInsertBlockProposal b' =>
          rw [hc] at hmem
          obtain rfl : b = b' := List.mem_singleton.1 hmem
          refine ⟨fun c hc' _ => by rw [List.mem_singleton.1 hc'], fun prev hprev => ?_⟩
          have hunused := hkept.unused (hclear b hc)
          obtain ⟨hprevMem, hprevSlot⟩ := hkept.record hprev
          exact (hunused prev hprevMem (by rw [hprevSlot, hs])).elim
        | importBlocks bs =>
          rw [hc] at hcs hlast
          obtain ⟨hfile, hrecord⟩ := hcs s b hlast hne
          refine ⟨hfile, fun prev hprev => hrecord prev ?_⟩
          rw [record_eq hcalls hslot]
          exact hprev
    · rw [if_neg (fun h => hp h.1), List.append_nil]
      exact h.congr (SameBlocks.of_other ssz.toEpoch _ call.2 hp)

/-! ## Accepted proposals -/

variable {b : SlashingProtectionBlock}

theorem repeated_or_clear (hsafe : ∀ call ∈ calls, call.2.Safe) (hb : b.slot ≤ MAX_SAFE_INTEGER)
    (hacc : (BlockWorld.runCalls ssz calls).accepts ssz p (.checkAndInsertBlockProposal b) = true) :
    BlockRepeated (dbAfter ssz calls) p b ∨ BlockClear (dbAfter ssz calls) p b := by
  rw [accepts_eq hsafe (by simpa [BlockCall.Safe, BlockCall.blocks] using hb)] at hacc
  rcases BlockCall.outcome ssz.toEpoch p (.checkAndInsertBlockProposal b) (dbAfter ssz calls) with
    ⟨hok, -⟩ | ⟨-, ⟨b', hb', hrep⟩, -⟩ | ⟨-, hclear, -⟩
  · rw [hok] at hacc
    cases hacc
  · cases hb'
    exact .inl hrep
  · exact .inr (hclear b rfl)

theorem no_double_proposal_of_accepts (hsafe : ∀ call ∈ calls, call.2.Safe)
    (hsound : SoundCalls ssz calls) (hb : b.slot ≤ MAX_SAFE_INTEGER)
    (hacc : (BlockWorld.runCalls ssz calls).accepts ssz p (.checkAndInsertBlockProposal b) = true) :
    ∀ c ∈ (BlockWorld.runCalls ssz calls).recorded p, c.slot = b.slot →
      c.signingRoot = b.signingRoot ∧ c.signingRoot ≠ ZERO_ROOT := by
  have hkept := blocksKept_runCalls ssz hsafe p
  intro c hc hslot
  rcases repeated_or_clear hsafe hb hacc with ⟨prev, hprev, -, hroot⟩ | hclear
  · obtain ⟨hne, heq⟩ := isEqualNonZeroRoot_iff.1 hroot
    have hcr := rootsKept_runCalls hsafe hsound p _ _ hprev hne c hc hslot
    exact ⟨hcr.trans heq, hcr ▸ hne⟩
  · exact (hkept.unused hclear c hc hslot).elim

theorem above_lowest_of_accepts (hsafe : ∀ call ∈ calls, call.2.Safe)
    (hb : b.slot ≤ MAX_SAFE_INTEGER)
    (hacc : (BlockWorld.runCalls ssz calls).accepts ssz p (.checkAndInsertBlockProposal b) = true)
    {m : Nat} (hm : (((BlockWorld.runCalls ssz calls).recorded p).map (·.slot)).min? = some m)
    (hmax : m < MAX_SAFE_INTEGER) :
    m < b.slot ∨ b ∈ (BlockWorld.runCalls ssz calls).recorded p := by
  have hkept := blocksKept_runCalls ssz hsafe p
  rcases repeated_or_clear hsafe hb hacc with hrep | hclear
  · exact .inr (hkept.repeated hrep)
  · obtain ⟨c, hc, rfl⟩ := List.mem_map.1 (List.min?_mem hm)
    obtain ⟨prev, hprev⟩ := hkept.kept c hc
    obtain ⟨m', first, hfirst, hget, -⟩ := firstBlock_le hprev hmax
    have hle : c.slot ≤ first.slot :=
      (List.le_min?_iff hm).1 le_rfl _ (List.mem_map.2 ⟨first, (hkept.record hget).1, rfl⟩)
    exact .inl (lt_of_le_of_lt hle (hclear.bound first hfirst))

theorem accepts_filter (hsafe : ∀ call ∈ calls, call.2.Safe) (hc : c.Safe) :
    (BlockWorld.runCalls ssz calls).accepts ssz p c =
      (BlockWorld.runCalls ssz (calls.filter (·.1 = p))).accepts ssz p c := by
  rw [accepts_eq hsafe hc,
    accepts_eq (fun call hcall => hsafe call (List.mem_of_mem_filter hcall)) hc,
    ((sameBlocks_filter ssz p calls).run ssz.toEpoch c).1]

/-- After any run of calls for any public keys, an accepted proposal is above the lowest slot
recorded for its public key or repeats a recorded one, and is decided by that public key's calls
alone; when the calls are sound, everything recorded at its slot has its signing root. -/
theorem no_double_proposal (hsafe : ∀ call ∈ calls, call.2.Safe) (hb : b.slot ≤ MAX_SAFE_INTEGER) :
    ((BlockWorld.runCalls ssz calls).accepts ssz p (.checkAndInsertBlockProposal b) = true →
      (SoundCalls ssz calls → ∀ c ∈ (BlockWorld.runCalls ssz calls).recorded p, c.slot = b.slot →
        c.signingRoot = b.signingRoot ∧ c.signingRoot ≠ ZERO_ROOT) ∧
      ∀ m, (((BlockWorld.runCalls ssz calls).recorded p).map (·.slot)).min? = some m →
        m < MAX_SAFE_INTEGER → m < b.slot ∨ b ∈ (BlockWorld.runCalls ssz calls).recorded p) ∧
    (BlockWorld.runCalls ssz calls).accepts ssz p (.checkAndInsertBlockProposal b) =
      (BlockWorld.runCalls ssz (calls.filter (·.1 = p))).accepts ssz p
        (.checkAndInsertBlockProposal b) :=
  ⟨fun hacc => ⟨fun hsound => no_double_proposal_of_accepts hsafe hsound hb hacc,
    fun _ hm hmax => above_lowest_of_accepts hsafe hb hacc hm hmax⟩,
    accepts_filter hsafe (by simpa [BlockCall.Safe, BlockCall.blocks] using hb)⟩

/-- An import of one validator, then a proposal of another. -/
def importThenPropose : List (BLSPubkey × BlockCall) :=
  [(7, .importBlocks [⟨5, 0xaa⟩]), (8, .checkAndInsertBlockProposal ⟨3, 0xbb⟩)]

theorem no_double_proposal_importThenPropose :
    (BlockWorld.runCalls sszContainers importThenPropose).accepts sszContainers 7
      (.checkAndInsertBlockProposal ⟨5, 0xaa⟩) = true ∧
    ∀ c ∈ (BlockWorld.runCalls sszContainers importThenPropose).recorded 7, c.slot = 5 →
      c.signingRoot = 0xaa ∧ c.signingRoot ≠ ZERO_ROOT := by
  have hsafe : ∀ call ∈ importThenPropose, call.2.Safe := by
    decide +kernel
  have hacc : (BlockWorld.runCalls sszContainers importThenPropose).accepts sszContainers 7
      (.checkAndInsertBlockProposal ⟨5, 0xaa⟩) = true := by decide +kernel
  have hsound : SoundCalls sszContainers importThenPropose := by
    intro before call after h
    rcases before with _ | ⟨first, _ | ⟨second, before⟩⟩
    · cases h
      intro slot b hlast _
      obtain ⟨hb, rfl⟩ : b = ⟨5, 0xaa⟩ ∧ b.slot = slot := by
        simpa using And.intro (List.mem_of_find?_eq_some hlast) (List.find?_some hlast)
      subst hb
      refine ⟨fun c hc _ => by rw [List.mem_singleton.1 hc], fun prev hprev => ?_⟩
      have hnone : BlockWorld.init.record sszContainers 7 5 = none := by decide +kernel
      cases hnone.symm.trans hprev
    · cases h
      trivial
    · simp [importThenPropose] at h
  exact ⟨hacc, ((no_double_proposal (b := ⟨5, 0xaa⟩) hsafe (by decide)).1 hacc).1 hsound⟩

/-- A slot imported twice: the second record replaces the first. -/
def importedSlotTwice : List (BLSPubkey × BlockCall) :=
  [(7, .importBlocks [⟨5, 0xaa⟩]), (7, .importBlocks [⟨5, 0xbb⟩])]

/-- After that the other proposal is signed again. -/
theorem double_proposal_of_importedSlotTwice :
    (BlockWorld.runCalls sszContainers importedSlotTwice).accepts sszContainers 7
      (.checkAndInsertBlockProposal ⟨5, 0xbb⟩) = true ∧
    ¬ ∀ c ∈ (BlockWorld.runCalls sszContainers importedSlotTwice).recorded 7, c.slot = 5 →
      c.signingRoot = 0xbb ∧ c.signingRoot ≠ ZERO_ROOT := by
  decide +kernel

end Lodestar.SlashingProtection
