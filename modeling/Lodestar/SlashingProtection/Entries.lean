import Lodestar.SlashingProtection.Proposals
import Lodestar.SlashingProtection.Transfer

/-!
# The entries of one public key

Every function of the two services awaits reads and writes of the public key
it is called for alone. So it answers alike on databases with the same entries
of that key, and leaves the entries of the others.
-/

namespace Lodestar.SlashingProtection

open Lodestar.Base

/-- The public key an operation is about. -/
def DbOp.pubkey : DbOp → BLSPubkey
  | .attestationByTargetGet p _ | .attestationByTargetGetAll p _ | .attestationByTargetSet p _
  | .attestationLowerBoundGet p | .attestationLowerBoundSet p _ | .spanGet _ p _
  | .spanSetBatch _ p _ | .blockBySlotGet p _ | .blockBySlotGetAll p _ | .blockBySlotSet p _ => p

/-- Only operations for `p`. -/
abbrev Own (p : BLSPubkey) (o : DbOp) : Prop := o.pubkey = p

/-! ## What is awaited -/

variable {p : BLSPubkey}

theorem own_assertNotSurrounding (a : SlashingProtectionAttestation) :
    (assertNotSurrounding p a).Issues (Own p) := by
  refine Prog.issues_op_bind rfl fun minSpan => ?_
  cases minSpan with
  | none => trivial
  | some d => dsimp only; split_ifs <;> trivial

theorem own_assertNotSurrounded (a : SlashingProtectionAttestation) :
    (assertNotSurrounded p a).Issues (Own p) := by
  refine Prog.issues_op_bind rfl fun maxSpan => ?_
  cases maxSpan with
  | none => trivial
  | some d => dsimp only; split_ifs <;> trivial

theorem own_updateMinSpanLoop (t untilEpoch n : Nat) (values : List IDistanceEntry) :
    (updateMinSpanLoop p t untilEpoch n values).Issues (Own p) := by
  induction n generalizing values with
  | zero => trivial
  | succ n ih =>
    unfold updateMinSpanLoop
    split_ifs
    · trivial
    · refine Prog.issues_op_bind rfl fun minSpan => ?_
      dsimp only
      split_ifs
      · exact ih _
      · trivial

theorem own_updateMaxSpanLoop (t n : Nat) (values : List IDistanceEntry) :
    (updateMaxSpanLoop p t n values).Issues (Own p) := by
  induction n generalizing values with
  | zero => trivial
  | succ n ih =>
    refine Prog.issues_op_bind rfl fun maxSpan => ?_
    dsimp only
    split_ifs
    · exact ih _
    · trivial

theorem own_minMaxSurround_insertAttestation (a : SlashingProtectionAttestation) :
    (MinMaxSurround.insertAttestation none p a).Issues (Own p) := by
  have hmin : (updateMinSpan none p a).Issues (Own p) :=
    Prog.issues_bind (own_assertNotSurrounding a) fun _ =>
      Prog.issues_bind (own_updateMinSpanLoop ..) fun _ => (Prog.issues_op _ _).2 rfl
  have hmax : (updateMaxSpan p a).Issues (Own p) :=
    Prog.issues_bind (own_assertNotSurrounded a) fun _ =>
      Prog.issues_bind (own_updateMaxSpanLoop ..) fun _ => (Prog.issues_op _ _).2 rfl
  exact Prog.issues_bind hmin fun _ => hmax

theorem own_checkAttestationCatch (a : SlashingProtectionAttestation)
    (e : SlashingProtectionError) : (checkAttestationCatch p a e).Issues (Own p) := by
  cases e with
  | surround code b t =>
    refine Prog.issues_op_bind rfl fun prev => ?_
    cases code <;> trivial
  | _ => trivial

theorem own_checkAttestation (a : SlashingProtectionAttestation) :
    (checkAttestation p a).Issues (Own p) := by
  unfold checkAttestation
  split_ifs
  · trivial
  refine Prog.issues_op_bind rfl fun sameTargetAtt => ?_
  cases sameTargetAtt with
  | none =>
    -- the surround check and the comparison with the lower bound
    refine Prog.issues_bind (Prog.issues_tryCatch ?_ (own_checkAttestationCatch a)) fun _ => ?_
    · exact Prog.issues_bind (own_assertNotSurrounding a) fun _ => own_assertNotSurrounded a
    · refine Prog.issues_op_bind rfl fun bound => ?_
      cases bound with
      | none => trivial
      | some bound => dsimp only; split_ifs <;> trivial
  | some prev => dsimp only; split_ifs <;> trivial

theorem own_checkAndInsertAttestation (a : SlashingProtectionAttestation) :
    (checkAndInsertAttestation p a).Issues (Own p) := by
  refine Prog.issues_bind (own_checkAttestation a) fun status => ?_
  cases status with
  | SAME_DATA => trivial
  | OK => exact Prog.issues_op_bind rfl fun _ => own_minMaxSurround_insertAttestation a

theorem own_checkAndInsertBlockProposal (b : SlashingProtectionBlock) :
    (checkAndInsertBlockProposal p b).Issues (Own p) :=
  (BlockCall.checkAndInsertBlockProposal b).issues (fun _ _ => rfl) rfl rfl

theorem own_insertSignedSpans (attestations : List InterchangeAttestation) :
    (insertSignedSpans p attestations).Issues (Own p) := by
  induction attestations with
  | nil => trivial
  | cons a attestations ih =>
    unfold insertSignedSpans
    cases a.record? none with
    | none => trivial
    | some att =>
      exact Prog.issues_bind (Prog.issues_mapError (own_minMaxSurround_insertAttestation att))
        fun _ => ih

theorem own_importSignedBlocks (blocks : List InterchangeBlock) :
    (importSignedBlocks p blocks).Issues (Own p) := by
  unfold importSignedBlocks
  cases blocks.mapM InterchangeBlock.record? with
  | none => trivial
  | some bs => exact Prog.issues_mapError ((Prog.issues_op _ _).2 rfl)

theorem own_importSignedAttestations (nan : Option Nat)
    (attestations : List InterchangeAttestation) :
    (importSignedAttestations nan p attestations).Issues (Own p) := by
  unfold importSignedAttestations
  cases attestations.mapM (InterchangeAttestation.record? nan) with
  | none => trivial
  | some atts =>
    refine Prog.issues_op_bind rfl fun _ => ?_
    refine Prog.issues_bind (own_insertSignedSpans attestations) fun _ => ?_
    cases (attestations.mapM (InterchangeAttestation.record? none)).bind lowerBoundOf with
    | none => trivial
    | some bound => exact Prog.issues_mapError ((Prog.issues_op _ _).2 rfl)

theorem own_importValidator (nan : Option Nat) (validator : InterchangeValidator) :
    (importValidator nan validator).Issues (Own validator.pubkey) :=
  Prog.issues_bind (own_importSignedBlocks _) fun _ => own_importSignedAttestations nan _

/-! ## The same entries -/

/-- Two databases hold the same entries of `p`. -/
structure SameEntries (p : BLSPubkey) (db db' : Db) : Prop where
  block : SameBlocks p db db'
  attestation : ∀ t : Nat,
    db.attestationByTarget[((p, t) : Key)]? = db'.attestationByTarget[((p, t) : Key)]?
  bound : db.attestationLowerBound[p]? = db'.attestationLowerBound[p]?
  span : ∀ span e, db.spanAt span p e = db'.spanAt span p e

variable {ssz : SszEpoch} {db db' db'' : Db}

theorem SameEntries.refl (p : BLSPubkey) (db : Db) : SameEntries p db db :=
  ⟨fun _ => rfl, fun _ => rfl, rfl, fun _ _ => rfl⟩

theorem SameEntries.symm (h : SameEntries p db db') : SameEntries p db' db :=
  ⟨fun s => (h.block s).symm, fun t => (h.attestation t).symm, h.bound.symm,
    fun s e => (h.span s e).symm⟩

theorem SameEntries.trans (h : SameEntries p db db') (h' : SameEntries p db' db'') :
    SameEntries p db db'' :=
  ⟨h.block.trans h'.block, fun t => (h.attestation t).trans (h'.attestation t),
    h.bound.trans h'.bound, fun s e => (h.span s e).trans (h'.span s e)⟩

theorem spanAt_setSpans_eq (span span' : Span) (q : BLSPubkey) (values : List IDistanceEntry)
    (e : Nat) :
    (db.setSpans ssz span q values).spanAt span' p e =
      if span' = span then
        ((values.reverse.find? fun v => ((q, v.source) : Key) = (p, e)).map
          fun v => ssz.roundTrip v.distance).or (db.spanAt span' p e)
      else db.spanAt span' p e := by
  by_cases hs : span' = span
  · subst hs
    rw [if_pos rfl]
    unfold Db.spanAt Db.setSpans
    dsimp only
    rw [Function.update_self, batchPut_get]
  · rw [if_neg hs]
    simp [Db.spanAt, Db.setSpans, Function.update_of_ne hs]

theorem SameEntries.act {o : DbOp} (ho : Own p o) (h : SameEntries p db db') :
    (act ssz o db).1 = (act ssz o db').1 ∧ SameEntries p (act ssz o db).2 (act ssz o db').2 := by
  obtain rfl : o.pubkey = p := ho
  cases o with
  | attestationByTargetGet q t => exact ⟨h.attestation t, h⟩
  | attestationByTargetGetAll q limit => exact ⟨getAll_congr h.attestation limit, h⟩
  | attestationByTargetSet q atts =>
    refine ⟨rfl, h.block, fun t => ?_, h.bound, h.span⟩
    show (batchPut _ _ _ _)[_]? = (batchPut _ _ _ _)[_]?
    rw [batchPut_get, batchPut_get, h.attestation t]
  | attestationLowerBoundGet q => exact ⟨h.bound, h⟩
  | attestationLowerBoundSet q value =>
    refine ⟨rfl, h.block, h.attestation, ?_, h.span⟩
    show (Std.TreeMap.insert _ q value)[q]? = (Std.TreeMap.insert _ q value)[q]?
    rw [Std.TreeMap.getElem?_insert_self, Std.TreeMap.getElem?_insert_self]
  | spanGet span q e => exact ⟨h.span span e, h⟩
  | spanSetBatch span q values =>
    refine ⟨rfl, h.block, h.attestation, h.bound, fun span' e => ?_⟩
    have hspan : db.spanAt span' q e = db'.spanAt span' q e := h.span span' e
    show (db.setSpans ssz span q values).spanAt span' q e =
      (db'.setSpans ssz span q values).spanAt span' q e
    rw [spanAt_setSpans_eq, spanAt_setSpans_eq, hspan]
  | blockBySlotGet q slot => exact ⟨h.block slot, h⟩
  | blockBySlotGetAll q limit => exact ⟨getAll_congr h.block limit, h⟩
  | blockBySlotSet q bs => exact ⟨rfl, h.block.setBlocks bs, h.attestation, h.bound, h.span⟩

theorem SameEntries.of_other {o : DbOp} (ho : o.pubkey ≠ p) (db : Db) :
    SameEntries p db (SlashingProtection.act ssz o db).2 := by
  cases o with
  | attestationByTargetGet | attestationByTargetGetAll | attestationLowerBoundGet | spanGet
  | blockBySlotGet | blockBySlotGetAll => exact SameEntries.refl p db
  | attestationByTargetSet q atts =>
    refine ⟨fun _ => rfl, fun t => ?_, rfl, fun _ _ => rfl⟩
    exact (batchPut_get_of_notMem fun b _ he => ho (Prod.mk.inj he).1).symm
  | attestationLowerBoundSet q value =>
    refine ⟨fun _ => rfl, fun _ => rfl, ?_, fun _ _ => rfl⟩
    show _ = (Std.TreeMap.insert _ q value)[p]?
    have hq : q ≠ p := ho
    rw [Std.TreeMap.getElem?_insert, if_neg (by simpa using hq)]
  | spanSetBatch span q values =>
    refine ⟨fun _ => rfl, fun _ => rfl, rfl, fun span' e => ?_⟩
    have hnone : values.reverse.find? (fun v => ((q, v.source) : Key) = (p, e)) = none :=
      List.find?_eq_none.2 fun v _ hv => ho (Prod.mk.inj (of_decide_eq_true hv)).1
    show _ = (db.setSpans ssz span q values).spanAt span' p e
    rw [spanAt_setSpans_eq, hnone]
    simp
  | blockBySlotSet q bs =>
    refine ⟨fun slot => ?_, fun _ => rfl, rfl, fun _ _ => rfl⟩
    exact (batchPut_get_of_notMem fun b _ he => ho (Prod.mk.inj he).1).symm

variable {ε α : Type} {f : Prog DbOp DbOp.Resp ε α}

/-- A program for `p` ends alike on the same entries of `p`, and leaves the same. -/
theorem SameEntries.run (hf : f.Issues (Own p)) (h : SameEntries p db db') :
    (f.run (SlashingProtection.act ssz) db).1 = (f.run (SlashingProtection.act ssz) db').1 ∧
      SameEntries p (f.run (SlashingProtection.act ssz) db).2
        (f.run (SlashingProtection.act ssz) db').2 := by
  have hact : ∀ o db db', Own p o → SameEntries p db db' →
      (SlashingProtection.act ssz o db).1 = (SlashingProtection.act ssz o db').1 ∧
        SameEntries p (SlashingProtection.act ssz o db).2 (SlashingProtection.act ssz o db').2 :=
    fun o db db' ho h => h.act ho
  exact Prog.run_refines hact hf h

variable (ssz db) in
theorem SameEntries.run_other {q : BLSPubkey} (hf : f.Issues (Own q)) (hq : q ≠ p) :
    SameEntries p db (f.run (SlashingProtection.act ssz) db).2 := by
  have hact : ∀ o s, Own q o → SameEntries p db s →
      SameEntries p db (SlashingProtection.act ssz o s).2 := by
    intro o s ho hs
    exact hs.trans (SameEntries.of_other (by rw [show o.pubkey = q from ho]; exact hq) s)
  exact Prog.run_keeps hact hf (SameEntries.refl p db)

variable {nan : Option Nat}

variable (ssz nan db) in
theorem SameEntries.importValidators {data : List InterchangeValidator}
    (h : ∀ v ∈ data, v.pubkey ≠ p) :
    SameEntries p db ((importValidators nan data).run (SlashingProtection.act ssz) db).2 := by
  induction data generalizing db with
  | nil => exact SameEntries.refl p db
  | cons v data ih =>
    have hv := SameEntries.run_other (p := p) ssz db (own_importValidator nan v)
      (h v List.mem_cons_self)
    unfold SlashingProtection.importValidators
    rw [Prog.run_bind]
    cases hrun : (importValidator nan v).run (SlashingProtection.act ssz) db with
    | mk r db₁ =>
      rw [hrun] at hv
      cases r with
      | error e => exact hv
      | ok u => exact hv.trans (ih db₁ fun w hw => h w (List.mem_cons_of_mem _ hw))

/-! ## What is signed later -/

/-- A later call. -/
inductive Message where
  | proposal (pubkey : BLSPubkey) (block : SlashingProtectionBlock)
  | attestation (pubkey : BLSPubkey) (attestation : SlashingProtectionAttestation)
  deriving DecidableEq

def Message.pubkey : Message → BLSPubkey
  | .proposal p _ | .attestation p _ => p

def Message.prog : Message → Async Unit
  | .proposal p b => checkAndInsertBlockProposal p b
  | .attestation p a => checkAndInsertAttestation p a

/-- Which of the messages, asked for one after the other, are accepted. -/
def answers (ssz : SszEpoch) : Db → List Message → List Bool
  | _, [] => []
  | db, m :: ms => (m.prog.run (act ssz) db).1.isOk :: answers ssz (m.prog.run (act ssz) db).2 ms

theorem Message.own (m : Message) : m.prog.Issues (Own m.pubkey) := by
  cases m with
  | proposal p b => exact own_checkAndInsertBlockProposal b
  | attestation p a => exact own_checkAndInsertAttestation a

theorem answers_congr {ms : List Message} (h : ∀ m ∈ ms, SameEntries m.pubkey db db') :
    answers ssz db ms = answers ssz db' ms := by
  induction ms generalizing db db' with
  | nil => rfl
  | cons m ms ih =>
    obtain ⟨hres, hsame⟩ := (h m List.mem_cons_self).run m.own
    unfold answers
    rw [hres]
    refine congrArg _ (ih fun m' hm' => ?_)
    by_cases hp : m'.pubkey = m.pubkey
    · rw [hp]; exact hsame
    · have h₁ := SameEntries.run_other ssz db m.own (Ne.symm hp)
      have h₂ := SameEntries.run_other ssz db' m.own (Ne.symm hp)
      exact h₁.symm.trans ((h m' (List.mem_cons_of_mem _ hm')).trans h₂)

end Lodestar.SlashingProtection
