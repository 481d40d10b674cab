import Lodestar.SlashingProtection.LowerBound
import Lodestar.SlashingProtection.SelfSlashing
import Lodestar.SlashingProtection.Trace

/-!
# Two calls at once

Two check-and-insert calls interleave at their reads and writes. Both can
resolve only when each made its decisive reads before the other's write; the
orders in which one of them reads what the other wrote are named by
`AttestationsSerialised` and `ProposalsSerialised`.

Between two calls every entry of the spans comes from the database they
started on or is the distance to the target of one of the two, and each is
written by at most one of them next to the other's source. So what a call has
read at its source, and where its loops stopped, is known (`Outcome.spanGet`).
-/

namespace Lodestar.SlashingProtection

open Std (TreeMap)
open Lodestar.Base Lodestar.Base.Conf

variable {ssz : SszEpoch} {pubKey : BLSPubkey} {db : Db}

/-! ## Cells of the database -/

variable (ssz pubKey) in
theorem attestation_storeAfter (t : Nat) (db : Db) (tr : List (Bool × DbEvent)) :
    (∃ x ∈ tr, ∃ a, (∃ atts, x.2.1 = .attestationByTargetSet pubKey atts ∧ a ∈ atts ∧
        a.targetEpoch = t) ∧
      (storeAfter (act ssz) db tr).attestationByTarget[(pubKey, t)]? = some a) ∨
    (∀ x ∈ tr, ∀ a, ¬ ∃ atts, x.2.1 = .attestationByTargetSet pubKey atts ∧ a ∈ atts ∧
        a.targetEpoch = t) ∧
      (storeAfter (act ssz) db tr).attestationByTarget[(pubKey, t)]? =
        db.attestationByTarget[(pubKey, t)]? := by
  refine storeAfter_cases (act ssz) (fun db => db.attestationByTarget[(pubKey, t)]?)
    (fun o a => ∃ atts, o = .attestationByTargetSet pubKey atts ∧ a ∈ atts ∧
      a.targetEpoch = t) (fun o s => ?_) db tr
  cases o with
  | attestationByTargetSet p atts =>
    rcases batchPut_get_cases s.attestationByTarget (fun a => (p, a.targetEpoch)) id atts
      (pubKey, t) with ⟨a, ha, hk, hget⟩ | ⟨hno, hget⟩
    · obtain ⟨rfl, rfl⟩ := Prod.mk.inj hk
      exact .inl ⟨a, ⟨atts, rfl, ha, rfl⟩, hget⟩
    · refine .inr ⟨?_, hget⟩
      rintro a ⟨atts', heq, ha, rfl⟩
      cases heq
      exact hno a ha rfl
  | _ => exact .inr ⟨(by rintro _ ⟨_, h, -⟩; cases h), rfl⟩

variable (ssz pubKey) in
theorem spanAt_storeAfter (span : Span) (e : Nat) (db : Db) (tr : List (Bool × DbEvent)) :
    (∃ x ∈ tr, ∃ d, (∃ vs, x.2.1 = .spanSetBatch span pubKey vs ∧
        ∃ v ∈ vs, v.source = e ∧ ssz.roundTrip v.distance = d) ∧
      (storeAfter (act ssz) db tr).spanAt span pubKey e = some d) ∨
    (∀ x ∈ tr, ∀ d, ¬ ∃ vs, x.2.1 = .spanSetBatch span pubKey vs ∧
        ∃ v ∈ vs, v.source = e ∧ ssz.roundTrip v.distance = d) ∧
      (storeAfter (act ssz) db tr).spanAt span pubKey e = db.spanAt span pubKey e := by
  refine storeAfter_cases (act ssz) (fun db => db.spanAt span pubKey e)
    (fun o d => ∃ vs, o = .spanSetBatch span pubKey vs ∧
        ∃ v ∈ vs, v.source = e ∧ ssz.roundTrip v.distance = d) (fun o s => ?_) db tr
  cases o with
  | spanSetBatch span' p vs =>
    by_cases hs : span = span'
    · subst hs
      have hset : (act ssz (.spanSetBatch span p vs) s).2.spanAt span pubKey e =
          (batchPut (s.span span) (fun v => (p, v.source)) (fun v => ssz.roundTrip v.distance)
            vs)[(pubKey, e)]? := by
        simp [act, Db.setSpans, Db.spanAt]
      rcases batchPut_get_cases (s.span span) (fun v => (p, v.source))
        (fun v => ssz.roundTrip v.distance) vs (pubKey, e) with ⟨v, hv, hk, hget⟩ | ⟨hno, hget⟩
      · obtain ⟨rfl, rfl⟩ := Prod.mk.inj hk
        exact .inl ⟨_, ⟨vs, rfl, v, hv, rfl, rfl⟩, hset.trans hget⟩
      · refine .inr ⟨?_, hset.trans hget⟩
        rintro d ⟨vs', heq, v, hv, rfl, -⟩
        cases heq
        exact hno v hv rfl
    · refine .inr ⟨?_, congrFun (spanAt_setSpans_ne hs vs) e⟩
      rintro d ⟨vs', heq, -⟩
      cases heq
      exact hs rfl
  | _ => exact .inr ⟨(by rintro _ ⟨_, h, -⟩; cases h), rfl⟩

variable (ssz pubKey) in
theorem block_storeAfter (slot : Nat) (db : Db) (tr : List (Bool × DbEvent)) :
    (∃ x ∈ tr, ∃ b, (∃ bs, x.2.1 = .blockBySlotSet pubKey bs ∧ b ∈ bs ∧ b.slot = slot) ∧
      (storeAfter (act ssz) db tr).blockBySlot[(pubKey, slot)]? = some b) ∨
    (∀ x ∈ tr, ∀ b, ¬ ∃ bs, x.2.1 = .blockBySlotSet pubKey bs ∧ b ∈ bs ∧ b.slot = slot) ∧
      (storeAfter (act ssz) db tr).blockBySlot[(pubKey, slot)]? =
        db.blockBySlot[(pubKey, slot)]? := by
  refine storeAfter_cases (act ssz) (fun db => db.blockBySlot[(pubKey, slot)]?)
    (fun o b => ∃ bs, o = .blockBySlotSet pubKey bs ∧ b ∈ bs ∧ b.slot = slot)
    (fun o s => ?_) db tr
  cases o with
  | blockBySlotSet p bs =>
    rcases batchPut_get_cases s.blockBySlot (fun b => (p, b.slot)) id bs (pubKey, slot) with
      ⟨b, hb, hk, hget⟩ | ⟨hno, hget⟩
    · obtain ⟨rfl, rfl⟩ := Prod.mk.inj hk
      exact .inl ⟨b, ⟨bs, rfl, hb, rfl⟩, hget⟩
    · refine .inr ⟨?_, hget⟩
      rintro b ⟨bs', heq, hb, rfl⟩
      cases heq
      exact hno b hb rfl
  | _ => exact .inr ⟨(by rintro _ ⟨_, h, -⟩; cases h), rfl⟩

theorem lowerBound_storeAfter (db : Db) {tr : List (Bool × DbEvent)}
    (h : ∀ x ∈ tr, ∀ bound, x.2.1 ≠ .attestationLowerBoundSet pubKey bound) :
    (storeAfter (act ssz) db tr).attestationLowerBound[pubKey]? =
      db.attestationLowerBound[pubKey]? := by
  have hcases := storeAfter_cases (act ssz) (fun db : Db => db.attestationLowerBound[pubKey]?)
    (fun o bound => o = .attestationLowerBoundSet pubKey bound)
    (fun o s => ?_) db tr
  · rcases hcases with ⟨x, hx, bound, hb, -⟩ | ⟨-, hget⟩
    · exact (h x hx bound hb).elim
    · exact hget
  · cases o with
    | attestationLowerBoundSet p value =>
      by_cases hp : p = pubKey
      · subst hp
        exact .inl ⟨value, rfl, by simp [act, Db.setLowerBound]⟩
      · refine .inr ⟨by simp [hp], ?_⟩
        simp [act, Db.setLowerBound, TreeMap.getElem?_insert, hp]
    | _ => exact .inr ⟨(by rintro _ h; cases h), rfl⟩

/-! ## Two attestation calls that resolve -/

/-- What a call saw that resolved because its attestation is recorded. -/
def SawRepeat (pubKey : BLSPubkey) (a : SlashingProtectionAttestation) (tr : List DbEvent) : Prop :=
  ∃ prev : SlashingProtectionAttestation,
    tr = [⟨.attestationByTargetGet pubKey a.targetEpoch, some prev⟩] ∧
    isEqualNonZeroRoot prev.signingRoot a.signingRoot = true ∧ a.sourceEpoch ≤ a.targetEpoch

/-- Both calls have resolved; `F i` and `G i` are what the span loops of `i` read. -/
structure Outcome (ssz : SszEpoch) (pubKey : BLSPubkey) (db : Db)
    (att : Bool → SlashingProtectionAttestation) (tr : List (Bool × DbEvent))
    (F G : Bool → Nat → Option Nat) : Prop where
  answer : ∀ t₁ i e t₂, tr = t₁ ++ (i, e) :: t₂ →
    e.2 = (act ssz e.1 (storeAfter (act ssz) db t₁)).1
  ended : ∀ i, SawRepeat pubKey (att i) (view tr i) ∨
    Inserted pubKey (att i) (view tr i) (F i) (G i)
  safe : ∀ i, (att i).targetEpoch ≤ MAX_SAFE_INTEGER

variable {att : Bool → SlashingProtectionAttestation} {tr : List (Bool × DbEvent)}
  {F G : Bool → Nat → Option Nat} {i j : Bool}

/-- The program of each of the two calls. -/
def attestationCalls (pubKey : BLSPubkey) (att : Bool → SlashingProtectionAttestation) (i : Bool) :
    Async Unit := checkAndInsertAttestation pubKey (att i)

theorem Outcome.of_point {c : Conf Bool DbOp DbOp.Resp SlashingProtectionError Unit Db}
    (h : Point (act ssz) (attestationCalls pubKey att) db c)
    (hret : ∀ i, c.thread i = .ret ()) (hsafe : ∀ i, (att i).targetEpoch ≤ MAX_SAFE_INTEGER) :
    ∃ F G, Outcome ssz pubKey db att c.trace F G := by
  have hended : ∀ i, ∃ f g, SawRepeat pubKey (att i) (view c.trace i) ∨
      Inserted pubKey (att i) (view c.trace i) f g := fun i => by
    rcases exec_checkAndInsertAttestation (h.exec_of_ret (hret i)) with hrep | ⟨f, g, hins⟩
    · exact ⟨fun _ => none, fun _ => none, .inl hrep⟩
    · exact ⟨f, g, .inr hins⟩
  choose F G hFG using hended
  exact ⟨F, G, h.answer, hFG, hsafe⟩

namespace Outcome

theorem mem_of_eq {t₁ t₂ : List (Bool × DbEvent)} {y : Bool × DbEvent} {e : DbEvent}
    (h : tr = t₁ ++ y :: t₂) (he : (i, e) ∈ t₁) : e ∈ view tr i := by
  rw [mem_view, h]
  exact List.mem_append_left _ he

theorem insertEvent_of_write (h : Outcome ssz pubKey db att tr F G) {e : DbEvent}
    (he : e ∈ view tr i) (hw : ∀ t r, e ≠ ⟨.attestationByTargetGet pubKey t, r⟩) :
    Inserted pubKey (att i) (view tr i) (F i) (G i) ∧
      InsertEvent pubKey (att i) (F i) (G i) e := by
  rcases h.ended i with ⟨prev, htr, -⟩ | hins
  · rw [htr] at he
    exact (hw _ _ (List.mem_singleton.1 he)).elim
  · exact ⟨hins, hins.events _ he⟩

theorem attestation_cases (h : Outcome ssz pubKey db att tr F G) {t₁ t₂ : List (Bool × DbEvent)}
    {y : Bool × DbEvent} (heq : tr = t₁ ++ y :: t₂) (t : Nat) :
    (∃ j, Inserted pubKey (att j) (view tr j) (F j) (G j) ∧ (att j).targetEpoch = t ∧
      (storeAfter (act ssz) db t₁).attestationByTarget[(pubKey, t)]? = some (att j)) ∨
    (∀ j, (j, ⟨.attestationByTargetSet pubKey [att j], ()⟩) ∈ t₁ → (att j).targetEpoch ≠ t) ∧
      (storeAfter (act ssz) db t₁).attestationByTarget[(pubKey, t)]? =
        db.attestationByTarget[(pubKey, t)]? := by
  rcases attestation_storeAfter ssz pubKey t db t₁ with
    ⟨⟨j, o, r⟩, hx, a, ⟨atts, rfl, ha, hat⟩, hget⟩ | ⟨hno, hget⟩
  · obtain ⟨hins, hev⟩ := h.insertEvent_of_write (mem_of_eq heq hx) (by rintro _ _ ⟨⟩)
    cases hev
    obtain rfl := List.mem_singleton.1 ha
    exact .inl ⟨j, hins, hat, hget⟩
  · exact .inr ⟨fun j hj hjt => hno _ hj (att j) ⟨_, rfl, List.mem_singleton_self _, hjt⟩, hget⟩

/-- The entry of a span is the distance to one of the two targets or was there before. -/
theorem minSpan_cases (h : Outcome ssz pubKey db att tr F G) {t₁ t₂ : List (Bool × DbEvent)}
    {y : Bool × DbEvent} (heq : tr = t₁ ++ y :: t₂) (e : Nat) :
    (∃ j, Inserted pubKey (att j) (view tr j) (F j) (G j) ∧
      minCut (F j) (att j).targetEpoch (att j).sourceEpoch ≤ e ∧ e < (att j).sourceEpoch ∧
      (storeAfter (act ssz) db t₁).spanAt .minSpan pubKey e = some ((att j).targetEpoch - e)) ∨
    (∀ j, (j, ⟨.spanSetBatch .minSpan pubKey (minValues (F j) (att j)), ()⟩) ∈ t₁ →
        ¬ (minCut (F j) (att j).targetEpoch (att j).sourceEpoch ≤ e ∧ e < (att j).sourceEpoch)) ∧
      (storeAfter (act ssz) db t₁).spanAt .minSpan pubKey e = db.spanAt .minSpan pubKey e := by
  have hmem : ∀ j v, v ∈ minValues (F j) (att j) ↔
      (minCut (F j) (att j).targetEpoch (att j).sourceEpoch ≤ v.source ∧
        v.source < (att j).sourceEpoch) ∧
      v.distance = ((att j).targetEpoch : Int) - v.source := fun j v => by
    rw [minValues, List.mem_reverse, mem_entries, Nat.add_sub_cancel' (minCut_le ..)]
  rcases spanAt_storeAfter ssz pubKey .minSpan e db t₁ with
    ⟨⟨j, o, r⟩, hx, d, ⟨vs, rfl, v, hv, rfl, rfl⟩, hget⟩ | ⟨hno, hget⟩
  · obtain ⟨hins, hev⟩ := h.insertEvent_of_write (mem_of_eq heq hx) (by rintro _ _ ⟨⟩)
    cases hev
    obtain ⟨⟨h₁, h₂⟩, h₃⟩ := (hmem j v).1 hv
    have hle := hins.le
    rw [h₃, roundTrip_distance ⟨hle, h.safe j⟩ (by omega)] at hget
    exact .inl ⟨j, hins, h₁, h₂, hget⟩
  · refine .inr ⟨fun j hj hje => ?_, hget⟩
    exact hno _ hj _ ⟨_, rfl, ⟨e, (att j).targetEpoch - e⟩, (hmem j _).2 ⟨hje, rfl⟩, rfl, rfl⟩

theorem maxSpan_cases (h : Outcome ssz pubKey db att tr F G) {t₁ t₂ : List (Bool × DbEvent)}
    {y : Bool × DbEvent} (heq : tr = t₁ ++ y :: t₂) (e : Nat) :
    (∃ j, Inserted pubKey (att j) (view tr j) (F j) (G j) ∧ (att j).sourceEpoch < e ∧
      e < maxCut (G j) (att j).targetEpoch (gap (att j)) ∧ e < (att j).targetEpoch ∧
      (storeAfter (act ssz) db t₁).spanAt .maxSpan pubKey e = some ((att j).targetEpoch - e)) ∨
    (∀ j, (j, ⟨.spanSetBatch .maxSpan pubKey (maxValues (G j) (att j)), ()⟩) ∈ t₁ →
        ¬ ((att j).targetEpoch - gap (att j) ≤ e ∧
          e < maxCut (G j) (att j).targetEpoch (gap (att j)))) ∧
      (storeAfter (act ssz) db t₁).spanAt .maxSpan pubKey e = db.spanAt .maxSpan pubKey e := by
  have hcut : ∀ j, _ := fun j => maxCut_bounds (G j)
    (show gap (att j) ≤ (att j).targetEpoch from Nat.sub_le ..)
  have hmem : ∀ j v, v ∈ maxValues (G j) (att j) ↔
      ((att j).targetEpoch - gap (att j) ≤ v.source ∧
        v.source < maxCut (G j) (att j).targetEpoch (gap (att j))) ∧
      v.distance = ((att j).targetEpoch : Int) - v.source := fun j v => by
    rw [maxValues, mem_entries, Nat.add_sub_cancel' (hcut j).1]
  rcases spanAt_storeAfter ssz pubKey .maxSpan e db t₁ with
    ⟨⟨j, o, r⟩, hx, d, ⟨vs, rfl, v, hv, rfl, rfl⟩, hget⟩ | ⟨hno, hget⟩
  · obtain ⟨hins, hev⟩ := h.insertEvent_of_write (mem_of_eq heq hx) (by rintro _ _ ⟨⟩)
    cases hev
    obtain ⟨⟨h₁, h₂⟩, h₃⟩ := (hmem j v).1 hv
    have hle := hins.le
    have hup := (hcut j).2
    have hgap : gap (att j) = (att j).targetEpoch - ((att j).sourceEpoch + 1) := rfl
    rw [h₃, roundTrip_distance ⟨hle, h.safe j⟩ (by omega)] at hget
    exact .inl ⟨j, hins, by omega, h₂, by omega, hget⟩
  · refine .inr ⟨fun j hj hje => ?_, hget⟩
    exact hno _ hj _ ⟨_, rfl, ⟨e, (att j).targetEpoch - e⟩, (hmem j _).2 ⟨hje, rfl⟩, rfl, rfl⟩

theorem exists_prefix (h : Outcome ssz pubKey db att tr F G) {e : DbEvent}
    (he : e ∈ view tr i) : ∃ t₁ t₂, tr = t₁ ++ (i, e) :: t₂ ∧
      e.2 = (act ssz e.1 (storeAfter (act ssz) db t₁)).1 := by
  obtain ⟨t₁, t₂, heq⟩ := List.append_of_mem (mem_view.1 he)
  exact ⟨t₁, t₂, heq, h.answer _ _ _ _ heq⟩

theorem not_sawRepeat (hins : Inserted pubKey (att i) (view tr i) (F i) (G i)) :
    ¬ SawRepeat pubKey (att i) (view tr i) := by
  rintro ⟨prev, htr, -⟩
  have := hins.unused
  rw [htr] at this
  cases List.mem_singleton.1 this

/-- What the loop of `updateMinSpan` read of an entry it did not write was in the database. -/
theorem minRead_eq (h : Outcome ssz pubKey db att tr F G)
    (hins : Inserted pubKey (att j) (view tr j) (F j) (G j)) {e : Nat}
    (he : minCut (F j) (att j).targetEpoch (att j).sourceEpoch ≤ e + 1)
    (hej : e < (att j).sourceEpoch)
    (hother : ∀ i, i ≠ j → ¬ e < (att i).sourceEpoch) : F j e = db.spanAt .minSpan pubKey e := by
  obtain ⟨t₁, t₂, heq, hr⟩ := h.exists_prefix (hins.minRead e he hej)
  have hr : F j e = (storeAfter (act ssz) db t₁).spanAt .minSpan pubKey e := hr
  rcases h.minSpan_cases heq e with ⟨i, hi, hcut, hlt, hget⟩ | ⟨-, hget⟩
  · by_cases hij : i = j
    · -- an entry the loop improves is not already the one it writes
      subst hij
      have := (minCut_spec (F i) (att i).targetEpoch (att i).sourceEpoch).1 e hcut hlt _
        (hr.trans hget)
      have := hi.le
      omega
    · exact (hother i hij hlt).elim
  · exact hr.trans hget

theorem maxRead_eq (h : Outcome ssz pubKey db att tr F G)
    (hins : Inserted pubKey (att j) (view tr j) (F j) (G j)) {e : Nat}
    (hs : (att j).sourceEpoch < e) (ht : e < (att j).targetEpoch)
    (he : e ≤ maxCut (G j) (att j).targetEpoch (gap (att j)))
    (hother : ∀ i, i ≠ j → ¬ (att i).sourceEpoch < e) : G j e = db.spanAt .maxSpan pubKey e := by
  obtain ⟨t₁, t₂, heq, hr⟩ := h.exists_prefix (hins.maxRead e hs ht he)
  have hr : G j e = (storeAfter (act ssz) db t₁).spanAt .maxSpan pubKey e := hr
  rcases h.maxSpan_cases heq e with ⟨i, hi, hlt, hcut, het, hget⟩ | ⟨-, hget⟩
  · by_cases hij : i = j
    · subst hij
      have hgap : gap (att i) = (att i).targetEpoch - ((att i).sourceEpoch + 1) := rfl
      have := (maxCut_spec (G i) (show gap (att i) ≤ (att i).targetEpoch from Nat.sub_le ..)).1 e
        (by omega) hcut _ (hr.trans hget)
      omega
    · exact (hother i hij hlt).elim
  · exact hr.trans hget

theorem clear_of_inserted (h : Outcome ssz pubKey db att tr F G)
    (hins : Inserted pubKey (att i) (view tr i) (F i) (G i)) : Clear db pubKey (att i) where
  le := hins.le
  unused := by
    obtain ⟨t₁, t₂, heq, hr⟩ := h.exists_prefix hins.unused
    have hr : none = (storeAfter (act ssz) db t₁).attestationByTarget[_]? := hr
    rcases h.attestation_cases heq (att i).targetEpoch with ⟨j, -, -, hget⟩ | ⟨-, hget⟩
    · cases hr.trans hget
    · exact (hr.trans hget).symm
  notSurrounding := by
    obtain ⟨m, hm⟩ := hins.minGet
    have hfalse := hins.notSurrounding hm
    obtain ⟨t₁, t₂, heq, hr⟩ := h.exists_prefix hm
    have hr : m = (storeAfter (act ssz) db t₁).spanAt .minSpan pubKey (att i).sourceEpoch := hr
    rcases h.minSpan_cases heq (att i).sourceEpoch with ⟨j, hj, hcut, hlt, hget⟩ | ⟨-, hget⟩
    · -- the other call brought the entry nearer
      have hji : ∀ k, k ≠ j → k = i := by
        rintro k hk
        have : i ≠ j := by rintro rfl; exact absurd hlt (lt_irrefl _)
        cases k <;> cases i <;> cases j <;> simp_all
      have hF := h.minRead_eq hj (by omega) hlt fun k hk => by rw [hji k hk]; exact lt_irrefl _
      have hspec := (minCut_spec (F j) (att j).targetEpoch (att j).sourceEpoch).1 _ hcut hlt
      have hle := hj.le
      rw [hr, hget] at hfalse
      rw [hF] at hspec
      cases hd : db.spanAt .minSpan pubKey (att i).sourceEpoch with
      | none => rfl
      | some d =>
        have := hspec d hd
        rw [surrounding_some] at hfalse ⊢
        omega
    · rw [← hget, ← hr]
      exact hfalse
  notSurrounded := by
    obtain ⟨m, hm⟩ := hins.maxGet
    have hfalse := hins.notSurrounded hm
    obtain ⟨t₁, t₂, heq, hr⟩ := h.exists_prefix hm
    have hr : m = (storeAfter (act ssz) db t₁).spanAt .maxSpan pubKey (att i).sourceEpoch := hr
    rcases h.maxSpan_cases heq (att i).sourceEpoch with ⟨j, hj, hlt, hcut, hst, hget⟩ | ⟨-, hget⟩
    · have hji : ∀ k, k ≠ j → k = i := by
        rintro k hk
        have : i ≠ j := by rintro rfl; exact absurd hlt (lt_irrefl _)
        cases k <;> cases i <;> cases j <;> simp_all
      have hG := h.maxRead_eq hj hlt hst (by omega) fun k hk => by rw [hji k hk]; exact lt_irrefl _
      have hgap : gap (att j) = (att j).targetEpoch - ((att j).sourceEpoch + 1) := rfl
      have hspec := (maxCut_spec (G j) (show gap (att j) ≤ (att j).targetEpoch from
        Nat.sub_le ..)).1 _ (by omega) hcut
      rw [hr, hget] at hfalse
      rw [hG] at hspec
      cases hd : db.spanAt .maxSpan pubKey (att i).sourceEpoch with
      | none => rfl
      | some d =>
        have := hspec d hd
        rw [surrounded_some] at hfalse ⊢
        omega
    · rw [← hget, ← hr]
      exact hfalse
  bound := by
    obtain ⟨b, hb, hbound⟩ := hins.bound
    obtain ⟨t₁, t₂, heq, hr⟩ := h.exists_prefix hb
    have hr : b = (storeAfter (act ssz) db t₁).attestationLowerBound[pubKey]? := hr
    rw [lowerBound_storeAfter] at hr
    · intro bound hbd
      exact hbound bound (hr.trans hbd)
    · rintro ⟨k, o, r⟩ hx bound rfl
      obtain ⟨-, hev⟩ := h.insertEvent_of_write (mem_of_eq heq hx) (by rintro _ _ ⟨⟩)
      cases hev

/-- A call that resolves on a record started on a database that holds it, unless the other one wrote
it, which makes it the same vote. -/
theorem repeated_of_sawRepeat (h : Outcome ssz pubKey db att tr F G)
    (hslash : ∀ i, Slashable (att (!i)) (att i)) (hrep : SawRepeat pubKey (att i) (view tr i)) :
    Repeated db pubKey (att i) := by
  obtain ⟨prev, htr, hroot, hle⟩ := hrep
  obtain ⟨t₁, t₂, heq, hr⟩ := h.exists_prefix (i := i)
    (e := ⟨.attestationByTargetGet pubKey (att i).targetEpoch, some prev⟩) (by rw [htr]; simp)
  have hr : some prev = (storeAfter (act ssz) db t₁).attestationByTarget[_]? := hr
  rcases h.attestation_cases heq (att i).targetEpoch with ⟨j, hins, hjt, hget⟩ | ⟨-, hget⟩
  · have hji : j = !i := by
      rcases Bool.eq_or_eq_not j i with rfl | hji
      · exact (not_sawRepeat hins ⟨prev, htr, hroot, hle⟩).elim
      · exact hji
    cases hr.trans hget
    subst hji
    obtain ⟨hne, hrooteq⟩ := isEqualNonZeroRoot_iff.1 hroot
    rcases hslash i with ⟨-, hr | hr⟩ | hc | hc
    · exact (hr hrooteq).elim
    · exact (hne hr).elim
    · exact absurd hc.2 (by simp [SlashingProtectionAttestation.span, hjt])
    · exact absurd hc.2 (by simp [SlashingProtectionAttestation.span, hjt])
  · exact ⟨hle, prev, (hr.trans hget).symm, hroot⟩

end Outcome

/-- One of two double votes reads the record of the other, or one of two surrounding votes reads a
span the other has brought up to date. -/
def AttestationsSerialised (pubKey : BLSPubkey) (att : Bool → SlashingProtectionAttestation)
    (tr : List (Bool × DbEvent)) : Prop :=
  ∃ i, ((att i).targetEpoch = (att !i).targetEpoch ∧
      Before tr (fun x => x = (i, ⟨.attestationByTargetSet pubKey [att i], ()⟩))
        (fun y => ∃ r : Option SlashingProtectionAttestation,
          y = (!i, ⟨.attestationByTargetGet pubKey (att !i).targetEpoch, r⟩))) ∨
    (Contains (att i).span (att !i).span ∧
      (Before tr (fun x => ∃ vs, x = (!i, ⟨.spanSetBatch .minSpan pubKey vs, ()⟩))
          (fun y => ∃ m : Option Nat, y = (i, ⟨.spanGet .minSpan pubKey (att i).sourceEpoch, m⟩)) ∨
        Before tr (fun x => ∃ vs, x = (i, ⟨.spanSetBatch .maxSpan pubKey vs, ()⟩))
          (fun y => ∃ m : Option Nat,
            y = (!i, ⟨.spanGet .maxSpan pubKey (att !i).sourceEpoch, m⟩))))

namespace Outcome

variable {recorded : List SlashingProtectionAttestation}

theorem not_before_record (h : Outcome ssz pubKey db att tr F G)
    (hins : ∀ i, Inserted pubKey (att i) (view tr i) (F i) (G i))
    (htarget : (att i).targetEpoch = (att j).targetEpoch) :
    ¬ Before tr (fun x => x = (i, ⟨.attestationByTargetSet pubKey [att i], ()⟩))
      (fun y => ∃ r : Option SlashingProtectionAttestation,
        y = (j, ⟨.attestationByTargetGet pubKey (att j).targetEpoch, r⟩)) := by
  rintro ⟨t₁, _, t₂, heq, ⟨r, rfl⟩, _, hx, rfl⟩
  have hr : r = (storeAfter (act ssz) db t₁).attestationByTarget[_]? := h.answer _ _ _ _ heq
  have hnone : r = none := (hins j).attestationGet (mem_view.2 (by rw [heq]; simp))
  rcases h.attestation_cases heq (att j).targetEpoch with ⟨k, -, -, hget⟩ | ⟨hno, -⟩
  · cases (hnone.symm.trans hr).trans hget
  · exact hno i hx htarget

/-- The outer of two surrounding votes has read the nearest target after the inner one put its own
there. -/
theorem not_before_minSpan (h : Outcome ssz pubKey db att tr F G)
    (hins : ∀ i, Inserted pubKey (att i) (view tr i) (F i) (G i))
    (hspans : SpansOk {b | ∃ a ∈ recorded, a.span = b} db pubKey) (hij : ∀ k, k ≠ j → k = i)
    (hc : Contains (att i).span (att j).span) :
    ¬ Before tr (fun x => ∃ vs, x = (j, ⟨.spanSetBatch .minSpan pubKey vs, ()⟩))
      (fun y => ∃ m : Option Nat,
        y = (i, ⟨.spanGet .minSpan pubKey (att i).sourceEpoch, m⟩)) := by
  rintro ⟨t₁, _, t₂, heq, ⟨m, rfl⟩, _, hx, vs, rfl⟩
  obtain ⟨hs, ht⟩ := hc
  simp only [SlashingProtectionAttestation.span] at hs ht
  have hr : m = (storeAfter (act ssz) db t₁).spanAt .minSpan pubKey (att i).sourceEpoch :=
    h.answer _ _ _ _ heq
  have hfalse := (hins i).notSurrounding (m := m) (mem_view.2 (by rw [heq]; simp))
  rcases h.minSpan_cases heq (att i).sourceEpoch with ⟨k, -, -, hlt, hget⟩ | ⟨hno, -⟩
  · have hkj : k = j := by
      by_contra hkj
      rw [hij k hkj] at hlt
      exact lt_irrefl _ hlt
    subst hkj
    rw [hr, hget, surrounding_some] at hfalse
    have := (hins k).le
    omega
  · -- the loop of the inner vote stopped above, at an entry that was there before
    cases (hins j).events _ (mem_of_eq heq hx)
    have hcut : ¬ _ := hno j hx
    have hcle := minCut_le (F j) (att j).targetEpoch (att j).sourceEpoch
    obtain hzero | ⟨d, hd, hle⟩ :=
      (minCut_spec (F j) (att j).targetEpoch (att j).sourceEpoch).2
    · omega
    · rw [h.minRead_eq (hins j) (by omega) (by omega)
        fun k hk => by rw [hij k hk]; omega] at hd
      obtain ⟨b, hb, hbs, hbt⟩ := hspans.nearest.sound hd
      have hsurr := hspans.surrounding_iff (a := att i).2
        ⟨b, hb, by simp only [SlashingProtectionAttestation.span]; omega,
          by simp only [SlashingProtectionAttestation.span]; omega⟩
      rw [(h.clear_of_inserted (hins i)).notSurrounding] at hsurr
      cases hsurr

/-- The inner of two surrounding votes has read the furthest target after the outer one put its own
there. -/
theorem not_before_maxSpan (h : Outcome ssz pubKey db att tr F G)
    (hins : ∀ i, Inserted pubKey (att i) (view tr i) (F i) (G i))
    (hspans : SpansOk {b | ∃ a ∈ recorded, a.span = b} db pubKey) (hij : ∀ k, k ≠ i → k = j)
    (hc : Contains (att i).span (att j).span) :
    ¬ Before tr (fun x => ∃ vs, x = (i, ⟨.spanSetBatch .maxSpan pubKey vs, ()⟩))
      (fun y => ∃ m : Option Nat,
        y = (j, ⟨.spanGet .maxSpan pubKey (att j).sourceEpoch, m⟩)) := by
  rintro ⟨t₁, _, t₂, heq, ⟨m, rfl⟩, _, hx, vs, rfl⟩
  obtain ⟨hs, ht⟩ := hc
  simp only [SlashingProtectionAttestation.span] at hs ht
  have hr : m = (storeAfter (act ssz) db t₁).spanAt .maxSpan pubKey (att j).sourceEpoch :=
    h.answer _ _ _ _ heq
  have hfalse := (hins j).notSurrounded (m := m) (mem_view.2 (by rw [heq]; simp))
  have hle := (hins j).le
  rcases h.maxSpan_cases heq (att j).sourceEpoch with ⟨k, -, hlt, -, -, hget⟩ | ⟨hno, -⟩
  · have hki : k = i := by
      by_contra hki
      rw [hij k hki] at hlt
      exact lt_irrefl _ hlt
    subst hki
    rw [hr, hget, surrounded_some] at hfalse
    omega
  · cases (hins i).events _ (mem_of_eq heq hx)
    have hcut : ¬ _ := hno i hx
    have hgap : gap (att i) = (att i).targetEpoch - ((att i).sourceEpoch + 1) := rfl
    have hn : gap (att i) ≤ (att i).targetEpoch := Nat.sub_le ..
    have hbounds := maxCut_bounds (G i) hn
    obtain hend | ⟨d, hd, hge⟩ := (maxCut_spec (G i) hn).2
    · omega
    · rw [h.maxRead_eq (hins i) (by omega) (by omega) le_rfl
        fun k hk => by rw [hij k hk]; omega] at hd
      obtain ⟨b, hb, hbs, -, hbt⟩ := hspans.furthest.sound hd
      have hsurr := (hspans.surrounded_iff (a := att j) hle).2
        ⟨b, hb, by simp only [SlashingProtectionAttestation.span]; omega,
          by simp only [SlashingProtectionAttestation.span]; omega⟩
      rw [(h.clear_of_inserted (hins j)).notSurrounded] at hsurr
      cases hsurr

end Outcome

theorem Slashable.symm {a b : SlashingProtectionAttestation} (h : Slashable a b) :
    Slashable b a := by
  rcases h with ⟨ht, hr⟩ | hc | hc
  · refine .inl ⟨ht.symm, ?_⟩
    by_cases heq : b.signingRoot = a.signingRoot
    · exact hr.elim (fun h => (h heq.symm).elim) fun h => .inr (heq.trans h)
    · exact .inl heq
  · exact .inr (.inr hc)
  · exact .inr (.inl hc)

/-- The check alone refuses the attestation. -/
def Refused (db : Db) (pubKey : BLSPubkey) (a : SlashingProtectionAttestation) : Prop :=
  ¬ Repeated db pubKey a ∧ ¬ Clear db pubKey a

theorem Inv.refused {recorded : List SlashingProtectionAttestation}
    {a b : SlashingProtectionAttestation} (h : Inv pubKey db recorded)
    (hslash : Slashable a b) (hrep : Repeated db pubKey a)
    (ha : (Call.checkAndInsertAttestation a).Sound db pubKey)
    (hb : (Call.checkAndInsertAttestation b).Sound db pubKey) : Refused db pubKey b := by
  obtain ⟨-, prev, hprev, hroot⟩ := hrep
  obtain ⟨hmem, ht⟩ := h.record hprev
  have hsame : Slashable prev b := by
    have hspan : prev.span = a.span := by
      simp [SlashingProtectionAttestation.span, ht, ha.2 prev hprev hroot]
    unfold Slashable
    rw [hspan, ht, (isEqualNonZeroRoot_iff.1 hroot).2]
    exact hslash
  constructor
  · rintro ⟨-, prev', hprev', hroot'⟩
    exact h.not_slashable_of_repeated hprev' hroot' (hb.2 prev' hprev' hroot') prev hmem hsame
  · intro hclear
    exact h.not_slashable_of_clear hclear prev hmem hsame

/-- Two slashable attestations do not both resolve when the database refuses one of them, or one
reads what the other has written. -/
theorem attestations_not_both {w : World} {att : Bool → SlashingProtectionAttestation}
    (hw : Relation.ReflTransGen (SoundStep ssz pubKey) World.init w)
    (hsound : ∀ i, (Call.checkAndInsertAttestation (att i)).Sound w.db pubKey)
    (hslash : Slashable (att true) (att false)) {sched : List Bool}
    {c : Conf Bool DbOp DbOp.Resp SlashingProtectionError Unit Db}
    (hc : c = exec (act ssz) sched (start (attestationCalls pubKey att) w.db))
    (hcond : (∃ i, Refused w.db pubKey (att i)) ∨ AttestationsSerialised pubKey att c.trace) :
    ¬ ∀ i, c.thread i = .ret () := by
  intro hret
  have hpoint : Point (act ssz) (attestationCalls pubKey att) w.db c := hc ▸ Point.exec sched
  obtain ⟨F, G, h⟩ := Outcome.of_point hpoint hret fun i => (hsound i).1
  have hinv := Inv.reachable hw
  have hslash' : ∀ i, Slashable (att (!i)) (att i) := fun i => by
    cases i with
    | false => exact hslash
    | true => exact hslash.symm
  have haccept : ∀ i, ¬ Refused w.db pubKey (att i) := fun i hr => by
    rcases h.ended i with hrep | hins
    · exact hr.1 (h.repeated_of_sawRepeat hslash' hrep)
    · exact hr.2 (h.clear_of_inserted hins)
  have hins : ∀ i, Inserted pubKey (att i) (view c.trace i) (F i) (G i) := fun i => by
    rcases h.ended i with hrep | hins
    · have hrec := h.repeated_of_sawRepeat hslash' hrep
      have hsl : Slashable (att i) (att (!i)) := (hslash' i).symm
      exact (haccept (!i) (hinv.refused hsl hrec (hsound i) (hsound (!i)))).elim
    · exact hins
  rcases hcond with ⟨i, hr⟩ | ⟨i, ⟨ht, hb⟩ | ⟨hcon, hb | hb⟩⟩
  · exact haccept i hr
  · exact h.not_before_record hins ht hb
  · exact h.not_before_minSpan hins hinv.spans (fun k hk => by cases k <;> cases i <;> simp_all)
      hcon hb
  · exact h.not_before_maxSpan hins hinv.spans (fun k hk => by cases k <;> cases i <;> simp_all)
      hcon hb

/-! ## Two proposals -/

def proposalCalls (pubKey : BLSPubkey) (blk : Bool → SlashingProtectionBlock) (i : Bool) :
    Async Unit := checkAndInsertBlockProposal pubKey (blk i)

def BlockRefused (db : Db) (pubKey : BLSPubkey) (b : SlashingProtectionBlock) : Prop :=
  ¬ BlockRepeated db pubKey b ∧ ¬ BlockClear db pubKey b

/-- One of two proposals for a slot reads the record of the other, or reads it as the first record
while there is none with a lower slot. -/
def ProposalsSerialised (pubKey : BLSPubkey) (db : Db) (blk : Bool → SlashingProtectionBlock)
    (tr : List (Bool × DbEvent)) : Prop :=
  ∃ i, Before tr (fun x => x = (i, ⟨.blockBySlotSet pubKey [blk i], ()⟩))
      (fun y => ∃ r : Option SlashingProtectionBlock,
        y = (!i, ⟨.blockBySlotGet pubKey (blk !i).slot, r⟩)) ∨
    ((blk i).slot < MAX_SAFE_INTEGER ∧
      (∀ s prev, db.blockBySlot[(pubKey, s)]? = some prev → (blk i).slot ≤ s) ∧
      Before tr (fun x => x = (i, ⟨.blockBySlotSet pubKey [blk i], ()⟩))
        (fun y => ∃ l : List SlashingProtectionBlock,
          y = (!i, ⟨.blockBySlotGetAll pubKey (some 1), l⟩)))

def SawBlockRepeat (pubKey : BLSPubkey) (b : SlashingProtectionBlock) (tr : List DbEvent) : Prop :=
  ∃ prev : SlashingProtectionBlock, tr = [⟨.blockBySlotGet pubKey b.slot, some prev⟩] ∧
    b.slot = prev.slot ∧ isEqualNonZeroRoot prev.signingRoot b.signingRoot = true

def Proposed (pubKey : BLSPubkey) (b : SlashingProtectionBlock) (tr : List DbEvent) : Prop :=
  ∃ (r : Option SlashingProtectionBlock) (l : List SlashingProtectionBlock),
    tr = [⟨.blockBySlotGet pubKey b.slot, r⟩, ⟨.blockBySlotGetAll pubKey (some 1), l⟩,
      ⟨.blockBySlotSet pubKey [b], ()⟩] ∧
    (∀ prev, r = some prev → b.slot ≠ prev.slot) ∧
    ∀ first, l.head? = some first → first.slot < b.slot

/-- Both proposals have resolved, for one slot and with different signing roots. -/
structure ProposalOutcome (ssz : SszEpoch) (pubKey : BLSPubkey) (db : Db)
    (blk : Bool → SlashingProtectionBlock) (tr : List (Bool × DbEvent)) : Prop where
  answer : ∀ t₁ i e t₂, tr = t₁ ++ (i, e) :: t₂ →
    e.2 = (act ssz e.1 (storeAfter (act ssz) db t₁)).1
  ended : ∀ i, SawBlockRepeat pubKey (blk i) (view tr i) ∨ Proposed pubKey (blk i) (view tr i)
  slot : ∀ i j, (blk i).slot = (blk j).slot
  root : ∀ i, (blk i).signingRoot ≠ (blk !i).signingRoot
  record : ∀ {s : Nat} {prev : SlashingProtectionBlock},
    db.blockBySlot[(pubKey, s)]? = some prev → prev.slot = s

namespace ProposalOutcome

variable {blk : Bool → SlashingProtectionBlock}

theorem not_sawBlockRepeat (h : Proposed pubKey (blk i) (view tr i)) :
    ¬ SawBlockRepeat pubKey (blk i) (view tr i) := by
  obtain ⟨r, l, htr, -⟩ := h
  rintro ⟨prev, htr', -⟩
  rw [htr] at htr'
  cases htr'

theorem proposed_of_write (h : ProposalOutcome ssz pubKey db blk tr) {bs : List SlashingProtectionBlock}
    {u : Unit} (he : ⟨.blockBySlotSet pubKey bs, u⟩ ∈ view tr i) :
    Proposed pubKey (blk i) (view tr i) ∧ bs = [blk i] := by
  rcases h.ended i with ⟨prev, htr, -⟩ | ⟨r, l, htr, hprop⟩
  · rw [htr] at he
    cases List.mem_singleton.1 he
  · refine ⟨⟨r, l, htr, hprop⟩, ?_⟩
    rw [htr] at he
    simp only [List.mem_cons, List.not_mem_nil, or_false] at he
    rcases he with he | he | he <;> cases he
    rfl

theorem block_cases (h : ProposalOutcome ssz pubKey db blk tr) {t₁ t₂ : List (Bool × DbEvent)}
    {y : Bool × DbEvent} (heq : tr = t₁ ++ y :: t₂) (s : Nat) :
    (∃ j, Proposed pubKey (blk j) (view tr j) ∧ (blk j).slot = s ∧
      (storeAfter (act ssz) db t₁).blockBySlot[(pubKey, s)]? = some (blk j)) ∨
    (∀ j, (j, ⟨.blockBySlotSet pubKey [blk j], ()⟩) ∈ t₁ → (blk j).slot ≠ s) ∧
      (storeAfter (act ssz) db t₁).blockBySlot[(pubKey, s)]? = db.blockBySlot[(pubKey, s)]? := by
  rcases block_storeAfter ssz pubKey s db t₁ with
    ⟨⟨j, o, r⟩, hx, b, ⟨bs, rfl, hb, hbs⟩, hget⟩ | ⟨hno, hget⟩
  · obtain ⟨hprop, rfl⟩ := h.proposed_of_write (Outcome.mem_of_eq heq hx)
    obtain rfl := List.mem_singleton.1 hb
    exact .inl ⟨j, hprop, hbs, hget⟩
  · exact .inr ⟨fun j hj hjs => hno _ hj (blk j) ⟨_, rfl, List.mem_singleton_self _, hjs⟩, hget⟩

theorem record_storeAfter (h : ProposalOutcome ssz pubKey db blk tr) {t₁ t₂ : List (Bool × DbEvent)}
    {y : Bool × DbEvent} (heq : tr = t₁ ++ y :: t₂) {s : Nat} {prev : SlashingProtectionBlock}
    (hprev : (storeAfter (act ssz) db t₁).blockBySlot[(pubKey, s)]? = some prev) :
    prev.slot = s := by
  rcases h.block_cases heq s with ⟨j, -, hs, hget⟩ | ⟨-, hget⟩
  · cases hprev.symm.trans hget
    exact hs
  · exact h.record (hget.symm.trans hprev)

theorem exists_prefix (h : ProposalOutcome ssz pubKey db blk tr) {e : DbEvent}
    (he : e ∈ view tr i) : ∃ t₁ t₂, tr = t₁ ++ (i, e) :: t₂ ∧
      e.2 = (act ssz e.1 (storeAfter (act ssz) db t₁)).1 := by
  obtain ⟨t₁, t₂, heq⟩ := List.append_of_mem (mem_view.1 he)
  exact ⟨t₁, t₂, heq, h.answer _ _ _ _ heq⟩

theorem repeated_of_sawBlockRepeat (h : ProposalOutcome ssz pubKey db blk tr)
    (hrep : SawBlockRepeat pubKey (blk i) (view tr i)) : BlockRepeated db pubKey (blk i) := by
  obtain ⟨prev, htr, hslot, hroot⟩ := hrep
  obtain ⟨t₁, t₂, heq, hr⟩ := h.exists_prefix (i := i)
    (e := ⟨.blockBySlotGet pubKey (blk i).slot, some prev⟩) (by rw [htr]; simp)
  have hr : some prev = (storeAfter (act ssz) db t₁).blockBySlot[_]? := hr
  rcases h.block_cases heq (blk i).slot with ⟨j, hprop, -, hget⟩ | ⟨-, hget⟩
  · cases hr.trans hget
    rcases Bool.eq_or_eq_not j i with rfl | rfl
    · exact (not_sawBlockRepeat hprop ⟨_, htr, hslot, hroot⟩).elim
    · exact (h.root i (isEqualNonZeroRoot_iff.1 hroot).2.symm).elim
  · exact ⟨prev, (hr.trans hget).symm, hslot, hroot⟩

theorem no_record (h : ProposalOutcome ssz pubKey db blk tr)
    (hprop : Proposed pubKey (blk i) (view tr i)) {t₁ t₂ : List (Bool × DbEvent)}
    {r : Option SlashingProtectionBlock}
    (heq : tr = t₁ ++ (i, ⟨.blockBySlotGet pubKey (blk i).slot, r⟩) :: t₂) :
    (storeAfter (act ssz) db t₁).blockBySlot[(pubKey, (blk i).slot)]? = none := by
  obtain ⟨r', l, htr, hr', -⟩ := hprop
  have hmem : (⟨.blockBySlotGet pubKey (blk i).slot, r⟩ : DbEvent) ∈ view tr i :=
    mem_view.2 (by rw [heq]; simp)
  rw [htr] at hmem
  simp only [List.mem_cons, List.not_mem_nil, or_false] at hmem
  have hrr : r = r' := by
    rcases hmem with hm | hm | hm <;> cases hm
    rfl
  have hr : r = (storeAfter (act ssz) db t₁).blockBySlot[_]? := h.answer _ _ _ _ heq
  cases hget : (storeAfter (act ssz) db t₁).blockBySlot[(pubKey, (blk i).slot)]? with
  | none => rfl
  | some prev =>
    exact (hr' prev (hrr.symm.trans (hr.trans hget)) (h.record_storeAfter heq hget).symm).elim

theorem first_lt (h : ProposalOutcome ssz pubKey db blk tr)
    (hprop : Proposed pubKey (blk i) (view tr i)) {t₁ t₂ : List (Bool × DbEvent)}
    {l : List SlashingProtectionBlock}
    (heq : tr = t₁ ++ (i, ⟨.blockBySlotGetAll pubKey (some 1), l⟩) :: t₂)
    {first : SlashingProtectionBlock}
    (hfirst : (storeAfter (act ssz) db t₁).firstBlock pubKey = some first) :
    first.slot < (blk i).slot := by
  obtain ⟨r, l', htr, -, hl'⟩ := hprop
  have hmem : (⟨.blockBySlotGetAll pubKey (some 1), l⟩ : DbEvent) ∈ view tr i :=
    mem_view.2 (by rw [heq]; simp)
  rw [htr] at hmem
  simp only [List.mem_cons, List.not_mem_nil, or_false] at hmem
  have hll : l = l' := by
    rcases hmem with hm | hm | hm <;> cases hm
    rfl
  have hr : l = getAll (storeAfter (act ssz) db t₁).blockBySlot pubKey (some 1) :=
    h.answer _ _ _ _ heq
  exact hl' first (hll ▸ hr ▸ hfirst)

theorem clear_of_proposed (h : ProposalOutcome ssz pubKey db blk tr)
    (hprop : Proposed pubKey (blk i) (view tr i)) : BlockClear db pubKey (blk i) := by
  have ⟨r, l, htr, _⟩ := hprop
  obtain ⟨t₁, t₂, heq, -⟩ := h.exists_prefix (i := i)
    (e := ⟨.blockBySlotGet pubKey (blk i).slot, r⟩) (by rw [htr]; simp)
  have hnone : db.blockBySlot[(pubKey, (blk i).slot)]? = none := by
    rcases h.block_cases heq (blk i).slot with ⟨j, -, -, hget⟩ | ⟨-, hget⟩
    · cases (h.no_record hprop heq).symm.trans hget
    · exact hget.symm.trans (h.no_record hprop heq)
  refine ⟨by simp [hnone], fun first hfirst => ?_⟩
  obtain ⟨u₁, u₂, heq', -⟩ := h.exists_prefix (i := i)
    (e := ⟨.blockBySlotGetAll pubKey (some 1), l⟩) (by rw [htr]; simp)
  obtain ⟨m, hm, hmax⟩ := firstBlock_mem hfirst
  have hslot := h.record hm
  -- the first record of the database is still there, and is still the first
  have hm' : (storeAfter (act ssz) db u₁).blockBySlot[(pubKey, m)]? = some first := by
    rcases h.block_cases heq' m with ⟨j, -, hs, -⟩ | ⟨-, hget⟩
    · rw [← hs, h.slot j i, hnone] at hm
      cases hm
    · exact hget.trans hm
  obtain ⟨m', first', hfirst', hrec, hle⟩ := firstBlock_le hm' hmax
  have hlt := h.first_lt hprop heq' hfirst'
  have hslot' := h.record_storeAfter heq' hrec
  rcases h.block_cases heq' m' with ⟨j, -, hs, -⟩ | ⟨-, hget⟩
  · have := h.slot j i
    omega
  · obtain ⟨m'', first'', hf, hrec', hle'⟩ := firstBlock_le (hget.symm.trans hrec) (by omega)
    cases hfirst.symm.trans hf
    have := h.record hrec'
    omega

end ProposalOutcome

/-- Two proposals for one slot do not both resolve when the database refuses one of them, or one
reads what the other has written. -/
theorem proposals_not_both {w : World} {blk : Bool → SlashingProtectionBlock}
    (hw : Relation.ReflTransGen (SoundStep ssz pubKey) World.init w)
    (hslot : (blk true).slot = (blk false).slot)
    (hroot : (blk true).signingRoot ≠ (blk false).signingRoot) {sched : List Bool}
    {c : Conf Bool DbOp DbOp.Resp SlashingProtectionError Unit Db}
    (hc : c = exec (act ssz) sched (start (proposalCalls pubKey blk) w.db))
    (hcond : (∃ i, BlockRefused w.db pubKey (blk i)) ∨
      ProposalsSerialised pubKey w.db blk c.trace) :
    ¬ ∀ i, c.thread i = .ret () := by
  intro hret
  have hpoint : Point (act ssz) (proposalCalls pubKey blk) w.db c := hc ▸ Point.exec sched
  have hrec := Recorded.reachable (Relation.ReflTransGen.mono (fun _ _ ⟨c, _, hs⟩ => ⟨c, hs.2⟩) _ _ hw)
  have h : ProposalOutcome ssz pubKey w.db blk c.trace := by
    refine ⟨hpoint.answer, fun i => ?_, fun i j => ?_, fun i => ?_, fun hp => (hrec.block hp).2⟩
    · exact exec_checkAndInsertBlockProposal (hpoint.exec_of_ret (hret i))
    · cases i <;> cases j <;> simp [hslot]
    · cases i
      · exact hroot.symm
      · exact hroot
  have haccept : ∀ i, ¬ BlockRefused w.db pubKey (blk i) := fun i hr => by
    rcases h.ended i with hrep | hprop
    · exact hr.1 (h.repeated_of_sawBlockRepeat hrep)
    · exact hr.2 (h.clear_of_proposed hprop)
  have hprop : ∀ i, Proposed pubKey (blk i) (view c.trace i) := fun i => by
    rcases h.ended i with hrep | hprop
    · obtain ⟨prev, hprev, hs, hrt⟩ := h.repeated_of_sawBlockRepeat hrep
      have hother : BlockRefused w.db pubKey (blk !i) := by
        have hget := hprev
        rw [h.slot i !i] at hget
        constructor
        · rintro ⟨prev', hprev', -, hrt'⟩
          cases hget.symm.trans hprev'
          exact h.root i ((isEqualNonZeroRoot_iff.1 hrt).2.symm.trans
            (isEqualNonZeroRoot_iff.1 hrt').2)
        · intro hclear
          exact hclear.unused prev hget ((h.slot _ i).trans hs)
      exact (haccept _ hother).elim
    · exact hprop
  rcases hcond with ⟨i, hr⟩ | ⟨i, ⟨t₁, _, t₂, heq, ⟨r, rfl⟩, _, hx, rfl⟩ |
    ⟨hmax, hlow, t₁, _, t₂, heq, ⟨l, rfl⟩, _, hx, rfl⟩⟩
  · exact haccept i hr
  · rcases h.block_cases heq (blk !i).slot with ⟨j, -, -, hget⟩ | ⟨hno, -⟩
    · cases (h.no_record (hprop !i) heq).symm.trans hget
    · exact hno i hx (h.slot _ _)
  · rcases h.block_cases heq (blk i).slot with ⟨j, -, hs, hget⟩ | ⟨hno, -⟩
    · obtain ⟨m', first, hfirst, hrec', hle⟩ := firstBlock_le hget hmax
      have hlt := h.first_lt (hprop !i) heq hfirst
      have hs' := h.record_storeAfter heq hrec'
      have hsame := h.slot i !i
      rcases h.block_cases heq m' with ⟨k, -, hk, -⟩ | ⟨-, hget'⟩
      · have := h.slot k i
        omega
      · have := hlow m' first (hget'.symm.trans hrec')
        omega
    · exact hno i hx rfl

/-- Two calls for slashable messages, at any interleaving of their reads and writes, do not both
resolve when the database refuses one of them or one reads what the other has written. -/
theorem not_both_resolve {w : World}
    (hw : Relation.ReflTransGen (SoundStep ssz pubKey) World.init w) (sched : List Bool) :
    (∀ (att : Bool → SlashingProtectionAttestation)
      (c : Conf Bool DbOp DbOp.Resp SlashingProtectionError Unit Db),
      c = exec (act ssz) sched (start (attestationCalls pubKey att) w.db) →
      (∀ i, (Call.checkAndInsertAttestation (att i)).Sound w.db pubKey) →
      Slashable (att true) (att false) →
      (∃ i, Refused w.db pubKey (att i)) ∨ AttestationsSerialised pubKey att c.trace →
      ¬ ∀ i, c.thread i = .ret ()) ∧
    ∀ (blk : Bool → SlashingProtectionBlock)
      (c : Conf Bool DbOp DbOp.Resp SlashingProtectionError Unit Db),
      c = exec (act ssz) sched (start (proposalCalls pubKey blk) w.db) →
      (blk true).slot = (blk false).slot → (blk true).signingRoot ≠ (blk false).signingRoot →
      (∃ i, BlockRefused w.db pubKey (blk i)) ∨
        ProposalsSerialised pubKey w.db blk c.trace →
      ¬ ∀ i, c.thread i = .ret () :=
  ⟨fun _ _ hc hsound hslash hcond => attestations_not_both hw hsound hslash hc hcond,
    fun _ _ hc hslot hroot hcond => proposals_not_both hw hslot hroot hc hcond⟩

/-- Two double votes. -/
def doubleVotes (i : Bool) : SlashingProtectionAttestation :=
  ⟨0, 1, if i then 0xaa else 0xbb⟩

/-- The first call runs to its end before the second reads. -/
def oneByOne : Conf Bool DbOp DbOp.Resp SlashingProtectionError Unit Db :=
  exec (act sszUint64) (List.replicate 9 true ++ [false])
    (start (attestationCalls 7 doubleVotes) World.init.db)

theorem not_both_resolve_oneByOne : ¬ ∀ i, oneByOne.thread i = .ret () := by
  refine (@not_both_resolve sszUint64 7 _ .refl _).1 doubleVotes oneByOne rfl
    (fun i => ⟨by cases i <;> decide, fun prev hprev => ?_⟩) (by decide) (.inr ⟨true, .inl ⟨rfl, ?_⟩⟩)
  · simp [World.init, Db.empty] at hprev
  · refine ⟨oneByOne.trace.take 9, _, [], rfl, ⟨some (doubleVotes true), rfl⟩, _, ?_, rfl⟩
    exact List.mem_iff_getElem.2 ⟨4, by decide +kernel, rfl⟩

/-- Turn by turn: both read before either writes. -/
def turnByTurn : Conf Bool DbOp DbOp.Resp SlashingProtectionError Unit Db :=
  exec (act sszUint64) (List.replicate 9 [true, false]).flatten
    (start (attestationCalls 7 doubleVotes) World.init.db)

/-- Both double votes are signed. -/
theorem both_resolve_turnByTurn :
    Slashable (doubleVotes true) (doubleVotes false) ∧ ∀ i, turnByTurn.thread i = .ret () := by
  refine ⟨by decide, fun i => ?_⟩
  cases i <;> rfl

end Lodestar.SlashingProtection
