import Lodestar.Base.Spans
import Lodestar.SlashingProtection.Service

/-!
# The services run alone

What each function does when nothing else touches the database. Checks read
and leave it as it was; an update of a span writes one run of entries next to
the source, down to (up to) the first one that is already good enough.
-/

namespace Lodestar.SlashingProtection

open Lodestar.Base

/-- The entries of one span of `pubKey`, by epoch. -/
def Db.spanAt (db : Db) (span : Span) (pubKey : BLSPubkey) (epoch : Nat) : Option Nat :=
  (db.span span)[(pubKey, epoch)]?

variable {ssz : SszEpoch} {db : Db} {pubKey : BLSPubkey}

/-! ## Repositories -/

@[simp] theorem run_spanGet (span : Span) (epoch : Nat) :
    (SpanDistanceRepository.get span pubKey epoch).run (act ssz) db =
      (.ok (db.spanAt span pubKey epoch), db) := rfl

@[simp] theorem run_spanSetBatch (span : Span) (values : List IDistanceEntry) :
    (SpanDistanceRepository.setBatch span pubKey values).run (act ssz) db =
      (.ok (), db.setSpans ssz span pubKey values) := rfl

@[simp] theorem run_attestationByTargetGet (t : Nat) :
    (AttestationByTargetRepository.get pubKey t).run (act ssz) db =
      (.ok db.attestationByTarget[(pubKey, t)]?, db) := rfl

@[simp] theorem run_attestationByTargetSet (atts : List SlashingProtectionAttestation) :
    (AttestationByTargetRepository.set pubKey atts).run (act ssz) db =
      (.ok (), db.setAttestations pubKey atts) := rfl

@[simp] theorem run_attestationLowerBoundGet :
    (AttestationLowerBoundRepository.get pubKey).run (act ssz) db =
      (.ok db.attestationLowerBound[pubKey]?, db) := rfl

/-! ## Surround checks -/

/-- The entry at the source says that the attestation surrounds another one. -/
def surrounding (entry : Option Nat) (attestation : SlashingProtectionAttestation) : Bool :=
  entry.any fun d : Nat => 0 < d ∧ d < attestation.distance

/-- The entry at the source says that the attestation is surrounded. -/
def surrounded (entry : Option Nat) (attestation : SlashingProtectionAttestation) : Bool :=
  entry.any fun d : Nat => 0 < d ∧ attestation.distance < d

theorem surrounding_some {d : Nat} {a : SlashingProtectionAttestation} :
    surrounding (some d) a = false ↔ ¬ (0 < d ∧ a.sourceEpoch + d < a.targetEpoch) := by
  simp only [surrounding, Option.any_some, decide_eq_false_iff_not]
  unfold SlashingProtectionAttestation.distance
  omega

theorem surrounded_some {d : Nat} {a : SlashingProtectionAttestation} :
    surrounded (some d) a = false ↔ ¬ (0 < d ∧ a.targetEpoch < a.sourceEpoch + d) := by
  simp only [surrounded, Option.any_some, decide_eq_false_iff_not]
  unfold SlashingProtectionAttestation.distance
  omega

theorem run_assertNotSurrounding (a : SlashingProtectionAttestation) :
    (assertNotSurrounding pubKey a).run (act ssz) db =
      (if surrounding (db.spanAt .minSpan pubKey a.sourceEpoch) a then
          .error (.surround .IS_SURROUNDING a
            (a.sourceEpoch + (db.spanAt .minSpan pubKey a.sourceEpoch).getD 0))
        else .ok (), db) := by
  unfold assertNotSurrounding
  rw [Prog.run_bind_ok (run_spanGet ..)]
  cases db.spanAt .minSpan pubKey a.sourceEpoch with
  | none => rfl
  | some d => by_cases h : 0 < d ∧ (d : Int) < a.distance <;> simp [surrounding, h]

theorem run_assertNotSurrounded (a : SlashingProtectionAttestation) :
    (assertNotSurrounded pubKey a).run (act ssz) db =
      (if surrounded (db.spanAt .maxSpan pubKey a.sourceEpoch) a then
          .error (.surround .IS_SURROUNDED a
            (a.sourceEpoch + (db.spanAt .maxSpan pubKey a.sourceEpoch).getD 0))
        else .ok (), db) := by
  unfold assertNotSurrounded
  rw [Prog.run_bind_ok (run_spanGet ..)]
  cases db.spanAt .maxSpan pubKey a.sourceEpoch with
  | none => rfl
  | some d => by_cases h : 0 < d ∧ a.distance < (d : Int) <;> simp [surrounded, h]

/-! ## Span updates -/

/-- The entries for the epochs of `[c, c + n)`, each at its distance from `targetEpoch`. -/
def entries (targetEpoch : Nat) (c n : Nat) : List IDistanceEntry :=
  (List.range' c n).map fun epoch => ⟨epoch, (targetEpoch : Int) - epoch⟩

/-- Where the loop of `updateMinSpan` stops going down: every epoch from here on was improved. -/
def minCut (m : Nat → Option Nat) (targetEpoch : Nat) : Nat → Nat
  | 0 => 0
  | epoch + 1 =>
    if (m epoch).all fun d : Nat => (targetEpoch : Int) - epoch < d then minCut m targetEpoch epoch
    else epoch + 1

/-- Where the loop of `updateMaxSpan` stops going up. -/
def maxCut (m : Nat → Option Nat) (targetEpoch : Nat) : Nat → Nat
  | 0 => targetEpoch
  | n + 1 =>
    if (m (targetEpoch - (n + 1))).all fun d : Nat =>
        d < (targetEpoch : Int) - (targetEpoch - (n + 1) : Nat) then maxCut m targetEpoch n
    else targetEpoch - (n + 1)

theorem minCut_le (m : Nat → Option Nat) (t : Nat) (n : Nat) : minCut m t n ≤ n := by
  induction n with
  | zero => exact le_rfl
  | succ n ih =>
    unfold minCut
    split
    · omega
    · exact le_rfl

theorem entries_concat (t : Nat) (c n : Nat) :
    entries t c (n + 1) = entries t c n ++ [⟨c + n, (t : Int) - (c + n : Nat)⟩] := by
  simp [entries, List.range'_1_concat]

theorem entries_cons (t : Nat) (c n : Nat) :
    entries t c (n + 1) = ⟨c, (t : Int) - c⟩ :: entries t (c + 1) n := rfl

theorem mem_entries {t c n : Nat} {v : IDistanceEntry} :
    v ∈ entries t c n ↔ (c ≤ v.source ∧ v.source < c + n) ∧ v.distance = (t : Int) - v.source := by
  simp only [entries, List.mem_map, List.mem_range'_1]
  constructor
  · rintro ⟨e, he, rfl⟩; exact ⟨he, rfl⟩
  · rintro ⟨he, hd⟩; exact ⟨v.source, he, by rw [← hd]⟩

theorem run_updateMinSpanLoop (t : Nat) (n : Nat) (values : List IDistanceEntry) :
    (updateMinSpanLoop pubKey t 0 n values).run (act ssz) db =
      (.ok (values ++ (entries t (minCut (db.spanAt .minSpan pubKey) t n)
        (n - minCut (db.spanAt .minSpan pubKey) t n)).reverse), db) := by
  induction n generalizing values with
  | zero => simp [updateMinSpanLoop, entries]
  | succ n ih =>
    unfold updateMinSpanLoop minCut
    rw [if_neg (Nat.not_lt_zero _)]
    dsimp only
    rw [Prog.run_bind_ok (run_spanGet ..)]
    split
    · have hc := minCut_le (db.spanAt .minSpan pubKey) t n
      rw [ih, Nat.succ_sub hc, entries_concat, Nat.add_sub_cancel' hc]
      simp
    · simp [entries]

theorem maxCut_bounds (m : Nat → Option Nat) {t n : Nat} (h : n ≤ t) :
    t - n ≤ maxCut m t n ∧ maxCut m t n ≤ t := by
  induction n with
  | zero => exact ⟨le_rfl, le_rfl⟩
  | succ n ih =>
    unfold maxCut
    split
    · have := ih (by omega)
      omega
    · omega

theorem run_updateMaxSpanLoop {t n : Nat} (h : n ≤ t) (values : List IDistanceEntry) :
    (updateMaxSpanLoop pubKey t n values).run (act ssz) db =
      (.ok (values ++ entries t (t - n) (maxCut (db.spanAt .maxSpan pubKey) t n - (t - n))), db) := by
  induction n generalizing values with
  | zero => simp [updateMaxSpanLoop, entries, maxCut]
  | succ n ih =>
    unfold updateMaxSpanLoop maxCut
    rw [Prog.run_bind_ok (run_spanGet ..)]
    dsimp only
    split
    · have hc := maxCut_bounds (db.spanAt .maxSpan pubKey) (show n ≤ t by omega)
      rw [ih (by omega), show maxCut (db.spanAt .maxSpan pubKey) t n - (t - (n + 1)) =
        (maxCut (db.spanAt .maxSpan pubKey) t n - (t - n)) + 1 by omega, entries_cons,
        show t - (n + 1) + 1 = t - n by omega]
      simp
    · simp [entries]

theorem spanAt_setSpans {values : List IDistanceEntry} (t c c' : Nat)
    (hv : ∀ v, v ∈ values ↔ (c ≤ v.source ∧ v.source < c') ∧ v.distance = (t : Int) - v.source)
    (span span' : Span) (e : Nat) :
    (db.setSpans ssz span pubKey values).spanAt span' pubKey e =
      if span' = span ∧ c ≤ e ∧ e < c' then some (ssz.roundTrip ((t : Int) - e))
      else db.spanAt span' pubKey e := by
  by_cases hs : span' = span
  · subst hs
    unfold Db.spanAt Db.setSpans
    simp only [Function.update_self, true_and]
    by_cases h : c ≤ e ∧ e < c'
    · rw [if_pos h]
      have hmem : (⟨e, (t : Int) - e⟩ : IDistanceEntry) ∈ values := (hv _).2 ⟨h, rfl⟩
      refine batchPut_get_of_mem _ (fun v : IDistanceEntry => ssz.roundTrip v.distance)
        hmem rfl fun v hv' hvk => ?_
      rw [((hv v).1 hv').2, (Prod.mk.inj hvk).2]
    · rw [if_neg h]
      refine batchPut_get_of_notMem fun v hv' hvk => h ?_
      rw [← (Prod.mk.inj hvk).2]
      exact ((hv v).1 hv').1
  · rw [if_neg (by simp [hs])]
    simp [Db.spanAt, Db.setSpans, Function.update_of_ne hs]

/-- The batch `updateMinSpan` writes over the entries `m`. -/
def minValues (m : Nat → Option Nat) (a : SlashingProtectionAttestation) : List IDistanceEntry :=
  (entries a.targetEpoch (minCut m a.targetEpoch a.sourceEpoch)
    (a.sourceEpoch - minCut m a.targetEpoch a.sourceEpoch)).reverse

/-- The number of epochs strictly between source and target. -/
def gap (a : SlashingProtectionAttestation) : Nat := a.targetEpoch - (a.sourceEpoch + 1)

/-- The batch `updateMaxSpan` writes over the entries `m`. -/
def maxValues (m : Nat → Option Nat) (a : SlashingProtectionAttestation) : List IDistanceEntry :=
  entries a.targetEpoch (a.targetEpoch - gap a)
    (maxCut m a.targetEpoch (gap a) - (a.targetEpoch - gap a))

theorem run_updateMinSpan (a : SlashingProtectionAttestation) :
    (updateMinSpan none pubKey a).run (act ssz) db =
      if surrounding (db.spanAt .minSpan pubKey a.sourceEpoch) a then
        (.error (.surround .IS_SURROUNDING a
          (a.sourceEpoch + (db.spanAt .minSpan pubKey a.sourceEpoch).getD 0)), db)
      else
        (.ok (), db.setSpans ssz .minSpan pubKey (minValues (db.spanAt .minSpan pubKey) a)) := by
  unfold updateMinSpan
  rw [Prog.run_bind, run_assertNotSurrounding]
  cases surrounding (db.spanAt .minSpan pubKey a.sourceEpoch) a with
  | true => rfl
  | false =>
    simp only [Bool.false_eq_true, if_false, Option.elim_none]
    rw [Prog.run_bind_ok (run_updateMinSpanLoop ..), List.nil_append, run_spanSetBatch]
    rfl

theorem run_updateMaxSpan (a : SlashingProtectionAttestation) :
    (updateMaxSpan pubKey a).run (act ssz) db =
      if surrounded (db.spanAt .maxSpan pubKey a.sourceEpoch) a then
        (.error (.surround .IS_SURROUNDED a
          (a.sourceEpoch + (db.spanAt .maxSpan pubKey a.sourceEpoch).getD 0)), db)
      else
        (.ok (), db.setSpans ssz .maxSpan pubKey (maxValues (db.spanAt .maxSpan pubKey) a)) := by
  unfold updateMaxSpan
  rw [Prog.run_bind, run_assertNotSurrounded]
  cases surrounded (db.spanAt .maxSpan pubKey a.sourceEpoch) a with
  | true => rfl
  | false =>
    simp only [Bool.false_eq_true, if_false]
    rw [Prog.run_bind_ok (run_updateMaxSpanLoop (Nat.sub_le ..) _), List.nil_append,
      run_spanSetBatch]
    rfl

/-- The spans of `pubKey` brought up to date with one more attestation. -/
def Db.insertSpan (ssz : SszEpoch) (db : Db) (pubKey : BLSPubkey)
    (a : SlashingProtectionAttestation) : Db :=
  (db.setSpans ssz .minSpan pubKey (minValues (db.spanAt .minSpan pubKey) a)).setSpans ssz
    .maxSpan pubKey (maxValues (db.spanAt .maxSpan pubKey) a)

theorem spanAt_setSpans_ne {span span' : Span} {pubKey' : BLSPubkey} (h : span' ≠ span)
    (values : List IDistanceEntry) :
    (db.setSpans ssz span pubKey' values).spanAt span' pubKey = db.spanAt span' pubKey := by
  funext e
  simp [Db.spanAt, Db.setSpans, Function.update_of_ne h]

variable (ssz db pubKey) in
/-- `insertAttestation` brings both spans up to date unless an entry at the source says that the
attestation surrounds another one or is surrounded. -/
theorem run_minMaxSurround_insertAttestation (a : SlashingProtectionAttestation) :
    (∃ e span', (MinMaxSurround.insertAttestation none pubKey a).run (act ssz) db =
        (.error e, { db with span := span' }) ∧
      ¬ (surrounding (db.spanAt .minSpan pubKey a.sourceEpoch) a = false ∧
        surrounded (db.spanAt .maxSpan pubKey a.sourceEpoch) a = false)) ∨
    ((MinMaxSurround.insertAttestation none pubKey a).run (act ssz) db =
        (.ok (), db.insertSpan ssz pubKey a) ∧
      surrounding (db.spanAt .minSpan pubKey a.sourceEpoch) a = false ∧
      surrounded (db.spanAt .maxSpan pubKey a.sourceEpoch) a = false) := by
  unfold MinMaxSurround.insertAttestation
  rw [Prog.run_bind, run_updateMinSpan]
  cases surrounding (db.spanAt .minSpan pubKey a.sourceEpoch) a with
  | true => exact .inl ⟨_, _, rfl, by simp⟩
  | false =>
    simp only [Bool.false_eq_true, if_false]
    rw [run_updateMaxSpan, spanAt_setSpans_ne (by decide)]
    cases surrounded (db.spanAt .maxSpan pubKey a.sourceEpoch) a with
    | true => exact .inl ⟨_, _, rfl, by simp⟩
    | false => exact .inr ⟨rfl, by simp⟩

/-! ## Attestation service -/

/-- `checkAttestation` finds the attestation recorded already. -/
def Repeated (db : Db) (pubKey : BLSPubkey) (a : SlashingProtectionAttestation) : Prop :=
  a.sourceEpoch ≤ a.targetEpoch ∧ ∃ prev, db.attestationByTarget[(pubKey, a.targetEpoch)]? = some prev ∧
    isEqualNonZeroRoot prev.signingRoot a.signingRoot

/-- `checkAttestation` finds nothing against a new attestation. -/
structure Clear (db : Db) (pubKey : BLSPubkey) (a : SlashingProtectionAttestation) : Prop where
  le : a.sourceEpoch ≤ a.targetEpoch
  unused : db.attestationByTarget[(pubKey, a.targetEpoch)]? = none
  notSurrounding : surrounding (db.spanAt .minSpan pubKey a.sourceEpoch) a = false
  notSurrounded : surrounded (db.spanAt .maxSpan pubKey a.sourceEpoch) a = false
  bound : ∀ bound, db.attestationLowerBound[pubKey]? = some bound →
    bound.minSourceEpoch ≤ a.sourceEpoch ∧ bound.minTargetEpoch < a.targetEpoch

variable (ssz db pubKey) in
theorem run_assertNoSurround (a : SlashingProtectionAttestation) :
    (∃ code t, (assertNoSurround pubKey a).run (act ssz) db = (.error (.surround code a t), db) ∧
      ¬ (surrounding (db.spanAt .minSpan pubKey a.sourceEpoch) a = false ∧
        surrounded (db.spanAt .maxSpan pubKey a.sourceEpoch) a = false)) ∨
    ((assertNoSurround pubKey a).run (act ssz) db = (.ok (), db) ∧
      surrounding (db.spanAt .minSpan pubKey a.sourceEpoch) a = false ∧
      surrounded (db.spanAt .maxSpan pubKey a.sourceEpoch) a = false) := by
  unfold assertNoSurround
  rw [Prog.run_bind, run_assertNotSurrounding]
  cases surrounding (db.spanAt .minSpan pubKey a.sourceEpoch) a with
  | true => exact .inl ⟨_, _, rfl, by simp⟩
  | false =>
    simp only [Bool.false_eq_true, if_false]
    rw [run_assertNotSurrounded]
    cases surrounded (db.spanAt .maxSpan pubKey a.sourceEpoch) a with
    | true => exact .inl ⟨_, _, rfl, by simp⟩
    | false => exact .inr ⟨rfl, by simp⟩

variable (ssz db pubKey) in
theorem run_checkSurround (a : SlashingProtectionAttestation) :
    (∃ e, (tryCatch (assertNoSurround pubKey a) (checkAttestationCatch pubKey a)).run (act ssz) db =
      (.error e, db) ∧ ¬ Clear db pubKey a) ∨
    ((tryCatch (assertNoSurround pubKey a) (checkAttestationCatch pubKey a)).run (act ssz) db =
        (.ok (), db) ∧
      surrounding (db.spanAt .minSpan pubKey a.sourceEpoch) a = false ∧
      surrounded (db.spanAt .maxSpan pubKey a.sourceEpoch) a = false) := by
  rw [Prog.run_tryCatch]
  rcases run_assertNoSurround ssz db pubKey a with ⟨code, t, hrun, h⟩ | ⟨hrun, h⟩
  · left
    rw [hrun]
    have hclear : ¬ Clear db pubKey a := fun hc => h ⟨hc.notSurrounding, hc.notSurrounded⟩
    cases code with
    | IS_SURROUNDING => exact ⟨_, rfl, hclear⟩
    | IS_SURROUNDED => exact ⟨_, rfl, hclear⟩
  · right
    rw [hrun]
    exact ⟨rfl, h⟩

variable (ssz db pubKey) in
theorem run_checkAttestation (a : SlashingProtectionAttestation) :
    ∃ r, (checkAttestation pubKey a).run (act ssz) db = (r, db) ∧
      (r = .ok .SAME_DATA ↔ Repeated db pubKey a) ∧ (r = .ok .OK ↔ Clear db pubKey a) := by
  unfold checkAttestation
  by_cases hle : a.targetEpoch < a.sourceEpoch
  · rw [if_pos hle]
    exact ⟨_, rfl, by simp [Repeated, hle], by simp; exact fun h => absurd h.le (not_le.2 hle)⟩
  rw [if_neg hle]
  replace hle := not_lt.1 hle
  dsimp only
  rw [Prog.run_bind_ok (run_attestationByTargetGet _)]
  cases hatt : db.attestationByTarget[(pubKey, a.targetEpoch)]? with
  | some prev =>
    have hclear : ¬ Clear db pubKey a := fun h => by simp [h.unused] at hatt
    by_cases hroot : isEqualNonZeroRoot prev.signingRoot a.signingRoot = true
    · simp only [if_pos hroot, Prog.run_pure]
      exact ⟨_, rfl, iff_of_true rfl ⟨hle, prev, hatt, hroot⟩, iff_of_false (by simp) hclear⟩
    · simp only [if_neg hroot]
      refine ⟨_, rfl, iff_of_false (by simp) ?_, iff_of_false (by simp) hclear⟩
      rintro ⟨-, prev', hprev', h⟩
      cases hatt.symm.trans hprev'
      exact hroot h
  | none =>
    have hrep : ¬ Repeated db pubKey a := by rintro ⟨-, prev, hprev, -⟩; simp [hatt] at hprev
    dsimp only
    rcases run_checkSurround ssz db pubKey a with ⟨e, hrun, hclear⟩ | ⟨hrun, hs, hs'⟩
    · rw [Prog.run_bind_error hrun]
      exact ⟨_, rfl, iff_of_false (by simp) hrep, iff_of_false (by simp) hclear⟩
    · rw [Prog.run_bind_ok hrun]
      rw [Prog.run_bind_ok run_attestationLowerBoundGet]
      cases hlb : db.attestationLowerBound[pubKey]? with
      | none =>
        refine ⟨_, rfl, iff_of_false (by simp) hrep, iff_of_true rfl ⟨hle, hatt, hs, hs', ?_⟩⟩
        simp [hlb]
      | some bound =>
        dsimp only
        split_ifs with h₁ h₂ h₂
        · refine ⟨_, rfl, iff_of_false (by simp) hrep, iff_of_false (by simp) fun h => ?_⟩
          exact absurd (h.bound _ hlb).1 (not_le.2 h₁)
        · refine ⟨_, rfl, iff_of_false (by simp) hrep, iff_of_false (by simp) fun h => ?_⟩
          exact absurd (h.bound _ hlb).1 (not_le.2 h₁)
        · refine ⟨_, rfl, iff_of_false (by simp) hrep, iff_of_false (by simp) fun h => ?_⟩
          exact absurd (h.bound _ hlb).2 (not_lt.2 h₂)
        · refine ⟨_, rfl, iff_of_false (by simp) hrep, iff_of_true rfl ⟨hle, hatt, hs, hs', ?_⟩⟩
          rintro b hb
          cases hlb.symm.trans hb
          exact ⟨not_lt.1 h₁, not_le.1 h₂⟩

theorem run_insertAttestation (a : SlashingProtectionAttestation) :
    (insertAttestation pubKey a).run (act ssz) db =
      (MinMaxSurround.insertAttestation none pubKey a).run (act ssz)
        (db.setAttestations pubKey [a]) := rfl

variable (ssz db pubKey) in
/-- A call is refused and changes nothing, repeats a recorded attestation and changes nothing, or
records a clear one. -/
theorem run_checkAndInsertAttestation (a : SlashingProtectionAttestation) :
    (∃ e, (checkAndInsertAttestation pubKey a).run (act ssz) db = (.error e, db) ∧
      ¬ Repeated db pubKey a ∧ ¬ Clear db pubKey a) ∨
    ((checkAndInsertAttestation pubKey a).run (act ssz) db = (.ok (), db) ∧
      Repeated db pubKey a) ∨
    ((checkAndInsertAttestation pubKey a).run (act ssz) db =
        (.ok (), (db.setAttestations pubKey [a]).insertSpan ssz pubKey a) ∧
      Clear db pubKey a) := by
  unfold checkAndInsertAttestation
  obtain ⟨r, hrun, hrep, hclear⟩ := run_checkAttestation ssz db pubKey a
  cases r with
  | error e =>
    exact .inl ⟨e, Prog.run_bind_error hrun, by simpa using hrep, by simpa using hclear⟩
  | ok status =>
    rw [Prog.run_bind_ok hrun]
    cases status with
    | SAME_DATA => exact .inr (.inl ⟨rfl, hrep.1 rfl⟩)
    | OK =>
      have hc := hclear.1 rfl
      have hins := run_minMaxSurround_insertAttestation ssz
        (db.setAttestations pubKey [a]) pubKey a
      right; right
      refine ⟨?_, hc⟩
      rw [if_pos (by decide), run_insertAttestation]
      rcases hins with ⟨e, span', -, h⟩ | ⟨h, -⟩
      · exact (h ⟨hc.notSurrounding, hc.notSurrounded⟩).elim
      · exact h

variable (ssz db pubKey) in
theorem run_insertSpans (atts : List SlashingProtectionAttestation) :
    ∃ r span', (insertSpans pubKey atts).run (act ssz) db = (r, { db with span := span' }) := by
  induction atts generalizing db with
  | nil => exact ⟨_, _, rfl⟩
  | cons a atts ih =>
    unfold insertSpans
    rcases run_minMaxSurround_insertAttestation ssz db pubKey a with
      ⟨e, span', h, -⟩ | ⟨h, -⟩
    · exact ⟨_, span', Prog.run_bind_error h⟩
    · obtain ⟨r, span', hr⟩ := ih (db.insertSpan ssz pubKey a)
      exact ⟨r, span', (Prog.run_bind_ok h).trans hr⟩

variable (ssz db pubKey) in
/-- An import writes the records, then the spans, and last, when no span update failed, the lower
bound of its file. -/
theorem run_importAttestations (atts : List SlashingProtectionAttestation) :
    ∃ r span',
      (insertSpans pubKey atts).run (act ssz) (db.setAttestations pubKey atts) =
        (r, { db.setAttestations pubKey atts with span := span' }) ∧
      (importAttestations pubKey atts).run (act ssz) db =
        (r, match r with
          | .ok _ => (lowerBoundOf atts).elim { db.setAttestations pubKey atts with span := span' }
              (Db.setLowerBound { db.setAttestations pubKey atts with span := span' } pubKey)
          | .error _ => { db.setAttestations pubKey atts with span := span' }) := by
  obtain ⟨r, span', h⟩ := run_insertSpans ssz (db.setAttestations pubKey atts) pubKey atts
  refine ⟨r, span', h, ?_⟩
  unfold importAttestations
  rw [Prog.run_bind_ok (run_attestationByTargetSet _)]
  cases r with
  | error e => exact Prog.run_bind_error h
  | ok u =>
    rw [Prog.run_bind_ok h]
    cases lowerBoundOf atts <;> rfl

/-! ## Block service -/

/-- The record of `pubKey` with the lowest slot. -/
def Db.firstBlock (db : Db) (pubKey : BLSPubkey) : Option SlashingProtectionBlock :=
  (getAll db.blockBySlot pubKey (some 1)).head?

@[simp] theorem run_blockBySlotGet (slot : Nat) :
    (BlockBySlotRepository.get pubKey slot).run (act ssz) db =
      (.ok db.blockBySlot[(pubKey, slot)]?, db) := rfl

@[simp] theorem run_blockBySlotGetFirst :
    (BlockBySlotRepository.getFirst pubKey).run (act ssz) db = (.ok (db.firstBlock pubKey), db) :=
  rfl

/-- `checkBlockProposal` finds the proposal recorded already. -/
def BlockRepeated (db : Db) (pubKey : BLSPubkey) (b : SlashingProtectionBlock) : Prop :=
  ∃ prev, db.blockBySlot[(pubKey, b.slot)]? = some prev ∧ b.slot = prev.slot ∧
    isEqualNonZeroRoot prev.signingRoot b.signingRoot

/-- `checkBlockProposal` finds nothing against a new proposal. -/
structure BlockClear (db : Db) (pubKey : BLSPubkey) (b : SlashingProtectionBlock) : Prop where
  unused : ∀ prev, db.blockBySlot[(pubKey, b.slot)]? = some prev → b.slot ≠ prev.slot
  bound : ∀ first, db.firstBlock pubKey = some first → first.slot < b.slot

variable (ssz db pubKey) in
theorem run_checkBlockLowerBound (b : SlashingProtectionBlock) :
    ∃ r, (do
        let minBlock ← BlockBySlotRepository.getFirst pubKey
        if let some first := minBlock then
          if b.slot ≤ first.slot then
            throw (.SLOT_LESS_THAN_LOWER_BOUND b.slot first.slot)
        return .OK : Async SafeStatus).run (act ssz) db = (r, db) ∧ r ≠ .ok .SAME_DATA ∧
      (r = .ok .OK ↔ ∀ first, db.firstBlock pubKey = some first → first.slot < b.slot) := by
  rw [Prog.run_bind_ok run_blockBySlotGetFirst]
  cases hfirst : db.firstBlock pubKey with
  | none => exact ⟨_, rfl, by simp, by simp⟩
  | some first =>
    dsimp only
    split_ifs with h
    · exact ⟨_, rfl, by simp, by simp [h]⟩
    · exact ⟨_, rfl, by simp, by simpa using h⟩

variable (ssz db pubKey) in
theorem run_checkBlockProposal (b : SlashingProtectionBlock) :
    ∃ r, (checkBlockProposal pubKey b).run (act ssz) db = (r, db) ∧
      (r = .ok .SAME_DATA ↔ BlockRepeated db pubKey b) ∧ (r = .ok .OK ↔ BlockClear db pubKey b) := by
  unfold checkBlockProposal
  rw [Prog.run_bind_ok (run_blockBySlotGet _)]
  obtain ⟨r, hrun, hne, hr⟩ := run_checkBlockLowerBound ssz db pubKey b
  cases hget : db.blockBySlot[(pubKey, b.slot)]? with
  | none =>
    refine ⟨r, hrun, iff_of_false hne ?_, hr.trans ⟨fun h => ⟨by simp [hget], h⟩, fun h => h.bound⟩⟩
    rintro ⟨prev, hprev, -⟩
    simp [hget] at hprev
  | some prev =>
    dsimp only
    split_ifs with hslot hroot
    · refine ⟨_, rfl, iff_of_true rfl ⟨prev, hget, hslot, hroot⟩, iff_of_false (by simp) fun h => ?_⟩
      exact h.unused _ hget hslot
    · refine ⟨_, rfl, iff_of_false (by simp) ?_, iff_of_false (by simp) fun h => ?_⟩
      · rintro ⟨prev', hprev', -, h⟩
        cases hget.symm.trans hprev'
        exact hroot h
      · exact h.unused _ hget hslot
    · refine ⟨r, hrun, iff_of_false hne ?_, hr.trans ⟨fun h => ⟨fun p hp => ?_, h⟩, fun h => h.bound⟩⟩
      · rintro ⟨prev', hprev', h, -⟩
        cases hget.symm.trans hprev'
        exact hslot h
      · cases hget.symm.trans hp
        exact hslot

variable (ssz db pubKey) in
/-- A call is refused and changes nothing, repeats a recorded proposal and changes nothing, or
records a clear one. -/
theorem run_checkAndInsertBlockProposal (b : SlashingProtectionBlock) :
    (∃ e, (checkAndInsertBlockProposal pubKey b).run (act ssz) db = (.error e, db) ∧
      ¬ BlockRepeated db pubKey b ∧ ¬ BlockClear db pubKey b) ∨
    ((checkAndInsertBlockProposal pubKey b).run (act ssz) db = (.ok (), db) ∧
      BlockRepeated db pubKey b) ∨
    ((checkAndInsertBlockProposal pubKey b).run (act ssz) db =
        (.ok (), db.setBlocks pubKey [b]) ∧ BlockClear db pubKey b) := by
  unfold checkAndInsertBlockProposal
  obtain ⟨r, hrun, hrep, hclear⟩ := run_checkBlockProposal ssz db pubKey b
  cases r with
  | error e =>
    exact .inl ⟨e, Prog.run_bind_error hrun, by simpa using hrep, by simpa using hclear⟩
  | ok status =>
    rw [Prog.run_bind_ok hrun]
    cases status with
    | SAME_DATA => exact .inr (.inl ⟨rfl, hrep.1 rfl⟩)
    | OK => exact .inr (.inr ⟨rfl, hclear.1 rfl⟩)

end Lodestar.SlashingProtection
