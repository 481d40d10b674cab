import Lodestar.SlashingProtection.Spec

/-!
# What the spans know

`SpansOk H db pubKey`: the two spans of `pubKey` describe the attestations
`H`, of which none surrounds another. One insertion keeps it, also where its
loops stopped early, so a whole import does.
-/

namespace Lodestar.SlashingProtection

open Lodestar.Base

/-- Source and target of an attestation. -/
def SlashingProtectionAttestation.span (a : SlashingProtectionAttestation) : Nat × Nat :=
  (a.sourceEpoch, a.targetEpoch)

/-- The epochs are in order and are numbers JavaScript counts exactly. -/
structure SlashingProtectionAttestation.Ordered (a : SlashingProtectionAttestation) : Prop where
  le : a.sourceEpoch ≤ a.targetEpoch
  safe : a.targetEpoch ≤ MAX_SAFE_INTEGER

structure SpansOk (H : Set (Nat × Nat)) (db : Db) (pubKey : BLSPubkey) : Prop where
  nearest : Nearest H (db.spanAt .minSpan pubKey)
  furthest : Furthest H (db.spanAt .maxSpan pubKey)
  ordered : ∀ b ∈ H, b.1 ≤ b.2
  laminar : Laminar H

variable {ssz : SszEpoch} {db db' : Db} {pubKey : BLSPubkey} {H : Set (Nat × Nat)}
  {a : SlashingProtectionAttestation}

theorem SpansOk.empty (pubKey : BLSPubkey) : SpansOk ∅ Db.empty pubKey where
  nearest := by
    convert Nearest.empty using 1
    funext e
    simp [Db.spanAt, Db.empty]
  furthest := by
    convert Furthest.empty using 1
    funext e
    simp [Db.spanAt, Db.empty]
  ordered _ h := h.elim
  laminar _ h := h.elim

theorem SpansOk.congr_spanAt (h : SpansOk H db pubKey)
    (hat : ∀ s, db'.spanAt s pubKey = db.spanAt s pubKey) : SpansOk H db' pubKey :=
  ⟨hat _ ▸ h.nearest, hat _ ▸ h.furthest, h.ordered, h.laminar⟩

theorem SpansOk.congr (h : SpansOk H db pubKey) (hspan : db'.span = db.span) :
    SpansOk H db' pubKey :=
  h.congr_spanAt fun s => by
    funext e; simp [Db.spanAt, hspan]

theorem SpansOk.surrounding_iff (h : SpansOk H db pubKey) :
    surrounding (db.spanAt .minSpan pubKey a.sourceEpoch) a = true ↔
      ∃ b ∈ H, Contains a.span b := by
  rw [show a.span = (a.sourceEpoch, a.targetEpoch) from rfl, h.nearest.contains_iff]
  simp only [surrounding, Option.any_eq_true, decide_eq_true_eq]
  refine exists_congr fun d => and_congr_right fun hd => ?_
  obtain ⟨b, hb, hs, ht⟩ := h.nearest.sound hd
  have := h.ordered b hb
  unfold SlashingProtectionAttestation.distance
  omega

theorem SpansOk.surrounded_iff (h : SpansOk H db pubKey) (hst : a.sourceEpoch ≤ a.targetEpoch) :
    surrounded (db.spanAt .maxSpan pubKey a.sourceEpoch) a = true ↔
      ∃ b ∈ H, Contains b a.span := by
  rw [show a.span = (a.sourceEpoch, a.targetEpoch) from rfl, h.furthest.contains_iff hst]
  simp only [surrounded, Option.any_eq_true, decide_eq_true_eq]
  refine exists_congr fun d => and_congr_right fun _ => ?_
  unfold SlashingProtectionAttestation.distance
  omega

theorem minCut_spec (m : Nat → Option Nat) (t : Nat) (n : Nat) :
    (∀ e, minCut m t n ≤ e → e < n → ∀ d ∈ m e, (t : Int) - e < d) ∧
      (minCut m t n = 0 ∨ ∃ d, m (minCut m t n - 1) = some d ∧
        ((minCut m t n - 1 : Nat) : Int) + d ≤ t) := by
  induction n with
  | zero => exact ⟨fun e _ he => absurd he (Nat.not_lt_zero e), .inl rfl⟩
  | succ n ih =>
    unfold minCut
    split
    · rename_i hall
      refine ⟨fun e hc he d hd => ?_, ih.2⟩
      obtain he | rfl := Nat.lt_succ_iff_lt_or_eq.1 he
      · exact ih.1 e hc he d hd
      · simpa using (Option.all_eq_true _ _).1 hall d hd
    · rename_i hall
      refine ⟨fun e hc he => absurd he (by omega), .inr ?_⟩
      cases hm : m n with
      | none => simp [hm] at hall
      | some d =>
        refine ⟨d, hm, ?_⟩
        simp only [hm, Option.all_some, decide_eq_true_eq] at hall
        rw [Nat.add_sub_cancel]
        omega

theorem maxCut_spec (m : Nat → Option Nat) {t n : Nat} (hn : n ≤ t) :
    (∀ e, t - n ≤ e → e < maxCut m t n → ∀ d ∈ m e, (d : Int) < (t : Int) - e) ∧
      (maxCut m t n = t ∨ ∃ d, m (maxCut m t n) = some d ∧ (t : Int) ≤ (maxCut m t n : Int) + d) := by
  induction n with
  | zero => exact ⟨fun e h₁ h₂ => absurd h₂ (by unfold maxCut; omega), .inl rfl⟩
  | succ n ih =>
    have ih := ih (by omega)
    unfold maxCut
    split
    · rename_i hall
      refine ⟨fun e hc he d hd => ?_, ih.2⟩
      by_cases hen : e = t - (n + 1)
      · subst hen
        simpa using (Option.all_eq_true _ _).1 hall d hd
      · exact ih.1 e (by omega) he d hd
    · rename_i hall
      refine ⟨fun e hc he => absurd he (by omega), .inr ?_⟩
      cases hm : m (t - (n + 1)) with
      | none => simp [hm] at hall
      | some d =>
        refine ⟨d, rfl, ?_⟩
        simp only [hm, Option.all_some, decide_eq_true_eq] at hall
        omega

theorem spanAt_minSpan_insertSpan (e : Nat) :
    (db.insertSpan ssz pubKey a).spanAt .minSpan pubKey e =
      if minCut (db.spanAt .minSpan pubKey) a.targetEpoch a.sourceEpoch ≤ e ∧ e < a.sourceEpoch then
        some (ssz.roundTrip (a.targetEpoch - e))
      else db.spanAt .minSpan pubKey e := by
  unfold Db.insertSpan
  have hcut := minCut_le (db.spanAt .minSpan pubKey) a.targetEpoch a.sourceEpoch
  rw [spanAt_setSpans_ne (by decide), spanAt_setSpans a.targetEpoch
    (minCut (db.spanAt .minSpan pubKey) a.targetEpoch a.sourceEpoch) a.sourceEpoch]
  · simp
  · intro v
    rw [minValues, List.mem_reverse, mem_entries, Nat.add_sub_cancel' hcut]

theorem spanAt_maxSpan_insertSpan (e : Nat) :
    (db.insertSpan ssz pubKey a).spanAt .maxSpan pubKey e =
      if a.targetEpoch - gap a ≤ e ∧
          e < maxCut (db.spanAt .maxSpan pubKey) a.targetEpoch (gap a) then
        some (ssz.roundTrip (a.targetEpoch - e))
      else db.spanAt .maxSpan pubKey e := by
  unfold Db.insertSpan
  have hcut := maxCut_bounds (db.spanAt .maxSpan pubKey) (show gap a ≤ a.targetEpoch from Nat.sub_le ..)
  rw [spanAt_setSpans a.targetEpoch (a.targetEpoch - gap a)
    (maxCut (db.spanAt .maxSpan pubKey) a.targetEpoch (gap a)), spanAt_setSpans_ne (by decide)]
  · simp
  · intro v
    rw [maxValues, mem_entries, Nat.add_sub_cancel' hcut.1]

theorem roundTrip_distance (ha : a.Ordered) {e : Nat} (he : e ≤ a.targetEpoch) :
    ssz.roundTrip (a.targetEpoch - e) = a.targetEpoch - e := by
  have := ha.safe
  rw [← Int.ofNat_sub he]
  exact ssz.roundTrip_natCast _ (by simp only [MAX_SAFE_INTEGER] at this; omega)

theorem nearer_insertSpan (ha : a.Ordered) :
    Nearer (db.spanAt .minSpan pubKey) ((db.insertSpan ssz pubKey a).spanAt .minSpan pubKey)
      a.sourceEpoch a.targetEpoch
      (minCut (db.spanAt .minSpan pubKey) a.targetEpoch a.sourceEpoch) := by
  have hst := ha.le
  obtain ⟨hin, hstop⟩ := minCut_spec (db.spanAt .minSpan pubKey) a.targetEpoch a.sourceEpoch
  refine ⟨fun {e} hc he => ?_, fun {e} he => ?_, ?_⟩
  · rw [spanAt_minSpan_insertSpan, if_pos ⟨hc, he⟩, roundTrip_distance ha (by omega)]
    refine ⟨rfl, fun d hd => ?_⟩
    have := hin e hc he d hd
    omega
  · rw [spanAt_minSpan_insertSpan, if_neg (by rintro ⟨h₁, h₂⟩; rcases he with he | he <;> omega)]
  · refine hstop.imp_right fun ⟨d, hd, hle⟩ => ⟨d, hd, ?_⟩
    omega

theorem further_insertSpan (ha : a.Ordered) :
    Further (db.spanAt .maxSpan pubKey) ((db.insertSpan ssz pubKey a).spanAt .maxSpan pubKey)
      a.sourceEpoch a.targetEpoch
      (maxCut (db.spanAt .maxSpan pubKey) a.targetEpoch (gap a)) := by
  have hst := ha.le
  have hgap : gap a = a.targetEpoch - (a.sourceEpoch + 1) := rfl
  have hn : gap a ≤ a.targetEpoch := Nat.sub_le ..
  obtain ⟨hin, hstop⟩ := maxCut_spec (db.spanAt .maxSpan pubKey) hn
  obtain ⟨hlo, hhi⟩ := maxCut_bounds (db.spanAt .maxSpan pubKey) hn
  refine ⟨fun {e} hs he => ?_, fun {e} he => ?_, ?_, le_max_of_le_left hhi⟩
  · rw [spanAt_maxSpan_insertSpan, if_pos ⟨by omega, he⟩, roundTrip_distance ha (by omega)]
    refine ⟨rfl, fun d hd => ?_⟩
    have := hin e (by omega) he d hd
    omega
  · rw [spanAt_maxSpan_insertSpan, if_neg]
    rintro ⟨h₁, h₂⟩
    rcases he with he | he <;> omega
  · rcases hstop with h | ⟨d, hd, hle⟩
    · exact .inl (by omega)
    · exact .inr ⟨d, hd, by omega⟩

variable (ssz) in
/-- One insertion: the loops may stop early and the spans still describe all of them. -/
theorem SpansOk.insert (h : SpansOk H db pubKey) (ha : a.Ordered)
    (hs : surrounding (db.spanAt .minSpan pubKey a.sourceEpoch) a = false)
    (hs' : surrounded (db.spanAt .maxSpan pubKey a.sourceEpoch) a = false) :
    SpansOk (insert a.span H) (db.insertSpan ssz pubKey a) pubKey where
  nearest := h.nearest.insert ha.le (nearer_insertSpan ha)
  furthest := h.furthest.insert (further_insertSpan ha)
  ordered := by
    rintro b (rfl | hb)
    · exact ha.le
    · exact h.ordered b hb
  laminar := by
    refine h.laminar.insert (fun b hb hc => ?_) fun b hb hc => ?_
    · rw [h.surrounding_iff.2 ⟨b, hb, hc⟩] at hs
      cases hs
    · rw [(h.surrounded_iff ha.le).2 ⟨b, hb, hc⟩] at hs'
      cases hs'

theorem SpansOk.insertSpans {atts : List SlashingProtectionAttestation} (h : SpansOk H db pubKey)
    (hatts : ∀ a ∈ atts, a.Ordered)
    (hrun : (insertSpans pubKey atts).run (act ssz) db = (.ok (), db')) :
    SpansOk (H ∪ {b | ∃ a ∈ atts, a.span = b}) db' pubKey := by
  induction atts generalizing H db with
  | nil => cases hrun; simpa using h
  | cons a atts ih =>
    unfold SlashingProtection.insertSpans at hrun
    rcases run_minMaxSurround_insertAttestation ssz db pubKey a with
      ⟨e, span', hr, -⟩ | ⟨hr, hs, hs'⟩
    · rw [Prog.run_bind_error hr] at hrun
      cases hrun
    · rw [Prog.run_bind_ok hr] at hrun
      have h' := h.insert ssz (hatts a List.mem_cons_self) hs hs'
      convert ih h' (fun b hb => hatts b (List.mem_cons_of_mem _ hb)) hrun using 1
      ext b
      simp [eq_comm, or_left_comm, or_assoc]

variable (ssz) in
theorem SpansOk.exists_insertSpans (h : SpansOk H db pubKey)
    {atts : List SlashingProtectionAttestation} (hatts : ∀ a ∈ atts, a.Ordered)
    (hlaminar : Laminar (H ∪ {b | ∃ a ∈ atts, a.span = b})) :
    ∃ db', (SlashingProtection.insertSpans pubKey atts).run (act ssz) db = (.ok (), db') := by
  induction atts generalizing H db with
  | nil => exact ⟨db, rfl⟩
  | cons a atts ih =>
    have ha : a.span ∈ H ∪ {b | ∃ a' ∈ a :: atts, a'.span = b} :=
      .inr ⟨a, List.mem_cons_self, rfl⟩
    have hs : surrounding (db.spanAt .minSpan pubKey a.sourceEpoch) a = false := by
      by_contra hne
      obtain ⟨b, hb, hc⟩ := h.surrounding_iff.1 (Bool.not_eq_false _ ▸ hne)
      exact hlaminar _ ha _ (.inl hb) hc
    have hs' : surrounded (db.spanAt .maxSpan pubKey a.sourceEpoch) a = false := by
      by_contra hne
      obtain ⟨b, hb, hc⟩ := (h.surrounded_iff (hatts a List.mem_cons_self).le).1
        (Bool.not_eq_false _ ▸ hne)
      exact hlaminar _ (.inl hb) _ ha hc
    have hins : (MinMaxSurround.insertAttestation none pubKey a).run (act ssz) db =
        (.ok (), db.insertSpan ssz pubKey a) := by
      rcases run_minMaxSurround_insertAttestation ssz db pubKey a with ⟨e, span', -, hnot⟩ | ⟨hrun, -⟩
      · exact (hnot ⟨hs, hs'⟩).elim
      · exact hrun
    obtain ⟨db', hrun⟩ := ih (h.insert ssz (hatts a List.mem_cons_self) hs hs')
      (fun b hb => hatts b (List.mem_cons_of_mem _ hb)) (by
        convert hlaminar using 1
        ext b
        simp [eq_comm, or_left_comm, or_assoc])
    refine ⟨db', ?_⟩
    unfold SlashingProtection.insertSpans
    rw [Prog.run_bind_ok hins]
    exact hrun

/-! ## The check is exact -/

variable (ssz) in
/-- After insertions that all succeed, the check refuses just the attestations that surround one of
them or are surrounded by one. -/
theorem assertNoSurround_throws_iff {atts : List SlashingProtectionAttestation}
    (hempty : ∀ span epoch, db.spanAt span pubKey epoch = none) (hatts : ∀ b ∈ atts, b.Ordered)
    (hinserts : (insertSpans pubKey atts).run (act ssz) db = (.ok (), db'))
    (ha : a.sourceEpoch ≤ a.targetEpoch) :
    (∃ e, ((assertNoSurround pubKey a).run (act ssz) db').1 = .error e) ↔
      ∃ b ∈ atts, Contains a.span b.span ∨ Contains b.span a.span := by
  have hstart : SpansOk ∅ db pubKey := (SpansOk.empty pubKey).congr_spanAt fun span => by
    funext epoch
    rw [hempty]
    simp [Db.spanAt, Db.empty]
  have h := hstart.insertSpans hatts hinserts
  rw [Set.empty_union] at h
  have hiff : (∃ b ∈ atts, Contains a.span b.span ∨ Contains b.span a.span) ↔
      ¬ (surrounding (db'.spanAt .minSpan pubKey a.sourceEpoch) a = false ∧
        surrounded (db'.spanAt .maxSpan pubKey a.sourceEpoch) a = false) := by
    rw [not_and_or, Bool.not_eq_false, Bool.not_eq_false, h.surrounding_iff, h.surrounded_iff ha]
    constructor
    · rintro ⟨b, hb, hc | hc⟩
      · exact .inl ⟨b.span, ⟨b, hb, rfl⟩, hc⟩
      · exact .inr ⟨b.span, ⟨b, hb, rfl⟩, hc⟩
    · rintro (⟨_, ⟨b, hb, rfl⟩, hc⟩ | ⟨_, ⟨b, hb, rfl⟩, hc⟩)
      · exact ⟨b, hb, .inl hc⟩
      · exact ⟨b, hb, .inr hc⟩
  rw [hiff]
  rcases run_assertNoSurround ssz db' pubKey a with ⟨code, target, hrun, hnot⟩ | ⟨hrun, hs, hs'⟩
  · rw [hrun]
    exact ⟨fun _ => hnot, fun _ => ⟨_, rfl⟩⟩
  · rw [hrun]
    constructor
    · rintro ⟨e, he⟩
      cases he
    · intro hnot
      exact (hnot ⟨hs, hs'⟩).elim

/-- With the votes from 2 to 3 and from 4 to 8, one from 1 to 5 is refused and one from 3 to 8 is
not. -/
theorem assertNoSurround_throws_twoVotes :
    ∃ db', (insertSpans 0x42 [⟨2, 3, 0⟩, ⟨4, 8, 0⟩]).run (act sszUint64) Db.empty = (.ok (), db') ∧
      (∃ e, ((assertNoSurround 0x42 ⟨1, 5, 0⟩).run (act sszUint64) db').1 = .error e) ∧
      ¬ ∃ e, ((assertNoSurround 0x42 ⟨3, 8, 0⟩).run (act sszUint64) db').1 = .error e := by
  have hatts : ∀ b ∈ ([⟨2, 3, 0⟩, ⟨4, 8, 0⟩] : List SlashingProtectionAttestation), b.Ordered := by
    rintro b hb
    fin_cases hb <;> exact ⟨by decide, by decide⟩
  have hlaminar : Laminar (∅ ∪ {b | ∃ a ∈ ([⟨2, 3, 0⟩, ⟨4, 8, 0⟩] :
      List SlashingProtectionAttestation), a.span = b}) := by
    rintro b (hb | ⟨b, hb, rfl⟩) c (hc | ⟨c, hc, rfl⟩) ⟨hsource, htarget⟩
    · exact hb
    · exact hb
    · exact hc
    · fin_cases hb <;> fin_cases hc <;> revert hsource htarget <;> decide
  obtain ⟨db', hinserts⟩ := (SpansOk.empty 0x42).exists_insertSpans sszUint64 hatts hlaminar
  have hempty : ∀ span epoch, Db.empty.spanAt span 0x42 epoch = none := by
    intro span epoch
    simp [Db.spanAt, Db.empty]
  refine ⟨db', hinserts, ?_, ?_⟩
  · rw [assertNoSurround_throws_iff sszUint64 hempty hatts hinserts (by decide)]
    exact ⟨⟨2, 3, 0⟩, by simp, .inl ⟨by decide, by decide⟩⟩
  · rw [assertNoSurround_throws_iff sszUint64 hempty hatts hinserts (by decide)]
    rintro ⟨b, hb, hc⟩
    fin_cases hb <;> revert hc <;> simp [Contains, SlashingProtectionAttestation.span]

end Lodestar.SlashingProtection
