import Lodestar.Base.Interleave
import Lodestar.SlashingProtection.Spec

/-!
# The services seen from inside

What a call that resolves has read and written, whatever else happened to the
database in between (`Inserted`, `Proposed`). The entries a span loop writes
are a function of those it read, and it read every entry it writes and the one
it stopped at.
-/

namespace Lodestar.SlashingProtection

open Lodestar.Base Lodestar.Base.Prog

/-- An awaited operation of the services with its answer. -/
abbrev DbEvent := Event DbOp DbOp.Resp

variable {pubKey : BLSPubkey} {a : SlashingProtectionAttestation} {tr : List DbEvent}

theorem minCut_congr {f g : Nat → Option Nat} {t n : Nat} (h : ∀ e < n, f e = g e) :
    minCut f t n = minCut g t n := by
  induction n with
  | zero => rfl
  | succ n ih =>
    unfold minCut
    rw [h n (Nat.lt_succ_self n), ih fun e he => h e (Nat.lt_succ_of_lt he)]

theorem maxCut_congr {f g : Nat → Option Nat} {t n : Nat} (hn : n ≤ t)
    (h : ∀ e, t - n ≤ e → e < t → f e = g e) : maxCut f t n = maxCut g t n := by
  induction n with
  | zero => rfl
  | succ n ih =>
    unfold maxCut
    rw [h (t - (n + 1)) le_rfl (by omega), ih (by omega) fun e he => h e (by omega)]

theorem exec_updateMinSpanLoop {t n : Nat} {values vs : List IDistanceEntry}
    (h : Exec (updateMinSpanLoop pubKey t 0 n values) tr (.ok vs)) :
    ∃ f : Nat → Option Nat,
      vs = values ++ (entries t (minCut f t n) (n - minCut f t n)).reverse ∧
      (∀ e, minCut f t n ≤ e + 1 → e < n → ⟨.spanGet .minSpan pubKey e, f e⟩ ∈ tr) ∧
      ∀ x ∈ tr, ∃ e, e < n ∧ x.1 = .spanGet .minSpan pubKey e := by
  induction n generalizing values tr with
  | zero =>
    unfold updateMinSpanLoop at h
    obtain ⟨rfl, hvs⟩ := exec_pure.1 h
    cases hvs
    exact ⟨fun _ => none, by simp [entries], by simp, by simp⟩
  | succ n ih =>
    unfold updateMinSpanLoop at h
    rw [if_neg (Nat.not_lt_zero _)] at h
    obtain ⟨(r : Option Nat), tr, rfl, hk⟩ := exec_op_bind_ok h
    dsimp only at hk
    split at hk
    · rename_i hall
      obtain ⟨f, rfl, hread, hops⟩ := ih hk
      have hcut : minCut (Function.update f n r) t (n + 1) = minCut f t n := by
        rw [minCut, Function.update_self, if_pos hall]
        exact minCut_congr fun e he => Function.update_of_ne (by omega) ..
      have hc := minCut_le f t n
      refine ⟨Function.update f n r, ?_, fun e he hen => ?_, fun x hx => ?_⟩
      · rw [hcut, Nat.succ_sub hc, entries_concat, Nat.add_sub_cancel' hc]
        simp
      · rw [hcut] at he
        obtain hlt | rfl := Nat.lt_succ_iff_lt_or_eq.1 hen
        · rw [Function.update_of_ne (by omega)]
          exact List.mem_cons_of_mem _ (hread e he hlt)
        · rw [Function.update_self]
          exact List.mem_cons_self
      · rcases List.mem_cons.1 hx with rfl | hx
        · exact ⟨n, Nat.lt_succ_self n, rfl⟩
        · obtain ⟨e, he, hxe⟩ := hops x hx
          exact ⟨e, by omega, hxe⟩
    · rename_i hall
      obtain ⟨rfl, hvs⟩ := exec_pure.1 hk
      cases hvs
      have hcut : minCut (Function.update (fun _ => none) n r) t (n + 1) = n + 1 := by
        rw [minCut, Function.update_self, if_neg hall]
      refine ⟨Function.update (fun _ => none) n r, ?_, fun e he hen => ?_, fun x hx => ?_⟩
      · rw [hcut]
        simp [entries]
      · rw [hcut] at he
        obtain rfl : e = n := by omega
        rw [Function.update_self]
        exact List.mem_cons_self
      · rw [List.mem_singleton.1 hx]
        exact ⟨n, Nat.lt_succ_self n, rfl⟩

theorem exec_updateMaxSpanLoop {t n : Nat} (hn : n ≤ t) {values vs : List IDistanceEntry}
    (h : Exec (updateMaxSpanLoop pubKey t n values) tr (.ok vs)) :
    ∃ g : Nat → Option Nat,
      vs = values ++ entries t (t - n) (maxCut g t n - (t - n)) ∧
      (∀ e, t - n ≤ e → e < t → e ≤ maxCut g t n → ⟨.spanGet .maxSpan pubKey e, g e⟩ ∈ tr) ∧
      ∀ x ∈ tr, ∃ e, t - n ≤ e ∧ e < t ∧ x.1 = .spanGet .maxSpan pubKey e := by
  induction n generalizing values tr with
  | zero =>
    unfold updateMaxSpanLoop at h
    obtain ⟨rfl, hvs⟩ := exec_pure.1 h
    cases hvs
    exact ⟨fun _ => none, by simp [entries, maxCut], fun e h₁ h₂ => by omega, by simp⟩
  | succ n ih =>
    unfold updateMaxSpanLoop at h
    obtain ⟨(r : Option Nat), tr, rfl, hk⟩ := exec_op_bind_ok h
    dsimp only at hk
    split at hk
    · rename_i hall
      obtain ⟨g, rfl, hread, hops⟩ := ih (by omega) hk
      have hcut : maxCut (Function.update g (t - (n + 1)) r) t (n + 1) = maxCut g t n := by
        rw [maxCut, Function.update_self, if_pos hall]
        exact maxCut_congr (by omega) fun e he _ => Function.update_of_ne (by omega) ..
      have hc := maxCut_bounds g (show n ≤ t by omega)
      refine ⟨Function.update g (t - (n + 1)) r, ?_, fun e he het hec => ?_, fun x hx => ?_⟩
      · rw [hcut, show maxCut g t n - (t - (n + 1)) = (maxCut g t n - (t - n)) + 1 by omega,
          entries_cons, show t - (n + 1) + 1 = t - n by omega]
        simp
      · rw [hcut] at hec
        by_cases hen : e = t - (n + 1)
        · subst hen
          rw [Function.update_self]
          exact List.mem_cons_self
        · rw [Function.update_of_ne hen]
          exact List.mem_cons_of_mem _ (hread e (by omega) het hec)
      · rcases List.mem_cons.1 hx with rfl | hx
        · exact ⟨_, le_rfl, by omega, rfl⟩
        · obtain ⟨e, he, het, hxe⟩ := hops x hx
          exact ⟨e, by omega, het, hxe⟩
    · rename_i hall
      obtain ⟨rfl, hvs⟩ := exec_pure.1 hk
      cases hvs
      have hcut : maxCut (Function.update (fun _ => none) (t - (n + 1)) r) t (n + 1) =
          t - (n + 1) := by
        rw [maxCut, Function.update_self, if_neg hall]
      refine ⟨Function.update (fun _ => none) (t - (n + 1)) r, ?_, fun e he het hec => ?_,
        fun x hx => ?_⟩
      · rw [hcut]
        simp [entries]
      · rw [hcut] at hec
        obtain rfl : e = t - (n + 1) := by omega
        rw [Function.update_self]
        exact List.mem_cons_self
      · rw [List.mem_singleton.1 hx]
        exact ⟨_, le_rfl, by omega, rfl⟩

theorem exec_assertNotSurrounding (h : Exec (assertNotSurrounding pubKey a) tr (.ok ())) :
    ∃ m : Option Nat, tr = [⟨.spanGet .minSpan pubKey a.sourceEpoch, m⟩] ∧
      surrounding m a = false := by
  unfold assertNotSurrounding at h
  obtain ⟨(m : Option Nat), tr, rfl, hk⟩ := exec_op_bind_ok h
  cases m with
  | none =>
    obtain ⟨rfl, -⟩ := exec_pure.1 hk
    exact ⟨none, rfl, rfl⟩
  | some d =>
    dsimp only at hk
    split at hk
    · cases (exec_throw.1 hk).2
    · rename_i hd
      obtain ⟨rfl, -⟩ := exec_pure.1 hk
      exact ⟨some d, rfl, by simpa [surrounding] using hd⟩

theorem exec_assertNotSurrounded (h : Exec (assertNotSurrounded pubKey a) tr (.ok ())) :
    ∃ m : Option Nat, tr = [⟨.spanGet .maxSpan pubKey a.sourceEpoch, m⟩] ∧
      surrounded m a = false := by
  unfold assertNotSurrounded at h
  obtain ⟨(m : Option Nat), tr, rfl, hk⟩ := exec_op_bind_ok h
  cases m with
  | none =>
    obtain ⟨rfl, -⟩ := exec_pure.1 hk
    exact ⟨none, rfl, rfl⟩
  | some d =>
    dsimp only at hk
    split at hk
    · cases (exec_throw.1 hk).2
    · rename_i hd
      obtain ⟨rfl, -⟩ := exec_pure.1 hk
      exact ⟨some d, rfl, by simpa [surrounded] using hd⟩

theorem not_exec_checkAttestationCatch (e : SlashingProtectionError) :
    ¬ Exec (checkAttestationCatch pubKey a e) tr (.ok ()) := by
  intro h
  unfold checkAttestationCatch at h
  split at h
  · obtain ⟨r, tr, rfl, hk⟩ := exec_op_bind_ok h
    split at hk <;> cases (exec_throw.1 hk).2
  · cases (exec_throw.1 h).2

theorem exec_checkAttestation {status : SafeStatus}
    (h : Exec (checkAttestation pubKey a) tr (.ok status)) :
    a.sourceEpoch ≤ a.targetEpoch ∧
    ((status = .SAME_DATA ∧ ∃ prev : SlashingProtectionAttestation,
        tr = [⟨.attestationByTargetGet pubKey a.targetEpoch, some prev⟩] ∧
        isEqualNonZeroRoot prev.signingRoot a.signingRoot = true) ∨
      (status = .OK ∧ ∃ (m m' : Option Nat) (b : Option SlashingProtectionLowerBound),
        tr = [⟨.attestationByTargetGet pubKey a.targetEpoch, none⟩,
          ⟨.spanGet .minSpan pubKey a.sourceEpoch, m⟩,
          ⟨.spanGet .maxSpan pubKey a.sourceEpoch, m'⟩, ⟨.attestationLowerBoundGet pubKey, b⟩] ∧
        surrounding m a = false ∧ surrounded m' a = false ∧
        ∀ bound, b = some bound →
          bound.minSourceEpoch ≤ a.sourceEpoch ∧ bound.minTargetEpoch < a.targetEpoch)) := by
  unfold checkAttestation at h
  split at h
  · obtain ⟨_, _, _, -, hthrow, -⟩ := exec_bind_ok.1 h
    cases (exec_throw.1 hthrow).2
  rename_i hle
  refine ⟨Nat.le_of_not_lt hle, ?_⟩
  dsimp only at h
  obtain ⟨(x : Option SlashingProtectionAttestation), tr, rfl, hk⟩ := exec_op_bind_ok h
  cases x with
  | some prev =>
    dsimp only at hk
    split at hk
    · rename_i hroot
      obtain ⟨rfl, hst⟩ := exec_pure.1 hk
      cases hst
      exact .inl ⟨rfl, prev, rfl, hroot⟩
    · obtain ⟨_, _, _, -, hthrow, -⟩ := exec_bind_ok.1 hk
      cases (exec_throw.1 hthrow).2
  | none =>
    dsimp only at hk
    obtain ⟨t₁, t₂, u, rfl, hcatch, hbound⟩ := exec_bind_ok.1 hk
    have hassert := (exec_tryCatch_ok fun e tr u => not_exec_checkAttestationCatch e).1 hcatch
    unfold assertNoSurround at hassert
    obtain ⟨s₁, s₂, u', rfl, h₁, h₂⟩ := exec_bind_ok.1 hassert
    obtain ⟨m, rfl, hm⟩ := exec_assertNotSurrounding h₁
    obtain ⟨m', rfl, hm'⟩ := exec_assertNotSurrounded h₂
    obtain ⟨(b : Option SlashingProtectionLowerBound), t, rfl, hb⟩ := exec_op_bind_ok hbound
    right
    cases b with
    | none =>
      obtain ⟨rfl, hst⟩ := exec_pure.1 hb
      cases hst
      exact ⟨rfl, m, m', none, rfl, hm, hm', by simp⟩
    | some bound =>
      dsimp only at hb
      split at hb
      · obtain ⟨_, _, _, -, hthrow, -⟩ := exec_bind_ok.1 hb
        cases (exec_throw.1 hthrow).2
      · rename_i hs
        split at hb
        · obtain ⟨_, _, _, -, hthrow, -⟩ := exec_bind_ok.1 hb
          cases (exec_throw.1 hthrow).2
        · rename_i ht
          obtain ⟨rfl, hst⟩ := exec_pure.1 hb
          cases hst
          refine ⟨rfl, m, m', some bound, rfl, hm, hm', ?_⟩
          intro b hb
          cases hb
          exact ⟨Nat.le_of_not_lt hs, Nat.lt_of_not_le ht⟩

/-- The events of a call that records `a`, its loops having read `f` and `g`. -/
inductive InsertEvent (pubKey : BLSPubkey) (a : SlashingProtectionAttestation)
    (f g : Nat → Option Nat) : DbEvent → Prop where
  | unused : InsertEvent pubKey a f g ⟨.attestationByTargetGet pubKey a.targetEpoch, none⟩
  | minGet {m : Option Nat} (h : surrounding m a = false) :
    InsertEvent pubKey a f g ⟨.spanGet .minSpan pubKey a.sourceEpoch, m⟩
  | maxGet {m : Option Nat} (h : surrounded m a = false) :
    InsertEvent pubKey a f g ⟨.spanGet .maxSpan pubKey a.sourceEpoch, m⟩
  | bound (b : Option SlashingProtectionLowerBound) :
    InsertEvent pubKey a f g ⟨.attestationLowerBoundGet pubKey, b⟩
  | record : InsertEvent pubKey a f g ⟨.attestationByTargetSet pubKey [a], ()⟩
  | minRead {e : Nat} (m : Option Nat) (h : e < a.sourceEpoch) :
    InsertEvent pubKey a f g ⟨.spanGet .minSpan pubKey e, m⟩
  | maxRead {e : Nat} (m : Option Nat) (h : a.sourceEpoch < e) :
    InsertEvent pubKey a f g ⟨.spanGet .maxSpan pubKey e, m⟩
  | setMin : InsertEvent pubKey a f g ⟨.spanSetBatch .minSpan pubKey (minValues f a), ()⟩
  | setMax : InsertEvent pubKey a f g ⟨.spanSetBatch .maxSpan pubKey (maxValues g a), ()⟩

/-- What a call that resolves and records `a` has read and written. -/
structure Inserted (pubKey : BLSPubkey) (a : SlashingProtectionAttestation) (tr : List DbEvent)
    (f g : Nat → Option Nat) : Prop where
  le : a.sourceEpoch ≤ a.targetEpoch
  events : ∀ x ∈ tr, InsertEvent pubKey a f g x
  unused : ⟨.attestationByTargetGet pubKey a.targetEpoch, none⟩ ∈ tr
  minGet : ∃ m : Option Nat, ⟨.spanGet .minSpan pubKey a.sourceEpoch, m⟩ ∈ tr
  maxGet : ∃ m : Option Nat, ⟨.spanGet .maxSpan pubKey a.sourceEpoch, m⟩ ∈ tr
  bound : ∃ b : Option SlashingProtectionLowerBound, ⟨.attestationLowerBoundGet pubKey, b⟩ ∈ tr ∧
    ∀ bound, b = some bound →
      bound.minSourceEpoch ≤ a.sourceEpoch ∧ bound.minTargetEpoch < a.targetEpoch
  minRead : ∀ e, minCut f a.targetEpoch a.sourceEpoch ≤ e + 1 → e < a.sourceEpoch →
    ⟨.spanGet .minSpan pubKey e, f e⟩ ∈ tr
  maxRead : ∀ e, a.sourceEpoch < e → e < a.targetEpoch → e ≤ maxCut g a.targetEpoch (gap a) →
    ⟨.spanGet .maxSpan pubKey e, g e⟩ ∈ tr

theorem Inserted.attestationGet {f g : Nat → Option Nat} (h : Inserted pubKey a tr f g)
    {r : Option SlashingProtectionAttestation}
    (hr : ⟨.attestationByTargetGet pubKey a.targetEpoch, r⟩ ∈ tr) : r = none := by
  cases h.events _ hr
  rfl

theorem Inserted.notSurrounding {f g : Nat → Option Nat} (h : Inserted pubKey a tr f g)
    {m : Option Nat} (hm : ⟨.spanGet .minSpan pubKey a.sourceEpoch, m⟩ ∈ tr) :
    surrounding m a = false := by
  cases h.events _ hm with
  | minGet h => exact h
  | minRead _ h => exact absurd h (lt_irrefl _)

theorem Inserted.notSurrounded {f g : Nat → Option Nat} (h : Inserted pubKey a tr f g)
    {m : Option Nat} (hm : ⟨.spanGet .maxSpan pubKey a.sourceEpoch, m⟩ ∈ tr) :
    surrounded m a = false := by
  cases h.events _ hm with
  | maxGet h => exact h
  | maxRead _ h => exact absurd h (lt_irrefl _)

theorem exec_updateMinSpan (h : Exec (updateMinSpan none pubKey a) tr (.ok ())) :
    ∃ (m : Option Nat) (f : Nat → Option Nat) (reads : List DbEvent),
      tr = ⟨.spanGet .minSpan pubKey a.sourceEpoch, m⟩ ::
        (reads ++ [⟨.spanSetBatch .minSpan pubKey (minValues f a), ()⟩]) ∧
      surrounding m a = false ∧
      (∀ e, minCut f a.targetEpoch a.sourceEpoch ≤ e + 1 → e < a.sourceEpoch →
        ⟨.spanGet .minSpan pubKey e, f e⟩ ∈ reads) ∧
      ∀ x ∈ reads, ∃ e, e < a.sourceEpoch ∧ x.1 = .spanGet .minSpan pubKey e := by
  unfold updateMinSpan at h
  obtain ⟨t₁, t₂, u, rfl, h₁, h₂⟩ := exec_bind_ok.1 h
  obtain ⟨m, rfl, hm⟩ := exec_assertNotSurrounding h₁
  obtain ⟨reads, t₃, vs, rfl, h₃, h₄⟩ := exec_bind_ok.1 h₂
  obtain ⟨f, rfl, hread, hops⟩ := exec_updateMinSpanLoop h₃
  obtain ⟨r, rfl, -⟩ := exec_op.1 h₄
  exact ⟨m, f, reads, rfl, hm, hread, hops⟩

theorem exec_updateMaxSpan (h : Exec (updateMaxSpan pubKey a) tr (.ok ())) :
    ∃ (m : Option Nat) (g : Nat → Option Nat) (reads : List DbEvent),
      tr = ⟨.spanGet .maxSpan pubKey a.sourceEpoch, m⟩ ::
        (reads ++ [⟨.spanSetBatch .maxSpan pubKey (maxValues g a), ()⟩]) ∧
      surrounded m a = false ∧
      (∀ e, a.targetEpoch - gap a ≤ e → e < a.targetEpoch → e ≤ maxCut g a.targetEpoch (gap a) →
        ⟨.spanGet .maxSpan pubKey e, g e⟩ ∈ reads) ∧
      ∀ x ∈ reads, ∃ e, a.targetEpoch - gap a ≤ e ∧ e < a.targetEpoch ∧
        x.1 = .spanGet .maxSpan pubKey e := by
  unfold updateMaxSpan at h
  obtain ⟨t₁, t₂, u, rfl, h₁, h₂⟩ := exec_bind_ok.1 h
  obtain ⟨m, rfl, hm⟩ := exec_assertNotSurrounded h₁
  obtain ⟨reads, t₃, vs, rfl, h₃, h₄⟩ := exec_bind_ok.1 h₂
  obtain ⟨g, rfl, hread, hops⟩ := exec_updateMaxSpanLoop (Nat.sub_le ..) h₃
  obtain ⟨r, rfl, -⟩ := exec_op.1 h₄
  exact ⟨m, g, reads, rfl, hm, hread, hops⟩

theorem exec_checkAndInsertAttestation
    (h : Exec (checkAndInsertAttestation pubKey a) tr (.ok ())) :
    (∃ prev : SlashingProtectionAttestation,
      tr = [⟨.attestationByTargetGet pubKey a.targetEpoch, some prev⟩] ∧
      isEqualNonZeroRoot prev.signingRoot a.signingRoot = true ∧ a.sourceEpoch ≤ a.targetEpoch) ∨
    ∃ f g, Inserted pubKey a tr f g := by
  unfold checkAndInsertAttestation at h
  obtain ⟨t₁, t₂, status, rfl, hcheck, hins⟩ := exec_bind_ok.1 h
  obtain ⟨hle, ⟨rfl, prev, rfl, hroot⟩ | ⟨rfl, m, m', b, rfl, hm, hm', hb⟩⟩ :=
    exec_checkAttestation hcheck
  · obtain ⟨rfl, -⟩ := exec_pure.1 hins
    exact .inl ⟨prev, rfl, hroot, hle⟩
  · right
    rw [if_pos (by decide)] at hins
    obtain ⟨r, t₃, rfl, hspans⟩ := exec_op_bind_ok hins
    obtain ⟨t₄, t₅, u, rfl, hmin, hmax⟩ := exec_bind_ok.1 hspans
    obtain ⟨m₂, f, reads, rfl, hm₂, hread, hops⟩ := exec_updateMinSpan hmin
    obtain ⟨m₃, g, reads', rfl, hm₃, hread', hops'⟩ := exec_updateMaxSpan hmax
    have hgap : gap a = a.targetEpoch - (a.sourceEpoch + 1) := rfl
    refine ⟨f, g, hle, fun x hx => ?_, by simp, ⟨m, by simp⟩, ⟨m', by simp⟩, ⟨b, by simp, hb⟩,
      fun e h₁ h₂ => ?_, fun e h₁ h₂ h₃ => ?_⟩
    · simp only [List.mem_append, List.mem_cons, List.not_mem_nil, or_false] at hx
      rcases hx with (rfl | rfl | rfl | rfl) | rfl | (rfl | hx | rfl) | rfl | hx | rfl
      · exact .unused
      · exact .minGet hm
      · exact .maxGet hm'
      · exact .bound b
      · exact .record
      · exact .minGet hm₂
      · obtain ⟨o, r⟩ := x
        obtain ⟨e, he, rfl⟩ := hops _ hx
        exact .minRead r he
      · exact .setMin
      · exact .maxGet hm₃
      · obtain ⟨o, r⟩ := x
        obtain ⟨e, he, het, rfl⟩ := hops' _ hx
        exact .maxRead r (by omega)
      · exact .setMax
    · simp [hread e h₁ h₂]
    · simp [hread' e (by omega) h₂ h₃]

theorem exec_checkBlockLowerBound {b : SlashingProtectionBlock} {status : SafeStatus}
    (h : Exec (do
        let minBlock ← BlockBySlotRepository.getFirst pubKey
        if let some first := minBlock then
          if b.slot ≤ first.slot then
            throw (.SLOT_LESS_THAN_LOWER_BOUND b.slot first.slot)
        return .OK : Async SafeStatus) tr (.ok status)) :
    status = .OK ∧ ∃ l : List SlashingProtectionBlock,
      tr = [⟨.blockBySlotGetAll pubKey (some 1), l⟩] ∧
      ∀ first, l.head? = some first → first.slot < b.slot := by
  obtain ⟨t₁, t₂, minBlock, rfl, hget, hk⟩ := exec_bind_ok.1 h
  obtain ⟨(l : List SlashingProtectionBlock), t₁, rfl, hl⟩ := exec_op_bind_ok hget
  obtain ⟨rfl, hmin⟩ := exec_pure.1 hl
  cases hmin
  cases hhead : l.head? with
  | none =>
    rw [hhead] at hk
    obtain ⟨rfl, hst⟩ := exec_pure.1 hk
    cases hst
    exact ⟨rfl, l, rfl, by simp [hhead]⟩
  | some first =>
    rw [hhead] at hk
    dsimp only at hk
    split at hk
    · obtain ⟨_, _, _, -, hthrow, -⟩ := exec_bind_ok.1 hk
      cases (exec_throw.1 hthrow).2
    · rename_i hlt
      obtain ⟨rfl, hst⟩ := exec_pure.1 hk
      cases hst
      exact ⟨rfl, l, rfl, by simpa [hhead] using hlt⟩

theorem exec_checkAndInsertBlockProposal {b : SlashingProtectionBlock}
    (h : Exec (checkAndInsertBlockProposal pubKey b) tr (.ok ())) :
    (∃ prev : SlashingProtectionBlock, tr = [⟨.blockBySlotGet pubKey b.slot, some prev⟩] ∧
      b.slot = prev.slot ∧ isEqualNonZeroRoot prev.signingRoot b.signingRoot = true) ∨
    ∃ (r : Option SlashingProtectionBlock) (l : List SlashingProtectionBlock),
      tr = [⟨.blockBySlotGet pubKey b.slot, r⟩, ⟨.blockBySlotGetAll pubKey (some 1), l⟩,
        ⟨.blockBySlotSet pubKey [b], ()⟩] ∧
      (∀ prev, r = some prev → b.slot ≠ prev.slot) ∧
      ∀ first, l.head? = some first → first.slot < b.slot := by
  unfold checkAndInsertBlockProposal at h
  obtain ⟨t₁, t₂, status, rfl, hcheck, hins⟩ := exec_bind_ok.1 h
  unfold checkBlockProposal at hcheck
  obtain ⟨(r : Option SlashingProtectionBlock), t₁, rfl, hk⟩ := exec_op_bind_ok hcheck
  have hrecord : ∀ {t}, Exec (insertBlockProposal pubKey b) t (.ok ()) →
      t = [⟨.blockBySlotSet pubKey [b], ()⟩] := fun ht => by
    obtain ⟨u, rfl, -⟩ := exec_op.1 ht
    rfl
  cases r with
  | none =>
    obtain ⟨rfl, l, rfl, hl⟩ := exec_checkBlockLowerBound hk
    rw [if_pos (by decide)] at hins
    rw [hrecord hins]
    exact .inr ⟨none, l, rfl, by simp, hl⟩
  | some prev =>
    dsimp only at hk
    split at hk
    · rename_i hslot
      split at hk
      · rename_i hroot
        obtain ⟨rfl, hst⟩ := exec_pure.1 hk
        cases hst
        obtain ⟨rfl, -⟩ := exec_pure.1 hins
        exact .inl ⟨prev, rfl, hslot, hroot⟩
      · obtain ⟨_, _, _, -, hthrow, -⟩ := exec_bind_ok.1 hk
        cases (exec_throw.1 hthrow).2
    · rename_i hslot
      obtain ⟨rfl, l, rfl, hl⟩ := exec_checkBlockLowerBound hk
      rw [if_pos (by decide)] at hins
      rw [hrecord hins]
      refine .inr ⟨some prev, l, rfl, fun p hp => ?_, hl⟩
      cases hp
      exact hslot

end Lodestar.SlashingProtection
