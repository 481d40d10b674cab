import Lodestar.Base.Best
import Lodestar.LightClient.Server
import Mathlib.Data.Finset.Max
import Mathlib.Data.Multiset.Basic

/-!
# The best update of a period

The stored update of a period is what `keepAll` leaves of the pairs that were
offered. The test it exchanges them by is not an order: a finalized majority
replaces what is not finalized, and has no such protection once it is stored.
`Orderly` says which offers come to the same, and to the best, in any order.
-/

namespace Lodestar.LightClient

open Lodestar.Base Lodestar.StateTransition

section Main

variable [Preset] {headers : Repository Root BeaconBlockHeader} {prev next signed : SignedData}

/-! ## Offered pairs -/

namespace SignedData

def period (signed : SignedData) : Nat :=
  computeSyncPeriodAtSlot signed.attestedData.attestedHeader.slot

/-- The update made of the pair if the finalized headers that can be read are `headers`. -/
def update (headers : Repository Root BeaconBlockHeader) (signed : SignedData) :
    PartialLightClientUpdate where
  attestedHeader := signed.attestedData.attestedHeader
  blockRoot := signed.attestedData.blockRoot
  finality := signed.attestedData.finality.bind fun finality =>
    (headers finality.finalizedCheckpoint.root).map fun header => ⟨finality, header⟩
  syncAggregate := signed.syncAggregate

def stored (headers : Repository Root BeaconBlockHeader) (signed : SignedData) :
    LightclientUpdateStats :=
  (signed.update headers).stats

/-- The update made of `next` replaces the one made of `prev`. -/
def replacedBy (headers : Repository Root BeaconBlockHeader) (prev next : SignedData) : Bool :=
  (prev.stored headers).isBetterUpdate next.stats

theorem isFinalized_of_stored (h : (signed.stored headers).isFinalized = true) :
    signed.stats.isFinalized = true := by
  obtain ⟨_, hf⟩ := Option.isSome_iff_exists.mp h
  obtain ⟨_, hb, _⟩ := Option.bind_eq_some_iff.mp hf
  exact Option.isSome_iff_exists.mpr ⟨_, hb⟩

theorem supermajority_stored : (signed.stored headers).Supermajority ↔
    (signed.stored headers).isFinalized = true ∧ signed.stats.Supermajority :=
  ⟨fun h => ⟨h.1, isFinalized_of_stored h.1, h.2⟩, fun h => ⟨h.1, h.2.2⟩⟩

theorem replacedBy_iff : prev.replacedBy headers next = true ↔
    ((prev.stored headers).isFinalized = false ∧ next.stats.Supermajority) ∨
      prev.stats.weight < next.stats.weight :=
  LightclientUpdateStats.isBetterUpdate_iff

theorem weight_lt_of_supermajority (hprev : (prev.stored headers).isFinalized = true)
    (hs : ¬ (prev.stored headers).Supermajority) (hnext : next.stats.Supermajority) :
    prev.stats.weight < next.stats.weight := by
  have hp : ¬ prev.stats.participation * 3 > SYNC_COMMITTEE_SIZE * 2 := fun hgt => hs ⟨hprev, hgt⟩
  have hn := hnext.2
  rw [LightclientUpdateStats.weight_lt_iff]
  omega

theorem replacedBy_of_supermajority (hs : ¬ (prev.stored headers).Supermajority)
    (hnext : next.stats.Supermajority) : prev.replacedBy headers next = true := by
  rw [replacedBy_iff]
  cases hprev : (prev.stored headers).isFinalized with
  | false => exact .inl ⟨rfl, hnext⟩
  | true => exact .inr (weight_lt_of_supermajority hprev hs hnext)

end SignedData

/-! ## What is left of a sequence -/

open SignedData

variable {l : List SignedData} {updates : Multiset SignedData}

/-- A majority that the header is known of leads by the weight too, and so does each of the
others if there is no such one. -/
structure Orderly (headers : Repository Root BeaconBlockHeader)
    (updates : Multiset SignedData) : Prop where
  leads : (∃ x ∈ updates, (x.stored headers).Supermajority) →
    ∃ s ∈ updates, (s.stored headers).Supermajority ∧
      ∀ x ∈ updates, x.stats.weight ≤ s.stats.weight
  leads_unavailable : (∀ x ∈ updates, ¬ (x.stored headers).Supermajority) →
    ∀ u ∈ updates, u.stats.Supermajority → ∀ x ∈ updates, x.stats.weight ≤ u.stats.weight

theorem exists_weight_max (h : l ≠ []) : ∃ t ∈ l, ∀ x ∈ l, x.stats.weight ≤ t.stats.weight := by
  have hne : l.toFinset.Nonempty := List.toFinset_nonempty_iff l |>.mpr h
  obtain ⟨t, ht, hmax⟩ := l.toFinset.exists_max_image (fun x => x.stats.weight) hne
  exact ⟨t, List.mem_toFinset.mp ht, fun x hx => hmax x (List.mem_toFinset.mpr hx)⟩

theorem keepAll_of_leads {s : SignedData} (hs : s ∈ l) (hsuper : (s.stored headers).Supermajority)
    (hlead : ∀ x ∈ l, x.stats.weight ≤ s.stats.weight) :
    ∃ z, keepAll (replacedBy headers) none l = some z ∧
      (z.stored headers).Supermajority ∧ ∀ x ∈ l, x.stats.weight ≤ z.stats.weight := by
  apply keepAll_of_take (x := s)
  · rintro x hx y ⟨hy, hmax⟩ hb
    rcases replacedBy_iff.mp hb with ⟨hn, _⟩ | hlt
    · exact absurd hy.1 (by rw [hn]; exact Bool.false_ne_true)
    · exact absurd hlt (hmax x hx).not_gt
  · exact hs
  · exact ⟨hsuper, hlead⟩
  · rintro y _ hn
    by_cases hy : (y.stored headers).Supermajority
    · have : ∃ x ∈ l, y.stats.weight < x.stats.weight := by
        by_contra hall
        exact hn ⟨hy, fun x hx => not_lt.mp fun hlt => hall ⟨x, hx, hlt⟩⟩
      obtain ⟨x, hx, hlt⟩ := this
      exact replacedBy_iff.mpr (.inr (hlt.trans_le (hlead x hx)))
    · exact replacedBy_of_supermajority hy (supermajority_stored.mp hsuper).2

theorem keepAll_of_none (hne : l ≠ [])
    (hlead : ∀ u ∈ l, u.stats.Supermajority → ∀ x ∈ l, x.stats.weight ≤ u.stats.weight) :
    ∃ z, keepAll (replacedBy headers) none l = some z ∧
      ∀ x ∈ l, x.stats.weight ≤ z.stats.weight := by
  obtain ⟨t, ht, hmax⟩ := exists_weight_max hne
  apply keepAll_of_take (x := t)
  · rintro x hx y hy hb
    rcases replacedBy_iff.mp hb with ⟨_, hsuper⟩ | hlt
    · exact hlead x hx hsuper
    · exact absurd hlt (hy x hx).not_gt
  · exact ht
  · exact hmax
  · rintro y _ hn
    have : ∃ x ∈ l, y.stats.weight < x.stats.weight := by
      by_contra hall
      exact hn fun x hx => not_lt.mp fun hlt => hall ⟨x, hx, hlt⟩
    obtain ⟨x, hx, hlt⟩ := this
    exact replacedBy_iff.mpr (.inr (hlt.trans_le (hmax x hx)))

theorem keepAll_best (h : Orderly headers l) (hne : l ≠ []) :
    ∃ z, keepAll (replacedBy headers) none l = some z ∧
      ∀ x ∈ l, (x.stored headers).goodness ≤ (z.stored headers).goodness := by
  by_cases hex : ∃ x ∈ l, (x.stored headers).Supermajority
  · obtain ⟨s, hs, hsuper, hlead⟩ := h.leads hex
    obtain ⟨z, hz, hzs, hmax⟩ := keepAll_of_leads hs hsuper hlead
    refine ⟨z, hz, fun x hx => LightclientUpdateStats.goodness_le_iff.mpr ?_⟩
    by_cases hx' : (x.stored headers).Supermajority
    · exact .inr ⟨iff_of_true hx' hzs, hmax x hx⟩
    · exact .inl ⟨hx', hzs⟩
  · have hnone : ∀ x ∈ l, ¬ (x.stored headers).Supermajority := fun x hx hs => hex ⟨x, hx, hs⟩
    obtain ⟨z, hz, hmax⟩ := keepAll_of_none hne (h.leads_unavailable hnone)
    have hzl : z ∈ l := (mem_of_keepAll hz).resolve_left (by simp)
    refine ⟨z, hz, fun x hx => LightclientUpdateStats.goodness_le_iff.mpr (.inr ⟨?_, hmax x hx⟩)⟩
    exact iff_of_false (hnone x hx) (hnone z hzl)

/-! ## Orders that go wrong -/

theorem exists_perm_of_not_leads (hex : ∃ x ∈ l, (x.stored headers).Supermajority)
    (hn : ¬ ∃ s ∈ l, (s.stored headers).Supermajority ∧ ∀ x ∈ l, x.stats.weight ≤ s.stats.weight) :
    ∃ l', l'.Perm l ∧ ∃ z, keepAll (replacedBy headers) none l' = some z ∧
      ¬ (z.stored headers).Supermajority := by
  let strong : SignedData → Bool := fun x => decide (x.stored headers).Supermajority
  have hne : l ≠ [] := by
    rintro rfl
    obtain ⟨x, hx, _⟩ := hex
    exact List.not_mem_nil hx
  obtain ⟨t, ht, hmax⟩ := exists_weight_max hne
  have houtweighs : ∀ y ∈ l, (y.stored headers).Supermajority → y.stats.weight < t.stats.weight := by
    intro y hy hsuper
    apply lt_of_not_ge
    intro hle
    exact hn ⟨y, hy, hsuper, fun x hx => (hmax x hx).trans hle⟩
  have htn : ¬ (t.stored headers).Supermajority := fun hs => lt_irrefl _ (houtweighs t ht hs)
  refine ⟨l.filter strong ++ l.filter (fun x => !strong x), List.filter_append_perm strong l, ?_⟩
  rw [keepAll_append]
  apply keepAll_of_take (x := t)
  · intro x hx _ _ _
    simpa [strong] using (List.mem_filter.mp hx).2
  · exact List.mem_filter.mpr ⟨ht, by simpa [strong] using htn⟩
  · exact htn
  · rintro y (hy | hy) hs
    · have hyl := (mem_of_keepAll hy).resolve_left (by simp)
      exact replacedBy_iff.mpr (.inr (houtweighs y (List.mem_filter.mp hyl).1 (not_not.mp hs)))
    · exact absurd (by simpa [strong] using (List.mem_filter.mp hy).2) hs

theorem exists_perm_of_not_leads_unavailable {u x : SignedData}
    (hnone : ∀ x ∈ l, ¬ (x.stored headers).Supermajority) (hu : u ∈ l)
    (hsuper : u.stats.Supermajority) (hx : x ∈ l) (hlt : u.stats.weight < x.stats.weight) :
    ∃ l', l'.Perm l ∧ keepAll (replacedBy headers) none l' = some u := by
  have hxu : x ≠ u := by
    rintro rfl
    exact lt_irrefl _ hlt
  have hne : l.erase u ≠ [] := List.ne_nil_of_mem ((List.mem_erase_of_ne hxu).mpr hx)
  obtain ⟨y, hy⟩ : ∃ y, keepAll (replacedBy headers) none (l.erase u) = some y :=
    exists_keepAll (.inr hne)
  have hyl : y ∈ l := List.mem_of_mem_erase ((mem_of_keepAll hy).resolve_left (by simp))
  refine ⟨l.erase u ++ [u], ?_, ?_⟩
  · exact (List.perm_append_singleton _ _).trans (List.perm_cons_erase hu).symm
  · rw [keepAll_append, hy, keepAll_cons, keepAll_nil]
    exact keep_of_better (replacedBy_of_supermajority (hnone y hyl) hsuper)

theorem orderly_of_keepAll (h : ∀ l : List SignedData, (l : Multiset SignedData) = updates →
    ∀ x ∈ l, ∃ z, keepAll (replacedBy headers) none l = some z ∧
      (x.stored headers).goodness ≤ (z.stored headers).goodness) : Orderly headers updates := by
  induction updates using Quotient.inductionOn with
  | h l =>
    constructor
    · intro hex
      by_contra hn
      obtain ⟨l', hperm, z, hz, hzn⟩ := exists_perm_of_not_leads hex hn
      obtain ⟨x, hx, hxs⟩ := hex
      obtain ⟨z', hz', hle⟩ := h l' (Quotient.sound hperm) x (hperm.mem_iff.mpr hx)
      obtain rfl : z = z' := Option.some.inj (hz.symm.trans hz')
      rcases LightclientUpdateStats.goodness_le_iff.mp hle with hlt | heq
      · exact hlt.1 hxs
      · exact hzn (heq.1.mp hxs)
    · intro hnone u hu hsuper x hx
      by_contra hlt
      obtain ⟨l', hperm, hz⟩ :=
        exists_perm_of_not_leads_unavailable hnone hu hsuper hx (not_le.mp hlt)
      obtain ⟨z, hz', hle⟩ := h l' (Quotient.sound hperm) x (hperm.mem_iff.mpr hx)
      obtain rfl : u = z := Option.some.inj (hz.symm.trans hz')
      rcases LightclientUpdateStats.goodness_le_iff.mp hle with hs | heq
      · exact hnone u hu hs.2
      · exact hlt heq.2

/-! ## The server -/

namespace LightClientServer

variable {this : LightClientServer}

/-- The cached headers are those of the database. -/
def CacheAgrees (this : LightClientServer) : Prop :=
  ∀ root header, this.checkpointHeaders.get root = some header →
    this.db.checkpointHeader root = some header

/-- The cache does not show, and is all that a look-up changes. -/
theorem getFinalizedHeader_eq (h : this.CacheAgrees) (root : Root) :
    (this.getFinalizedHeader root).1 = this.db.checkpointHeader root ∧
      (this.getFinalizedHeader root).2.db = this.db ∧
      (this.getFinalizedHeader root).2.CacheAgrees := by
  unfold getFinalizedHeader
  cases hc : this.checkpointHeaders.get root with
  | some header => exact ⟨(h root header hc).symm, rfl, h⟩
  | none =>
    cases hd : this.db.checkpointHeader root with
    | none => exact ⟨rfl, rfl, h⟩
    | some header =>
      refine ⟨rfl, rfl, fun root' header' hg => ?_⟩
      have hg := OrderedMap.get_of_get_pruneToMax hg
      rw [OrderedMap.get_set] at hg
      split_ifs at hg with heq
      · rw [heq, ← hg]
        exact hd
      · exact h root' header' hg

theorem newPartialUpdate_eq (h : this.CacheAgrees) (signed : SignedData) :
    (this.newPartialUpdate signed.syncAggregate signed.attestedData).1 =
        signed.update this.db.checkpointHeader ∧
      (this.newPartialUpdate signed.syncAggregate signed.attestedData).2.db = this.db ∧
      (this.newPartialUpdate signed.syncAggregate signed.attestedData).2.CacheAgrees := by
  unfold newPartialUpdate SignedData.update
  cases hf : signed.attestedData.finality with
  | none => exact ⟨rfl, rfl, h⟩
  | some finality =>
    obtain ⟨hheader, hdb, hcache⟩ := getFinalizedHeader_eq h finality.finalizedCheckpoint.root
    refine ⟨?_, hdb, hcache⟩
    simp only [hheader, Option.bind_some]

/-- The pair is offered to the server. -/
def offer (this : LightClientServer) (signed : SignedData) : LightClientServer :=
  this.maybeStoreNewBestPartialUpdate signed.syncAggregate signed.attestedData

def offerAll (this : LightClientServer) (l : List SignedData) : LightClientServer :=
  l.foldl offer this

theorem offer_eq (h : this.CacheAgrees) (best : Option SignedData)
    (hbest : this.db.bestPartialLightClientUpdate signed.period =
      best.map (·.update this.db.checkpointHeader)) :
    (this.offer signed).CacheAgrees ∧
      (this.offer signed).db.checkpointHeader = this.db.checkpointHeader ∧
      (this.offer signed).db.bestPartialLightClientUpdate signed.period =
        (keep (replacedBy this.db.checkpointHeader) best signed).map
          (·.update this.db.checkpointHeader) := by
  have hkeeps : this.keepsBestPartialUpdate signed.syncAggregate signed.attestedData = true ↔
      ∃ prev, best = some prev ∧ prev.replacedBy this.db.checkpointHeader signed = false := by
    have hbest' : this.db.bestPartialLightClientUpdate
        (computeSyncPeriodAtSlot signed.attestedData.attestedHeader.slot) = _ := hbest
    unfold keepsBestPartialUpdate
    rw [hbest']
    cases best with
    | none => simp
    | some prev => simp [isBetterUpdate_eq, replacedBy, stored]
  unfold offer maybeStoreNewBestPartialUpdate
  split_ifs with hk
  · obtain ⟨prev, rfl, hprev⟩ := hkeeps.mp hk
    refine ⟨h, rfl, ?_⟩
    rw [hbest, keep_of_not_better (by simp [hprev])]
  · obtain ⟨hnew, hdb, hcache⟩ := newPartialUpdate_eq h signed
    refine ⟨fun root header hg => hcache root header hg, ?_, ?_⟩
    · show (this.newPartialUpdate signed.syncAggregate signed.attestedData).2.db.checkpointHeader = _
      rw [hdb]
    · have hkeep : keep (replacedBy this.db.checkpointHeader) best signed = some signed := by
        cases best with
        | none => rfl
        | some prev =>
          apply keep_of_better
          by_contra hn
          exact hk (hkeeps.mpr ⟨prev, rfl, Bool.eq_false_iff.mpr hn⟩)
      rw [hkeep]
      show Repository.put _ signed.period _ signed.period = _
      rw [Repository.put_self, hnew]
      rfl

theorem offerAll_best {period : Nat} (h : this.CacheAgrees) (hl : ∀ signed ∈ l, signed.period = period)
    (best : Option SignedData)
    (hbest : this.db.bestPartialLightClientUpdate period =
      best.map (·.update this.db.checkpointHeader)) :
    (this.offerAll l).db.bestPartialLightClientUpdate period =
      (keepAll (replacedBy this.db.checkpointHeader) best l).map
        (·.update this.db.checkpointHeader) := by
  induction l generalizing this best with
  | nil => exact hbest
  | cons signed l ih =>
    obtain ⟨hsigned, hl⟩ := List.forall_mem_cons.mp hl
    subst hsigned
    obtain ⟨hcache, hheader, hkeep⟩ := offer_eq h best hbest
    rw [keepAll_cons, ← hheader]
    exact ih hcache hl _ (hheader ▸ hkeep)

/-- Whatever the order, the stored updates are as good as each other, and as any the server makes
of one of the pairs. -/
def StoresBest (this : LightClientServer) (period : Nat) (updates : Multiset SignedData) : Prop :=
  (∀ l l' : List SignedData, (l : Multiset SignedData) = updates →
    (l' : Multiset SignedData) = updates →
    ((this.offerAll l).db.bestPartialLightClientUpdate period).map (·.stats.goodness) =
      ((this.offerAll l').db.bestPartialLightClientUpdate period).map (·.stats.goodness)) ∧
  ∀ l : List SignedData, (l : Multiset SignedData) = updates → ∀ x ∈ l,
    ∃ best, (this.offerAll l).db.bestPartialLightClientUpdate period = some best ∧
      (this.newPartialUpdate x.syncAggregate x.attestedData).1.stats.goodness ≤ best.stats.goodness

theorem storesBest_iff {period : Nat} (hcache : this.CacheAgrees)
    (hfresh : this.db.bestPartialLightClientUpdate period = none)
    (hperiod : ∀ signed ∈ updates, signed.period = period) :
    this.StoresBest period updates ↔ Orderly this.db.checkpointHeader updates := by
  have hoffer : ∀ l : List SignedData, (l : Multiset SignedData) = updates →
      (this.offerAll l).db.bestPartialLightClientUpdate period =
        (keepAll (replacedBy this.db.checkpointHeader) none l).map
          (·.update this.db.checkpointHeader) := by
    rintro l rfl
    exact offerAll_best hcache hperiod none hfresh
  constructor
  · rintro ⟨_, hmax⟩
    apply orderly_of_keepAll
    intro l hl x hx
    obtain ⟨best, hbest, hle⟩ := hmax l hl x hx
    rw [hoffer l hl, Option.map_eq_some_iff] at hbest
    obtain ⟨z, hz, rfl⟩ := hbest
    rw [(newPartialUpdate_eq hcache x).1] at hle
    exact ⟨z, hz, hle⟩
  · intro h
    have hbest : ∀ l : List SignedData, (l : Multiset SignedData) = updates → l ≠ [] →
        ∃ z ∈ l, (this.offerAll l).db.bestPartialLightClientUpdate period =
          some (z.update this.db.checkpointHeader) ∧ ∀ x ∈ l,
            (x.stored this.db.checkpointHeader).goodness ≤
              (z.stored this.db.checkpointHeader).goodness := by
      rintro l rfl hne
      obtain ⟨z, hz, hmax⟩ := keepAll_best h hne
      refine ⟨z, (mem_of_keepAll hz).resolve_left (by simp), ?_, hmax⟩
      rw [hoffer l rfl, hz]
      rfl
    constructor
    · intro l l' hl hl'
      have hperm : l.Perm l' := Quotient.exact (hl.trans hl'.symm)
      rcases eq_or_ne l [] with rfl | hne
      · rw [hperm.nil_eq]
      · have hne' : l' ≠ [] := fun h => hne (h ▸ hperm).eq_nil
        obtain ⟨z, hzl, hz, hmax⟩ := hbest l hl hne
        obtain ⟨z', hzl', hz', hmax'⟩ := hbest l' hl' hne'
        rw [hz, hz']
        apply congrArg some
        apply le_antisymm
        · exact hmax' z (hperm.mem_iff.mp hzl)
        · exact hmax z' (hperm.mem_iff.mpr hzl')
    · intro l hl x hx
      obtain ⟨z, _, hz, hmax⟩ := hbest l hl (List.ne_nil_of_mem hx)
      refine ⟨_, hz, ?_⟩
      rw [(newPartialUpdate_eq hcache x).1]
      exact hmax x hx

theorem cacheAgrees_new (db : LightClientDb) : (new db).CacheAgrees :=
  fun _ _ h => absurd h (by simp [new])

end LightClientServer

end Main

/-! ## A majority that is given up -/

attribute [local instance] minimal

namespace LightClientServer

/-- 22 of 32 members sign a header whose state has finalized the block at slot 8. -/
def majority : SignedData where
  syncAggregate := ⟨Vector.ofFn fun i => i.val < 22, 0⟩
  attestedData := ⟨⟨24, 0, 0x17, 0, 0⟩, 0x18, some ⟨Vector.replicate _ 0, ⟨1, 0x8⟩⟩⟩

/-- 23 members sign a header from before. -/
def fuller : SignedData where
  syncAggregate := ⟨Vector.ofFn fun i => i.val < 23, 0⟩
  attestedData := ⟨⟨10, 0, 0x9, 0, 0⟩, 0xa, none⟩

def checkpointServer : LightClientServer :=
  new { LightClientDb.empty with
    checkpointHeader := Repository.empty.put 0x8 ⟨8, 0, 0x7, 0, 0⟩ }

theorem not_storesBest_majority : ¬ checkpointServer.StoresBest 0 {majority, fuller} := by
  intro h
  have heq := h.1 [majority, fuller] [fuller, majority] rfl (Quotient.sound (List.Perm.swap ..))
  revert heq
  decide +kernel

theorem storesBest_iff_majority : checkpointServer.StoresBest 0 {majority, fuller} ↔
    Orderly checkpointServer.db.checkpointHeader {majority, fuller} := by
  apply storesBest_iff (cacheAgrees_new _) rfl
  intro signed h
  rcases Multiset.mem_cons.mp h with rfl | h
  · rfl
  · rw [Multiset.mem_singleton.mp h]
    rfl

end LightClientServer

end Lodestar.LightClient
