import Lodestar.Base.ModifyAt
import Lodestar.Base.OrderedMap
import Mathlib.Data.List.TakeWhile
import Mathlib.Tactic

/-!
# Rate limits

`RateTracker` of `network/reqresp/rateTracker.ts`: what is granted is counted by
the second it is granted in. Within a call `Date.now()` gives one time, in
milliseconds.
-/

namespace Lodestar.ReqResp

open Lodestar.Base

def BUCKET_SIZE_MS : Nat := 1000

structure RateTrackerOpts where
  limit : Nat
  timeoutMs : Nat

/-- `requests` has the objects of each second. -/
structure RateTracker where
  requestsWithinWindow : Int
  requests : OrderedMap Nat Int

namespace RateTracker

variable (opts : RateTrackerOpts)

def empty : RateTracker := ⟨0, .empty⟩

/-- Whether `prune` lets go of a second. -/
def isOld (now timeInSec : Nat) : Bool :=
  (now : Int) - timeInSec * BUCKET_SIZE_MS ≥ opts.timeoutMs

/-- The loop of `prune`. -/
def pruneEntries (now : Nat) : List (Nat × Int) → RateTracker → RateTracker
  | [], this => this
  | (timeInSec, count) :: entries, this =>
    if isOld opts now timeInSec then
      pruneEntries now entries
        { requestsWithinWindow := this.requestsWithinWindow - count
          requests := this.requests.delete timeInSec }
    else this

def prune (this : RateTracker) (now : Nat) : RateTracker :=
  let this := pruneEntries opts now this.requests.entries this
  if this.requestsWithinWindow < 0 then { this with requestsWithinWindow := 0 } else this

/-- What is granted, and the tracker; a refused request is granted nothing. -/
def requestObjects (this : RateTracker) (now : Nat) (objectCount : Int) :
    Except String (Int × RateTracker) :=
  if objectCount ≤ 0 then .error ("Invalid objectCount " ++ toString objectCount)
  else
    let this := this.prune opts now
    if this.requestsWithinWindow ≥ opts.limit then .ok (0, this)
    else
      let key := now / BUCKET_SIZE_MS
      let curObjectCount := (this.requests.get key).getD 0
      .ok (objectCount,
        { requestsWithinWindow := this.requestsWithinWindow + objectCount
          requests := this.requests.set key (curObjectCount + objectCount) })

end RateTracker

/-! ## Runs -/

structure RateCall where
  now : Nat
  objectCount : Int

/-- What was granted, and when. -/
structure Grant where
  time : Nat
  objectCount : Int
  deriving DecidableEq

/-- A tracker with what it has granted. -/
structure RateRun where
  tracker : RateTracker
  granted : List Grant

variable (opts : RateTrackerOpts)

/-- A call that throws changes nothing. -/
def RateRun.step (run : RateRun) (call : RateCall) : RateRun :=
  match run.tracker.requestObjects opts call.now call.objectCount with
  | .error _ => run
  | .ok (objectCount, tracker) =>
    { tracker
      granted := if objectCount = 0 then run.granted else run.granted ++ [⟨call.now, objectCount⟩] }

/-- The objects of the grants that `p` holds of. -/
def grantedWhere (p : Grant → Bool) (granted : List Grant) : Int :=
  ((granted.filter p).map (·.objectCount)).sum

/-- Whether the second of a grant starts within the window at `now`. -/
def Grant.inLaterSecond (now : Nat) (grant : Grant) : Bool :=
  (now : Int) - opts.timeoutMs < (grant.time / BUCKET_SIZE_MS * BUCKET_SIZE_MS : Nat)

/-- The objects of the seconds that `p` holds of. -/
def countedWhere (p : Nat → Bool) (entries : List (Nat × Int)) : Int :=
  ((entries.filter (p ·.1)).map (·.2)).sum

theorem countedWhere_cons (p : Nat → Bool) (entry : Nat × Int) (entries : List (Nat × Int)) :
    countedWhere p (entry :: entries)
      = (if p entry.1 then entry.2 else 0) + countedWhere p entries := by
  unfold countedWhere
  by_cases h : p entry.1 = true <;> simp [h]

theorem countedWhere_true (entries : List (Nat × Int)) :
    countedWhere (fun _ => true) entries = (entries.map (·.2)).sum := by
  rw [countedWhere, List.filter_true]

theorem countedWhere_append (p : Nat → Bool) (entries later : List (Nat × Int)) :
    countedWhere p (entries ++ later) = countedWhere p entries + countedWhere p later := by
  simp only [countedWhere, List.filter_append, List.map_append, List.sum_append]

theorem grantedWhere_append (p : Grant → Bool) (granted later : List Grant) :
    grantedWhere p (granted ++ later) = grantedWhere p granted + grantedWhere p later := by
  simp only [grantedWhere, List.filter_append, List.map_append, List.sum_append]

theorem grantedWhere_singleton (p : Grant → Bool) (grant : Grant) :
    grantedWhere p [grant] = if p grant then grant.objectCount else 0 := by
  unfold grantedWhere
  by_cases h : p grant = true <;> simp [h]

theorem countedWhere_replaced (p : Nat → Bool) {entries : List (Nat × Int)}
    (hnodup : (entries.map Prod.fst).Nodup) {key : Nat} {old : Int} (hmem : (key, old) ∈ entries)
    (objectCount : Int) :
    countedWhere p (OrderedMap.replaced entries key (old + objectCount))
      = countedWhere p entries + if p key then objectCount else 0 := by
  induction entries with
  | nil => cases hmem
  | cons entry entries ih =>
    obtain ⟨hnew, hnodup⟩ := List.nodup_cons.mp hnodup
    rw [OrderedMap.replaced, List.map_cons, countedWhere_cons, countedWhere_cons]
    rcases List.mem_cons.mp hmem with rfl | hlater
    · have hrest : entries.map (fun e => if e.1 = key then (key, old + objectCount) else e)
          = entries.map id :=
        List.map_congr_left fun e he =>
          if_neg fun heq => hnew (List.mem_map.mpr ⟨e, he, heq⟩)
      rw [if_pos rfl, hrest, List.map_id]
      split_ifs <;> ring
    · have hne : entry.1 ≠ key := fun heq => hnew (heq ▸ List.mem_map_of_mem hlater)
      have := ih hnodup hlater
      rw [OrderedMap.replaced] at this
      rw [if_neg hne, this]
      ring

theorem countedWhere_set (p : Nat → Bool) (requests : OrderedMap Nat Int) (key : Nat)
    (objectCount : Int) :
    countedWhere p (requests.set key ((requests.get key).getD 0 + objectCount)).entries
      = countedWhere p requests.entries + if p key then objectCount else 0 := by
  by_cases hkey : key ∈ requests.keys
  · obtain ⟨old, hget⟩ := Option.ne_none_iff_exists'.mp (OrderedMap.mem_keys_iff.mp hkey)
    rw [hget, Option.getD_some, OrderedMap.set, dif_pos hkey]
    exact countedWhere_replaced p requests.nodup (OrderedMap.get_eq_some_iff.mp hget) objectCount
  · rw [OrderedMap.get_eq_none_iff.mpr hkey, Option.getD_none, zero_add, OrderedMap.set,
      dif_neg hkey, countedWhere_append, countedWhere_cons]
    exact congrArg _ (add_zero _)

namespace RateTracker

variable {opts} {this : RateTracker}

/-- The seconds in order, the objects of each, and their sum. -/
structure WellFormed (this : RateTracker) : Prop where
  sorted : this.requests.keys.Pairwise (· < ·)
  positive : ∀ count ∈ this.requests.values, 0 < count
  total : this.requestsWithinWindow = this.requests.values.sum

theorem entries_pruneEntries (now : Nat) {entries : List (Nat × Int)} {this : RateTracker}
    (h : this.requests.entries = entries) :
    (pruneEntries opts now entries this).requests.entries
        = entries.dropWhile (isOld opts now ·.1) ∧
      (pruneEntries opts now entries this).requestsWithinWindow
        = this.requestsWithinWindow
          - ((entries.takeWhile (isOld opts now ·.1)).map (·.2)).sum := by
  induction entries generalizing this with
  | nil => exact ⟨h, (sub_zero _).symm⟩
  | cons entry entries ih =>
    obtain ⟨timeInSec, count⟩ := entry
    rw [pruneEntries, List.dropWhile_cons, List.takeWhile_cons]
    by_cases hold : isOld opts now timeInSec = true
    · have hnodup := this.requests.nodup
      rw [h] at hnodup
      have hnew := (List.nodup_cons.mp hnodup).1
      have hentries : (this.requests.delete timeInSec).entries = entries := by
        show this.requests.entries.filter (·.1 ≠ timeInSec) = entries
        rw [h, List.filter_cons_of_neg (by simp), List.filter_eq_self]
        exact fun entry hentry => decide_eq_true fun heq =>
          hnew (List.mem_map.mpr ⟨entry, hentry, heq⟩)
      obtain ⟨hdrop, htake⟩ :=
        @ih ⟨this.requestsWithinWindow - count, this.requests.delete timeInSec⟩ hentries
      simp only [hold, if_true, List.map_cons, List.sum_cons]
      refine ⟨hdrop, htake.trans ?_⟩
      ring
    · simp only [if_neg hold]
      exact ⟨h, (sub_zero _).symm⟩

theorem isOld_iff {now timeInSec : Nat} :
    isOld opts now timeInSec = true ↔ timeInSec * 1000 + opts.timeoutMs ≤ now := by
  unfold isOld BUCKET_SIZE_MS
  rw [decide_eq_true_iff]
  omega

theorem isOld_of_le {now timeInSec later : Nat} (hle : timeInSec ≤ later)
    (h : isOld opts now later = true) : isOld opts now timeInSec = true :=
  isOld_iff.mpr <| (Nat.add_le_add_right (Nat.mul_le_mul_right 1000 hle) _).trans (isOld_iff.mp h)

theorem WellFormed.dropWhile_isOld (h : WellFormed this) (now : Nat) :
    this.requests.entries.dropWhile (isOld opts now ·.1)
      = this.requests.entries.filter (!isOld opts now ·.1) := by
  have hsorted : this.requests.entries.Pairwise fun a b => decide (a.1 ≤ b.1) = true :=
    (List.pairwise_map.mp h.sorted).imp fun hlt => decide_eq_true hlt.le
  have hbelow : ∀ a ∈ this.requests.entries, ∀ b ∈ this.requests.entries,
      decide (a.1 ≤ b.1) = true → isOld opts now b.1 = true → isOld opts now a.1 = true :=
    fun _ _ _ _ hle => isOld_of_le (of_decide_eq_true hle)
  rw [← drop_eq_filter_not hsorted hbelow, ← takeWhile_eq_filter hsorted hbelow]
  have hsplit := @List.drop_left _ (this.requests.entries.takeWhile (isOld opts now ·.1))
    (this.requests.entries.dropWhile (isOld opts now ·.1))
  rw [List.takeWhile_append_dropWhile] at hsplit
  exact hsplit.symm

theorem WellFormed.entries_prune (h : WellFormed this) (now : Nat) :
    (this.prune opts now).requests.entries
      = this.requests.entries.filter (!isOld opts now ·.1) := by
  have hentries := (@entries_pruneEntries opts now _ this rfl).1
  rw [h.dropWhile_isOld] at hentries
  unfold RateTracker.prune
  dsimp only
  split_ifs <;> exact hentries

theorem WellFormed.prune (h : WellFormed this) (now : Nat) :
    WellFormed (this.prune opts now) := by
  have hentries := @WellFormed.entries_prune opts this h now
  obtain ⟨hdrop, htotal⟩ := @entries_pruneEntries opts now _ this rfl
  have hpositive : ∀ count ∈ (this.prune opts now).requests.values, 0 < count := by
    intro count hcount
    rw [OrderedMap.values, hentries] at hcount
    exact h.positive count ((List.filter_sublist.map _).subset hcount)
  refine ⟨?_, hpositive, ?_⟩
  · rw [OrderedMap.keys, hentries]
    exact h.sorted.sublist (List.filter_sublist.map _)
  · have hsum : this.requestsWithinWindow
          - ((this.requests.entries.takeWhile (isOld opts now ·.1)).map (·.2)).sum
        = (pruneEntries opts now this.requests.entries this).requests.values.sum := by
      have hsplit := congrArg (fun entries => (entries.map Prod.snd).sum)
        (List.takeWhile_append_dropWhile (p := (isOld opts now ·.1)) (l := this.requests.entries))
      simp only [List.map_append, List.sum_append] at hsplit
      rw [h.total, OrderedMap.values, OrderedMap.values, hdrop, ← hsplit]
      ring
    have hnonneg : 0 ≤ (pruneEntries opts now this.requests.entries this).requests.values.sum := by
      refine List.sum_nonneg fun count hcount => (h.positive count ?_).le
      rw [OrderedMap.values, hdrop] at hcount
      exact ((List.dropWhile_sublist _).map _).subset hcount
    unfold RateTracker.prune
    dsimp only
    rw [if_neg (by omega)]
    omega

theorem WellFormed.grant (h : WellFormed this) {key : Nat} {objectCount : Int}
    (hkey : ∀ earlier ∈ this.requests.keys, earlier ≤ key) (hcount : 0 < objectCount) :
    WellFormed ⟨this.requestsWithinWindow + objectCount,
      this.requests.set key ((this.requests.get key).getD 0 + objectCount)⟩ where
  sorted := by
    rw [OrderedMap.keys_set]
    split_ifs with hmem
    · exact h.sorted
    · refine List.pairwise_append.mpr ⟨h.sorted, List.pairwise_singleton _ _, ?_⟩
      intro earlier hearlier last hlast
      obtain rfl := List.mem_singleton.mp hlast
      exact (hkey earlier hearlier).lt_of_ne fun heq => hmem (heq ▸ hearlier)
  positive count hmem := by
    rcases OrderedMap.mem_values_set hmem with rfl | hold
    · cases hget : this.requests.get key with
      | none => simpa using hcount
      | some old =>
        have := h.positive old (List.mem_map.mpr ⟨_, OrderedMap.get_eq_some_iff.mp hget, rfl⟩)
        rw [Option.getD_some]
        omega
    · exact h.positive count hold
  total := by
    have hset := countedWhere_set (fun _ => true) this.requests key objectCount
    rw [countedWhere_true, countedWhere_true, if_pos rfl] at hset
    exact (congrArg (· + objectCount) h.total).trans hset.symm

end RateTracker

/-! ## Runs -/

section

variable {opts}

/-- The seconds that `prune` has not let go of by `now` have what was granted in them. -/
structure RateRun.Inv (opts : RateTrackerOpts) (run : RateRun) (now : Nat) : Prop where
  wellFormed : run.tracker.WellFormed
  recent : ∀ key ∈ run.tracker.requests.keys, key ≤ now / BUCKET_SIZE_MS
  granted : ∀ grant ∈ run.granted, grant.time ≤ now
  counted : ∀ p : Nat → Bool, (∀ key, p key = true → RateTracker.isOld opts now key = false) →
    countedWhere p run.tracker.requests.entries
      = grantedWhere (fun grant => p (grant.time / BUCKET_SIZE_MS)) run.granted

namespace RateRun.Inv

variable {run : RateRun} {now : Nat}

theorem later (h : Inv opts run now) {now' : Nat} (hle : now ≤ now') : Inv opts run now' where
  wellFormed := h.wellFormed
  recent key hkey := (h.recent key hkey).trans (Nat.div_le_div_right hle)
  granted grant hgrant := (h.granted grant hgrant).trans hle
  counted p hp := h.counted p fun key hkey => by
    have hnot := hp key hkey
    rw [Bool.eq_false_iff, ne_eq, RateTracker.isOld_iff] at hnot ⊢
    omega

theorem inLaterSecond_eq (now : Nat) (grant : Grant) :
    grant.inLaterSecond opts now
      = !RateTracker.isOld opts now (grant.time / BUCKET_SIZE_MS) := by
  rw [Bool.eq_iff_iff, Bool.not_eq_true', Bool.eq_false_iff, ne_eq, RateTracker.isOld_iff]
  unfold Grant.inLaterSecond BUCKET_SIZE_MS
  rw [decide_eq_true_iff]
  omega

/-- What is left after `prune` is what was granted in the seconds that start within the window. -/
theorem requestsWithinWindow_prune (h : Inv opts run now) :
    (run.tracker.prune opts now).requestsWithinWindow
      = grantedWhere (Grant.inLaterSecond opts now) run.granted := by
  have hlater : Grant.inLaterSecond opts now
      = fun grant => !RateTracker.isOld opts now (grant.time / BUCKET_SIZE_MS) :=
    funext (inLaterSecond_eq now)
  rw [(h.wellFormed.prune now).total, OrderedMap.values, h.wellFormed.entries_prune, hlater]
  exact h.counted (!RateTracker.isOld opts now ·) fun key hkey => by simpa using hkey

theorem prune (h : Inv opts run now) : Inv opts ⟨run.tracker.prune opts now, run.granted⟩ now where
  wellFormed := h.wellFormed.prune now
  recent key hkey := by
    rw [OrderedMap.keys, h.wellFormed.entries_prune] at hkey
    exact h.recent key ((List.filter_sublist.map _).subset hkey)
  granted := h.granted
  counted p hp := by
    rw [← h.counted p hp, h.wellFormed.entries_prune, countedWhere, countedWhere,
      List.filter_filter]
    refine congrArg (fun entries : List (Nat × Int) => (entries.map (·.2)).sum)
      (List.filter_congr fun entry _ => ?_)
    cases hkey : p entry.1
    · rfl
    · rw [hp _ hkey]
      rfl

theorem grant (h : Inv opts run now) {objectCount : Int} (hcount : 0 < objectCount) :
    Inv opts
      ⟨⟨run.tracker.requestsWithinWindow + objectCount,
        run.tracker.requests.set (now / BUCKET_SIZE_MS)
          ((run.tracker.requests.get (now / BUCKET_SIZE_MS)).getD 0 + objectCount)⟩,
        run.granted ++ [⟨now, objectCount⟩]⟩ now where
  wellFormed := h.wellFormed.grant h.recent hcount
  recent key hkey := by
    rw [OrderedMap.keys_set] at hkey
    split_ifs at hkey
    · exact h.recent key hkey
    · rcases List.mem_append.mp hkey with hkey | hkey
      · exact h.recent key hkey
      · exact (List.mem_singleton.mp hkey).le
  granted grant hgrant := by
    rcases List.mem_append.mp hgrant with hgrant | hgrant
    · exact h.granted grant hgrant
    · rw [List.mem_singleton.mp hgrant]
  counted p hp := by
    rw [countedWhere_set, h.counted p hp, grantedWhere_append, grantedWhere_singleton]

/-- A call throws, is refused or is granted, by what was granted in the window's later seconds. -/
theorem step_cases {call : RateCall} (h : Inv opts run call.now) :
    (call.objectCount ≤ 0 ∧ run.step opts call = run) ∨
    (0 < call.objectCount ∧
      (opts.limit : Int) ≤ grantedWhere (Grant.inLaterSecond opts call.now) run.granted ∧
      run.step opts call = ⟨run.tracker.prune opts call.now, run.granted⟩) ∨
    (0 < call.objectCount ∧
      grantedWhere (Grant.inLaterSecond opts call.now) run.granted < opts.limit ∧
      run.step opts call =
        ⟨⟨(run.tracker.prune opts call.now).requestsWithinWindow + call.objectCount,
          (run.tracker.prune opts call.now).requests.set (call.now / BUCKET_SIZE_MS)
            (((run.tracker.prune opts call.now).requests.get (call.now / BUCKET_SIZE_MS)).getD 0
              + call.objectCount)⟩,
          run.granted ++ [⟨call.now, call.objectCount⟩]⟩) := by
  have htotal := h.requestsWithinWindow_prune
  by_cases hcount : call.objectCount ≤ 0
  · refine .inl ⟨hcount, ?_⟩
    rw [step, RateTracker.requestObjects, if_pos hcount]
  have hpos : 0 < call.objectCount := Int.not_le.mp hcount
  by_cases hfull : (run.tracker.prune opts call.now).requestsWithinWindow ≥ opts.limit
  · refine .inr (.inl ⟨hpos, htotal ▸ hfull, ?_⟩)
    rw [step, RateTracker.requestObjects, if_neg hcount]
    dsimp only
    rw [if_pos hfull]
    rfl
  · refine .inr (.inr ⟨hpos, htotal ▸ Int.not_le.mp hfull, ?_⟩)
    rw [step, RateTracker.requestObjects, if_neg hcount]
    dsimp only
    rw [if_neg hfull]
    dsimp only
    rw [if_neg hpos.ne']

theorem step {call : RateCall} (h : Inv opts run call.now) :
    Inv opts (run.step opts call) call.now := by
  rcases h.step_cases with ⟨-, heq⟩ | ⟨-, -, heq⟩ | ⟨hcount, -, heq⟩ <;> rw [heq]
  · exact h
  · exact h.prune
  · exact h.prune.grant hcount

end RateRun.Inv

end

end Lodestar.ReqResp
