import Mathlib.Logic.Function.Basic
import Mathlib.Tactic.ByContra

/-!
# Persistent and transient vectors

Vectors of two kinds live in one heap: a persistent vector is never changed, a
transient one is changed in place by whoever has a reference to it. What one
operation may do to the heap is `Moves` (it works on a vector) or `Makes` (it
makes one). Holders that have no transient vector in common (`Separated`) do
not see the operations of each other.
-/

namespace Lodestar.Base

/-- The operations; a `Vec` is a reference. -/
structure VectorLib (α : Type) where
  Heap : Type
  Vec : Type
  isTransient : Vec → Bool
  /-- The vector is in the heap, and no conversion has used it up. -/
  Live : Heap → Vec → Prop
  toList : Vec → Heap → List α
  empty : Heap → Vec × Heap
  fromValues : List α → Heap → Vec × Heap
  set : Vec → Nat → α → Heap → Vec × Heap
  push : Vec → α → Heap → Vec × Heap
  pop : Vec → Heap → Vec × Heap
  asTransient : Vec → Heap → Vec × Heap
  asPersistent : Vec → Heap → Vec × Heap
  clone : Vec → Heap → Vec × Heap

namespace VectorLib

variable {α ι : Type} {lib : VectorLib α}

/-- From the vector and heap `s` to `t`: the vector may be changed in place or replaced
by a new one, and every other vector, and every persistent one, stays as it is. -/
structure Moves (lib : VectorLib α) (s t : lib.Vec × lib.Heap) : Prop where
  live : lib.Live t.2 t.1
  fresh : lib.isTransient t.1 = true → t.1 = s.1 ∨ ¬ lib.Live s.2 t.1
  frame : ∀ w, lib.Live s.2 w → (lib.isTransient w = true → w ≠ s.1) →
    lib.Live t.2 w ∧ lib.toList w t.2 = lib.toList w s.2

/-- Whatever there is in `h` is in `h'` too, with the same contents. -/
def Extends (lib : VectorLib α) (h h' : lib.Heap) : Prop :=
  ∀ w, lib.Live h w → lib.Live h' w ∧ lib.toList w h' = lib.toList w h

theorem Extends.trans {h h' h'' : lib.Heap} (hfirst : lib.Extends h h')
    (hsecond : lib.Extends h' h'') : lib.Extends h h'' := by
  intro w hw
  obtain ⟨hlive, hsame⟩ := hfirst w hw
  obtain ⟨hlive', hsame'⟩ := hsecond w hlive
  exact ⟨hlive', hsame'.trans hsame⟩

/-- From the heap `h`, a vector that shares nothing with those that exist. -/
structure Makes (lib : VectorLib α) (h : lib.Heap) (t : lib.Vec × lib.Heap) : Prop where
  live : lib.Live t.2 t.1
  fresh : lib.isTransient t.1 = true → ¬ lib.Live h t.1
  frame : lib.Extends h t.2

theorem Makes.moves {h : lib.Heap} {t : lib.Vec × lib.Heap} (hmakes : lib.Makes h t) (v : lib.Vec) :
    lib.Moves (v, h) t :=
  ⟨hmakes.live, fun htransient => Or.inr (hmakes.fresh htransient), fun w hw _ => hmakes.frame w hw⟩

/-- What the operations do. An index out of range is not promised anything. -/
structure Lawful (lib : VectorLib α) : Prop where
  empty : ∀ h, lib.Makes h (lib.empty h)
  toList_empty : ∀ h, lib.toList (lib.empty h).1 (lib.empty h).2 = []
  fromValues : ∀ xs h, lib.Makes h (lib.fromValues xs h)
  toList_fromValues : ∀ xs h, lib.toList (lib.fromValues xs h).1 (lib.fromValues xs h).2 = xs
  set : ∀ {v h i x}, lib.Live h v → i < (lib.toList v h).length → lib.Moves (v, h) (lib.set v i x h)
  toList_set : ∀ {v h i x}, lib.Live h v → i < (lib.toList v h).length →
    lib.toList (lib.set v i x h).1 (lib.set v i x h).2 = (lib.toList v h).set i x
  push : ∀ {v h x}, lib.Live h v → lib.Moves (v, h) (lib.push v x h)
  toList_push : ∀ {v h x}, lib.Live h v →
    lib.toList (lib.push v x h).1 (lib.push v x h).2 = lib.toList v h ++ [x]
  pop : ∀ {v h}, lib.Live h v → lib.toList v h ≠ [] → lib.Moves (v, h) (lib.pop v h)
  toList_pop : ∀ {v h}, lib.Live h v → lib.toList v h ≠ [] →
    lib.toList (lib.pop v h).1 (lib.pop v h).2 = (lib.toList v h).dropLast
  asTransient : ∀ {v h}, lib.Live h v → lib.Moves (v, h) (lib.asTransient v h)
  toList_asTransient : ∀ {v h}, lib.Live h v →
    lib.toList (lib.asTransient v h).1 (lib.asTransient v h).2 = lib.toList v h
  asPersistent : ∀ {v h}, lib.Live h v → lib.Moves (v, h) (lib.asPersistent v h)
  toList_asPersistent : ∀ {v h}, lib.Live h v →
    lib.toList (lib.asPersistent v h).1 (lib.asPersistent v h).2 = lib.toList v h
  clone : ∀ {v h}, lib.Live h v → lib.Makes h (lib.clone v h)
  toList_clone : ∀ {v h}, lib.Live h v →
    lib.toList (lib.clone v h).1 (lib.clone v h).2 = lib.toList v h

namespace Moves

variable {s t u : lib.Vec × lib.Heap}

theorem refl (hlive : lib.Live s.2 s.1) : lib.Moves s s :=
  ⟨hlive, fun _ => Or.inl rfl, fun _ hw _ => ⟨hw, rfl⟩⟩

theorem trans (hst : lib.Moves s t) (htu : lib.Moves t u) : lib.Moves s u where
  live := htu.live
  fresh := by
    intro htransient
    rcases htu.fresh htransient with heq | hnew
    · rw [heq] at htransient ⊢
      exact hst.fresh htransient
    · by_contra hwas
      rw [not_or, not_not] at hwas
      exact hnew (hst.frame u.1 hwas.2 fun _ => hwas.1).1
  frame := by
    intro w hw hne
    obtain ⟨hlive, hsame⟩ := hst.frame w hw hne
    have hne' : lib.isTransient w = true → w ≠ t.1 := by
      intro htransient heq
      rcases hst.fresh (heq ▸ htransient) with hs | hnew
      · exact hne htransient (heq.trans hs)
      · exact hnew (heq ▸ hw)
    obtain ⟨hlive', hsame'⟩ := htu.frame w hlive hne'
    exact ⟨hlive', hsame'.trans hsame⟩

end Moves

/-! ## Many entries -/

/-- The entries, set one after the other. -/
def setAll (lib : VectorLib α) (v : lib.Vec) (entries : List (Nat × α)) (h : lib.Heap) :
    lib.Vec × lib.Heap :=
  entries.foldl (fun s e => lib.set s.1 e.1 e.2 s.2) (v, h)

theorem Lawful.setAll (hlib : lib.Lawful) (entries : List (Nat × α)) {v : lib.Vec} {h : lib.Heap}
    (hlive : lib.Live h v) (hfits : ∀ e ∈ entries, e.1 < (lib.toList v h).length) :
    lib.Moves (v, h) (lib.setAll v entries h) ∧
      lib.toList (lib.setAll v entries h).1 (lib.setAll v entries h).2
        = entries.foldl (fun l e => l.set e.1 e.2) (lib.toList v h) := by
  induction entries generalizing v h with
  | nil => exact ⟨Moves.refl hlive, rfl⟩
  | cons e entries ih =>
    have hindex := hfits e List.mem_cons_self
    have hmoves := hlib.set (x := e.2) hlive hindex
    have hset := hlib.toList_set (x := e.2) hlive hindex
    obtain ⟨hrest, heq⟩ := ih hmoves.live fun e' he' => by
      rw [hset, List.length_set]
      exact hfits e' (List.mem_cons_of_mem e he')
    refine ⟨hmoves.trans hrest, heq.trans ?_⟩
    rw [hset, List.foldl_cons]

/-! ## Holders -/

/-- The vector of each holder is live, and only persistent ones have several holders. -/
structure Separated (lib : VectorLib α) (h : lib.Heap) (hold : ι → Option lib.Vec) : Prop where
  live : ∀ {i v}, hold i = some v → lib.Live h v
  apart : ∀ {i j v}, i ≠ j → hold i = some v → hold j = some v → lib.isTransient v = false

namespace Separated

variable {h : lib.Heap} {hold hold' : ι → Option lib.Vec} {i : ι}

theorem of_none (hnone : ∀ i, hold i = none) : lib.Separated h hold where
  live := fun hi => by rw [hnone] at hi; cases hi
  apart := fun _ hi => by rw [hnone] at hi; cases hi

section

variable {s t : lib.Vec × lib.Heap} (hsep : lib.Separated s.2 hold) (hi : hold i = some s.1)
  (hmoves : lib.Moves s t)

include hsep hi in
theorem ne_of_ne {j : ι} {w : lib.Vec} (hne : j ≠ i) (hj : hold j = some w) :
    lib.isTransient w = true → w ≠ s.1 := by
  intro htransient heq
  have hapart := hsep.apart hne hj (heq ▸ hi)
  rw [htransient] at hapart
  cases hapart

include hsep hi hmoves

theorem same_of_moves {j : ι} {w : lib.Vec} (hne : j ≠ i) (hj : hold j = some w) :
    lib.toList w t.2 = lib.toList w s.2 :=
  (hmoves.frame w (hsep.live hj) (hsep.ne_of_ne hi hne hj)).2

theorem moves (hnew : hold' i = some t.1) (hsame : ∀ j, j ≠ i → hold' j = hold j) :
    lib.Separated t.2 hold' := by
  -- a transient result is new, or it is what `i` had and no one else
  have hown : ∀ {j v}, j ≠ i → hold j = some v → v = t.1 → lib.isTransient v = false := by
    intro j v hne hj heq
    cases hkind : lib.isTransient v with
    | false => rfl
    | true =>
      rcases hmoves.fresh (heq ▸ hkind) with hs | hfresh
      · exact absurd (heq.trans hs) (hsep.ne_of_ne hi hne hj hkind)
      · exact absurd (hsep.live hj) (heq ▸ hfresh)
  constructor
  · intro j v hj
    by_cases hji : j = i
    · rw [hji, hnew, Option.some.injEq] at hj
      exact hj ▸ hmoves.live
    · rw [hsame j hji] at hj
      exact (hmoves.frame v (hsep.live hj) (hsep.ne_of_ne hi hji hj)).1
  · intro j k v hjk hj hk
    by_cases hji : j = i
    · rw [hji, hnew, Option.some.injEq] at hj
      have hki : k ≠ i := fun heq => hjk (hji.trans heq.symm)
      rw [hsame k hki] at hk
      exact hown hki hk hj.symm
    · rw [hsame j hji] at hj
      by_cases hki : k = i
      · rw [hki, hnew, Option.some.injEq] at hk
        exact hown hji hj hk.symm
      · rw [hsame k hki] at hk
        exact hsep.apart hjk hj hk

end

section

variable {t : lib.Vec × lib.Heap} (hsep : lib.Separated h hold) (hmakes : lib.Makes h t)

include hsep hmakes

theorem makes (hnew : hold' i = some t.1) (hsame : ∀ j, j ≠ i → hold' j = hold j) :
    lib.Separated t.2 hold' := by
  have hown : ∀ {j v}, hold j = some v → v = t.1 → lib.isTransient v = false := by
    intro j v hj heq
    cases hkind : lib.isTransient v with
    | false => rfl
    | true => exact absurd (hsep.live hj) (heq ▸ hmakes.fresh (heq ▸ hkind))
  constructor
  · intro j v hj
    by_cases hji : j = i
    · rw [hji, hnew, Option.some.injEq] at hj
      exact hj ▸ hmakes.live
    · rw [hsame j hji] at hj
      exact (hmakes.frame v (hsep.live hj)).1
  · intro j k v hjk hj hk
    by_cases hji : j = i
    · rw [hji, hnew, Option.some.injEq] at hj
      have hki : k ≠ i := fun heq => hjk (hji.trans heq.symm)
      rw [hsame k hki] at hk
      exact hown hk hj.symm
    · rw [hsame j hji] at hj
      by_cases hki : k = i
      · rw [hki, hnew, Option.some.injEq] at hk
        exact hown hj hk.symm
      · rw [hsame k hki] at hk
        exact hsep.apart hjk hj hk

end

theorem takeOver (hsep : lib.Separated h hold) {j : ι} (hgone : hold' i = none)
    (htaken : hold' j = hold i) (hsame : ∀ k, k ≠ i → k ≠ j → hold' k = hold k) :
    lib.Separated h hold' := by
  -- who holds what after it, before it
  have hbefore : ∀ {k v}, hold' k = some v →
      k ≠ i ∧ (k = j ∧ hold i = some v ∨ k ≠ j ∧ hold k = some v) := by
    intro k v hk
    have hki : k ≠ i := fun heq => by rw [heq, hgone] at hk; cases hk
    by_cases hkj : k = j
    · rw [hkj, htaken] at hk
      exact ⟨hki, Or.inl ⟨hkj, hk⟩⟩
    · rw [hsame k hki hkj] at hk
      exact ⟨hki, Or.inr ⟨hkj, hk⟩⟩
  constructor
  · intro k v hk
    rcases (hbefore hk).2 with ⟨-, hv⟩ | ⟨-, hv⟩
    · exact hsep.live hv
    · exact hsep.live hv
  · intro k l v hkl hk hl
    obtain ⟨hki, hk⟩ := hbefore hk
    obtain ⟨hli, hl⟩ := hbefore hl
    rcases hk with ⟨hkj, hk⟩ | ⟨-, hk⟩
    · rcases hl with ⟨hlj, -⟩ | ⟨-, hl⟩
      · exact absurd (hkj.trans hlj.symm) hkl
      · exact hsep.apart hli.symm hk hl
    · rcases hl with ⟨-, hl⟩ | ⟨-, hl⟩
      · exact hsep.apart hki hk hl
      · exact hsep.apart hkl hk hl

end Separated

end VectorLib

/-! ## A heap of cells -/

/-- A persistent vector is its contents, a transient one is the address of a cell. -/
inductive CellVec (α : Type) where
  | persistent (contents : List α)
  | transient (address : Nat)

namespace CellVec

variable {α : Type}

def isTransient : CellVec α → Bool
  | persistent _ => false
  | transient _ => true

def Live (h : List (List α)) : CellVec α → Prop
  | persistent _ => True
  | transient address => address < h.length

def toList (v : CellVec α) (h : List (List α)) : List α :=
  match v with
  | persistent contents => contents
  | transient address => h.getD address []

/-- A transient vector is changed in place. -/
def edit (f : List α → List α) (v : CellVec α) (h : List (List α)) :
    CellVec α × List (List α) :=
  match v with
  | persistent contents => (persistent (f contents), h)
  | transient address => (transient address, h.modify address f)

def alloc (contents : List α) (h : List (List α)) : CellVec α × List (List α) :=
  (transient h.length, h ++ [contents])

end CellVec

def cellVectors (α : Type) : VectorLib α where
  Heap := List (List α)
  Vec := CellVec α
  isTransient := CellVec.isTransient
  Live := CellVec.Live
  toList := CellVec.toList
  empty := fun h => (.persistent [], h)
  fromValues := fun contents h => (.persistent contents, h)
  set := fun v i x h => v.edit (·.set i x) h
  push := fun v x h => v.edit (· ++ [x]) h
  pop := fun v h => v.edit List.dropLast h
  asTransient := fun v h => if v.isTransient then (v, h) else CellVec.alloc (v.toList h) h
  asPersistent := fun v h => (.persistent (v.toList h), h)
  clone := fun v h => if v.isTransient then CellVec.alloc (v.toList h) h else (v, h)

namespace CellVec

variable {α : Type} {v : CellVec α} {h : List (List α)}

theorem makes_persistent (contents : List α) (h : List (List α)) :
    (cellVectors α).Makes h (CellVec.persistent contents, h) :=
  ⟨trivial, fun htransient => absurd htransient Bool.false_ne_true, fun _ hw => ⟨hw, rfl⟩⟩

theorem makes_alloc (contents : List α) (h : List (List α)) :
    (cellVectors α).Makes h (CellVec.alloc contents h) := by
  refine ⟨?_, fun _ hlive => absurd hlive (Nat.lt_irrefl h.length), fun w hw => ?_⟩
  · change h.length < (h ++ [contents]).length
    rw [List.length_append]
    exact Nat.lt_succ_self h.length
  · cases w with
    | persistent _ => exact ⟨trivial, rfl⟩
    | transient address =>
      change address < h.length at hw
      refine ⟨?_, ?_⟩
      · change address < (h ++ [contents]).length
        rw [List.length_append]
        exact Nat.lt_add_right 1 hw
      · change (h ++ [contents]).getD address [] = h.getD address []
        rw [List.getD_eq_getElem?_getD, List.getElem?_append_left hw, List.getD_eq_getElem?_getD]

theorem toList_alloc (contents : List α) (h : List (List α)) :
    (alloc contents h).1.toList (alloc contents h).2 = contents := by
  change (h ++ [contents]).getD h.length [] = contents
  rw [List.getD_eq_getElem?_getD, List.getElem?_append_right (Nat.le_refl _), Nat.sub_self]
  rfl

theorem moves_edit (f : List α → List α) (hlive : v.Live h) :
    (cellVectors α).Moves (v, h) (v.edit f h) := by
  cases v with
  | persistent contents => exact (makes_persistent (f contents) h).moves _
  | transient address =>
    have hlength : (h.modify address f).length = h.length := List.length_modify ..
    refine ⟨Nat.lt_of_lt_of_eq hlive hlength.symm, fun _ => Or.inl rfl, fun w hw hne => ?_⟩
    cases w with
    | persistent _ => exact ⟨trivial, rfl⟩
    | transient other =>
      have hother : address ≠ other := fun heq => hne rfl (heq ▸ rfl)
      refine ⟨Nat.lt_of_lt_of_eq hw hlength.symm, ?_⟩
      change (h.modify address f).getD other [] = h.getD other []
      rw [List.getD_eq_getElem?_getD, List.getElem?_modify_ne f h hother,
        List.getD_eq_getElem?_getD]

theorem toList_edit (f : List α → List α) (hlive : v.Live h) :
    (v.edit f h).1.toList (v.edit f h).2 = f (v.toList h) := by
  cases v with
  | persistent contents => rfl
  | transient address =>
    change (h.modify address f).getD address [] = f (h.getD address [])
    change address < h.length at hlive
    rw [List.getD_eq_getElem?_getD, List.getElem?_modify_eq, List.getD_eq_getElem?_getD,
      List.getElem?_eq_getElem hlive]
    rfl

end CellVec

theorem lawful_cellVectors (α : Type) : (cellVectors α).Lawful where
  empty := CellVec.makes_persistent []
  toList_empty := fun _ => rfl
  fromValues := CellVec.makes_persistent
  toList_fromValues := fun _ _ => rfl
  set := fun hlive _ => CellVec.moves_edit _ hlive
  toList_set := fun hlive _ => CellVec.toList_edit _ hlive
  push := fun hlive => CellVec.moves_edit _ hlive
  toList_push := fun hlive => CellVec.toList_edit _ hlive
  pop := fun hlive _ => CellVec.moves_edit _ hlive
  toList_pop := fun hlive _ => CellVec.toList_edit _ hlive
  asTransient := by
    intro v h hlive
    cases v with
    | persistent contents => exact (CellVec.makes_alloc contents h).moves _
    | transient address => exact VectorLib.Moves.refl hlive
  toList_asTransient := by
    intro v h _
    cases v with
    | persistent contents => exact CellVec.toList_alloc contents h
    | transient address => rfl
  asPersistent := fun _ => (CellVec.makes_persistent _ _).moves _
  toList_asPersistent := fun _ => rfl
  clone := by
    intro v h _
    cases v with
    | persistent contents => exact CellVec.makes_persistent contents h
    | transient address => exact CellVec.makes_alloc _ h
  toList_clone := by
    intro v h _
    cases v with
    | persistent contents => rfl
    | transient address => exact CellVec.toList_alloc _ h

end Lodestar.Base
