import Mathlib.Data.List.Basic

/-!
# Keeping the best of a sequence

`keep better` holds one element and exchanges it for a next one that `better`
prefers. Nothing is asked of `better`; `keepAll_of_take` says when the element
that is left has a property, whatever the order was.
-/

namespace Lodestar.Base

variable {α : Type} {better : α → α → Bool} {P : α → Prop} {l : List α} {best : Option α} {x y : α}

def keep (better : α → α → Bool) (best : Option α) (next : α) : Option α :=
  match best with
  | none => some next
  | some prev => if better prev next then some next else some prev

def keepAll (better : α → α → Bool) (best : Option α) (l : List α) : Option α :=
  l.foldl (keep better) best

@[simp] theorem keepAll_nil : keepAll better best [] = best := rfl

theorem keepAll_cons : keepAll better best (x :: l) = keepAll better (keep better best x) l := rfl

theorem keepAll_append {l' : List α} :
    keepAll better best (l ++ l') = keepAll better (keepAll better best l) l' :=
  List.foldl_append

@[simp] theorem keep_none : keep better none x = some x := rfl

theorem keep_of_better (h : better y x = true) : keep better (some y) x = some x := by
  simp [keep, h]

theorem keep_of_not_better (h : ¬ better y x = true) : keep better (some y) x = some y := by
  simp [keep, h]

theorem keep_eq_or (better : α → α → Bool) (y x : α) :
    keep better (some y) x = some x ∨ keep better (some y) x = some y := by
  by_cases h : better y x = true
  · exact .inl (keep_of_better h)
  · exact .inr (keep_of_not_better h)

theorem mem_of_keepAll (h : keepAll better best l = some x) : best = some x ∨ x ∈ l := by
  induction l generalizing best with
  | nil => exact .inl h
  | cons y l ih =>
    rw [keepAll_cons] at h
    rcases ih h with hk | hm
    · cases best with
      | none =>
        obtain rfl : y = x := by simpa using hk
        exact .inr (List.mem_cons_self ..)
      | some z =>
        rcases keep_eq_or better z y with hy | hz
        · obtain rfl : y = x := by simpa [hy] using hk
          exact .inr (List.mem_cons_self ..)
        · exact .inl (hz ▸ hk)
    · exact .inr (List.mem_cons_of_mem _ hm)

theorem exists_keepAll (h : best.isSome ∨ l ≠ []) : ∃ x, keepAll better best l = some x := by
  induction l generalizing best with
  | nil => exact Option.isSome_iff_exists.mp (h.resolve_right fun h => h rfl)
  | cons y l ih =>
    rw [keepAll_cons]
    apply ih
    cases best with
    | none => exact .inl rfl
    | some z =>
      rcases keep_eq_or better z y with hy | hz
      · rw [hy]; exact .inl rfl
      · rw [hz]; exact .inl rfl

theorem keepAll_stay (hstay : ∀ x ∈ l, ∀ y, P y → better y x = true → P x) (hy : P y) :
    ∃ x, keepAll better (some y) l = some x ∧ P x := by
  induction l generalizing y with
  | nil => exact ⟨y, rfl, hy⟩
  | cons x l ih =>
    have ih' := fun {y} => ih (y := y) fun x hx => hstay x (List.mem_cons_of_mem _ hx)
    rw [keepAll_cons]
    by_cases hb : better y x = true
    · rw [keep_of_better hb]
      exact ih' (hstay x (List.mem_cons_self ..) y hy hb)
    · rw [keep_of_not_better hb]
      exact ih' hy

/-- One element that has the property, and that replaces each one without it, is enough. -/
theorem keepAll_of_take (hstay : ∀ x ∈ l, ∀ y, P y → better y x = true → P x)
    (hx : x ∈ l) (hP : P x)
    (htake : ∀ y, best = some y ∨ y ∈ l → ¬ P y → better y x = true) :
    ∃ z, keepAll better best l = some z ∧ P z := by
  obtain ⟨l₁, l₂, rfl⟩ := List.append_of_mem hx
  have hstay₂ : ∀ x' ∈ l₂, ∀ y, P y → better y x' = true → P x' := fun x' hx' =>
    hstay x' (List.mem_append_right _ (List.mem_cons_of_mem _ hx'))
  rw [keepAll_append, keepAll_cons]
  cases hb : keepAll better best l₁ with
  | none => exact keepAll_stay hstay₂ hP
  | some y =>
    by_cases hy : better y x = true
    · rw [keep_of_better hy]
      exact keepAll_stay hstay₂ hP
    · rw [keep_of_not_better hy]
      apply keepAll_stay hstay₂
      by_contra hn
      apply hy
      apply htake y _ hn
      exact (mem_of_keepAll hb).imp_right (List.mem_append_left _)

end Lodestar.Base
