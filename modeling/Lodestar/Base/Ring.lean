import Mathlib.Tactic

/-!
# A ring of past values

A vector of length `n` whose cell `x % n` is written when the time is `x` holds
what was written in the last `n` times (`HoldsPast`).
-/

namespace Lodestar.Base

variable {α : Type} {n x y : Nat} {ring : Vector α n} {P Q : Nat → α → Prop}

theorem mod_ne_mod (hlt : y < x) (hle : x < y + n) : y % n ≠ x % n := by
  intro h
  have hdvd : n ∣ x - y := (Nat.modEq_iff_dvd' hlt.le).mp h
  have hn := Nat.le_of_dvd (by omega) hdvd
  omega

/-- Before `x`, the cell of each time that the ring has room for is a value `P` of that time. -/
def HoldsPast (P : Nat → α → Prop) (ring : Vector α n) (x : Nat) : Prop :=
  ∀ (y : Nat) (hn : 0 < n), y < x → x ≤ y + n → P y (ring.get ⟨y % n, Nat.mod_lt _ hn⟩)

theorem HoldsPast.mono (h : HoldsPast P ring x) (hle : ∀ y < x, ∀ a, P y a → Q y a) :
    HoldsPast Q ring x :=
  fun y hn hlt hroom => hle y hlt _ (h y hn hlt hroom)

theorem HoldsPast.zero : HoldsPast P ring 0 :=
  fun y _ hlt => absurd hlt (Nat.not_lt_zero y)

theorem HoldsPast.set (h : HoldsPast P ring x) (hn : 0 < n) {a : α} (ha : P x a) :
    HoldsPast P (ring.set (x % n) a (Nat.mod_lt _ hn)) (x + 1) := by
  intro y _ hlt hroom
  have hcell : y % n < n := Nat.mod_lt _ hn
  change P y (ring.set (x % n) a (Nat.mod_lt _ hn))[y % n]
  rcases (Nat.lt_succ_iff.mp hlt).eq_or_lt with rfl | hbefore
  · simpa using ha
  · rw [Vector.getElem_set_ne _ _ (mod_ne_mod hbefore (by omega)).symm]
    exact h y hn hbefore (by omega)

end Lodestar.Base
