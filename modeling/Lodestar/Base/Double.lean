import Lodestar.Base.Bytes
import Mathlib.Data.List.TakeWhile

/-!
# Numbers, doubles and their digits

`Number` has the results of a division by zero: `infinity` for a positive number
over zero, `nan` for what has no value.

The doubles that are natural numbers or not finite: `roundToDouble` is the nearest
one, and a double is printed with the fewest digits that still round to it, so what
is printed without an exponent reads back (`parseInt_toString`).
-/

namespace Lodestar.Base

/-! ## Naturals and what is not finite -/

/-- The non-negative numbers of a program that divides before it looks. -/
inductive Number where
  | nat (n : Nat)
  | infinity
  | nan
  deriving DecidableEq

namespace Number

def mul : Number → Number → Number
  | nat a, nat b => nat (a * b)
  | nat a, infinity => if a = 0 then nan else infinity
  | infinity, nat b => if b = 0 then nan else infinity
  | infinity, infinity => infinity
  | nan, _ => nan
  | _, nan => nan

/-- The floor of a quotient. -/
def floorDiv : Number → Number → Number
  | nat a, nat b => if b = 0 then if a = 0 then nan else infinity else nat (a / b)
  | nat _, infinity => nat 0
  | infinity, nat _ => infinity
  | infinity, infinity => nan
  | nan, _ => nan
  | _, nan => nan

@[simp] theorem mul_nat (a b : Nat) : mul (nat a) (nat b) = nat (a * b) := rfl

theorem floorDiv_nat (a : Nat) {b : Nat} (hb : 0 < b) : floorDiv (nat a) (nat b) = nat (a / b) :=
  if_neg hb.ne'

end Number

/-! ## Doubles -/

/-- The nearest multiple of `unit`, of two the one with an even factor. -/
def roundTo (unit n : Nat) : Nat :=
  let q := n / unit
  let r := n % unit
  if unit < 2 * r ∨ (unit = 2 * r ∧ q % 2 = 1) then (q + 1) * unit else q * unit

/-- 53 bits are kept, and there are at most 1024. -/
def roundToDouble (n : Nat) : Number :=
  let value := roundTo (2 ^ (Nat.log2 n - 52)) n
  if Nat.log2 value < 1024 then .nat value else .infinity

/-- Rounding does not change it. -/
def IsDouble : Number → Prop
  | .nat n => roundToDouble n = .nat n
  | _ => True

theorem roundTo_of_dvd {unit n : Nat} (hpos : 0 < unit) (h : unit ∣ n) : roundTo unit n = n := by
  unfold roundTo
  rw [Nat.mod_eq_zero_of_dvd h, if_neg (by omega), Nat.div_mul_cancel h]

theorem dvd_roundTo (unit n : Nat) : unit ∣ roundTo unit n := by
  unfold roundTo
  dsimp only
  split_ifs <;> exact Nat.dvd_mul_left ..

theorem roundTo_le (unit n : Nat) : roundTo unit n ≤ (n / unit + 1) * unit := by
  unfold roundTo
  dsimp only
  split_ifs
  · exact le_rfl
  · exact Nat.mul_le_mul_right unit (Nat.le_succ _)

theorem two_pow_dvd_roundTo (n : Nat) :
    2 ^ (Nat.log2 (roundTo (2 ^ (Nat.log2 n - 52)) n) - 52)
      ∣ roundTo (2 ^ (Nat.log2 n - 52)) n := by
  obtain ⟨shift, hshift⟩ : ∃ shift, shift = Nat.log2 n - 52 := ⟨_, rfl⟩
  rw [← hshift]
  have hdvd := dvd_roundTo (2 ^ shift) n
  have hle : roundTo (2 ^ shift) n ≤ 2 ^ (shift + 53) := by
    have hn : n < 2 ^ (shift + 53) :=
      Nat.lt_log2_self.trans_le (Nat.pow_le_pow_right (by decide) (by omega))
    have hquotient : n / 2 ^ shift < 2 ^ 53 := by
      rw [Nat.div_lt_iff_lt_mul (Nat.two_pow_pos shift), ← pow_add, Nat.add_comm]
      exact hn
    calc roundTo (2 ^ shift) n ≤ (n / 2 ^ shift + 1) * 2 ^ shift := roundTo_le _ n
      _ ≤ 2 ^ 53 * 2 ^ shift := Nat.mul_le_mul_right _ hquotient
      _ = 2 ^ (shift + 53) := by rw [← pow_add, Nat.add_comm]
  rcases hle.lt_or_eq with hlt | heq
  · refine (Nat.pow_dvd_pow 2 ?_).trans hdvd
    rcases Nat.eq_zero_or_pos (roundTo (2 ^ shift) n) with hzero | hpos
    · rw [hzero]
      exact Nat.zero_le _
    · have := (Nat.log2_lt hpos.ne').mpr hlt
      omega
  · rw [heq, Nat.log2_two_pow]
    exact Nat.pow_dvd_pow 2 (by omega)

theorem isDouble_roundToDouble (n : Nat) : IsDouble (roundToDouble n) := by
  unfold roundToDouble
  dsimp only
  split_ifs with hbits
  · show roundToDouble _ = _
    unfold roundToDouble
    rw [roundTo_of_dvd (Nat.two_pow_pos _) (two_pow_dvd_roundTo n), if_pos hbits]
  · trivial

@[ext]
structure Double where
  value : Number
  isDouble : IsDouble value
  deriving DecidableEq

def Double.ofNat (n : Nat) : Double := ⟨roundToDouble n, isDouble_roundToDouble n⟩

def Double.nan : Double := ⟨.nan, trivial⟩

/-! ## Printing -/

/-- Of the neighbours with zeros in the last `j` places, the nearest one that rounds to `n`, with
`j` as great as can be. -/
def shortestFrom (n : Nat) : Nat → Nat
  | 0 => n
  | j + 1 =>
    let unit := 10 ^ (j + 1)
    let low := n / unit * unit
    let high := low + unit
    if roundToDouble low = .nat n then
      if roundToDouble high = .nat n then
        -- of two, the nearer one, or the one with an even last digit
        if unit < 2 * (n - low) ∨ (unit = 2 * (n - low) ∧ n / unit % 2 = 1) then high else low
      else low
    else if roundToDouble high = .nat n then high
    else shortestFrom n j

/-- The number with the fewest digits that rounds to `n`. -/
def shortest (n : Nat) : Nat := shortestFrom n ((Nat.toDigits 10 n).length - 1)

/-- `String(x)`. -/
def Double.toString (x : Double) : List Char :=
  match x.value with
  | .nan => "NaN".toList
  | .infinity => "Infinity".toList
  | .nat n =>
    let digits := Nat.toDigits 10 (shortest n)
    if shortest n < 10 ^ 21 then digits
    else
      let exponent := 'e' :: '+' :: Nat.toDigits 10 (digits.length - 1)
      match (digits.reverse.dropWhile (· = '0')).reverse with
      | [] => exponent
      | [first] => first :: exponent
      | first :: fraction => first :: '.' :: (fraction ++ exponent)

/-- `parseInt(s, 10)` of a string without a space or a sign in front. -/
def parseInt (s : List Char) : Double :=
  let digits := s.takeWhile Char.isDigit
  if digits = [] then .nan else .ofNat ((readDigits 10 0 digits).getD 0)

theorem roundToDouble_shortestFrom {n : Nat} (h : roundToDouble n = .nat n) (j : Nat) :
    roundToDouble (shortestFrom n j) = .nat n := by
  induction j with
  | zero => exact h
  | succ j ih =>
    unfold shortestFrom
    dsimp only
    split_ifs with hlow hhigh htie hhigh
    · exact hhigh
    · exact hlow
    · exact hlow
    · exact hhigh
    · exact ih

theorem roundToDouble_shortest {n : Nat} (h : roundToDouble n = .nat n) :
    roundToDouble (shortest n) = .nat n :=
  roundToDouble_shortestFrom h _

theorem isDigit_of_mem_toDigits {n : Nat} : ∀ c ∈ Nat.toDigits 10 n, c.isDigit = true := by
  induction n using Nat.strong_induction_on with
  | h n ih =>
    have hlast : ∀ d < 10, d.digitChar.isDigit = true := fun d hd => by
      rw [Nat.isDigit_digitChar]
      exact decide_eq_true hd
    by_cases hn : n < 10
    · rw [Nat.toDigits_of_lt_base hn]
      intro c hc
      rw [List.mem_singleton.mp hc]
      exact hlast n hn
    · rw [Nat.toDigits_of_base_le (by decide) (by omega)]
      intro c hc
      rcases List.mem_append.mp hc with hc | hc
      · exact ih (n / 10) (by omega) c hc
      · rw [List.mem_singleton.mp hc]
        exact hlast _ (Nat.mod_lt n (by decide))

theorem takeWhile_isDigit_toDigits (n : Nat) :
    (Nat.toDigits 10 n).takeWhile Char.isDigit = Nat.toDigits 10 n :=
  List.takeWhile_eq_self_iff.mpr isDigit_of_mem_toDigits

theorem parseInt_toDigits (n : Nat) : parseInt (Nat.toDigits 10 n) = .ofNat n := by
  unfold parseInt
  rw [takeWhile_isDigit_toDigits, if_neg Nat.toDigits_ne_nil,
    readDigits_toDigits (by decide) (by decide), Option.getD_some]

/-- Whether a number is printed as digits only. -/
def Double.PrintsDigits (x : Double) : Prop := ∃ n, x.value = .nat n ∧ shortest n < 10 ^ 21

theorem Double.PrintsDigits.toString_eq {x : Double} (h : x.PrintsDigits) :
    ∃ n, x = .ofNat n ∧ x.toString = Nat.toDigits 10 n := by
  obtain ⟨⟨value, hdouble⟩, n, rfl, hlt⟩ := x, h
  exact ⟨shortest n, Double.ext (roundToDouble_shortest hdouble).symm, if_pos hlt⟩

theorem parseInt_toString {x : Double} (h : x.PrintsDigits) : parseInt x.toString = x := by
  obtain ⟨n, rfl, hprint⟩ := h.toString_eq
  rw [hprint, parseInt_toDigits]

theorem Double.plus_mem_toString {x : Double} {n : Nat} (hvalue : x.value = .nat n)
    (h : ¬ shortest n < 10 ^ 21) : '+' ∈ x.toString := by
  unfold Double.toString
  rw [hvalue]
  dsimp only
  rw [if_neg h]
  split <;> simp

theorem Double.mem_toString {x : Double} :
    ∀ c ∈ x.toString, c.isAlphanum = true ∨ c = '+' ∨ c = '.' := by
  have hdigit : ∀ (n : Nat), ∀ c ∈ Nat.toDigits 10 n, c.isAlphanum = true := fun n c hc => by
    unfold Char.isAlphanum
    rw [isDigit_of_mem_toDigits c hc, Bool.or_true]
  unfold Double.toString
  cases x.value with
  | nan =>
    have hall : "NaN".toList.all Char.isAlphanum = true := by decide
    exact fun c hc => .inl (List.all_eq_true.mp hall c hc)
  | infinity =>
    have hall : "Infinity".toList.all Char.isAlphanum = true := by decide
    exact fun c hc => .inl (List.all_eq_true.mp hall c hc)
  | nat n =>
    dsimp only
    split_ifs
    · exact fun c hc => .inl (hdigit _ c hc)
    have hexponent : ∀ c ∈ 'e' :: '+' :: Nat.toDigits 10
        ((Nat.toDigits 10 (shortest n)).length - 1), c.isAlphanum = true ∨ c = '+' ∨ c = '.' := by
      intro c hc
      rcases List.mem_cons.mp hc with rfl | hc
      · exact .inl (by decide)
      · rcases List.mem_cons.mp hc with rfl | hc
        · exact .inr (.inl rfl)
        · exact .inl (hdigit _ c hc)
    have hkept : ∀ c ∈ ((Nat.toDigits 10 (shortest n)).reverse.dropWhile (· = '0')).reverse,
        c.isAlphanum = true := fun c hc =>
      hdigit _ c (List.mem_reverse.mp ((List.dropWhile_sublist _).subset (List.mem_reverse.mp hc)))
    split
    · exact hexponent
    · next first heq =>
      intro c hc
      rcases List.mem_cons.mp hc with rfl | hc
      · exact .inl (hkept c (by rw [heq]; exact List.mem_cons_self))
      · exact hexponent c hc
    · next first fraction hne heq =>
      intro c hc
      rcases List.mem_cons.mp hc with rfl | hc
      · exact .inl (hkept c (by rw [heq]; exact List.mem_cons_self))
      · rcases List.mem_cons.mp hc with rfl | hc
        · exact .inr (.inr rfl)
        · rcases List.mem_append.mp hc with hc | hc
          · exact .inl (hkept c (by rw [heq]; exact List.mem_cons_of_mem _ hc))
          · exact hexponent c hc

theorem Double.printsDigits_of_parseInt {x : Double} (hplus : '+' ∉ x.toString)
    (h : parseInt x.toString = x) (hnan : x ≠ .nan) : x.PrintsDigits := by
  obtain ⟨value, hdouble⟩ := x
  cases value with
  | nan => exact absurd rfl hnan
  | infinity =>
    have hvalue : (parseInt "Infinity".toList).value = Number.infinity := congrArg Double.value h
    exact absurd hvalue (by decide)
  | nat n =>
    refine ⟨n, rfl, ?_⟩
    by_contra hlong
    exact hplus (Double.plus_mem_toString rfl hlong)

example : (Double.ofNat (2 ^ 53 + 4)).toString = "9007199254740996".toList := by decide +kernel

example : (Double.ofNat (2 ^ 69)).toString = "590295810358705700000".toList := by decide +kernel

example : (Double.ofNat (10 ^ 22 + 1)).toString = "1e+22".toList := by decide +kernel

end Lodestar.Base
