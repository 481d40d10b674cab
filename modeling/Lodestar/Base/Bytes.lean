import Mathlib.Tactic

/-!
# Byte strings and digits

Byte strings are compared byte by byte, a proper prefix first. Numbers written
big-endian in a fixed number of bytes compare as the numbers do, and strings
of equal length compare part by part, so a key made of such parts sorts by its
first part, then by its second.
-/

namespace Lodestar.Base

abbrev Bytes := List UInt8

/-- The last `len` bytes of `n`, the most significant first. -/
def toBytesBE : Nat → Nat → Bytes
  | 0, _ => []
  | len + 1, n => UInt8.ofNat (n / 256 ^ len) :: toBytesBE len n

@[simp] theorem length_toBytesBE (len n : Nat) : (toBytesBE len n).length = len := by
  induction len with
  | zero => rfl
  | succ len ih => simp [toBytesBE, ih]

theorem toBytesBE_mod (len k n : Nat) (h : len ≤ k) :
    toBytesBE len (n % 256 ^ k) = toBytesBE len n := by
  induction len with
  | zero => rfl
  | succ len ih =>
    have hk : 256 ^ k = 256 ^ len * (256 ^ (k - (len + 1)) * 256) := by
      rw [← pow_succ, ← pow_add]
      congr 1
      omega
    have hhead : UInt8.ofNat (n % 256 ^ k / 256 ^ len) = UInt8.ofNat (n / 256 ^ len) := by
      apply UInt8.toNat_inj.1
      rw [UInt8.toNat_ofNat', UInt8.toNat_ofNat', hk, Nat.mod_mul_right_div_self,
        Nat.mod_mod_of_dvd _ (Nat.dvd_mul_left _ _)]
    unfold toBytesBE
    rw [hhead, ih (Nat.le_of_succ_le h)]

theorem compare_ofNat {a b : Nat} (ha : a < 256) (hb : b < 256) :
    compare (UInt8.ofNat a) (UInt8.ofNat b) = compare a b := by
  have ha' : (UInt8.ofNat a).toNat = a := by simp; omega
  have hb' : (UInt8.ofNat b).toNat = b := by simp; omega
  show compareOfLessAndEq (UInt8.ofNat a) (UInt8.ofNat b) = compareOfLessAndEq a b
  unfold compareOfLessAndEq
  simp only [UInt8.lt_iff_toNat_lt, ← UInt8.toNat_inj, ha', hb']

theorem compare_div_mod (d n m : Nat) :
    (compare (n / d) (m / d)).then (compare (n % d) (m % d)) = compare n m := by
  rcases lt_trichotomy (n / d) (m / d) with h | h | h
  · rw [Nat.compare_eq_lt.2 h, Nat.compare_eq_lt.2 (Nat.lt_of_div_lt_div h)]
    rfl
  · have hn := Nat.div_add_mod n d
    have hm := Nat.div_add_mod m d
    rw [h] at hn ⊢
    rw [Nat.compare_eq_eq.2 rfl, Ordering.eq_then]
    rcases lt_trichotomy (n % d) (m % d) with h' | h' | h'
    · rw [Nat.compare_eq_lt.2 h', Nat.compare_eq_lt.2 (by omega)]
    · rw [Nat.compare_eq_eq.2 h', Nat.compare_eq_eq.2 (by omega)]
    · rw [Nat.compare_eq_gt.2 h', Nat.compare_eq_gt.2 (by omega)]
  · rw [Nat.compare_eq_gt.2 h, Nat.compare_eq_gt.2 (Nat.lt_of_div_lt_div h)]
    rfl

theorem compare_toBytesBE {len n m : Nat} (hn : n < 256 ^ len) (hm : m < 256 ^ len) :
    compare (toBytesBE len n) (toBytesBE len m) = compare n m := by
  induction len generalizing n m with
  | zero =>
    obtain rfl : n = 0 := by simpa using hn
    obtain rfl : m = 0 := by simpa using hm
    rfl
  | succ len ih =>
    have hpos : 0 < 256 ^ len := Nat.pow_pos (by decide)
    have hdiv : ∀ {k : Nat}, k < 256 ^ (len + 1) → k / 256 ^ len < 256 := by
      intro k hk
      rw [Nat.div_lt_iff_lt_mul hpos, mul_comm]
      exact hk
    rw [toBytesBE, toBytesBE, List.compare_cons_cons, compare_ofNat (hdiv hn) (hdiv hm), ← toBytesBE_mod len len n le_rfl,
      ← toBytesBE_mod len len m le_rfl, ih (Nat.mod_lt _ hpos) (Nat.mod_lt _ hpos)]
    exact compare_div_mod _ n m

/-- Strings with parts of equal length compare by the first part, then by the second. -/
theorem compare_append {a c : Bytes} (h : a.length = c.length) (b d : Bytes) :
    compare (a ++ b) (c ++ d) = (compare a c).then (compare b d) := by
  induction a generalizing c with
  | nil =>
    obtain rfl : c = [] := List.length_eq_zero_iff.1 h.symm
    rfl
  | cons x a ih =>
    cases c with
    | nil => cases h
    | cons y c =>
      rw [List.cons_append, List.cons_append, List.compare_cons_cons, List.compare_cons_cons, ih (Nat.succ.inj h), Ordering.then_assoc]

/-! ## Reading numbers back -/

/-- The number the bytes write, the most significant first. -/
def ofBytesBE : Bytes → Nat
  | [] => 0
  | b :: bs => b.toNat * 256 ^ bs.length + ofBytesBE bs

theorem ofBytesBE_toBytesBE (len n : Nat) : ofBytesBE (toBytesBE len n) = n % 256 ^ len := by
  induction len with
  | zero => simp [toBytesBE, ofBytesBE, Nat.mod_one]
  | succ len ih =>
    unfold toBytesBE ofBytesBE
    rw [ih, length_toBytesBE, UInt8.toNat_ofNat', show 2 ^ 8 = 256 from rfl, Nat.mod_pow_succ,
      mul_comm, add_comm]

/-- A number below `2 ^ 64` as eight bytes, the least significant first. -/
def uint64Bytes (n : Nat) : Bytes := (toBytesBE 8 n).reverse

def ofUint64Bytes (bytes : Bytes) : Nat := ofBytesBE bytes.reverse

@[simp] theorem length_uint64Bytes (n : Nat) : (uint64Bytes n).length = 8 := by
  simp [uint64Bytes]

theorem ofUint64Bytes_uint64Bytes {n : Nat} (h : n < 2 ^ 64) :
    ofUint64Bytes (uint64Bytes n) = n := by
  unfold ofUint64Bytes uint64Bytes
  rw [List.reverse_reverse, ofBytesBE_toBytesBE]
  exact Nat.mod_eq_of_lt (by omega)

/-! ## Digits

Digits are read one after the other, the most significant first, so what `Nat.toDigits` or a fixed
number of hexadecimal digits writes reads back. -/

section

/-- The value of a digit of a base up to 16, in either letter case. -/
def digitValue (c : Char) : Option Nat :=
  if c.isDigit then some (c.toNat - '0'.toNat)
  else if 'a' ≤ c ∧ c ≤ 'f' then some (c.toNat - 'a'.toNat + 10)
  else if 'A' ≤ c ∧ c ≤ 'F' then some (c.toNat - 'A'.toNat + 10)
  else none

/-- The digits are read in front of `n`. -/
def readDigits (base : Nat) (n : Nat) (digits : List Char) : Option Nat :=
  digits.foldlM (fun n c => (digitValue c).map (n * base + ·)) n

theorem digitValue_digitChar {d : Nat} (h : d < 16) : digitValue d.digitChar = some d := by
  interval_cases d <;> rfl

theorem readDigits_append (base n : Nat) (l l' : List Char) :
    readDigits base n (l ++ l') = (readDigits base n l).bind fun n => readDigits base n l' :=
  List.foldlM_append ..

theorem readDigits_digitChar {base n d : Nat} (h : d < 16) :
    readDigits base n [d.digitChar] = some (n * base + d) := by
  show ((digitValue d.digitChar).map (n * base + ·)).bind some = _
  rw [digitValue_digitChar h]
  rfl

theorem readDigits_toDigits {base : Nat} (hbase : 1 < base) (hle : base ≤ 16) (n : Nat) :
    readDigits base 0 (Nat.toDigits base n) = some n := by
  induction n using Nat.strong_induction_on with
  | h n ih =>
    by_cases hn : n < base
    · rw [Nat.toDigits_of_lt_base hn, readDigits_digitChar (by omega), Nat.zero_mul, Nat.zero_add]
    · rw [Nat.toDigits_of_base_le hbase (by omega), readDigits_append,
        ih (n / base) (Nat.div_lt_self (by omega) hbase)]
      have hmod : n % base < base := Nat.mod_lt n (by omega)
      show readDigits base (n / base) [(n % base).digitChar] = some n
      rw [readDigits_digitChar (by omega), Nat.div_add_mod']

theorem toDigits_injective {base : Nat} (hbase : 1 < base) (hle : base ≤ 16) :
    Function.Injective (Nat.toDigits base) := by
  intro n m h
  have hn := readDigits_toDigits hbase hle n
  rw [h, readDigits_toDigits hbase hle m] at hn
  exact (Option.some.inj hn).symm

/-! ## Byte strings -/

/-- The last `len` hexadecimal digits of `n`. -/
def hexDigits : Nat → Nat → List Char
  | 0, _ => []
  | len + 1, n => hexDigits len (n / 16) ++ [(n % 16).digitChar]

@[simp] theorem length_hexDigits (len n : Nat) : (hexDigits len n).length = len := by
  induction len generalizing n with
  | zero => rfl
  | succ len ih => rw [hexDigits, List.length_append, ih, List.length_singleton]

theorem readDigits_hexDigits {len n : Nat} (h : n < 16 ^ len) :
    readDigits 16 0 (hexDigits len n) = some n := by
  induction len generalizing n with
  | zero =>
    obtain rfl : n = 0 := by simpa using h
    rfl
  | succ len ih =>
    have hdiv : n / 16 < 16 ^ len := by
      rw [pow_succ] at h
      omega
    rw [hexDigits, readDigits_append, ih hdiv]
    show readDigits 16 (n / 16) [(n % 16).digitChar] = some n
    rw [readDigits_digitChar (Nat.mod_lt n (by omega)), Nat.div_add_mod']

/-- `toHexString` of `w / 8` bytes. -/
def toHexString {w : Nat} (bytes : BitVec w) : List Char :=
  '0' :: 'x' :: hexDigits (w / 4) bytes.toNat

@[simp] theorem length_toHexString {w : Nat} (bytes : BitVec w) :
    (toHexString bytes).length = w / 4 + 2 := by
  simp [toHexString]

theorem readDigits_toHexString {w : Nat} (hw : 4 ∣ w) (bytes : BitVec w) :
    readDigits 16 0 ((toHexString bytes).drop 2) = some bytes.toNat := by
  obtain ⟨len, rfl⟩ := hw
  apply readDigits_hexDigits
  rw [Nat.mul_div_cancel_left len (by omega)]
  calc bytes.toNat < 2 ^ (4 * len) := bytes.isLt
    _ = 16 ^ len := pow_mul 2 4 len

theorem toHexString_injective {w : Nat} (hw : 4 ∣ w) :
    Function.Injective (toHexString (w := w)) := by
  intro a b h
  have ha := readDigits_toHexString hw a
  rw [h, readDigits_toHexString hw b] at ha
  exact BitVec.eq_of_toNat_eq (Option.some.inj ha).symm

end

end Lodestar.Base
