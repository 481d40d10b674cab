import Std.Data.TreeMap.Lemmas
import Lodestar.Base.Bytes

/-!
# Batches on a store of byte strings

A store keeps values by key, in the order of the keys. A batch of puts whose
keys are distinct and a batch of deletes are read back key by key.
-/

namespace Lodestar.Base

open Std (TreeMap)

abbrev ByteStore (β : Type) := TreeMap Bytes β

namespace ByteStore

variable {β : Type} {store : ByteStore β} {key : Bytes}

def batchPut (store : ByteStore β) (items : List (Bytes × β)) : ByteStore β :=
  items.foldl (fun store item => store.insert item.1 item.2) store

def batchDelete (store : ByteStore β) (keys : List Bytes) : ByteStore β :=
  keys.foldl (fun store key => store.erase key) store

theorem getElem?_insert (store : ByteStore β) (a : Bytes) (v : β) (key : Bytes) :
    (TreeMap.insert store a v)[key]? = if a = key then some v else store[key]? := by
  rw [TreeMap.getElem?_insert]
  simp only [Std.LawfulEqCmp.compare_eq_iff_eq]

theorem getElem?_erase (store : ByteStore β) (a key : Bytes) :
    (TreeMap.erase store a)[key]? = if a = key then none else store[key]? := by
  rw [TreeMap.getElem?_erase]
  simp only [Std.LawfulEqCmp.compare_eq_iff_eq]

theorem getElem?_batchDelete (keys : List Bytes) :
    (store.batchDelete keys)[key]? = if key ∈ keys then none else store[key]? := by
  induction keys generalizing store with
  | nil => simp [batchDelete]
  | cons a keys ih =>
    show (batchDelete (TreeMap.erase store a) keys)[key]? = _
    rw [ih, getElem?_erase]
    by_cases ha : a = key
    · simp [ha]
    · simp [ha, Ne.symm ha]

theorem getElem?_batchPut_of_notMem {items : List (Bytes × β)} (h : key ∉ items.map Prod.fst) :
    (store.batchPut items)[key]? = store[key]? := by
  induction items generalizing store with
  | nil => rfl
  | cons item items ih =>
    rw [List.map_cons, List.mem_cons, not_or] at h
    show (batchPut (TreeMap.insert store item.1 item.2) items)[key]? = _
    rw [ih h.2, getElem?_insert, if_neg (Ne.symm h.1)]

theorem getElem?_batchPut_of_mem {items : List (Bytes × β)} {v : β}
    (hnodup : (items.map Prod.fst).Nodup) (h : (key, v) ∈ items) :
    (store.batchPut items)[key]? = some v := by
  induction items generalizing store with
  | nil => exact absurd h List.not_mem_nil
  | cons item items ih =>
    obtain ⟨hnew, hnodup⟩ := List.nodup_cons.mp hnodup
    show (batchPut (TreeMap.insert store item.1 item.2) items)[key]? = _
    rcases List.mem_cons.mp h with rfl | h
    · rw [getElem?_batchPut_of_notMem hnew, getElem?_insert, if_pos rfl]
    · exact ih hnodup h

theorem mem_keys : key ∈ TreeMap.keys store ↔ ∃ v, store[key]? = some v := by
  rw [TreeMap.mem_keys, TreeMap.mem_iff_isSome_getElem?, Option.isSome_iff_exists]

end ByteStore

/-! ## Hexadecimal strings -/

namespace Bytes

/-- `toHexString` of a `Uint8Array`. -/
def toHexString (bytes : Bytes) : List Char :=
  '0' :: 'x' :: bytes.flatMap fun byte => hexDigits 2 byte.toNat

theorem flatMap_hexDigits_injective :
    Function.Injective fun bytes : Bytes => bytes.flatMap fun byte => hexDigits 2 byte.toNat := by
  intro a
  induction a with
  | nil =>
    intro b h
    cases b with
    | nil => rfl
    | cons y b => cases h
  | cons x a ih =>
    intro b h
    cases b with
    | nil => cases h
    | cons y b =>
      simp only [List.flatMap_cons] at h
      obtain ⟨hbyte, hrest⟩ := List.append_inj h (by rw [length_hexDigits, length_hexDigits])
      have hx := readDigits_hexDigits (show x.toNat < 16 ^ 2 from x.toNat_lt)
      rw [hbyte, readDigits_hexDigits (show y.toNat < 16 ^ 2 from y.toNat_lt)] at hx
      rw [ih hrest, UInt8.toNat_inj.mp (Option.some.inj hx).symm]

theorem toHexString_injective : Function.Injective toHexString := by
  intro a b h
  exact flatMap_hexDigits_injective (List.cons.inj (List.cons.inj h).2).2

end Bytes

end Lodestar.Base
