import Lodestar.Base.OrderedMap

/-!
# Subnet maps

`network/peers/utils/subnetMap.ts`: requested subnets with the slot until which they
are needed. An entry outlives that slot until `getExpired` takes it out.
-/

namespace Lodestar.Network

open Lodestar.Base

structure RequestedSubnet where
  subnet : Nat
  /-- The last slot at which it is needed. -/
  toSlot : Nat

structure SubnetMap where
  subnets : OrderedMap Nat Nat

theorem map_subnet_requests {subnets : List Nat} {f : Nat → Nat} :
    (subnets.mapIdx fun i subnet => RequestedSubnet.mk subnet (f i)).map RequestedSubnet.subnet
      = subnets := by
  refine List.ext_getElem (by simp) fun i h h' => ?_
  simp

namespace SubnetMap

def empty : SubnetMap := ⟨.empty⟩

variable (this : SubnetMap)

def size : Nat := this.subnets.size

def has (subnet : Nat) : Bool := this.subnets.has subnet

/-- A subnet that is there is extended. -/
def request (requestedSubnet : RequestedSubnet) : SubnetMap :=
  ⟨this.subnets.set requestedSubnet.subnet
    (max ((this.subnets.get requestedSubnet.subnet).getD 0) requestedSubnet.toSlot)⟩

def isActiveAtSlot (subnet slot : Nat) : Bool :=
  match this.subnets.get subnet with
  | none => false
  | some toSlot => slot ≤ toSlot

def getActive (currentSlot : Nat) : List Nat :=
  (this.subnets.entries.filter (currentSlot ≤ ·.2)).map Prod.fst

/-- The loop of `getExpired` over the entries. -/
def expire (currentSlot : Nat) : List (Nat × Nat) → List Nat → SubnetMap → List Nat × SubnetMap
  | [], subnetIds, this => (subnetIds, this)
  | (subnet, toSlot) :: entries, subnetIds, this =>
    if toSlot < currentSlot then
      expire currentSlot entries (subnetIds ++ [subnet]) ⟨this.subnets.delete subnet⟩
    else expire currentSlot entries subnetIds this

def getExpired (currentSlot : Nat) : List Nat × SubnetMap :=
  expire currentSlot this.subnets.entries [] this

def getAll : List Nat := this.subnets.keys

def delete (subnet : Nat) : SubnetMap := ⟨this.subnets.delete subnet⟩

/-! ## What is held -/

variable {this} {subnet slot : Nat}

theorem has_iff_get : this.has subnet = true ↔ ∃ toSlot, this.subnets.get subnet = some toSlot := by
  unfold has OrderedMap.has
  rw [Option.isSome_iff_exists]

theorem mem_getAll_iff : subnet ∈ this.getAll ↔ this.has subnet = true := by
  unfold getAll
  rw [OrderedMap.mem_keys_iff, Option.ne_none_iff_exists', has_iff_get]

theorem has_of_isActiveAtSlot (h : this.isActiveAtSlot subnet slot = true) :
    this.has subnet = true := by
  unfold isActiveAtSlot at h
  split at h
  · cases h
  · next toSlot hget => exact has_iff_get.mpr ⟨toSlot, hget⟩

theorem has_request {requested : RequestedSubnet} :
    (this.request requested).has subnet = true
      ↔ subnet = requested.subnet ∨ this.has subnet = true := by
  unfold request has OrderedMap.has
  rw [OrderedMap.get_set]
  split_ifs with heq
  · exact iff_of_true rfl (.inl heq)
  · exact ⟨.inr, (·.resolve_left heq)⟩

theorem has_foldl_request {requests : List RequestedSubnet} :
    (requests.foldl request this).has subnet = true
      ↔ subnet ∈ requests.map RequestedSubnet.subnet ∨ this.has subnet = true := by
  induction requests generalizing this with
  | nil => exact ⟨.inr, (·.resolve_left List.not_mem_nil)⟩
  | cons requested requests ih =>
    rw [List.foldl_cons, ih, has_request, List.map_cons, List.mem_cons, or_left_comm, or_assoc]

theorem get_foldl_delete {removed : List Nat} :
    (removed.foldl delete this).subnets.get subnet
      = if subnet ∈ removed then none else this.subnets.get subnet := by
  have hmap : (removed.foldl delete this).subnets
      = removed.foldl OrderedMap.delete this.subnets :=
    (List.foldl_hom SubnetMap.subnets fun _ _ => rfl).symm
  rw [hmap]
  split_ifs with hmem
  · exact OrderedMap.get_foldl_delete_of_mem hmem
  · exact OrderedMap.get_foldl_delete_of_notMem hmem

theorem has_foldl_delete {removed : List Nat} :
    (removed.foldl delete this).has subnet = true ↔ subnet ∉ removed ∧ this.has subnet = true := by
  unfold has OrderedMap.has
  rw [get_foldl_delete]
  split_ifs with hmem
  · exact iff_of_false Bool.false_ne_true fun h => h.1 hmem
  · exact (and_iff_right hmem).symm

theorem isActiveAtSlot_foldl_delete {removed : List Nat} :
    (removed.foldl delete this).isActiveAtSlot subnet slot = true ↔
      subnet ∉ removed ∧ this.isActiveAtSlot subnet slot = true := by
  unfold isActiveAtSlot
  rw [get_foldl_delete]
  by_cases hmem : subnet ∈ removed
  · rw [if_pos hmem]
    exact iff_of_false Bool.false_ne_true fun h => h.1 hmem
  · rw [if_neg hmem]
    exact (and_iff_right hmem).symm

theorem isActiveAtSlot_foldl_request {requests : List RequestedSubnet}
    (h : subnet ∉ requests.map RequestedSubnet.subnet) :
    (requests.foldl request this).isActiveAtSlot subnet slot = this.isActiveAtSlot subnet slot := by
  induction requests generalizing this with
  | nil => rfl
  | cons requested requests ih =>
    obtain ⟨hne, hnot⟩ := not_or.mp (mt List.mem_cons.mpr h)
    refine (ih hnot).trans ?_
    unfold isActiveAtSlot request
    rw [OrderedMap.get_set_of_ne hne]

theorem isActiveAtSlot_of_le {earlier : Nat} (hle : earlier ≤ slot)
    (h : this.isActiveAtSlot subnet slot = true) :
    this.isActiveAtSlot subnet earlier = true := by
  unfold isActiveAtSlot at h ⊢
  split at h
  · cases h
  · next toSlot hget =>
    exact decide_eq_true (Nat.le_trans hle (of_decide_eq_true h))

theorem mem_getActive_iff :
    subnet ∈ this.getActive slot ↔ this.isActiveAtSlot subnet slot = true := by
  unfold getActive isActiveAtSlot
  rw [List.mem_map]
  constructor
  · rintro ⟨⟨_, toSlot⟩, hentry, rfl⟩
    obtain ⟨hmem, hactive⟩ := List.mem_filter.mp hentry
    rw [OrderedMap.get_eq_some_iff.mpr hmem]
    exact hactive
  · intro h
    split at h
    · cases h
    · next toSlot hget =>
      exact ⟨(subnet, toSlot), List.mem_filter.mpr ⟨OrderedMap.get_eq_some_iff.mp hget, h⟩, rfl⟩

/-! ## Expiry -/

theorem expire_spec {entries : List (Nat × Nat)} {subnetIds : List Nat} :
    (expire slot entries subnetIds this).1
        = subnetIds ++ (entries.filter (·.2 < slot)).map Prod.fst ∧
      (expire slot entries subnetIds this).2
        = ((entries.filter (·.2 < slot)).map Prod.fst).foldl delete this := by
  induction entries generalizing subnetIds this with
  | nil => exact ⟨(List.append_nil _).symm, rfl⟩
  | cons entry entries ih =>
    obtain ⟨subnet, toSlot⟩ := entry
    rw [expire, List.filter_cons]
    by_cases hended : toSlot < slot
    · obtain ⟨hids, hmap⟩ := @ih ⟨this.subnets.delete subnet⟩ (subnetIds ++ [subnet])
      rw [if_pos hended, if_pos (decide_eq_true hended)]
      exact ⟨hids.trans (by rw [List.append_assoc]; rfl), hmap⟩
    · rw [if_neg hended, if_neg (by simpa using hended)]
      exact ih

theorem getExpired_snd :
    (this.getExpired slot).2 = (this.getExpired slot).1.foldl delete this := by
  unfold getExpired
  rw [expire_spec.1, expire_spec.2, List.nil_append]

theorem getExpired_eq_self (h : (this.getExpired slot).1 = []) :
    (this.getExpired slot).2 = this := by
  rw [getExpired_snd, h]
  rfl

/-! ## Sizes -/

theorem size_eq_length_getAll : this.size = this.getAll.length := by
  unfold getAll OrderedMap.keys
  rw [List.length_map]
  rfl

theorem size_le_delete : this.size ≤ (this.delete subnet).size + 1 := by
  have hkeys : (this.delete subnet).getAll = this.getAll.erase subnet := by
    have hnodup : this.getAll.Nodup := this.subnets.nodup
    rw [hnodup.erase_eq_filter]
    unfold delete getAll OrderedMap.keys OrderedMap.delete
    rw [List.filter_map]
    congr 1
    refine List.filter_congr fun entry _ => ?_
    by_cases heq : entry.1 = subnet <;> simp [heq]
  rw [size_eq_length_getAll, size_eq_length_getAll, hkeys, List.length_erase]
  split_ifs <;> omega

theorem size_le_foldl_delete (removed : List Nat) :
    this.size ≤ (removed.foldl delete this).size + removed.length := by
  induction removed generalizing this with
  | nil => exact Nat.le_refl _
  | cons subnet removed ih =>
    have hone := @size_le_delete this subnet
    have hrest := @ih (this.delete subnet)
    rw [List.foldl_cons, List.length_cons]
    omega

end SubnetMap

end Lodestar.Network
