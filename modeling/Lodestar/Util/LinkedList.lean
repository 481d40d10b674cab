import Mathlib.Tactic

/-!
# Linked lists

`LinkedList` of `util/array.ts`, with its nodes at addresses of a heap of its
own: an address is an index, and a new node goes to the end. The list of the
data from head to tail is what the operations are about (`Represents`): in every
run a linked list shows what a plain list would (`run_shows`).
-/

namespace Lodestar.Util

structure Node (α : Type) where
  data : α
  next : Option Nat
  prev : Option Nat

structure LinkedList (α : Type) where
  length : Nat
  head : Option Nat
  tail : Option Nat
  heap : List (Node α)

namespace LinkedList

variable {α : Type}

def empty : LinkedList α := { length := 0, head := none, tail := none, heap := [] }

/-- `none` is the error `No head or tail`. -/
def push (this : LinkedList α) (data : α) : Option (LinkedList α) :=
  let address := this.heap.length
  if this.length = 0 then
    some {
      length := this.length + 1
      head := some address
      tail := some address
      heap := this.heap ++ [⟨data, none, none⟩] }
  else
    match this.head, this.tail with
    | some _, some tail =>
      some { this with
        length := this.length + 1
        tail := some address
        heap := (this.heap.modify tail fun node => { node with next := some address }) ++
          [⟨data, none, some tail⟩] }
    | _, _ => none

/-- `oldNode.prev = oldNode.next = null`. -/
def unlink (heap : List (Node α)) (address : Nat) : List (Node α) :=
  heap.modify address fun node => { node with next := none, prev := none }

def pop (this : LinkedList α) : Option α × LinkedList α :=
  match this.tail.bind fun tail => this.heap[tail]?.map (tail, ·) with
  | none => (none, this)
  | some (tail, oldTail) =>
    let length := this.length - 1
    if length = 0 then (some oldTail.data, { this with length, head := none, tail := none })
    else
      let heap := match oldTail.prev with
        | none => this.heap
        | some prev => this.heap.modify prev fun node => { node with next := none }
      (some oldTail.data, { this with length, tail := oldTail.prev, heap := unlink heap tail })

def shift (this : LinkedList α) : Option α × LinkedList α :=
  match this.head.bind fun head => this.heap[head]?.map (head, ·) with
  | none => (none, this)
  | some (head, oldHead) =>
    let length := this.length - 1
    if length = 0 then (some oldHead.data, { this with length, head := none, tail := none })
    else
      let heap := match oldHead.next with
        | none => this.heap
        | some next => this.heap.modify next fun node => { node with prev := none }
      (some oldHead.data, { this with length, head := oldHead.next, heap := unlink heap head })

def clear (this : LinkedList α) : LinkedList α :=
  { this with length := 0, head := none, tail := none }

/-- The walk of `toArray`, for as many nodes as there are. -/
def walk (heap : List (Node α)) : (fuel : Nat) → Option Nat → List α
  | 0, _ => []
  | _, none => []
  | fuel + 1, some address =>
    match heap[address]? with
    | none => []
    | some node => node.data :: walk heap fuel node.next

def toArray (this : LinkedList α) : List α := walk this.heap this.heap.length this.head

/-- The walk of `map`. -/
def mapWalk {β : Type} (fn : α → β) (heap : List (Node α)) : (fuel : Nat) → Option Nat → List β
  | 0, _ => []
  | _, none => []
  | fuel + 1, some address =>
    match heap[address]? with
    | none => []
    | some node => fn node.data :: mapWalk fn heap fuel node.next

def map {β : Type} (this : LinkedList α) (fn : α → β) : List β :=
  mapWalk fn this.heap this.heap.length this.head

/-! ## Nodes that are linked -/

/-- The nodes at the addresses, one after the other, hold the data and point to their neighbours:
`before` is the one before the first, `after` the one after the last. -/
def Linked (heap : List (Node α)) :
    (before : Option Nat) → (addresses : List Nat) → (data : List α) → (after : Option Nat) → Prop
  | _, [], [], _ => True
  | before, address :: addresses, a :: data, after =>
    heap[address]? = some ⟨a, addresses.head?.or after, before⟩ ∧
      Linked heap (some address) addresses data after
  | _, _, _, _ => False

variable {heap : List (Node α)} {before after : Option Nat} {addresses : List Nat} {data : List α}

theorem Linked.length_eq (h : Linked heap before addresses data after) :
    addresses.length = data.length := by
  induction addresses generalizing before data with
  | nil => cases data with
    | nil => rfl
    | cons a data => exact h.elim
  | cons address addresses ih => cases data with
    | nil => exact h.elim
    | cons a data => simpa using ih h.2

theorem Linked.congr {heap' : List (Node α)} (h : Linked heap before addresses data after)
    (hsame : ∀ address ∈ addresses, heap'[address]? = heap[address]?) :
    Linked heap' before addresses data after := by
  induction addresses generalizing before data with
  | nil => cases data with
    | nil => trivial
    | cons a data => exact h.elim
  | cons address addresses ih => cases data with
    | nil => exact h.elim
    | cons a data =>
      refine ⟨?_, ih h.2 fun x hx => hsame x (List.mem_cons_of_mem _ hx)⟩
      rw [hsame address List.mem_cons_self]
      exact h.1

theorem linked_append {addresses' : List Nat} {data' : List α}
    (hlength : addresses.length = data.length) :
    Linked heap before (addresses ++ addresses') (data ++ data') after ↔
      Linked heap before addresses data (addresses'.head?.or after) ∧
        Linked heap (addresses.getLast?.or before) addresses' data' after := by
  induction addresses generalizing before data with
  | nil =>
    obtain rfl := List.length_eq_zero_iff.1 hlength.symm
    simp [Linked]
  | cons address addresses ih =>
    cases data with
    | nil => cases hlength
    | cons a data =>
      have hnext : (addresses ++ addresses').head?.or after =
          addresses.head?.or (addresses'.head?.or after) := by
        cases addresses <;> simp
      have hbefore : addresses.getLast?.or (some address) =
          (address :: addresses).getLast?.or before := by
        cases addresses with
        | nil => rfl
        | cons b addresses =>
          obtain ⟨last, hlast⟩ : ∃ last, (b :: addresses).getLast? = some last :=
            ⟨_, List.getLast?_eq_some_getLast (by simp)⟩
          rw [List.getLast?_cons_cons, hlast]
          rfl
      simp only [List.cons_append, Linked, hnext, ih (by simpa using hlength), hbefore, and_assoc]

/-- The list has the data, from head to tail. -/
def Represents (this : LinkedList α) (data : List α) : Prop :=
  ∃ addresses, addresses.Nodup ∧ Linked this.heap none addresses data none ∧
    this.length = data.length ∧ this.head = addresses.head? ∧ this.tail = addresses.getLast?

variable {this : LinkedList α}

theorem Represents.length_eq (h : this.Represents data) : this.length = data.length := by
  obtain ⟨_, -, -, hlength, -⟩ := h
  exact hlength

theorem represents_empty : (empty : LinkedList α).Represents [] :=
  ⟨[], List.nodup_nil, trivial, rfl, rfl, rfl⟩

theorem Represents.clear : this.clear.Represents [] :=
  ⟨[], List.nodup_nil, trivial, rfl, rfl, rfl⟩

theorem Linked.lt_length (h : Linked heap before addresses data after) :
    ∀ address ∈ addresses, address < heap.length := by
  induction addresses generalizing before data with
  | nil => intro _ hx; cases hx
  | cons address addresses ih => cases data with
    | nil => exact h.elim
    | cons a data =>
      intro x hx
      rcases List.mem_cons.1 hx with rfl | hx
      · exact (List.getElem?_eq_some_iff.1 h.1).1
      · exact ih h.2 x hx

theorem Linked.walk_eq (h : Linked heap before addresses data none) {fuel : Nat}
    (hfuel : addresses.length ≤ fuel) : walk heap fuel addresses.head? = data := by
  induction addresses generalizing before data fuel with
  | nil => cases data with
    | nil => cases fuel <;> rfl
    | cons a data => exact h.elim
  | cons address addresses ih => cases data with
    | nil => exact h.elim
    | cons a data => cases fuel with
      | zero => exact absurd hfuel (by simp)
      | succ fuel =>
        simp only [List.head?_cons, walk, h.1, Option.or_none]
        rw [ih h.2 (by simpa using hfuel)]

theorem Represents.walk_eq (h : this.Represents data) {fuel : Nat}
    (hfuel : this.heap.length ≤ fuel) : walk this.heap fuel this.head = data := by
  obtain ⟨addresses, hnodup, hlinked, -, hhead, -⟩ := h
  rw [hhead]
  refine hlinked.walk_eq (le_trans ?_ hfuel)
  -- distinct addresses below the size of the heap
  have hsubset : addresses.toFinset ⊆ Finset.range this.heap.length := by
    intro x hx
    exact Finset.mem_range.2 (hlinked.lt_length x (List.mem_toFinset.1 hx))
  have hcard := Finset.card_le_card hsubset
  rwa [List.toFinset_card_of_nodup hnodup, Finset.card_range] at hcard

theorem Represents.toArray_eq (h : this.Represents data) : this.toArray = data :=
  h.walk_eq le_rfl

theorem mapWalk_eq {β : Type} (fn : α → β) (heap : List (Node α)) (fuel : Nat)
    (address? : Option Nat) :
    mapWalk fn heap fuel address? = (walk heap fuel address?).map fn := by
  induction fuel generalizing address? with
  | zero => rfl
  | succ fuel ih =>
    cases address? with
    | none => rfl
    | some address =>
      rw [mapWalk, walk]
      cases heap[address]? with
      | none => rfl
      | some node => exact congrArg (fn node.data :: ·) (ih node.next)

theorem Linked.exists_last {a : α} (h : Linked heap before addresses (data ++ [a]) after) :
    ∃ init last, addresses = init ++ [last] ∧ Linked heap before init data (some last) ∧
      heap[last]? = some ⟨a, after, init.getLast?.or before⟩ := by
  have hlength := h.length_eq
  rcases List.eq_nil_or_concat addresses with rfl | ⟨init, last, rfl⟩
  · simp at hlength
  · rw [List.concat_eq_append] at h hlength ⊢
    rw [linked_append (by simpa using hlength)] at h
    exact ⟨init, last, rfl, h.1, by simpa using h.2.1⟩

theorem Represents.push (h : this.Represents data) (a : α) :
    ∃ this', this.push a = some this' ∧ this'.Represents (data ++ [a]) := by
  obtain ⟨addresses, hnodup, hlinked, hlength, hhead, htail⟩ := h
  unfold LinkedList.push
  rcases List.eq_nil_or_concat data with rfl | ⟨init, x, rfl⟩
  · have hzero : this.length = 0 := hlength
    rw [if_pos hzero]
    refine ⟨_, rfl, [this.heap.length], List.nodup_singleton _, ⟨?_, trivial⟩, ?_, rfl, rfl⟩
    · simp
    · simpa using hlength
  · rw [List.concat_eq_append] at hlinked hlength ⊢
    obtain ⟨before, last, rfl, hinit, hlast⟩ := hlinked.exists_last
    have hnew : this.heap.length ∉ before ++ [last] := fun hmem =>
      absurd (hlinked.lt_length _ hmem) (lt_irrefl _)
    obtain ⟨first, hfirst⟩ : ∃ first, (before ++ [last]).head? = some first := by
      cases before with
      | nil => exact ⟨_, rfl⟩
      | cons first before => exact ⟨_, rfl⟩
    rw [if_neg (by simp [hlength]), hhead, htail, hfirst, List.getLast?_concat]
    have hlt := hlinked.lt_length
    -- the node at the tail now points to the new one, which is behind it
    have hold : ∀ address ∈ before, ((this.heap.modify last fun node =>
        { node with next := some this.heap.length }) ++ [⟨a, none, some last⟩])[address]? =
          this.heap[address]? := by
      intro address hmem
      have hne : last ≠ address := fun heq => (List.nodup_append.1 hnodup).2.2 address hmem last
        (List.mem_singleton_self last) heq.symm
      rw [List.getElem?_append_left (by
        simpa using hlt address (List.mem_append_left _ hmem)), List.getElem?_modify_ne _ _ hne]
    have htailNode : ((this.heap.modify last fun node =>
        { node with next := some this.heap.length }) ++ [⟨a, none, some last⟩])[last]? =
          some ⟨x, some this.heap.length, before.getLast?⟩ := by
      rw [List.getElem?_append_left (by
        simpa using hlt last (List.mem_append_right _ (List.mem_singleton_self _))),
        List.getElem?_modify_eq, hlast]
      simp
    refine ⟨_, rfl, before ++ [last] ++ [this.heap.length], ?_, ?_, by simp [hlength], ?_, by simp⟩
    · exact List.nodup_append.2 ⟨hnodup, List.nodup_singleton _, by
        rintro x hx y hy rfl
        exact hnew (List.mem_singleton.1 hy ▸ hx)⟩
    · rw [linked_append (by simpa using hlinked.length_eq), linked_append hinit.length_eq]
      refine ⟨⟨hinit.congr hold, ?_, trivial⟩, ?_, trivial⟩
      · simpa using htailNode
      · simp
    · rw [List.head?_append, hfirst]
      rfl

theorem getElem?_unlink_of_ne {address x : Nat} (h : address ≠ x) :
    (unlink heap address)[x]? = heap[x]? := List.getElem?_modify_ne _ _ h

theorem Represents.pop (h : this.Represents data) :
    this.pop.1 = data.getLast? ∧ this.pop.2.Represents data.dropLast := by
  obtain ⟨addresses, hnodup, hlinked, hlength, hhead, htail⟩ := h
  unfold LinkedList.pop
  rcases List.eq_nil_or_concat data with rfl | ⟨init, x, rfl⟩
  · obtain rfl := List.length_eq_zero_iff.1 hlinked.length_eq
    rw [htail]
    exact ⟨rfl, [], hnodup, hlinked, hlength, hhead, htail⟩
  rw [List.concat_eq_append] at hlinked hlength ⊢
  obtain ⟨before, last, rfl, hinit, hlast⟩ := hlinked.exists_last
  have hrest : this.length - 1 = init.length := by simp [hlength]
  rw [htail, List.getLast?_concat, Option.bind_some, List.getLast?_concat, List.dropLast_concat]
  rcases List.eq_nil_or_concat init with rfl | ⟨init, y, rfl⟩
  · rw [hlast]
    dsimp only [Option.map_some]
    rw [hrest, if_pos List.length_nil]
    exact ⟨rfl, [], List.nodup_nil, trivial, rfl, rfl, rfl⟩
  rw [List.concat_eq_append] at hinit hrest ⊢
  obtain ⟨before, second, rfl, hfirst, hsecond⟩ := hinit.exists_last
  rw [List.getLast?_concat, Option.some_or] at hlast
  rw [hlast]
  dsimp only [Option.map_some]
  rw [hrest, if_neg (by simp)]
  obtain ⟨hnodup, -, hne⟩ := List.nodup_append.1 hnodup
  have hlastNe : ∀ address ∈ before ++ [second], last ≠ address := fun address hmem heq =>
    hne address hmem last (List.mem_singleton_self last) heq.symm
  have hsecondNe : ∀ address ∈ before, second ≠ address := fun address hmem heq =>
    (List.nodup_append.1 hnodup).2.2 address hmem second (List.mem_singleton_self second) heq.symm
  refine ⟨rfl, before ++ [second], hnodup, ?_, rfl, ?_, List.getLast?_concat.symm⟩
  · rw [linked_append hfirst.length_eq]
    refine ⟨hfirst.congr fun address hmem => ?_, ?_, trivial⟩
    · rw [getElem?_unlink_of_ne (hlastNe _ (List.mem_append_left _ hmem)),
        List.getElem?_modify_ne _ _ (hsecondNe _ hmem)]
    · -- the node before the last is the new tail
      rw [getElem?_unlink_of_ne (hlastNe _ (List.mem_append_right _ (List.mem_singleton_self _))),
        List.getElem?_modify_eq, hsecond]
      simp
  · obtain ⟨first, hfirst⟩ : ∃ first, (before ++ [second]).head? = some first := by
      cases before with
      | nil => exact ⟨_, rfl⟩
      | cons first before => exact ⟨_, rfl⟩
    show this.head = _
    rw [hhead, List.head?_append, hfirst]
    rfl

theorem Represents.shift (h : this.Represents data) :
    this.shift.1 = data.head? ∧ this.shift.2.Represents data.tail := by
  obtain ⟨addresses, hnodup, hlinked, hlength, hhead, htail⟩ := h
  unfold LinkedList.shift
  cases data with
  | nil =>
    obtain rfl := List.length_eq_zero_iff.1 hlinked.length_eq
    rw [hhead]
    exact ⟨rfl, [], hnodup, hlinked, hlength, hhead, htail⟩
  | cons x data =>
    cases addresses with
    | nil => exact hlinked.elim
    | cons first addresses =>
      obtain ⟨hfirst, hrest⟩ := hlinked
      have hlength' : this.length - 1 = data.length := by simp [hlength]
      rw [hhead, List.head?_cons, Option.bind_some, hfirst]
      dsimp only [Option.map_some]
      rw [hlength']
      cases data with
      | nil =>
        rw [if_pos List.length_nil]
        exact ⟨rfl, [], List.nodup_nil, trivial, rfl, rfl, rfl⟩
      | cons y data =>
        cases addresses with
        | nil => exact hrest.elim
        | cons second addresses =>
          obtain ⟨hsecond, hafter⟩ := hrest
          obtain ⟨hfirstNot, hnodup⟩ := List.nodup_cons.1 hnodup
          obtain ⟨hsecondNot, -⟩ := List.nodup_cons.1 hnodup
          have hfirstNe : ∀ address ∈ second :: addresses, first ≠ address := fun address hmem heq =>
            hfirstNot (heq ▸ hmem)
          have hsecondNe : ∀ address ∈ addresses, second ≠ address := fun address hmem heq =>
            hsecondNot (heq ▸ hmem)
          rw [if_neg (by simp)]
          dsimp only [List.head?_cons, Option.some_or]
          refine ⟨rfl, second :: addresses, hnodup, ⟨?_, ?_⟩, rfl, rfl, ?_⟩
          · -- the second node is the new head
            rw [getElem?_unlink_of_ne (hfirstNe _ List.mem_cons_self),
              List.getElem?_modify_eq, hsecond]
            rfl
          · refine hafter.congr fun address hmem => ?_
            rw [getElem?_unlink_of_ne (hfirstNe _ (List.mem_cons_of_mem _ hmem)),
              List.getElem?_modify_ne _ _ (hsecondNe _ hmem)]
          · show this.tail = _
            rw [htail, List.getLast?_cons_cons]

/-! ## Mutually inverse links -/

/-- `next` and `prev` are mutually inverse. -/
def Mutual (next prev : Nat → Option Nat) : Prop :=
  ∀ a b, next a = some b ↔ prev b = some a

section Mutual

variable {next prev : Nat → Option Nat} {a b : Nat}

theorem Mutual.join (h : Mutual next prev) (ha : next a = none) (hb : prev b = none) :
    Mutual (Function.update next a (some b)) (Function.update prev b (some a)) := by
  intro x y
  have hxy := h x y
  rw [Function.update_apply, Function.update_apply]
  by_cases hx : x = a
  · subst hx
    rw [ha] at hxy
    grind
  · grind

theorem Mutual.cut (h : Mutual next prev) (hab : next a = some b) :
    Mutual (Function.update next a none) (Function.update prev b none) := by
  intro x y
  have hxy := h x y
  have hxb := h x b
  have hay := h a y
  have hba := (h a b).mp hab
  rw [Function.update_apply, Function.update_apply]
  grind

end Mutual

/-- The `next` or the `prev` of the node at an address. -/
def link (field : Node α → Option Nat) (heap : List (Node α)) (address : Nat) : Option Nat :=
  heap[address]?.bind field

section Link

variable {field : Node α → Option Nat} {f : Node α → Node α} {address : Nat}

theorem link_modify {neighbour : Option Nat} (hf : ∀ node, field (f node) = neighbour)
    (h : address < heap.length) :
    link field (heap.modify address f) = Function.update (link field heap) address neighbour := by
  funext x
  rw [link, Function.update_apply]
  by_cases hx : x = address
  · subst hx
    rw [List.getElem?_modify_eq, List.getElem?_eq_getElem h, if_pos rfl]
    exact hf _
  · rw [List.getElem?_modify_ne _ _ (Ne.symm hx), if_neg hx]
    rfl

theorem link_modify_of_same (hf : ∀ node, field (f node) = field node) :
    link field (heap.modify address f) = link field heap := by
  funext x
  rw [link, link, List.getElem?_modify]
  cases heap[x]? with
  | none => rfl
  | some node =>
    by_cases hx : address = x
    · simp [hx, hf]
    · simp [hx]

theorem link_append (node : Node α) :
    link field (heap ++ [node]) = Function.update (link field heap) heap.length (field node) := by
  funext x
  rw [link, Function.update_apply]
  rcases Nat.lt_trichotomy x heap.length with hx | rfl | hx
  · rw [List.getElem?_append_left hx, if_neg hx.ne]
    rfl
  · simp
  · rw [if_neg hx.ne', link, List.getElem?_eq_none hx.le, List.getElem?_eq_none (by simpa using hx)]

theorem link_of_le (h : heap.length ≤ address) : link field heap address = none := by
  rw [link, List.getElem?_eq_none h]
  rfl

theorem link_eq {node : Node α} (h : heap[address]? = some node) :
    link field heap address = field node := by
  rw [link, h]
  rfl

end Link

/-- The links of the nodes, of those that have left the list too. -/
def MutualLinks (this : LinkedList α) : Prop :=
  Mutual (link Node.next this.heap) (link Node.prev this.heap)

theorem Represents.prev_head (h : this.Represents data) {head : Nat}
    (hhead : this.head = some head) : link Node.prev this.heap head = none := by
  obtain ⟨addresses, -, hlinked, -, hhead', -⟩ := h
  rw [hhead] at hhead'
  cases addresses with
  | nil => cases hhead'
  | cons first addresses =>
    obtain rfl : head = first := Option.some.inj hhead'
    cases data with
    | nil => exact hlinked.elim
    | cons x data => exact link_eq hlinked.1

theorem Represents.next_tail (h : this.Represents data) {tail : Nat}
    (htail : this.tail = some tail) : link Node.next this.heap tail = none := by
  obtain ⟨addresses, -, hlinked, -, -, htail'⟩ := h
  rw [htail] at htail'
  rcases List.eq_nil_or_concat data with rfl | ⟨init, x, rfl⟩
  · obtain rfl := List.length_eq_zero_iff.1 hlinked.length_eq
    cases htail'
  · rw [List.concat_eq_append] at hlinked
    obtain ⟨before, last, rfl, -, hlast⟩ := hlinked.exists_last
    rw [List.getLast?_concat] at htail'
    obtain rfl := Option.some.inj htail'
    exact link_eq hlast

theorem mutualLinks_empty : (empty : LinkedList α).MutualLinks := by
  intro a b
  rw [link_of_le (Nat.zero_le a), link_of_le (Nat.zero_le b)]
  simp

theorem Represents.tail_lt (h : this.Represents data) {tail : Nat} (htail : this.tail = some tail) :
    tail < this.heap.length := by
  obtain ⟨addresses, -, hlinked, -, -, htail'⟩ := h
  exact hlinked.lt_length tail (List.mem_of_getLast? (htail'.symm.trans htail))

theorem Represents.mutualLinks_push {this' : LinkedList α} (h : this.Represents data)
    (hm : this.MutualLinks) {a : α} (hpush : this.push a = some this') : this'.MutualLinks := by
  have hnew : ∀ field : Node α → Option Nat, link field this.heap this.heap.length = none :=
    fun field => link_of_le le_rfl
  unfold LinkedList.push at hpush
  split_ifs at hpush with hzero
  · obtain rfl := Option.some.inj hpush
    rw [MutualLinks, link_append, link_append, Function.update_eq_self_iff.mpr (hnew _).symm,
      Function.update_eq_self_iff.mpr (hnew _).symm]
    exact hm
  · split at hpush
    · rename_i head tail hhead htail
      obtain rfl := Option.some.inj hpush
      have hlt := h.tail_lt htail
      have hlength : (this.heap.modify tail fun node =>
          { node with next := some this.heap.length }).length = this.heap.length :=
        List.length_modify _ _ _
      have hnext : link Node.next (this.heap.modify tail fun node =>
          { node with next := some this.heap.length })
            = Function.update (link Node.next this.heap) tail (some this.heap.length) :=
        link_modify (fun _ => rfl) hlt
      have hprev : link Node.prev (this.heap.modify tail fun node =>
          { node with next := some this.heap.length }) = link Node.prev this.heap :=
        link_modify_of_same fun _ => rfl
      have hsame : Function.update (link Node.next this.heap) tail (some this.heap.length)
          this.heap.length = none := by
        rw [Function.update_of_ne hlt.ne']
        exact hnew _
      rw [MutualLinks, link_append, link_append, hlength, hnext, hprev,
        Function.update_eq_self_iff.mpr hsame.symm]
      -- the tail and the new node are joined
      exact Mutual.join hm (h.next_tail htail) (hnew _)
    · cases hpush

theorem lt_of_link {field : Node α → Option Nat} {address x : Nat}
    (h : link field heap address = some x) : address < heap.length := by
  by_contra hle
  rw [link_of_le (not_lt.mp hle)] at h
  cases h

/-- The node at one end leaves: `forth` leads out of the list there, and the node that `back` leads
to is the new end. -/
theorem Mutual.remove {forth back : Node α → Option Nat} {f : Node α → Node α} {address : Nat}
    {node : Node α} (hm : Mutual (link forth heap) (link back heap))
    (hnode : heap[address]? = some node) (hend : forth node = none)
    (hforth : ∀ node, forth (f node) = none) (hback : ∀ node, back (f node) = back node)
    (hunlink : ∀ node : Node α, forth { node with next := none, prev := none } = none ∧
      back { node with next := none, prev := none } = none) :
    let heap' := unlink (match back node with
      | none => heap
      | some neighbour => heap.modify neighbour f) address
    Mutual (link forth heap') (link back heap') := by
  have hlt : address < heap.length := (List.getElem?_eq_some_iff.mp hnode).1
  have hend' : link forth heap address = none := (link_eq hnode).trans hend
  have hneighbour : link back heap address = back node := link_eq hnode
  intro heap'
  cases hb : back node with
  | none =>
    have hheap : heap' = unlink heap address := by simp only [heap', hb]
    rw [hheap, unlink, link_modify (fun node => (hunlink node).1) hlt,
      link_modify (fun node => (hunlink node).2) hlt,
      Function.update_eq_self_iff.mpr hend'.symm,
      Function.update_eq_self_iff.mpr (hneighbour.trans hb).symm]
    exact hm
  | some neighbour =>
    have hheap : heap' = unlink (heap.modify neighbour f) address := by simp only [heap', hb]
    have hjoined : link forth heap neighbour = some address :=
      (hm neighbour address).mpr (hneighbour.trans hb)
    have hlt' : address < (heap.modify neighbour f).length := by rwa [List.length_modify]
    have hcut := hm.cut hjoined
    rw [hheap, unlink, link_modify (fun node => (hunlink node).1) hlt',
      link_modify (fun node => (hunlink node).2) hlt', link_modify hforth (lt_of_link hjoined),
      link_modify_of_same hback, Function.update_eq_self_iff.mpr]
    · exact hcut
    · rw [Function.update_apply, hend', ite_self]

theorem Mutual.symm {next prev : Nat → Option Nat} (h : Mutual next prev) : Mutual prev next :=
  fun a b => (h b a).symm

theorem of_node_eq {address? : Option Nat} {address : Nat} {node : Node α}
    (h : (address?.bind fun address => heap[address]?.map (address, ·)) = some (address, node)) :
    address? = some address ∧ heap[address]? = some node := by
  obtain ⟨address', hend, h⟩ := Option.bind_eq_some_iff.mp h
  obtain ⟨node', hnode, h⟩ := Option.map_eq_some_iff.mp h
  cases h
  exact ⟨hend, hnode⟩

theorem Represents.mutualLinks_pop (h : this.Represents data) (hm : this.MutualLinks) :
    this.pop.2.MutualLinks := by
  unfold LinkedList.pop
  split
  · exact hm
  · rename_i tail oldTail heq
    obtain ⟨htail, hnode⟩ := of_node_eq heq
    have hend : oldTail.next = none := (link_eq hnode).symm.trans (h.next_tail htail)
    dsimp only
    split
    · exact hm
    · have hremoved := Mutual.remove (f := fun node => { node with next := none }) hm hnode hend
        (fun _ => rfl) (fun _ => rfl) fun _ => ⟨rfl, rfl⟩
      exact hremoved

theorem Represents.mutualLinks_shift (h : this.Represents data) (hm : this.MutualLinks) :
    this.shift.2.MutualLinks := by
  unfold LinkedList.shift
  split
  · exact hm
  · rename_i head oldHead heq
    obtain ⟨hhead, hnode⟩ := of_node_eq heq
    have hend : oldHead.prev = none := (link_eq hnode).symm.trans (h.prev_head hhead)
    dsimp only
    split
    · exact hm
    · have hremoved := Mutual.remove (f := fun node => { node with prev := none }) hm.symm hnode
        hend (fun _ => rfl) (fun _ => rfl) fun _ => ⟨rfl, rfl⟩
      exact hremoved.symm

/-! ## Runs -/

inductive Op (α : Type) where
  | push (data : α)
  | pop
  | shift
  | clear

/-- What an operation returns, `none` for `null` and for nothing at all, and the list after it.
It is `none` where the operation throws. -/
def Op.apply : Op α → LinkedList α → Option (Option α × LinkedList α)
  | .push data, this => (this.push data).map (none, ·)
  | .pop, this => some this.pop
  | .shift, this => some this.shift
  | .clear, this => some (none, this.clear)

/-- The operation on a plain list. -/
def Op.onList : Op α → List α → Option α × List α
  | .push a, data => (none, data ++ [a])
  | .pop, data => (data.getLast?, data.dropLast)
  | .shift, data => (data.head?, data.tail)
  | .clear, _ => (none, [])

/-- What the operations return, one after the other, and the list after them. -/
def run : List (Op α) → LinkedList α → Option (List (Option α) × LinkedList α)
  | [], this => some ([], this)
  | op :: ops, this => do
    let (returned, this) ← op.apply this
    let (rest, this) ← run ops this
    return (returned :: rest, this)

def runOnList : List (Op α) → List α → List (Option α) × List α
  | [], data => ([], data)
  | op :: ops, data =>
    let (returned, data) := op.onList data
    let (rest, data) := runOnList ops data
    (returned :: rest, data)

/-- What can be seen of the list, and how it hangs together. -/
structure Shows (this : LinkedList α) (data : List α) : Prop where
  length : this.length = data.length
  toArray : this.toArray = data
  map : ∀ {β : Type} (fn : α → β), this.map fn = data.map fn
  /-- More steps than there are nodes are not needed: the loops come to their end. -/
  walk : ∀ fuel, this.heap.length ≤ fuel → walk this.heap fuel this.head = data
  /-- From head to tail, each node points to the next one and to the one before. -/
  represents : this.Represents data
  links : this.MutualLinks
  head : this.head = none ↔ data = []
  tail : this.tail = none ↔ data = []

theorem Represents.ends_eq_none_iff (h : this.Represents data) :
    (this.head = none ↔ data = []) ∧ (this.tail = none ↔ data = []) := by
  obtain ⟨addresses, -, hlinked, -, hhead, htail⟩ := h
  have hempty : addresses = [] ↔ data = [] := by
    rw [← List.length_eq_zero_iff, hlinked.length_eq, List.length_eq_zero_iff]
  rw [hhead, htail, List.head?_eq_none_iff, List.getLast?_eq_none_iff]
  exact ⟨hempty, hempty⟩

theorem Represents.shows (h : this.Represents data) (hm : this.MutualLinks) : this.Shows data where
  length := h.length_eq
  toArray := h.toArray_eq
  map fn := by rw [LinkedList.map, mapWalk_eq, h.walk_eq le_rfl]
  walk fuel hfuel := h.walk_eq hfuel
  represents := h
  links := hm
  head := h.ends_eq_none_iff.1
  tail := h.ends_eq_none_iff.2

theorem Represents.apply (h : this.Represents data) (hm : this.MutualLinks) (op : Op α) :
    ∃ this', op.apply this = some ((op.onList data).1, this') ∧
      this'.Represents (op.onList data).2 ∧ this'.MutualLinks := by
  cases op with
  | push a =>
    obtain ⟨this', hpush, hthis'⟩ := h.push a
    refine ⟨this', ?_, hthis', h.mutualLinks_push hm hpush⟩
    rw [Op.apply, hpush]
    rfl
  | pop =>
    obtain ⟨hreturned, hthis'⟩ := h.pop
    exact ⟨this.pop.2, by rw [Op.apply, Op.onList, ← hreturned], hthis', h.mutualLinks_pop hm⟩
  | shift =>
    obtain ⟨hreturned, hthis'⟩ := h.shift
    exact ⟨this.shift.2, by rw [Op.apply, Op.onList, ← hreturned], hthis', h.mutualLinks_shift hm⟩
  | clear => exact ⟨this.clear, rfl, .clear, hm⟩

/-- Some operations. -/
theorem Represents.run (h : this.Represents data) (hm : this.MutualLinks) (ops : List (Op α)) :
    ∃ this', run ops this = some ((runOnList ops data).1, this') ∧
      this'.Represents (runOnList ops data).2 ∧ this'.MutualLinks := by
  induction ops generalizing this data with
  | nil => exact ⟨this, rfl, h, hm⟩
  | cons op ops ih =>
    obtain ⟨that, happly, hthat, hmthat⟩ := h.apply hm op
    obtain ⟨this', hrun, hthis', hmthis'⟩ := ih hthat hmthat
    refine ⟨this', ?_, hthis', hmthis'⟩
    rw [LinkedList.run, happly]
    simp only [Option.bind_eq_bind, Option.bind_some, hrun]
    rfl

/-- A linked list is a plain list, in every run. -/
theorem run_shows (ops : List (Op α)) :
    ∃ this', run ops (empty : LinkedList α) = some ((runOnList ops []).1, this') ∧
      this'.Shows (runOnList ops []).2 := by
  obtain ⟨this', hrun, hthis', hm⟩ := represents_empty.run mutualLinks_empty ops
  exact ⟨this', hrun, hthis'.shows hm⟩

end LinkedList

end Lodestar.Util
