import Lodestar.Eth1.DepositsCache

/-!
# Deposits counted up to a block

`getEth1DataForBlocks` reads the events with an index up to the number of the
last block. Those are all events up to that block, and each block gets its own
count and root, as long as no event up to the block has a greater index.
-/

namespace Lodestar.Eth1

open Lodestar.Base Lodestar.StateTransition

/-! ## The log -/

/-- The number of deposits up to a block. -/
def depositCountAt (log : List DepositEvent) (blockNumber : Nat) : Nat :=
  log.countP (·.blockNumber ≤ blockNumber)

theorem take_drop_depositCountAt {log : List DepositEvent}
    (hascending : log.Pairwise fun a b => a.blockNumber ≤ b.blockNumber) (blockNumber : Nat) :
    (∀ event ∈ log.take (depositCountAt log blockNumber), event.blockNumber ≤ blockNumber) ∧
      ∀ event ∈ log.drop (depositCountAt log blockNumber), blockNumber < event.blockNumber := by
  induction log with
  | nil => simp
  | cons event log ih =>
    obtain ⟨hevent, hlog⟩ := List.pairwise_cons.mp hascending
    obtain ⟨htake, hdrop⟩ := ih hlog
    by_cases hle : event.blockNumber ≤ blockNumber
    · have hcount : depositCountAt (event :: log) blockNumber
          = depositCountAt log blockNumber + 1 := by
        rw [depositCountAt, List.countP_cons_of_pos (by simpa using hle)]
        rfl
      rw [hcount, List.take_succ_cons, List.drop_succ_cons]
      exact ⟨List.forall_mem_cons.mpr ⟨hle, htake⟩, hdrop⟩
    · have hcount : depositCountAt (event :: log) blockNumber = 0 := by
        rw [depositCountAt, List.countP_eq_zero]
        intro other hother
        rw [decide_eq_true_iff]
        rcases List.mem_cons.mp hother with rfl | hother
        · exact hle
        · exact fun hother' => hle ((hevent other hother).trans hother')
      rw [hcount]
      refine ⟨by simp, ?_⟩
      intro other hother
      rcases List.mem_cons.mp hother with rfl | hother
      · exact Nat.lt_of_not_le hle
      · exact (Nat.lt_of_not_le hle).trans_le (hevent other hother)

section

variable [DepositCrypto]

/-- The database holds the log of the contract: each event under its index, and the tree of the
data of all events. -/
structure HoldsLog (db : Eth1Db) (log : List DepositEvent) : Prop where
  depositEvent : db.depositEvent.toList = log.map fun event => (event.index, event)
  index : ∀ (i : Nat) (event : DepositEvent), log[i]? = some event → event.index = i
  blockNumber : log.Pairwise fun a b => a.blockNumber ≤ b.blockNumber
  depositRootTree : db.depositRootTree = log.map fun event => hashTreeRoot event.depositData

end

/-! ## The latest deposits -/

/-- Each value of the map is under its block number. -/
def KeyedByBlockNumber (depositCountMap : OrderedMap Nat DepositEvent) : Prop :=
  ∀ entry ∈ depositCountMap.entries, entry.2.blockNumber = entry.1

section

variable {fromBlock toBlock blockNumber : Nat} {depositCountMap : OrderedMap Nat DepositEvent}
  {stream : List DepositEvent} {deposit : DepositEvent}

variable (toBlock deposit) in
theorem keyedByBlockNumber_takeDeposit (h : KeyedByBlockNumber depositCountMap) :
    KeyedByBlockNumber (takeDeposit toBlock depositCountMap deposit) := by
  unfold takeDeposit
  split_ifs
  · intro entry hentry
    rcases OrderedMap.mem_entries_set hentry with rfl | hentry
    · rfl
    · exact h entry hentry
  · exact h

theorem keyedByBlockNumber_collectDeposits (h : KeyedByBlockNumber depositCountMap) :
    KeyedByBlockNumber (collectDeposits fromBlock toBlock stream depositCountMap) := by
  induction stream generalizing depositCountMap with
  | nil => exact h
  | cons deposit stream ih =>
    have htake := keyedByBlockNumber_takeDeposit toBlock deposit h
    unfold collectDeposits
    by_cases hlast : deposit.blockNumber < fromBlock
    · rw [if_pos hlast]
      exact htake
    · rw [if_neg hlast]
      exact ih htake

theorem get_takeDeposit (h : depositCountMap.get blockNumber = some deposit)
    (next : DepositEvent) :
    (takeDeposit toBlock depositCountMap next).get blockNumber = some deposit := by
  unfold takeDeposit
  split_ifs with hnew
  · rw [OrderedMap.get_set_of_ne, h]
    rintro rfl
    rw [OrderedMap.has, h] at hnew
    simp at hnew
  · exact h

theorem get_collectDeposits (h : depositCountMap.get blockNumber = some deposit) :
    (collectDeposits fromBlock toBlock stream depositCountMap).get blockNumber = some deposit := by
  induction stream generalizing depositCountMap with
  | nil => exact h
  | cons next stream ih =>
    unfold collectDeposits
    by_cases hlast : next.blockNumber < fromBlock
    · rw [if_pos hlast]
      exact get_takeDeposit h next
    · rw [if_neg hlast]
      exact ih (get_takeDeposit h next)

theorem get_collectDeposits_latest {before after : List DepositEvent}
    (hfrom : fromBlock ≤ blockNumber) (hto : blockNumber ≤ toBlock)
    (hbefore : ∀ event ∈ before, blockNumber < event.blockNumber)
    (hdeposit : deposit.blockNumber ≤ blockNumber)
    (hnew : depositCountMap.get deposit.blockNumber = none) :
    (collectDeposits fromBlock toBlock (before ++ deposit :: after) depositCountMap).get
      deposit.blockNumber = some deposit := by
  induction before generalizing depositCountMap with
  | nil =>
    have htake : (takeDeposit toBlock depositCountMap deposit).get deposit.blockNumber
        = some deposit := by
      rw [takeDeposit, OrderedMap.has, hnew, if_pos (by simpa using hdeposit.trans hto)]
      exact OrderedMap.get_set_self
    rw [List.nil_append]
    unfold collectDeposits
    by_cases hlast : deposit.blockNumber < fromBlock
    · rw [if_pos hlast]
      exact htake
    · rw [if_neg hlast]
      exact get_collectDeposits htake
  | cons event before ih =>
    obtain ⟨hevent, hbefore⟩ := List.forall_mem_cons.mp hbefore
    have hne : deposit.blockNumber ≠ event.blockNumber := by omega
    rw [List.cons_append]
    unfold collectDeposits
    rw [if_neg (show ¬ event.blockNumber < fromBlock by omega)]
    apply ih hbefore
    unfold takeDeposit
    split_ifs
    · rwa [OrderedMap.get_set_of_ne hne]
    · exact hnew

theorem mem_values_takeDeposit {next : DepositEvent}
    (h : deposit ∈ (takeDeposit toBlock depositCountMap next).values) :
    deposit = next ∨ deposit ∈ depositCountMap.values := by
  unfold takeDeposit at h
  split_ifs at h
  · exact OrderedMap.mem_values_set h
  · exact .inr h

theorem mem_values_collectDeposits
    (h : deposit ∈ (collectDeposits fromBlock toBlock stream depositCountMap).values) :
    deposit ∈ stream ∨ deposit ∈ depositCountMap.values := by
  induction stream generalizing depositCountMap with
  | nil => exact .inr h
  | cons next stream ih =>
    have htake : deposit ∈ (takeDeposit toBlock depositCountMap next).values →
        deposit ∈ next :: stream ∨ deposit ∈ depositCountMap.values := by
      intro hmem
      rcases mem_values_takeDeposit hmem with rfl | hmem
      · exact .inl List.mem_cons_self
      · exact .inr hmem
    unfold collectDeposits at h
    by_cases hlast : next.blockNumber < fromBlock
    · rw [if_pos hlast] at h
      exact htake h
    · rw [if_neg hlast] at h
      rcases ih h with hmem | hmem
      · exact .inl (List.mem_cons_of_mem _ hmem)
      · exact htake hmem

theorem pairwise_getDepositsByBlockNumber :
    (getDepositsByBlockNumber fromBlock toBlock stream).Pairwise fun a b =>
      a.blockNumber < b.blockNumber := by
  have htotal : Std.Total fun a b : DepositEvent => a.blockNumber ≤ b.blockNumber :=
    ⟨fun a b => Nat.le_total a.blockNumber b.blockNumber⟩
  have htrans : IsTrans DepositEvent fun a b => a.blockNumber ≤ b.blockNumber :=
    ⟨fun _ _ _ => Nat.le_trans⟩
  set deposits := collectDeposits fromBlock toBlock stream .empty with hdeposits
  have hkeyed : KeyedByBlockNumber deposits :=
    keyedByBlockNumber_collectDeposits fun _ h => absurd h List.not_mem_nil
  have hkeys : deposits.values.map (·.blockNumber) = deposits.keys := by
    rw [OrderedMap.values, List.map_map]
    exact List.map_congr_left hkeyed
  have hdistinct : (deposits.values.map (·.blockNumber)).Nodup := by
    rw [hkeys]
    exact deposits.nodup
  have hsorted := List.pairwise_insertionSort
    (fun a b : DepositEvent => a.blockNumber ≤ b.blockNumber) deposits.values
  have hperm := (List.perm_insertionSort
    (fun a b : DepositEvent => a.blockNumber ≤ b.blockNumber) deposits.values).map (·.blockNumber)
  have hnodup := hperm.nodup_iff.mpr hdistinct
  rw [List.Nodup, List.pairwise_map] at hnodup
  exact (hsorted.and hnodup).imp fun hab => lt_of_le_of_ne hab.1 hab.2

theorem mem_getDepositsByBlockNumber :
    deposit ∈ getDepositsByBlockNumber fromBlock toBlock stream ↔
      deposit ∈ (collectDeposits fromBlock toBlock stream .empty).values :=
  List.mem_insertionSort _

theorem mem_of_mem_getDepositsByBlockNumber
    (h : deposit ∈ getDepositsByBlockNumber fromBlock toBlock stream) : deposit ∈ stream := by
  rcases mem_values_collectDeposits (mem_getDepositsByBlockNumber.mp h) with h | h
  · exact h
  · exact absurd h List.not_mem_nil

theorem binarySearchLte_getDepositsByBlockNumber {before after : List DepositEvent}
    (hfrom : fromBlock ≤ blockNumber) (hto : blockNumber ≤ toBlock)
    (hstream : stream = before ++ deposit :: after)
    (hbefore : ∀ event ∈ before, blockNumber < event.blockNumber)
    (hdeposit : deposit.blockNumber ≤ blockNumber)
    (hafter : ∀ event ∈ after, event.blockNumber ≤ deposit.blockNumber) :
    binarySearchLte (getDepositsByBlockNumber fromBlock toBlock stream) blockNumber
      (·.blockNumber) = .ok deposit := by
  have hget : (collectDeposits fromBlock toBlock (before ++ deposit :: after) .empty).get
      deposit.blockNumber = some deposit :=
    get_collectDeposits_latest hfrom hto hbefore hdeposit rfl
  rw [← hstream, OrderedMap.get_eq_some_iff] at hget
  apply binarySearchLte_eq_ok pairwise_getDepositsByBlockNumber _ hdeposit
  · intro other hother hle
    have hmem := mem_of_mem_getDepositsByBlockNumber hother
    rw [hstream] at hmem
    rcases List.mem_append.mp hmem with hmem | hmem
    · exact absurd (hbefore other hmem) (Nat.not_lt_of_le hle)
    · rcases List.mem_cons.mp hmem with rfl | hmem
      · exact le_refl _
      · exact hafter other hmem
  · exact mem_getDepositsByBlockNumber.mpr (List.mem_map_of_mem hget)

end

/-! ## Roots -/

theorem getTreeAtIndex_of_le {tree : List Root} {count : Nat} (h : count ≤ tree.length) :
    getTreeAtIndex tree (count - 1) = .ok (tree.take count) := by
  unfold getTreeAtIndex
  dsimp only
  rw [if_neg (by omega)]
  congr 2
  omega

section

variable [DepositTree]

theorem depositRoots_ok {counts : List Nat} {tree : List Root}
    (hdescending : counts.Pairwise (· ≥ ·)) (hle : ∀ count ∈ counts, count ≤ tree.length)
    (roots : OrderedMap Nat Root) :
    ∃ roots', depositRoots counts tree roots = .ok roots' ∧
      (∀ count ∈ counts, roots'.get count = some (listRoot (tree.take count))) ∧
      ∀ count ∉ counts, roots'.get count = roots.get count := by
  induction counts generalizing tree roots with
  | nil => exact ⟨roots, rfl, fun _ h => absurd h List.not_mem_nil, fun _ _ => rfl⟩
  | cons count counts ih =>
    obtain ⟨hcount, hcounts⟩ := List.forall_mem_cons.mp hle
    obtain ⟨hgreatest, hdescending⟩ := List.pairwise_cons.mp hdescending
    have hlength : ∀ other ∈ counts, other ≤ (tree.take count).length := by
      intro other hother
      have hother' : other ≤ count := hgreatest other hother
      rw [List.length_take]
      omega
    obtain ⟨roots', hroots, hmem, hnot⟩ := ih hdescending hlength
      (roots.set count (listRoot (tree.take count)))
    have hrest : ∀ other ∈ counts, roots'.get other = some (listRoot (tree.take other)) := by
      intro other hother
      rw [hmem other hother, List.take_take, min_eq_left (hgreatest other hother)]
    refine ⟨roots', ?_, ?_, ?_⟩
    · unfold depositRoots
      rw [getTreeAtIndex_of_le hcount]
      exact hroots
    · intro other hother
      by_cases hin : other ∈ counts
      · exact hrest other hin
      · obtain rfl := (List.mem_cons.mp hother).resolve_right hin
        rw [hnot _ hin, OrderedMap.get_set_self]
    · intro other hother
      rw [List.mem_cons, not_or] at hother
      rw [hnot other hother.2, OrderedMap.get_set_of_ne hother.1]

theorem getDepositRootByDepositCount_ok {counts : List Nat} {tree : List Root}
    (hle : ∀ count ∈ counts, count ≤ tree.length) :
    ∃ roots, getDepositRootByDepositCount counts tree = .ok roots ∧
      ∀ count ∈ counts, roots.get count = some (listRoot (tree.take count)) := by
  set sorted := counts.eraseDups.insertionSort (· ≥ ·) with hsorted
  have hmem : ∀ count, count ∈ sorted ↔ count ∈ counts := by
    intro count
    rw [hsorted, List.mem_insertionSort, List.mem_eraseDups]
  have hdescending : sorted.Pairwise (· ≥ ·) := List.pairwise_insertionSort _ _
  obtain ⟨roots, hroots, hget, _⟩ := depositRoots_ok hdescending
    (fun count hcount => hle count ((hmem count).mp hcount)) .empty
  refine ⟨roots, ?_, fun count hcount => hget count ((hmem count).mpr hcount)⟩
  unfold getDepositRootByDepositCount
  rw [← hsorted]
  dsimp only
  rw [if_neg, hroots]
  rintro ⟨_, hgreater⟩
  cases hhead : sorted.head? with
  | none =>
    rw [hhead] at hgreater
    simp at hgreater
    omega
  | some count =>
    rw [hhead] at hgreater
    have := hle count ((hmem count).mp (List.mem_of_mem_head? hhead))
    simp at hgreater
    omega

end

/-! ## The stream of the database -/

section

variable [DepositCrypto] {db : Eth1Db} {log : List DepositEvent} {highestBlock blockNumber : Nat}

omit [DepositCrypto] in
theorem depositCountAt_mono {a b : Nat} (h : a ≤ b) :
    depositCountAt log a ≤ depositCountAt log b := by
  apply List.countP_mono_left
  intro event _ hle
  simp only [decide_eq_true_eq] at hle ⊢
  omega

theorem HoldsLog.values_eq (h : HoldsLog db log) (highestBlock : Nat) :
    db.depositEvent.values { lte := some highestBlock, reverse := true }
      = (log.filter (·.index ≤ highestBlock)).reverse := by
  unfold KeyValues.values KeyValues.entries
  rw [h.depositEvent, List.filter_map]
  show (((log.filter _).map _).reverse).map _ = _
  rw [← List.map_reverse, List.map_map]
  exact List.map_id _

theorem HoldsLog.exists_latest (h : HoldsLog db log) (hpos : 0 < depositCountAt log blockNumber)
    (hrange : depositCountAt log blockNumber ≤ highestBlock + 1) :
    ∃ before deposit after,
      db.depositEvent.values { lte := some highestBlock, reverse := true }
        = before ++ deposit :: after ∧
      deposit.index + 1 = depositCountAt log blockNumber ∧
      deposit.blockNumber ≤ blockNumber ∧
      (∀ event ∈ before, blockNumber < event.blockNumber) ∧
      ∀ event ∈ after, event.blockNumber ≤ deposit.blockNumber := by
  obtain ⟨htake, hdrop⟩ := take_drop_depositCountAt h.blockNumber blockNumber
  obtain ⟨last, hlast⟩ := Nat.exists_eq_succ_of_ne_zero hpos.ne'
  have hle : depositCountAt log blockNumber ≤ log.length := List.countP_le_length
  have hlt : last < log.length := by omega
  have hindex : log[last].index = last := h.index last _ (List.getElem?_eq_getElem hlt)
  have hsplit : log = log.take last ++ log[last] :: log.drop (last + 1) := by
    rw [← List.drop_eq_getElem_cons hlt, List.take_append_drop]
  refine ⟨((log.drop (last + 1)).filter (·.index ≤ highestBlock)).reverse, log[last],
    ((log.take last).filter (·.index ≤ highestBlock)).reverse, ?_, by omega, ?_, ?_, ?_⟩
  · rw [h.values_eq]
    conv_lhs => rw [hsplit]
    rw [List.filter_append, List.filter_cons_of_pos (by simp only [decide_eq_true_eq]; omega)]
    simp
  · apply htake
    rw [hlast]
    exact List.mem_take_iff_getElem.mpr ⟨last, by omega, rfl⟩
  · intro event hevent
    apply hdrop
    rw [hlast]
    exact (List.mem_filter.mp (List.mem_reverse.mp hevent)).1
  · intro event hevent
    have hmem := (List.mem_filter.mp (List.mem_reverse.mp hevent)).1
    have hascending := h.blockNumber
    rw [hsplit, List.pairwise_append] at hascending
    exact hascending.2.2 event hmem _ List.mem_cons_self

theorem HoldsLog.index_lt (h : HoldsLog db log) {event : DepositEvent} (hevent : event ∈ log) :
    event.index < db.depositRootTree.length := by
  obtain ⟨i, hi, rfl⟩ := List.getElem_of_mem hevent
  rw [h.index i _ (List.getElem?_eq_getElem hi), h.depositRootTree, List.length_map]
  exact hi

variable [DepositTree]

/-! ## The eth1 data of blocks -/

/-- The deposits up to the block, all of them and no others. -/
def eth1DataOfBlock (log : List DepositEvent) (block : Eth1Block) : Eth1DataOfBlock where
  toEth1Block := block
  depositCount := depositCountAt log block.blockNumber
  depositRoot := listRoot
    ((log.take (depositCountAt log block.blockNumber)).map fun event =>
      hashTreeRoot event.depositData)

theorem HoldsLog.getEth1DataForBlock_eq (h : HoldsLog db log) {fromBlock : Nat} {block : Eth1Block}
    {roots : OrderedMap Nat Root} (hfrom : fromBlock ≤ block.blockNumber)
    (hto : block.blockNumber ≤ highestBlock)
    (hpos : 0 < depositCountAt log block.blockNumber)
    (hrange : depositCountAt log block.blockNumber ≤ highestBlock + 1)
    (hroots : ∀ deposit ∈ getDepositsByBlockNumber fromBlock highestBlock
        (db.depositEvent.values { lte := some highestBlock, reverse := true }),
      roots.get (deposit.index + 1) = some (listRoot (db.depositRootTree.take (deposit.index + 1)))) :
    getEth1DataForBlock (getDepositsByBlockNumber fromBlock highestBlock
        (db.depositEvent.values { lte := some highestBlock, reverse := true })) roots block
      = .ok (eth1DataOfBlock log block) := by
  obtain ⟨before, deposit, after, hstream, hindex, hle, hbefore, hafter⟩ :=
    h.exists_latest hpos hrange
  have hfound := binarySearchLte_getDepositsByBlockNumber hfrom hto hstream hbefore hle hafter
  have hroot := hroots deposit (mem_of_binarySearchLte hfound)
  unfold getEth1DataForBlock
  rw [hfound]
  dsimp only [bind, Except.bind, Except.mapError]
  rw [hroot]
  show Except.ok _ = _
  rw [hindex, h.depositRootTree, ← List.map_take]
  rfl

omit [DepositCrypto] in
theorem Eth1Db.getEth1DataForBlocks_eq {first last : Eth1Block} {blocks : List Eth1Block}
    {lastProcessedDepositBlockNumber : Option Nat}
    (hhead : blocks.head? = some first) (hlast : blocks.getLast? = some last)
    (hprocessed : ∀ number, lastProcessedDepositBlockNumber = some number →
      ∀ block ∈ blocks, block.blockNumber ≤ number) :
    db.getEth1DataForBlocks blocks lastProcessedDepositBlockNumber =
      let deposits := getDepositsByBlockNumber first.blockNumber last.blockNumber
        (db.depositEvent.values { lte := some last.blockNumber, reverse := true })
      if deposits.length = 0 then
        .error (.NO_DEPOSITS_FOR_BLOCK_RANGE first.blockNumber last.blockNumber)
      else
        getDepositRootByDepositCount (deposits.map (·.index + 1)) db.depositRootTree >>=
          fun roots => blocks.mapM (getEth1DataForBlock deposits roots) := by
  have hall : (blocks.filter fun block =>
      lastProcessedDepositBlockNumber.all (block.blockNumber ≤ ·)) = blocks := by
    rw [List.filter_eq_self]
    intro block hblock
    cases hnumber : lastProcessedDepositBlockNumber with
    | none => rfl
    | some number => exact decide_eq_true (hprocessed number hnumber block hblock)
  unfold Eth1Db.getEth1DataForBlocks Eth1.getEth1DataForBlocks
  rw [hall]
  dsimp only
  rw [hhead, hlast]
  rfl

theorem HoldsLog.getEth1DataForBlocks_ok (h : HoldsLog db log) {first last : Eth1Block}
    {blocks : List Eth1Block} {lastProcessedDepositBlockNumber : Option Nat}
    (hhead : blocks.head? = some first) (hlast : blocks.getLast? = some last)
    (hprocessed : ∀ number, lastProcessedDepositBlockNumber = some number →
      ∀ block ∈ blocks, block.blockNumber ≤ number)
    (hfirst : ∀ block ∈ blocks, first.blockNumber ≤ block.blockNumber)
    (hle : ∀ block ∈ blocks, block.blockNumber ≤ last.blockNumber)
    (hpos : 0 < depositCountAt log first.blockNumber)
    (hrange : depositCountAt log last.blockNumber ≤ last.blockNumber + 1) :
    db.getEth1DataForBlocks blocks lastProcessedDepositBlockNumber
      = .ok (blocks.map (eth1DataOfBlock log)) := by
  rw [Eth1Db.getEth1DataForBlocks_eq hhead hlast hprocessed]
  dsimp only
  set deposits := getDepositsByBlockNumber first.blockNumber last.blockNumber
    (db.depositEvent.values { lte := some last.blockNumber, reverse := true }) with hdeposits
  have hcounts : ∀ count ∈ deposits.map (·.index + 1), count ≤ db.depositRootTree.length := by
    intro count hcount
    obtain ⟨event, hevent, rfl⟩ := List.mem_map.mp hcount
    have hmem := mem_of_mem_getDepositsByBlockNumber hevent
    rw [h.values_eq, List.mem_reverse] at hmem
    exact h.index_lt (List.mem_filter.mp hmem).1
  obtain ⟨roots, hroots, hget⟩ := getDepositRootByDepositCount_ok hcounts
  have heach : ∀ block ∈ blocks, getEth1DataForBlock deposits roots block
      = .ok (eth1DataOfBlock log block) := by
    intro block hblock
    apply h.getEth1DataForBlock_eq (hfirst block hblock) (hle block hblock)
    · exact hpos.trans_le (depositCountAt_mono (hfirst block hblock))
    · exact (depositCountAt_mono (hle block hblock)).trans hrange
    · intro deposit hdeposit
      exact hget _ (List.mem_map_of_mem (f := fun event : DepositEvent => event.index + 1) hdeposit)
  have hnonempty : deposits.length ≠ 0 := by
    have hle' : first.blockNumber ≤ last.blockNumber := hle first (List.mem_of_mem_head? hhead)
    obtain ⟨_, deposit, _, hsplit, _, hdeposit, hbefore, hafter⟩ := h.exists_latest hpos
      ((depositCountAt_mono hle').trans hrange)
    have hfound := binarySearchLte_getDepositsByBlockNumber (le_refl first.blockNumber)
      hle' hsplit hbefore hdeposit hafter
    exact (List.length_pos_of_mem (mem_of_binarySearchLte hfound)).ne'
  rw [if_neg hnonempty, hroots]
  exact mapM_eq_ok_map_iff.mpr heach

theorem HoldsLog.depositCountAt_le (h : HoldsLog db log) {fromBlock : Nat} {block : Eth1Block}
    {roots : OrderedMap Nat Root}
    (hok : getEth1DataForBlock (getDepositsByBlockNumber fromBlock highestBlock
        (db.depositEvent.values { lte := some highestBlock, reverse := true })) roots block
      = .ok (eth1DataOfBlock log block)) :
    depositCountAt log block.blockNumber ≤ highestBlock + 1 := by
  unfold getEth1DataForBlock at hok
  obtain ⟨deposit, hdeposit, hok⟩ := eq_ok_of_bind hok
  have hcount : deposit.index + 1 = depositCountAt log block.blockNumber := by
    dsimp only at hok
    split at hok
    · cases hok
    · exact congrArg Eth1DataOfBlock.depositCount (Except.ok.inj hok)
  have hmem := mem_of_binarySearchLte (eq_ok_of_mapError hdeposit)
  have hstream := mem_of_mem_getDepositsByBlockNumber hmem
  rw [h.values_eq, List.mem_reverse, List.mem_filter, decide_eq_true_iff] at hstream
  omega

/-- The eth1 data of the blocks count exactly the deposits up to each if and only if the deposits
up to the last block all have indices up to its number. -/
theorem getEth1DataForBlocks_eq_iff (h : HoldsLog db log) {blocks : List Eth1Block}
    {lastProcessedDepositBlockNumber : Option Nat}
    (hascending : blocks.Pairwise fun a b => a.blockNumber ≤ b.blockNumber)
    (hprocessed : ∀ number, lastProcessedDepositBlockNumber = some number →
      ∀ block ∈ blocks, block.blockNumber ≤ number)
    (hfirst : ∀ block, blocks.head? = some block →
      ∃ event, log.head? = some event ∧ event.blockNumber ≤ block.blockNumber) :
    db.getEth1DataForBlocks blocks lastProcessedDepositBlockNumber
        = .ok (blocks.map (eth1DataOfBlock log)) ↔
      ∀ last, blocks.getLast? = some last →
        depositCountAt log last.blockNumber ≤ last.blockNumber + 1 := by
  cases hlast : blocks.getLast? with
  | none =>
    obtain rfl := List.getLast?_eq_none_iff.mp hlast
    exact ⟨by simp, fun _ => rfl⟩
  | some last =>
    obtain ⟨first, rest, rfl⟩ := List.exists_cons_of_ne_nil
      (List.ne_nil_of_mem (List.mem_of_getLast? hlast))
    obtain ⟨init, hinit⟩ := List.getLast?_eq_some_iff.mp hlast
    constructor
    · rintro hok _ ⟨⟩
      rw [Eth1Db.getEth1DataForBlocks_eq rfl hlast hprocessed] at hok
      dsimp only at hok
      split_ifs at hok
      obtain ⟨roots, _, hok⟩ := eq_ok_of_bind hok
      exact h.depositCountAt_le (mapM_eq_ok_map_iff.mp hok last (List.mem_of_getLast? hlast))
    · intro hrange
      apply h.getEth1DataForBlocks_ok rfl hlast hprocessed _ _ _ (hrange last rfl)
      · intro block hblock
        rcases List.mem_cons.mp hblock with rfl | hblock
        · exact le_refl _
        · exact (List.pairwise_cons.mp hascending).1 block hblock
      · intro block hblock
        rw [hinit] at hascending hblock
        rcases List.mem_append.mp hblock with hblock | hblock
        · exact (List.pairwise_append.mp hascending).2.2 block hblock last List.mem_cons_self
        · exact (congrArg Eth1Block.blockNumber (List.mem_singleton.mp hblock)).le
      · obtain ⟨event, hhead, hle⟩ := hfirst first rfl
        exact List.countP_pos_iff.mpr ⟨event, List.mem_of_mem_head? hhead, decide_eq_true hle⟩

end

local instance eventCrypto : DepositCrypto where
  digest64 left right := BitVec.ofNat 256 (left.toNat * 31 + right.toNat)
  hashTreeRoot data := BitVec.ofNat 256 (data.pubkey.toNat * 31 + data.amount)
  isValidSignature _ := true

local instance depositTree : DepositTree where
  listRoot tree := BitVec.ofNat 256 (tree.foldl (fun root leaf => root * 31 + leaf.toNat) tree.length)
  singleProof tree _ := tree

/-- A number of deposits, all of them in block 1. -/
def logOfBlock (count : Nat) : List DepositEvent :=
  (List.range count).map fun index =>
    { depositData := { pubkey := BitVec.ofNat 384 index, withdrawalCredentials := 0,
                       amount := 32000000000, signature := 0 }
      blockNumber := 1
      index }

/-- The database that holds a log. -/
def dbOf (log : List DepositEvent) : Eth1Db where
  depositEvent := .ofList (log.map fun event => (event.index, event))
  depositRootTree := log.map fun event => hashTreeRoot event.depositData

theorem holdsLog_dbOf_logOfBlock {count : Nat}
    (h : (dbOf (logOfBlock count)).depositEvent.toList
      = (logOfBlock count).map fun event => (event.index, event)) :
    HoldsLog (dbOf (logOfBlock count)) (logOfBlock count) where
  depositEvent := h
  index := by
    intro i event hevent
    rw [logOfBlock, List.getElem?_map, Option.map_eq_some_iff] at hevent
    obtain ⟨index, hindex, rfl⟩ := hevent
    obtain ⟨_, hrange⟩ := List.getElem?_eq_some_iff.mp hindex
    simpa using hrange.symm
  blockNumber := by
    rw [logOfBlock, List.pairwise_map]
    exact List.pairwise_of_forall fun _ _ => le_refl _
  depositRootTree := rfl

def blockOne : Eth1Block := { blockHash := 1, blockNumber := 1, timestamp := 14 }

/-- Two deposits in block 1 have the indices 0 and 1. -/
theorem getEth1DataForBlocks_two_deposits :
    (dbOf (logOfBlock 2)).getEth1DataForBlocks [blockOne] (some 1)
      = .ok ([blockOne].map (eth1DataOfBlock (logOfBlock 2))) :=
  (getEth1DataForBlocks_eq_iff (holdsLog_dbOf_logOfBlock (by decide +kernel)) (by simp)
    (by
      rintro _ ⟨⟩ block hblock
      rw [List.mem_singleton.mp hblock]
      exact le_refl _)
    (by
      rintro _ ⟨⟩
      exact ⟨_, rfl, le_refl _⟩)).mpr
    (by
      rintro _ ⟨⟩
      decide)

/-- Of three deposits in block 1 the last one, with the index 2, is not counted. -/
theorem getEth1DataForBlocks_three_deposits :
    ¬ ∀ (db : Eth1Db) (log : List DepositEvent) (blocks : List Eth1Block)
      (lastProcessedDepositBlockNumber : Option Nat), HoldsLog db log →
      (blocks.Pairwise fun a b => a.blockNumber ≤ b.blockNumber) →
      (∀ number, lastProcessedDepositBlockNumber = some number →
        ∀ block ∈ blocks, block.blockNumber ≤ number) →
      (∀ block, blocks.head? = some block →
        ∃ event, log.head? = some event ∧ event.blockNumber ≤ block.blockNumber) →
      db.getEth1DataForBlocks blocks lastProcessedDepositBlockNumber
        = .ok (blocks.map (eth1DataOfBlock log)) := by
  intro h
  have hdata := h (dbOf (logOfBlock 3)) (logOfBlock 3) [blockOne] (some 1)
    (holdsLog_dbOf_logOfBlock (by decide +kernel)) (by simp)
    (by
      rintro _ ⟨⟩ block hblock
      rw [List.mem_singleton.mp hblock]
      exact le_refl _)
    (by
      rintro _ ⟨⟩
      exact ⟨_, rfl, le_refl _⟩)
  have hcounts : ((dbOf (logOfBlock 3)).getEth1DataForBlocks [blockOne] (some 1)).toOption.map
      (fun data => data.map (·.depositCount)) = some [2] := by decide +kernel
  rw [hdata] at hcounts
  revert hcounts
  decide

end Lodestar.Eth1
