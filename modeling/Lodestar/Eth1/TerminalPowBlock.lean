import Lodestar.Base.Interleave
import Lodestar.Eth1.MergeBlockTracker

/-!
# The terminal PoW block is found

Against an honest provider the tracker sets nothing but the terminal block of
the chain. A poll of the latest block comes to it by the parent hashes, and
`fetchPreviousBlocks` by its ranges, except that the ranges never come to a
genesis block that is terminal itself.
-/

namespace Lodestar.Eth1

open Lodestar.Base

/-! ## Blocks of a chain -/

namespace Eth1Chain

variable {chain chain' : Eth1Chain} {block parent child : PowMergeBlock} {i j ttd : Nat}

theorem mem_iff : block ∈ chain.blocks ↔ chain.blocks[block.number]? = some block := by
  rw [List.mem_iff_getElem?]
  constructor
  · rintro ⟨i, hi⟩
    rwa [chain.number i block hi]
  · exact fun h => ⟨_, h⟩

theorem number_lt (h : block ∈ chain.blocks) : block.number < chain.blocks.length :=
  (List.getElem?_eq_some_iff.mp (mem_iff.mp h)).1

theorem exists_block (h : i < chain.blocks.length) :
    ∃ block ∈ chain.blocks, block.number = i ∧ chain.blocks[i]? = some block := by
  have hget : chain.blocks[i]? = some chain.blocks[i] := List.getElem?_eq_getElem h
  exact ⟨_, List.getElem_mem h, chain.number i _ hget, hget⟩

theorem totalDifficulty_lt_of_getElem? (h : i < j) (hi : chain.blocks[i]? = some parent)
    (hj : chain.blocks[j]? = some child) : parent.totalDifficulty < child.totalDifficulty := by
  induction j generalizing child with
  | zero => omega
  | succ j ih =>
    have hlt : j < chain.blocks.length := by
      have := (List.getElem?_eq_some_iff.mp hj).1
      omega
    have hget : chain.blocks[j]? = some chain.blocks[j] := List.getElem?_eq_getElem hlt
    have hstep := chain.totalDifficulty j _ _ hget hj
    rcases Nat.lt_succ_iff_lt_or_eq.mp h with h | rfl
    · exact (ih h hget).trans hstep
    · rw [hi] at hget
      rwa [Option.some.inj hget]

theorem totalDifficulty_le (hparent : parent ∈ chain.blocks) (hchild : child ∈ chain.blocks)
    (h : parent.number ≤ child.number) : parent.totalDifficulty ≤ child.totalDifficulty := by
  rw [mem_iff] at hparent hchild
  rcases h.lt_or_eq with h | h
  · exact (totalDifficulty_lt_of_getElem? h hparent hchild).le
  · rw [h, hchild] at hparent
    rw [Option.some.inj hparent]

theorem genesisBlock_mem : chain.genesisBlock ∈ chain.blocks := List.head_mem chain.ne_nil

theorem latestBlock_mem : chain.latestBlock ∈ chain.blocks := List.getLast_mem chain.ne_nil

theorem getElem?_zero : chain.blocks[0]? = some chain.genesisBlock := by
  rw [← List.head?_eq_getElem?, List.head?_eq_some_head chain.ne_nil]
  rfl

theorem genesisBlock_number : chain.genesisBlock.number = 0 := chain.number 0 _ getElem?_zero

theorem eq_genesisBlock (h : block ∈ chain.blocks) (hnumber : block.number = 0) :
    block = chain.genesisBlock := by
  rw [mem_iff, hnumber, getElem?_zero] at h
  exact (Option.some.inj h).symm

theorem eq_of_blockhash_eq (hparent : parent ∈ chain.blocks) (hchild : child ∈ chain.blocks)
    (h : parent.blockhash = child.blockhash) : parent = child :=
  List.inj_on_of_nodup_map chain.nodup hparent hchild h

theorem exists_parent (h : block ∈ chain.blocks) (hnumber : block.number ≠ 0) :
    ∃ parent ∈ chain.blocks, parent.blockhash = block.parentHash ∧
      parent.number + 1 = block.number := by
  have hlt := number_lt h
  obtain ⟨parent, hmem, hparent, hget⟩ := chain.exists_block (i := block.number - 1) (by omega)
  have hchild : chain.blocks[block.number - 1 + 1]? = some block := by
    rw [Nat.sub_add_cancel (by omega)]
    exact mem_iff.mp h
  exact ⟨parent, hmem, (chain.parentHash _ _ _ hget hchild).symm, by omega⟩

theorem parentHash_eq_zero_iff (h : block ∈ chain.blocks) :
    block.parentHash = ZERO_HASH_HEX ↔ block.number = 0 := by
  constructor
  · intro hzero
    by_contra hnumber
    obtain ⟨parent, hmem, hhash, -⟩ := exists_parent h hnumber
    exact chain.blockhash parent hmem (hhash.trans hzero)
  · intro hnumber
    rw [mem_iff, hnumber] at h
    exact chain.genesis block h

theorem number_of_blockhash (hblock : block ∈ chain.blocks) (hparent : parent ∈ chain.blocks)
    (hhash : parent.blockhash = block.parentHash) : parent.number + 1 = block.number := by
  have hnumber : block.number ≠ 0 := by
    intro hnumber
    rw [(parentHash_eq_zero_iff hblock).mpr hnumber] at hhash
    exact chain.blockhash parent hparent hhash
  obtain ⟨other, hother, hotherHash, hotherNumber⟩ := exists_parent hblock hnumber
  rwa [eq_of_blockhash_eq hparent hother (hhash.trans hotherHash.symm)]

theorem getBlockByHash_eq_some_iff {hash : RootHex} :
    chain.provider.getBlockByHash hash = some block
      ↔ block ∈ chain.blocks ∧ block.blockhash = hash := by
  constructor
  · intro h
    exact ⟨List.mem_of_find?_eq_some h, by simpa using List.find?_some h⟩
  · rintro ⟨hmem, rfl⟩
    cases hfind : chain.blocks.find? (·.blockhash = block.blockhash) with
    | none => exact absurd (List.find?_eq_none.mp hfind block hmem) (by simp)
    | some other =>
      have hother : other.blockhash = block.blockhash := by simpa using List.find?_some hfind
      rw [eq_of_blockhash_eq (List.mem_of_find?_eq_some hfind) hmem hother] at hfind
      exact hfind

/-! ## The terminal block -/

/-- The block has reached the terminal difficulty, and it is the genesis block or its parent has
not. -/
def IsTerminal (chain : Eth1Chain) (ttd : Nat) (block : PowMergeBlock) : Prop :=
  block ∈ chain.blocks ∧ ttd ≤ block.totalDifficulty ∧
    (block = chain.genesisBlock ∨ ∃ parent ∈ chain.blocks,
      parent.blockhash = block.parentHash ∧ parent.totalDifficulty < ttd)

theorem IsTerminal.number_le {other : PowMergeBlock} (h : chain.IsTerminal ttd block)
    (hother : other ∈ chain.blocks) (hdifficulty : ttd ≤ other.totalDifficulty) :
    block.number ≤ other.number := by
  obtain ⟨hmem, -, rfl | ⟨parent, hparent, hhash, hlt⟩⟩ := h
  · rw [genesisBlock_number]
    exact Nat.zero_le _
  · have hnumber := number_of_blockhash hmem hparent hhash
    by_contra hbelow
    have := totalDifficulty_le hother hparent (by omega)
    omega

/-- There is one at most. -/
theorem IsTerminal.unique {other : PowMergeBlock} (h : chain.IsTerminal ttd block)
    (hother : chain.IsTerminal ttd other) : other = block := by
  have hnumber := le_antisymm (hother.number_le h.1 h.2.1) (h.number_le hother.1 hother.2.1)
  have hblock := mem_iff.mp h.1
  have hotherGet := mem_iff.mp hother.1
  rw [hnumber, hblock] at hotherGet
  exact (Option.some.inj hotherGet).symm

/-! ## Growth -/

theorem genesisBlock_mono (h : chain.blocks <+: chain'.blocks) :
    chain'.genesisBlock = chain.genesisBlock :=
  (eq_genesisBlock (h.subset genesisBlock_mem) genesisBlock_number).symm

theorem IsTerminal.mono (hblock : chain.IsTerminal ttd block)
    (h : chain.blocks <+: chain'.blocks) : chain'.IsTerminal ttd block := by
  obtain ⟨hmem, hdifficulty, hor⟩ := hblock
  refine ⟨h.subset hmem, hdifficulty, hor.imp ?_ ?_⟩
  · exact fun heq => heq.trans (genesisBlock_mono h).symm
  · rintro ⟨parent, hparent, hrest⟩
    exact ⟨parent, h.subset hparent, hrest⟩

end Eth1Chain

/-! ## The tracker is sound -/

variable {config : ChainConfig} {chain chain' : Eth1Chain} {this : Eth1MergeBlockTracker}
  {block parent : PowMergeBlock} {ttd : Nat}

/-- The cached blocks are of the chain, under their hashes, and the merge block is terminal. -/
structure Eth1MergeBlockTracker.Sound (chain : Eth1Chain) (ttd : Nat)
    (this : Eth1MergeBlockTracker) : Prop where
  cached : ∀ (hash : RootHex) (block : PowMergeBlock), this.cachedPowBlock hash = some block →
    block ∈ chain.blocks ∧ block.blockhash = hash
  terminal : ∀ block : PowMergeBlock, this.mergeBlock = some block → chain.IsTerminal ttd block

namespace Eth1MergeBlockTracker

theorem Sound.mono (hsound : this.Sound chain ttd) (h : chain.blocks <+: chain'.blocks) :
    this.Sound chain' ttd where
  cached hash block hcached := (hsound.cached hash block hcached).imp_left fun hmem => h.subset hmem
  terminal block hblock := (hsound.terminal block hblock).mono h

theorem Sound.new {isMergeTransitionComplete : Bool} :
    (new isMergeTransitionComplete).Sound chain ttd where
  cached _ _ h := nomatch h
  terminal _ h := nomatch h

theorem Sound.setTerminalPowBlock (hsound : this.Sound chain ttd)
    (h : chain.IsTerminal ttd block) : (this.setTerminalPowBlock block).Sound chain ttd where
  cached := hsound.cached
  terminal _ hblock := Option.some.inj hblock ▸ h

theorem Sound.cacheBlock (hsound : this.Sound chain ttd) (h : block ∈ chain.blocks) :
    (this.cacheBlock block).Sound chain ttd where
  cached hash other hcached := by
    rw [cachedPowBlock, Eth1MergeBlockTracker.cacheBlock, OrderedMap.get_set] at hcached
    split_ifs at hcached with hhash
    · obtain rfl := Option.some.inj hcached
      exact ⟨h, hhash.symm⟩
    · exact hsound.cached hash other hcached
  terminal := hsound.terminal

theorem Sound.prune (hsound : this.Sound chain ttd) : this.prune.Sound chain ttd where
  cached hash block hcached := by
    refine hsound.cached hash block ?_
    rw [cachedPowBlock, Eth1MergeBlockTracker.prune] at hcached
    exact OrderedMap.get_of_get_foldl_delete hcached
  terminal := hsound.terminal

end Eth1MergeBlockTracker

/-! ## The walk -/

/-- The walk is at a block of the chain, and asks for no parent unless there is one. -/
def Walk.At (chain : Eth1Chain) (ttd : Nat) : Walk → Prop
  | .visit block => block ∈ chain.blocks
  | .fetchParent block =>
    block ∈ chain.blocks ∧ block.number ≠ 0 ∧ ttd ≤ block.totalDifficulty
  | _ => True

theorem visitParent_cases (hblock : block ∈ chain.blocks)
    (hdifficulty : config.TERMINAL_TOTAL_DIFFICULTY ≤ block.totalDifficulty)
    (hparent : parent ∈ chain.blocks) (hhash : parent.blockhash = block.parentHash) :
    (chain.IsTerminal config.TERMINAL_TOTAL_DIFFICULTY block ∧
      visitParent config block parent this = (.returned, this.setTerminalPowBlock block)) ∨
    (config.TERMINAL_TOTAL_DIFFICULTY ≤ parent.totalDifficulty ∧
      visitParent config block parent this = (.visit parent, this)) := by
  unfold visitParent
  by_cases hlt : parent.totalDifficulty < config.TERMINAL_TOTAL_DIFFICULTY
  · rw [if_pos ⟨hdifficulty, hlt⟩]
    exact .inl ⟨⟨hblock, hdifficulty, .inr ⟨parent, hparent, hhash, hlt⟩⟩, rfl⟩
  · have hne : ¬ parent.blockhash = block.blockhash := by
      intro heq
      have hnumber := Eth1Chain.number_of_blockhash hblock hparent hhash
      rw [Eth1Chain.eq_of_blockhash_eq hparent hblock heq] at hnumber
      omega
    rw [if_neg fun h => hlt h.2, if_neg hne]
    exact .inr ⟨not_lt.mp hlt, rfl⟩

theorem walkTurn_visit (hsound : this.Sound chain config.TERMINAL_TOTAL_DIFFICULTY)
    (hblock : block ∈ chain.blocks)
    (hdifficulty : config.TERMINAL_TOTAL_DIFFICULTY ≤ block.totalDifficulty) :
    (chain.IsTerminal config.TERMINAL_TOTAL_DIFFICULTY block ∧
      walkTurn config chain.provider this (.visit block)
        = (.returned, this.setTerminalPowBlock block)) ∨
    (∃ parent ∈ chain.blocks, parent.number + 1 = block.number ∧
      config.TERMINAL_TOTAL_DIFFICULTY ≤ parent.totalDifficulty ∧
      walkTurn config chain.provider this (.visit block) = (.visit parent, this)) ∨
    (block.number ≠ 0 ∧
      walkTurn config chain.provider this (.visit block) = (.fetchParent block, this)) := by
  rw [walkTurn, if_neg (not_lt.mpr hdifficulty)]
  split_ifs with hzero
  · have hgenesis :=
      Eth1Chain.eq_genesisBlock hblock ((Eth1Chain.parentHash_eq_zero_iff hblock).mp hzero)
    exact .inl ⟨⟨hblock, hdifficulty, .inl hgenesis⟩, rfl⟩
  · rw [Eth1Chain.parentHash_eq_zero_iff hblock] at hzero
    cases hcached : this.cachedPowBlock block.parentHash with
    | none => exact .inr (.inr ⟨hzero, rfl⟩)
    | some parent =>
      obtain ⟨hparent, hhash⟩ := hsound.cached _ _ hcached
      rcases visitParent_cases hblock hdifficulty hparent hhash with h | h
      · exact .inl h
      · exact .inr (.inl
          ⟨parent, hparent, Eth1Chain.number_of_blockhash hblock hparent hhash, h⟩)

theorem walkTurn_fetchParent (this : Eth1MergeBlockTracker) (hblock : block ∈ chain.blocks) (hnumber : block.number ≠ 0)
    (hdifficulty : config.TERMINAL_TOTAL_DIFFICULTY ≤ block.totalDifficulty) :
    ∃ parent ∈ chain.blocks, parent.number + 1 = block.number ∧
      ((chain.IsTerminal config.TERMINAL_TOTAL_DIFFICULTY block ∧
        walkTurn config chain.provider this (.fetchParent block)
          = (.returned, (this.cacheBlock parent).setTerminalPowBlock block)) ∨
      (config.TERMINAL_TOTAL_DIFFICULTY ≤ parent.totalDifficulty ∧
        walkTurn config chain.provider this (.fetchParent block)
          = (.visit parent, this.cacheBlock parent))) := by
  obtain ⟨parent, hparent, hhash, hparentNumber⟩ := Eth1Chain.exists_parent hblock hnumber
  have hanswer := Eth1Chain.getBlockByHash_eq_some_iff.mpr ⟨hparent, hhash⟩
  refine ⟨parent, hparent, hparentNumber, ?_⟩
  rw [walkTurn, hanswer]
  exact visitParent_cases hblock hdifficulty hparent hhash

/-! ## The ranges -/

theorem findTerminalPair_eq_some {blocks : List PowMergeBlock} {child : PowMergeBlock}
    (h : findTerminalPair config blocks = some (parent, child)) :
    ∃ i, blocks[i]? = some parent ∧ blocks[i + 1]? = some child ∧
      config.TERMINAL_TOTAL_DIFFICULTY ≤ child.totalDifficulty ∧
      parent.totalDifficulty < config.TERMINAL_TOTAL_DIFFICULTY := by
  fun_induction findTerminalPair config blocks with
  | case1 first second blocks hpair =>
    obtain ⟨rfl, rfl⟩ := Prod.mk.inj (Option.some.inj h)
    exact ⟨0, rfl, rfl, hpair⟩
  | case2 first second blocks hpair ih =>
    obtain ⟨i, hi⟩ := ih h
    exact ⟨i + 1, hi⟩
  | case3 => cases h

/-- Without such a pair the blocks after one that has reached the terminal difficulty have reached
it, and so have those before it. -/
theorem findTerminalPair_eq_none {first : PowMergeBlock} {blocks : List PowMergeBlock}
    (h : findTerminalPair config (first :: blocks) = none)
    (hblock : block ∈ first :: blocks)
    (hdifficulty : config.TERMINAL_TOTAL_DIFFICULTY ≤ block.totalDifficulty) :
    config.TERMINAL_TOTAL_DIFFICULTY ≤ first.totalDifficulty := by
  induction blocks generalizing first with
  | nil =>
    obtain rfl := List.mem_singleton.mp hblock
    exact hdifficulty
  | cons second blocks ih =>
    rw [findTerminalPair] at h
    split_ifs at h with hpair
    rcases List.mem_cons.mp hblock with rfl | hblock
    · exact hdifficulty
    · have := ih h hblock
      by_contra hfirst
      exact hpair ⟨this, not_le.mp hfirst⟩

theorem le_foldl_min {l : List Nat} {a b : Nat} :
    a ≤ l.foldl min b ↔ a ≤ b ∧ ∀ c ∈ l, a ≤ c := by
  induction l generalizing b with
  | nil => simp
  | cons c l ih => rw [List.foldl_cons, ih, le_min_iff, List.forall_mem_cons, and_assoc]

namespace Eth1Chain

variable {fromBlock toBlock i : Nat}

theorem getElem?_getBlocksByNumber :
    (chain.provider.getBlocksByNumber fromBlock toBlock)[i]?
      = if i < toBlock + 1 - fromBlock then chain.blocks[fromBlock + i]? else none := by
  rw [provider, List.getElem?_take, List.getElem?_drop]

theorem length_getBlocksByNumber (h : toBlock < chain.blocks.length) :
    (chain.provider.getBlocksByNumber fromBlock toBlock).length = toBlock + 1 - fromBlock := by
  simp only [provider, List.length_take, List.length_drop]
  omega

theorem number_of_mem_getBlocksByNumber
    (h : block ∈ chain.provider.getBlocksByNumber fromBlock toBlock) :
    block ∈ chain.blocks ∧ fromBlock ≤ block.number ∧ block.number ≤ toBlock := by
  obtain ⟨i, hi⟩ := List.mem_iff_getElem?.mp h
  rw [getElem?_getBlocksByNumber] at hi
  split_ifs at hi with hlt
  have hnumber := chain.number _ _ hi
  exact ⟨List.mem_of_getElem? hi, by omega, by omega⟩

theorem mem_getBlocksByNumber (h : block ∈ chain.blocks) (hfrom : fromBlock ≤ block.number)
    (hto : block.number ≤ toBlock) :
    block ∈ chain.provider.getBlocksByNumber fromBlock toBlock := by
  refine List.mem_iff_getElem?.mpr ⟨block.number - fromBlock, ?_⟩
  rw [getElem?_getBlocksByNumber, if_pos (by omega), Nat.add_sub_cancel' hfrom]
  exact mem_iff.mp h

theorem getBlocksByNumber_eq_cons (hle : fromBlock ≤ toBlock) (h : toBlock < chain.blocks.length) :
    ∃ first ∈ chain.blocks, first.number = fromBlock ∧
      ∃ blocks, chain.provider.getBlocksByNumber fromBlock toBlock = first :: blocks := by
  obtain ⟨first, hfirst, hnumber, hget⟩ := chain.exists_block (i := fromBlock) (by omega)
  refine ⟨first, hfirst, hnumber, List.head?_eq_some_iff.mp ?_⟩
  rw [List.head?_eq_getElem?, getElem?_getBlocksByNumber, if_pos (by omega), Nat.add_zero, hget]

theorem foldl_min_getBlocksByNumber (hle : fromBlock ≤ toBlock)
    (h : toBlock < chain.blocks.length) :
    ((chain.provider.getBlocksByNumber fromBlock toBlock).map (·.number)).foldl min toBlock
      = fromBlock := by
  obtain ⟨first, -, hnumber, blocks, heq⟩ := chain.getBlocksByNumber_eq_cons hle h
  have hbelow : ∀ number ∈ (first :: blocks).map (·.number), fromBlock ≤ number := by
    intro number hmap
    obtain ⟨other, hother, rfl⟩ := List.mem_map.mp hmap
    exact (number_of_mem_getBlocksByNumber (heq ▸ hother)).2.1
  rw [heq]
  apply le_antisymm
  · rw [List.map_cons, List.foldl_cons, hnumber, min_eq_right hle]
    exact (le_foldl_min.mp le_rfl).1
  · exact le_foldl_min.mpr ⟨hle, hbelow⟩

theorem isTerminal_of_findTerminalPair
    (h : findTerminalPair config (chain.provider.getBlocksByNumber fromBlock toBlock)
      = some (parent, block)) :
    chain.IsTerminal config.TERMINAL_TOTAL_DIFFICULTY block ∧ parent ∈ chain.blocks ∧
      parent.totalDifficulty < config.TERMINAL_TOTAL_DIFFICULTY ∧
      block.parentHash = parent.blockhash := by
  obtain ⟨i, hparent, hchild, hdifficulty, hlt⟩ := findTerminalPair_eq_some h
  rw [getElem?_getBlocksByNumber] at hparent hchild
  split_ifs at hparent with h1
  split_ifs at hchild with h2
  have hhash := chain.parentHash _ _ _ hparent hchild
  have hmem := List.mem_of_getElem? hparent
  exact ⟨⟨List.mem_of_getElem? hchild, hdifficulty, .inr ⟨parent, hmem, hhash.symm, hlt⟩⟩, hmem, hlt,
    hhash⟩

end Eth1Chain

/-- A round asks again if it is at the genesis block; else it sets the terminal block, or it has
come to blocks that have all reached the terminal difficulty if the last one has, and goes on from
the first of them unless that is the genesis block. -/
theorem rangeTurn_cases (config : ChainConfig) (this : Eth1MergeBlockTracker)
    {minFetchedBlockNumber : Nat} (h : minFetchedBlockNumber < chain.blocks.length) :
    (minFetchedBlockNumber = 0 ∧
      rangeTurn config chain.provider minFetchedBlockNumber this = (.fetchRange 0, this)) ∨
    (∃ block, chain.IsTerminal config.TERMINAL_TOTAL_DIFFICULTY block ∧
      (∃ parent ∈ chain.blocks, parent.totalDifficulty < config.TERMINAL_TOTAL_DIFFICULTY) ∧
      rangeTurn config chain.provider minFetchedBlockNumber this
        = (.returned, this.setTerminalPowBlock block)) ∨
    (∃ first ∈ chain.blocks, first.number < minFetchedBlockNumber ∧
      (∀ block ∈ chain.blocks, block.number = minFetchedBlockNumber →
        config.TERMINAL_TOTAL_DIFFICULTY ≤ block.totalDifficulty →
        config.TERMINAL_TOTAL_DIFFICULTY ≤ first.totalDifficulty) ∧
      rangeTurn config chain.provider minFetchedBlockNumber this
        = (if first.number = 0 then .returned else .fetchRange first.number, this)) := by
  obtain ⟨fromBlock, hfrom⟩ : ∃ fromBlock, fromBlock
      = max 0 (minFetchedBlockNumber - MAX_BLOCKS_PER_PAST_REQUEST) := ⟨_, rfl⟩
  have hle : fromBlock ≤ minFetchedBlockNumber := by omega
  obtain ⟨first, hfirst, hnumber, blocks, heq⟩ := chain.getBlocksByNumber_eq_cons hle h
  simp only [rangeTurn, ← hfrom, Eth1Chain.length_getBlocksByNumber h,
    Eth1Chain.foldl_min_getBlocksByNumber hle h]
  rcases Nat.eq_zero_or_pos minFetchedBlockNumber with rfl | hpos
  · exact .inl ⟨rfl, if_pos (by omega)⟩
  have hlt : fromBlock < minFetchedBlockNumber := by
    unfold MAX_BLOCKS_PER_PAST_REQUEST at hfrom
    omega
  rw [if_neg (by omega)]
  cases hpair : findTerminalPair config
      (chain.provider.getBlocksByNumber fromBlock minFetchedBlockNumber) with
  | some pair =>
    obtain ⟨hterminal, hmem, hbelow, hhash⟩ := Eth1Chain.isTerminal_of_findTerminalPair hpair
    exact .inr (.inl ⟨pair.2, hterminal, ⟨pair.1, hmem, hbelow⟩, if_pos hhash⟩)
  | none =>
    refine .inr (.inr ⟨first, hfirst, hnumber ▸ hlt, ?_, ?_⟩)
    · intro block hblock hlast hdifficulty
      have hmem : block ∈ chain.provider.getBlocksByNumber fromBlock minFetchedBlockNumber :=
        Eth1Chain.mem_getBlocksByNumber hblock (by omega) hlast.le
      rw [heq] at hpair hmem
      exact findTerminalPair_eq_none hpair hmem hdifficulty
    · subst hnumber
      by_cases hzero : first.number = 0
      · simp [hzero]
      · simp [hzero]

/-! ## Turns of a task -/

/-- What the task waits for is there. -/
def Task.At (chain : Eth1Chain) (ttd : Nat) : Task → Prop
  | .terminalBlockHash => False
  | .pollWalk walk => walk.At chain ttd
  | .fetchRange minFetchedBlockNumber => minFetchedBlockNumber < chain.blocks.length
  | .rangeWalk _ _ => False
  | _ => True

theorem Walk.At.mono {walk : Walk} (hwalk : walk.At chain ttd)
    (h : chain.blocks <+: chain'.blocks) : walk.At chain' ttd := by
  cases walk with
  | visit block => exact h.subset hwalk
  | fetchParent block => exact ⟨h.subset hwalk.1, hwalk.2⟩
  | returned => trivial
  | threw message => trivial

theorem Task.At.mono {task : Task} (htask : task.At chain ttd)
    (h : chain.blocks <+: chain'.blocks) : task.At chain' ttd := by
  cases task with
  | pollWalk walk => exact Walk.At.mono htask h
  | fetchRange minFetchedBlockNumber => exact lt_of_lt_of_le htask h.length_le
  | terminalBlockHash => exact htask
  | rangeWalk minFetchedBlockNumber walk => exact htask
  | getPowBlock powBlockHash => trivial
  | pollLatestBlock => trivial
  | fetchPreviousBlocks => trivial
  | returned => trivial
  | threw message => trivial

/-- The tracker is sound, and a merge block stays set. -/
def Eth1MergeBlockTracker.Becomes (chain : Eth1Chain) (ttd : Nat)
    (this this' : Eth1MergeBlockTracker) : Prop :=
  this'.Sound chain ttd ∧ (this.mergeBlock.isSome = true → this'.mergeBlock.isSome = true)

theorem Eth1MergeBlockTracker.Sound.becomes_set (hsound : this.Sound chain ttd)
    (h : chain.IsTerminal ttd block) : this.Becomes chain ttd (this.setTerminalPowBlock block) :=
  ⟨hsound.setTerminalPowBlock h, fun _ => rfl⟩

theorem walkTurn_sound {walk : Walk} (hsound : this.Sound chain config.TERMINAL_TOTAL_DIFFICULTY)
    (hwalk : walk.At chain config.TERMINAL_TOTAL_DIFFICULTY) :
    this.Becomes chain config.TERMINAL_TOTAL_DIFFICULTY
        (walkTurn config chain.provider this walk).2 ∧
      (walkTurn config chain.provider this walk).1.At chain config.TERMINAL_TOTAL_DIFFICULTY := by
  cases walk with
  | visit block =>
    by_cases hdifficulty : config.TERMINAL_TOTAL_DIFFICULTY ≤ block.totalDifficulty
    · rcases walkTurn_visit hsound hwalk hdifficulty with
        ⟨hterminal, h⟩ | ⟨parent, hparent, -, -, h⟩ | ⟨hnumber, h⟩
      · rw [h]
        exact ⟨hsound.becomes_set hterminal, trivial⟩
      · rw [h]
        exact ⟨⟨hsound, id⟩, hparent⟩
      · rw [h]
        exact ⟨⟨hsound, id⟩, hwalk, hnumber, hdifficulty⟩
    · rw [walkTurn, if_pos (not_le.mp hdifficulty)]
      exact ⟨⟨hsound, id⟩, trivial⟩
  | fetchParent block =>
    obtain ⟨hblock, hnumber, hdifficulty⟩ := hwalk
    obtain ⟨parent, hparent, -, ⟨hterminal, h⟩ | ⟨-, h⟩⟩ :=
      walkTurn_fetchParent this hblock hnumber hdifficulty
    · rw [h]
      exact ⟨(hsound.cacheBlock hparent).becomes_set hterminal, trivial⟩
    · rw [h]
      exact ⟨⟨hsound.cacheBlock hparent, id⟩, hparent⟩
  | returned => exact ⟨⟨hsound, id⟩, trivial⟩
  | threw message => exact ⟨⟨hsound, id⟩, trivial⟩

theorem rangeTurn_sound {minFetchedBlockNumber : Nat}
    (hsound : this.Sound chain config.TERMINAL_TOTAL_DIFFICULTY)
    (h : minFetchedBlockNumber < chain.blocks.length) :
    this.Becomes chain config.TERMINAL_TOTAL_DIFFICULTY
        (rangeTurn config chain.provider minFetchedBlockNumber this).2 ∧
      (rangeTurn config chain.provider minFetchedBlockNumber this).1.At chain
        config.TERMINAL_TOTAL_DIFFICULTY := by
  rcases rangeTurn_cases config this h with ⟨rfl, h⟩ | ⟨block, hterminal, -, h⟩ | ⟨first, hfirst, -, -, h⟩
  · rw [h]
    exact ⟨⟨hsound, id⟩, ‹_›⟩
  · rw [h]
    exact ⟨hsound.becomes_set hterminal, trivial⟩
  · rw [h]
    refine ⟨⟨hsound, id⟩, ?_⟩
    split_ifs
    · trivial
    · exact Eth1Chain.number_lt hfirst

theorem Task.turn_getPowBlock (powBlockHash : RootHex) :
    (Task.getPowBlock powBlockHash).turn config chain.provider this
      = (.returned, this.receivePowBlock (chain.provider.getBlockByHash powBlockHash)) := rfl

theorem Task.turn_fetchPreviousBlocks :
    Task.fetchPreviousBlocks.turn config chain.provider this =
      if chain.latestBlock.totalDifficulty < config.TERMINAL_TOTAL_DIFFICULTY then (.returned, this)
      else (.fetchRange chain.latestBlock.number, this) := rfl

theorem Task.turn_fetchRange (minFetchedBlockNumber : Nat) :
    (Task.fetchRange minFetchedBlockNumber).turn config chain.provider this
      = rangeTurn config chain.provider minFetchedBlockNumber this := rfl

/-- The walk of a poll, as a task. -/
def Walk.poll : Walk → Task
  | .returned => .returned
  | .threw message => .threw message
  | walk => .pollWalk walk

theorem Walk.At.poll {walk : Walk} (h : walk.At chain ttd) : walk.poll.At chain ttd := by
  cases walk with
  | visit block => exact h
  | fetchParent block => exact h
  | returned => trivial
  | threw message => trivial

theorem Task.turn_pollWalk (walk : Walk) :
    (Task.pollWalk walk).turn config chain.provider this
      = ((walkTurn config chain.provider this walk).1.poll,
        (walkTurn config chain.provider this walk).2) := by
  unfold Task.turn
  dsimp only
  obtain ⟨next, this'⟩ := walkTurn config chain.provider this walk
  cases next <;> rfl

theorem Task.turn_sound {task : Task} (hsound : this.Sound chain config.TERMINAL_TOTAL_DIFFICULTY)
    (htask : task.At chain config.TERMINAL_TOTAL_DIFFICULTY) :
    this.Becomes chain config.TERMINAL_TOTAL_DIFFICULTY
        (task.turn config chain.provider this).2 ∧
      (task.turn config chain.provider this).1.At chain config.TERMINAL_TOTAL_DIFFICULTY := by
  cases task with
  | terminalBlockHash => exact htask.elim
  | rangeWalk minFetchedBlockNumber walk => exact htask.elim
  | getPowBlock powBlockHash =>
    rw [Task.turn_getPowBlock]
    refine ⟨?_, trivial⟩
    cases hanswer : chain.provider.getBlockByHash powBlockHash with
    | none => exact ⟨hsound, id⟩
    | some block =>
      exact ⟨hsound.cacheBlock (Eth1Chain.getBlockByHash_eq_some_iff.mp hanswer).1, id⟩
  | pollLatestBlock =>
    exact ⟨⟨hsound.cacheBlock Eth1Chain.latestBlock_mem, id⟩, Eth1Chain.latestBlock_mem⟩
  | pollWalk walk =>
    have hwalk := walkTurn_sound hsound htask
    rw [Task.turn_pollWalk]
    exact ⟨hwalk.1, hwalk.2.poll⟩
  | fetchPreviousBlocks =>
    rw [Task.turn_fetchPreviousBlocks]
    split_ifs
    · exact ⟨⟨hsound, id⟩, trivial⟩
    · exact ⟨⟨hsound, id⟩, Eth1Chain.number_lt Eth1Chain.latestBlock_mem⟩
  | fetchRange minFetchedBlockNumber =>
    rw [Task.turn_fetchRange]
    exact rangeTurn_sound hsound htask
  | returned => exact ⟨⟨hsound, id⟩, trivial⟩
  | threw message => exact ⟨⟨hsound, id⟩, trivial⟩

/-! ## Runs are sound -/

variable {world : World} {step : Step} {steps : List Step} {i n : Nat}

namespace World

structure Sound (config : ChainConfig) (world : World) : Prop where
  tracker : world.tracker.Sound world.chain config.TERMINAL_TOTAL_DIFFICULTY
  tasks : ∀ task ∈ world.tasks, task.At world.chain config.TERMINAL_TOTAL_DIFFICULTY

theorem Sound.start {isMergeTransitionComplete : Bool} :
    (start isMergeTransitionComplete chain).Sound config where
  tracker := .new
  tasks _ h := nomatch h

theorem startFinding_cases (this : Eth1MergeBlockTracker)
    (hunset : config.TERMINAL_BLOCK_HASH = ZERO_HASH_HEX) :
    startFinding config this = ([], this) ∨
      startFinding config this
        = ([.fetchPreviousBlocks], { this with status := .SEARCHING, intervals := true }) := by
  unfold startFinding
  split_ifs with hstatus hset
  · exact .inl rfl
  · exact absurd hunset hset
  · exact .inr rfl

theorem Sound.next (hunset : config.TERMINAL_BLOCK_HASH = ZERO_HASH_HEX)
    (h : world.Sound config) (step : Step) :
    (world.next config step).Sound config ∧
      world.chain.blocks <+: (world.next config step).chain.blocks ∧
      (world.tracker.mergeBlock.isSome = true →
        (world.next config step).tracker.mergeBlock.isSome = true) := by
  cases step with
  | grow chain =>
    unfold World.next
    dsimp only
    split_ifs with hprefix
    · exact ⟨⟨h.tracker.mono hprefix, fun task htask => (h.tasks task htask).mono hprefix⟩,
        hprefix, id⟩
    · exact ⟨h, List.prefix_rfl, id⟩
  | startFinding =>
    unfold World.next
    rcases startFinding_cases world.tracker hunset with heq | heq
    · rw [heq]
      exact ⟨⟨h.tracker, by simpa using h.tasks⟩, List.prefix_rfl, id⟩
    · rw [heq]
      refine ⟨⟨⟨h.tracker.cached, h.tracker.terminal⟩, ?_⟩, List.prefix_rfl, id⟩
      rw [List.forall_mem_append, List.forall_mem_singleton]
      exact ⟨h.tasks, trivial⟩
  | intervalPoll =>
    unfold World.next
    dsimp only
    split_ifs
    · refine ⟨⟨h.tracker, ?_⟩, List.prefix_rfl, id⟩
      rw [List.forall_mem_append, List.forall_mem_singleton]
      exact ⟨h.tasks, trivial⟩
    · exact ⟨h, List.prefix_rfl, id⟩
  | intervalPrune =>
    unfold World.next
    dsimp only
    split_ifs
    · exact ⟨⟨h.tracker.prune, h.tasks⟩, List.prefix_rfl, id⟩
    · exact ⟨h, List.prefix_rfl, id⟩
  | getPowBlock powBlockHash =>
    unfold World.next
    dsimp only
    split
    · exact ⟨h, List.prefix_rfl, id⟩
    · refine ⟨⟨h.tracker, ?_⟩, List.prefix_rfl, id⟩
      rw [List.forall_mem_append, List.forall_mem_singleton]
      exact ⟨h.tasks, trivial⟩
  | mergeCompleted => exact ⟨⟨⟨h.tracker.cached, h.tracker.terminal⟩, h.tasks⟩, List.prefix_rfl, id⟩
  | turn j =>
    unfold World.next
    dsimp only
    split
    · rename_i task heq
      have hturn := Task.turn_sound h.tracker (h.tasks task (List.mem_of_getElem? heq))
      refine ⟨⟨hturn.1.1, fun other hother => ?_⟩, List.prefix_rfl, hturn.1.2⟩
      rcases List.mem_or_eq_of_mem_set hother with hmem | rfl
      · exact h.tasks other hmem
      · exact hturn.2
    · exact ⟨h, List.prefix_rfl, id⟩

theorem Sound.run (hunset : config.TERMINAL_BLOCK_HASH = ZERO_HASH_HEX)
    (h : world.Sound config) (steps : List Step) : (world.run config steps).Sound config := by
  induction steps generalizing world with
  | nil => exact h
  | cons step steps ih => exact ih (h.next hunset step).1

theorem getElem?_tasks_next {task : Task} (hstep : step ≠ .turn i)
    (h : world.tasks[i]? = some task) : (world.next config step).tasks[i]? = some task := by
  have hlt := (List.getElem?_eq_some_iff.mp h).1
  cases step with
  | grow chain =>
    unfold World.next
    dsimp only
    split_ifs <;> exact h
  | startFinding => exact (List.getElem?_append_left hlt).trans h
  | intervalPoll =>
    unfold World.next
    dsimp only
    split_ifs
    · exact (List.getElem?_append_left hlt).trans h
    · exact h
  | intervalPrune =>
    unfold World.next
    dsimp only
    split_ifs <;> exact h
  | getPowBlock powBlockHash =>
    unfold World.next
    dsimp only
    split
    · exact h
    · exact (List.getElem?_append_left hlt).trans h
  | mergeCompleted => exact h
  | turn j =>
    have hj : j ≠ i := fun heq => hstep (heq ▸ rfl)
    unfold World.next
    dsimp only
    split
    · exact (List.getElem?_set_ne hj).trans h
    · exact h

end World

/-! ## The searches end -/

/-- The search is at blocks that have reached the terminal difficulty, and needs `n` turns more at
most. -/
def Task.Near (chain : Eth1Chain) (ttd n : Nat) : Task → Prop
  | .pollWalk (.visit block) =>
    block ∈ chain.blocks ∧ ttd ≤ block.totalDifficulty ∧ 2 * block.number + 2 ≤ n
  | .pollWalk (.fetchParent block) =>
    block ∈ chain.blocks ∧ block.number ≠ 0 ∧ ttd ≤ block.totalDifficulty ∧ 2 * block.number + 1 ≤ n
  | .fetchRange minFetchedBlockNumber =>
    ∃ block ∈ chain.blocks, block.number = minFetchedBlockNumber ∧
      ttd ≤ block.totalDifficulty ∧ minFetchedBlockNumber ≤ n
  | .returned => True
  | _ => False

theorem Task.Near.mono {task : Task} (htask : task.Near chain ttd n)
    (h : chain.blocks <+: chain'.blocks) : task.Near chain' ttd n := by
  fun_cases Task.Near chain' ttd n task with
  | case1 block => exact ⟨h.subset htask.1, htask.2⟩
  | case2 block => exact ⟨h.subset htask.1, htask.2⟩
  | case3 minFetchedBlockNumber =>
    obtain ⟨block, hblock, hrest⟩ := htask
    exact ⟨block, h.subset hblock, hrest⟩
  | case4 => trivial
  | case5 => simp [Task.Near] at htask

/-- The task is nearer to its end, and has set a block if it is there. -/
def Task.Nears (chain : Eth1Chain) (ttd n : Nat) (turned : Task × Eth1MergeBlockTracker) : Prop :=
  turned.1.Near chain ttd n ∧ (turned.1 = .returned → turned.2.mergeBlock.isSome = true)

theorem Task.nears_visit (hsound : this.Sound chain config.TERMINAL_TOTAL_DIFFICULTY)
    (h : (Task.pollWalk (.visit block)).Near chain config.TERMINAL_TOTAL_DIFFICULTY n) :
    Task.Nears chain config.TERMINAL_TOTAL_DIFFICULTY (n - 1)
      ((Task.pollWalk (.visit block)).turn config chain.provider this) := by
  obtain ⟨hblock, hdifficulty, hn⟩ := h
  rw [Task.turn_pollWalk]
  rcases walkTurn_visit hsound hblock hdifficulty with
    ⟨-, h⟩ | ⟨parent, hparent, hnumber, hreached, h⟩ | ⟨hnumber, h⟩
  · rw [h]
    exact ⟨trivial, fun _ => rfl⟩
  · rw [h]
    exact ⟨⟨hparent, hreached, by omega⟩, nofun⟩
  · rw [h]
    exact ⟨⟨hblock, hnumber, hdifficulty, by omega⟩, nofun⟩

theorem Task.nears_fetchParent (this : Eth1MergeBlockTracker)
    (h : (Task.pollWalk (.fetchParent block)).Near chain config.TERMINAL_TOTAL_DIFFICULTY n) :
    Task.Nears chain config.TERMINAL_TOTAL_DIFFICULTY (n - 1)
      ((Task.pollWalk (.fetchParent block)).turn config chain.provider this) := by
  obtain ⟨hblock, hnonzero, hdifficulty, hn⟩ := h
  rw [Task.turn_pollWalk]
  obtain ⟨parent, hparent, hnumber, ⟨-, h⟩ | ⟨hreached, h⟩⟩ :=
    walkTurn_fetchParent this hblock hnonzero hdifficulty
  · rw [h]
    exact ⟨trivial, fun _ => rfl⟩
  · rw [h]
    exact ⟨⟨hparent, hreached, by omega⟩, nofun⟩

/-- A range starts below the terminal block at last, as the genesis block is below it. -/
theorem Task.nears_fetchRange {minFetchedBlockNumber : Nat} (this : Eth1MergeBlockTracker)
    (hgenesis : chain.genesisBlock.totalDifficulty < config.TERMINAL_TOTAL_DIFFICULTY)
    (h : (Task.fetchRange minFetchedBlockNumber).Near chain config.TERMINAL_TOTAL_DIFFICULTY n) :
    Task.Nears chain config.TERMINAL_TOTAL_DIFFICULTY (n - 1)
      ((Task.fetchRange minFetchedBlockNumber).turn config chain.provider this) := by
  obtain ⟨block, hblock, hnumber, hdifficulty, hn⟩ := h
  -- the genesis block has not reached the difficulty
  have hnonzero : ∀ other ∈ chain.blocks,
      config.TERMINAL_TOTAL_DIFFICULTY ≤ other.totalDifficulty → other.number ≠ 0 := by
    intro other hother hreached hzero
    rw [Eth1Chain.eq_genesisBlock hother hzero] at hreached
    omega
  rw [Task.turn_fetchRange]
  rcases rangeTurn_cases config this (hnumber ▸ Eth1Chain.number_lt hblock) with
    ⟨hzero, -⟩ | ⟨block, -, -, h⟩ | ⟨first, hfirst, hlt, hreached, h⟩
  · exact absurd (hnumber.trans hzero) (hnonzero block hblock hdifficulty)
  · rw [h]
    exact ⟨trivial, fun _ => rfl⟩
  · have hfirstReached := hreached block hblock hnumber hdifficulty
    rw [h, if_neg (hnonzero first hfirst hfirstReached)]
    exact ⟨⟨first, hfirst, rfl, hfirstReached, by omega⟩, nofun⟩

theorem Task.nears_turn {task : Task} (hsound : this.Sound chain config.TERMINAL_TOTAL_DIFFICULTY)
    (hgenesis : chain.genesisBlock.totalDifficulty < config.TERMINAL_TOTAL_DIFFICULTY)
    (h : Task.Nears chain config.TERMINAL_TOTAL_DIFFICULTY n (task, this)) :
    Task.Nears chain config.TERMINAL_TOTAL_DIFFICULTY (n - 1)
      (task.turn config chain.provider this) := by
  obtain ⟨hnear, hset⟩ := h
  cases task with
  | pollWalk walk =>
    cases walk with
    | visit block => exact Task.nears_visit hsound hnear
    | fetchParent block => exact Task.nears_fetchParent this hnear
    | returned => exact hnear.elim
    | threw message => exact hnear.elim
  | fetchRange minFetchedBlockNumber => exact Task.nears_fetchRange this hgenesis hnear
  | returned => exact ⟨trivial, hset⟩
  | terminalBlockHash => exact hnear.elim
  | getPowBlock powBlockHash => exact hnear.elim
  | pollLatestBlock => exact hnear.elim
  | fetchPreviousBlocks => exact hnear.elim
  | rangeWalk minFetchedBlockNumber walk => exact hnear.elim
  | threw message => exact hnear.elim

namespace World

/-- The search of task `i` has `n` turns to go at most. -/
structure Closing (config : ChainConfig) (i n : Nat) (world : World) : Prop where
  sound : world.Sound config
  genesis : world.chain.genesisBlock.totalDifficulty < config.TERMINAL_TOTAL_DIFFICULTY
  nears : ∃ task, world.tasks[i]? = some task ∧
    Task.Nears world.chain config.TERMINAL_TOTAL_DIFFICULTY n (task, world.tracker)

variable (config) in
theorem next_turn {task : Task} (h : world.tasks[i]? = some task) :
    world.next config (.turn i) =
      { world with
        tracker := (task.turn config world.chain.provider world.tracker).2
        tasks := world.tasks.set i (task.turn config world.chain.provider world.tracker).1 } := by
  unfold World.next
  simp only [h]

variable (config) in
theorem getElem?_tasks_turn {task : Task} (h : world.tasks[i]? = some task) :
    (world.next config (.turn i)).tasks[i]?
      = some (task.turn config world.chain.provider world.tracker).1 := by
  rw [next_turn config h]
  exact List.getElem?_set_self (List.getElem?_eq_some_iff.mp h).1

variable (hunset : config.TERMINAL_BLOCK_HASH = ZERO_HASH_HEX)

include hunset

theorem Closing.turn (h : world.Closing config i n) :
    (world.next config (.turn i)).Closing config i (n - 1) := by
  obtain ⟨task, htask, hnears⟩ := h.nears
  have hget := getElem?_tasks_turn config htask
  refine ⟨(h.sound.next hunset _).1, ?_, _, hget, ?_⟩
  · rw [next_turn config htask]
    exact h.genesis
  · rw [next_turn config htask]
    exact Task.nears_turn h.sound.tracker h.genesis hnears

theorem Closing.other (h : world.Closing config i n) (hstep : step ≠ .turn i) :
    (world.next config step).Closing config i n := by
  obtain ⟨task, htask, hnear, hset⟩ := h.nears
  obtain ⟨hsound, hprefix, hkept⟩ := h.sound.next hunset step
  refine ⟨hsound, ?_, task, getElem?_tasks_next hstep htask, hnear.mono hprefix,
    fun hreturned => hkept (hset hreturned)⟩
  rw [Eth1Chain.genesisBlock_mono hprefix]
  exact h.genesis

omit hunset in
theorem Closing.exists_block (h : world.Closing config i 0) :
    world.tasks[i]? = some .returned ∧ ∃ block, world.tracker.mergeBlock = some block ∧
      world.chain.IsTerminal config.TERMINAL_TOTAL_DIFFICULTY block := by
  obtain ⟨task, htask, hnear, hset⟩ := h.nears
  have hreturned : task = .returned := by
    fun_cases Task.Near world.chain config.TERMINAL_TOTAL_DIFFICULTY 0 task with
    | case1 block => exact absurd hnear.2.2 (by omega)
    | case2 block => exact absurd hnear.2.2.2 (by omega)
    | case3 minFetchedBlockNumber =>
      obtain ⟨block, hblock, hnumber, hdifficulty, hzero⟩ := hnear
      rw [Eth1Chain.eq_genesisBlock hblock (by omega)] at hdifficulty
      exact absurd h.genesis (not_lt.mpr hdifficulty)
    | case4 => rfl
    | case5 => simp [Task.Near] at hnear
  subst hreturned
  obtain ⟨block, hblock⟩ := Option.isSome_iff_exists.mp (hset rfl)
  exact ⟨htask, block, hblock, h.sound.tracker.terminal block hblock⟩

theorem Sound.closing {task : Task} (h : world.Sound config)
    (hgenesis : world.chain.genesisBlock.totalDifficulty < config.TERMINAL_TOTAL_DIFFICULTY)
    (hget : world.tasks[i]? = some task)
    (htask : task = .fetchPreviousBlocks ∨ task = .pollLatestBlock)
    (hlatest : config.TERMINAL_TOTAL_DIFFICULTY ≤ world.chain.latestBlock.totalDifficulty) :
    (world.next config (.turn i)).Closing config i (2 * world.chain.latestBlock.number + 2) := by
  have hmem := world.chain.latestBlock_mem
  refine ⟨(h.next hunset _).1, ?_, _, getElem?_tasks_turn config hget, ?_⟩
  · rw [next_turn config hget]
    exact hgenesis
  · rw [next_turn config hget]
    rcases htask with rfl | rfl
    · rw [Task.turn_fetchPreviousBlocks, if_neg (not_lt.mpr hlatest)]
      exact ⟨⟨_, hmem, rfl, hlatest, by omega⟩, nofun⟩
    · exact ⟨⟨hmem, hlatest, le_rfl⟩, nofun⟩

end World

/-! ## When the terminal block is found -/

/-- In every run from the constructor on, only the terminal block is set; and a search that gets
its answer when the latest block has reached the terminal difficulty returns after finitely many
turns, whatever happens in between, and the one terminal block of the chain is set. -/
def FindsTerminalPowBlock (config : ChainConfig) (chain : Eth1Chain) : Prop :=
  ∀ (isMergeTransitionComplete : Bool) (before : List Step) (world : World),
    (World.start isMergeTransitionComplete chain).run config before = world →
    (∀ block, world.tracker.mergeBlock = some block →
      world.chain.IsTerminal config.TERMINAL_TOTAL_DIFFICULTY block) ∧
    ∀ (i : Nat) (task : Task), world.tasks[i]? = some task →
      task = .fetchPreviousBlocks ∨ task = .pollLatestBlock →
      config.TERMINAL_TOTAL_DIFFICULTY ≤ world.chain.latestBlock.totalDifficulty →
      ∃ turns, ∀ (after : List Step) (world' : World), turns ≤ after.count (.turn i) →
        (world.next config (.turn i)).run config after = world' →
        world'.tasks[i]? = some .returned ∧ ∃ block, world'.tracker.mergeBlock = some block ∧
          ∀ other, world'.chain.IsTerminal config.TERMINAL_TOTAL_DIFFICULTY other ↔ other = block

namespace World

theorem Sound.genesisBlock_run (hunset : config.TERMINAL_BLOCK_HASH = ZERO_HASH_HEX)
    (h : world.Sound config) (steps : List Step) :
    (world.run config steps).chain.genesisBlock = world.chain.genesisBlock := by
  induction steps generalizing world with
  | nil => rfl
  | cons step steps ih =>
    obtain ⟨hsound, hprefix, -⟩ := h.next hunset step
    exact (ih hsound).trans (Eth1Chain.genesisBlock_mono hprefix)

end World

theorem findsTerminalPowBlock_of_lt (hunset : config.TERMINAL_BLOCK_HASH = ZERO_HASH_HEX)
    (hgenesis : chain.genesisBlock.totalDifficulty < config.TERMINAL_TOTAL_DIFFICULTY) :
    FindsTerminalPowBlock config chain := by
  rintro isMergeTransitionComplete before world rfl
  have hstart : (World.start isMergeTransitionComplete chain).Sound config := .start
  have hsound := hstart.run hunset before
  refine ⟨hsound.tracker.terminal, fun i task hget htask hlatest => ?_⟩
  obtain ⟨turns, hclosing⟩ : ∃ turns, World.Closing config i turns _ :=
    ⟨_, hsound.closing hunset ((hstart.genesisBlock_run hunset before).symm ▸ hgenesis) hget htask
      hlatest⟩
  refine ⟨turns, fun after world' hturns hrun => ?_⟩
  subst hrun
  have hdone := foldl_of_turns (fun _ _ h => World.Closing.turn hunset h)
    (fun _ _ _ hne h => World.Closing.other hunset h hne) hturns hclosing
  obtain ⟨hreturned, block, hblock, hterminal⟩ := hdone.exists_block
  exact ⟨hreturned, block, hblock, fun other =>
    ⟨fun hother => hterminal.unique hother, fun heq => heq ▸ hterminal⟩⟩

/-! ## A genesis block past the terminal difficulty -/

/-- No pair of neighbours is on both sides of the terminal difficulty. -/
structure World.Stuck (config : ChainConfig) (world : World) : Prop where
  reached : ∀ block ∈ world.chain.blocks,
    config.TERMINAL_TOTAL_DIFFICULTY ≤ block.totalDifficulty
  mergeBlock : world.tracker.mergeBlock = none
  task : world.tasks[0]? = some .returned ∨ ∃ minFetchedBlockNumber,
    minFetchedBlockNumber < world.chain.blocks.length ∧
      world.tasks[0]? = some (.fetchRange minFetchedBlockNumber)

theorem World.Stuck.turn (h : world.Stuck config) : (world.next config (.turn 0)).Stuck config := by
  obtain hreturned | ⟨minFetchedBlockNumber, hlt, hrange⟩ := h.task
  · have hget := getElem?_tasks_turn config hreturned
    rw [next_turn config hreturned] at hget ⊢
    exact ⟨h.reached, h.mergeBlock, .inl hget⟩
  · have hget := getElem?_tasks_turn config hrange
    rw [next_turn config hrange] at hget ⊢
    rw [Task.turn_fetchRange] at hget ⊢
    rcases rangeTurn_cases config world.tracker hlt with
      ⟨-, heq⟩ | ⟨-, -, ⟨parent, hparent, hbelow⟩, -⟩ | ⟨first, hfirst, -, -, heq⟩
    · rw [heq] at hget ⊢
      exact ⟨h.reached, h.mergeBlock, .inr ⟨0, Nat.zero_lt_of_lt hlt, hget⟩⟩
    · exact absurd hbelow (not_lt.mpr (h.reached parent hparent))
    · rw [heq] at hget ⊢
      refine ⟨h.reached, h.mergeBlock, ?_⟩
      split_ifs at hget ⊢
      · exact .inl hget
      · exact .inr ⟨_, Eth1Chain.number_lt hfirst, hget⟩

theorem World.Stuck.run (h : world.Stuck config) (n : Nat) :
    (world.run config (List.replicate n (.turn 0))).Stuck config := by
  induction n generalizing world with
  | zero => exact h
  | succ n ih => exact ih h.turn

theorem not_findsTerminalPowBlock_of_le (hunset : config.TERMINAL_BLOCK_HASH = ZERO_HASH_HEX)
    (hgenesis : config.TERMINAL_TOTAL_DIFFICULTY ≤ chain.genesisBlock.totalDifficulty) :
    ¬ FindsTerminalPowBlock config chain := by
  intro hfinds
  have hreached : ∀ block ∈ chain.blocks,
      config.TERMINAL_TOTAL_DIFFICULTY ≤ block.totalDifficulty := by
    intro block hblock
    refine hgenesis.trans (Eth1Chain.totalDifficulty_le Eth1Chain.genesisBlock_mem hblock ?_)
    rw [Eth1Chain.genesisBlock_number]
    exact Nat.zero_le _
  have hlatest := hreached _ chain.latestBlock_mem
  -- the search is the first task, and the polls do not get a turn
  obtain ⟨world, hworld⟩ : ∃ world, (World.start false chain).run config [.startFinding] = world :=
    ⟨_, rfl⟩
  have hstarted : world = ⟨chain, { Eth1MergeBlockTracker.new false with
      status := .SEARCHING, intervals := true }, [.fetchPreviousBlocks]⟩ := by
    rw [← hworld]
    show World.next config (World.start false chain) .startFinding = _
    unfold World.next startFinding
    simp [World.start, Eth1MergeBlockTracker.new, hunset]
  obtain ⟨turns, hturns⟩ := (hfinds false [.startFinding] world hworld).2 0 .fetchPreviousBlocks
    (by rw [hstarted]; rfl) (.inl rfl) (by rw [hstarted]; exact hlatest)
  have hstuck : (world.next config (.turn 0)).Stuck config := by
    subst hstarted
    have hget : ([Task.fetchPreviousBlocks])[0]? = some .fetchPreviousBlocks := rfl
    rw [World.next_turn config hget, Task.turn_fetchPreviousBlocks, if_neg (not_lt.mpr hlatest)]
    exact ⟨hreached, rfl, .inr ⟨_, Eth1Chain.number_lt chain.latestBlock_mem, rfl⟩⟩
  obtain ⟨-, block, hblock, -⟩ := hturns (List.replicate turns (.turn 0)) _
    (by rw [List.count_replicate_self]) rfl
  rw [(hstuck.run turns).mergeBlock] at hblock
  cases hblock

theorem findsTerminalPowBlock_iff (hunset : config.TERMINAL_BLOCK_HASH = ZERO_HASH_HEX) :
    FindsTerminalPowBlock config chain
      ↔ chain.genesisBlock.totalDifficulty < config.TERMINAL_TOTAL_DIFFICULTY := by
  constructor
  · intro hfinds
    by_contra hgenesis
    exact not_findsTerminalPowBlock_of_le hunset (not_lt.mp hgenesis) hfinds
  · exact findsTerminalPowBlock_of_lt hunset

/-- A terminal difficulty of 1000. -/
def lowDifficultyConfig : ChainConfig :=
  { chainConfigMinimal with TERMINAL_TOTAL_DIFFICULTY := 1000 }

/-- A genesis block and its child. -/
def pairChain (parentHash childHash : RootHex) (parentDifficulty childDifficulty : Nat)
    (hparent : parentHash ≠ ZERO_HASH_HEX) (hchild : childHash ≠ ZERO_HASH_HEX)
    (hne : parentHash ≠ childHash) (hlt : parentDifficulty < childDifficulty) : Eth1Chain where
  blocks := [⟨0, parentHash, ZERO_HASH_HEX, parentDifficulty⟩,
    ⟨1, childHash, parentHash, childDifficulty⟩]
  ne_nil := List.cons_ne_nil _ _
  number := by
    rintro (_ | _ | i) block h
    · exact Option.some.inj h ▸ rfl
    · exact Option.some.inj h ▸ rfl
    · cases h
  genesis _ h := Option.some.inj h ▸ rfl
  parentHash := by
    rintro (_ | i) parent child hparent hchild
    · exact Option.some.inj hparent ▸ Option.some.inj hchild ▸ rfl
    · cases hchild
  totalDifficulty := by
    rintro (_ | i) parent child hparent hchild
    · exact Option.some.inj hparent ▸ Option.some.inj hchild ▸ hlt
    · cases hchild
  blockhash := by simp [hparent, hchild]
  nodup := by simp [hne]

theorem findsTerminalPowBlock_iff_pairChain : FindsTerminalPowBlock lowDifficultyConfig
    (pairChain 0xaa 0xbb 999 1001 (by decide) (by decide) (by decide) (by decide)) :=
  (findsTerminalPowBlock_iff rfl).mpr (by decide)

/-- The terminal block of this chain is its genesis block. -/
theorem terminalGenesis_not_findsTerminalPowBlock :
    ¬ ∀ (config : ChainConfig) (chain : Eth1Chain), config.TERMINAL_BLOCK_HASH = ZERO_HASH_HEX →
      FindsTerminalPowBlock config chain := by
  intro h
  have hle : lowDifficultyConfig.TERMINAL_TOTAL_DIFFICULTY ≤ (pairChain 0xaa 0xbb 1000 1001
      (by decide) (by decide) (by decide) (by decide)).genesisBlock.totalDifficulty := by decide
  exact not_findsTerminalPowBlock_of_le rfl hle (h _ _ rfl)

end Lodestar.Eth1
