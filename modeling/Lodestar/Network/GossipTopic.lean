import Lodestar.Base.Double
import Lodestar.Base.OrderedMap
import Lodestar.Params

/-!
# Gossip topics

`network/gossip/topic.ts` with the fork digests of `genesisConfig`. Strings are
lists of characters. A word of the regular expression cannot end before a
character that could go on with it, so it is all of them.
-/

namespace Lodestar.Network

open Lodestar.Base

/-! ## Fork digests -/

/-- `computeForkDigest` of each fork. -/
structure ForkDigestContext where
  forkDigest : ForkName → BitVec 32

/-- `Object.values(chainForkConfig.forks)`. -/
def forks : List ForkName := [.phase0, .altair, .bellatrix]

def strip0xPrefix (hex : List Char) : List Char :=
  if "0x".toList.isPrefixOf hex then hex.drop 2 else hex

/-- `toHexStringNoPrefix` of bytes. -/
def toHexStringNoPrefix (forkDigest : BitVec 32) : List Char :=
  strip0xPrefix (toHexString forkDigest)

def forkNameString : ForkName → String
  | .phase0 => "phase0"
  | .altair => "altair"
  | .bellatrix => "bellatrix"

namespace ForkDigestContext

variable (this : ForkDigestContext)

def forkNameByForkDigest : OrderedMap (List Char) ForkName :=
  forks.foldl (fun map fork => map.set (toHexStringNoPrefix (this.forkDigest fork)) fork) .empty

def forkDigestHexByForkName : OrderedMap ForkName (List Char) :=
  forks.foldl (fun map fork => map.set fork (toHexStringNoPrefix (this.forkDigest fork))) .empty

def forkDigest2ForkName (forkDigest : List Char) : Except String ForkName :=
  let forkDigestHex := strip0xPrefix forkDigest
  match this.forkNameByForkDigest.get forkDigestHex with
  | none => .error ("Unknwon forkDigest " ++ String.ofList forkDigestHex)
  | some forkName => .ok forkName

def forkName2ForkDigestHex (forkName : ForkName) : Except String (List Char) :=
  match this.forkDigestHexByForkName.get forkName with
  | none => .error ("No precomputed forkDigest for " ++ forkNameString forkName)
  | some forkDigestHex => .ok (strip0xPrefix forkDigestHex)

end ForkDigestContext

/-! ## Topics -/

/-- The members of `GossipType` whose topics have no subnet. -/
inductive PlainGossipType where
  | beacon_block
  | beacon_aggregate_and_proof
  | voluntary_exit
  | proposer_slashing
  | attester_slashing
  | sync_committee_contribution_and_proof
  deriving DecidableEq

/-- The members of `GossipType` whose topics have one. -/
inductive SubnetGossipType where
  | beacon_attestation
  | sync_committee
  deriving DecidableEq

def PlainGossipType.value : PlainGossipType → List Char
  | beacon_block => "beacon_block".toList
  | beacon_aggregate_and_proof => "beacon_aggregate_and_proof".toList
  | voluntary_exit => "voluntary_exit".toList
  | proposer_slashing => "proposer_slashing".toList
  | attester_slashing => "attester_slashing".toList
  | sync_committee_contribution_and_proof => "sync_committee_contribution_and_proof".toList

def SubnetGossipType.value : SubnetGossipType → List Char
  | beacon_attestation => "beacon_attestation".toList
  | sync_committee => "sync_committee".toList

inductive GossipEncoding where
  | ssz_snappy
  deriving DecidableEq

def GossipEncoding.value : GossipEncoding → List Char
  | ssz_snappy => "ssz_snappy".toList

def DEFAULT_ENCODING : GossipEncoding := .ssz_snappy

inductive GossipTopicType where
  | plain (type : PlainGossipType)
  | subnet (type : SubnetGossipType) (subnet : Double)
  deriving DecidableEq

structure GossipTopic where
  type : GossipTopicType
  fork : ForkName
  encoding : Option GossipEncoding
  deriving DecidableEq

/-- The default encoding filled in, for a `Required<GossipTopic>`. -/
def GossipTopic.required (topic : GossipTopic) : GossipTopic :=
  { topic with encoding := some (topic.encoding.getD DEFAULT_ENCODING) }

def stringifyGossipTopicType : GossipTopicType → List Char
  | .plain type => type.value
  | .subnet type subnet => type.value ++ '_' :: subnet.toString

def stringifyGossipTopic (forkDigestContext : ForkDigestContext) (topic : GossipTopic) :
    Except String (List Char) := do
  let forkDigestHexNoPrefix ← forkDigestContext.forkName2ForkDigestHex topic.fork
  let topicType := stringifyGossipTopicType topic.type
  let encoding := topic.encoding.getD DEFAULT_ENCODING
  return "/eth2/".toList ++ (forkDigestHexNoPrefix ++ '/' :: (topicType ++ '/' :: encoding.value))

/-! ## Parsing -/

/-- `\w`. -/
def isWordChar (c : Char) : Bool := c.isAlphanum || c == '_'

/-- `(\w+)/`: the word and what is behind the slash. -/
def matchWordSlash (s : List Char) : Option (List Char × List Char) :=
  match s.dropWhile isWordChar with
  | '/' :: rest => if s.takeWhile isWordChar = [] then none else some (s.takeWhile isWordChar, rest)
  | _ => none

/-- The groups of a match, and what follows it. -/
structure GossipTopicMatch where
  forkDigestHexNoPrefix : List Char
  gossipTypeStr : List Char
  encodingStr : List Char
  rest : List Char
  deriving DecidableEq

/-- `gossipTopicRegex`. -/
def matchGossipTopicRegex (topicStr : List Char) : Option GossipTopicMatch := do
  if !"/eth2/".toList.isPrefixOf topicStr then none
  let (forkDigestHexNoPrefix, s) ← matchWordSlash (topicStr.drop 6)
  let (gossipTypeStr, s) ← matchWordSlash s
  let encodingStr := s.takeWhile isWordChar
  if encodingStr = [] then none
  return { forkDigestHexNoPrefix, gossipTypeStr, encodingStr, rest := s.dropWhile isWordChar }

def parseEncodingStr (encodingStr : List Char) : Except String GossipEncoding :=
  if encodingStr = GossipEncoding.ssz_snappy.value then .ok .ssz_snappy
  else .error ("Unknown encoding " ++ String.ofList encodingStr)

/-- The cases of the `switch`. -/
def plainGossipTypes : List PlainGossipType :=
  [.beacon_block, .beacon_aggregate_and_proof, .voluntary_exit, .proposer_slashing,
    .attester_slashing, .sync_committee_contribution_and_proof]

/-- The loop over the types with a subnet. -/
def parseSubnetType (gossipTypeStr : List Char) :
    List SubnetGossipType → Except String GossipTopicType
  | [] => .error ("Unknown gossip type " ++ String.ofList gossipTypeStr)
  | gossipType :: gossipTypes =>
    if gossipType.value.isPrefixOf gossipTypeStr then
      -- one character for the `_`, whatever it is
      let subnetStr := gossipTypeStr.drop (gossipType.value.length + 1)
      let subnet := parseInt subnetStr
      if subnet = .nan then .error ("Subnet " ++ String.ofList subnetStr ++ " is not a number")
      else .ok (.subnet gossipType subnet)
    else parseSubnetType gossipTypeStr gossipTypes

def parseGossipTopicType (gossipTypeStr : List Char) : Except String GossipTopicType :=
  match plainGossipTypes.find? (·.value = gossipTypeStr) with
  | some type => .ok (.plain type)
  | none => parseSubnetType gossipTypeStr [.beacon_attestation, .sync_committee]

def parseGossipTopic (forkDigestContext : ForkDigestContext) (topicStr : List Char) :
    Except String GossipTopic :=
  let topic : Except String GossipTopic := do
    let some topicMatch := matchGossipTopicRegex topicStr
      | .error "Must match regex /^\\/eth2\\/(\\w+)\\/(\\w+)\\/(\\w+)/"
    let fork ← forkDigestContext.forkDigest2ForkName topicMatch.forkDigestHexNoPrefix
    let encoding ← parseEncodingStr topicMatch.encodingStr
    let type ← parseGossipTopicType topicMatch.gossipTypeStr
    return { type, fork, encoding := some encoding }
  topic.mapError fun message =>
    "Invalid gossip topic " ++ String.ofList topicStr ++ ": " ++ message

/-! ## Words -/

theorem isWordChar_slash : isWordChar '/' = false := by decide

theorem notMem_slash_of_word {w : List Char} (h : ∀ c ∈ w, isWordChar c = true) : '/' ∉ w :=
  fun hmem => Bool.false_ne_true (isWordChar_slash.symm.trans (h '/' hmem))

theorem append_slash_inj {w w' r r' : List Char} (hw : '/' ∉ w) (hw' : '/' ∉ w')
    (h : w ++ '/' :: r = w' ++ '/' :: r') : w = w' ∧ r = r' := by
  induction w generalizing w' with
  | nil =>
    cases w' with
    | nil => exact ⟨rfl, (List.cons.inj h).2⟩
    | cons c w' => exact absurd ((List.cons.inj h).1 ▸ List.mem_cons_self) hw'
  | cons c w ih =>
    cases w' with
    | nil => exact absurd ((List.cons.inj h).1 ▸ List.mem_cons_self) hw
    | cons c' w' =>
      obtain ⟨rfl, hrest⟩ := List.cons.inj h
      obtain ⟨rfl, rfl⟩ :=
        ih (mt (List.mem_cons_of_mem c) hw) (mt (List.mem_cons_of_mem c) hw') hrest
      exact ⟨rfl, rfl⟩

theorem matchWordSlash_eq_some_iff {s w rest : List Char} :
    matchWordSlash s = some (w, rest) ↔
      s = w ++ '/' :: rest ∧ w ≠ [] ∧ ∀ c ∈ w, isWordChar c = true := by
  constructor
  · intro h
    unfold matchWordSlash at h
    have hsplit := List.takeWhile_append_dropWhile (p := isWordChar) (l := s)
    split at h
    · next rest' hdrop =>
      split_ifs at h with hempty
      simp only [Option.some.injEq, Prod.mk.injEq] at h
      obtain ⟨rfl, rfl⟩ := h
      exact ⟨by rw [← hdrop, hsplit], hempty, fun c hc => List.mem_takeWhile_imp hc⟩
    · cases h
  · rintro ⟨rfl, hempty, hword⟩
    unfold matchWordSlash
    have hslash : ('/' :: rest).takeWhile isWordChar = [] := by
      rw [List.takeWhile_cons, isWordChar_slash]
      rfl
    have hdrop : ('/' :: rest).dropWhile isWordChar = '/' :: rest := by
      rw [List.dropWhile_cons, isWordChar_slash]
      rfl
    rw [List.takeWhile_append_of_pos hword, List.dropWhile_append_of_pos hword, hslash, hdrop,
      List.append_nil]
    exact if_neg hempty

/-- The words of a match, up to a character of another kind. -/
structure GossipTopicMatch.IsOf (topicMatch : GossipTopicMatch) (topicStr : List Char) : Prop where
  eq : topicStr = "/eth2/".toList ++ (topicMatch.forkDigestHexNoPrefix ++ '/' ::
    (topicMatch.gossipTypeStr ++ '/' :: (topicMatch.encodingStr ++ topicMatch.rest)))
  digestWord : ∀ c ∈ topicMatch.forkDigestHexNoPrefix, isWordChar c = true
  typeWord : ∀ c ∈ topicMatch.gossipTypeStr, isWordChar c = true
  encodingWord : ∀ c ∈ topicMatch.encodingStr, isWordChar c = true

theorem matchGossipTopicRegex_isOf {topicStr : List Char} {topicMatch : GossipTopicMatch}
    (h : matchGossipTopicRegex topicStr = some topicMatch) : topicMatch.IsOf topicStr := by
  unfold matchGossipTopicRegex at h
  simp only [Option.bind_eq_bind, Option.pure_def] at h
  split_ifs at h with hstart
  · cases h
  obtain ⟨after, rfl⟩ : "/eth2/".toList <+: topicStr :=
    List.isPrefixOf_iff_prefix.mp (by simpa using hstart)
  obtain ⟨⟨digest, s⟩, hdigest, h⟩ := Option.bind_eq_some_iff.mp h
  obtain ⟨⟨type, s'⟩, htype, h⟩ := Option.bind_eq_some_iff.mp h
  split_ifs at h
  · cases h
  obtain rfl := Option.some.inj h
  obtain ⟨hafter, -, hdigestWord⟩ := matchWordSlash_eq_some_iff.mp hdigest
  obtain ⟨rfl, -, htypeWord⟩ := matchWordSlash_eq_some_iff.mp htype
  refine ⟨?_, hdigestWord, htypeWord, fun c hc => List.mem_takeWhile_imp hc⟩
  obtain rfl : after = _ := hafter
  dsimp only
  rw [List.takeWhile_append_dropWhile]

theorem matchGossipTopicRegex_eq_some {digest type encoding : List Char} (hdigest : digest ≠ [])
    (hdigestWord : ∀ c ∈ digest, isWordChar c = true) (htype : type ≠ [])
    (htypeWord : ∀ c ∈ type, isWordChar c = true) (hencoding : encoding ≠ [])
    (hencodingWord : ∀ c ∈ encoding, isWordChar c = true) :
    matchGossipTopicRegex ("/eth2/".toList ++ (digest ++ '/' :: (type ++ '/' :: encoding)))
      = some ⟨digest, type, encoding, []⟩ := by
  have hfirst := matchWordSlash_eq_some_iff.mpr
    ⟨(rfl : _ = digest ++ '/' :: (type ++ '/' :: encoding)), hdigest, hdigestWord⟩
  have hsecond := matchWordSlash_eq_some_iff.mpr
    ⟨(rfl : _ = type ++ '/' :: encoding), htype, htypeWord⟩
  have htake : encoding.takeWhile isWordChar = encoding :=
    List.takeWhile_eq_self_iff.mpr hencodingWord
  have hdrop : encoding.dropWhile isWordChar = [] := List.dropWhile_eq_nil_iff.mpr hencodingWord
  unfold matchGossipTopicRegex
  simp only [List.isPrefixOf_iff_prefix.mpr (List.prefix_append _ _), Bool.not_true,
    Bool.false_eq_true, if_false, Option.bind_eq_bind, Option.pure_def]
  have hstart : ("/eth2/".toList ++ (digest ++ '/' :: (type ++ '/' :: encoding))).drop 6
      = digest ++ '/' :: (type ++ '/' :: encoding) := rfl
  rw [hstart, hfirst, Option.bind_some, hsecond, Option.bind_some, htake, hdrop,
    if_neg hencoding]

/-! ## Digests -/

theorem isWordChar_of_mem_hexDigits {len n : Nat} :
    ∀ c ∈ hexDigits len n, isWordChar c = true ∧ c ≠ 'x' := by
  induction len generalizing n with
  | zero => exact List.forall_mem_nil _
  | succ len ih =>
    intro c hc
    rcases List.mem_append.mp hc with hc | hc
    · exact ih c hc
    · rw [List.mem_singleton.mp hc]
      have hlt := Nat.mod_lt n (show 16 > 0 by decide)
      generalize n % 16 = d at hlt
      interval_cases d <;> decide

theorem strip0xPrefix_eq {hex : List Char} (h : ∀ c ∈ hex, c ≠ 'x') : strip0xPrefix hex = hex := by
  refine if_neg fun hprefix => ?_
  have hmem := (List.isPrefixOf_iff_prefix.mp hprefix).subset (show 'x' ∈ "0x".toList by decide)
  exact h 'x' hmem rfl

theorem toHexStringNoPrefix_eq (forkDigest : BitVec 32) :
    toHexStringNoPrefix forkDigest = hexDigits 8 forkDigest.toNat := rfl

theorem strip0xPrefix_toHexStringNoPrefix (forkDigest : BitVec 32) :
    strip0xPrefix (toHexStringNoPrefix forkDigest) = toHexStringNoPrefix forkDigest :=
  strip0xPrefix_eq fun c hc => (isWordChar_of_mem_hexDigits c hc).2

theorem toHexStringNoPrefix_injective : Function.Injective toHexStringNoPrefix := by
  intro a b h
  refine toHexString_injective (by decide) ?_
  rw [toHexStringNoPrefix_eq, toHexStringNoPrefix_eq] at h
  exact congrArg ('0' :: 'x' :: ·) h

namespace ForkDigestContext

variable {this : ForkDigestContext}

theorem mem_forks (fork : ForkName) : fork ∈ forks := by
  cases fork <;> decide

theorem forkName2ForkDigestHex_eq (fork : ForkName) :
    this.forkName2ForkDigestHex fork = .ok (toHexStringNoPrefix (this.forkDigest fork)) := by
  have hget : this.forkDigestHexByForkName.get fork
      = some (toHexStringNoPrefix (this.forkDigest fork)) :=
    OrderedMap.get_foldl_set (mem_forks fork) (by decide)
  rw [forkName2ForkDigestHex, hget]
  exact congrArg Except.ok (strip0xPrefix_toHexStringNoPrefix _)

theorem forkDigest2ForkName_eq_ok_iff (hinj : Function.Injective this.forkDigest)
    {forkDigest : List Char} {fork : ForkName} :
    this.forkDigest2ForkName forkDigest = .ok fork ↔
      strip0xPrefix forkDigest = toHexStringNoPrefix (this.forkDigest fork) := by
  have hpairwise : forks.Pairwise fun a b =>
      toHexStringNoPrefix (this.forkDigest a) ≠ toHexStringNoPrefix (this.forkDigest b) :=
    (show forks.Pairwise (· ≠ ·) by decide).imp fun hne heq =>
      hne (hinj (toHexStringNoPrefix_injective heq))
  have hget : this.forkNameByForkDigest.get (strip0xPrefix forkDigest) = some fork ↔
      ∃ c ∈ forks, toHexStringNoPrefix (this.forkDigest c) = strip0xPrefix forkDigest ∧ c = fork :=
    OrderedMap.get_foldl_set_empty_eq_some_iff hpairwise
  rw [forkDigest2ForkName]
  constructor
  · intro h
    cases hfork : this.forkNameByForkDigest.get (strip0xPrefix forkDigest) with
    | none =>
      rw [hfork] at h
      cases h
    | some forkName =>
      rw [hfork] at h
      cases h
      obtain ⟨_, -, hkey, rfl⟩ := hget.mp hfork
      exact hkey.symm
  · intro h
    rw [hget.mpr ⟨fork, mem_forks fork, h.symm, rfl⟩]

end ForkDigestContext

/-! ## Types -/

theorem PlainGossipType.value_injective : Function.Injective PlainGossipType.value := by
  intro a b h
  cases a <;> cases b <;> first | rfl | exact absurd h (by decide)

theorem find?_plainGossipTypes_eq_some_iff {gossipTypeStr : List Char} {type : PlainGossipType} :
    plainGossipTypes.find? (·.value = gossipTypeStr) = some type ↔ type.value = gossipTypeStr := by
  constructor
  · intro h
    simpa using List.find?_some h
  · rintro rfl
    cases type <;> decide

/-- The type is none of those without a subnet. -/
def NotPlain (gossipTypeStr : List Char) : Prop :=
  ∀ type : PlainGossipType, type.value ≠ gossipTypeStr

theorem SubnetGossipType.eq_of_starts {a b : SubnetGossipType} {s : List Char}
    (ha : a.value <+: s) (hb : b.value <+: s) : a = b := by
  obtain ⟨r, hr⟩ := ha
  obtain ⟨r', hr'⟩ := hb
  have hhead := congrArg List.head? (hr.trans hr'.symm)
  cases a <;> cases b
  · rfl
  · exact absurd (Option.some.inj hhead : 'b' = 's') (by decide)
  · exact absurd (Option.some.inj hhead : 's' = 'b') (by decide)
  · rfl

theorem parseSubnetType_eq_ok_iff {gossipTypeStr : List Char} {type : GossipTopicType}
    {gossipTypes : List SubnetGossipType} :
    parseSubnetType gossipTypeStr gossipTypes = .ok type ↔
      ∃ gossipType ∈ gossipTypes, ∃ rest : List Char, gossipTypeStr = gossipType.value ++ rest ∧
        parseInt (rest.drop 1) ≠ .nan ∧ type = .subnet gossipType (parseInt (rest.drop 1)) := by
  induction gossipTypes with
  | nil => exact iff_of_false nofun (by simp)
  | cons gossipType gossipTypes ih =>
    rw [parseSubnetType]
    by_cases hstart : gossipType.value <+: gossipTypeStr
    · rw [if_pos (List.isPrefixOf_iff_prefix.mpr hstart)]
      obtain ⟨rest, rfl⟩ := hstart
      have hdrop : (gossipType.value ++ rest).drop (gossipType.value.length + 1) = rest.drop 1 := by
        rw [← List.drop_drop, List.drop_left]
      have hother : ∀ other : SubnetGossipType, ∀ rest' : List Char,
          gossipType.value ++ rest = other.value ++ rest' → other = gossipType ∧ rest' = rest := by
        intro other rest' heq
        obtain rfl := SubnetGossipType.eq_of_starts ⟨rest', heq.symm⟩
          (List.prefix_append gossipType.value rest)
        exact ⟨rfl, (List.append_cancel_left heq).symm⟩
      simp only [hdrop]
      by_cases hnan : parseInt (rest.drop 1) = .nan
      · rw [if_pos hnan]
        refine iff_of_false nofun ?_
        rintro ⟨other, -, rest', heq, hnumber, -⟩
        rw [(hother other rest' heq).2] at hnumber
        exact hnumber hnan
      · rw [if_neg hnan, Except.ok.injEq]
        constructor
        · exact fun h => ⟨gossipType, List.mem_cons_self, rest, rfl, hnan, h.symm⟩
        · rintro ⟨other, -, rest', heq, -, rfl⟩
          obtain ⟨rfl, rfl⟩ := hother other rest' heq
          rfl
    · rw [if_neg (mt List.isPrefixOf_iff_prefix.mp hstart), ih]
      constructor
      · rintro ⟨other, hmem, h⟩
        exact ⟨other, List.mem_cons_of_mem _ hmem, h⟩
      · rintro ⟨other, hmem, rest, heq, h⟩
        refine ⟨other, (List.mem_cons.mp hmem).resolve_left ?_, rest, heq, h⟩
        rintro rfl
        exact hstart ⟨rest, heq.symm⟩

theorem parseGossipTopicType_eq_ok_iff {gossipTypeStr : List Char} {type : GossipTopicType} :
    parseGossipTopicType gossipTypeStr = .ok type ↔
      (∃ plain : PlainGossipType, plain.value = gossipTypeStr ∧ type = .plain plain) ∨
      NotPlain gossipTypeStr ∧ ∃ (gossipType : SubnetGossipType) (rest : List Char),
        gossipTypeStr = gossipType.value ++ rest ∧ parseInt (rest.drop 1) ≠ .nan ∧
        type = .subnet gossipType (parseInt (rest.drop 1)) := by
  unfold parseGossipTopicType
  cases hfind : plainGossipTypes.find? (·.value = gossipTypeStr) with
  | some plain =>
    have hplain := find?_plainGossipTypes_eq_some_iff.mp hfind
    constructor
    · intro h
      exact .inl ⟨plain, hplain, (Except.ok.inj h).symm⟩
    · rintro (⟨other, hother, rfl⟩ | ⟨hnot, -⟩)
      · rw [PlainGossipType.value_injective (hplain.trans hother.symm)]
      · exact absurd hplain (hnot plain)
  | none =>
    have hnot : NotPlain gossipTypeStr := by
      intro type htype
      rw [find?_plainGossipTypes_eq_some_iff.mpr htype] at hfind
      cases hfind
    refine parseSubnetType_eq_ok_iff.trans ⟨?_, ?_⟩
    · rintro ⟨gossipType, -, h⟩
      exact .inr ⟨hnot, gossipType, h⟩
    · rintro (⟨plain, hplain, -⟩ | ⟨-, gossipType, h⟩)
      · exact absurd hplain (hnot plain)
      · exact ⟨gossipType, by cases gossipType <;> decide, h⟩

end Lodestar.Network
