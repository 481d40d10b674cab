import Lodestar.Network.GossipTopic

/-!
# Gossip topics back and forth

What the parser accepts beside the strings that are built: text behind the encoding,
a digest after `0x`, any character for the `_` of a subnet and any text after its
digits. A topic comes back unless its subnet is printed with an exponent or is no
number (`gossipTopic_roundTrip_iff`).
-/

namespace Lodestar.Network

open Lodestar.Base

variable {ctx : ForkDigestContext}

/-! ## Built strings -/

theorem stringifyGossipTopic_eq (topic : GossipTopic) :
    stringifyGossipTopic ctx topic = .ok ("/eth2/".toList ++
      (toHexStringNoPrefix (ctx.forkDigest topic.fork) ++ '/' ::
        (stringifyGossipTopicType topic.type ++ '/' :: GossipEncoding.ssz_snappy.value))) := by
  rw [stringifyGossipTopic, ForkDigestContext.forkName2ForkDigestHex_eq]
  rfl

theorem PlainGossipType.value_word (type : PlainGossipType) :
    ∀ c ∈ type.value, isWordChar c = true ∧ c.isDigit = false := by
  have hall : type.value.all (fun c => isWordChar c && !c.isDigit) = true := by
    cases type <;> decide
  intro c hc
  simpa using List.all_eq_true.mp hall c hc

theorem SubnetGossipType.value_word (type : SubnetGossipType) :
    ∀ c ∈ type.value, isWordChar c = true :=
  List.all_eq_true.mp (by cases type <;> decide)

theorem GossipEncoding.value_word : ∀ c ∈ GossipEncoding.ssz_snappy.value, isWordChar c = true :=
  List.all_eq_true.mp (by decide)

theorem notMem_slash_hex (forkDigest : BitVec 32) : '/' ∉ toHexStringNoPrefix forkDigest :=
  notMem_slash_of_word fun c hc => (isWordChar_of_mem_hexDigits c hc).1

theorem notMem_slash_toString (x : Double) : '/' ∉ x.toString := by
  intro hmem
  have hchar := Double.mem_toString '/' hmem
  revert hchar
  decide

theorem notMem_slash_type (type : GossipTopicType) : '/' ∉ stringifyGossipTopicType type := by
  cases type with
  | plain type => exact notMem_slash_of_word fun c hc => (type.value_word c hc).1
  | subnet type subnet =>
    intro hmem
    rcases List.mem_append.mp hmem with hmem | hmem
    · exact notMem_slash_of_word type.value_word hmem
    · exact notMem_slash_toString subnet ((List.mem_cons.mp hmem).resolve_left (by decide))

theorem notPlain_subnet (type : SubnetGossipType) (n : Nat) :
    NotPlain (type.value ++ '_' :: Nat.toDigits 10 n) := by
  intro plain heq
  obtain ⟨d, hd⟩ := List.exists_mem_of_ne_nil _ (@Nat.toDigits_ne_nil n 10)
  have hmem : d ∈ plain.value := heq ▸ List.mem_append_right _ (List.mem_cons_of_mem _ hd)
  exact Bool.false_ne_true ((plain.value_word d hmem).2.symm.trans (isDigit_of_mem_toDigits d hd))

/-! ## Accepted strings -/

theorem parseGossipTopic_eq_ok_iff (hinj : Function.Injective ctx.forkDigest)
    {topicStr : List Char} {topic : GossipTopic} :
    parseGossipTopic ctx topicStr = .ok topic ↔
      ∃ topicMatch, matchGossipTopicRegex topicStr = some topicMatch ∧
        strip0xPrefix topicMatch.forkDigestHexNoPrefix
          = toHexStringNoPrefix (ctx.forkDigest topic.fork) ∧
        topicMatch.encodingStr = GossipEncoding.ssz_snappy.value ∧
        parseGossipTopicType topicMatch.gossipTypeStr = .ok topic.type ∧
        topic.encoding = some .ssz_snappy := by
  obtain ⟨type, fork, encoding⟩ := topic
  unfold parseGossipTopic
  cases matchGossipTopicRegex topicStr with
  | none => exact iff_of_false (by intro h; cases h) (by rintro ⟨_, h, -⟩; cases h)
  | some topicMatch =>
    simp only [Option.some.injEq, exists_eq_left',
      ← ForkDigestContext.forkDigest2ForkName_eq_ok_iff hinj]
    cases ctx.forkDigest2ForkName topicMatch.forkDigestHexNoPrefix with
    | error message => exact iff_of_false (by intro h; cases h) (by rintro ⟨h, -⟩; cases h)
    | ok fork' =>
      unfold parseEncodingStr
      by_cases hencoding : topicMatch.encodingStr = GossipEncoding.ssz_snappy.value
      · rw [if_pos hencoding]
        cases parseGossipTopicType topicMatch.gossipTypeStr with
        | error message =>
          exact iff_of_false (by intro h; cases h) (by rintro ⟨-, -, h, -⟩; cases h)
        | ok type' =>
          constructor
          · intro h
            cases h
            exact ⟨rfl, hencoding, rfl, rfl⟩
          · rintro ⟨hfork, -, htype, rfl⟩
            cases hfork
            cases htype
            rfl
      · rw [if_neg hencoding]
        exact iff_of_false (by intro h; cases h) (by rintro ⟨-, h, -⟩; exact hencoding h)

/-! ## From a topic and back -/

/-- A subnet, where there is one, is printed as digits. -/
def GossipTopicType.PrintsDigits : GossipTopicType → Prop
  | .plain _ => True
  | .subnet _ number => number.PrintsDigits

theorem GossipTopicType.PrintsDigits.word {type : GossipTopicType} (h : type.PrintsDigits) :
    ∀ c ∈ stringifyGossipTopicType type, isWordChar c = true := by
  cases type with
  | plain type => exact fun c hc => (type.value_word c hc).1
  | subnet type subnet =>
    obtain ⟨n, -, hprint⟩ := Double.PrintsDigits.toString_eq h
    intro c hc
    rcases List.mem_append.mp hc with hc | hc
    · exact type.value_word c hc
    rcases List.mem_cons.mp hc with rfl | hc
    · decide
    · rw [hprint] at hc
      unfold isWordChar Char.isAlphanum
      rw [isDigit_of_mem_toDigits c hc, Bool.or_true, Bool.true_or]

theorem GossipTopicType.PrintsDigits.parse_eq {type : GossipTopicType} (h : type.PrintsDigits) :
    parseGossipTopicType (stringifyGossipTopicType type) = .ok type := by
  rw [parseGossipTopicType_eq_ok_iff]
  cases type with
  | plain type => exact .inl ⟨type, rfl, rfl⟩
  | subnet type subnet =>
    have hread : parseInt subnet.toString = subnet := parseInt_toString h
    have hnumber : subnet ≠ .nan := by
      rintro rfl
      obtain ⟨n, hvalue, -⟩ := h
      cases hvalue
    obtain ⟨n, -, hprint⟩ := Double.PrintsDigits.toString_eq h
    refine .inr ⟨?_, type, '_' :: subnet.toString, rfl, ?_, ?_⟩
    · show NotPlain (type.value ++ '_' :: subnet.toString)
      rw [hprint]
      exact notPlain_subnet type n
    · rwa [List.drop_one, List.tail_cons, hread]
    · rw [List.drop_one, List.tail_cons, hread]

theorem GossipTopicType.printsDigits_of_parse {type : GossipTopicType}
    (hword : ∀ c ∈ stringifyGossipTopicType type, isWordChar c = true)
    (h : parseGossipTopicType (stringifyGossipTopicType type) = .ok type) :
    type.PrintsDigits := by
  rcases parseGossipTopicType_eq_ok_iff.mp h with ⟨plain, -, rfl⟩ | ⟨-, type, rest, heq, hnan, rfl⟩
  · trivial
  · have hrest := List.append_cancel_left heq
    have hread : (parseInt (rest.drop 1)).toString = rest.drop 1 :=
      congrArg (List.drop 1) hrest
    refine Double.printsDigits_of_parseInt (fun hplus => ?_) (congrArg parseInt hread) hnan
    have hmem := hword '+' (List.mem_append_right _ (List.mem_cons_of_mem _ hplus))
    revert hmem
    decide

theorem stringifyGossipTopicType_ne_nil (type : GossipTopicType) :
    stringifyGossipTopicType type ≠ [] := by
  cases type with
  | plain type => cases type <;> decide
  | subnet type subnet => exact List.append_ne_nil_of_right_ne_nil _ (List.cons_ne_nil _ _)

theorem IsOf.of_stringify {topic : GossipTopic} {topicMatch : GossipTopicMatch}
    {topicStr : List Char} (h : topicMatch.IsOf topicStr)
    (hbuilt : stringifyGossipTopic ctx topic = .ok topicStr) :
    topicMatch.forkDigestHexNoPrefix = toHexStringNoPrefix (ctx.forkDigest topic.fork) ∧
      topicMatch.gossipTypeStr = stringifyGossipTopicType topic.type ∧
      topicMatch.encodingStr ++ topicMatch.rest = GossipEncoding.ssz_snappy.value := by
  rw [stringifyGossipTopic_eq] at hbuilt
  have heq := List.append_cancel_left ((Except.ok.inj hbuilt).trans h.eq)
  obtain ⟨hdigest, heq⟩ :=
    append_slash_inj (notMem_slash_hex _) (notMem_slash_of_word h.digestWord) heq
  obtain ⟨htype, heq⟩ :=
    append_slash_inj (notMem_slash_type _) (notMem_slash_of_word h.typeWord) heq
  exact ⟨hdigest.symm, htype.symm, heq.symm⟩

theorem parse_stringify_iff (hinj : Function.Injective ctx.forkDigest) (topic : GossipTopic) :
    (stringifyGossipTopic ctx topic >>= parseGossipTopic ctx) = .ok topic.required ↔
      topic.type.PrintsDigits := by
  have hbuilt := @stringifyGossipTopic_eq ctx topic
  obtain ⟨topicStr, hstr⟩ : ∃ topicStr, stringifyGossipTopic ctx topic = .ok topicStr := ⟨_, hbuilt⟩
  have hbind : (stringifyGossipTopic ctx topic >>= parseGossipTopic ctx)
      = parseGossipTopic ctx topicStr := by
    rw [hstr]
    rfl
  rw [hbind, parseGossipTopic_eq_ok_iff hinj]
  constructor
  · rintro ⟨topicMatch, hmatch, -, -, htype, -⟩
    have hof := matchGossipTopicRegex_isOf hmatch
    have hgroup := (IsOf.of_stringify hof hstr).2.1
    rw [hgroup] at htype
    exact GossipTopicType.printsDigits_of_parse (hgroup ▸ hof.typeWord) htype
  · intro hprints
    obtain rfl := Except.ok.inj (hstr.symm.trans hbuilt)
    have hhex : ∀ c ∈ toHexStringNoPrefix (ctx.forkDigest topic.fork), isWordChar c = true :=
      fun c hc => (isWordChar_of_mem_hexDigits c hc).1
    have hne : toHexStringNoPrefix (ctx.forkDigest topic.fork) ≠ [] :=
      List.append_ne_nil_of_right_ne_nil _ (List.cons_ne_nil _ _)
    exact ⟨_, matchGossipTopicRegex_eq_some hne hhex
      (stringifyGossipTopicType_ne_nil topic.type) hprints.word (by decide)
      GossipEncoding.value_word,
      strip0xPrefix_toHexStringNoPrefix _, rfl, hprints.parse_eq, rfl⟩

/-! ## From a string and back -/

/-- The words are those that are built, with nothing behind them. -/
structure GossipTopicMatch.IsCanonical (topicMatch : GossipTopicMatch) : Prop where
  rest : topicMatch.rest = []
  digest : ¬ "0x".toList <+: topicMatch.forkDigestHexNoPrefix
  subnet : NotPlain topicMatch.gossipTypeStr → ∀ (type : SubnetGossipType) (after : List Char),
    topicMatch.gossipTypeStr = type.value ++ after →
      ∃ x : Double, x.PrintsDigits ∧ after = '_' :: x.toString

/-- What matches in a string is canonical. -/
def IsCanonicalTopic (topicStr : List Char) : Prop :=
  ∀ topicMatch, matchGossipTopicRegex topicStr = some topicMatch → topicMatch.IsCanonical

theorem strip0xPrefix_eq_self_iff {hex : List Char} :
    strip0xPrefix hex = hex ↔ ¬ "0x".toList <+: hex := by
  constructor
  · rintro h ⟨rest, rfl⟩
    have hlength := congrArg List.length h
    have hdrop : strip0xPrefix ("0x".toList ++ rest) = rest := rfl
    rw [hdrop, List.length_append] at hlength
    have htwo : "0x".toList.length = 2 := rfl
    omega
  · exact fun h => if_neg (mt List.isPrefixOf_iff_prefix.mp h)

theorem stringify_type_eq_iff {gossipTypeStr : List Char} {type : GossipTopicType}
    (hword : ∀ c ∈ gossipTypeStr, isWordChar c = true)
    (h : parseGossipTopicType gossipTypeStr = .ok type) :
    stringifyGossipTopicType type = gossipTypeStr ↔
      (NotPlain gossipTypeStr → ∀ (type : SubnetGossipType) (after : List Char),
        gossipTypeStr = type.value ++ after →
          ∃ x : Double, x.PrintsDigits ∧ after = '_' :: x.toString) := by
  constructor
  · rintro rfl hnot type' after heq
    have hprints := GossipTopicType.printsDigits_of_parse hword h
    cases type with
    | plain type => exact absurd rfl (hnot type)
    | subnet type subnet =>
      obtain rfl := SubnetGossipType.eq_of_starts ⟨_, heq.symm⟩ ⟨'_' :: subnet.toString, rfl⟩
      exact ⟨subnet, hprints, (List.append_cancel_left heq).symm⟩
  · intro hcanonical
    rcases parseGossipTopicType_eq_ok_iff.mp h with
      ⟨plain, rfl, rfl⟩ | ⟨hnot, type, after, rfl, -, rfl⟩
    · rfl
    · obtain ⟨x, hprints, rfl⟩ := hcanonical hnot type after rfl
      have hread : parseInt x.toString = x := parseInt_toString hprints
      unfold stringifyGossipTopicType
      rw [List.drop_one, List.tail_cons, hread]

theorem stringify_parse_iff (hinj : Function.Injective ctx.forkDigest) {topicStr : List Char}
    {topic : GossipTopic} (h : parseGossipTopic ctx topicStr = .ok topic) :
    stringifyGossipTopic ctx topic = .ok topicStr ↔ IsCanonicalTopic topicStr := by
  obtain ⟨topicMatch, hmatch, hdigest, hencoding, htype, -⟩ :=
    (parseGossipTopic_eq_ok_iff hinj).mp h
  have hof := matchGossipTopicRegex_isOf hmatch
  have htypeIff := stringify_type_eq_iff hof.typeWord htype
  constructor
  · intro hbuilt topicMatch' hmatch'
    obtain rfl := Option.some.inj (hmatch.symm.trans hmatch')
    obtain ⟨hdigestEq, htypeEq, hrest⟩ := IsOf.of_stringify hof hbuilt
    rw [hencoding] at hrest
    exact ⟨List.append_right_eq_self.mp hrest,
      strip0xPrefix_eq_self_iff.mp (hdigest.trans hdigestEq.symm), htypeIff.mp htypeEq.symm⟩
  · intro hcanonical
    obtain ⟨hrest, hbare, hsubnet⟩ := hcanonical topicMatch hmatch
    rw [stringifyGossipTopic_eq, ← hdigest, strip0xPrefix_eq_self_iff.mpr hbare,
      htypeIff.mpr hsubnet, hof.eq, hencoding, hrest, List.append_nil]

/-- Topics come back when their subnet is printed as digits, accepted strings when they are
canonical, and no two of those are taken for the same topic. -/
theorem gossipTopic_roundTrip_iff (hinj : Function.Injective ctx.forkDigest) :
    (∀ topic, (stringifyGossipTopic ctx topic >>= parseGossipTopic ctx) = .ok topic.required ↔
      topic.type.PrintsDigits) ∧
    (∀ topicStr topic, parseGossipTopic ctx topicStr = .ok topic →
      (stringifyGossipTopic ctx topic = .ok topicStr ↔ IsCanonicalTopic topicStr)) ∧
    ∀ topicStr topicStr' topic, parseGossipTopic ctx topicStr = .ok topic →
      parseGossipTopic ctx topicStr' = .ok topic →
      IsCanonicalTopic topicStr → IsCanonicalTopic topicStr' → topicStr = topicStr' := by
  refine ⟨parse_stringify_iff hinj, fun _ _ => stringify_parse_iff hinj, ?_⟩
  intro topicStr topicStr' topic h h' hcanonical hcanonical'
  have hbuilt := (stringify_parse_iff hinj h).mpr hcanonical
  have hbuilt' := (stringify_parse_iff hinj h').mpr hcanonical'
  exact Except.ok.inj (hbuilt.symm.trans hbuilt')

/-- A network with three forks. -/
def threeForks : ForkDigestContext where
  forkDigest
    | .phase0 => 0xb5303f2a
    | .altair => 0xafcaaba0
    | .bellatrix => 0x4a26c58b

theorem threeForks_injective : Function.Injective threeForks.forkDigest := by
  intro a b h
  cases a <;> cases b <;> first | rfl | exact absurd h (by decide)

theorem gossipTopic_roundTrip_threeForks :
    (∀ topic, (stringifyGossipTopic threeForks topic >>= parseGossipTopic threeForks)
      = .ok topic.required ↔ topic.type.PrintsDigits) ∧
    (∀ topicStr topic, parseGossipTopic threeForks topicStr = .ok topic →
      (stringifyGossipTopic threeForks topic = .ok topicStr ↔ IsCanonicalTopic topicStr)) ∧
    ∀ topicStr topicStr' topic, parseGossipTopic threeForks topicStr = .ok topic →
      parseGossipTopic threeForks topicStr' = .ok topic →
      IsCanonicalTopic topicStr → IsCanonicalTopic topicStr' → topicStr = topicStr' :=
  gossipTopic_roundTrip_iff threeForks_injective

def suffixedTopicStr : List Char :=
  "/eth2/b5303f2a/beacon_attestation_5abc/ssz_snappy/and_more".toList

/-- Letters behind the subnet and text behind the encoding are left out. -/
theorem suffixedTopicStr_not_roundTrip :
    parseGossipTopic threeForks suffixedTopicStr
        = .ok ⟨.subnet .beacon_attestation (.ofNat 5), .phase0, some .ssz_snappy⟩ ∧
      stringifyGossipTopic threeForks
          ⟨.subnet .beacon_attestation (.ofNat 5), .phase0, some .ssz_snappy⟩
        = .ok "/eth2/b5303f2a/beacon_attestation_5/ssz_snappy".toList ∧
      "/eth2/b5303f2a/beacon_attestation_5/ssz_snappy".toList ≠ suffixedTopicStr ∧
      parseGossipTopic threeForks "/eth2/b5303f2a/beacon_attestation_5/ssz_snappy".toList
        = .ok ⟨.subnet .beacon_attestation (.ofNat 5), .phase0, some .ssz_snappy⟩ := by
  decide +kernel

end Lodestar.Network
