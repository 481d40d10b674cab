import Mathlib.Data.List.TakeWhile
import Lodestar.Base.Bytes
import Lodestar.Base.Except
import Lodestar.SlashingProtection.Types

/-!
# The interchange formats

`interchange/formats/*.ts` and `parseInterchange.ts`. The v4 complete and the
v5 format have the same data and differ in their metadata. Everything in a
file is a string: bytes in hex, numbers in decimal, and a signing root that is
left out stands for a zero one. What is serialized parses back.
-/

namespace Lodestar.SlashingProtection

open Lodestar.Base

/-- A slot or epoch read from a file; `none` when it is no natural number (`NaN`). -/
abbrev JsNumber := Option Nat

/-- `toHexString` and `fromHexString`, which throws on a string it does not read. -/
structure HexStrings where
  toHexString : {w : Nat} → BitVec w → String
  fromHexString : {w : Nat} → String → Option (BitVec w)
  toHexString_ne_empty : ∀ {w : Nat} (bytes : BitVec w), toHexString bytes ≠ ""
  fromHexString_toHexString : ∀ {w : Nat} (bytes : BitVec w), 8 ∣ w →
    fromHexString (toHexString bytes) = some bytes

/-! ## Data -/

structure InterchangeBlock where
  slot : JsNumber
  signingRoot : Root
  deriving DecidableEq, Repr

structure InterchangeAttestation where
  sourceEpoch : JsNumber
  targetEpoch : JsNumber
  signingRoot : Root
  deriving DecidableEq, Repr

/-- An entry of `data`. -/
structure InterchangeValidator where
  pubkey : BLSPubkey
  signedBlocks : List InterchangeBlock
  signedAttestations : List InterchangeAttestation
  deriving DecidableEq, Repr

structure IInterchangeLodestar where
  genesisValidatorsRoot : Root
  data : List InterchangeValidator
  deriving DecidableEq, Repr

/-- `signed_blocks` of a file. -/
structure SignedBlock where
  slot : String
  signing_root : Option String
  deriving DecidableEq, Repr

/-- `signed_attestations` of a file. -/
structure SignedAttestation where
  source_epoch : String
  target_epoch : String
  signing_root : Option String
  deriving DecidableEq, Repr

structure ValidatorData where
  pubkey : String
  signed_blocks : List SignedBlock
  signed_attestations : List SignedAttestation
  deriving DecidableEq, Repr

/-- `interchange_format` is there for versions before 5 only. -/
structure Metadata where
  interchange_format : Option String
  interchange_format_version : String
  genesis_validators_root : String
  deriving DecidableEq, Repr

/-- `IInterchangeV5` or `IInterchangeCompleteV4`. -/
structure Interchange where
  metadata : Metadata
  data : List ValidatorData
  deriving DecidableEq, Repr

structure InterchangeFormatVersion where
  format : Option String
  version : String
  deriving DecidableEq, Repr

/-- `InterchangeErrorErrorCode`. -/
inductive InterchangeError where
  | UNSUPPORTED_FORMAT (format : String)
  | UNSUPPORTED_VERSION (version : String)
  | GENESIS_VALIDATOR_MISMATCH (root extectedRoot : Root)
  deriving DecidableEq, Repr

/-- What an import or an export throws. -/
inductive TransferError where
  | interchange (e : InterchangeError)
  /-- `fromHexString` does not read the string. -/
  | hexString (hex : String)
  /-- A number that is no natural number has no key. -/
  | notANumber
  | service (e : SlashingProtectionError)
  deriving DecidableEq, Repr

/-! ## Strings -/

/-- White space that `parseInt` skips. -/
def isStrWhiteSpaceChar (c : Char) : Bool :=
  c.toNat ∈ [0x9, 0xa, 0xb, 0xc, 0xd, 0x20, 0xa0, 0x1680, 0x2028, 0x2029, 0x202f, 0x205f, 0x3000,
    0xfeff] || (0x2000 ≤ c.toNat && c.toNat ≤ 0x200a)

/-- `parseInt(s, 10)`: the digits at the start, after white space and a sign. -/
def parseInt (s : String) : JsNumber :=
  let s := s.toList.dropWhile isStrWhiteSpaceChar
  let negative := s.head? = some '-'
  let digits := (if negative ∨ s.head? = some '+' then s.tail else s).takeWhile (·.isDigit)
  if digits = [] then none else (readDigits 10 0 digits).filter fun n => ¬ negative ∨ n = 0

/-- `String(num)`. -/
def numToString : JsNumber → String
  | some n => String.ofList (Nat.toDigits 10 n)
  | none => "NaN"

def HexStrings.fromHex (hex : HexStrings) {w : Nat} (s : String) :
    Except TransferError (BitVec w) :=
  (hex.fromHexString s).elim (throw (.hexString s)) pure

def fromOptionalHexString (hex : HexStrings) : Option String → Except TransferError Root
  | some s => if s = "" then pure ZERO_ROOT else hex.fromHex s
  | none => pure ZERO_ROOT

def toOptionalHexString (hex : HexStrings) (root : Root) : Option String :=
  if isEqualRoot root ZERO_ROOT then none else some (hex.toHexString root)

/-! ## Both formats -/

section Formats

variable (hex : HexStrings)

def serializeBlock (block : InterchangeBlock) : SignedBlock where
  slot := numToString block.slot
  signing_root := toOptionalHexString hex block.signingRoot

def serializeAttestation (att : InterchangeAttestation) : SignedAttestation where
  source_epoch := numToString att.sourceEpoch
  target_epoch := numToString att.targetEpoch
  signing_root := toOptionalHexString hex att.signingRoot

def serializeValidator (validator : InterchangeValidator) : ValidatorData where
  pubkey := hex.toHexString validator.pubkey
  signed_blocks := validator.signedBlocks.map (serializeBlock hex)
  signed_attestations := validator.signedAttestations.map (serializeAttestation hex)

def parseBlock (block : SignedBlock) : Except TransferError InterchangeBlock := do
  return { slot := parseInt block.slot, signingRoot := ← fromOptionalHexString hex block.signing_root }

def parseAttestation (att : SignedAttestation) : Except TransferError InterchangeAttestation := do
  return {
    sourceEpoch := parseInt att.source_epoch
    targetEpoch := parseInt att.target_epoch
    signingRoot := ← fromOptionalHexString hex att.signing_root }

def parseValidator (validator : ValidatorData) : Except TransferError InterchangeValidator := do
  return {
    pubkey := ← hex.fromHex validator.pubkey
    signedBlocks := ← validator.signed_blocks.mapM (parseBlock hex)
    signedAttestations := ← validator.signed_attestations.mapM (parseAttestation hex) }

/-- What the parsers of the two formats do. -/
def parseData (interchange : Interchange) : Except TransferError IInterchangeLodestar := do
  return {
    genesisValidatorsRoot := ← hex.fromHex interchange.metadata.genesis_validators_root
    data := ← interchange.data.mapM (parseValidator hex) }

def serializeInterchangeCompleteV4 (x : IInterchangeLodestar) : Interchange where
  metadata := ⟨some "complete", "4", hex.toHexString x.genesisValidatorsRoot⟩
  data := x.data.map (serializeValidator hex)

def parseInterchangeCompleteV4 (interchange : Interchange) :
    Except TransferError IInterchangeLodestar := parseData hex interchange

def serializeInterchangeV5 (x : IInterchangeLodestar) : Interchange where
  metadata := ⟨none, "5", hex.toHexString x.genesisValidatorsRoot⟩
  data := x.data.map (serializeValidator hex)

def parseInterchangeV5 (interchange : Interchange) :
    Except TransferError IInterchangeLodestar := parseData hex interchange

/-- The check of the genesis root, the same in both branches of `parseInterchange`. -/
def checkGenesisValidatorsRoot (expectedGenesisValidatorsRoot : Root) (x : IInterchangeLodestar) :
    Except TransferError IInterchangeLodestar :=
  if isEqualRoot x.genesisValidatorsRoot expectedGenesisValidatorsRoot then return x
  else throw (.interchange (.GENESIS_VALIDATOR_MISMATCH x.genesisValidatorsRoot
    expectedGenesisValidatorsRoot))

def parseInterchange (interchange : Interchange) (expectedGenesisValidatorsRoot : Root) :
    Except TransferError IInterchangeLodestar :=
  let version := interchange.metadata.interchange_format_version
  match interchange.metadata.interchange_format.filter (· ≠ "") with
  | none =>
    -- version >= v5.0.0
    if version = "5" then do
      checkGenesisValidatorsRoot expectedGenesisValidatorsRoot (← parseInterchangeV5 hex interchange)
    else throw (.interchange (.UNSUPPORTED_VERSION version))
  | some format =>
    -- version < v5.0.0
    if format = "complete" then
      if version = "4" then do
        checkGenesisValidatorsRoot expectedGenesisValidatorsRoot
          (← parseInterchangeCompleteV4 hex interchange)
      else throw (.interchange (.UNSUPPORTED_VERSION version))
    else throw (.interchange (.UNSUPPORTED_FORMAT format))

def serializeInterchange (x : IInterchangeLodestar) :
    InterchangeFormatVersion → Except TransferError Interchange
  | ⟨format, version⟩ =>
    match format.filter (· ≠ "") with
    | none =>
      if version = "5" then return serializeInterchangeV5 hex x
      else throw (.interchange (.UNSUPPORTED_VERSION version))
    | some format =>
      if format = "complete" then
        if version = "4" then return serializeInterchangeCompleteV4 hex x
        else throw (.interchange (.UNSUPPORTED_VERSION version))
      else throw (.interchange (.UNSUPPORTED_FORMAT format))

end Formats

/-- The version that `exportInterchange` is asked for. -/
def formatV5 : InterchangeFormatVersion := ⟨none, "5"⟩

def formatCompleteV4 : InterchangeFormatVersion := ⟨some "complete", "4"⟩

/-! ## Round trips -/

theorem parseInt_of_digits {digits : List Char} {n : Nat} (hne : digits ≠ [])
    (hdigit : ∀ c ∈ digits, c.isDigit = true) (hread : readDigits 10 0 digits = some n) :
    parseInt (String.ofList digits) = some n := by
  obtain ⟨c, rest, rfl⟩ := List.exists_cons_of_ne_nil hne
  have hc := Char.isDigit_iff_toNat.1 (hdigit c List.mem_cons_self)
  have hspace : isStrWhiteSpaceChar c = false := by
    simp only [isStrWhiteSpaceChar, List.mem_cons, List.not_mem_nil, or_false, Bool.or_eq_false_iff,
      decide_eq_false_iff_not, Bool.and_eq_false_iff]
    simp only [show '0'.toNat = 48 from rfl, show '9'.toNat = 57 from rfl] at hc
    omega
  have hminus : c ≠ '-' := by rintro rfl; exact absurd hc.1 (by decide)
  have hplus : c ≠ '+' := by rintro rfl; exact absurd hc.1 (by decide)
  have htake : (c :: rest).takeWhile (·.isDigit) = c :: rest :=
    List.takeWhile_eq_self_iff.2 hdigit
  unfold parseInt
  rw [String.toList_ofList, List.dropWhile_cons_of_neg (by simp [hspace])]
  simp only [List.head?_cons, Option.some.injEq, hminus, hplus, or_self, if_false, htake, hread]
  simp

theorem parseInt_numToString (n : JsNumber) : parseInt (numToString n) = n := by
  cases n with
  | none => rfl
  | some n =>
    refine parseInt_of_digits Nat.toDigits_ne_nil (fun c hc => ?_)
      (readDigits_toDigits (by omega) (by omega) n)
    exact Nat.isDigit_of_mem_toDigits (by omega) (by omega) hc

variable (hex : HexStrings)

theorem HexStrings.fromHex_toHexString {w : Nat} (hw : 8 ∣ w) (bytes : BitVec w) :
    hex.fromHex (hex.toHexString bytes) = .ok bytes := by
  rw [HexStrings.fromHex, hex.fromHexString_toHexString bytes hw]
  rfl

theorem fromOptionalHexString_toOptionalHexString (root : Root) :
    fromOptionalHexString hex (toOptionalHexString hex root) = .ok root := by
  unfold toOptionalHexString
  by_cases hzero : isEqualRoot root ZERO_ROOT = true
  · rw [if_pos hzero, eq_of_beq hzero]
    rfl
  · rw [if_neg hzero, fromOptionalHexString, if_neg (hex.toHexString_ne_empty root)]
    exact hex.fromHex_toHexString (by decide) root

theorem parseBlock_serializeBlock (block : InterchangeBlock) :
    parseBlock hex (serializeBlock hex block) = .ok block := by
  simp only [parseBlock, serializeBlock, fromOptionalHexString_toOptionalHexString,
    parseInt_numToString]
  rfl

theorem parseAttestation_serializeAttestation (att : InterchangeAttestation) :
    parseAttestation hex (serializeAttestation hex att) = .ok att := by
  simp only [parseAttestation, serializeAttestation, fromOptionalHexString_toOptionalHexString,
    parseInt_numToString]
  rfl

theorem mapM_map_of_ok {α β ε : Type} {f : α → β} {g : β → Except ε α} (h : ∀ a, g (f a) = .ok a)
    (l : List α) : (l.map f).mapM g = .ok l := by
  have hmap := (mapM_eq_ok_map_iff (l := l) (f := g ∘ f) (g := id)).2 fun a _ => h a
  rwa [List.map_id, ← List.mapM_map] at hmap

theorem parseValidator_serializeValidator (validator : InterchangeValidator) :
    parseValidator hex (serializeValidator hex validator) = .ok validator := by
  simp only [parseValidator, serializeValidator, hex.fromHex_toHexString (w := 384) (by decide),
    mapM_map_of_ok (parseBlock_serializeBlock hex),
    mapM_map_of_ok (parseAttestation_serializeAttestation hex)]
  rfl

theorem parseData_serialize (x : IInterchangeLodestar) (format : Option String) (version : String) :
    parseData hex ⟨⟨format, version, hex.toHexString x.genesisValidatorsRoot⟩,
      x.data.map (serializeValidator hex)⟩ = .ok x := by
  simp only [parseData, hex.fromHex_toHexString (w := 256) (by decide),
    mapM_map_of_ok (parseValidator_serializeValidator hex)]
  rfl

theorem checkGenesisValidatorsRoot_self (x : IInterchangeLodestar) :
    checkGenesisValidatorsRoot x.genesisValidatorsRoot x = .ok x := by
  unfold checkGenesisValidatorsRoot
  rw [if_pos (by simp [isEqualRoot])]
  rfl

theorem parseInterchange_serializeInterchangeV5 (x : IInterchangeLodestar) :
    parseInterchange hex (serializeInterchangeV5 hex x) x.genesisValidatorsRoot = .ok x := by
  have hparse : parseInterchangeV5 hex (serializeInterchangeV5 hex x) = .ok x :=
    parseData_serialize hex x none "5"
  unfold parseInterchange
  rw [hparse]
  exact checkGenesisValidatorsRoot_self x

theorem parseInterchange_serializeInterchangeCompleteV4 (x : IInterchangeLodestar) :
    parseInterchange hex (serializeInterchangeCompleteV4 hex x) x.genesisValidatorsRoot = .ok x := by
  have hparse : parseInterchangeCompleteV4 hex (serializeInterchangeCompleteV4 hex x) = .ok x :=
    parseData_serialize hex x (some "complete") "4"
  unfold parseInterchange
  rw [hparse]
  exact checkGenesisValidatorsRoot_self x

theorem parseInterchange_of_serializeInterchange {x : IInterchangeLodestar}
    {formatVersion : InterchangeFormatVersion}
    (hformat : formatVersion = formatV5 ∨ formatVersion = formatCompleteV4) :
    ∃ interchange, serializeInterchange hex x formatVersion = .ok interchange ∧
      parseInterchange hex interchange x.genesisValidatorsRoot = .ok x := by
  rcases hformat with rfl | rfl
  · exact ⟨_, rfl, parseInterchange_serializeInterchangeV5 hex x⟩
  · exact ⟨_, rfl, parseInterchange_serializeInterchangeCompleteV4 hex x⟩

/-! ## A hex encoding -/

/-- `0x` and two digits a byte. -/
def hexStrings : HexStrings where
  toHexString bytes := String.ofList (toHexString bytes)
  fromHexString {w} s :=
    if s.toList.length = w / 4 + 2 ∧ s.toList.take 2 = ['0', 'x'] then
      (readDigits 16 0 (s.toList.drop 2)).map (BitVec.ofNat w)
    else none
  toHexString_ne_empty bytes h := by
    have hlen := congrArg (·.toList.length) h
    simp at hlen
  fromHexString_toHexString {w} bytes hw := by
    rw [String.toList_ofList, if_pos ⟨length_toHexString bytes, rfl⟩,
      readDigits_toHexString (Nat.dvd_trans (by decide) hw)]
    simp

end Lodestar.SlashingProtection
