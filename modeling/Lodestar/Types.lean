import Mathlib.Tactic

/-!
# Primitive types

Slots, epochs, periods and indices are JavaScript numbers that stay natural
numbers, and are written `Nat`.
Roots and public keys are byte strings of fixed length, kept as bit vectors:
the hex strings `toHexString` makes of them have one length and one letter
case, so they compare and are ordered as the bytes are.
-/

namespace Lodestar

/-- 32 bytes. -/
abbrev Root := BitVec 256

/-- A root as a hex string. -/
abbrev RootHex := Root

/-- 48 bytes. -/
abbrev BLSPubkey := BitVec 384

/-- 4 bytes. -/
abbrev Version := BitVec 32

/-- 96 bytes. -/
abbrev BLSSignature := BitVec 768

structure BeaconBlockHeader where
  slot : Nat
  proposerIndex : Nat
  parentRoot : Root
  stateRoot : Root
  bodyRoot : Root
  deriving DecidableEq

structure Eth1Data where
  depositRoot : Root
  depositCount : Nat
  blockHash : Root
  deriving DecidableEq

def MAX_SAFE_INTEGER : Nat := 2 ^ 53 - 1

/-- `0x00…00`. -/
def HEX_ZERO_HASH : RootHex := 0

end Lodestar
