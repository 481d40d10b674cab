import Lodestar.Base.Bytes

/-!
# SHA-256

On byte strings, evaluated by the kernel.
-/

namespace Lodestar.Base

abbrev Bytes32 := Vector UInt8 32

namespace Sha256

abbrev Word := BitVec 32

def roundConstants : List Word := [
  0x428a2f98, 0x71374491, 0xb5c0fbcf, 0xe9b5dba5, 0x3956c25b, 0x59f111f1, 0x923f82a4, 0xab1c5ed5,
  0xd807aa98, 0x12835b01, 0x243185be, 0x550c7dc3, 0x72be5d74, 0x80deb1fe, 0x9bdc06a7, 0xc19bf174,
  0xe49b69c1, 0xefbe4786, 0x0fc19dc6, 0x240ca1cc, 0x2de92c6f, 0x4a7484aa, 0x5cb0a9dc, 0x76f988da,
  0x983e5152, 0xa831c66d, 0xb00327c8, 0xbf597fc7, 0xc6e00bf3, 0xd5a79147, 0x06ca6351, 0x14292967,
  0x27b70a85, 0x2e1b2138, 0x4d2c6dfc, 0x53380d13, 0x650a7354, 0x766a0abb, 0x81c2c92e, 0x92722c85,
  0xa2bfe8a1, 0xa81a664b, 0xc24b8b70, 0xc76c51a3, 0xd192e819, 0xd6990624, 0xf40e3585, 0x106aa070,
  0x19a4c116, 0x1e376c08, 0x2748774c, 0x34b0bcb5, 0x391c0cb3, 0x4ed8aa4a, 0x5b9cca4f, 0x682e6ff3,
  0x748f82ee, 0x78a5636f, 0x84c87814, 0x8cc70208, 0x90befffa, 0xa4506ceb, 0xbef9a3f7, 0xc67178f2]

structure HashState where
  a : Word
  b : Word
  c : Word
  d : Word
  e : Word
  f : Word
  g : Word
  h : Word

def initial : HashState :=
  ⟨0x6a09e667, 0xbb67ae85, 0x3c6ef372, 0xa54ff53a, 0x510e527f, 0x9b05688c, 0x1f83d9ab, 0x5be0cd19⟩

def smallSigma0 (x : Word) : Word := x.rotateRight 7 ^^^ x.rotateRight 18 ^^^ x >>> 3
def smallSigma1 (x : Word) : Word := x.rotateRight 17 ^^^ x.rotateRight 19 ^^^ x >>> 10
def bigSigma0 (x : Word) : Word := x.rotateRight 2 ^^^ x.rotateRight 13 ^^^ x.rotateRight 22
def bigSigma1 (x : Word) : Word := x.rotateRight 6 ^^^ x.rotateRight 11 ^^^ x.rotateRight 25
def choose (x y z : Word) : Word := x &&& y ^^^ ~~~x &&& z
def majority (x y z : Word) : Word := x &&& y ^^^ x &&& z ^^^ y &&& z

/-- The words of the schedule, the newest first. -/
def schedule (words : List Word) : Nat → List Word
  | 0 => words
  | n + 1 =>
    let word := smallSigma1 (words.getD 1 0) + words.getD 6 0 + smallSigma0 (words.getD 14 0) +
      words.getD 15 0
    schedule (word :: words) n

def HashState.round (s : HashState) (constant word : Word) : HashState :=
  let t₁ := s.h + bigSigma1 s.e + choose s.e s.f s.g + constant + word
  let t₂ := bigSigma0 s.a + majority s.a s.b s.c
  ⟨t₁ + t₂, s.a, s.b, s.c, s.d + t₁, s.e, s.f, s.g⟩

def HashState.add (s t : HashState) : HashState :=
  ⟨s.a + t.a, s.b + t.b, s.c + t.c, s.d + t.d, s.e + t.e, s.f + t.f, s.g + t.g, s.h + t.h⟩

def compress (s : HashState) (block : List Word) : HashState :=
  let words := (schedule block.reverse 48).reverse
  s.add ((roundConstants.zip words).foldl (fun s kw => s.round kw.1 kw.2) s)

/-- Blocks of sixteen words. -/
def compressBlocks : Nat → List Word → HashState → HashState
  | 0, _, s => s
  | n + 1, words, s => compressBlocks n (words.drop 16) (compress s (words.take 16))

def toWords : Bytes → List Word
  | a :: b :: c :: d :: bytes => BitVec.ofNat 32 (ofBytesBE [a, b, c, d]) :: toWords bytes
  | _ => []

def pad (message : Bytes) : Bytes :=
  message ++ 0x80 :: List.replicate ((119 - message.length % 64) % 64) 0 ++
    toBytesBE 8 (8 * message.length)

def HashState.toBytes (s : HashState) : Bytes :=
  [s.a, s.b, s.c, s.d, s.e, s.f, s.g, s.h].flatMap fun word => toBytesBE 4 word.toNat

theorem HashState.length_toBytes (s : HashState) : s.toBytes.length = 32 := by
  simp [toBytes]

end Sha256

open Sha256 in
def sha256 (message : Bytes) : Bytes32 :=
  let padded := pad message
  let digest := compressBlocks (padded.length / 64) (toWords padded) initial
  ⟨digest.toBytes.toArray, by rw [List.size_toArray, digest.length_toBytes]⟩

example : (sha256 [0x61, 0x62, 0x63]).toList.take 4 = [0xba, 0x78, 0x16, 0xbf] := by decide +kernel

end Lodestar.Base
