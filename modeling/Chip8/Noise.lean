/-!
# Random bytes

A seed gives an endless supply of bytes, each of which can be had by its number
without going through those before it. The mixing spreads every bit of the
number over the whole word, so neighbouring bytes have nothing to do with one
another.
-/

namespace Chip8.Noise

/-- Spreads the bits of a word. -/
def mix (word : UInt64) : UInt64 :=
  let word := (word ^^^ (word >>> 30)) * 0xbf58476d1ce4e5b9
  let word := (word ^^^ (word >>> 27)) * 0x94d049bb133111eb
  word ^^^ (word >>> 31)

/-- Byte number `k` of the supply with the given seed. -/
def byte (seed : UInt64) (k : Nat) : UInt8 :=
  (mix (seed + 0x9e3779b97f4a7c15 * UInt64.ofNat (k + 1)) >>> 56).toUInt8

/-- The supply from byte number `k` on. -/
def stream (seed : UInt64) (k : Nat) : Nat → UInt8 :=
  fun i => byte seed (k + i)

end Chip8.Noise
