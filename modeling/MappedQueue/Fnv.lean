/-!
# The Fowler–Noll–Vo hash

The 64-bit variant 1a: every byte is mixed into the low bits and the whole is then
multiplied by the prime, modulo `2 ^ 64`.
-/

namespace MappedQueue.Fnv

def basis : UInt64 := 0xcbf29ce484222325

def prime : UInt64 := 0x100000001b3

def absorb (hash : UInt64) (byte : UInt8) : UInt64 := (hash ^^^ byte.toUInt64) * prime

def extend (hash : UInt64) (bytes : List UInt8) : UInt64 := bytes.foldl absorb hash

def hash (bytes : List UInt8) : UInt64 := extend basis bytes

end MappedQueue.Fnv
