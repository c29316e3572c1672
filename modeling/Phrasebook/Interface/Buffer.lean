import Phrasebook.Bytes

/-!
# Buffers

A caller of the binary interface lends a buffer for the result of a call. As much of the result is written as fits with a NUL
after it; a caller that lends no buffer, or one without any room, gets nothing written. The length of the whole result is the
answer either way, so that a caller can ask first and lend a buffer of the right size then.

Lengths are told in 32 bits with a sign (`toldLength`). A result of `resultLimit` bytes or more is refused before its length is
told. The last error is not refused, whatever its length: from 2 GiB on another number is told, and the NUL goes where that
number puts it, which is outside the buffer when the number is negative.
-/

namespace Phrasebook

/-- What a caller lends: no buffer, or one of a size in bytes. A size of zero or less is no room at all. -/
structure Buffer where
  present : Bool
  size : Int
  deriving DecidableEq, Repr

namespace Buffer

/-- Whether there is room for at least the NUL. -/
def hasRoom (b : Buffer) : Bool := b.present && 0 < b.size

/-- What is written of a result: its first bytes, one fewer than there is room for, and a NUL. -/
def receive (b : Buffer) (result : Bytes) : Option Bytes :=
  if b.hasRoom then some (result.take (b.size - 1).toNat ++ [0]) else none

/-- Where the NUL goes when the length of a result is told as a number: behind as many bytes of the result, or to the last place
of the buffer if that comes first. -/
def nulPlace (b : Buffer) (told : Int) : Int := if told < b.size - 1 then told else b.size - 1

/-- What is written into the buffer of a result whose length is told as a number: the bytes in front of the NUL, and the NUL. -/
def receiveTold (b : Buffer) (told : Int) (result : Bytes) : Option Bytes :=
  if b.hasRoom && 0 ≤ b.nulPlace told then some (result.take (b.nulPlace told).toNat ++ [0]) else none

/-- The place of the NUL when it goes outside the buffer, which no caller asks for. -/
def outside? (b : Buffer) (told : Int) : Option Int :=
  if b.hasRoom && b.nulPlace told < 0 then some (b.nulPlace told) else none

end Buffer

/-- The size, in bytes, from which on a result is refused: 16 MiB. -/
def resultLimit : Nat := 16 * 1024 * 1024

/-- A length as it is told: a number of 32 bits with a sign. -/
def toldLength (length : Nat) : Int := (Int32.ofNat length).toInt

end Phrasebook
