import Mathlib.Data.UInt
import Mathlib.Data.Vector.Basic

/-!
# Venti scores

A score is 20 bytes: the SHA-1 of a Venti block, or, when its first 16 bytes
are zero, a local disk address in its last four bytes (big-endian). The zero
score is the SHA-1 of the empty block.
-/

namespace Fossil.Venti

/-- Bytes in a score. -/
def ScoreSize : Nat := 20

/-- Bytes in a packed entry. -/
def EntrySize : Nat := 40

/-- Depth limit of a pointer tree. -/
def PointerDepth : Nat := 7

/-- Largest block Venti stores. -/
def MaxBlockSize : Nat := 56*1024

/-- Largest file size an entry can hold. -/
def MaxFileSize : Nat := 2^48-1

/-- A score (`venti.Score`), twenty bytes. -/
abbrev Score := Vector UInt8 20

/-- The score of the empty block (`zeroScore`). -/
def zeroScore : Score :=
  #v[0xda,0x39,0xa3,0xee,0x5e,0x6b,0x4b,0x0d,0x32,0x55,
    0xbf,0xef,0x95,0x60,0x18,0x90,0xaf,0xd8,0x07,0x09]

/-- Big-endian value of four bytes (`pack.GetUint32`). -/
def getUint32 (b0 b1 b2 b3 : UInt8) : UInt32 :=
  (b0.toUInt32 <<< 24) ||| (b1.toUInt32 <<< 16) ||| (b2.toUInt32 <<< 8) ||| b3.toUInt32

/-- `GlobalToLocal`: the local address of a score, `NilBlock` when any of the
first 16 bytes is non-zero. -/
def globalToLocal (s : Score) : UInt32 :=
  if (List.range 16).all fun i => s.getD i 0=0 then getUint32 (s.getD 16 0) (s.getD 17 0) (s.getD 18 0) (s.getD 19 0)
  else 0xFFFFFFFF

/-- `LocalToGlobal`: sixteen zero bytes, then the address big-endian. -/
def localToGlobal (addr : UInt32) : Score :=
  #v[0,0,0,0,0,0,0,0,0,0,0,0,0,0,0,0,
    (addr >>> 24).toUInt8,(addr >>> 16).toUInt8,(addr >>> 8).toUInt8,addr.toUInt8]

end Fossil.Venti
