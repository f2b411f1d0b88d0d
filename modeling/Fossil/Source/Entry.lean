import Fossil.Venti.Score
import Mathlib.Tactic.IntervalCases

/-!
# Entries

The fossil variant of a Venti entry (`entry.go`): besides the generation,
block sizes, depth, flags, size and score of a Venti entry, a local entry
records the tag of its tree, the epoch of the snapshot it enters and whether
that snapshot is archived. The flag bits are Venti's.
-/

namespace Fossil.Source

open Fossil.Venti

def EntryActive : UInt8 := 1

def EntryDir : UInt8 := 2

def EntryDepthShift : UInt8 := 2

def EntryDepthMask : UInt8 := 0x1c

def EntryLocal : UInt8 := 0x20

def EntryNoArchive : UInt8 := 0x40

/-- An entry (`Entry` in `entry.go`). -/
structure Entry where
  /-- Generation number of the slot. -/
  gen : UInt32
  /-- Pointer block size. -/
  psize : UInt16
  /-- Data block size. -/
  dsize : UInt16
  /-- Depth of the tree, unpacked from the flags. -/
  depth : UInt8
  /-- Flags, without the depth bits. -/
  flags : UInt8
  /-- Size in bytes. -/
  size : UInt64
  /-- Score of the root of the tree. -/
  score : Score
  /-- Tag of the tree's local blocks, zero if stored on Venti. -/
  tag : UInt32
  /-- Non-zero: the entry enters the snapshot of that epoch. -/
  snap : UInt32
  /-- Archive this snapshot (only with `snap ≠ 0`). -/
  archive : Bool
  deriving DecidableEq, Repr

/-- The entry of a slot nobody ever wrote: all zero bytes, unpacked. -/
def zeroEntry : Entry :=
  ⟨0,0,0,0,0,0,Vector.replicate 20 0,0,0,false⟩

/-- `e.flags&venti.EntryActive != 0`. -/
def Entry.isActive (e : Entry) : Bool :=
  e.flags &&& EntryActive≠0

/-- Setting the local bit keeps the active bit. -/
@[simp] theorem or_local_and_active (f : UInt8) : (f ||| EntryLocal) &&& EntryActive=f &&& EntryActive := by
  apply UInt8.eq_of_toBitVec_eq
  ext i hi
  simp [EntryLocal,EntryActive]
  interval_cases i <;> simp

/-- Clearing the local bit keeps the active bit. -/
@[simp] theorem andNot_local_and_active (f : UInt8) :
    (f &&& ~~~EntryLocal) &&& EntryActive=f &&& EntryActive := by
  apply UInt8.eq_of_toBitVec_eq
  ext i hi
  simp [EntryLocal,EntryActive]
  interval_cases i <;> simp

/-! ## The depth in the flags byte

Venti folds the depth into bits 2-4 of the flags byte (`flags | (depth<<EntryDepthShift)&EntryDepthMask`)
and unpacking takes it out again. -/

section Depth

variable {f : UInt8} (hf : f &&& EntryDepthMask=0)
include hf

/-- Flags without depth bits read no bit under the depth mask. -/
theorem depthMask_bits (i : Nat) (h : i < 8) : (f &&& EntryDepthMask).toBitVec[i]=false := by
  rw [hf]
  simp

/-- Flags without depth bits come back from the folded byte. -/
theorem foldDepth_flags (d : UInt8) : (f ||| ((d <<< EntryDepthShift) &&& EntryDepthMask)) &&& ~~~EntryDepthMask=f := by
  have h2 := depthMask_bits hf 2 (by omega)
  have h3 := depthMask_bits hf 3 (by omega)
  have h4 := depthMask_bits hf 4 (by omega)
  apply UInt8.eq_of_toBitVec_eq
  ext i hi
  simp [EntryDepthMask,EntryDepthShift] at h2 h3 h4 ⊢
  interval_cases i <;> simp_all

/-- A depth of at most 7 comes back from bits 2-4 of the folded byte. -/
theorem foldDepth_depth {d : UInt8} (hd : d ≤ 7) :
    ((f ||| ((d <<< EntryDepthShift) &&& EntryDepthMask)) &&& EntryDepthMask) >>> EntryDepthShift=d := by
  have hd' : d.toNat < 8 := by
    have := UInt8.le_iff_toNat_le.mp hd
    simp at this
    omega
  have hhigh : ∀ j, 3 ≤ j → (h : j < 8) → d.toBitVec[j]=false := by
    intro j hj h
    simp only [BitVec.getElem_eq_testBit_toNat,UInt8.toNat_toBitVec]
    exact Nat.testBit_lt_two_pow (lt_of_lt_of_le hd' (show 2^3 ≤ 2^j from Nat.pow_le_pow_right (by norm_num) hj))
  have h2 := depthMask_bits hf 2 (by omega)
  have h3 := depthMask_bits hf 3 (by omega)
  have h4 := depthMask_bits hf 4 (by omega)
  apply UInt8.eq_of_toBitVec_eq
  ext i hi
  simp [EntryDepthMask,EntryDepthShift] at h2 h3 h4 ⊢
  interval_cases i <;> simp_all

end Depth

/-- A depth taken out of bits 2-4 has three bits. -/
theorem unfoldDepth_le (b : UInt8) : (b &&& EntryDepthMask) >>> EntryDepthShift ≤ 7 := by
  rw [UInt8.le_iff_toNat_le]
  simp [UInt8.toNat_shiftRight,EntryDepthMask,EntryDepthShift]
  have := Nat.and_le_right (n := b.toNat) (m := 28)
  omega

/-- Flags with the depth bits cleared have none. -/
theorem andNot_depthMask (b : UInt8) : (b &&& ~~~EntryDepthMask) &&& EntryDepthMask=0 := by
  apply UInt8.eq_of_toBitVec_eq
  apply BitVec.eq_of_getLsbD_eq
  intro j hj
  simp

end Fossil.Source
