import Fossil.Venti.Zero
import Fossil.Lib.Wire

/-!
# The Venti root block

A root block (`root.go`) is `RootSize` bytes: the version, the name and the type in fixed fields
of 128 bytes padded with NULs, the score of the root directory, the block size and the score of
the previous root. `Pack` copies at most 128 bytes of a name into its field; `UnpackRoot` cuts
each field at its first NUL, and slices at index -1 when there is none.

The buffer is a slice whose length is its capacity, as a list; `none` is a panic.
-/

namespace Fossil.Venti

open Bytes

def RootVersion : UInt16 := 2

/-- Bytes of the name and of the type field. -/
def rootStringSize : Nat := 128

/-- An unpacked root block (`Root`). -/
structure Root where
  version : UInt16
  name : List UInt8
  typ : List UInt8
  score : Score
  blockSize : UInt16
  prev : Score
  deriving DecidableEq

/-- Why `UnpackRoot` refuses a block. -/
inductive RootError where
  /-- "bad root version: %d" -/
  | badVersion (v : UInt16)
  /-- "bad block size %d", from `checkBlockSize`. -/
  | badBlockSize (n : Nat)
  deriving DecidableEq

/-- `checkBlockSize`: from 256 bytes up to `MaxBlockSize`. -/
def checkBlockSize (n : Nat) : Bool :=
  256 ≤ n && n ≤ MaxBlockSize

/-- `copy(score[:], buf)`: the first 20 bytes of `buf`, zeros past its end. -/
def scoreOf (buf : List UInt8) : Score :=
  Vector.ofFn fun i => buf.getD i.val 0

/-- `s[:strings.IndexByte(s, 0)]`: the bytes before the first NUL; with no NUL the index is -1
and the slice panics. -/
def cString (s : List UInt8) : Option (List UInt8) :=
  (s.idxOf? 0).map s.take

/-- `UnpackRoot(buf)`. -/
def unpackRoot (buf : List UInt8) : Option (Except RootError Root) :=
  if buf.length < 2 then none
  else
    let version := getUint16 buf
    if version≠RootVersion then some (.error (.badVersion version))
    else
      let buf := buf.drop 2
      if buf.length < rootStringSize then none
      else
        match cString (buf.take rootStringSize) with
        | none => none
        | some name =>
          let buf := buf.drop rootStringSize
          if buf.length < rootStringSize then none
          else
            match cString (buf.take rootStringSize) with
            | none => none
            | some typ =>
              let buf := buf.drop rootStringSize
              let score := scoreOf buf
              let buf := buf.drop ScoreSize
              if buf.length < 2 then none
              else
                let blockSize := getUint16 buf
                if !checkBlockSize blockSize.toNat then some (.error (.badBlockSize blockSize.toNat))
                else some (.ok ⟨version,name,typ,score,blockSize,scoreOf (buf.drop 2)⟩)

/-- `copy(make([]byte, rootStringSize), s)`: `s` cut or padded with NULs to 128 bytes. -/
def padString (s : List UInt8) : List UInt8 :=
  (s++List.replicate rootStringSize 0).take rootStringSize

/-- The `RootSize` bytes `(*Root).Pack` writes at the front of its buffer. -/
def Root.pack (r : Root) : List UInt8 :=
  be16 r.version++padString r.name++padString r.typ++r.score.toList++be16 r.blockSize++r.prev.toList

@[simp] theorem length_padString (s : List UInt8) : (padString s).length=rootStringSize := by
  simp [padString,rootStringSize]

theorem length_pack (r : Root) : r.pack.length=RootSize := by
  simp [Root.pack,rootStringSize,RootSize]

theorem scoreOf_toList_append (s : Score) (l : List UInt8) : scoreOf (s.toList++l)=s := by
  apply Vector.ext
  intro i hi
  have hl : i < s.toList.length := by simpa using hi
  simp only [scoreOf,Vector.getElem_ofFn,List.getD_eq_getElem?_getD,List.getElem?_append_left hl]
  simp [hi]

theorem scoreOf_toList (s : Score) : scoreOf s.toList=s := by
  simpa using scoreOf_toList_append s []

/-- In bytes without a NUL followed by one, the first NUL is that one. -/
theorem idxOf_append_zero {s : List UInt8} (h0 : 0 ∉ s) (t : List UInt8) : (s++0::t).idxOf? 0=some s.length := by
  induction s with
  | nil => simp [List.idxOf?_cons]
  | cons c s ih =>
    have hc0 : c≠0 := fun h => h0 (h ▸ List.mem_cons_self)
    simp [List.idxOf?_cons,hc0,ih (fun h => h0 (List.mem_cons_of_mem c h))]

/-- A name shorter than its field, with no NUL, comes back whole. -/
theorem cString_padString {s : List UInt8} (hn : s.length < rootStringSize) (h0 : 0 ∉ s) :
    cString (padString s)=some s := by
  have hpad : padString s=s++List.replicate (rootStringSize-s.length) 0 := by
    rw [padString,List.take_append,List.take_of_length_le (by omega),List.take_replicate]
    congr 2
    omega
  obtain ⟨k,hk⟩ : ∃ k, rootStringSize-s.length=k+1 := ⟨rootStringSize-s.length-1,by omega⟩
  rw [cString,hpad,hk,List.replicate_succ,idxOf_append_zero h0]
  simp

/-- A field with no NUL makes the slice panic. -/
theorem cString_eq_none {s : List UInt8} (h0 : 0 ∉ s) : cString s=none := by
  simp [cString,List.idxOf?_eq_none_iff.mpr h0]

/-- `UnpackRoot` reads back what `Pack` wrote, for a root of the current version with a valid
block size and a name and a type shorter than their fields and free of NULs. -/
theorem unpackRoot_pack {r : Root} (hv : r.version=RootVersion) (hb : checkBlockSize r.blockSize.toNat=true)
    (hn : r.name.length < rootStringSize) (hn0 : 0 ∉ r.name) (ht : r.typ.length < rootStringSize)
    (ht0 : 0 ∉ r.typ) : unpackRoot r.pack=some (.ok r) := by
  have hname := cString_padString hn hn0
  have htyp := cString_padString ht ht0
  have hpn : (padString r.name).length=rootStringSize := length_padString _
  have hpt : (padString r.typ).length=rootStringSize := length_padString _
  simp only [unpackRoot,Root.pack,List.append_assoc,getUint16_be16_append,drop_be16_append,hv,ne_eq,
    not_true_eq_false,if_false,List.length_append,be16_length,List.take_left' hpn,List.drop_left' hpn,
    List.take_left' hpt,List.drop_left' hpt,hname,htyp,scoreOf_toList_append,Vector.length_toList]
  simp [rootStringSize,ScoreSize,hb,scoreOf_toList,← hv]

/-- A root whose name has 128 bytes or more, none of the first 128 a NUL, packs into a block
that `UnpackRoot` panics on: `Pack` fills the name field without a NUL and does not refuse the
name. `mkVac` names a root after a directory entry, whose name may be that long. -/
theorem unpackRoot_long_name_panics {r : Root} (hv : r.version=RootVersion) (hn : rootStringSize ≤ r.name.length)
    (h0 : 0 ∉ r.name.take rootStringSize) : r.pack.length=RootSize ∧ unpackRoot r.pack=none := by
  have hpad : padString r.name=r.name.take rootStringSize := by
    rw [padString,List.take_append,Nat.sub_eq_zero_of_le hn,List.take_zero,List.append_nil]
  have hpn : (padString r.name).length=rootStringSize := length_padString _
  refine ⟨length_pack r,?_⟩
  simp only [unpackRoot,Root.pack,List.append_assoc,getUint16_be16_append,drop_be16_append,hv,ne_eq,
    not_true_eq_false,if_false,List.length_append,be16_length,List.take_left' hpn]
  rw [hpad,cString_eq_none h0]
  simp

/-- A root like the one `mkVac` packs, of type `vac`, named by a 128-byte file name. -/
def longNameRoot : Root :=
  ⟨RootVersion,List.replicate 128 0x61,[0x76,0x61,0x63],zeroScore,8192,Vector.replicate 20 0⟩

theorem unpackRoot_long_name_panics_mkVac :
    longNameRoot.version=RootVersion ∧ rootStringSize ≤ longNameRoot.name.length ∧
      0 ∉ longNameRoot.name.take rootStringSize ∧ longNameRoot.pack.length=RootSize ∧
      unpackRoot longNameRoot.pack=none :=
  have hn : rootStringSize ≤ longNameRoot.name.length := by simp [longNameRoot,rootStringSize]
  have h0 : 0 ∉ longNameRoot.name.take rootStringSize := by
    rw [show longNameRoot.name=List.replicate 128 0x61 from rfl,List.take_replicate,List.mem_replicate]
    decide
  ⟨rfl,hn,h0,unpackRoot_long_name_panics rfl hn h0⟩

end Fossil.Venti
