import Fossil.Venti.Root
import Fossil.Block

/-!
# The super block

The super block (`super.go`) fills the first `SuperSize` bytes of the super partition's block: a
magic number, the version, the low and high epochs, the next qid, the roots of the active file
system, of the next snapshot to archive and of the one being archived, the score of the last
archive, and a name. `pack` zeroes the `SuperSize` bytes and writes the fields; `unpackSuper`
reads them back and refuses a block with a bad magic number, version, epoch range or qid.

`unpackSuper_bytes` computes what `unpackSuper` makes of packed fields: the record, or the error
its check gives. From it, `unpackSuper_pack` is the round trip for the records `unpackSuper`
accepts, and `unpackSuper_valid` says that it accepts only those.
-/

namespace Fossil.SuperBlock

open Bytes
open Fossil.Venti (Score ScoreSize scoreOf scoreOf_toList_append)
open Fossil.Block (NilBlock)

def SuperMagic : UInt32 := 0x2340a3b1

def SuperSize : Nat := 512

def SuperVersion : UInt16 := 1

/-- Bytes of the name field. -/
def nameSize : Nat := 128

/-- `Super`. -/
structure Super where
  version : UInt16
  epochLow : UInt32
  epochHigh : UInt32
  /-- The next qid. -/
  qid : UInt64
  /-- Root of the active file system. -/
  active : UInt32
  /-- Root of the next snapshot to archive. -/
  next : UInt32
  /-- Root of the snapshot being archived. -/
  current : UInt32
  /-- Score of the last snapshot archived. -/
  last : Score
  name : Vector UInt8 nameSize
  deriving DecidableEq

/-- The fields at the offsets `pack` writes them, from 0: magic 0, version 4, epochs 6 and 10,
qid 14, roots 22, 26 and 30, last 34, name 54. -/
def Super.bytes (s : Super) : List UInt8 :=
  be32 SuperMagic++be16 s.version++be32 s.epochLow++be32 s.epochHigh++be64 s.qid++be32 s.active++
    be32 s.next++be32 s.current++s.last.toList++s.name.toList

/-- `(*Super).pack(p)`: zero the first `SuperSize` bytes of `p`, then write the fields; `none` is
a panic, on a buffer shorter than `SuperSize` or on the assertion that the version is
`SuperVersion`. -/
def Super.pack (s : Super) (p : List UInt8) : Option (List UInt8) :=
  if p.length < SuperSize ∨ s.version≠SuperVersion then none
  else some (s.bytes++List.replicate (SuperSize-s.bytes.length) 0++p.drop SuperSize)

/-- `copy(s.name[:], p)`: the first 128 bytes of `p`, zeros past its end. -/
def nameOf (p : List UInt8) : Vector UInt8 nameSize :=
  Vector.ofFn fun i => p.getD i.val 0

/-- `unpackSuper(p)`. -/
def unpackSuper (p : List UInt8) : Except String Super :=
  if getUint32 p≠SuperMagic then .error "bad magic"
  else
    let version := getUint16 (p.drop 4)
    if version≠SuperVersion then .error "bad version"
    else
      let epochLow := getUint32 (p.drop 6)
      let epochHigh := getUint32 (p.drop 10)
      let qid := getUint64 (p.drop 14)
      if epochLow=0 ∨ epochLow > epochHigh then .error "bad epoch"
      else if qid=0 then .error "bad qid"
      else .ok ⟨version,epochLow,epochHigh,qid,getUint32 (p.drop 22),getUint32 (p.drop 26),getUint32 (p.drop 30),
        scoreOf (p.drop 34),nameOf (p.drop 54)⟩

/-- The records `unpackSuper` accepts. -/
structure Super.Valid (s : Super) : Prop where
  version : s.version=SuperVersion
  epochLow : s.epochLow≠0
  epochs : s.epochLow ≤ s.epochHigh
  qid : s.qid≠0

instance (s : Super) : Decidable s.Valid :=
  decidable_of_iff (s.version=SuperVersion ∧ s.epochLow≠0 ∧ s.epochLow ≤ s.epochHigh ∧ s.qid≠0)
    ⟨fun h => ⟨h.1,h.2.1,h.2.2.1,h.2.2.2⟩,fun h => ⟨h.version,h.epochLow,h.epochs,h.qid⟩⟩

@[simp] theorem bytes_length (s : Super) : s.bytes.length=182 := by
  simp only [Super.bytes,List.length_append,be32_length,be16_length,be64_length,Vector.length_toList]
  rfl

theorem nameOf_toList_append (v : Vector UInt8 nameSize) (l : List UInt8) : nameOf (v.toList++l)=v := by
  apply Vector.ext
  intro i hi
  have hl : i < v.toList.length := by simpa using hi
  simp only [nameOf,Vector.getElem_ofFn,List.getD_eq_getElem?_getD,List.getElem?_append_left hl]
  simp [hi]

example : (Super.bytes ⟨1,1,1,1,2,3,4,Vector.replicate 20 0,Vector.replicate 128 0⟩).take 4=[0x23,0x40,0xa3,0xb1] := by
  decide

/-- What `unpackSuper` makes of packed fields, whatever follows them: the first check that fails,
or the record. -/
theorem unpackSuper_bytes (s : Super) (r : List UInt8) :
    unpackSuper (s.bytes++r)=
      if s.version≠SuperVersion then .error "bad version"
      else if s.epochLow=0 ∨ s.epochLow > s.epochHigh then .error "bad epoch"
      else if s.qid=0 then .error "bad qid"
      else .ok s := by
  have hname : (s.last.toList++(s.name.toList++r)).drop 20=s.name.toList++r := List.drop_left' (by simp)
  simp only [unpackSuper,Super.bytes,List.append_assoc,getUint32_be32_append,drop_add_be32_append,drop_add_be16_append,
    drop_add_be64_append,List.drop_zero,getUint16_be16_append,getUint64_be64_append,scoreOf_toList_append,hname,
    nameOf_toList_append,ne_eq,not_true_eq_false,if_false]

/-- A valid record's fields unpack to it, whatever follows them. -/
theorem unpackSuper_bytes_valid {s : Super} (hv : s.Valid) (r : List UInt8) : unpackSuper (s.bytes++r)=.ok s := by
  rw [unpackSuper_bytes]
  simp [hv.version,hv.epochLow,hv.epochs,hv.qid]

/-- What `pack` writes: the fields, zeros to `SuperSize`, and the rest of the buffer. -/
theorem pack_eq {s : Super} {p q : List UInt8} (h : s.pack p=some q) :
    s.version=SuperVersion ∧ SuperSize ≤ p.length ∧ q=s.bytes++(List.replicate (SuperSize-182) 0++p.drop SuperSize) := by
  unfold Super.pack at h
  split_ifs at h with hp
  cases h
  rw [not_or,not_lt,not_not] at hp
  exact ⟨hp.2,hp.1,by rw [bytes_length,List.append_assoc]⟩

/-- `pack` keeps the buffer's length. -/
theorem pack_length {s : Super} {p q : List UInt8} (h : s.pack p=some q) : q.length=p.length := by
  obtain ⟨-,hp,rfl⟩ := pack_eq h
  simp only [List.length_append,bytes_length,List.length_replicate,List.length_drop]
  unfold SuperSize at hp ⊢
  omega

/-- `pack` leaves the buffer past `SuperSize` as it was. -/
theorem pack_drop {s : Super} {p q : List UInt8} (h : s.pack p=some q) : q.drop SuperSize=p.drop SuperSize := by
  obtain ⟨-,-,rfl⟩ := pack_eq h
  rw [← List.append_assoc]
  refine List.drop_left' ?_
  simp only [List.length_append,bytes_length,List.length_replicate]
  rfl

/-- `pack` panics only on a short buffer or on a record of another version. -/
theorem pack_isSome {s : Super} {p : List UInt8} (hp : SuperSize ≤ p.length) (hv : s.version=SuperVersion) :
    (s.pack p).isSome := by
  simp [Super.pack,hv,not_lt.mpr hp]

/-- A packed record that `unpackSuper` accepts is read back as it was. -/
theorem unpackSuper_pack_eq {s s' : Super} {p q : List UInt8} (h : s.pack p=some q) (h' : unpackSuper q=.ok s') :
    s'=s := by
  obtain ⟨-,-,rfl⟩ := pack_eq h
  rw [unpackSuper_bytes] at h'
  split_ifs at h'
  cases h'
  rfl

/-- What `unpackSuper` accepts is a valid record. -/
theorem unpackSuper_valid {p : List UInt8} {s : Super} (h : unpackSuper p=.ok s) : s.Valid := by
  unfold unpackSuper at h
  dsimp only at h
  split_ifs at h with h1 h2 h3 h4
  cases h
  rw [not_or] at h3
  exact ⟨not_not.mp h2,h3.1,UInt32.not_lt.mp h3.2,h4⟩

/-- A valid record packs into a buffer that `pack` fits, keeping its length, and unpacks back. -/
theorem pack_valid {s : Super} {p : List UInt8} (hv : s.Valid) (hp : SuperSize ≤ p.length) :
    ∃ q, s.pack p=some q ∧ q.length=p.length ∧ unpackSuper q=.ok s := by
  obtain ⟨q,hq⟩ := Option.isSome_iff_exists.mp (pack_isSome hp hv.version)
  obtain ⟨-,-,rfl⟩ := pack_eq hq
  exact ⟨_,hq,pack_length hq,unpackSuper_bytes_valid hv _⟩

/-- The super block's round trip: a valid record packs into any buffer of `SuperSize` bytes or
more, which keeps its length and its bytes past `SuperSize`, and `unpackSuper` reads the record
back. -/
theorem unpackSuper_pack {s : Super} {p : List UInt8} (hv : s.Valid) (hp : SuperSize ≤ p.length) :
    ∃ q, s.pack p=some q ∧ q.length=p.length ∧ q.drop SuperSize=p.drop SuperSize ∧ unpackSuper q=.ok s := by
  obtain ⟨q,hq,hl,hu⟩ := pack_valid hv hp
  exact ⟨q,hq,hl,pack_drop hq,hu⟩

/-- A fresh file system's super block: epoch 1, qid 1, the active root at block 0, no archive. -/
def freshSuper : Super :=
  ⟨SuperVersion,1,1,1,0,NilBlock,NilBlock,Vector.replicate 20 0,Vector.replicate nameSize 0⟩

theorem freshSuper_valid : freshSuper.Valid :=
  ⟨rfl,by decide,by decide,by decide⟩

/-- A zeroed super block buffer. -/
def zeroBlock : List UInt8 :=
  List.replicate SuperSize 0

theorem unpackSuper_pack_fresh :
    ∃ q, freshSuper.pack zeroBlock=some q ∧ q.length=zeroBlock.length ∧ q.drop SuperSize=zeroBlock.drop SuperSize ∧
      unpackSuper q=.ok freshSuper := by
  have hp : SuperSize ≤ zeroBlock.length := (List.length_replicate ..).ge
  exact unpackSuper_pack freshSuper_valid hp

/-- The `SuperSize` bytes `pack` writes for `s`, whatever the buffer held. -/
def Super.block (s : Super) : List UInt8 :=
  s.bytes++List.replicate (SuperSize-182) 0

theorem block_length (s : Super) : s.block.length=SuperSize := by
  simp only [Super.block,List.length_append,bytes_length,List.length_replicate]
  rfl

theorem unpackSuper_block {s : Super} (hv : s.Valid) : unpackSuper s.block=.ok s :=
  unpackSuper_bytes_valid hv _

end Fossil.SuperBlock
