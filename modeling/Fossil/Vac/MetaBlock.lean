import Fossil.Lib.Bytes
import Fossil.Lib.BinSearch

/-!
# Meta blocks

A meta block (`vac.go`) packs directory entries into one block: a 12-byte header (magic, bytes
used, free bytes among them, index slots, slots in use), a table of `maxindex` 4-byte slots
holding the offset and size of each entry in name order, and after the table the entries
themselves, each starting with `DirMagic`, in any order. The record holds the header fields as
`unpackMetaBlock` unpacks them and the block's buffer. An assertion, an index out of range or a
slice with a negative length is `none`; the sort that `metaChunks` calls is a parameter.

Byte counts are `Nat`: Go's `int` arithmetic on `size` and `free` agrees with it whenever the Go
value is not negative, which a valid block guarantees. The buffer has no end: the block's data
is longer than `maxsize`, and every write of the operations stays below it.
-/

namespace Fossil.Vac

open Bytes

def MetaMagic : UInt32 := 0x5656fc7a

def MetaHeaderSize : Nat := 12

def MetaIndexSize : Nat := 4

def DirMagic : UInt32 := 0x1c4d9072

def DeQidSpace : UInt8 := 3

/-- An unpacked meta block (`MetaBlock`). -/
structure MetaBlock where
  /-- Size of the block. -/
  maxsize : Nat
  /-- Bytes used, from the start of the block. -/
  size : Nat
  /-- Free bytes within the used ones. -/
  free : Nat
  /-- Index slots in the table. -/
  maxindex : Nat
  /-- Slots in use. -/
  nindex : Nat
  /-- An old block (magic `MetaMagic-1`), sorted by the old comparison. -/
  botch : Bool
  /-- The block's bytes. -/
  buf : Buf

/-- An index slot unpacked (`MetaEntry`). -/
structure MetaEntry where
  /-- Offset of the entry in the block. -/
  offset : Nat
  /-- Size of the entry. -/
  size : UInt16
  deriving DecidableEq, Repr

/-- An index slot with its position, for sorting by offset (`MetaChunk`). -/
structure MetaChunk where
  offset : UInt16
  size : UInt16
  index : UInt16
  deriving DecidableEq, Repr

/-- Offset of index slot `i`. -/
def slot (i : Nat) : Nat :=
  MetaHeaderSize+i*MetaIndexSize

/-- First byte past the index table, `MetaHeaderSize + maxindex*MetaIndexSize`. -/
def MetaBlock.omin (mb : MetaBlock) : Nat :=
  MetaHeaderSize+mb.maxindex*MetaIndexSize

/-! ## Directory entries -/

/-- The fields of a directory entry that `packDirEntry` and `getSize` read (`DirEntry`). -/
structure DirEntry where
  elem : List UInt8
  entry : UInt32
  gen : UInt32
  mentry : UInt32
  mgen : UInt32
  qid : UInt64
  uid : List UInt8
  gid : List UInt8
  mid : List UInt8
  mtime : UInt32
  mcount : UInt32
  ctime : UInt32
  atime : UInt32
  mode : UInt32
  qidSpace : Int
  qidOffset : UInt64
  qidMax : UInt64
  deriving DecidableEq

/-- `(*DirEntry).getSize`. -/
def DirEntry.getSize (dir : DirEntry) : Nat :=
  4+2+4+4+4+4+8+4+4+4+4+4+(2+dir.elem.length)+(2+dir.uid.length)+(2+dir.gid.length)+
    (2+dir.mid.length)+(if dir.qidSpace≠0 then 3+8+8 else 0)

/-- The bytes `PackStringBuf` writes: the length, then the string. -/
def packString (s : List UInt8) : List UInt8 :=
  be16 s.length.toUInt16++s

/-- The bytes `packDirEntry` writes, version 9. -/
def encode (dir : DirEntry) : List UInt8 :=
  be32 DirMagic++be16 9++packString dir.elem++be32 dir.entry++be32 dir.gen++be32 dir.mentry++
    be32 dir.mgen++be64 dir.qid++packString dir.uid++packString dir.gid++packString dir.mid++
    be32 dir.mtime++be32 dir.mcount++be32 dir.ctime++be32 dir.atime++be32 dir.mode++
    (if 0 < dir.qidSpace then [DeQidSpace]++be16 16++be64 dir.qidOffset++be64 dir.qidMax else [])

/-- `(*MetaBlock).packDirEntry`: write the entry at the slot's offset; the closing assertion
is that it took exactly the slot's size. -/
def packDirEntry (mb : MetaBlock) (dir : DirEntry) (me : MetaEntry) : Option MetaBlock :=
  if (encode dir).length=me.size.toNat then some { mb with buf := write mb.buf me.offset (encode dir) }
  else none

/-! ## The index -/

/-- `(*MetaBlock).unpackMetaEntry`, with its assertions. -/
def unpackMetaEntry (mb : MetaBlock) (i : Nat) : Option MetaEntry :=
  if i < mb.nindex then
    if 8 ≤ get16 mb.buf (slot i+2) then some ⟨(get16 mb.buf (slot i)).toNat,get16 mb.buf (slot i+2)⟩
    else none
  else none

/-- The loop of `meCmp`: bytewise, a proper prefix first. -/
def cmpName : List UInt8 → List UInt8 → Int
  | [], [] => 0
  | [], _::_ => -1
  | _::_, [] => 1
  | c::p, d::s => if c < d then -1 else if d < c then 1 else cmpName p s

/-- The loop of `meCmpOld`: a greater byte answers 0, and when the name runs out the byte of `s`
after it decides; `s[0]` past the end of `s` is an index out of range. -/
def cmpNameOld : List UInt8 → List UInt8 → Option Int
  | [], [] => none
  | [], d::_ => some (if d≠0 then 1 else 0)
  | _::_, [] => some (-1)
  | c::p, d::s => if c < d then some (-1) else if d < c then some 0 else cmpNameOld p s

/-- The name length an entry records, at most its size less 8. -/
def nameLen (mb : MetaBlock) (me : MetaEntry) : Nat :=
  if me.size.toNat-8 < (get16 mb.buf (me.offset+6)).toNat then me.size.toNat-8
  else (get16 mb.buf (me.offset+6)).toNat

/-- `(*MetaBlock).meCmp`. -/
def meCmp (mb : MetaBlock) (me : MetaEntry) (s : List UInt8) : Int :=
  cmpName (region mb.buf (me.offset+8) (nameLen mb me)) s

/-- `(*MetaBlock).meCmpOld`. -/
def meCmpOld (mb : MetaBlock) (me : MetaEntry) (s : List UInt8) : Option Int :=
  cmpNameOld (region mb.buf (me.offset+8) (nameLen mb me)) s

/-- `(*MetaBlock).search`: the binary search over the slots, with the block's comparison.
Answers the slot and, when the name is there, its entry; otherwise the insertion point. -/
def search (mb : MetaBlock) (elem : List UInt8) : Option (Nat × Option MetaEntry) :=
  let cmp : Nat → Option Int := fun i => (unpackMetaEntry mb i).bind fun me =>
    if mb.botch then meCmpOld mb me elem else some (meCmp mb me elem)
  match BinSearch.search cmp 0 mb.nindex with
  | none => none
  | some (i,true) => (unpackMetaEntry mb i).map fun me => (i,some me)
  | some (i,false) => some (i,none)

/-- `(*MetaBlock).delete`: zero the entry, give its bytes back (off the end when it is last),
and close its slot. -/
def delete (mb : MetaBlock) (i : Nat) : Option MetaBlock :=
  match unpackMetaEntry mb i with
  | none => none
  | some me =>
    let size := if me.offset+me.size.toNat=mb.size then mb.size-me.size.toNat else mb.size
    let free := if me.offset+me.size.toNat=mb.size then mb.free else mb.free+me.size.toNat
    let n := (mb.nindex-i-1)*MetaIndexSize
    let buf := fill (move (fill mb.buf me.offset me.size.toNat) (slot i) (slot i+MetaIndexSize) n)
      (slot i+n) MetaIndexSize
    some { mb with buf := buf, size := size, free := free, nindex := mb.nindex-1 }

/-- `(*MetaBlock).insert`: take the entry's bytes (past the end when it reaches beyond it) and
open slot `i` for it. -/
def insert (mb : MetaBlock) (i : Nat) (me : MetaEntry) : Option MetaBlock :=
  if mb.maxindex ≤ mb.nindex then none
  else if mb.nindex < i then none
  else
    let size := if mb.size < me.offset+me.size.toNat then me.offset+me.size.toNat else mb.size
    let free := if mb.size < me.offset+me.size.toNat then mb.free+me.offset-mb.size else mb.free-me.size.toNat
    let buf := move mb.buf (slot i+MetaIndexSize) (slot i) ((mb.nindex-i)*MetaIndexSize)
    let buf := put16 (put16 buf (slot i) me.offset.toUInt16) (slot i+2) me.size
    some { mb with buf := buf, size := size, free := free, nindex := mb.nindex+1 }

/-! ## Allocation -/

/-- The index slots in table order, with their positions. -/
def chunks (mb : MetaBlock) : List MetaChunk :=
  (List.range mb.nindex).map fun i => ⟨get16 mb.buf (slot i),get16 mb.buf (slot i+2),i.toUInt16⟩

/-- The check loop of `metaChunks` over the sorted chunks: each starts at or after the bytes the
earlier ones take from `omin`. Answers the bytes taken and the last chunk. -/
def scanChunks : List MetaChunk → Nat × Nat × Nat → Option (Nat × Nat × Nat)
  | [], acc => some acc
  | c::cs, (oo,_,_) =>
    if c.offset.toNat < oo then none else scanChunks cs (oo+c.size.toNat,c.offset.toNat,c.size.toNat)

/-- `(*MetaBlock).metaChunks`: the slots sorted by offset, if the block looks sound: the last
chunk ends within `size` and the free count is what the chunks leave. -/
def metaChunks (sort : List MetaChunk → List MetaChunk) (mb : MetaBlock) : Option (List MetaChunk) :=
  match scanChunks (sort (chunks mb)) (mb.omin,mb.omin,0) with
  | none => none
  | some (oo,o,n) =>
    if mb.size < o+n then none
    else if (mb.size : Int)-oo≠mb.free then none
    else some (sort (chunks mb))

/-- The hole search of `alloc`: the first gap of `n` bytes between sorted chunks from `o`
(left), or the end of the last chunk (right). -/
def hole : List MetaChunk → Nat → Nat → Nat ⊕ Nat
  | [], o, _ => .inr o
  | c::cs, o, n => if o+n ≤ c.offset.toNat then .inl o else hole cs (c.offset.toNat+c.size.toNat) n

/-- The loop of `compact`: move each chunk down to the bytes the earlier ones take and point its
slot there. Answers the buffer and the bytes taken. -/
def compactLoop : List MetaChunk → Nat → Buf → Buf × Nat
  | [], oo, buf => (buf,oo)
  | c::cs, oo, buf =>
    let buf := if c.offset.toNat≠oo then
        put16 (move buf oo c.offset.toNat c.size.toNat) (slot c.index.toNat) oo.toUInt16
      else buf
    compactLoop cs (oo+c.size.toNat) buf

/-- `(*MetaBlock).compact`. -/
def compact (mb : MetaBlock) (mc : List MetaChunk) : MetaBlock :=
  { mb with buf := (compactLoop mc mb.omin mb.buf).1, size := (compactLoop mc mb.omin mb.buf).2, free := 0 }

/-- `(*MetaBlock).alloc`: `n` bytes off the end, in a hole, past the last chunk, or off the end
after compacting. The block may come back compacted, also on failure. -/
def alloc (sort : List MetaChunk → List MetaChunk) (mb : MetaBlock) (n : Nat) : MetaBlock × Option Nat :=
  if n ≤ mb.maxsize-mb.size then (mb,some mb.size)
  else if mb.maxsize-mb.size+mb.free < n then (mb,none)
  else
    match metaChunks sort mb with
    | none => (mb,none)
    | some mc =>
      match hole mc mb.omin n with
      | .inl o => (mb,some o)
      | .inr o =>
        if n ≤ mb.maxsize-o then (mb,some o)
        else if mb.maxsize-(compact mb mc).size < n then (compact mb mc,none)
        else (compact mb mc,some (compact mb mc).size)

/-- The zero scan of `resize`: from `o`, past at most `k` zero bytes. -/
def scanZero (buf : Buf) (o : Nat) : Nat → Nat
  | 0 => o
  | k+1 => if buf o=0 then scanZero buf (o+1) k else o

/-- `(*MetaBlock).resize`: shrink in place, grow over the zero bytes after the entry, or move it
to a fresh allocation. -/
def resize (sort : List MetaChunk → List MetaChunk) (mb : MetaBlock) (me : MetaEntry) (n : Nat) :
    MetaBlock × MetaEntry × Bool :=
  if n ≤ me.size.toNat then (mb,{ me with size := n.toUInt16 },true)
  else if n ≤ scanZero mb.buf (me.offset+me.size.toNat) (mb.maxsize-(me.offset+me.size.toNat))-me.offset then
    (mb,{ me with size := n.toUInt16 },true)
  else
    match alloc sort mb n with
    | (mb,some o) => (mb,⟨o,n.toUInt16⟩,true)
    | (mb,none) => (mb,me,false)

/-! ## Packing -/

/-- `(*MetaBlock).pack`: write the header; an old block may not be written. -/
def pack (mb : MetaBlock) : Option MetaBlock :=
  if mb.botch then none
  else
    let buf := put16 (put16 (put16 (put16 (put32 mb.buf 0 MetaMagic) 4 mb.size.toUInt16) 6 mb.free.toUInt16)
      8 mb.maxindex.toUInt16) 10 mb.nindex.toUInt16
    some { mb with buf := buf }

/-- The slot check of `unpackMetaBlock`: every slot in use names at least 8 bytes between the
table's end and `size` that start with `DirMagic`. -/
def slotsOk (p : Buf) (omin size nindex : Nat) : Bool :=
  (List.range nindex).all fun i =>
    let eo := (get16 p (slot i)).toNat
    let en := (get16 p (slot i+2)).toNat
    decide (omin ≤ eo ∧ eo+en ≤ size ∧ 8 ≤ en) && get32 p eo==DirMagic

/-- `unpackMetaBlock(p, n)`; `none` is `EBadMeta`. -/
def unpackMetaBlock (p : Buf) (n : Nat) : Option MetaBlock :=
  if n=0 then some ⟨0,0,0,0,0,false,p⟩
  else if get32 p 0≠MetaMagic ∧ get32 p 0≠MetaMagic-1 then none
  else
    let mb : MetaBlock := ⟨n,(get16 p 4).toNat,(get16 p 6).toNat,(get16 p 8).toNat,(get16 p 10).toNat,
      get32 p 0≠MetaMagic,p⟩
    if n < mb.size then none
    else if n < mb.omin then none
    else if !slotsOk p mb.omin mb.size mb.nindex then none
    else some mb

/-- `initMetaBlock`: a zeroed block with an empty table of `nEntries` slots. -/
def initMetaBlock (p : Buf) (maxSize nEntries : Nat) : MetaBlock :=
  ⟨maxSize,MetaHeaderSize+nEntries*MetaIndexSize,0,nEntries,0,false,fill p 0 maxSize⟩

/-! ## What the file layer does to one meta block -/

/-- `metaRemove` (and `fsckClri`) on the block: find the name, delete its slot, pack. -/
def metaRemove (mb : MetaBlock) (elem : List UInt8) : Option (MetaBlock × Bool) :=
  match search mb elem with
  | none => none
  | some (_,none) => some (mb,false)
  | some (i,some _) =>
    match delete mb i with
    | none => none
    | some mb => (pack mb).map fun mb => (mb,true)

/-- `metaAlloc` on the block it chose: allocate the entry's bytes, find its slot (the name must
be new: `assert(me.offset == 0)`), write it, open the slot, pack. A failed allocation still packs
the block, which it may have compacted. -/
def metaAlloc (sort : List MetaChunk → List MetaChunk) (mb : MetaBlock) (dir : DirEntry) :
    Option (MetaBlock × Bool) :=
  match alloc sort mb dir.getSize with
  | (mb,none) => (pack mb).map fun mb => (mb,false)
  | (mb,some o) =>
    match search mb dir.elem with
    | none => none
    | some (i,found) =>
      if ((found.map MetaEntry.offset).getD 0)≠0 then none
      else
        let me : MetaEntry := ⟨o,dir.getSize.toUInt16⟩
        match packDirEntry mb dir me with
        | none => none
        | some mb =>
          match insert mb i me with
          | none => none
          | some mb => (pack mb).map fun mb => (mb,true)

/-- `metaFlush2` on the entry's block: find the old name, resize its entry for the new one;
when it fits, delete the slot, find the new name's slot, write the entry and open its slot.
Otherwise `metaAlloc` tries other blocks (`moved` says whether it succeeded): the entry's slot is
deleted when it did, and the block, which `resize` may have compacted, is packed either way. -/
def metaFlush2 (sort : List MetaChunk → List MetaChunk) (mb : MetaBlock) (oelem : List UInt8)
    (dir : DirEntry) (moved : Bool) : Option (MetaBlock × Bool) :=
  match search mb oelem with
  | none => none
  | some (_,none) => some (mb,false)
  | some (i,some me) =>
    match resize sort mb me dir.getSize with
    | (mb,me,true) =>
      match delete mb i with
      | none => none
      | some mb =>
        let slot? := if dir.elem≠oelem then (search mb dir.elem).map Prod.fst else some i
        match slot? with
        | none => none
        | some i =>
          match packDirEntry mb dir me with
          | none => none
          | some mb =>
            match insert mb i me with
            | none => none
            | some mb => (pack mb).map fun mb => (mb,true)
    | (mb,_,false) =>
      if moved then
        match delete mb i with
        | none => none
        | some mb => (pack mb).map fun mb => (mb,true)
      else (pack mb).map fun mb => (mb,false)

end Fossil.Vac
