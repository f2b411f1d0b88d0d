import Fossil.Vac.File
import Fossil.Block

/-!
# Flushing a file's directory entry

`(*File).metaFlush2` writes a file's changed directory entry back into its parent's meta
source (`file.go`). It locks the parent's meta source, unpacks the meta block `f.boff`, finds
the entry under its old name and resizes it for the new one. When the entry fits, the block
is rewritten in place. When it does not, `(*File).metaAlloc` puts the entry in another block
(from `f.boff + 1` on, or a block added to the meta file), and the old copy is deleted.

`metaAlloc` records dependencies on the parent's directory blocks with `Source.block` on the
parent's data source, and `Source._block` asserts that the source is locked. Its other caller,
`create`, holds that lock; `metaFlush2` holds only the meta source's. Whenever the entry has to
move and the new block takes it, `metaFlush2` therefore panics.

The parent is its meta source's blocks and the lock state of its two sources; the file is its
entry, the block it lives in, and the dirty flag. The block-level operations are those of
`MetaBlock.lean`.
-/

namespace Fossil.Vac

open Bytes Fossil.Block

/-- `FullPercentage`: `metaAlloc` fills a block to this percentage. -/
def FullPercentage : Nat := 80

/-- `BytesPerEntry`: a new meta block gets one index slot for this many bytes. -/
def BytesPerEntry : Nat := 100

def EBadMeta : String := "corrupted meta data"

/-- The parent directory as `metaFlush2` and `metaAlloc` see it: the blocks of its meta source
and their size, and whether its data source and its meta source are locked (`r.b != nil`). -/
structure Parent where
  blocks : List Buf
  dsize : Nat
  sourceLocked : Bool
  msourceLocked : Bool

/-- What `metaFlush2` reads and writes of a `File`: its entry, the meta block it lives in, and
whether it changed. -/
structure File where
  dir : DirEntry
  boff : Nat
  dirty : Bool

/-- `metaAlloc` takes a block for an entry of `n` bytes when it stays below `FullPercentage` full
and has a free index slot. -/
def roomFor (mb : MetaBlock) (n : Nat) : Bool :=
  decide ((n : Int) ≤ (mb.maxsize*FullPercentage/100 : Nat)-(mb.size : Int)+mb.free) && decide (mb.nindex < mb.maxindex)

/-- The loop of `metaAlloc` over the blocks `bos`: the first that unpacks with room; a block that
does not unpack ends it with its error. -/
def findBlock (p : Parent) (n : Nat) : List Nat → Except String (Option (Nat × MetaBlock))
  | [] => .ok none
  | bo :: bos =>
    match unpackMetaBlock (p.blocks.getD bo fun _ => 0) p.dsize with
    | none => .error EBadMeta
    | some mb => if roomFor mb n then .ok (some (bo,mb)) else findBlock p n bos

/-- `(*File).metaAlloc` on the parent `p` for entry `dir`, from block `start` on. `none` is a
panic: `getSize` asserts that the meta source is locked, and the dependencies on the entry
blocks go through `Source.block` on the data source, which asserts that it is locked. -/
def File.metaAlloc (sort : List MetaChunk → List MetaChunk) (p : Parent) (dir : DirEntry) (start : Nat) :
    Option (Except String Nat × Parent) :=
  if !p.msourceLocked then none
  else
    let nb := p.blocks.length
    match findBlock p dir.getSize (List.range' (min start nb) (nb-min start nb)) with
    | .error err => some (.error err,p)
    | .ok found =>
      -- no block with room: add one to the meta file
      let (bo,mb,p) := match found with
        | some (bo,mb) => (bo,mb,p)
        | none => (nb,initMetaBlock (fun _ => 0) p.dsize (p.dsize/BytesPerEntry),{ p with blocks := p.blocks ++ [fun _ => 0] })
      match Vac.metaAlloc sort mb dir with
      | none => none
      | some (mb,false) => some (.error EBadMeta,{ p with blocks := p.blocks.set bo mb.buf })
      | some (mb,true) =>
        if !p.sourceLocked then none
        else some (.ok bo,{ p with blocks := p.blocks.set bo mb.buf })

/-- The body of `metaFlush2` once the meta source is locked. -/
def File.flushLocked (sort : List MetaChunk → List MetaChunk) (p : Parent) (f : File) (oelem : List UInt8) :
    Option (Int × Parent × File) :=
  if f.boff=NilBlock.toNat then some (-1,p,f)
  else
    match p.blocks[f.boff]? with
    | none => some (-1,p,f)
    | some buf =>
      match unpackMetaBlock buf p.dsize with
      | none => some (-1,p,f)
      | some mb =>
        match search mb oelem with
        | none => none
        | some (_,none) => some (-1,p,f)
        | some (_,some me) =>
          if (resize sort mb me f.dir.getSize).2.2 then
            -- it fits in the block
            (Vac.metaFlush2 sort mb oelem f.dir false).map fun r =>
              (1,{ p with blocks := p.blocks.set f.boff r.1.buf },{ f with dirty := false })
          else
            -- move the entry to another block, then delete it here
            match File.metaAlloc sort p f.dir (f.boff+1) with
            | none => none
            | some (.error _,p) =>
              (Vac.metaFlush2 sort mb oelem f.dir false).map fun r => (-1,{ p with blocks := p.blocks.set f.boff r.1.buf },f)
            | some (.ok bo,p) =>
              (Vac.metaFlush2 sort mb oelem f.dir true).map fun r =>
                (1,{ p with blocks := p.blocks.set f.boff r.1.buf },{ f with boff := bo,dirty := false })

/-- `(*File).metaFlush2` with old name `oelem` (empty: the current one). `lock` asserts the meta
source was not locked; it is unlocked on the way out. -/
def File.metaFlush2 (sort : List MetaChunk → List MetaChunk) (p : Parent) (f : File) (oelem : List UInt8) :
    Option (Int × Parent × File) :=
  if !f.dirty then some (0,p,f)
  else if p.msourceLocked then none
  else
    let oelem := if oelem=[] then f.dir.elem else oelem
    (File.flushLocked sort { p with msourceLocked := true } f oelem).map fun r =>
      (r.1,{ r.2.1 with msourceLocked := false },r.2.2)

/-! ## The relocation panics -/

/-- Once `alloc` found room, the block-level `metaAlloc` does not fail with `EBadMeta`: it
panics or stores the entry. -/
theorem metaAlloc_ne_false {sort : List MetaChunk → List MetaChunk} {mb mb' : MetaBlock} {dir : DirEntry}
    {o : Nat} (ha : alloc sort mb dir.getSize=(mb',some o)) (x : MetaBlock) : metaAlloc sort mb dir≠some (x,false) := by
  unfold metaAlloc
  rw [ha]
  dsimp only
  intro h
  -- every branch after a successful `alloc` is a panic or a success
  split at h
  · cases h
  · split_ifs at h
    split at h
    · cases h
    · split at h
      · cases h
      · obtain ⟨_,_,h⟩ := Option.map_eq_some_iff.mp h
        cases h

/-- A fresh meta block has room for an entry that fits after its index table. -/
theorem alloc_init (sort : List MetaChunk → List MetaChunk) (p : Buf) {size k n : Nat}
    (hn : n+(MetaHeaderSize+k*MetaIndexSize) ≤ size) :
    alloc sort (initMetaBlock p size k) n=(initMetaBlock p size k,some (MetaHeaderSize+k*MetaIndexSize)) := by
  unfold alloc
  rw [if_pos (by simp [initMetaBlock]; omega)]
  rfl

/-- `metaAlloc` from a parent whose data source is not locked never stores the entry: when the
block it chose takes the entry, it panics. -/
theorem metaAlloc_unlocked_panics (sort : List MetaChunk → List MetaChunk) (p : Parent) (dir : DirEntry)
    (start : Nat) (hms : p.msourceLocked=true) (hsrc : p.sourceLocked=false) (hend : p.blocks.length ≤ start)
    (hroom : dir.getSize+(MetaHeaderSize+p.dsize/BytesPerEntry*MetaIndexSize) ≤ p.dsize) :
    File.metaAlloc sort p dir start=none := by
  have hnb : min start p.blocks.length=p.blocks.length := min_eq_right hend
  have ha := alloc_init sort (fun _ => 0) hroom
  unfold File.metaAlloc
  simp only [hms,hnb,Nat.sub_self,List.range'_zero,findBlock,Bool.not_true,Bool.false_eq_true,if_false]
  cases hm : Vac.metaAlloc sort (initMetaBlock (fun _ => 0) p.dsize (p.dsize/BytesPerEntry)) dir with
  | none => rfl
  | some r =>
    obtain ⟨mb,moved⟩ := r
    cases moved with
    | false => exact absurd hm (metaAlloc_ne_false ha mb)
    | true => simp [hsrc]

/-- A dirty file in the last meta block of its parent, whose entry no longer fits there: with
the parent's data source not locked, which `metaFlush2` leaves so, flushing it panics as soon as
a fresh block has room for the entry. -/
theorem metaFlush2_relocation_panics (sort : List MetaChunk → List MetaChunk) (p : Parent) (f : File)
    {buf : Buf} {mb : MetaBlock} {i : Nat} {me : MetaEntry}
    (hdirty : f.dirty=true) (hms : p.msourceLocked=false) (hsrc : p.sourceLocked=false)
    (hboff : f.boff≠NilBlock.toNat) (hlast : f.boff+1=p.blocks.length)
    (hbuf : p.blocks[f.boff]?=some buf) (hmb : unpackMetaBlock buf p.dsize=some mb)
    (hs : search mb f.dir.elem=some (i,some me)) (hfit : (resize sort mb me f.dir.getSize).2.2=false)
    (hroom : f.dir.getSize+(MetaHeaderSize+p.dsize/BytesPerEntry*MetaIndexSize) ≤ p.dsize) :
    File.metaFlush2 sort p f []=none := by
  have hpanic := metaAlloc_unlocked_panics sort { p with msourceLocked := true } f.dir (f.boff+1) rfl hsrc
    (by simp [hlast]) hroom
  unfold File.metaFlush2 File.flushLocked
  simp only [hdirty,hms,Bool.not_true,Bool.false_eq_true,if_false,if_true,if_neg hboff,hbuf,hmb,hs,hfit,hpanic,
    Option.map_none]

/-! ### A parent block that the owner change overflows

A 200-byte meta block with its two slots in use and no byte left: `archive` (owner `glenda`) at
offset 20, followed by `snapshot`, which has a qid space. Changing the owner of `archive` to
`noworld` grows its entry by one byte; the bytes after it belong to `snapshot`, so `resize` fails
and the entry has to move to a fresh block. -/

/-- The name `archive`. -/
def archiveName : List UInt8 := [97,114,99,104,105,118,101]

/-- The name `snapshot`. -/
def snapshotName : List UInt8 := [115,110,97,112,115,104,111,116]

/-- The users `glenda`, `noworld` and `sys` of the default users table. -/
def glendaName : List UInt8 := [103,108,101,110,100,97]

def noworldName : List UInt8 := [110,111,119,111,114,108,100]

def sysName : List UInt8 := [115,121,115]

def archiveDir : DirEntry :=
  ⟨archiveName,1,1,0,0,1,glendaName,glendaName,glendaName,0,0,0,0,0o644,0,0,0⟩

def snapshotDir : DirEntry :=
  ⟨snapshotName,2,1,3,1,2,glendaName,sysName,sysName,0,0,0,0,0o555,1,0,0⟩

/-- The header (200 bytes used, none free, two slots, both in use), the slots in name order,
then the two entries. -/
def fullBlockBuf : Buf :=
  write (fun _ => 0) 0 (be32 MetaMagic++be16 200++be16 0++be16 2++be16 2++be16 20++be16 83++be16 103++
    be16 97++encode archiveDir++encode snapshotDir)

def fullBlock : MetaBlock := ⟨200,200,0,2,2,false,fullBlockBuf⟩

/-- The directory holding the block, with neither source locked, and the dirty `archive`. -/
def fullParent : Parent := ⟨[fullBlockBuf],200,false,false⟩

def chownedFile : File := ⟨{ archiveDir with uid := noworldName },0,true⟩

-- unpacking the block by `rfl` reads its header and both slots
set_option maxRecDepth 2000 in
theorem metaFlush2_relocation_panics_chown :
    File.metaFlush2 (fun l => l.mergeSort fun a b => a.offset ≤ b.offset) fullParent chownedFile []=none :=
  @metaFlush2_relocation_panics _ fullParent chownedFile fullBlockBuf fullBlock 0 ⟨20,83⟩ rfl rfl rfl (by decide) rfl
    rfl rfl (by decide +kernel) (by decide +kernel) (by decide)

end Fossil.Vac
