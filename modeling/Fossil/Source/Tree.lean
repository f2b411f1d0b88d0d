import Fossil.Source.Codec

/-!
# Changing the size of a source

A source is a tree of blocks hanging off an entry in a directory block (`source.go`): the entry
holds the tree's depth and root score, pointer blocks hold the scores of the blocks below, and
each block carries a label with its type (the level in the tree, and whether the tree is a
directory) and the tag of its tree. `setSize` changes the entry's size and, first, its depth:
`growDepth` puts new pointer blocks on top of the root, `shrinkDepth` walks down the first
pointers to the block that becomes the new root, and `shrinkSize` zeroes the pointers to blocks
past the new size.

The state is the disk and Venti as the cache serves them: labels and bytes of the local
blocks, the blocks Venti holds, the allocator's position, the epochs, and the links handed to
`removeLink` to be freed. Fetching a block (`cache.global`) checks a local block's label against
the expected type and tag. Errors carry the state reached so far, as the Go code's in-place
updates do; a panic is `none`.

`shrinkDepth` copies the root's first score once, before its loop, and raises the type on each
round instead of lowering it: from the second round on it fetches the same child with the wrong
type, stops, and commits what it has. Shrinking by two or more levels therefore fails with
"bad depth" after it has repacked the entry one level down.
-/

namespace Fossil.Tree

open Fossil.Venti Fossil.Block Fossil.Source Bytes

/-- Tags below `UserTag` are reserved. -/
def UserTag : UInt32 := 32

def ELabelMismatch : String := "block label mismatch"

def ERemoved : String := "file has been removed"

def ETooBig : String := "file too big"

/-- A block as the cache hands it out: its address (`NilBlock` for a Venti block), score,
label and bytes. -/
structure Blk where
  addr : UInt32
  score : Score
  l : Label
  data : Buf

/-- The disk and Venti as a source sees them. -/
structure Fs where
  /-- Labels of the data partition. -/
  label : Nat → Label
  /-- Bytes of the local blocks. -/
  data : Nat → Buf
  /-- The blocks Venti holds, by score and type, zero-extended to the block size. -/
  venti : Score → BlockType → Option Buf
  /-- Block size. -/
  bsize : Nat
  /-- `fl.last` and `fl.end` of the allocator. -/
  last : Nat
  flEnd : Nat
  /-- The current epoch and the oldest epoch still in use. -/
  ehi : UInt32
  elo : UInt32
  /-- The links handed to `removeLink` (holder, address, type, tag), to be freed. -/
  unlinks : List (Nat × UInt32 × BlockType × UInt32)

/-- A source: where its entry is (`r.b`, `r.offset`, `r.epb`), its generation and data block
size. -/
structure Source where
  b : Nat
  offset : Nat
  epb : Nat
  epb_pos : 0 < epb
  gen : UInt32
  dsize : Nat

/-- The slot of the source's entry in its block. -/
def Source.index (r : Source) : Nat :=
  r.offset % r.epb

/-- The score at byte `o` of a block (`copy(score[:], b.data[o:])`). -/
def scoreAt (d : Buf) (o : Nat) : Score :=
  Vector.ofFn fun k : Fin 20 => d (o+k.val)

/-- `EntryType`: the level is the depth, and the directory bit `BtDir`. -/
def entryType (e : Entry) : BlockType :=
  (if e.flags &&& EntryDir≠0 then BtDir else BtData) ||| e.depth

/-- `cache.global`: a local block in disguise is read from the disk and must carry the type and
tag asked for; another score is read from Venti. -/
def global (fs : Fs) (score : Score) (typ : BlockType) (tag : UInt32) : Except String Blk :=
  let addr := globalToLocal score
  if addr≠NilBlock then
    let l := fs.label addr.toNat
    if l.typ≠typ ∨ l.tag≠tag then .error ELabelMismatch
    else .ok ⟨addr,localToGlobal addr,l,fs.data addr.toNat⟩
  else
    match fs.venti score typ with
    | some d => .ok ⟨NilBlock,score,⟨typ,BsVenti,0,0,0⟩,d⟩
    | none => .error "venti error reading block"

/-- `venti.ZeroExtend` of an empty block to `size` bytes: zero scores in a pointer block, zero
bytes in a data block. -/
def zeroExtend (typ : BlockType) (size : Nat) : Buf :=
  fun i => if typ &&& BtLevelMask≠0 ∧ i < size/ScoreSize*ScoreSize then zeroScore.getD (i%ScoreSize) 0 else 0

/-- The addresses `allocBlock` tries in order: after `last` up to the end, then all of them once
more, before it gives up. -/
def allocOrder (last flEnd : Nat) : List Nat :=
  List.range' (last+1) (flEnd-(last+1)) ++ List.range flEnd

/-- A label `allocBlock` may take: free, or closed in an epoch no snapshot still needs. -/
def reusable (epochLow : UInt32) (l : Label) : Bool :=
  l.state=BsFree || (l.state &&& BsClosed≠0 && (l.epochClose ≤ epochLow || l.epoch=l.epochClose))

/-- `cache.allocBlock`: the first reusable block in `allocOrder`, labelled and zero-extended;
when there is none, "disk is full" and the search starts over from block 0 next time. -/
def allocBlock (fs : Fs) (typ : BlockType) (tag epoch epochLow : UInt32) : Except String Blk × Fs :=
  match (allocOrder fs.last fs.flEnd).find? fun a => reusable epochLow (fs.label a) with
  | none => (.error "disk is full",{ fs with last := 0 })
  | some a =>
    let l : Label := { fs.label a with typ := typ, tag := tag, state := BsAlloc, epoch := epoch, epochClose := 0xFFFFFFFF }
    let d := zeroExtend typ fs.bsize
    (.ok ⟨a.toUInt32,localToGlobal a.toUInt32,l,d⟩,
      { fs with last := a, label := Function.update fs.label a l, data := Function.update fs.data a d })

/-- `load`: the entry in its slot, if its generation is still the source's. -/
def load (fs : Fs) (r : Source) : Except String Entry :=
  let e := unpackEntry (fs.data r.b) r.index
  if e.gen≠r.gen then .error ERemoved else .ok e

/-- Pack `e` into slot `index` of block `p`; `none` is the assertion in `pack`. -/
def packAt (fs : Fs) (p index : Nat) (e : Entry) : Option Fs :=
  (e.pack (fs.data p) index).map fun d => { fs with data := Function.update fs.data p d }

/-! ## Depth -/

/-- The loop of `sizeToDepth`: divide by the pointers per block until one block is left. -/
def depthLoop (np : UInt64) : Nat → UInt64 → Nat → Option Nat
  | 0, _, _ => none
  | fuel+1, s, d => if 1 < s then depthLoop np fuel ((s+np-1)/np) (d+1) else some d

/-- `sizeToDepth`: the depth of a tree of `psize`-byte pointer blocks over `dsize`-byte data
blocks that holds `s` bytes; `none` is a division by zero, or the endless loop of a pointer block
with room for one score (64 rounds halve any 64-bit size to one). -/
def sizeToDepth (s : UInt64) (psize dsize : Nat) : Option Nat :=
  let np := (psize/ScoreSize).toUInt64
  if dsize=0 ∨ np=0 then none
  else depthLoop np 64 ((s+dsize.toUInt64-1)/dsize.toUInt64) 0

/-- The loop of `growDepth`: while the entry is too shallow, allocate a pointer block one level
up whose first score is the old root, and make it the root; a failed allocation ends the loop. -/
def growLoop (tag : UInt32) (depth : Nat) : Nat → Fs → BlockType → Entry → Blk → Fs × Entry
  | 0, fs, _, e, _ => (fs,e)
  | fuel+1, fs, typ, e, b =>
    if e.depth.toNat < depth then
      match allocBlock fs (typ+1) tag fs.ehi fs.elo with
      | (.error _,fs) => (fs,e)
      | (.ok bb,fs) =>
        let d := write bb.data 0 b.score.toList
        growLoop tag depth fuel { fs with data := Function.update fs.data bb.addr.toNat d } (typ+1)
          { e with score := bb.score, depth := e.depth+1, tag := tag, flags := e.flags ||| EntryLocal }
          { bb with data := d }
    else (fs,e)

/-- `growDepth`; `newTag` is what `sourceTagGen` returns when the entry has no tag yet. The
entry is packed whether or not the loop reached `depth`. -/
def growDepth (fs : Fs) (p index : Nat) (e : Entry) (depth : Nat) (newTag : UInt32) :
    Option (Except String Unit × Fs × Entry) :=
  if PointerDepth < depth then none
  else
    match global fs e.score (entryType e) e.tag with
    | .error err => some (.error err,fs,e)
    | .ok b =>
      let tag := if e.tag=0 then newTag else e.tag
      let (fs,e) := growLoop tag depth depth fs (entryType e) e b
      (packAt fs p index e).map fun fs => (if e.depth.toNat=depth then .ok () else .error "bad depth",fs,e)

/-- The loop of `shrinkDepth` from depth `d` down towards `depth`: it fetches `score`, the
root's first score copied once before the loop, as type `typ-1`, moves `ob, b` one block
down, and raises `typ`; a failed fetch ends it. -/
def shrinkLoop (fs : Fs) (score : Score) (tag : UInt32) (depth : Nat) :
    (d : Nat) → BlockType → Option Blk → Blk → Nat × Option Blk × Blk
  | 0, _, ob, b => (0,ob,b)
  | d+1, typ, ob, b =>
    if depth < d+1 then
      match global fs score (typ-1) tag with
      | .error _ => (d+1,ob,b)
      | .ok nb => shrinkLoop fs score tag depth d (typ+1) (some b) nb
    else (d+1,ob,b)

/-- `shrinkDepth`: the block the walk stops at becomes the root, the first score of the block
above it is zeroed, and the old root is handed to `removeLink`, whether or not the walk reached
`depth`. -/
def shrinkDepth (fs : Fs) (p index : Nat) (e : Entry) (depth : Nat) (newTag : UInt32) :
    Option (Except String Unit × Fs × Entry) :=
  if PointerDepth < depth then none
  else
    match global fs e.score (entryType e) e.tag with
    | .error err => some (.error err,fs,e)
    | .ok rb =>
      let tag := if e.tag=0 then newTag else e.tag
      match shrinkLoop fs (scoreAt rb.data 0) tag depth e.depth.toNat (entryType e) none rb with
      | (_,none,_) => some (.error "XXX",fs,e)
      | (d,some ob,b) =>
        -- (i) the entry points at the new root
        let e := { e with
          depth := d.toUInt8
          flags := if globalToLocal b.score=NilBlock then e.flags &&& ~~~EntryLocal else e.flags
          score := b.score }
        match packAt fs p index e with
        | none => none
        | some fs =>
          -- (ii) zero the pointer from `ob` to the new root; `dirty` asserts `ob` is local
          if ob.addr=NilBlock then none
          else
            let fs := { fs with data := Function.update fs.data ob.addr.toNat (write (fs.data ob.addr.toNat) 0 zeroScore.toList) }
            -- (iii) free the old root
            let fs := if rb.addr≠NilBlock then { fs with unlinks := (p,rb.addr,rb.l.typ,rb.l.tag) :: fs.unlinks } else fs
            some (if d=depth then .ok () else .error "bad depth",fs,e)

/-! ## Size -/

/-- Zero the scores `i` to `ppb-1` of a pointer block, handing the local ones to `removeLink`. -/
def zeroPointers (p : Nat) (typ : BlockType) (tag : UInt32) (ppb : Nat) : Nat → Nat → Fs → Blk → Fs × Blk
  | 0, _, fs, b => (fs,b)
  | fuel+1, i, fs, b =>
    if i < ppb then
      let addr := globalToLocal (scoreAt b.data (i*ScoreSize))
      let d := write b.data (i*ScoreSize) zeroScore.toList
      let fs := { fs with data := Function.update fs.data b.addr.toNat d }
      let fs := if addr≠NilBlock then { fs with unlinks := (p,addr,typ-1,tag) :: fs.unlinks } else fs
      zeroPointers p typ tag ppb fuel (i+1) fs { b with data := d }
    else (fs,b)

/-- The loop of `shrinkSize` down the blocks that hold the new end of the file: zero the
pointers past it, then go down the pointer that holds the end; at the bottom, zero the data
past it. A block not of the current epoch, or on Venti, is left alone. -/
def shrinkLoop' (e : Entry) (ppb : Nat) : Nat → Fs → Blk → BlockType → UInt64 → UInt64 → Option (Except String Unit × Fs)
  | 0, fs, _, _, _, _ => some (.ok (),fs)
  | fuel+1, fs, b, typ, ptrsz, size =>
    if b.addr=NilBlock ∨ b.l.epoch≠fs.ehi then some (.ok (),fs)
    else if typ &&& BtLevelMask≠0 then
      if ptrsz=0 then none
      else
        let (fs,b) := zeroPointers b.addr.toNat typ e.tag ppb ppb ((size+ptrsz-1)/ptrsz).toNat fs b
        let i := (size/ptrsz).toNat
        let size := size%ptrsz
        if size=0 then some (.ok (),fs)
        else if ppb=0 then none
        else
          match global fs (scoreAt b.data (i*ScoreSize)) (typ-1) e.tag with
          | .error err => some (.error err,fs)
          | .ok b => shrinkLoop' e ppb fuel fs b (typ-1) (ptrsz/ppb.toUInt64) size
    else if typ=BtData ∧ size.toNat < e.dsize.toNat then
      some (.ok (),{ fs with data := Function.update fs.data b.addr.toNat (fill b.data size.toNat (e.dsize.toNat-size.toNat)) })
    else some (.ok (),fs)

/-- `shrinkSize`: the bytes each pointer of the root accounts for are `dsize` times the
pointers per block to the power `depth-1`, in 64-bit arithmetic. -/
def shrinkSize (fs : Fs) (e : Entry) (size : UInt64) : Option (Except String Unit × Fs) :=
  match global fs e.score (entryType e) e.tag with
  | .error err => some (.error err,fs)
  | .ok b =>
    let ppb := e.psize.toNat/ScoreSize
    let ptrsz := (List.range (e.depth.toNat-1)).foldl (fun p _ => p*ppb.toUInt64) e.dsize.toUInt64
    shrinkLoop' e ppb (e.depth.toNat+1) fs b (entryType e) ptrsz size

/-- `truncate`, that is `kill(false)`: the entry loses its tree, which goes to `removeLink`. -/
def truncate (fs : Fs) (r : Source) : Option (Except String Unit × Fs) :=
  match load fs r with
  | .error err => some (.error err,fs)
  | .ok e =>
    if (fs.label r.b).epoch≠fs.ehi then none
    else if e.size=0 then some (.ok (),fs)
    else
      let addr := globalToLocal e.score
      let e' := { e with flags := e.flags &&& ~~~EntryLocal, depth := 0, size := 0, tag := 0, score := zeroScore }
      (packAt fs r.b r.index e').map fun fs =>
        (.ok (),if addr≠NilBlock then { fs with unlinks := (r.b,addr,entryType e,e.tag) :: fs.unlinks } else fs)

/-- `setSize`. The result of `shrinkSize` is dropped, as in the source. -/
def setSize (fs : Fs) (r : Source) (size : UInt64) (newTag : UInt32) : Option (Except String Unit × Fs) :=
  if size=0 then truncate fs r
  else if MaxFileSize < size.toNat ∨ MaxBlock.toNat*r.dsize < size.toNat then some (.error ETooBig,fs)
  else
    match load fs r with
    | .error err => some (.error err,fs)
    | .ok e =>
      if e.size=size then some (.ok (),fs)
      else
        match sizeToDepth size e.psize.toNat e.dsize.toNat with
        | none => none
        | some depth =>
          let grown :=
            if depth < e.depth.toNat then shrinkDepth fs r.b r.index e depth newTag
            else if e.depth.toNat < depth then growDepth fs r.b r.index e depth newTag
            else some (.ok (),fs,e)
          match grown with
          | none => none
          | some (.error err,fs,_) => some (.error err,fs)
          | some (.ok (),fs,e) =>
            let shrunk := if size < e.size then (shrinkSize fs e size).map Prod.snd else some fs
            shrunk.bind fun fs => (packAt fs r.b r.index { e with size := size }).map fun fs => (.ok (),fs)

/-! ## Fetching blocks -/

/-- A local score reads back its address. -/
theorem globalToLocal_localToGlobal (c : UInt32) : globalToLocal (localToGlobal c)=c := by
  unfold globalToLocal
  rw [if_pos (by simp [localToGlobal,List.range_succ,Vector.getD])]
  show get32 (fun k => [(c >>> 24).toUInt8,(c >>> 16).toUInt8,(c >>> 8).toUInt8,c.toUInt8].getD k 0) 0=c
  apply UInt32.toNat_inj.mp
  rw [get32_toNat]
  have := c.toNat_lt
  simp [UInt32.toNat_shiftRight]
  omega

/-- A local score starts with sixteen zero bytes. -/
theorem localToGlobal_getD (c : UInt32) {k : Nat} (hk : k < 16) : (localToGlobal c).getD k 0=0 := by
  interval_cases k <;> rfl

section Fetch

variable {score : Score} {typ : BlockType}

/-- A local block whose label has the type and tag asked for. -/
theorem global_local (fs : Fs) (tag : UInt32) (hn : globalToLocal score≠NilBlock) (ht : (fs.label (globalToLocal score).toNat).typ=typ)
    (hg : (fs.label (globalToLocal score).toNat).tag=tag) :
    global fs score typ tag=.ok ⟨globalToLocal score,localToGlobal (globalToLocal score),
      fs.label (globalToLocal score).toNat,fs.data (globalToLocal score).toNat⟩ := by
  simp [global,hn,ht,hg]

/-- A local block of another type. -/
theorem global_mismatch {fs : Fs} {tag : UInt32} (hn : globalToLocal score≠NilBlock) (ht : (fs.label (globalToLocal score).toNat).typ≠typ) :
    global fs score typ tag=.error ELabelMismatch := by
  simp [global,hn,ht]

end Fetch

/-! ## Shrinking by two levels -/

/-- From two levels or more above `depth`, the walk of `shrinkDepth` takes one step and stops:
its second fetch asks for the same score with the type raised back to that of the block it
started from. -/
theorem shrinkLoop_one_step {fs : Fs} {score : Score} {tag : UInt32} {depth d : Nat} {typ : BlockType}
    (ob : Option Blk) (b : Blk) {nb : Blk} (hd : depth+1 < d) (h₁ : global fs score (typ-1) tag=.ok nb)
    (h₂ : ∀ x, global fs score typ tag≠.ok x) :
    shrinkLoop fs score tag depth d typ ob b=(d-1,some b,nb) := by
  obtain ⟨d,rfl⟩ : ∃ d', d=d'+2 := ⟨d-2,by omega⟩
  have h₂' : ∃ err, global fs score (typ+1-1) tag=.error err := by
    rw [add_sub_cancel_right]
    cases h : global fs score typ tag with
    | error err => exact ⟨err,rfl⟩
    | ok x => exact absurd h (h₂ x)
  obtain ⟨err,herr⟩ := h₂'
  simp only [shrinkLoop,if_pos (show depth < d+1+1 by omega),h₁,if_pos (show depth < d+1 by omega),herr]
  rfl

/-- A type one level down is another type. -/
theorem sub_one_ne (t : BlockType) : t-1≠t := by
  rw [Ne,sub_eq_self]
  decide

/-- `shrinkDepth` by two levels or more from a local root `a` whose first pointer is a local block
`c` one level down: the walk stops at `c`, and the entry is packed pointing at it, one level
shallower, before "bad depth" is returned; the old root loses its first pointer and goes to
`removeLink`. -/
theorem shrinkDepth_two_levels {fs : Fs} {p : Nat} (index : Nat) {e : Entry} {depth : Nat} (newTag : UInt32) {a c : UInt32}
    (hdD : depth+2 ≤ e.depth.toNat) (hD : e.depth ≤ 7) (htag : e.tag≠0)
    (ha_def : a=globalToLocal e.score) (hc_def : c=globalToLocal (scoreAt (fs.data a.toNat) 0))
    (ha : a≠NilBlock) (hla : (fs.label a.toNat).typ=entryType e ∧ (fs.label a.toNat).tag=e.tag)
    (hc : c≠NilBlock) (hlc : (fs.label c.toNat).typ=entryType e-1 ∧ (fs.label c.toNat).tag=e.tag)
    (hap : a.toNat≠p) :
    ∃ fs', shrinkDepth fs p index e depth newTag=some (.error "bad depth",fs',{ e with depth := e.depth-1,score := localToGlobal c }) ∧
      fs'.data p=write (fs.data p) (index*EntrySize) { e with depth := e.depth-1,score := localToGlobal c }.bytes ∧
      scoreAt (fs'.data a.toNat) 0=zeroScore ∧ fs'.unlinks=(p,a,entryType e,e.tag) :: fs.unlinks := by
  have hrb := global_local fs e.tag (ha_def ▸ ha) (ha_def ▸ hla.1) (ha_def ▸ hla.2)
  rw [← ha_def] at hrb
  have hnb := global_local fs e.tag (hc_def ▸ hc) (hc_def ▸ hlc.1) (hc_def ▸ hlc.2)
  rw [← hc_def] at hnb
  have hmis : ∀ x, global fs (scoreAt (fs.data a.toNat) 0) (entryType e) e.tag≠.ok x := by
    intro x h
    rw [global_mismatch (hc_def ▸ hc) (by rw [← hc_def,hlc.1]; exact sub_one_ne _)] at h
    cases h
  have hloop := shrinkLoop_one_step none ⟨a,localToGlobal a,fs.label a.toNat,fs.data a.toNat⟩ (by omega : depth+1 < e.depth.toNat) hnb hmis
  have hd1 : (e.depth.toNat-1).toUInt8=e.depth-1 := by
    have h1 : (1 : UInt8) ≤ e.depth := by rw [UInt8.le_iff_toNat_le]; simp; omega
    apply UInt8.toNat_inj.mp
    rw [UInt8.toNat_sub_of_le _ _ h1]
    have := e.depth.toNat_lt
    simp
    omega
  have hD' : e.depth.toNat ≤ 7 := by simpa [UInt8.le_iff_toNat_le] using hD
  have hcl : globalToLocal (localToGlobal c)≠NilBlock := by rw [globalToLocal_localToGlobal]; exact hc
  have hpack := pack_eq_write (e := { e with depth := e.depth-1,score := localToGlobal c }) (fs.data p) index (fun _ => hcl)
  refine ⟨{ fs with
    data := Function.update (Function.update fs.data p (write (fs.data p) (index*EntrySize)
      { e with depth := e.depth-1,score := localToGlobal c }.bytes)) a.toNat
      (write (fs.data a.toNat) 0 zeroScore.toList)
    unlinks := (p,a,entryType e,e.tag) :: fs.unlinks },?_,?_,?_,rfl⟩
  · unfold shrinkDepth
    rw [if_neg (by unfold PointerDepth; omega),hrb]
    dsimp only
    rw [if_neg htag,hloop]
    dsimp only
    rw [if_neg hcl,hd1]
    simp only [packAt,hpack,Option.map_some,if_neg ha,if_pos ha,hla.1,hla.2,
      if_neg (show e.depth.toNat-1≠depth by omega),Function.update_of_ne hap]
  · simp only [Function.update_of_ne (Ne.symm hap),Function.update_self]
  · simp only [Function.update_self]
    apply Vector.ext
    intro k hk
    simp [scoreAt,write]

theorem load_eq_ok {fs : Fs} {r : Source} {e : Entry} : load fs r=.ok e ↔ unpackEntry (fs.data r.b) r.index=e ∧ e.gen=r.gen := by
  unfold load
  dsimp only
  constructor
  · intro h
    split_ifs at h with hg
    cases h
    exact ⟨rfl,not_not.mp hg⟩
  · rintro ⟨rfl,hg⟩
    rw [if_neg (not_not.mpr hg)]

/-- `setSize` to a size two or more levels shallower than a local tree of depth at least two:
`shrinkDepth` stops one level down and returns "bad depth", and `setSize` passes the error on;
but the entry was already repacked, and now reads one level shallower with the root's first
child as its root, the old size kept. -/
theorem setSize_shrink_repacks_on_error {fs : Fs} {r : Source} {s : UInt64} (newTag : UInt32) {e : Entry}
    (depth : Nat) {a c : UInt32} (hload : load fs r=.ok e) (hs0 : s≠0) (hmax : s.toNat ≤ MaxFileSize)
    (hblk : s.toNat ≤ MaxBlock.toNat*r.dsize) (hsize : e.size≠s)
    (hdepth : sizeToDepth s e.psize.toNat e.dsize.toNat=some depth) (hdD : depth+2 ≤ e.depth.toNat)
    (hloc : e.flags &&& EntryLocal≠0) (htag : e.tag≠0)
    (ha_def : a=globalToLocal e.score) (hc_def : c=globalToLocal (scoreAt (fs.data a.toNat) 0))
    (ha : a≠NilBlock) (hla : (fs.label a.toNat).typ=entryType e ∧ (fs.label a.toNat).tag=e.tag)
    (hc : c≠NilBlock) (hlc : (fs.label c.toNat).typ=entryType e-1 ∧ (fs.label c.toNat).tag=e.tag)
    (hap : a.toNat≠r.b) :
    ∃ fs', setSize fs r s newTag=some (.error "bad depth",fs') ∧
      load fs' r=.ok { e with depth := e.depth-1,score := localToGlobal c } := by
  obtain ⟨he,hgen⟩ := load_eq_ok.mp hload
  have hD : e.depth ≤ 7 := he ▸ unpackEntry_depth_le _ _
  obtain ⟨fs',hshrink,hdata,-,-⟩ :=
    shrinkDepth_two_levels r.index newTag hdD hD htag ha_def hc_def ha hla hc hlc hap
  refine ⟨fs',?_,?_⟩
  · unfold setSize
    rw [if_neg hs0,if_neg (not_or.mpr ⟨not_lt.mpr hmax,not_lt.mpr hblk⟩),hload]
    dsimp only
    rw [if_neg hsize,hdepth]
    dsimp only
    rw [if_pos (by omega),hshrink]
  · have hD' : e.depth-1 ≤ 7 := by
      rw [UInt8.le_iff_toNat_le,UInt8.toNat_sub_of_le _ _ (by rw [UInt8.le_iff_toNat_le]; simp; omega)]
      rw [UInt8.le_iff_toNat_le] at hD
      simp at hD ⊢
      omega
    have hread := unpackEntry_write (e := { e with depth := e.depth-1,score := localToGlobal c }) (fs.data r.b) r.index
      hD' (he ▸ unpackEntry_flags _ _) (he ▸ unpackEntry_size_lt _ _) (fun _ k hk => localToGlobal_getD c hk)
    rw [← hdata] at hread
    refine load_eq_ok.mpr ⟨?_,hgen⟩
    rw [hread]
    simp [Entry.unpacked,hloc]

/-- A file of 64 bytes in a local tree of depth 3 (8-byte data blocks, two pointers a block)
rooted at block 1, tagged 40. -/
def deepEntry : Entry :=
  ⟨1,40,8,3,EntryActive ||| EntryLocal,64,localToGlobal 1,40,0,false⟩

/-- Its entry in slot 0 of block 0; the root 1 points first at block 2, one level down. -/
def deepFs : Fs where
  label := fun n => if n=1 then ⟨3,BsAlloc,40,1,0xFFFFFFFF⟩ else if n=2 then ⟨2,BsAlloc,40,1,0xFFFFFFFF⟩ else ⟨0,0,0,0,0⟩
  data := fun n => if n=0 then write (fun _ => 0) 0 deepEntry.bytes
    else if n=1 then write (fun _ => 0) 0 (localToGlobal 2).toList else fun _ => 0
  venti := fun _ _ => none
  bsize := 8
  last := 0
  flEnd := 8
  ehi := 1
  elo := 1
  unlinks := []

def deepSource : Source :=
  ⟨0,0,1,by decide,1,8⟩

/-- Cutting it to 16 bytes, a depth of 1. -/
theorem setSize_shrink_repacks_on_error_deepFs :
    ∃ fs', setSize deepFs deepSource 16 0=some (.error "bad depth",fs') ∧
      load fs' deepSource=.ok { deepEntry with depth := deepEntry.depth-1,score := localToGlobal 2 } :=
  setSize_shrink_repacks_on_error 0 1 (a := 1) rfl (by decide) (by decide) (by decide) (by decide)
    rfl (by decide) (by decide) (by decide) rfl rfl (by decide) ⟨rfl,rfl⟩ (by decide) ⟨rfl,rfl⟩ (by decide)

/-! ## A successful `setSize` -/

/-- What `load` reads after an entry of the source's generation is packed into its slot: an
entry with the packed size. -/
theorem load_packAt {fs fs' : Fs} {r : Source} {e : Entry} (h : packAt fs r.b r.index e=some fs')
    (hg : e.gen=r.gen) (hs : e.size.toNat < 2^48) : ∃ e', load fs' r=.ok e' ∧ e'.size=e.size := by
  obtain ⟨d,hd,rfl⟩ := Option.map_eq_some_iff.mp h
  unfold Entry.pack at hd
  split_ifs at hd
  obtain rfl := Option.some.inj hd
  obtain ⟨hgen,hsize⟩ := write_gen_size (fs.data r.b) r.index hs
  refine ⟨_,load_eq_ok.mpr ⟨rfl,?_⟩,?_⟩
  · simpa [unpackEntry] using hgen.trans hg
  · simpa [unpackEntry] using hsize

/-- `load` reads only the bytes of the blocks. -/
theorem load_unlinks (fs : Fs) (r : Source) (u : List (Nat × UInt32 × BlockType × UInt32)) :
    load { fs with unlinks := u } r=load fs r :=
  rfl

/-- The loop of `growDepth` keeps the entry's generation. -/
theorem growLoop_gen (tag : UInt32) (depth : Nat) :
    ∀ fuel fs typ (e : Entry) b, (growLoop tag depth fuel fs typ e b).2.gen=e.gen := by
  intro fuel
  induction fuel with
  | zero => intro fs typ e b; rfl
  | succ fuel ih =>
    intro fs typ e b
    unfold growLoop
    split
    · split
      · rfl
      · exact ih _ _ _ _
    · rfl

/-- `growDepth` hands back an entry of the same generation. -/
theorem growDepth_gen {fs fs' : Fs} {p index depth : Nat} {e e' : Entry} {newTag : UInt32} {x : Except String Unit}
    (h : growDepth fs p index e depth newTag=some (x,fs',e')) : e'.gen=e.gen := by
  unfold growDepth at h
  dsimp only at h
  split at h
  · cases h
  · split at h
    · simp only [Option.some.injEq,Prod.mk.injEq] at h
      rw [← h.2.2]
    · split at h
      all_goals
        obtain ⟨fs2,-,hx⟩ := Option.map_eq_some_iff.mp h
        simp only [Prod.mk.injEq] at hx
        rw [← hx.2.2,growLoop_gen]

/-- So does `shrinkDepth`. -/
theorem shrinkDepth_gen {fs fs' : Fs} {p index depth : Nat} {e e' : Entry} {newTag : UInt32} {x : Except String Unit}
    (h : shrinkDepth fs p index e depth newTag=some (x,fs',e')) : e'.gen=e.gen := by
  unfold shrinkDepth at h
  dsimp only at h
  split at h
  · cases h
  · split at h
    · simp only [Option.some.injEq,Prod.mk.injEq] at h
      rw [← h.2.2]
    · split at h
      · simp only [Option.some.injEq,Prod.mk.injEq] at h
        rw [← h.2.2]
      · split at h
        · cases h
        · split_ifs at h <;> simp only [Option.some.injEq,Prod.mk.injEq] at h <;> rw [← h.2.2]

/-- A `truncate` that succeeds leaves an entry of size zero. -/
theorem truncate_ok_size {fs fs' : Fs} {r : Source} (h : truncate fs r=some (.ok (),fs')) :
    ∃ e', load fs' r=.ok e' ∧ e'.size=0 := by
  unfold truncate at h
  split at h
  · cases h
  · rename_i e hload
    split_ifs at h with hep hsize
    · simp only [Option.some.injEq,Prod.mk.injEq] at h
      rw [← h.2]
      exact ⟨e,hload,hsize⟩
    · obtain ⟨fs2,hpack,hx⟩ := Option.map_eq_some_iff.mp h
      simp only [Prod.mk.injEq] at hx
      obtain ⟨e',hl,hs⟩ := load_packAt hpack (load_eq_ok.mp hload).2 (by simp)
      refine ⟨e',?_,hs⟩
      rw [← hx.2]
      split_ifs
      · rw [load_unlinks]
        exact hl
      · exact hl

/-- A `setSize` that succeeds leaves the source's entry with the size asked for. -/
theorem setSize_ok_size {fs fs' : Fs} {r : Source} {size : UInt64} {newTag : UInt32}
    (h : setSize fs r size newTag=some (.ok (),fs')) : ∃ e', load fs' r=.ok e' ∧ e'.size=size := by
  unfold setSize at h
  split_ifs at h with h0 hbig
  · subst h0
    exact truncate_ok_size h
  · cases h
  · split at h
    · cases h
    · rename_i e hload
      have hg := (load_eq_ok.mp hload).2
      have hs : size.toNat < 2^48 := by
        have := not_or.mp hbig
        unfold MaxFileSize at this
        omega
      split_ifs at h with hsame
      · simp only [Option.some.injEq,Prod.mk.injEq] at h
        rw [← h.2]
        exact ⟨e,hload,hsame⟩
      · split at h
        · cases h
        · rename_i depth hdepth
          have hgrown : ∀ x fs1 e1, (if depth < e.depth.toNat then shrinkDepth fs r.b r.index e depth newTag
              else if e.depth.toNat < depth then growDepth fs r.b r.index e depth newTag
              else some (.ok (),fs,e))=some (x,fs1,e1) → e1.gen=e.gen := by
            intro x fs1 e1 hx
            split_ifs at hx
            · exact shrinkDepth_gen hx
            · exact growDepth_gen hx
            · simp only [Option.some.injEq,Prod.mk.injEq] at hx
              rw [← hx.2.2]
          generalize (if depth < e.depth.toNat then shrinkDepth fs r.b r.index e depth newTag
              else if e.depth.toNat < depth then growDepth fs r.b r.index e depth newTag
              else some (.ok (),fs,e))=grown at h hgrown
          dsimp only at h
          split at h
          · cases h
          · cases h
          · obtain ⟨fs2,-,hpack⟩ := Option.bind_eq_some_iff.mp h
            obtain ⟨fs3,hpack,hx⟩ := Option.map_eq_some_iff.mp hpack
            simp only [Prod.mk.injEq] at hx
            rw [← hx.2]
            exact load_packAt hpack ((hgrown _ _ _ rfl).trans hg) hs

/-! ## A `setSize` that keeps the depth -/

/-- `cache.global` reads only the labels, Venti and the bytes of the block the score names. -/
theorem global_congr {fs fs' : Fs} {score : Score} {typ : BlockType} {tag : UInt32} (hl : fs'.label=fs.label)
    (hv : fs'.venti=fs.venti) (hd : fs'.data (globalToLocal score).toNat=fs.data (globalToLocal score).toNat) :
    global fs' score typ tag=global fs score typ tag := by
  unfold global
  dsimp only
  rw [hl,hv,hd]

/-- The state once `e` is packed into the source's slot. -/
def repack (fs : Fs) (r : Source) (e : Entry) : Fs :=
  { fs with data := Function.update fs.data r.b (write (fs.data r.b) (r.index*EntrySize) e.bytes) }

/-- A `packAt` into the source's slot that does not panic is `repack`. -/
theorem packAt_repack {fs : Fs} {r : Source} {e : Entry} (hl : e.flags &&& EntryLocal≠0 → globalToLocal e.score≠NilBlock) :
    packAt fs r.b r.index e=some (repack fs r e) := by
  unfold packAt
  rw [pack_eq_write _ _ hl]
  rfl

/-- Repacking the loaded entry at another size loads it back at that size. -/
theorem load_repack {fs : Fs} {r : Source} {e : Entry} (hl : load fs r=.ok e) {s : UInt64} (hs : s.toNat < 2^48) :
    load (repack fs r { e with size := s }) r=.ok { e with size := s } := by
  obtain ⟨rfl,hg⟩ := load_eq_ok.mp hl
  refine load_eq_ok.mpr ⟨?_,hg⟩
  have hw := unpackEntry_write (e := { unpackEntry (fs.data r.b) r.index with size := s }) (fs.data r.b) r.index
    (unpackEntry_depth_le _ _) (unpackEntry_flags _ _) hs (unpackEntry_score_local _ _)
  show unpackEntry (Function.update fs.data r.b _ r.b) r.index=_
  rw [Function.update_self,hw,unpackEntry_unpacked]

/-- `shrinkSize` leaves a tree whose root is on Venti or of an older epoch as it is: such a block
is not worth copying just to zero some of it. -/
theorem shrinkSize_of_old_root {fs : Fs} {e : Entry} {b : Blk} {size : UInt64}
    (hg : global fs e.score (entryType e) e.tag=.ok b) (hold : b.addr=NilBlock ∨ b.l.epoch≠fs.ehi) :
    shrinkSize fs e size=some (.ok (),fs) := by
  unfold shrinkSize
  rw [hg]
  dsimp only
  rw [shrinkLoop',if_pos hold]

/-- `setSize` to a size of the same depth: no depth change, `shrinkSize` when the size goes down,
and the entry repacked at the new size. -/
theorem setSize_sameDepth {fs : Fs} {r : Source} {e : Entry} {size : UInt64} (newTag : UInt32) (hl : load fs r=.ok e)
    (h0 : size≠0) (hmax : size.toNat ≤ MaxFileSize) (hblk : size.toNat ≤ MaxBlock.toNat*r.dsize) (hne : e.size≠size)
    (hdepth : sizeToDepth size e.psize.toNat e.dsize.toNat=some e.depth.toNat) :
    setSize fs r size newTag=(if size < e.size then (shrinkSize fs e size).map Prod.snd else some fs).bind
      fun fs => (packAt fs r.b r.index { e with size := size }).map fun fs => (.ok (),fs) := by
  unfold setSize
  rw [if_neg h0,if_neg (by omega),hl]
  dsimp only
  rw [if_neg hne,hdepth]
  dsimp only
  rw [if_neg (Nat.lt_irrefl _),if_neg (Nat.lt_irrefl _)]

end Fossil.Tree
