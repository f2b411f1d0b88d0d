import Fossil.Source.DirSize
import Fossil.Venti.ScoreText

/-!
# Reading a file

`(*File).read` (`file.go`) reads `len(buf)` bytes of a file from `offset`: an offset past the end
reads from the end, the count is cut to the bytes left, and the copy starts at byte
`offset mod dsize` of block `offset / dsize`, taken to 32 bits. Each round copies what is left of
the block, or of the count, and goes on at byte 0 of the next block, which `Source.block` fetches
read-only. `_block` (`source.go`) takes the digits of the block number in base `np`, refuses a
block past the tree's depth, and walks down from the block holding the entry: `(*Block).walk`
fetches the root from the entry's score, then each child from the score its digit selects, at the
type one below its parent's label and the tree's tag.

A file is meant to behave as a byte array: truncating or extending it to a size keeps
the bytes below the size and reads zeros past the old end (`resize`), and a read returns the bytes
there are (`readAt`). `shrinkSize` leaves a block of an older epoch as it is, the block being
shared with a snapshot; truncating a file whose last block was written before the last snapshot
and extending it again reads the old bytes back, not zeros.

The file's own lock and its `atime` are not modelled; the source is one of the active file
system (not a snapshot's, so `_block` does not check `EntryNoArchive`), and `Source.block` asks
for no tag.
-/

namespace Fossil.Read

open Fossil.Venti Fossil.Block Fossil.Source Fossil.Tree Fossil.Depth Fossil.DirSize Bytes

def EBadOffset : String := "illegal offset"

/-- `%v` of a `venti.Score` value: Go prints the array, its bytes in decimal between brackets. -/
def scoreArray (sc : Score) : String :=
  "[" ++ String.intercalate " " (sc.toList.map fun c => toString c.toNat) ++ "]"

/-- `%v` of a `*venti.Score`: its `String` method. -/
def scoreText (sc : Score) : String :=
  String.ofList (sc.string.map fun c => Char.ofNat c.toNat)

/-- `c.global`, its error wrapped as `(*Block).walk` wraps it, with the score shown as `shown`. -/
def fetch (fs : Fs) (score : Score) (typ : BlockType) (tag : UInt32) (shown : String) : Except String Blk :=
  (global fs score typ tag).mapError fun err => "fetch global block " ++ shown ++ ": " ++ err

/-- `(*Block).walk` in `OReadOnly` mode, which copies nothing: from the block holding the entry (of
level 0, which must be a `BtDir` block) to the tree's root, or from a pointer block to its child at
`index`, at the type one below the parent's label. -/
def walk (fs : Fs) (e : Entry) (p : Blk) (index : Nat) : Option (Except String Blk) :=
  if p.l.typ &&& BtLevelMask=0 then
    if p.l.typ≠BtDir then none
    else some (fetch fs e.score (entryType e) e.tag (scoreText e.score))
  else
    let score := scoreAt p.data (index*ScoreSize)
    some (fetch fs score (p.l.typ-1) e.tag (scoreArray score))

/-- The walk of `_block` down its indices, top level first, each error wrapped as `walk: `. -/
def walkPath (fs : Fs) (e : Entry) : List Nat → Blk → Option (Except String Blk)
  | [], b => some (.ok b)
  | i :: is, b =>
    match walk fs e b i with
    | none => none
    | some (.error err) => some (.error ("walk: " ++ err))
    | some (.ok bb) => walkPath fs e is bb

/-- The block holding a source's entry, as the source's lock holds it. -/
def entryBlk (fs : Fs) (r : Source) : Blk :=
  ⟨r.b.toUInt32,localToGlobal r.b.toUInt32,fs.label r.b,fs.data r.b⟩

/-- The indices `_block` walks, top level first: the entry's slot, then for each level below the
root its digit of the block number, zero past the last digit (`index` is a zeroed array). -/
def pathIndices (r : Source) (e : Entry) (index : List Nat) : List Nat :=
  r.index :: (List.range e.depth.toNat).reverse.map fun i => index.getD i 0

/-- `Source.block(bn, OReadOnly)`, which is `_block(bn, OReadOnly, 0, 0)`: load the entry, take the
digits of `bn`, refuse a block past the tree's depth, and walk down from the entry. -/
def blockRead (fs : Fs) (r : Source) (bn : UInt32) : Option (Except String Blk) :=
  if bn=NilBlock then none
  else
    match load fs r with
    | .error err => some (.error ("load entry: " ++ err))
    | .ok e =>
      match blockPath e bn true with
      | none => none
      | some (.error err) => some (.error err)
      | some (.ok (_,index)) => walkPath fs e (pathIndices r e index) (entryBlk fs r)

/-- The copy loop of `(*File).read`, `cnt` bytes left from byte `off` of block `bn`: copy what is
left of the block, or of the count (`nn` is `n` there, so the zero fill after it is empty), and go
on at byte 0 of the next block. Every round has `off < dsize`; the guard gives the loop its
measure. -/
def readLoop (fs : Fs) (r : Source) (dsize : Nat) (bn : UInt32) (off cnt : Nat) : Option (Except String (List UInt8)) :=
  if _hc : cnt=0 then some (.ok [])
  else if _hoff : off < dsize then
    match blockRead fs r bn with
    | none => none
    | some (.error err) => some (.error err)
    | some (.ok b) =>
      let n := min cnt (dsize-off)
      (readLoop fs r dsize (bn+1) 0 (cnt-n)).map fun rest =>
        rest.map fun rest => (List.range n).map (fun k => b.data (off+k)) ++ rest
  else none
termination_by cnt
decreasing_by omega

/-- `(*File).read` of `len` bytes at `offset`: the bytes copied into the buffer. `none` is the
division by a `dsize` of zero. -/
def fileRead (fs : Fs) (r : Source) (len : Nat) (offset : Int) : Option (Except String (List UInt8)) :=
  if offset < 0 then some (.error EBadOffset)
  else
    let size := (getSize fs r).toNat
    let offset := if size ≤ offset.toNat then size else offset.toNat
    let cnt := if size-offset < len then size-offset else len
    if r.dsize=0 then none
    else readLoop fs r r.dsize (offset/r.dsize).toUInt32 (offset%r.dsize) cnt

/-! ## A file as a byte array -/

/-- Truncate or zero-extend a byte array to `s` bytes. -/
def resize (M : List UInt8) (s : Nat) : List UInt8 :=
  M.take s ++ List.replicate (s-M.length) 0

/-- What there is of `len` bytes at `offset`. -/
def readAt (M : List UInt8) (offset len : Nat) : List UInt8 :=
  (M.drop offset).take len

/-! ## Reading a block -/

/-- Block 0 has no digits: every tree holds it. -/
theorem blockPath_zero (e : Entry) : blockPath e 0 true=some (.ok (false,[])) := by
  unfold blockPath
  rw [digitLoop,if_neg (by decide)]
  simp only [Option.map_some,Except.bind,List.length_nil,Nat.not_lt_zero,if_false]

/-- In a tree of depth 0, block 0 is the root, fetched from the entry's score. -/
theorem blockRead_depth0 {fs : Fs} {r : Source} {e : Entry} {b : Blk} (hl : load fs r=.ok e) (hd : e.depth=0)
    (hdir : (fs.label r.b).typ=BtDir) (hg : global fs e.score (entryType e) e.tag=.ok b) :
    blockRead fs r 0=some (.ok b) := by
  have hpath : pathIndices r e []=[r.index] := by
    simp [pathIndices,hd]
  have hwalk : walk fs e (entryBlk fs r) r.index=some (.ok b) := by
    have hl0 : (entryBlk fs r).l.typ=BtDir := hdir
    unfold walk fetch
    rw [hl0,if_pos (by decide),if_neg (not_not.mpr rfl),hg]
    rfl
  unfold blockRead
  rw [if_neg (by decide),hl]
  dsimp only
  rw [blockPath_zero]
  dsimp only
  rw [hpath,walkPath,hwalk]
  rfl

/-! ## The copy loop -/

/-- The block after `bn+q` is `bn+1+q`, in 32 bits. -/
theorem add_toUInt32_succ (bn : UInt32) (q : Nat) : bn+(q+1).toUInt32=bn+1+q.toUInt32 := by
  rw [Nat.toUInt32_eq,Nat.toUInt32_eq,UInt32.ofNat_add,UInt32.add_comm _ (UInt32.ofNat 1),← UInt32.add_assoc]
  rfl

/-- The copy loop reads byte `k` of the count from byte `off+k` of the blocks from `bn` on, when
every block it reaches can be read. By induction on the count: each round copies the rest of one
block and leaves the next blocks to the loop. -/
theorem readLoop_eq {fs : Fs} {r : Source} {dsize : Nat} (get : UInt32 → Blk) (cnt : Nat) :
    ∀ bn off, off < dsize →
      (∀ k < cnt, blockRead fs r (bn+((off+k)/dsize).toUInt32)=some (.ok (get (bn+((off+k)/dsize).toUInt32)))) →
      readLoop fs r dsize bn off cnt=
        some (.ok ((List.range cnt).map fun k => (get (bn+((off+k)/dsize).toUInt32)).data ((off+k)%dsize))) := by
  induction cnt using Nat.strong_induction_on with
  | _ cnt ih =>
  intro bn off hoff hget
  rw [readLoop]
  by_cases hc : cnt=0
  · subst hc
    rfl
  · rw [dif_neg hc,dif_pos hoff]
    have hb : blockRead fs r bn=some (.ok (get bn)) := by
      simpa [Nat.div_eq_of_lt hoff] using hget 0 (Nat.pos_of_ne_zero hc)
    rw [hb]
    dsimp only
    -- past the first round the count left is `cnt - n`, and it starts on a block boundary
    have hn : min cnt (dsize-off)=cnt ∨ min cnt (dsize-off)=dsize-off := by omega
    have hnext : ∀ k < cnt-min cnt (dsize-off),
        blockRead fs r (bn+1+((0+k)/dsize).toUInt32)=some (.ok (get (bn+1+((0+k)/dsize).toUInt32))) := by
      intro k hk
      have hq : (off+(min cnt (dsize-off)+k))/dsize=(0+k)/dsize+1 := by
        rw [show off+(min cnt (dsize-off)+k)=k+dsize by omega,Nat.add_div_right _ (by omega),Nat.zero_add]
      have := hget (min cnt (dsize-off)+k) (by omega)
      rwa [hq,add_toUInt32_succ] at this
    rw [ih (cnt-min cnt (dsize-off)) (by omega) (bn+1) 0 (by omega) hnext]
    simp only [Option.map_some,Except.map]
    congr 2
    have hsplit : List.range cnt=List.range (min cnt (dsize-off))++(List.range (cnt-min cnt (dsize-off))).map
        (min cnt (dsize-off)+·) := by
      rw [← List.range_add]
      congr 1
      omega
    rw [hsplit,List.map_append,List.map_map]
    congr 1
    · apply List.map_congr_left
      intro k hk
      rw [List.mem_range] at hk
      rw [Nat.div_eq_of_lt (show off+k < dsize by omega),Nat.mod_eq_of_lt (show off+k < dsize by omega)]
      simp
    · apply List.map_congr_left
      intro k hk
      rw [List.mem_range] at hk
      have hq : off+(min cnt (dsize-off)+k)=k+dsize := by omega
      simp only [Function.comp,hq,Nat.add_div_right _ (show 0 < dsize by omega),Nat.add_mod_right,
        Nat.zero_add,add_toUInt32_succ]

/-- `(*File).read` from an offset inside the file reads, as byte `k` of the count, byte
`(offset+k) mod dsize` of block `(offset+k) / dsize`, when every block it reaches can be read;
the count is what is left of the file, or less. -/
theorem fileRead_eq {fs : Fs} {r : Source} (get : UInt32 → Blk) {len offset : Nat} (hd : 0 < r.dsize)
    (ho : offset ≤ (getSize fs r).toNat)
    (hget : ∀ k < min len ((getSize fs r).toNat-offset),
      blockRead fs r ((offset+k)/r.dsize).toUInt32=some (.ok (get ((offset+k)/r.dsize).toUInt32))) :
    fileRead fs r len offset=some (.ok ((List.range (min len ((getSize fs r).toNat-offset))).map fun k =>
      (get ((offset+k)/r.dsize).toUInt32).data ((offset+k)%r.dsize))) := by
  have hpos : ∀ k, (offset/r.dsize).toUInt32+((offset%r.dsize+k)/r.dsize).toUInt32=((offset+k)/r.dsize).toUInt32 ∧
      (offset%r.dsize+k)%r.dsize=(offset+k)%r.dsize := by
    intro k
    have hdm := Nat.div_add_mod offset r.dsize
    constructor
    · rw [Nat.toUInt32_eq,Nat.toUInt32_eq,← UInt32.ofNat_add,← Nat.mul_add_div hd,← Nat.add_assoc,hdm,
        Nat.toUInt32_eq]
    · rw [← Nat.mul_add_mod_self_left r.dsize (offset/r.dsize),← Nat.add_assoc,hdm]
  have hoff : (if (getSize fs r).toNat ≤ offset then (getSize fs r).toNat else offset)=offset := by
    split <;> omega
  have hcnt : (if (getSize fs r).toNat-offset < len then (getSize fs r).toNat-offset else len)=
      min len ((getSize fs r).toNat-offset) := by
    split <;> omega
  unfold fileRead
  rw [if_neg (by omega)]
  dsimp only
  rw [Int.toNat_natCast,hoff,hcnt,if_neg (Nat.pos_iff_ne_zero.mp hd),
    readLoop_eq get _ _ _ (Nat.mod_lt _ hd) (fun k hk => by rw [(hpos k).1]; exact hget k hk)]
  congr 2
  apply List.map_congr_left
  intro k _
  rw [(hpos k).1,(hpos k).2]

/-- A file whose tree has depth 0 and whose size fits its block reads, from byte 0, the bytes of
its root. -/
theorem fileRead_depth0 {fs : Fs} {r : Source} {e : Entry} {b : Blk} (hl : load fs r=.ok e) (hd : e.depth=0)
    (hdir : (fs.label r.b).typ=BtDir) (hg : global fs e.score (entryType e) e.tag=.ok b)
    (hsize : e.size.toNat ≤ r.dsize) (hd0 : 0 < r.dsize) :
    fileRead fs r e.size.toNat 0=some (.ok ((List.range e.size.toNat).map b.data)) := by
  have hsz : (getSize fs r).toNat=e.size.toNat := by
    unfold getSize
    rw [hl]
  have hcnt : min e.size.toNat ((getSize fs r).toNat-0)=e.size.toNat := by
    rw [hsz]
    omega
  have h := fileRead_eq (fun _ => b) hd0 (Nat.zero_le _) fun k hk => by
    rw [hcnt] at hk
    rw [Nat.zero_add,Nat.div_eq_of_lt (by omega)]
    exact blockRead_depth0 hl hd hdir hg
  rw [hcnt] at h
  refine h.trans ?_
  congr 2
  apply List.map_congr_left
  intro k hk
  rw [List.mem_range] at hk
  rw [Nat.zero_add,Nat.mod_eq_of_lt (by omega)]

/-! ## The byte array, truncated and extended -/

/-- Truncating to `s` and extending to `t` keeps the first `s` bytes and reads zeros up to `t`. -/
theorem readAt_regrow (M : List UInt8) {s t : Nat} (hs : s ≤ M.length) (hst : s ≤ t) :
    readAt (resize (resize M s) t) 0 t=M.take s ++ List.replicate (t-s) 0 := by
  have hlen : (M.take s).length=s := List.length_take_of_le hs
  have h1 : resize M s=M.take s := by
    simp [resize,Nat.sub_eq_zero_of_le hs]
  unfold readAt
  rw [h1]
  unfold resize
  rw [hlen,List.take_of_length_le (show (M.take s).length ≤ t by rw [hlen]; exact hst),List.drop_zero]
  apply List.take_of_length_le
  simp only [List.length_append,hlen,List.length_replicate]
  omega

/-- The bytes `0..t` of `d` are its first `s` bytes followed by zeros exactly when `d` is zero from
`s` to `t`. -/
theorem map_range_eq_append_zeros (d : Nat → UInt8) {s t : Nat} (hst : s ≤ t) :
    (List.range t).map d=(List.range s).map d++List.replicate (t-s) 0 ↔ ∀ k, s ≤ k → k < t → d k=0 := by
  obtain ⟨u,rfl⟩ : ∃ u, t=s+u := ⟨t-s,by omega⟩
  rw [List.range_add,List.map_append,List.append_right_inj,Nat.add_sub_cancel_left,List.eq_replicate_iff]
  simp only [List.length_map,List.length_range,true_and,List.mem_map,List.mem_range,List.map_map,Function.comp]
  constructor
  · intro h k hk hk'
    exact h _ ⟨k-s,by omega,by rw [Nat.add_sub_cancel' hk]⟩
  · rintro h _ ⟨k,hk,rfl⟩
    exact h _ (Nat.le_add_right _ _) (by omega)

/-! ## Truncating a snapshot's block and extending it again -/

/-- A file of one data block, not of the current epoch (written before the last snapshot, or on
Venti), truncated to `s` bytes and extended to `t`: `shrinkSize` leaves the block as it is, so the
file reads its old bytes back. It reads as a byte array would, zeros from `s` to `t`, exactly when
the old bytes there were zeros. -/
theorem regrow_reads_stale {fs : Fs} {r : Source} {e : Entry} {b : Blk} {s t : UInt64} (newTag : UInt32)
    (hl : load fs r=.ok e) (hd : e.depth=0) (hdir : (fs.label r.b).typ=BtDir)
    (hg : global fs e.score (entryType e) e.tag=.ok b) (hold : b.addr=NilBlock ∨ b.l.epoch≠fs.ehi)
    (hroot : (globalToLocal e.score).toNat≠r.b) (hlocal : e.flags &&& EntryLocal≠0 → globalToLocal e.score≠NilBlock)
    (hp : 2*ScoreSize ≤ e.psize.toNat) (hdsz : r.dsize=e.dsize.toNat)
    (hs : 0 < s) (hst : s < t) (hse : s < e.size) (hsize : e.size.toNat ≤ r.dsize) (ht : t.toNat ≤ r.dsize) :
    ∃ fs1 fs2, fileRead fs r e.size.toNat 0=some (.ok ((List.range e.size.toNat).map b.data)) ∧
      setSize fs r s newTag=some (.ok (),fs1) ∧ setSize fs1 r t newTag=some (.ok (),fs2) ∧
      fileRead fs2 r t.toNat 0=some (.ok ((List.range t.toNat).map b.data)) ∧
      ((List.range t.toNat).map b.data=readAt (resize (resize ((List.range e.size.toNat).map b.data) s.toNat) t.toNat) 0 t.toNat ↔
        ∀ k, s.toNat ≤ k → k < t.toNat → b.data k=0) := by
  have hsN : 0 < s.toNat := UInt64.lt_iff_toNat_lt.mp hs
  have hstN : s.toNat < t.toNat := UInt64.lt_iff_toNat_lt.mp hst
  have hseN : s.toNat < e.size.toNat := UInt64.lt_iff_toNat_lt.mp hse
  have hd0 : 0 < r.dsize := by omega
  have hd16 : e.dsize.toNat < 2^16 := e.dsize.toNat_lt
  have hdepth : ∀ u : UInt64, 0 < u.toNat → u.toNat ≤ r.dsize →
      sizeToDepth u e.psize.toNat e.dsize.toNat=some e.depth.toNat := by
    intro u h1 h2
    rw [hd]
    exact sizeToDepth_one_block h1 (by omega) hp e.psize.toNat_lt hd16
  have hlim : ∀ u : UInt64, u.toNat ≤ r.dsize → u.toNat ≤ MaxFileSize ∧ u.toNat ≤ MaxBlock.toNat*r.dsize := by
    intro u hu
    have hmb : 1 ≤ MaxBlock.toNat := by decide
    have := Nat.mul_le_mul_right r.dsize hmb
    unfold MaxFileSize
    omega
  have hne0 : ∀ u : UInt64, 0 < u.toNat → u≠0 := fun u h h0 => by rw [h0] at h; exact absurd h (by decide)
  have he48 : e.size.toNat < 2^48 := by
    obtain ⟨rfl,-⟩ := load_eq_ok.mp hl
    exact unpackEntry_size_lt _ _
  have h1 : setSize fs r s newTag=some (.ok (),repack fs r { e with size := s }) := by
    rw [setSize_sameDepth newTag hl (hne0 s hsN) (hlim s (by omega)).1 (hlim s (by omega)).2 (fun h => by rw [h] at hseN; omega)
      (hdepth s hsN (by omega)),if_pos hse,shrinkSize_of_old_root hg hold]
    simp only [Option.map_some,Option.bind_some]
    rw [packAt_repack (e := { e with size := s }) hlocal]
    rfl
  have hl1 := load_repack hl (s := s) (by omega)
  generalize he1 : ({ e with size := s } : Entry)=e1 at hl1 h1
  obtain ⟨hd1,hs1,hp1,hds1,hsc1,htg1,hfl1⟩ : e1.depth=0 ∧ e1.size=s ∧ e1.psize=e.psize ∧ e1.dsize=e.dsize ∧
      e1.score=e.score ∧ e1.tag=e.tag ∧ e1.flags=e.flags := by
    subst he1
    exact ⟨hd,rfl,rfl,rfl,rfl,rfl,rfl⟩
  have hlocal1 : e1.flags &&& EntryLocal≠0 → globalToLocal e1.score≠NilBlock := by
    rw [hfl1,hsc1]
    exact hlocal
  have hty : entryType e1=entryType e := by
    unfold entryType
    rw [hfl1,hd1,hd]
  have h2 := setSize_sameDepth newTag hl1 (hne0 t (by omega)) (hlim t ht).1 (hlim t ht).2
    (fun h => by rw [hs1] at h; rw [h] at hstN; omega) (by rw [hp1,hds1,hd1,← hd]; exact hdepth t (by omega) ht)
  rw [hs1,if_neg (fun h => absurd (UInt64.lt_iff_toNat_lt.mp h) (by omega)),Option.bind_some,
    packAt_repack (e := { e1 with size := t }) hlocal1,Option.map_some] at h2
  have hl2 := load_repack hl1 (s := t) (by omega)
  have hg2 : global (repack (repack fs r e1) r { e1 with size := t }) e1.score (entryType e1) e1.tag=.ok b := by
    rw [hsc1,hty,htg1,← hg]
    refine global_congr ?_ ?_ ?_
    · rfl
    · rfl
    · simp only [repack,Function.update_of_ne hroot]
  refine ⟨_,_,fileRead_depth0 hl hd hdir hg hsize hd0,h1,h2,fileRead_depth0 hl2 hd1 hdir hg2 ht hd0,?_⟩
  have hM : ((List.range e.size.toNat).map b.data).take s.toNat=(List.range s.toNat).map b.data := by
    rw [← List.map_take,List.take_range,Nat.min_eq_left (by omega)]
  rw [readAt_regrow _ (by simp; omega) (by omega),hM]
  exact map_range_eq_append_zeros b.data (by omega)

/-- A file of the four bytes `abcd` in one 8-byte data block, block 2, tagged 40. -/
def staleEntry : Entry :=
  ⟨1,40,8,0,EntryActive ||| EntryLocal,4,localToGlobal 2,40,0,false⟩

/-- Its entry in slot 0 of block 1, which the source holds in the current epoch 2; the data block
was written in epoch 1, before the last snapshot. -/
def staleFs : Fs where
  label := fun n => if n=1 then ⟨BtDir,BsAlloc,0,2,0xFFFFFFFF⟩ else ⟨BtData,BsAlloc,40,1,0xFFFFFFFF⟩
  data := fun n => if n=1 then write (fun _ => 0) 0 staleEntry.bytes else write (fun _ => 0) 0 [97,98,99,100]
  venti := fun _ _ => none
  bsize := 8
  last := 2
  flEnd := 16
  ehi := 2
  elo := 1
  unlinks := []

def staleSource : Source := ⟨1,0,1,Nat.one_pos,1,8⟩

/-- The data block, as `cache.global` hands it out. -/
def staleBlk : Blk := ⟨2,localToGlobal 2,staleFs.label 2,staleFs.data 2⟩

/-- `abcd`, truncated to one byte and extended to four, reads `abcd` again where a byte array reads
`a` and three zeros. -/
theorem regrow_reads_stale_abcd :
    load staleFs staleSource=.ok staleEntry ∧ staleEntry.depth=0 ∧ (staleFs.label staleSource.b).typ=BtDir ∧
      global staleFs staleEntry.score (entryType staleEntry) staleEntry.tag=.ok staleBlk ∧
      (staleBlk.addr=NilBlock ∨ staleBlk.l.epoch≠staleFs.ehi) ∧
      (∃ fs1 fs2, fileRead staleFs staleSource staleEntry.size.toNat 0=
          some (.ok ((List.range staleEntry.size.toNat).map staleBlk.data)) ∧
        setSize staleFs staleSource 1 0=some (.ok (),fs1) ∧ setSize fs1 staleSource 4 0=some (.ok (),fs2) ∧
        fileRead fs2 staleSource (4 : UInt64).toNat 0=some (.ok ((List.range (4 : UInt64).toNat).map staleBlk.data)) ∧
        ((List.range (4 : UInt64).toNat).map staleBlk.data=
            readAt (resize (resize ((List.range staleEntry.size.toNat).map staleBlk.data) (1 : UInt64).toNat)
              (4 : UInt64).toNat) 0 (4 : UInt64).toNat ↔
          ∀ k, (1 : UInt64).toNat ≤ k → k < (4 : UInt64).toNat → staleBlk.data k=0)) ∧
      (List.range 4).map staleBlk.data=[97,98,99,100] ∧ readAt (resize (resize [97,98,99,100] 1) 4) 0 4=[97,0,0,0] := by
  have hl : load staleFs staleSource=.ok staleEntry := rfl
  have hg : global staleFs staleEntry.score (entryType staleEntry) staleEntry.tag=.ok staleBlk := rfl
  exact ⟨hl,rfl,rfl,hg,by decide,
    regrow_reads_stale 0 hl rfl rfl hg (by decide) (by decide) (by decide) (by decide) (by decide) (by decide)
      (by decide) (by decide) (by decide) (by decide),
    by decide,by decide⟩

end Fossil.Read
