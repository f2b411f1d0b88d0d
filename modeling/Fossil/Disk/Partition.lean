import Fossil.Block
import Fossil.Venti.Score
import Fossil.Lib.Bytes

/-!
# The disk header and its partitions

`format` splits a device into four areas (`partition` in `format.go`): the 512-byte header at
`HeaderOffset`, one super block, the label partition and the data partition. `n` blocks past the
super block go to `lpb*n/(lpb+1)` data blocks and as many label blocks as their labels need, at
`lpb = bsize/LabelSize` labels a block. The header's arithmetic is `uint32`, modelled as `UInt32`:
for every block size `partition` admits it never wraps, and gives the unbounded values of
`layoutOf`.

`readRaw` and `writeRaw` (`disk.go`) address a block by partition and index through the header.
A header with a `Layout` (as `partition` builds, and as `unpackHeader` reads back what `pack`
wrote) makes the disk a block store: every accepted address is its own device block, inside the
device and past the header, so a write changes only the block it addresses, and after any run of
writes (`writeAll`) each block reads as the last buffer written to it (`lastWrite`). A disk that
`format` wrote and `allocDisk` opened has such a header.
-/

namespace Fossil.Partition

open Fossil.Block Fossil.Venti Bytes

def HeaderMagic : UInt32 := 0x3776ae89

def HeaderVersion : UInt16 := 1

/-- Byte offset of the header on the device. -/
def HeaderOffset : Nat := 128*1024

def HeaderSize : Nat := 512

/-- `EBadAddr`. -/
def EBadAddr : String := "illegal block address"

/-- `Header`: the block size and the block numbers where the partitions start; `end` is where the
data partition ends. -/
structure Header where
  version : UInt16
  blockSize : UInt16
  super : UInt32
  label : UInt32
  data : UInt32
  «end» : UInt32
deriving Repr, DecidableEq

/-! ## The header on disk -/

/-- `(*Header).pack`: the header's 512 bytes, zero past its fields. -/
def Header.pack (h : Header) (p : Buf) : Buf :=
  put32 (put32 (put32 (put32 (put16 (put16 (put32 (fill p 0 HeaderSize) 0 HeaderMagic) 4 HeaderVersion)
    6 h.blockSize) 8 h.super) 12 h.label) 16 h.data) 20 h.«end»

/-- `unpackHeader`. -/
def unpackHeader (p : Buf) : Except String Header :=
  if get32 p 0≠HeaderMagic then .error "vac header bad magic"
  else if get16 p 4≠HeaderVersion then .error "vac header bad version"
  else .ok ⟨get16 p 4,get16 p 6,get32 p 8,get32 p 12,get32 p 16,get32 p 20⟩

/-- `unpackHeader` reads only the header's first 24 bytes. -/
theorem unpackHeader_congr {p p' : Buf} (h : ∀ k<24, p k=p' k) : unpackHeader p=unpackHeader p' := by
  have h16 : ∀ o, o+2 ≤ 24 → get16 p o=get16 p' o := fun o ho =>
    get16_of_region (region_congr fun k _ hk => h k (by omega))
  have h32 : ∀ o, o+4 ≤ 24 → get32 p o=get32 p' o := fun o ho =>
    get32_of_region (region_congr fun k _ hk => h k (by omega))
  simp only [unpackHeader,h16 4 (by decide),h16 6 (by decide),h32 0 (by decide),h32 8 (by decide),
    h32 12 (by decide),h32 16 (by decide),h32 20 (by decide)]

/-- What `pack` writes unpacks to the header, under the version `pack` writes. -/
theorem unpackHeader_pack (h : Header) (p : Buf) :
    unpackHeader (h.pack p)=.ok { h with version := HeaderVersion } := by
  simp (disch := omega) only [unpackHeader,Header.pack,get32_put32_of_apart,get16_put16_of_apart,
    get32_put16_of_apart,get16_put32_of_apart,get32_put32,get16_put16,ne_eq,not_true_eq_false,
    if_false]

/-! ## The split

`partition` gives `n` blocks to data and labels at `k` labels a label block: `k*n/(k+1)` data
blocks, and the label blocks their labels need. Both together fit in the `n` blocks. -/

section Split

variable {k n : Nat}

/-- The data blocks of `n` blocks at `k` labels a block. -/
def dataBlocks (k n : Nat) : Nat := k*n/(k+1)

/-- The label blocks `d` labels take at `k` labels a block, rounded up. -/
def labelBlocks (k d : Nat) : Nat := (d+k-1)/k

/-- The label blocks hold a label for every data block. -/
theorem le_labelBlocks_mul (hk : 0<k) (d : Nat) : d ≤ labelBlocks k d*k := by
  have := Nat.lt_div_mul_add (a := d+k-1) hk
  unfold labelBlocks
  omega

theorem labelBlocks_mul_le (d : Nat) : labelBlocks k d*k ≤ d+k-1 :=
  Nat.div_mul_le_self _ _

theorem dataBlocks_mul_le (k n : Nat) : dataBlocks k n*(k+1) ≤ k*n :=
  Nat.div_mul_le_self _ _

/-- Data and label blocks together fit in the `n` blocks. -/
theorem dataBlocks_add_labelBlocks_le (hk : 0<k) : dataBlocks k n+labelBlocks k (dataBlocks k n) ≤ n := by
  have h1 := labelBlocks_mul_le (k := k) (dataBlocks k n)
  have h2 := dataBlocks_mul_le k n
  by_contra hc
  -- `k` times both sides: the labels' rounding is less than one block of `k`
  have h3 : (n+1)*k ≤ (dataBlocks k n+labelBlocks k (dataBlocks k n))*k := Nat.mul_le_mul_right k (by omega)
  have h4 : labelBlocks k (dataBlocks k n)*k+1 ≤ dataBlocks k n+k := by omega
  nlinarith

/-- Once `n` is large the data blocks leave `k` blocks to spare; below that they are fewer than
`k*k`. `partition` relies on it for `ndata+lpb-1` not to wrap. -/
theorem dataBlocks_add_le_or_lt (k n : Nat) : dataBlocks k n+k ≤ n ∨ dataBlocks k n<k*k := by
  have h := dataBlocks_mul_le k n
  by_cases hd : k*k ≤ dataBlocks k n
  · left
    nlinarith
  · exact .inr (by omega)

end Split

/-! ## `partition` -/

/-- `partition(fd, bsize)` on a device of `size` bytes (`devsize`). `fatalf` is an error; `none`
is the division by zero a zero `bsize` meets in `size / int64(bsize)`. -/
def partition (bsize size : Nat) : Option (Except String Header) :=
  if bsize%512≠0 then some (.error "block size must be a multiple of 512 bytes")
  else if bsize>MaxBlockSize then some (.error "block size must be less than 57344")
  else if bsize=0 then none
  else
    let lpb : UInt32 := bsize.toUInt32/LabelSize.toUInt32
    let nblock : UInt32 := (size/bsize).toUInt32
    if nblock<(HeaderOffset*10/bsize).toUInt32 then some (.error ("file too small: nblock="++toString nblock.toNat))
    else
      let super : UInt32 := (HeaderOffset.toUInt32+2*bsize.toUInt32)/bsize.toUInt32
      let label := super+1
      -- the product is taken in 64 bits
      let ndata : UInt32 := (lpb.toUInt64*(nblock-label).toUInt64/(lpb+1).toUInt64).toUInt32
      let nlabel := (ndata+lpb-1)/lpb
      let data := label+nlabel
      some (.ok { version := 0, blockSize := bsize.toUInt16, super, label, data, «end» := data+ndata })

/-- The layout `partition` computes for `nblock` blocks of `bsize` bytes, in unbounded arithmetic:
the super block, label, data and end block numbers. -/
def layoutOf (bsize nblock : Nat) : Nat×Nat×Nat×Nat :=
  let lpb := bsize/LabelSize
  let super := (HeaderOffset+2*bsize)/bsize
  let label := super+1
  let ndata := dataBlocks lpb (nblock-label)
  let data := label+labelBlocks lpb ndata
  (super,label,data,data+ndata)

/-- What the disk needs of a header on a device of `nblock` blocks: the super block lies past the
header, the super block, the labels and the data follow one another inside the device, and the
label partition holds a label for every data block. -/
structure Layout (h : Header) (nblock : Nat) : Prop where
  header_le : HeaderOffset+HeaderSize ≤ h.super.toNat*h.blockSize.toNat
  super_lt : h.super.toNat<h.label.toNat
  label_le : h.label.toNat ≤ h.data.toNat
  data_le : h.data.toNat ≤ h.«end».toNat
  end_le : h.«end».toNat ≤ nblock
  labels_cover : h.«end».toNat-h.data.toNat ≤ (h.data.toNat-h.label.toNat)*(h.blockSize.toNat/LabelSize)

/-! ### Words that do not wrap -/

theorem toNat_toUInt32_of_lt {n : Nat} (h : n<2^32) : n.toUInt32.toNat=n := by
  rw [Nat.toUInt32_eq,UInt32.toNat_ofNat',Nat.mod_eq_of_lt h]

theorem toNat_add_of_lt {a b : UInt32} (h : a.toNat+b.toNat<2^32) : (a+b).toNat=a.toNat+b.toNat := by
  rw [UInt32.toNat_add,Nat.mod_eq_of_lt h]

section Bounds

/-! The block sizes `partition` admits, and a device of at least `HeaderOffset*10/bsize` blocks. -/

variable {bsize nblock : Nat} (hpos : 512 ≤ bsize) (hmax : bsize ≤ MaxBlockSize)
  (hsmall : HeaderOffset*10/bsize ≤ nblock)
include hpos hmax

theorem labelsPerBlock_bounds : 36 ≤ bsize/LabelSize ∧ bsize/LabelSize ≤ 4096 := by
  unfold LabelSize MaxBlockSize at *
  omega

omit hmax in
/-- The super block starts past the header. -/
theorem header_le_super : HeaderOffset+HeaderSize ≤ (HeaderOffset+2*bsize)/bsize*bsize := by
  have := Nat.lt_div_mul_add (a := HeaderOffset+2*bsize) (b := bsize) (by omega)
  unfold HeaderOffset HeaderSize at *
  omega

/-- The super block's number: 258 at 512-byte blocks, down to 4 at the largest. -/
theorem super_bounds : 4 ≤ (HeaderOffset+2*bsize)/bsize ∧ (HeaderOffset+2*bsize)/bsize ≤ 258 := by
  unfold HeaderOffset MaxBlockSize at *
  constructor
  · exact (Nat.le_div_iff_mul_le (by omega)).mpr (by omega)
  · exact Nat.div_le_of_le_mul (by omega)

include hsmall

/-- The label partition starts inside the device. -/
theorem label_le_nblock : (HeaderOffset+2*bsize)/bsize+1 ≤ nblock := by
  have h1 : 10*((HeaderOffset+2*bsize)/bsize-2) ≤ HeaderOffset*10/bsize := by
    have h2 : (HeaderOffset+2*bsize)/bsize=HeaderOffset/bsize+2 := Nat.add_mul_div_right _ _ (by omega)
    rw [h2,Nat.add_sub_cancel,Nat.le_div_iff_mul_le (by omega)]
    have := Nat.div_mul_le_self HeaderOffset bsize
    nlinarith
  have := super_bounds hpos hmax
  omega

/-- The layout `partition` computes meets what the disk needs of it. -/
theorem layoutOf_spec {super label data e : Nat} (hl : layoutOf bsize nblock=(super,label,data,e)) :
    HeaderOffset+HeaderSize ≤ super*bsize ∧ super<label ∧ label ≤ data ∧ data ≤ e ∧ e ≤ nblock ∧
      e-data ≤ (data-label)*(bsize/LabelSize) := by
  simp only [layoutOf,Prod.mk.injEq] at hl
  obtain ⟨rfl,rfl,rfl,rfl⟩ := hl
  have hk := labelsPerBlock_bounds hpos hmax
  have hn := label_le_nblock hpos hmax hsmall
  have hfit := dataBlocks_add_labelBlocks_le (k := bsize/LabelSize) (n := nblock-((HeaderOffset+2*bsize)/bsize+1))
    (by omega)
  have hcover := le_labelBlocks_mul (k := bsize/LabelSize) (by omega)
    (dataBlocks (bsize/LabelSize) (nblock-((HeaderOffset+2*bsize)/bsize+1)))
  refine ⟨header_le_super hpos,by omega,by omega,by omega,by omega,?_⟩
  rw [Nat.add_sub_cancel_left,Nat.add_sub_cancel_left]
  exact hcover

/-- A header whose block numbers are `layoutOf`'s has a `Layout`. -/
theorem Layout.of_layoutOf {h : Header} (hb : h.blockSize.toNat=bsize)
    (he : (h.super.toNat,h.label.toNat,h.data.toNat,h.«end».toNat)=layoutOf bsize nblock) : Layout h nblock := by
  obtain ⟨h1,h2,h3,h4,h5,h6⟩ := layoutOf_spec hpos hmax hsmall he.symm
  exact ⟨hb ▸ h1,h2,h3,h4,h5,hb ▸ h6⟩

end Bounds

/-! ### `partition` does not wrap -/

/-- `partition`'s `uint32` arithmetic computes `layoutOf`: no operation wraps. -/
theorem partition_eq_layoutOf {bsize size : Nat} (hmul : bsize%512=0) (hpos : 512 ≤ bsize)
    (hmax : bsize ≤ MaxBlockSize) (hsmall : HeaderOffset*10/bsize ≤ size/bsize) (hbig : size/bsize<2^32) :
    ∃ h, partition bsize size=some (.ok h) ∧ h.blockSize.toNat=bsize ∧
      (h.super.toNat,h.label.toNat,h.data.toNat,h.«end».toNat)=layoutOf bsize (size/bsize) := by
  have hk := labelsPerBlock_bounds hpos hmax
  have hs := super_bounds hpos hmax
  have hn := label_le_nblock hpos hmax hsmall
  have hM : bsize<2^16 := by unfold MaxBlockSize at hmax; omega
  have hB : bsize.toUInt32.toNat=bsize := toNat_toUInt32_of_lt (by omega)
  have hlpb : (bsize.toUInt32/LabelSize.toUInt32).toNat=bsize/LabelSize := by
    rw [UInt32.toNat_div,hB]
    rfl
  have hN : (size/bsize).toUInt32.toNat=size/bsize := toNat_toUInt32_of_lt hbig
  have hsmall' : ¬(size/bsize).toUInt32<(HeaderOffset*10/bsize).toUInt32 := by
    have : HeaderOffset*10/bsize<2^32 := lt_of_le_of_lt hsmall hbig
    rw [UInt32.lt_iff_toNat_lt,hN,toNat_toUInt32_of_lt this]
    omega
  have h1 : (1 : UInt32).toNat=1 := rfl
  have hH : HeaderOffset.toUInt32.toNat=HeaderOffset := toNat_toUInt32_of_lt (by unfold HeaderOffset; omega)
  have h2 : (2*bsize.toUInt32).toNat=2*bsize := by
    rw [UInt32.toNat_mul,hB,show (2 : UInt32).toNat=2 from rfl,Nat.mod_eq_of_lt (by omega)]
  have hsuper : ((HeaderOffset.toUInt32+2*bsize.toUInt32)/bsize.toUInt32).toNat=(HeaderOffset+2*bsize)/bsize := by
    rw [UInt32.toNat_div,toNat_add_of_lt (by rw [hH,h2]; unfold HeaderOffset; omega),hH,h2,hB]
  simp only [partition,if_neg (show ¬bsize%512≠0 from not_not.mpr hmul),if_neg (show ¬bsize>MaxBlockSize by omega),
    if_neg (show ¬bsize=0 by omega),if_neg hsmall']
  refine ⟨_,rfl,by simp only [Nat.toUInt16_eq,UInt16.toNat_ofNat']; omega,?_⟩
  generalize bsize.toUInt32/LabelSize.toUInt32=lpb at hlpb ⊢
  generalize (size/bsize).toUInt32=nb at hN ⊢
  generalize (HeaderOffset.toUInt32+2*bsize.toUInt32)/bsize.toUInt32=sb at hsuper ⊢
  have hlabel : (sb+1).toNat=(HeaderOffset+2*bsize)/bsize+1 := by
    rw [toNat_add_of_lt (by rw [hsuper,h1]; omega),hsuper,h1]
  have hrest : (nb-(sb+1)).toNat=size/bsize-((HeaderOffset+2*bsize)/bsize+1) := by
    rw [UInt32.toNat_sub_of_le _ _ (by rw [UInt32.le_iff_toNat_le,hlabel,hN]; exact hn),hlabel,hN]
  generalize nb-(sb+1)=rest at hrest ⊢
  have hfit := dataBlocks_add_labelBlocks_le (k := bsize/LabelSize) (n := size/bsize-((HeaderOffset+2*bsize)/bsize+1))
    (by omega)
  have hwrap := dataBlocks_add_le_or_lt (bsize/LabelSize) (size/bsize-((HeaderOffset+2*bsize)/bsize+1))
  generalize hd : dataBlocks (bsize/LabelSize) (size/bsize-((HeaderOffset+2*bsize)/bsize+1))=d at hfit hwrap
  -- `ndata`: the 64-bit product is below `2^44`
  have hndata : (lpb.toUInt64*rest.toUInt64/(lpb+1).toUInt64).toUInt32.toNat=d := by
    have hl1 : (lpb+1).toNat=bsize/LabelSize+1 := by
      rw [toNat_add_of_lt (by rw [hlpb,h1]; omega),hlpb,h1]
    have hprod : bsize/LabelSize*(size/bsize-((HeaderOffset+2*bsize)/bsize+1))<2^64 :=
      calc _ ≤ 4096*2^32 := Nat.mul_le_mul hk.2 (by omega)
        _ < 2^64 := by norm_num
    rw [UInt64.toNat_toUInt32,UInt64.toNat_div,UInt64.toNat_mul,UInt32.toNat_toUInt64,UInt32.toNat_toUInt64,
      UInt32.toNat_toUInt64,hlpb,hrest,hl1,Nat.mod_eq_of_lt hprod,← dataBlocks,hd,Nat.mod_eq_of_lt (by omega)]
  generalize (lpb.toUInt64*rest.toUInt64/(lpb+1).toUInt64).toUInt32=nd at hndata ⊢
  -- `nlabel`: `ndata+lpb-1` does not wrap either
  have hnlabel : ((nd+lpb-1)/lpb).toNat=labelBlocks (bsize/LabelSize) d := by
    have hlt : d+bsize/LabelSize<2^32 := by
      rcases hwrap with hw | hw
      · omega
      · have : bsize/LabelSize*(bsize/LabelSize) ≤ 4096*4096 := Nat.mul_le_mul hk.2 hk.2
        omega
    have hsum : (nd+lpb).toNat=d+bsize/LabelSize := by
      rw [toNat_add_of_lt (by rw [hndata,hlpb]; exact hlt),hndata,hlpb]
    rw [UInt32.toNat_div,UInt32.toNat_sub_of_le _ _ (by rw [UInt32.le_iff_toNat_le,hsum,h1]; omega),hsum,hlpb,h1]
    rfl
  generalize (nd+lpb-1)/lpb=nl at hnlabel ⊢
  have hdata : (sb+1+nl).toNat=(HeaderOffset+2*bsize)/bsize+1+labelBlocks (bsize/LabelSize) d := by
    rw [toNat_add_of_lt (by rw [hlabel,hnlabel]; omega),hlabel,hnlabel]
  have hend : (sb+1+nl+nd).toNat=(HeaderOffset+2*bsize)/bsize+1+labelBlocks (bsize/LabelSize) d+d := by
    rw [toNat_add_of_lt (by rw [hdata,hndata]; omega),hdata,hndata]
  rw [hsuper,hlabel,hdata,hend]
  simp only [layoutOf,hd]

/-- `partition` on every block size it admits and every device of at least `HeaderOffset*10/bsize`
and fewer than `2^32` blocks: its `uint32` arithmetic does not wrap, the super block starts past
the header, the partitions follow one another inside the device, and the label partition holds a
label for every data block. -/
theorem partition_layout {bsize size : Nat} (hmul : bsize%512=0) (hpos : 512 ≤ bsize) (hmax : bsize ≤ MaxBlockSize)
    (hsmall : HeaderOffset*10/bsize ≤ size/bsize) (hbig : size/bsize<2^32) :
    ∃ h, partition bsize size=some (.ok h) ∧ h.blockSize.toNat=bsize ∧
      (h.super.toNat,h.label.toNat,h.data.toNat,h.«end».toNat)=layoutOf bsize (size/bsize) ∧ Layout h (size/bsize) := by
  obtain ⟨h,hp,hb,hl⟩ := partition_eq_layoutOf hmul hpos hmax hsmall hbig
  exact ⟨h,hp,hb,hl,Layout.of_layoutOf hpos hmax hsmall hb hl⟩

/-- `format -b 8192` on a 1 GiB device. -/
theorem partition_layout_8k :
    8192%512=0 ∧ 512 ≤ 8192 ∧ 8192 ≤ MaxBlockSize ∧ HeaderOffset*10/8192 ≤ 2^30/8192 ∧ 2^30/8192<2^32 ∧
      ∃ h, partition 8192 (2^30)=some (.ok h) ∧ h.blockSize.toNat=8192 ∧
        (h.super.toNat,h.label.toNat,h.data.toNat,h.«end».toNat)=layoutOf 8192 (2^30/8192) ∧
        Layout h (2^30/8192) :=
  ⟨by decide,by decide,by decide,by decide,by decide,
    partition_layout (by decide) (by decide) (by decide) (by decide) (by decide)⟩

/-! ## Reading and writing blocks -/

/-- A `Disk`: the header `allocDisk` read, and the device behind `fd`, its bytes and its length. -/
structure Disk where
  h : Header
  dev : Buf
  size : Nat

/-- `allocDisk`: unpack the `HeaderSize` bytes `pread` returns at `HeaderOffset`, zero past the
device's end. -/
def allocDisk (dev : Buf) (size : Nat) : Except String Disk :=
  match unpackHeader fun k => if HeaderOffset+k<size then dev (HeaderOffset+k) else 0 with
  | .error _ => .error "bad disk header"
  | .ok h => .ok ⟨h,dev,size⟩

/-- `(*Disk).partStart`; the error and Venti partitions are `panic("internal error")`. -/
def Disk.partStart (d : Disk) : Part → Option UInt32
  | .super => some d.h.super
  | .label => some d.h.label
  | .data => some d.h.data
  | _ => none

/-- `(*Disk).partEnd`. -/
def Disk.partEnd (d : Disk) : Part → Option UInt32
  | .super => some (d.h.super+1)
  | .label => some d.h.data
  | .data => some d.h.«end»
  | _ => none

/-- The address check and the byte offset `readRaw` and `writeRaw` share. -/
def Disk.rawOffset (d : Disk) (part : Part) (addr : UInt32) : Option (Except String Nat) := do
  let start ← d.partStart part
  let e ← d.partEnd part
  if addr ≥ e-start then return .error EBadAddr
  return .ok ((addr+start).toNat*d.h.blockSize.toNat)

/-- `(*Disk).readRaw`: `pread` until `blockSize` bytes have come; the device's end first is
`eof reading disk`. -/
def Disk.readRaw (d : Disk) (part : Part) (addr : UInt32) : Option (Except String (List UInt8)) :=
  (d.rawOffset part addr).map fun r => r.bind fun off =>
    if off+d.h.blockSize.toNat ≤ d.size then .ok (region d.dev off d.h.blockSize.toNat)
    else .error "eof reading disk"

/-- `(*Disk).writeRaw`: one `pwrite` of the whole buffer. A buffer shorter than `blockSize` is a
short write, reported after its bytes are written. -/
def Disk.writeRaw (d : Disk) (part : Part) (addr : UInt32) (buf : List UInt8) :
    Option (Except String Unit×Disk) :=
  (d.rawOffset part addr).map fun
    | .error e => (.error e,d)
    | .ok off =>
      (if buf.length<d.h.blockSize.toNat then .error "short write" else .ok (),{ d with dev := write d.dev off buf })

/-- A run of `writeRaw` calls, each on the disk the last one left; the first failure ends it. -/
def Disk.writeAll (d : Disk) : List (Part × UInt32 × List UInt8) → Option (Except String Unit × Disk)
  | [] => some (.ok (),d)
  | (part,addr,buf)::ws =>
    match d.writeRaw part addr buf with
    | some (.ok (),d') => d'.writeAll ws
    | r => r

/-- The buffer the run `ws` last wrote to block `addr` of `part`, if it wrote there. -/
def lastWrite (part : Part) (addr : UInt32) : List (Part × UInt32 × List UInt8) → Option (List UInt8)
  | [] => none
  | (p,a,buf)::ws => (lastWrite part addr ws).or (if part=p ∧ addr=a then some buf else none)

/-- The offsets depend on the header only. -/
theorem Disk.rawOffset_congr {d d' : Disk} (h : d.h=d'.h) : d.rawOffset=d'.rawOffset := by
  obtain ⟨h₁,_,_⟩ := d
  obtain ⟨h₂,_,_⟩ := d'
  simp only at h
  subst h
  rfl

section Store

/-! A disk whose header has a `Layout` on a device of at least `nblock` blocks. -/

variable {d : Disk} {nblock : Nat} (hl : Layout d.h nblock)
include hl

theorem blockSize_pos : 0<d.h.blockSize.toNat := by
  have := hl.header_le
  unfold HeaderOffset at this
  rcases Nat.eq_zero_or_pos d.h.blockSize.toNat with h | h
  · rw [h,Nat.mul_zero] at this
    omega
  · exact h

/-- Each partition runs from its start to its end inside the device; the super partition is
one block. -/
theorem partStart_le_partEnd {part : Part} {s e : UInt32} (hs : d.partStart part=some s)
    (he : d.partEnd part=some e) : s.toNat ≤ e.toNat ∧ e.toNat ≤ nblock := by
  have h1 := hl.super_lt
  have h2 := hl.label_le
  have h3 := hl.data_le
  have h4 := hl.end_le
  cases part <;> simp only [Disk.partStart,Disk.partEnd,Option.some.injEq,reduceCtorEq] at hs he <;> subst hs he
  · have : (d.h.super+1).toNat=d.h.super.toNat+1 := toNat_add_of_lt (by have := d.h.label.toNat_lt; simp; omega)
    omega
  all_goals omega

/-- An address is accepted when it lies inside its partition; the offset is its block's, with no
wrap in `addr+start`. -/
theorem rawOffset_eq {part : Part} {s e : UInt32} (hs : d.partStart part=some s) (he : d.partEnd part=some e)
    (addr : UInt32) :
    d.rawOffset part addr=some (if addr.toNat<e.toNat-s.toNat then .ok ((addr.toNat+s.toNat)*d.h.blockSize.toNat)
      else .error EBadAddr) := by
  obtain ⟨hse,-⟩ := partStart_le_partEnd hl hs he
  have hsub : (e-s).toNat=e.toNat-s.toNat := UInt32.toNat_sub_of_le _ _ (UInt32.le_iff_toNat_le.mpr hse)
  simp only [Disk.rawOffset,hs,he,Option.bind_eq_bind,Option.bind_some,UInt32.le_iff_toNat_le,hsub,ge_iff_le,
    Option.pure_def]
  by_cases ha : addr.toNat<e.toNat-s.toNat
  · have := e.toNat_lt
    rw [if_neg (by omega),if_pos ha,toNat_add_of_lt (by omega)]
  · rw [if_pos (by omega),if_neg ha]

/-- An accepted address names block `addr+start` of its partition. -/
theorem rawOffset_eq_ok {part : Part} {addr : UInt32} {off : Nat} (h : d.rawOffset part addr=some (.ok off)) :
    ∃ s e, d.partStart part=some s ∧ d.partEnd part=some e ∧ addr.toNat<e.toNat-s.toNat ∧
      off=(addr.toNat+s.toNat)*d.h.blockSize.toNat := by
  cases hs : d.partStart part with
  | none => simp [Disk.rawOffset,hs] at h
  | some s =>
    cases he : d.partEnd part with
    | none => simp [Disk.rawOffset,hs,he] at h
    | some e =>
      rw [rawOffset_eq hl hs he] at h
      split_ifs at h with ha
      · exact ⟨s,e,rfl,rfl,ha,by injection h with h; injection h with h; exact h.symm⟩
      · cases h

/-- Two accepted addresses with one offset are one address: the partitions do not overlap. -/
theorem rawOffset_inj {part part' : Part} {addr addr' : UInt32} {off : Nat}
    (h : d.rawOffset part addr=some (.ok off)) (h' : d.rawOffset part' addr'=some (.ok off)) :
    part=part' ∧ addr=addr' := by
  obtain ⟨s,e,hs,he,ha,ho⟩ := rawOffset_eq_ok hl h
  obtain ⟨s',e',hs',he',ha',ho'⟩ := rawOffset_eq_ok hl h'
  have hb := blockSize_pos hl
  have hk : addr.toNat+s.toNat=addr'.toNat+s'.toNat := Nat.eq_of_mul_eq_mul_right hb (ho.symm.trans ho')
  have h1 := hl.super_lt
  have h2 := hl.label_le
  have hsup : (d.h.super+1).toNat=d.h.super.toNat+1 := toNat_add_of_lt (by have := d.h.label.toNat_lt; simp; omega)
  cases part <;> cases part' <;> simp only [Disk.partStart,Disk.partEnd,Option.some.injEq,reduceCtorEq] at hs he hs' he' <;>
    subst hs he hs' he' <;> first | omega | exact ⟨rfl,UInt32.toNat_inj.mp (by omega)⟩

/-- Every accepted block lies inside the device and past the header. -/
theorem rawOffset_bounds {part : Part} {addr : UInt32} {off : Nat} (h : d.rawOffset part addr=some (.ok off)) :
    HeaderOffset+HeaderSize ≤ off ∧ off+d.h.blockSize.toNat ≤ nblock*d.h.blockSize.toNat := by
  obtain ⟨s,e,hs,he,ha,rfl⟩ := rawOffset_eq_ok hl h
  obtain ⟨-,hen⟩ := partStart_le_partEnd hl hs he
  have hsup : d.h.super.toNat ≤ s.toNat := by
    have := hl.super_lt
    have := hl.label_le
    cases part <;> simp only [Disk.partStart,Option.some.injEq,reduceCtorEq] at hs <;> subst hs <;> omega
  constructor
  · calc HeaderOffset+HeaderSize ≤ d.h.super.toNat*d.h.blockSize.toNat := hl.header_le
      _ ≤ (addr.toNat+s.toNat)*d.h.blockSize.toNat := Nat.mul_le_mul_right _ (by omega)
  · have := Nat.mul_le_mul_right d.h.blockSize.toNat (show addr.toNat+s.toNat+1 ≤ nblock by omega)
    rw [Nat.succ_mul] at this
    exact this

/-- Blocks at two offsets `rawOffset` accepts are one block or apart. -/
theorem rawOffset_apart {part part' : Part} {addr addr' : UInt32} {off off' : Nat}
    (h : d.rawOffset part addr=some (.ok off)) (h' : d.rawOffset part' addr'=some (.ok off')) (hne : off≠off') :
    off+d.h.blockSize.toNat ≤ off' ∨ off'+d.h.blockSize.toNat ≤ off := by
  obtain ⟨s,e,-,-,-,rfl⟩ := rawOffset_eq_ok hl h
  obtain ⟨s',e',-,-,-,rfl⟩ := rawOffset_eq_ok hl h'
  have hk : addr.toNat+s.toNat≠addr'.toNat+s'.toNat := fun hk => hne (by rw [hk])
  rcases Nat.lt_or_gt_of_ne hk with hk | hk
  · have := Nat.mul_le_mul_right d.h.blockSize.toNat hk
    rw [Nat.succ_mul] at this
    exact .inl this
  · have := Nat.mul_le_mul_right d.h.blockSize.toNat hk
    rw [Nat.succ_mul] at this
    exact .inr this

variable (hsize : nblock*d.h.blockSize.toNat ≤ d.size)
include hsize

/-- A read inside a partition never meets the device's end. -/
theorem readRaw_of_rawOffset {part : Part} {addr : UInt32} {off : Nat} (h : d.rawOffset part addr=some (.ok off)) :
    d.readRaw part addr=some (.ok (region d.dev off d.h.blockSize.toNat)) := by
  have := (rawOffset_bounds hl h).2
  simp only [Disk.readRaw,h,Option.map_some,Except.bind,if_pos (show off+d.h.blockSize.toNat ≤ d.size by omega)]

/-- Writing a block and reading any block back: the block written reads as the buffer, every other
block as before. -/
theorem readRaw_writeRaw {part : Part} {addr : UInt32} {off : Nat} (h : d.rawOffset part addr=some (.ok off))
    {buf : List UInt8} (hb : buf.length=d.h.blockSize.toNat) :
    ∃ d', d.writeRaw part addr buf=some (.ok (),d') ∧ d'.h=d.h ∧ d'.size=d.size ∧ ∀ part' addr',
      d'.readRaw part' addr'=if part'=part ∧ addr'=addr then some (.ok buf) else d.readRaw part' addr' := by
  refine ⟨{ d with dev := write d.dev off buf },by simp only [Disk.writeRaw,h,Option.map_some,hb,Nat.lt_irrefl,
    if_false],rfl,rfl,fun part' addr' => ?_⟩
  have hoff : ∀ p a, ({ d with dev := write d.dev off buf } : Disk).rawOffset p a=d.rawOffset p a := fun _ _ => rfl
  have hl' : Layout ({ d with dev := write d.dev off buf } : Disk).h nblock := hl
  split_ifs with hpa
  · obtain ⟨rfl,rfl⟩ := hpa
    rw [readRaw_of_rawOffset hl' hsize ((hoff _ _).trans h)]
    simp only [← hb,region_write_same]
  · cases h' : d.rawOffset part' addr' with
    | none => simp only [Disk.readRaw,hoff,h',Option.map_none]
    | some r =>
      cases r with
      | error e => simp only [Disk.readRaw,hoff,h',Option.map_some,Except.bind]
      | ok off' =>
        have hne : off'≠off := fun he => hpa (rawOffset_inj hl (he ▸ h') h)
        rw [readRaw_of_rawOffset hl' hsize ((hoff _ _).trans h'),readRaw_of_rawOffset hl hsize h']
        have hr : region (write d.dev off buf) off' d.h.blockSize.toNat=region d.dev off' d.h.blockSize.toNat :=
          region_write_disjoint (by rw [hb]; exact rawOffset_apart hl h' h hne)
        rw [hr]

/-- Over a run of whole-block writes to accepted addresses, the run succeeds and every block then
reads as the buffer last written to it, or as before when none was. By induction on the run: each
write keeps the header, hence the layout and the offsets the later writes are accepted at. -/
theorem readRaw_writeAll : ∀ ws : List (Part × UInt32 × List UInt8),
    (∀ w ∈ ws, (∃ off, d.rawOffset w.1 w.2.1=some (.ok off)) ∧ w.2.2.length=d.h.blockSize.toNat) →
    ∃ d', d.writeAll ws=some (.ok (),d') ∧ ∀ part addr,
      d'.readRaw part addr=(lastWrite part addr ws).elim (d.readRaw part addr) fun buf => some (.ok buf) := by
  intro ws
  induction ws generalizing d with
  | nil => exact fun _ => ⟨d,rfl,fun _ _ => rfl⟩
  | cons w ws ih =>
    obtain ⟨part₀,addr₀,buf⟩ := w
    intro hws
    obtain ⟨⟨off,hoff⟩,hlen⟩ := hws _ List.mem_cons_self
    obtain ⟨d₁,hw₁,hh,hs,hr₁⟩ := readRaw_writeRaw hl hsize hoff hlen
    have hl₁ : Layout d₁.h nblock := hh ▸ hl
    have hsize₁ : nblock*d₁.h.blockSize.toNat ≤ d₁.size := by rw [hh,hs]; exact hsize
    obtain ⟨d',hw',hr'⟩ := ih hl₁ hsize₁ fun w hw => by
      rw [Disk.rawOffset_congr hh,hh]
      exact hws w (List.mem_cons_of_mem _ hw)
    refine ⟨d',by simp only [Disk.writeAll,hw₁,hw'],fun part addr => ?_⟩
    rw [hr']
    cases hlast : lastWrite part addr ws with
    | some b => simp [lastWrite,hlast]
    | none =>
      simp only [lastWrite,hlast,Option.none_or,Option.elim,hr₁]
      split_ifs <;> rfl

end Store

/-! ## Opening a formatted disk -/

/-- `format` packs the header `partition` built into its `bsize`-byte buffer and writes the
buffer at `HeaderOffset`; `allocDisk` then reads back the header, under `HeaderVersion`, and it has
a `Layout` on the device. -/
theorem allocDisk_format {bsize size : Nat} (hmul : bsize%512=0) (hpos : 512 ≤ bsize) (hmax : bsize ≤ MaxBlockSize)
    (hsmall : HeaderOffset*10/bsize ≤ size/bsize) (hbig : size/bsize<2^32) (dev buf : Buf) :
    ∃ h d, partition bsize size=some (.ok h) ∧
      allocDisk (write dev HeaderOffset (region (h.pack buf) 0 bsize)) size=.ok d ∧
      d.h={ h with version := HeaderVersion } ∧ d.h.blockSize.toNat=bsize ∧ Layout d.h (size/bsize) ∧
      size/bsize*d.h.blockSize.toNat ≤ d.size := by
  obtain ⟨h,hp,hb,hl⟩ := partition_eq_layoutOf hmul hpos hmax hsmall hbig
  have hlen : HeaderOffset+24<size := by
    have h1 := Nat.div_mul_le_self size bsize
    have h2 := Nat.lt_div_mul_add (a := HeaderOffset*10) (b := bsize) (by omega)
    have h3 := Nat.mul_le_mul_right bsize hsmall
    unfold HeaderOffset MaxBlockSize at *
    omega
  have hread : unpackHeader (fun k => if HeaderOffset+k<size then write dev HeaderOffset (region (h.pack buf) 0 bsize)
      (HeaderOffset+k) else 0)=unpackHeader (h.pack buf) := by
    apply unpackHeader_congr
    intro k hk
    have hkl : k<(region (h.pack buf) 0 bsize).length := by rw [region_length]; omega
    rw [if_pos (by omega),write_of_lt hkl,List.getD_eq_getElem _ _ hkl,region_getElem,Nat.zero_add]
  refine ⟨h,_,hp,by rw [allocDisk,hread,unpackHeader_pack],rfl,hb,Layout.of_layoutOf hpos hmax hsmall hb hl,?_⟩
  show size/bsize*h.blockSize.toNat ≤ size
  rw [hb]
  exact Nat.div_mul_le_self size bsize

/-- A disk `format` wrote is, once `allocDisk` opens it, a block store: `allocDisk` reads back the
header `partition` built, and any run of writes of whole `bsize`-byte blocks to addresses the
header accepts succeeds, after which every block reads as the buffer last written to it, or as the
device held it when none was. -/
theorem formatted_disk_store {bsize size : Nat} (hmul : bsize%512=0) (hpos : 512 ≤ bsize)
    (hmax : bsize ≤ MaxBlockSize) (hsmall : HeaderOffset*10/bsize ≤ size/bsize) (hbig : size/bsize<2^32)
    (dev buf : Buf) :
    ∃ h d, partition bsize size=some (.ok h) ∧
      allocDisk (write dev HeaderOffset (region (h.pack buf) 0 bsize)) size=.ok d ∧
      d.h={ h with version := HeaderVersion } ∧
      ∀ ws : List (Part × UInt32 × List UInt8),
        (∀ w ∈ ws, (∃ off, d.rawOffset w.1 w.2.1=some (.ok off)) ∧ w.2.2.length=bsize) →
        ∃ d', d.writeAll ws=some (.ok (),d') ∧ ∀ part addr,
          d'.readRaw part addr=(lastWrite part addr ws).elim (d.readRaw part addr) fun blk => some (.ok blk) := by
  obtain ⟨h,d,hp,ha,hh,hb,hl,hsize⟩ := allocDisk_format hmul hpos hmax hsmall hbig dev buf
  refine ⟨h,d,hp,ha,hh,fun ws hws => readRaw_writeAll hl hsize ws fun w hw => ⟨(hws w hw).1,?_⟩⟩
  rw [hb]
  exact (hws w hw).2

theorem formatted_disk_store_8k :
    8192%512=0 ∧ 512 ≤ 8192 ∧ 8192 ≤ MaxBlockSize ∧ HeaderOffset*10/8192 ≤ 2^21/8192 ∧ 2^21/8192<2^32 ∧
      ∃ h d, partition 8192 (2^21)=some (.ok h) ∧
        allocDisk (write (fun _ => 0) HeaderOffset (region (h.pack fun _ => 0) 0 8192)) (2^21)=.ok d ∧
        d.h={ h with version := HeaderVersion } ∧
        ∀ ws : List (Part × UInt32 × List UInt8),
          (∀ w ∈ ws, (∃ off, d.rawOffset w.1 w.2.1=some (.ok off)) ∧ w.2.2.length=8192) →
          ∃ d', d.writeAll ws=some (.ok (),d') ∧ ∀ part addr,
            d'.readRaw part addr=(lastWrite part addr ws).elim (d.readRaw part addr) fun blk => some (.ok blk) :=
  ⟨by decide,by decide,by decide,by decide,by decide,
    formatted_disk_store (by decide) (by decide) (by decide) (by decide) (by decide) (fun _ => 0) (fun _ => 0)⟩

end Fossil.Partition
