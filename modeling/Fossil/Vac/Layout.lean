import Fossil.Vac.MetaBlock
import Fossil.Lib.Extent
import Fossil.Lib.Sorted

/-!
# The layout of a meta block

What the index table of a meta block says: the entries in slot order, the bytes of each and the
name each records. A block is valid when the table fits, every entry lies past the table and
below `size` and starts with `DirMagic`, the entries do not overlap, `free` counts the bytes
between them, and, for a block that is not old, the names increase.

A buffer that holds the table and every entry as the block does keeps the block valid with the
same entries; a range past the table that meets no entry is free for a new one. Packing writes
the header only, and `unpackMetaBlock` accepts what it wrote.
-/

namespace Fossil.Vac

open Bytes Extent

/-- The entry slot `i` of the table in `buf` names. -/
def slotEntry (buf : Buf) (i : Nat) : MetaEntry :=
  ⟨(get16 buf (slot i)).toNat,get16 buf (slot i+2)⟩

/-- The slots in use, in table order. -/
def entries (mb : MetaBlock) : List MetaEntry :=
  (List.range mb.nindex).map (slotEntry mb.buf)

/-- The range an entry takes. -/
def MetaEntry.extent (me : MetaEntry) : Nat × Nat :=
  (me.offset,me.size.toNat)

/-- The bytes of an entry: what `unpackDirEntry` decodes. -/
def content (buf : Buf) (me : MetaEntry) : List UInt8 :=
  region buf me.offset me.size.toNat

/-- The bytes of the entries, in table order. -/
def contents (mb : MetaBlock) : List (List UInt8) :=
  (entries mb).map (content mb.buf)

/-- The name an entry's bytes record: the string after the magic and the version, whose length
stands in bytes 6 and 7. -/
def nameOf (c : List UInt8) : List UInt8 :=
  (c.drop 8).take ((c.getD 6 0).toNat*256+(c.getD 7 0).toNat)

/-- A name as numbers, ordered lexicographically. -/
def key (s : List UInt8) : List Nat :=
  s.map UInt8.toNat

/-- The names of the entries, in table order. -/
def names (mb : MetaBlock) : List (List UInt8) :=
  (contents mb).map nameOf

/-- The meta block invariant. -/
structure Valid (mb : MetaBlock) : Prop where
  maxsize_lt : mb.maxsize < 2^16
  nindex_le : mb.nindex ≤ mb.maxindex
  size_le : mb.size ≤ mb.maxsize
  entry_ok : ∀ me ∈ entries mb, 8 ≤ me.size.toNat ∧ Within mb.omin mb.size me.extent ∧
    get32 mb.buf me.offset=DirMagic
  apart : (entries mb).Pairwise fun a b => Apart a.extent b.extent
  free_eq : mb.free+mb.omin+((entries mb).map fun me => me.size.toNat).sum=mb.size
  sorted : mb.botch=false → ((names mb).map key).Pairwise (· < ·)

/-- The fields an operation leaves alone: the block size, the table size and the kind. -/
structure Shape (mb mb' : MetaBlock) : Prop where
  maxsize : mb'.maxsize=mb.maxsize
  maxindex : mb'.maxindex=mb.maxindex
  botch : mb'.botch=mb.botch

theorem Shape.refl (mb : MetaBlock) : Shape mb mb :=
  ⟨rfl,rfl,rfl⟩

theorem Shape.trans {mb mb' mb'' : MetaBlock} (h : Shape mb mb') (h' : Shape mb' mb'') : Shape mb mb'' :=
  ⟨h'.maxsize.trans h.maxsize,h'.maxindex.trans h.maxindex,h'.botch.trans h.botch⟩

theorem Shape.omin_eq {mb mb' : MetaBlock} (h : Shape mb mb') : mb'.omin=mb.omin := by
  simp [MetaBlock.omin,h.maxindex]

@[simp] theorem length_entries (mb : MetaBlock) : (entries mb).length=mb.nindex := by
  simp [entries]

@[simp] theorem getElem_entries (mb : MetaBlock) (i : Nat) (h : i < (entries mb).length) :
    (entries mb)[i]=slotEntry mb.buf i := by
  simp [entries]

@[simp] theorem length_contents (mb : MetaBlock) : (contents mb).length=mb.nindex := by
  simp [contents]

@[simp] theorem extent_offset (me : MetaEntry) : me.extent.1=me.offset := rfl

@[simp] theorem extent_size (me : MetaEntry) : me.extent.2=me.size.toNat := rfl

@[simp] theorem content_length (buf : Buf) (me : MetaEntry) : (content buf me).length=me.size.toNat := by
  simp [content]

theorem mem_entries {mb : MetaBlock} {me : MetaEntry} :
    me ∈ entries mb ↔ ∃ i < mb.nindex, slotEntry mb.buf i=me := by
  simp [entries]

/-- Slot `i` lies in the table when `i` is below its size. -/
theorem slot_add_le_omin {mb : MetaBlock} {i : Nat} (h : i < mb.maxindex) :
    slot i+MetaIndexSize ≤ mb.omin := by
  unfold slot MetaBlock.omin MetaHeaderSize MetaIndexSize
  omega

/-- A slot's entry depends only on the slot's four bytes. -/
theorem slotEntry_of_region {b b' : Buf} {i j : Nat} (h : region b (slot i) 4=region b' (slot j) 4) :
    slotEntry b i=slotEntry b' j := by
  have h0 : region b (slot i) 2=region b' (slot j) 2 := by
    rw [← region_take b _ (show 2 ≤ 4 by omega),← region_take b' _ (show 2 ≤ 4 by omega),h]
  have h2 : region b (slot i+2) 2=region b' (slot j+2) 2 := by
    rw [← region_drop b _ (show 2 ≤ 4 by omega),← region_drop b' _ (show 2 ≤ 4 by omega),h]
  unfold slotEntry
  rw [get16_of_region h0,get16_of_region h2]

/-- An entry's first four bytes, as its content holds them. -/
theorem region_magic {buf : Buf} {me : MetaEntry} (h : 4 ≤ me.size.toNat) :
    region buf me.offset 4=(content buf me).take 4 :=
  (region_take buf _ h).symm

/-- Entries with the same bytes start with the same magic. -/
theorem get32_of_content {b b' : Buf} {me me' : MetaEntry} (h4 : 4 ≤ me.size.toNat)
    (hs : me'.size=me.size) (h : content b' me'=content b me) : get32 b' me'.offset=get32 b me.offset := by
  apply get32_of_region
  rw [region_magic (hs ▸ h4),region_magic h4,h]

/-- The entry of a slot in use is an entry. -/
theorem slot_mem {mb : MetaBlock} {i : Nat} (hi : i < mb.nindex) : slotEntry mb.buf i ∈ entries mb :=
  mem_entries.mpr ⟨i,hi,rfl⟩

section Valid

variable {mb : MetaBlock} (hv : Valid mb)
include hv

theorem Valid.sum_le : ((entries mb).map fun me => me.size.toNat).sum+mb.omin ≤ mb.size := by
  have := hv.free_eq
  omega

theorem Valid.omin_le_size : mb.omin ≤ mb.size := by
  have := hv.free_eq
  omega

theorem Valid.omin_lt : mb.omin < 2^16 :=
  lt_of_le_of_lt (hv.omin_le_size.trans hv.size_le) hv.maxsize_lt

theorem Valid.nindex_lt : mb.nindex < 2^14 := by
  have h := hv.omin_lt
  have := hv.nindex_le
  unfold MetaBlock.omin MetaHeaderSize MetaIndexSize at h
  omega

theorem Valid.slot_le_omin : slot mb.nindex ≤ mb.omin := by
  have := hv.nindex_le
  unfold slot MetaBlock.omin MetaHeaderSize MetaIndexSize
  omega

/-- The extents of the entries are pairwise apart and lie within `[omin, size)`. -/
theorem Valid.extents_apart : ((entries mb).map MetaEntry.extent).Pairwise Apart :=
  List.pairwise_map.mpr hv.apart

theorem Valid.entry_size {me : MetaEntry} (h : me ∈ entries mb) : 8 ≤ me.size.toNat :=
  (hv.entry_ok me h).1

theorem Valid.entry_within {me : MetaEntry} (h : me ∈ entries mb) : Within mb.omin mb.size me.extent :=
  (hv.entry_ok me h).2.1

/-- Two slots in use name entries apart. -/
theorem Valid.slot_apart {i j : Nat} (hi : i < mb.nindex) (hj : j < mb.nindex) (hij : i≠j) :
    Apart (slotEntry mb.buf i).extent (slotEntry mb.buf j).extent := by
  have h := List.pairwise_iff_getElem.mp hv.apart
  rcases Nat.lt_or_gt_of_ne hij with hlt | hlt
  · have := h i j (by simpa using hi) (by simpa using hj) hlt
    rwa [getElem_entries,getElem_entries] at this
  · have := h j i (by simpa using hj) (by simpa using hi) hlt
    rw [getElem_entries,getElem_entries] at this
    exact this.symm

/-- The sizes of entries within `[omin, hi)` fit there. -/
theorem Valid.sum_le_of_within {hi : Nat} (h : ∀ me ∈ entries mb, Within mb.omin hi me.extent) :
    ((entries mb).map fun me => me.size.toNat).sum ≤ hi-mb.omin := by
  have := Extent.sum_le_of_within hv.extents_apart (by simpa using h)
  simpa [Function.comp_def] using this

end Valid

/-! ## Buffers that keep a block -/

/-- `b` holds the table in use and every entry as the block's buffer does. -/
structure Keeps (mb : MetaBlock) (b : Buf) : Prop where
  table : ∀ k, MetaHeaderSize ≤ k → k < slot mb.nindex → b k=mb.buf k
  data : ∀ me ∈ entries mb, ∀ k, me.offset ≤ k → k < me.offset+me.size.toNat → b k=mb.buf k

section Keeps

variable {mb : MetaBlock} {b : Buf} (hk : Keeps mb b)
include hk

theorem Keeps.slotEntry_eq {i : Nat} (hi : i < mb.nindex) : slotEntry b i=slotEntry mb.buf i := by
  apply slotEntry_of_region
  apply region_congr
  intro k hk1 hk2
  apply hk.table k
  · unfold slot at hk1
    omega
  · unfold slot MetaIndexSize at *
    omega

theorem Keeps.entries_eq : entries { mb with buf := b }=entries mb := by
  unfold entries
  dsimp only
  apply List.map_congr_left
  intro i hi
  rw [List.mem_range] at hi
  exact hk.slotEntry_eq hi

theorem Keeps.content_eq {me : MetaEntry} (h : me ∈ entries mb) : content b me=content mb.buf me :=
  region_congr fun k h1 h2 => hk.data me h k h1 h2

theorem Keeps.contents_eq : contents { mb with buf := b }=contents mb := by
  unfold contents
  rw [hk.entries_eq]
  exact List.map_congr_left fun me h => hk.content_eq h

theorem Keeps.valid (hv : Valid mb) : Valid { mb with buf := b } where
  maxsize_lt := hv.maxsize_lt
  nindex_le := hv.nindex_le
  size_le := hv.size_le
  entry_ok := by
    rw [hk.entries_eq]
    intro me h
    obtain ⟨h8,hw,hm⟩ := hv.entry_ok me h
    refine ⟨h8,hw,?_⟩
    rw [← hm]
    exact get32_of_content (by omega) rfl (hk.content_eq h)
  apart := by
    rw [hk.entries_eq]
    exact hv.apart
  free_eq := by
    rw [hk.entries_eq]
    exact hv.free_eq
  sorted := by
    unfold names
    rw [hk.contents_eq]
    exact hv.sorted

end Keeps

/-- `[o, o+n)` lies past the table and within the block, and meets no entry. -/
def Free (mb : MetaBlock) (o n : Nat) : Prop :=
  mb.omin ≤ o ∧ o+n ≤ mb.maxsize ∧ ∀ me ∈ entries mb, Apart (o,n) me.extent

/-- Writing into a free range keeps the block. -/
theorem keeps_write {mb : MetaBlock} (hv : Valid mb) {o : Nat} {l : List UInt8} (hf : Free mb o l.length) :
    Keeps mb (write mb.buf o l) where
  table := fun k _ hk => write_of_not_mem (Or.inl (by have := hv.slot_le_omin; unfold Free at hf; omega))
  data := fun me h k h1 h2 => write_of_not_mem (by
    have := hf.2.2 me h
    unfold Apart at this
    simp only [extent_offset,extent_size] at this
    omega)

/-- Writing the header keeps the block. -/
theorem keeps_header {mb : MetaBlock} (hv : Valid mb) {b : Buf} (h : ∀ k, MetaHeaderSize ≤ k → b k=mb.buf k) :
    Keeps mb b where
  table := fun k hk _ => h k hk
  data := fun me hme k h1 _ => h k (by
    have := (hv.entry_within hme).1
    unfold MetaBlock.omin at this
    simp only [extent_offset] at this
    omega)

/-! ## Packing -/

theorem put16_of_le {b : Buf} {o k : Nat} {v : UInt16} (h : o+2 ≤ k) : put16 b o v k=b k :=
  write_of_not_mem (Or.inr (by simpa using h))

theorem put32_of_le {b : Buf} {o k : Nat} {v : UInt32} (h : o+4 ≤ k) : put32 b o v k=b k :=
  write_of_not_mem (Or.inr (by simpa using h))

theorem botch_of_pack {mb mb' : MetaBlock} (h : pack mb=some mb') : mb.botch=false := by
  cases hb : mb.botch
  · rfl
  · simp [pack,hb] at h

/-- The buffer `pack` writes. -/
theorem pack_eq {mb : MetaBlock} (hb : mb.botch=false) :
    pack mb=some { mb with buf := put16 (put16 (put16 (put16 (put32 mb.buf 0 MetaMagic) 4 mb.size.toUInt16)
      6 mb.free.toUInt16) 8 mb.maxindex.toUInt16) 10 mb.nindex.toUInt16 } := by
  simp [pack,hb]

theorem get32_put16_of_le {b : Buf} {o o' : Nat} {w : UInt16} (h : o+4 ≤ o') :
    get32 (put16 b o' w) o=get32 b o := by
  apply get32_of_region
  exact region_write_disjoint (Or.inl h)

theorem get32_put32_metaMagic (b : Buf) : get32 (put32 b 0 MetaMagic) 0=MetaMagic := by
  have href : region (put32 (fun _ => 0) 0 MetaMagic) 0 4=region (put32 b 0 MetaMagic) 0 4 := by
    rw [put32,put32]
    exact (region_write_same _ 0 (be32 MetaMagic)).trans (region_write_same b 0 (be32 MetaMagic)).symm
  rw [← get32_of_region href]
  decide

/-- `pack` writes the header fields and nothing from offset 12 on. -/
theorem pack_header {mb mb' : MetaBlock} (h : pack mb=some mb') :
    mb'={ mb with buf := mb'.buf } ∧ mb.botch=false ∧ (∀ k, MetaHeaderSize ≤ k → mb'.buf k=mb.buf k) ∧
      get32 mb'.buf 0=MetaMagic ∧ get16 mb'.buf 4=mb.size.toUInt16 ∧ get16 mb'.buf 6=mb.free.toUInt16 ∧
      get16 mb'.buf 8=mb.maxindex.toUInt16 ∧ get16 mb'.buf 10=mb.nindex.toUInt16 := by
  have hb := botch_of_pack h
  rw [pack_eq hb,Option.some_inj] at h
  subst h
  refine ⟨rfl,hb,fun k hk => ?_,?_,?_,?_,?_,get16_put16 _ _ _⟩
  · unfold MetaHeaderSize at hk
    simp (disch := omega) only [put16_of_le,put32_of_le]
  · simp (disch := omega) only [get32_put16_of_le,get32_put32_metaMagic]
  · simp (disch := omega) only [get16_put16_of_apart,get16_put16]
  · simp (disch := omega) only [get16_put16_of_apart,get16_put16]
  · simp (disch := omega) only [get16_put16_of_apart,get16_put16]

/-- Packing a valid block keeps it valid with the same entries. -/
theorem pack_spec {mb mb' : MetaBlock} (hv : Valid mb) (h : pack mb=some mb') :
    Valid mb' ∧ Shape mb mb' ∧ entries mb'=entries mb ∧ contents mb'=contents mb ∧
      mb'.size=mb.size ∧ mb'.nindex=mb.nindex := by
  obtain ⟨hmb,-,hhead,-⟩ := pack_header h
  have hk := keeps_header hv hhead
  rw [hmb]
  exact ⟨hk.valid hv,⟨rfl,rfl,rfl⟩,hk.entries_eq,hk.contents_eq,rfl,rfl⟩

/-- The slot check of `unpackMetaBlock` passes on a valid block's buffer. -/
theorem slotsOk_of_valid {mb : MetaBlock} (hv : Valid mb) : slotsOk mb.buf mb.omin mb.size mb.nindex=true := by
  unfold slotsOk
  rw [List.all_eq_true]
  intro i hi
  rw [List.mem_range] at hi
  obtain ⟨h8,⟨hw1,hw2⟩,hm⟩ := hv.entry_ok _ (slot_mem hi)
  simp only [extent_offset,extent_size,slotEntry] at h8 hw1 hw2 hm
  simp only [hm,beq_self_eq_true,Bool.and_true,decide_eq_true_eq]
  omega

/-- `unpackMetaBlock` reads a valid block back from a buffer that holds its header. -/
theorem unpackMetaBlock_of_header {mb : MetaBlock} (hv : Valid mb) (hb : mb.botch=false)
    (hm : get32 mb.buf 0=MetaMagic) (h4 : get16 mb.buf 4=mb.size.toUInt16) (h6 : get16 mb.buf 6=mb.free.toUInt16)
    (h8 : get16 mb.buf 8=mb.maxindex.toUInt16) (h10 : get16 mb.buf 10=mb.nindex.toUInt16) :
    unpackMetaBlock mb.buf mb.maxsize=some mb := by
  have hmax := hv.maxsize_lt
  have hsize := hv.size_le
  have homin := hv.omin_le_size
  have hfree : mb.free ≤ mb.size := by
    have := hv.free_eq
    omega
  have hni := hv.nindex_le
  have hok := slotsOk_of_valid hv
  unfold MetaBlock.omin MetaHeaderSize MetaIndexSize at homin hok
  obtain ⟨maxsize,size,free,maxindex,nindex,botch,buf⟩ := mb
  simp only at *
  subst hb
  have hpos : maxsize≠0 := by omega
  simp [unpackMetaBlock,MetaBlock.omin,MetaHeaderSize,MetaIndexSize,hpos,hm,h4,h6,h8,h10,
    Nat.mod_eq_of_lt (show size < 65536 by omega),Nat.mod_eq_of_lt (show free < 65536 by omega),
    Nat.mod_eq_of_lt (show maxindex < 65536 by omega),Nat.mod_eq_of_lt (show nindex < 65536 by omega),hok]
  omega

/-- `unpackMetaBlock` accepts what `pack` wrote, and reads back the same block. -/
theorem unpackMetaBlock_pack {mb mb' : MetaBlock} (hv : Valid mb) (h : pack mb=some mb') :
    unpackMetaBlock mb'.buf mb'.maxsize=some mb' := by
  obtain ⟨hv',hs,-,-,hsize,hn⟩ := pack_spec hv h
  obtain ⟨hmb,hb,-,hm,h4,h6,h8,h10⟩ := pack_header h
  apply unpackMetaBlock_of_header hv' (hs.botch.trans hb) hm
  · rw [hsize,h4]
  · rw [hmb,h6]
  · rw [hs.maxindex,h8]
  · rw [hn,h10]

end Fossil.Vac
