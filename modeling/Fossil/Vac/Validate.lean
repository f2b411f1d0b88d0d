import Fossil.Vac.Alloc

/-!
# What the meta block checkers accept

Three functions decide whether the bytes of a meta block are sound: `unpackMetaBlock` checks the
header and each slot in use, `metaChunks` (which `alloc` calls before it looks for a hole or
compacts) and fsck's `chkMetaBlock` (`check.go`) check the chunks sorted by offset. The two chunk
checkers run the same loop: each chunk must start at or after `omin` plus the sizes of the chunks
before it, the last must end within `size`, and `free` must be what the chunks leave. That loop
accepts every valid block; it does not see two chunks overlap once a gap before them has made
room for the overlap.
-/

namespace Fossil.Vac

open Bytes Extent

/-- `chkMetaBlock` (`check.go`): the chunk loop of `metaChunks`, with its two final tests in one
condition and a truth value for an answer. -/
def chkMetaBlock (sort : List MetaChunk → List MetaChunk) (mb : MetaBlock) : Bool :=
  match scanChunks (sort (chunks mb)) (mb.omin,mb.omin,0) with
  | none => false
  | some (oo,o,n) => !(decide (mb.size < o+n) || decide ((mb.size : Int)-oo≠mb.free))

/-- fsck's check passes exactly when `metaChunks` succeeds. -/
theorem chkMetaBlock_eq (sort : List MetaChunk → List MetaChunk) (mb : MetaBlock) :
    chkMetaBlock sort mb=(metaChunks sort mb).isSome := by
  unfold chkMetaBlock metaChunks
  rcases scanChunks (sort (chunks mb)) (mb.omin,mb.omin,0) with _ | ⟨oo,o,n⟩
  · rfl
  · dsimp only
    by_cases h1 : mb.size < o+n <;> by_cases h2 : (mb.size : Int)-oo≠mb.free <;> simp [h1,h2]

/-- A sort by offset leaves chunks of strictly increasing offsets as they are. -/
theorem sort_eq_of_lt {sort : List MetaChunk → List MetaChunk} (hs : SortsByOffset sort) {l : List MetaChunk}
    (hl : l.Pairwise fun a b => a.offset.toNat < b.offset.toNat) : sort l=l := by
  refine (hs l).1.eq_of_pairwise (fun a b ha hb hab hba => ?_) (hs l).2 (hl.imp Nat.le_of_lt)
  by_contra hne
  have := Sorted.rel_or_rel_of_pairwise hl ((hs l).1.subset ha) hb hne
  omega

/-! ## Overlapping chunks after a gap -/

/-- A block with two slots whose entries overlap: `a` at 30 and `b` at 35, ten bytes each, with
the ten bytes from `omin` = 20 to 30 unused. Both entries start with `DirMagic`; `b`'s first
five bytes are `a`'s last five. -/
def overlapBlock : MetaBlock :=
  ⟨60,45,5,2,2,false,write (fun _ => 0) 0
    (be32 MetaMagic++be16 45++be16 5++be16 2++be16 2++be16 30++be16 10++be16 35++be16 10++
      List.replicate 10 0++be32 DirMagic++[0x61]++be32 DirMagic++[0x62,0,0,0,0,0])⟩

theorem unpackMetaBlock_overlapBlock : unpackMetaBlock overlapBlock.buf overlapBlock.maxsize=some overlapBlock := by
  rfl

theorem entries_overlapBlock : entries overlapBlock=[⟨30,10⟩,⟨35,10⟩] := by
  decide

theorem chunks_overlapBlock : chunks overlapBlock=[⟨30,10,0⟩,⟨35,10,1⟩] := by
  decide

/-- `unpackMetaBlock`, `metaChunks` and `chkMetaBlock` all accept a block whose two entries
overlap, whatever sort by offset `metaChunks` uses; each entry lies within `[omin, size)` and
`free` is `size-omin` less the entries' sizes, but the entries are not disjoint. -/
theorem metaChunks_accepts_overlap {sort : List MetaChunk → List MetaChunk} (hs : SortsByOffset sort) :
    unpackMetaBlock overlapBlock.buf overlapBlock.maxsize=some overlapBlock ∧
      metaChunks sort overlapBlock=some (chunks overlapBlock) ∧ chkMetaBlock sort overlapBlock=true ∧
      (∀ me ∈ entries overlapBlock, Within overlapBlock.omin overlapBlock.size me.extent) ∧
      overlapBlock.free+overlapBlock.omin+((entries overlapBlock).map fun me => me.size.toNat).sum=overlapBlock.size ∧
      ¬(entries overlapBlock).Pairwise fun a b => Apart a.extent b.extent := by
  have hsort : sort (chunks overlapBlock)=chunks overlapBlock := by
    rw [chunks_overlapBlock]
    exact sort_eq_of_lt hs (by decide)
  have hmc : metaChunks sort overlapBlock=some (chunks overlapBlock) := by
    unfold metaChunks
    rw [hsort]
    decide
  refine ⟨unpackMetaBlock_overlapBlock,hmc,by rw [chkMetaBlock_eq,hmc]; rfl,?_,?_,?_⟩
  · rw [entries_overlapBlock]
    simp [Within,MetaEntry.extent,overlapBlock,MetaBlock.omin,MetaHeaderSize,MetaIndexSize]
  · rw [entries_overlapBlock]
    rfl
  · rw [entries_overlapBlock]
    simp [Apart,MetaEntry.extent]

theorem metaChunks_accepts_overlap_offsetSort :
    SortsByOffset offsetSort ∧ metaChunks offsetSort overlapBlock=some (chunks overlapBlock) ∧
      ¬(entries overlapBlock).Pairwise fun a b => Apart a.extent b.extent :=
  have h := metaChunks_accepts_overlap offsetSort_sorts
  ⟨offsetSort_sorts,h.2.1,h.2.2.2.2.2⟩

/-! ## A table of slots in use that runs past the block

`unpackMetaBlock` checks every slot in use but bounds neither `nindex` by `maxindex` nor the
table by `n`. Once the table reaches the entries, the entries' own bytes are read as slots; the
magic `1c 4d 90 72` reads as offset 36978 (and as size 7245), so a block of at least 36986 bytes
can pass with a table longer than the block. -/

/-- The filler of `longTable`: from offset 12 on, every 4-byte slot reads offset 18, size 8. -/
def slotFill : Buf := fun k => if k%4=1 then 0x12 else if k%4=3 then 8 else 0

/-- A block of 36986 bytes with one index slot but 9244 slots in use, so that its table takes
bytes 12 to 36988. The entries the slots name are the 8 bytes at 18 and the 8 bytes at 36978,
both starting with `DirMagic`. Byte 36987, past the block, is `t`. -/
def longTable (t : UInt8) : Buf :=
  write (write (write (write slotFill 0 (be32 MetaMagic++be16 36986++be16 0++be16 1++be16 9244)) 18
    (be32 DirMagic)) 36978 (be32 DirMagic)) 36987 [t]

theorem longTable_of_ne {t : UInt8} {k : Nat} (h : k≠36987) : longTable t k=longTable 8 k := by
  unfold longTable
  rw [write_of_not_mem (l := [t]) (by simp; omega),write_of_not_mem (l := [8]) (by simp; omega)]

theorem get16_longTable {t : UInt8} {o : Nat} (h : o+1 < 36987 ∨ 36987 < o) :
    get16 (longTable t) o=get16 (longTable 8) o :=
  get16_congr (longTable_of_ne (by omega)) (longTable_of_ne (by omega))

theorem get32_longTable {t : UInt8} {o : Nat} (h : o+3 < 36987 ∨ 36987 < o) :
    get32 (longTable t) o=get32 (longTable 8) o :=
  get32_of_region (region_congr fun _ _ _ => longTable_of_ne (by omega))

/-- From offset 12 on, away from the two magics and from byte 36987, `longTable` is the filler. -/
theorem longTable_fill {t : UInt8} {k : Nat} (h12 : 12 ≤ k) (h1 : k < 18 ∨ 22 ≤ k) (h2 : k < 36978 ∨ 36982 ≤ k)
    (h3 : k≠36987) : longTable t k=slotFill k := by
  unfold longTable
  rw [write_of_not_mem (by simp; omega),write_of_not_mem (by simp; omega),write_of_not_mem (by simp; omega),
    write_of_not_mem (by simp; omega)]

theorem slotFill_four_mul_add (j r : Nat) : slotFill (4*j+r)=slotFill r := by
  have h : (4*j+r)%4=r%4 := by omega
  unfold slotFill
  rw [h]

/-- The slots that meet neither magic nor byte 36987 read offset 18, size 8. -/
theorem longTable_slot {t : UInt8} {i : Nat} (hi : i≠1 ∧ i≠2 ∧ i≠9241 ∧ i≠9242 ∧ i≠9243) :
    get16 (longTable t) (slot i)=18 ∧ get16 (longTable t) (slot i+2)=8 := by
  have hb : ∀ r < 4, longTable t (slot i+r)=slotFill r := fun r hr => by
    have hk : slot i+r=4*(i+3)+r := by
      unfold slot MetaHeaderSize MetaIndexSize
      omega
    rw [hk,longTable_fill (by omega) (by omega) (by omega) (by omega),slotFill_four_mul_add]
  have h0 : get16 (longTable t) (slot i)=get16 slotFill 0 := get16_congr (hb 0 (by omega)) (hb 1 (by omega))
  have h2 : get16 (longTable t) (slot i+2)=get16 slotFill 2 := get16_congr (hb 2 (by omega)) (hb 3 (by omega))
  rw [h0,h2]
  exact ⟨by decide,by decide⟩

/-- The last slot in use reads offset 18 and, for its size, the bytes 36986 and 36987. -/
theorem longTable_last (t : UInt8) :
    get16 (longTable t) (slot 9243)=18 ∧ get16 (longTable t) (slot 9243+2)=t.toUInt16 := by
  have h6 : longTable t 36986=0 := by
    rw [longTable_fill (by omega) (by omega) (by omega) (by omega)]
    decide
  have h7 : longTable t 36987=t := write_of_lt (o := 36987) (k := 0) (by simp)
  refine ⟨by rw [get16_longTable (by decide)]; decide,?_⟩
  apply UInt16.toNat_inj.mp
  rw [get16_toNat,show slot 9243+2=36986 from rfl,h6,h7]
  simp

/-- Every slot in use passes the check of `unpackMetaBlock` when byte 36987 is at least 8. -/
theorem slotsOk_longTable {t : UInt8} (ht : 8 ≤ t.toNat) : slotsOk (longTable t) 16 36986 9244=true := by
  have hm : get32 (longTable t) 18=DirMagic := by
    rw [get32_longTable (by omega)]
    decide
  unfold slotsOk
  rw [List.all_eq_true]
  intro i hi
  rw [List.mem_range] at hi
  by_cases hs : i≠1 ∧ i≠2 ∧ i≠9241 ∧ i≠9242 ∧ i≠9243
  · obtain ⟨h0,h2⟩ := longTable_slot (t := t) hs
    simp [h0,h2,hm]
  · have : i=1 ∨ i=2 ∨ i=9241 ∨ i=9242 ∨ i=9243 := by omega
    rcases this with rfl | rfl | rfl | rfl | rfl
    -- the four slots that meet a magic do not read byte 36987
    all_goals try (simp (disch := decide) only [get16_longTable,get32_longTable]; decide)
    obtain ⟨h0,h2⟩ := longTable_last t
    have h2' : (get16 (longTable t) (slot 9243+2)).toNat=t.toNat := by simp [h2]
    have hlt := t.toNat_lt
    simp only [h0,h2',hm,UInt16.reduceToNat,beq_self_eq_true,Bool.and_true,decide_eq_true_eq]
    omega

/-- `unpackMetaBlock` accepts `longTable t` as a block of 36986 bytes when byte 36987 is at
least 8. -/
theorem unpackMetaBlock_longTable {t : UInt8} (ht : 8 ≤ t.toNat) :
    unpackMetaBlock (longTable t) 36986=some ⟨36986,36986,0,1,9244,false,longTable t⟩ := by
  have h0 : get32 (longTable t) 0=MetaMagic := by rw [get32_longTable (by omega)]; decide
  have h4 : get16 (longTable t) 4=36986 := by rw [get16_longTable (by omega)]; decide
  have h6 : get16 (longTable t) 6=0 := by rw [get16_longTable (by omega)]; decide
  have h8 : get16 (longTable t) 8=1 := by rw [get16_longTable (by omega)]; decide
  have h10 : get16 (longTable t) 10=9244 := by rw [get16_longTable (by omega)]; decide
  have hok := slotsOk_longTable ht
  simp [unpackMetaBlock,h0,h4,h6,h8,h10,MetaBlock.omin,MetaHeaderSize,MetaIndexSize,hok]

/-- Validation does not keep the reads of `unpackMetaEntry` within `p[0:n]`: `unpackMetaBlock`
accepts `longTable t` for `n = 36986`, with one index slot and 9244 slots in use, and the last
slot's entry has for its size the bytes 36986 and 36987, past the block. Buffers that agree on
`p[0:n]` give entries of different sizes. -/
theorem unpackMetaEntry_reads_past_block (t : UInt8) (ht : 8 ≤ t.toNat) :
    (∀ k < 36986, longTable t k=longTable 8 k) ∧
      ∃ mb, unpackMetaBlock (longTable t) 36986=some mb ∧ mb.maxindex=1 ∧ mb.nindex=9244 ∧
        unpackMetaEntry mb 9243=some ⟨18,t.toUInt16⟩ := by
  refine ⟨fun k hk => longTable_of_ne (by omega),_,unpackMetaBlock_longTable ht,rfl,rfl,?_⟩
  obtain ⟨h0,h2⟩ := longTable_last t
  have h8 : 8 ≤ t.toUInt16 := by
    rw [UInt16.le_iff_toNat_le]
    simpa using ht
  simp [unpackMetaEntry,h0,h2,h8]

theorem unpackMetaEntry_reads_past_block_nine :
    8 ≤ (9 : UInt8).toNat ∧ (∀ k < 36986, longTable 9 k=longTable 8 k) ∧
      ∃ mb, unpackMetaBlock (longTable 9) 36986=some mb ∧ mb.maxindex=1 ∧ mb.nindex=9244 ∧
        unpackMetaEntry mb 9243=some ⟨18,9⟩ :=
  ⟨by decide,unpackMetaEntry_reads_past_block 9 (by decide)⟩

end Fossil.Vac
