import Fossil.Source.Depth
import Fossil.Lib.Slots

/-!
# Directory sizes

A directory source holds 40-byte entries, `epb = dsize / 40` to a data block, with the bytes past
the last whole entry of a block unused (`source.go`). `setDirSize` turns a count of entries into
a byte size and sets it; `getDirSize` turns the byte size back into a count, in 64-bit
arithmetic converted to 32 bits at the end. `create` reads the count once and, after it has
taken the entry at `offset`, grows the directory to `offset+1` entries when the count does not
cover it.

The two conversions are `recordBytes` and `recordCount` of `Fossil.Slots` for 40-byte records.
Their round trip makes `getDirSize` read back what a successful `setDirSize` set, and their
monotonicity makes `create`'s test never shrink a directory, for every byte size whose count
fits in 32 bits, as every size `setDirSize` sets does. Past that the conversion to 32 bits
wraps, and a larger byte size can read as a far smaller count.
-/

namespace Fossil.DirSize

open Fossil.Venti Fossil.Source Fossil.Tree Fossil.Slots Fossil.Depth

/-- `getSize`: the entry's size, or 0 when the entry cannot be loaded. -/
def getSize (fs : Fs) (r : Source) : UInt64 :=
  match load fs r with
  | .ok e => e.size
  | .error _ => 0

/-- The byte size `setDirSize` gives `ds` entries; `none` is its division by an `epb` of zero. -/
def dirBytes (dsize : Nat) (ds : UInt32) : Option UInt64 :=
  let epb := dsize/EntrySize
  if epb=0 then none
  else some (dsize.toUInt64*(ds.toUInt64/epb.toUInt64)+EntrySize.toUInt64*(ds.toUInt64%epb.toUInt64))

/-- `setDirSize`. -/
def setDirSize (fs : Fs) (r : Source) (ds newTag : UInt32) : Option (Except String Unit × Fs) :=
  (dirBytes r.dsize ds).bind fun size => setSize fs r size newTag

/-- The count `getDirSize` reads off a byte size: each part is converted to 32 bits and their
sum wraps; `none` is the division by a `dsize` of zero. -/
def dirCount (dsize : Nat) (size : UInt64) : Option UInt32 :=
  if dsize=0 then none
  else
    let epb := dsize/EntrySize
    some ((epb.toUInt64*(size/dsize.toUInt64)).toUInt32+((size%dsize.toUInt64)/EntrySize.toUInt64).toUInt32)

/-- `getDirSize`. -/
def getDirSize (fs : Fs) (r : Source) : Option UInt32 :=
  dirCount r.dsize (getSize fs r)

/-- The end of `create`, once it has taken the entry at `offset`: `size` is the count it read
first, and a directory whose count does not cover the entry grows to `offset+1` entries. -/
def growDir (fs : Fs) (r : Source) (size offset newTag : UInt32) : Option (Except String Unit × Fs) :=
  if offset+1 > size then setDirSize fs r (offset+1) newTag else some (.ok (),fs)

/-- The count of `s` bytes fits in 32 bits, so that `getDirSize` reads it without wrapping. -/
def CountFits (dsize : Nat) (s : UInt64) : Prop :=
  recordCount dsize EntrySize s.toNat < 2^32

instance (dsize : Nat) (s : UInt64) : Decidable (CountFits dsize s) :=
  inferInstanceAs (Decidable (_ < _))

/-! ## The conversions as slot arithmetic -/

theorem entrySize_pos : 0 < EntrySize := by decide

theorem toUInt32_toNat (c : UInt32) : c.toNat.toUInt32=c := by
  rw [Nat.toUInt32_eq,UInt32.ofNat_toNat]

theorem entrySize_toUInt64 : EntrySize.toUInt64.toNat=EntrySize :=
  toUInt64_toNat_of_lt (by decide)

/-- The entries a block holds, as the 64-bit word both conversions compute. -/
theorem perBlock_toUInt64 {dsize : Nat} (hd64 : dsize < 2^64) : (dsize/EntrySize).toUInt64.toNat=dsize/EntrySize :=
  toUInt64_toNat_of_lt (Nat.lt_of_le_of_lt (Nat.div_le_self _ _) hd64)

section Conversions

variable {dsize : Nat} (hd : EntrySize ≤ dsize)

include hd in
/-- `setDirSize`'s size is `recordBytes` of 40-byte records, computed without wrapping. -/
theorem dirBytes_eq (hd' : dsize < 2^16) (ds : UInt32) :
    ∃ s, dirBytes dsize ds=some s ∧ s.toNat=recordBytes dsize EntrySize ds.toNat := by
  have hk := perBlock_pos entrySize_pos hd
  have hn := ds.toNat_lt
  have hq : dsize*(ds.toNat/(dsize/EntrySize)) < 2^48 :=
    calc dsize*(ds.toNat/(dsize/EntrySize)) ≤ dsize*ds.toNat := Nat.mul_le_mul_left _ (Nat.div_le_self _ _)
      _ < 2^16*2^32 := Nat.mul_lt_mul'' hd' hn
      _ = 2^48 := by norm_num
  have hr := mul_mod_lt entrySize_pos hd ds.toNat
  have hd64 : dsize.toUInt64.toNat=dsize := toUInt64_toNat_of_lt (by omega)
  unfold dirBytes
  dsimp only
  rw [if_neg (Nat.pos_iff_ne_zero.mp hk)]
  refine ⟨_,rfl,?_⟩
  simp only [UInt64.toNat_add,UInt64.toNat_mul,UInt64.toNat_div,UInt64.toNat_mod,UInt32.toNat_toUInt64,
    entrySize_toUInt64,hd64,perBlock_toUInt64 (show dsize < 2^64 by omega)]
  rw [Nat.mod_eq_of_lt (show dsize*(ds.toNat/(dsize/EntrySize)) < 2^64 by omega),
    Nat.mod_eq_of_lt (show EntrySize*(ds.toNat%(dsize/EntrySize)) < 2^64 by omega),Nat.mod_eq_of_lt (by omega)]
  rfl

include hd in
/-- `getDirSize`'s count is `recordCount` of 40-byte records, taken modulo `2^32`. -/
theorem dirCount_eq (hd64 : dsize < 2^64) (s : UInt64) :
    dirCount dsize s=some (recordCount dsize EntrySize s.toNat).toUInt32 := by
  have hd0 : 0 < dsize := Nat.lt_of_lt_of_le entrySize_pos hd
  -- the whole blocks' entries: at most the bytes they take, so no 64-bit wrap
  have hq : dsize/EntrySize*(s.toNat/dsize) < 2^64 :=
    calc dsize/EntrySize*(s.toNat/dsize) ≤ dsize*(s.toNat/dsize) := Nat.mul_le_mul_right _ (Nat.div_le_self _ _)
      _ ≤ s.toNat := Nat.mul_div_le _ _
      _ < 2^64 := s.toNat_lt
  unfold dirCount
  rw [if_neg (Nat.pos_iff_ne_zero.mp hd0)]
  dsimp only
  congr 1
  apply UInt32.toNat_inj.mp
  simp only [UInt32.toNat_add,UInt64.toNat_toUInt32,UInt64.toNat_mul,UInt64.toNat_div,UInt64.toNat_mod,
    entrySize_toUInt64,toUInt64_toNat_of_lt hd64,perBlock_toUInt64 hd64,Nat.toUInt32_eq,UInt32.toNat_ofNat',
    Nat.mod_eq_of_lt hq]
  unfold recordCount
  rw [← Nat.add_mod]

end Conversions

/-! ## Reading back, monotonicity and growth -/

section Sizes

variable {dsize : Nat} (hd : EntrySize ≤ dsize) (hd' : dsize < 2^16)

include hd hd' in
/-- Every size `setDirSize` computes has a count that fits in 32 bits: the count it was made
from. -/
theorem dirBytes_countFits {ds : UInt32} {s : UInt64} (h : dirBytes dsize ds=some s) : CountFits dsize s := by
  obtain ⟨s',hs',hsn⟩ := dirBytes_eq hd hd' ds
  obtain rfl := Option.some.inj (h.symm.trans hs')
  unfold CountFits
  rw [hsn,recordCount_recordBytes entrySize_pos hd]
  exact ds.toNat_lt

include hd in
/-- A count that fits reads back as itself. -/
theorem dirCount_of_fits (hd64 : dsize < 2^64) {s : UInt64} (hf : CountFits dsize s) :
    ∃ c, dirCount dsize s=some c ∧ c.toNat=recordCount dsize EntrySize s.toNat := by
  refine ⟨_,dirCount_eq hd hd64 s,?_⟩
  rw [Nat.toUInt32_eq,UInt32.toNat_ofNat']
  exact Nat.mod_eq_of_lt hf

include hd in
/-- Below the wrap, a larger byte size never reads as a smaller count. -/
theorem dirCount_mono (hd64 : dsize < 2^64) {s s' : UInt64} (h : s ≤ s') (hf : CountFits dsize s') :
    ∃ c c', dirCount dsize s=some c ∧ dirCount dsize s'=some c' ∧ c ≤ c' := by
  have hmono := recordCount_mono entrySize_pos hd (UInt64.le_iff_toNat_le.mp h)
  obtain ⟨c,hc,hcn⟩ := dirCount_of_fits hd hd64 (show CountFits dsize s from Nat.lt_of_le_of_lt hmono hf)
  obtain ⟨c',hc',hcn'⟩ := dirCount_of_fits hd hd64 hf
  refine ⟨c,c',hc,hc',?_⟩
  rw [UInt32.le_iff_toNat_le,hcn,hcn']
  exact hmono

include hd hd' in
/-- A count past the one `s` bytes read as, when it fits, is set as more than `s` bytes. -/
theorem lt_dirBytes {s s' : UInt64} {c n : UInt32} (hf : CountFits dsize s) (hc : dirCount dsize s=some c)
    (hlt : c < n) (hb : dirBytes dsize n=some s') : s < s' := by
  obtain ⟨c',hc',hcn⟩ := dirCount_of_fits hd (by omega) hf
  obtain rfl := Option.some.inj (hc.symm.trans hc')
  obtain ⟨s'',hs'',hsn⟩ := dirBytes_eq hd hd' n
  obtain rfl := Option.some.inj (hb.symm.trans hs'')
  rw [UInt64.lt_iff_toNat_lt,hsn]
  apply lt_recordBytes entrySize_pos hd
  rw [← hcn]
  exact UInt32.lt_iff_toNat_lt.mp hlt

end Sizes

section Source

variable {r : Source} (hd : EntrySize ≤ r.dsize) (hd' : r.dsize < 2^16)

/-- After a successful `setSize`, `getSize` reads the size that was set. -/
theorem getSize_setSize {fs fs' : Fs} {s : UInt64} {newTag : UInt32} (h : setSize fs r s newTag=some (.ok (),fs')) :
    getSize fs' r=s := by
  obtain ⟨e',hl,hs⟩ := setSize_ok_size h
  unfold getSize
  rw [hl]
  exact hs

include hd hd' in
/-- After a successful `setDirSize`, `getDirSize` reads back the count that was set. -/
theorem getDirSize_setDirSize {fs fs' : Fs} {ds newTag : UInt32} (h : setDirSize fs r ds newTag=some (.ok (),fs')) :
    getDirSize fs' r=some ds := by
  obtain ⟨s,hs,hsn⟩ := dirBytes_eq hd hd' ds
  unfold setDirSize at h
  rw [hs,Option.bind_some] at h
  unfold getDirSize
  rw [getSize_setSize h,dirCount_eq hd (by omega),hsn,recordCount_recordBytes entrySize_pos hd,toUInt32_toNat]

include hd hd' in
/-- `create`'s test never shrinks a directory whose count fits, and grows it when it takes an
entry the count does not cover. -/
theorem growDir_grows {fs fs' : Fs} {size offset newTag : UInt32} (hc : getDirSize fs r=some size)
    (hf : CountFits r.dsize (getSize fs r)) (h : growDir fs r size offset newTag=some (.ok (),fs')) :
    getSize fs r ≤ getSize fs' r ∧ (size < offset+1 → getSize fs r < getSize fs' r) := by
  unfold growDir at h
  split_ifs at h with hlt
  · obtain ⟨s,hs,-⟩ := dirBytes_eq hd hd' (offset+1)
    unfold setDirSize at h
    rw [hs,Option.bind_some] at h
    have hgrow := lt_dirBytes hd hd' hf hc hlt hs
    rw [getSize_setSize h]
    exact ⟨UInt64.le_of_lt hgrow,fun _ => hgrow⟩
  · obtain rfl := (Prod.mk.inj (Option.some.inj h)).2
    exact ⟨UInt64.le_refl _,fun h' => absurd h' hlt⟩

end Source

/-- The directory conversions, for every directory source with blocks of at least 256 bytes:
`getDirSize` reads back the count a successful `setDirSize` set; every size `setDirSize` sets
has a count that fits in 32 bits; on sizes whose count fits `getDirSize` is monotone in the byte
size; and there `create`'s test and `setDirSize` never shrink the directory. -/
theorem dirSize_round_trip_monotone {r : Source} (hd : 256 ≤ r.dsize) (hd' : r.dsize < 2^16) :
    (∀ fs fs' ds newTag, setDirSize fs r ds newTag=some (.ok (),fs') → getDirSize fs' r=some ds) ∧
    (∀ ds s, dirBytes r.dsize ds=some s → CountFits r.dsize s) ∧
    (∀ fs fs', getSize fs r ≤ getSize fs' r → CountFits r.dsize (getSize fs' r) →
      ∃ c c', getDirSize fs r=some c ∧ getDirSize fs' r=some c' ∧ c ≤ c') ∧
    (∀ fs fs' size offset newTag, getDirSize fs r=some size → CountFits r.dsize (getSize fs r) →
      growDir fs r size offset newTag=some (.ok (),fs') →
        getSize fs r ≤ getSize fs' r ∧ (size < offset+1 → getSize fs r < getSize fs' r)) := by
  have he : EntrySize ≤ r.dsize := Nat.le_trans (by decide) hd
  refine ⟨fun fs fs' ds newTag h => getDirSize_setDirSize he hd' h,
    fun ds s h => dirBytes_countFits he hd' h,fun fs fs' h hf => dirCount_mono he (by omega) h hf,?_⟩
  intro fs fs' size offset newTag hc hf h
  exact growDir_grows he hd' hc hf h

/-- A directory of 256-byte blocks. -/
theorem dirSize_round_trip_monotone_256 :
    let r : Source := ⟨0,0,1,Nat.one_pos,1,256⟩
    256 ≤ r.dsize ∧ r.dsize < 2^16 ∧
    (∀ fs fs' ds newTag, setDirSize fs r ds newTag=some (.ok (),fs') → getDirSize fs' r=some ds) ∧
    (∀ ds s, dirBytes r.dsize ds=some s → CountFits r.dsize s) ∧
    (∀ fs fs', getSize fs r ≤ getSize fs' r → CountFits r.dsize (getSize fs' r) →
      ∃ c c', getDirSize fs r=some c ∧ getDirSize fs' r=some c' ∧ c ≤ c') ∧
    (∀ fs fs' size offset newTag, getDirSize fs r=some size → CountFits r.dsize (getSize fs r) →
      growDir fs r size offset newTag=some (.ok (),fs') →
        getSize fs r ≤ getSize fs' r ∧ (size < offset+1 → getSize fs r < getSize fs' r)) :=
  ⟨by decide,by decide,dirSize_round_trip_monotone (r := ⟨0,0,1,Nat.one_pos,1,256⟩) (by decide) (by decide)⟩

/-- Past the wrap: in a directory of 8192-byte blocks (204 entries each) the larger of two sizes,
both within `MaxFileSize`, reads as 152 entries and the smaller as 4294967244; a `create` that
read 152 and takes entry 152 sets the directory to 6120 bytes. -/
theorem dirCount_wraps :
    (8192*21053761 : UInt64) < 8192*21053762 ∧ (8192*21053762 : UInt64).toNat ≤ MaxFileSize ∧
    dirCount 8192 (8192*21053761)=some 4294967244 ∧ dirCount 8192 (8192*21053762)=some 152 ∧
    dirBytes 8192 (152+1)=some 6120 := by
  decide

end Fossil.DirSize
