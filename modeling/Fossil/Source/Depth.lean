import Fossil.Source.Tree
import Fossil.Disk.Partition
import Mathlib.Data.Nat.Log
import Mathlib.Data.Nat.Digits.Lemmas
import Mathlib.Algebra.Order.Floor.Div
import Mathlib.Tactic.SplitIfs

/-!
# Depth and block numbers

`sizeToDepth` (`source.go`) computes the depth of a source's tree from its size: the number of
data blocks, rounded up, divided by the pointers per block, rounded up, until one block is left.
`_block` finds block `bn` by its digits in base `np`, least significant first, one per level, and
gives up with `EBadAddr` past `PointerDepth` digits.

Rounding up twice is rounding up once by the product, so `sizeToDepth` is Mathlib's rounded-up
logarithm `Nat.clog` of the number of data blocks: the least `d` with `dsize*np^d ≥ s`. The digit
loop is `Nat.digits`, at most `d` digits long exactly when `bn < np^d`. A tree as deep as
`sizeToDepth` of its size, as `allocSource` requires, thus reaches every block below the size
along a path of its own. But `allocSource` accepts pointer blocks from 256 bytes on, twelve
scores, and `setSize` accepts sizes up to `MaxBlock` data blocks; `2^31` blocks take nine levels
of twelve pointers, past `PointerDepth`. Such a `setSize` passes its size checks and panics in the
assertion of `growDepth`, and `_block` refuses block `12^7` of such a size.
-/

namespace Fossil.Depth

open Fossil.Venti Fossil.Block Fossil.Source Fossil.Tree
open Fossil.Partition (EBadAddr)

/-! ## `sizeToDepth` -/

/-- One round of the loop, `(s+n-1)/n` in 64 bits, is the rounded-up quotient when the sum does
not wrap. -/
theorem ceilStep_toNat {s n : UInt64} (h : s.toNat+n.toNat<2^64) (hn : 0<n.toNat) :
    ((s+n-1)/n).toNat=(s.toNat+n.toNat-1)/n.toNat := by
  have hsum : (s+n).toNat=s.toNat+n.toNat := by
    rw [UInt64.toNat_add]
    exact Nat.mod_eq_of_lt h
  have hle : (1 : UInt64) ≤ s+n := by
    rw [UInt64.le_iff_toNat_le,hsum]
    simp
    omega
  rw [UInt64.toNat_div,UInt64.toNat_sub_of_le _ _ hle,hsum]
  simp

/-- The loop of `sizeToDepth` computes the rounded-up logarithm `Nat.clog`, given fuel for it. -/
theorem depthLoop_eq {np : UInt64} (hnp : 2 ≤ np.toNat) {fuel : Nat} :
    ∀ {s : UInt64} {d : Nat}, s.toNat+np.toNat<2^64 → Nat.clog np.toNat s.toNat<fuel →
      depthLoop np fuel s d=some (d+Nat.clog np.toNat s.toNat) := by
  induction fuel with
  | zero => intro s d _ hf; omega
  | succ fuel ih =>
    intro s d hs hf
    rw [depthLoop]
    by_cases h : 1<s
    · have h1 : 1<s.toNat := by simpa [UInt64.lt_iff_toNat_lt] using h
      have hstep := ceilStep_toNat hs (by omega)
      have hlt : (s.toNat+np.toNat-1)/np.toNat<s.toNat := Nat.add_pred_div_lt (by omega) (by omega)
      have hclog := Nat.clog_of_one_lt (b := np.toNat) (by omega) h1
      rw [if_pos h,ih (by rw [hstep]; omega) (by rw [hstep]; omega),hstep,hclog,Option.some.injEq]
      omega
    · have h1 : s.toNat ≤ 1 := by simpa [UInt64.lt_iff_toNat_lt] using h
      rw [if_neg h,Nat.clog_of_right_le_one h1,Nat.add_zero]

/-- A `Nat` below `2^64` survives the trip through `UInt64`. -/
theorem toUInt64_toNat_of_lt {n : Nat} (h : n<2^64) : n.toUInt64.toNat=n := by
  simp only [Nat.toUInt64_eq,UInt64.toNat_ofNat']
  exact Nat.mod_eq_of_lt h

/-- `sizeToDepth` of a size within `MaxFileSize`, over pointer blocks of two scores or more: the
rounded-up logarithm, to the base of the pointers per block, of the number of data blocks. -/
theorem sizeToDepth_eq {s : UInt64} {psize dsize : Nat} (hs : s.toNat ≤ MaxFileSize)
    (hp : 2*ScoreSize ≤ psize) (hp' : psize<2^16) (hd : 0<dsize) (hd' : dsize<2^16) :
    sizeToDepth s psize dsize=some (Nat.clog (psize/ScoreSize) ((s.toNat+dsize-1)/dsize)) := by
  unfold sizeToDepth
  unfold MaxFileSize at hs
  unfold ScoreSize at hp ⊢
  have hnp : (psize/20).toUInt64.toNat=psize/20 := toUInt64_toNat_of_lt (by omega)
  have hdn : dsize.toUInt64.toNat=dsize := toUInt64_toNat_of_lt (by omega)
  have hs0 : ((s+dsize.toUInt64-1)/dsize.toUInt64).toNat=(s.toNat+dsize-1)/dsize := by
    rw [ceilStep_toNat (by omega) (by omega),hdn]
  -- at most `2^48` data blocks: the loop ends within its 64 rounds
  have hblocks : (s.toNat+dsize-1)/dsize ≤ 2^48 := by
    rw [Nat.div_le_iff_le_mul_add_pred hd]
    have : 2^48 ≤ dsize*2^48 := Nat.le_mul_of_pos_left _ hd
    omega
  have hclog : Nat.clog (psize/20) ((s.toNat+dsize-1)/dsize) ≤ 48 :=
    Nat.clog_le_of_le_pow (hblocks.trans (Nat.pow_le_pow_left (by omega) 48))
  rw [if_neg (by intro h; rcases h with h | h; omega; rw [← UInt64.toNat_inj,hnp] at h; simp at h; omega)]
  rw [depthLoop_eq (by rw [hnp]; omega) (by rw [hs0,hnp]; omega) (by rw [hs0,hnp]; omega),
    hs0,hnp,Nat.zero_add]

/-- The depth is the least `d` with `dsize*np^d ≥ s`: it is at most `k` exactly when `k` levels
of pointer blocks over `dsize`-byte data blocks hold `s` bytes. -/
theorem sizeToDepth_le_iff {s : UInt64} {psize dsize d : Nat} (hs : s.toNat ≤ MaxFileSize)
    (hp : 2*ScoreSize ≤ psize) (hp' : psize<2^16) (hd : 0<dsize) (hd' : dsize<2^16)
    (h : sizeToDepth s psize dsize=some d) (k : Nat) : d ≤ k ↔ s.toNat ≤ dsize*(psize/ScoreSize)^k := by
  rw [sizeToDepth_eq hs hp hp' hd hd',Option.some.injEq] at h
  subst h
  have hnp : 1<psize/ScoreSize := by
    unfold ScoreSize at hp ⊢
    omega
  rw [Nat.clog_le_iff_le_pow hnp,← Nat.ceilDiv_eq_add_pred_div,ceilDiv_le_iff_le_mul hd]

/-- A size within one data block needs no pointer block. -/
theorem sizeToDepth_one_block {s : UInt64} {psize dsize : Nat} (hs : 0<s.toNat) (hsd : s.toNat ≤ dsize)
    (hp : 2*ScoreSize ≤ psize) (hp' : psize<2^16) (hd' : dsize<2^16) : sizeToDepth s psize dsize=some 0 := by
  have hmax : s.toNat ≤ MaxFileSize := by
    unfold MaxFileSize
    omega
  have hq : (s.toNat+dsize-1)/dsize=1 := Nat.div_eq_of_lt_le (by omega) (by omega)
  rw [sizeToDepth_eq hmax hp hp' (by omega) hd',hq,Nat.clog_one_right]

/-! ## The digits of a block number -/

/-- The digit loop of `_block`: `index[i] = bn % np` and `bn /= np` while `bn > 0`, in 32 bits;
at `PointerDepth` digits it gives up with `EBadAddr`. `none` is the division by zero of
`np = 0`. -/
def digitLoop (np : UInt32) (i : Nat) (bn : UInt32) : Option (Except String (List Nat)) :=
  if 0<bn then
    if PointerDepth ≤ i then some (.error EBadAddr)
    else if np=0 then none
    else (digitLoop np (i+1) (bn/np)).map fun r => r.map ((bn%np).toNat :: ·)
  else some (.ok [])
termination_by PointerDepth-i

/-- The digit loop computes `Nat.digits`, and refuses a number of more than `PointerDepth`
digits. -/
theorem digitLoop_eq {np : UInt32} (hnp : 2 ≤ np.toNat) {i : Nat} (hi : i ≤ PointerDepth) (bn : UInt32) :
    digitLoop np i bn=some (if (Nat.digits np.toNat bn.toNat).length+i ≤ PointerDepth
      then .ok (Nat.digits np.toNat bn.toNat) else .error EBadAddr) := by
  rw [digitLoop]
  by_cases hb : 0<bn
  · have hb' : 0<bn.toNat := by simpa [UInt32.lt_iff_toNat_lt] using hb
    have hd := Nat.digits_def' (b := np.toNat) (by omega) hb'
    rw [if_pos hb]
    by_cases hpd : PointerDepth ≤ i
    · rw [if_pos hpd,if_neg (by rw [hd,List.length_cons]; omega)]
    · have hnp0 : np≠0 := fun h => by simp [h] at hnp
      rw [if_neg hpd,if_neg hnp0,digitLoop_eq hnp (by omega) (bn/np),UInt32.toNat_div,hd,List.length_cons]
      by_cases hlen : (Nat.digits np.toNat (bn.toNat/np.toNat)).length+(i+1) ≤ PointerDepth
      · rw [if_pos hlen,if_pos (by omega)]
        simp only [Option.map_some,UInt32.toNat_mod]
        rfl
      · rw [if_neg hlen,if_neg (by omega)]
        rfl
  · have hb0 : bn.toNat=0 := by simpa [UInt32.lt_iff_toNat_lt] using hb
    rw [if_neg hb,hb0,Nat.digits_zero,List.length_nil,Nat.zero_add,if_pos hi]
termination_by PointerDepth-i

/-- Different block numbers have different digits. -/
theorem digitLoop_inj {np : UInt32} (hnp : 2 ≤ np.toNat) {bn bn' : UInt32} {index : List Nat}
    (h : digitLoop np 0 bn=some (.ok index)) (h' : digitLoop np 0 bn'=some (.ok index)) : bn=bn' := by
  rw [digitLoop_eq hnp (Nat.zero_le _)] at h h'
  split_ifs at h h' <;> simp only [Option.some.injEq,Except.ok.injEq,reduceCtorEq] at h h'
  exact UInt32.toNat_inj.mp (Nat.digits_inj_iff.mp (h.trans h'.symm))

/-- The start of `_block` for block `bn` of the tree of entry `e`: the digits of `bn` in base
`np`, one index a level, then the test against the depth: past it, reading is `EBadAddr` and
writing grows the tree first (`true`). -/
def blockPath (e : Entry) (bn : UInt32) (readOnly : Bool) : Option (Except String (Bool × List Nat)) :=
  (digitLoop (e.psize.toNat/ScoreSize).toUInt32 0 bn).map fun r => r.bind fun index =>
    if e.depth.toNat < index.length then
      if readOnly then .error EBadAddr else .ok (true,index)
    else .ok (false,index)

/-- Inside the size of a tree at least as deep as `sizeToDepth` of it, which `allocSource` checks,
`_block` reaches every block along the digits of its number, at most that depth of them, without
growing the tree and without `EBadAddr`. -/
theorem blockPath_within_size {e : Entry} {d : Nat} (hs : e.size.toNat ≤ MaxFileSize)
    (hp : 2*ScoreSize ≤ e.psize.toNat) (hd : 0<e.dsize.toNat)
    (hdepth : sizeToDepth e.size e.psize.toNat e.dsize.toNat=some d) (hde : d ≤ e.depth.toNat)
    (hD : e.depth.toNat ≤ PointerDepth) {bn : UInt32}
    (hbn : bn.toNat<(e.size.toNat+e.dsize.toNat-1)/e.dsize.toNat) (readOnly : Bool) :
    blockPath e bn readOnly=some (.ok (false,Nat.digits (e.psize.toNat/ScoreSize) bn.toNat)) ∧
      (Nat.digits (e.psize.toNat/ScoreSize) bn.toNat).length ≤ d := by
  have hp' := e.psize.toNat_lt
  have hd' := e.dsize.toNat_lt
  have hnp : 1<e.psize.toNat/ScoreSize := by
    unfold ScoreSize at hp ⊢
    omega
  have hnp32 : (e.psize.toNat/ScoreSize).toUInt32.toNat=e.psize.toNat/ScoreSize := by
    simp only [Nat.toUInt32_eq,UInt32.toNat_ofNat']
    unfold ScoreSize
    exact Nat.mod_eq_of_lt (by omega)
  have hfit : (e.size.toNat+e.dsize.toNat-1)/e.dsize.toNat ≤ (e.psize.toNat/ScoreSize)^d := by
    rw [← Nat.ceilDiv_eq_add_pred_div,ceilDiv_le_iff_le_mul hd]
    exact (sizeToDepth_le_iff hs hp (by simpa using hp') hd (by simpa using hd') hdepth d).mp le_rfl
  have hlen : (Nat.digits (e.psize.toNat/ScoreSize) bn.toNat).length ≤ d :=
    (Nat.digits_length_le_iff hnp _).mpr (lt_of_lt_of_le hbn hfit)
  refine ⟨?_,hlen⟩
  rw [blockPath,digitLoop_eq (by rw [hnp32]; omega) (Nat.zero_le _),hnp32,if_pos (by omega)]
  have hnot : ¬e.depth.toNat < (Nat.digits (e.psize.toNat/ScoreSize) bn.toNat).length := by omega
  simp only [Option.map_some,Except.bind]
  rw [if_neg hnot]

/-! ## Depths past `PointerDepth` -/

/-- `setSize` to a size whose depth is past `PointerDepth`, which its size checks let through:
`growDepth` asserts the depth is at most `PointerDepth`, and panics. -/
theorem setSize_past_pointerDepth {fs : Fs} {r : Source} {s : UInt64} (newTag : UInt32) {e : Entry} {depth : Nat}
    (hload : load fs r=.ok e) (hs0 : s≠0) (hmax : s.toNat ≤ MaxFileSize) (hblk : s.toNat ≤ MaxBlock.toNat*r.dsize)
    (hsize : e.size≠s) (hdepth : sizeToDepth s e.psize.toNat e.dsize.toNat=some depth) (hpd : PointerDepth<depth) :
    setSize fs r s newTag=none := by
  obtain ⟨he,-⟩ := load_eq_ok.mp hload
  have hD : e.depth.toNat ≤ 7 := by
    have := he ▸ unpackEntry_depth_le (fs.data r.b) r.index
    rwa [UInt8.le_iff_toNat_le] at this
  have hpd' : 7<depth := hpd
  unfold setSize
  rw [if_neg hs0,if_neg (not_or.mpr ⟨not_lt.mpr hmax,not_lt.mpr hblk⟩),hload]
  dsimp only
  rw [if_neg hsize,hdepth]
  dsimp only
  rw [if_neg (by omega),if_pos (by omega),growDepth,if_pos hpd]

/-- The largest size `setSize` lets through for data blocks of `dsize` bytes,
`uint64(MaxBlock)*uint64(r.dsize)`. -/
def maxSize (dsize : Nat) : UInt64 :=
  MaxBlock.toUInt64*dsize.toUInt64

theorem maxSize_toNat {dsize : Nat} (hd : dsize<2^16) : (maxSize dsize).toNat=2^31*dsize := by
  have hm : MaxBlock.toUInt64.toNat=2^31 := by decide
  rw [maxSize,UInt64.toNat_mul,hm,toUInt64_toNat_of_lt (by omega)]
  exact Nat.mod_eq_of_lt (by omega)

/-- Pointer blocks under 440 bytes hold at most 21 scores, and `allocSource` accepts them from
256 bytes on. `setSize` lets through sizes up to `MaxBlock` data blocks, `2^31` of them, which
take more than `PointerDepth` levels of 21 pointers: `sizeToDepth` of that size is past
`PointerDepth`, the digit loop of `_block` refuses block `np^7` below it, and `setSize` to it
panics in `growDepth`. -/
theorem depth_exceeds_pointerDepth {psize dsize : Nat} (hp : 256 ≤ psize) (hp' : psize<440) (hd : 256 ≤ dsize)
    (hd' : dsize<2^16) :
    (maxSize dsize).toNat ≤ MaxFileSize ∧ (maxSize dsize).toNat ≤ MaxBlock.toNat*dsize ∧
    (∃ d, sizeToDepth (maxSize dsize) psize dsize=some d ∧ PointerDepth<d) ∧
    (psize/ScoreSize)^PointerDepth<((maxSize dsize).toNat+dsize-1)/dsize ∧
    digitLoop (psize/ScoreSize).toUInt32 0 ((psize/ScoreSize)^PointerDepth).toUInt32=some (.error EBadAddr) ∧
    ∀ fs r e newTag, load fs r=.ok e → e.psize.toNat=psize → e.dsize.toNat=dsize → r.dsize=dsize →
      e.size≠maxSize dsize → setSize fs r (maxSize dsize) newTag=none := by
  have hs := maxSize_toNat hd'
  have hmb : MaxBlock.toNat=2^31 := by decide
  unfold ScoreSize PointerDepth
  -- twelve to twenty-one pointers a block: seven levels of them hold fewer than `2^31` blocks
  have hnp : 12 ≤ psize/20 ∧ psize/20 ≤ 21 := by omega
  have hpow : (psize/20)^7<2^31 := lt_of_le_of_lt (Nat.pow_le_pow_left hnp.2 7) (by norm_num)
  have hpow0 : 2 ≤ (psize/20)^7 := le_trans (by norm_num) (Nat.pow_le_pow_left hnp.1 7)
  have hmax : (maxSize dsize).toNat ≤ MaxFileSize := by
    unfold MaxFileSize
    omega
  have hblk : (maxSize dsize).toNat ≤ MaxBlock.toNat*dsize := by
    rw [hs,hmb]
  obtain ⟨d,hdepth⟩ : ∃ d, sizeToDepth (maxSize dsize) psize dsize=some d :=
    ⟨_,sizeToDepth_eq hmax (by unfold ScoreSize; omega) (by omega) (by omega) hd'⟩
  have hpd : 7<d := by
    by_contra h
    have hle := (sizeToDepth_le_iff hmax (by unfold ScoreSize; omega) (by omega) (by omega) hd' hdepth 7).mp
      (by omega)
    unfold ScoreSize at hle
    have := Nat.mul_lt_mul_of_pos_left hpow (by omega : 0<dsize)
    omega
  have hblocks : ((maxSize dsize).toNat+dsize-1)/dsize=2^31 :=
    Nat.div_eq_of_lt_le (by rw [hs]; omega) (by rw [hs]; omega)
  have hnp32 : (psize/20).toUInt32.toNat=psize/20 := by
    simp only [Nat.toUInt32_eq,UInt32.toNat_ofNat']
    exact Nat.mod_eq_of_lt (by omega)
  have hbn32 : ((psize/20)^7).toUInt32.toNat=(psize/20)^7 := by
    simp only [Nat.toUInt32_eq,UInt32.toNat_ofNat']
    exact Nat.mod_eq_of_lt (by omega)
  have hlen : ¬(Nat.digits (psize/20) ((psize/20)^7)).length+0 ≤ 7 := by
    rw [Nat.add_zero,Nat.digits_length_le_iff (by omega)]
    exact Nat.lt_irrefl _
  refine ⟨hmax,hblk,⟨d,hdepth,hpd⟩,by rw [hblocks]; exact hpow,?_,?_⟩
  · have := @digitLoop_eq (psize/20).toUInt32 (by rw [hnp32]; omega) 0 (by unfold PointerDepth; omega)
      ((psize/20)^7).toUInt32
    rw [hnp32,hbn32] at this
    rw [this,if_neg (by unfold PointerDepth; exact hlen)]
  · intro fs r e newTag hload hpe hde hr hsize
    refine setSize_past_pointerDepth newTag hload ?_ hmax (by rw [hr]; exact hblk) hsize (by rw [hpe,hde]; exact hdepth) hpd
    intro h0
    rw [h0] at hs
    simp at hs
    omega

theorem depth_exceeds_pointerDepth_256 :
    (maxSize 256).toNat ≤ MaxFileSize ∧ (maxSize 256).toNat ≤ MaxBlock.toNat*256 ∧
    (∃ d, sizeToDepth (maxSize 256) 256 256=some d ∧ PointerDepth<d) ∧
    (256/ScoreSize)^PointerDepth<((maxSize 256).toNat+256-1)/256 ∧
    digitLoop (256/ScoreSize).toUInt32 0 ((256/ScoreSize)^PointerDepth).toUInt32=some (.error EBadAddr) ∧
    ∀ fs r e newTag, load fs r=.ok e → e.psize.toNat=256 → e.dsize.toNat=256 → r.dsize=256 →
      e.size≠maxSize 256 → setSize fs r (maxSize 256) newTag=none :=
  depth_exceeds_pointerDepth (by decide) (by decide) (by decide) (by decide)

end Fossil.Depth
