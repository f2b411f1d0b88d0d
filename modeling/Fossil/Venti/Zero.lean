import Fossil.Venti.Score
import Fossil.Lib.Bytes
import Fossil.Lib.Strip

/-!
# Zero extension and zero truncation

Venti stores a block without its trailing zeros (`ZeroTruncate`, `zero.go`): a data block loses
its trailing zero bytes; a pointer block the slop after its last whole score, then its trailing
zero scores; a root block what lies past `RootSize`. A block read back is padded to the cache's
block size again (`ZeroExtend`): with zero bytes, or for a pointer block with zero scores from
the score the old end falls in, and zero bytes after the last whole score.

For every type but the root type the two agree: truncating the extended block gives what
truncating the block before the extension gave, so a block fetched, extended and archived again
hashes to the same score. The array under the Go slice is a `Buf`; `cap` is its capacity and a
slice `b[:n]` is `region b 0 n`. `none` is a panic.
-/

namespace Fossil.Venti

open Bytes Strip

/-- A Venti block type (`BlockType`). -/
abbrev BlockType := UInt8

def RootType : BlockType := 1

def PointerType0 : BlockType := 3

def PointerType9 : BlockType := 12

/-- Bytes of a packed root block. -/
def RootSize : Nat := 300

/-- `PointerType0` to `PointerType9`. -/
def isPointer (typ : BlockType) : Bool :=
  PointerType0 ≤ typ && typ ≤ PointerType9

/-- The copy loop of `ZeroExtend` for a pointer block: a zero score at `i`, `k` times. Answers
the array and where the loop stopped. -/
def zeroScores (b : Buf) (i : Nat) : Nat → Buf × Nat
  | 0 => (b,i)
  | k+1 => zeroScores (write b i zeroScore.toList) (i+ScoreSize) k

/-- `ZeroExtend(typ, buf, size, newsize)` on an array of `cap` bytes. A pointer block gets zero
scores from the start of the score `size` falls in up to the last whole score below `newsize`,
then zero bytes; any other block zero bytes from `size`. -/
def zeroExtend (typ : BlockType) (b : Buf) (cap size newsize : Nat) : Option (Except String Buf) :=
  if cap < newsize then some (.error "newsize is too large for buffer")
  else if isPointer typ then
    let start := size/ScoreSize*ScoreSize
    let stop := newsize/ScoreSize*ScoreSize
    let (b,i) := zeroScores b start ((stop-start)/ScoreSize)
    -- `memset(buf[i:], 0)` on `buf[:newsize]`
    if newsize < i then none else some (.ok (fill b i (newsize-i)))
  else if newsize < size then none
  else some (.ok (fill b size (newsize-size)))

/-- Whether whole score `k` of a slice is not the zero score: where the truncation loop of a
pointer block stops. -/
def scoreKept (buf : List UInt8) (k : Nat) : Bool :=
  (buf.drop (k*ScoreSize)).take ScoreSize≠zeroScore.toList

/-- `ZeroTruncate(typ, buf)`: the prefix of the slice it returns. -/
def zeroTruncate (typ : BlockType) (buf : List UInt8) : List UInt8 :=
  if isPointer typ then buf.take (stripLen (scoreKept buf) (buf.length/ScoreSize)*ScoreSize)
  else if typ=RootType then (if buf.length < RootSize then buf else buf.take RootSize)
  else buf.take (stripLen (fun i => buf.getD i 0≠0) buf.length)

/-- `ZeroTruncate` returns a prefix: never more bytes than it was given. -/
theorem zeroTruncate_length_le (typ : BlockType) (buf : List UInt8) : (zeroTruncate typ buf).length ≤ buf.length := by
  unfold zeroTruncate
  split_ifs <;> simp

/-! ## Extension -/

/-- The loop writes `k` zero scores from `i` and nothing else. -/
theorem zeroScores_spec (b : Buf) (i k : Nat) :
    (zeroScores b i k).2=i+k*ScoreSize ∧ (∀ p, p < i → (zeroScores b i k).1 p=b p) ∧
      ∀ j < k, region (zeroScores b i k).1 (i+j*ScoreSize) ScoreSize=zeroScore.toList := by
  induction k generalizing b i with
  | zero => exact ⟨by simp [zeroScores],fun _ _ => rfl,fun j hj => absurd hj (by omega)⟩
  | succ k ih =>
    obtain ⟨h1,h2,h3⟩ := ih (write b i zeroScore.toList) (i+ScoreSize)
    refine ⟨by rw [zeroScores,h1]; simp only [ScoreSize]; ring,fun p hp => ?_,fun j hj => ?_⟩
    · rw [zeroScores,h2 p (by omega),write_of_not_mem (.inl hp)]
    · rw [zeroScores]
      rcases Nat.eq_zero_or_pos j with rfl | hj0
      · have hfr : ∀ p, p < i+ScoreSize → (zeroScores (write b i zeroScore.toList) (i+ScoreSize) k).1 p=
            write b i zeroScore.toList p := h2
        have hreg : region (zeroScores (write b i zeroScore.toList) (i+ScoreSize) k).1 i ScoreSize=
            region (write b i zeroScore.toList) i ScoreSize :=
          region_congr fun p _ hp => hfr p hp
        rw [Nat.zero_mul,Nat.add_zero,hreg]
        have hlen : zeroScore.toList.length=ScoreSize := by simp [ScoreSize]
        rw [← hlen]
        exact region_write_same b i _
      · have := h3 (j-1) (by omega)
        rwa [show i+ScoreSize+(j-1)*ScoreSize=i+j*ScoreSize by
          obtain ⟨j',rfl⟩ := Nat.exists_eq_add_of_lt hj0
          simp only [ScoreSize]
          ring_nf
          omega] at this

/-- Extending a pointer block keeps the bytes below the score the old end falls in and makes
every whole score from there up to the new end the zero score. -/
theorem zeroExtend_pointer {typ : BlockType} (hp : isPointer typ=true) (b : Buf) {cap n N : Nat}
    (hn : n ≤ N) (hN : N ≤ cap) :
    ∃ b', zeroExtend typ b cap n N=some (.ok b') ∧ (∀ p < n/ScoreSize*ScoreSize, b' p=b p) ∧
      ∀ j, n/ScoreSize ≤ j → j < N/ScoreSize → region b' (j*ScoreSize) ScoreSize=zeroScore.toList := by
  have hs : n/ScoreSize ≤ N/ScoreSize := Nat.div_le_div_right hn
  have hcount : (N/ScoreSize*ScoreSize-n/ScoreSize*ScoreSize)/ScoreSize=N/ScoreSize-n/ScoreSize := by
    rw [← Nat.sub_mul,Nat.mul_div_cancel _ (by decide)]
  obtain ⟨h1,h2,h3⟩ := zeroScores_spec b (n/ScoreSize*ScoreSize) (N/ScoreSize-n/ScoreSize)
  have hstop : (zeroScores b (n/ScoreSize*ScoreSize) (N/ScoreSize-n/ScoreSize)).2=N/ScoreSize*ScoreSize := by
    rw [h1,← Nat.add_mul,Nat.add_sub_cancel' hs]
  have hle : N/ScoreSize*ScoreSize ≤ N := Nat.div_mul_le_self N ScoreSize
  refine ⟨fill (zeroScores b (n/ScoreSize*ScoreSize) (N/ScoreSize-n/ScoreSize)).1 (N/ScoreSize*ScoreSize)
    (N-N/ScoreSize*ScoreSize),?_,fun p hp => ?_,fun j hj1 hj2 => ?_⟩
  · simp only [zeroExtend,show ¬cap < N by omega,if_false,hp,if_true,hcount]
    rw [← hstop,if_neg (by rw [hstop]; omega)]
  · rw [fill_of_not_mem (.inl (by have := Nat.mul_le_mul_right ScoreSize hs; omega)),h2 p hp]
  · have hj := h3 (j-n/ScoreSize) (by omega)
    rw [show n/ScoreSize*ScoreSize+(j-n/ScoreSize)*ScoreSize=j*ScoreSize by
      rw [← Nat.add_mul,Nat.add_sub_cancel' hj1]] at hj
    rw [region_fill_disjoint (.inl (by
      rw [← Nat.succ_mul]
      exact Nat.mul_le_mul_right ScoreSize hj2)),hj]

/-- Extending any other block keeps the bytes below the old end and zeroes the rest up to the
new end. -/
theorem zeroExtend_data {typ : BlockType} (hp : isPointer typ=false) (b : Buf) {cap n N : Nat}
    (hn : n ≤ N) (hN : N ≤ cap) :
    ∃ b', zeroExtend typ b cap n N=some (.ok b') ∧ (∀ p < n, b' p=b p) ∧ ∀ p, n ≤ p → p < N → b' p=0 := by
  refine ⟨fill b n (N-n),?_,fun p hp => fill_of_not_mem (.inl hp),fun p h1 h2 => fill_of_mem h1 (by omega)⟩
  simp only [zeroExtend,show ¬cap < N by omega,if_false,hp,Bool.false_eq_true,show ¬N < n by omega]

/-! ## Truncation -/

theorem getD_region {b : Buf} {m i : Nat} (h : i < m) : (region b 0 m).getD i 0=b i := by
  rw [List.getD_eq_getElem _ _ (by simpa using h),region_getElem,Nat.zero_add]

/-- Score `k` of a slice that holds it whole. -/
theorem scoreKept_region {b : Buf} {m k : Nat} (h : (k+1)*ScoreSize ≤ m) :
    scoreKept (region b 0 m) k=decide (region b (k*ScoreSize) ScoreSize≠zeroScore.toList) := by
  rw [scoreKept,region_drop _ _ (by rw [Nat.succ_mul] at h; omega),region_take _ _ (by rw [Nat.succ_mul] at h; omega),
    Nat.zero_add]

/-- A pointer block's truncation reads only the whole scores below `n/ScoreSize` of `b[:n]`;
zero scores after them change nothing. -/
theorem zeroTruncate_pointer {typ : BlockType} (hp : isPointer typ=true) {b b' : Buf} {n N : Nat} (hn : n ≤ N)
    (hb : ∀ p < n/ScoreSize*ScoreSize, b' p=b p)
    (hz : ∀ j, n/ScoreSize ≤ j → j < N/ScoreSize → region b' (j*ScoreSize) ScoreSize=zeroScore.toList) :
    zeroTruncate typ (region b' 0 N)=zeroTruncate typ (region b 0 n) := by
  have hs : n/ScoreSize ≤ N/ScoreSize := Nat.div_le_div_right hn
  have hsn : n/ScoreSize*ScoreSize ≤ n := Nat.div_mul_le_self n ScoreSize
  have hN : N/ScoreSize*ScoreSize ≤ N := Nat.div_mul_le_self N ScoreSize
  -- the zero scores from `n/ScoreSize` on are stripped anyway
  have hskip : stripLen (scoreKept (region b' 0 N)) (N/ScoreSize)=stripLen (scoreKept (region b' 0 N)) (n/ScoreSize) := by
    refine stripLen_skip hs fun j hj1 hj2 => ?_
    rw [scoreKept_region (le_trans (Nat.mul_le_mul_right ScoreSize hj2) hN),hz j hj1 hj2]
    simp
  have hcongr : stripLen (scoreKept (region b' 0 N)) (n/ScoreSize)=stripLen (scoreKept (region b 0 n)) (n/ScoreSize) := by
    refine stripLen_congr fun j hj => ?_
    have hj' : (j+1)*ScoreSize ≤ n/ScoreSize*ScoreSize := Nat.mul_le_mul_right ScoreSize hj
    rw [scoreKept_region (by omega),scoreKept_region (by omega),
      region_congr fun p _ hp => hb p (by rw [Nat.succ_mul] at hj'; omega)]
  have hlen : stripLen (scoreKept (region b 0 n)) (n/ScoreSize) ≤ n/ScoreSize := stripLen_le _
  have hL := Nat.mul_le_mul_right ScoreSize hlen
  simp only [zeroTruncate,hp,if_true,region_length,hskip,hcongr]
  rw [region_take _ _ (by omega),region_take _ _ (by omega)]
  exact region_congr fun p _ hp => hb p (by omega)

/-- Any other block's truncation reads only `b[:n]` when the bytes from `n` on are zero. -/
theorem zeroTruncate_data {typ : BlockType} (hp : isPointer typ=false) (hr : typ≠RootType) {b b' : Buf}
    {n N : Nat} (hn : n ≤ N) (hb : ∀ p < n, b' p=b p) (hz : ∀ p, n ≤ p → p < N → b' p=0) :
    zeroTruncate typ (region b' 0 N)=zeroTruncate typ (region b 0 n) := by
  have hskip : stripLen (fun i => decide ((region b' 0 N).getD i 0≠0)) N=
      stripLen (fun i => decide ((region b' 0 N).getD i 0≠0)) n :=
    stripLen_skip hn fun j hj1 hj2 => by
      rw [getD_region hj2,hz j hj1 hj2]
      decide
  have hcongr : stripLen (fun i => decide ((region b' 0 N).getD i 0≠0)) n=
      stripLen (fun i => decide ((region b 0 n).getD i 0≠0)) n :=
    stripLen_congr fun j hj => by rw [getD_region (by omega),getD_region hj,hb j hj]
  have hlen : stripLen (fun i => decide ((region b 0 n).getD i 0≠0)) n ≤ n := stripLen_le _
  simp only [zeroTruncate,hp,Bool.false_eq_true,if_false,hr,region_length,hskip,hcongr]
  rw [region_take _ _ (by omega),region_take _ _ hlen]
  exact region_congr fun p _ hp => hb p (by omega)

/-! ## Truncating twice -/

theorem zeroTruncate_pointer_idem {typ : BlockType} (hp : isPointer typ=true) (l : List UInt8) :
    zeroTruncate typ (zeroTruncate typ l)=zeroTruncate typ l := by
  obtain ⟨S,hS⟩ : ∃ S, stripLen (scoreKept l) (l.length/ScoreSize)=S := ⟨_,rfl⟩
  have hSle : S*ScoreSize ≤ l.length := by
    rw [← hS]
    exact le_trans (Nat.mul_le_mul_right ScoreSize (stripLen_le _)) (Nat.div_mul_le_self _ _)
  have htr : zeroTruncate typ l=l.take (S*ScoreSize) := by simp [zeroTruncate,hp,hS]
  have hlen : (l.take (S*ScoreSize)).length/ScoreSize=S := by
    rw [List.length_take,Nat.min_eq_left hSle,Nat.mul_div_cancel _ (by decide)]
  have hkeep : ∀ j < S, scoreKept (l.take (S*ScoreSize)) j=scoreKept l j := fun j hj => by
    have hj' : (j+1)*ScoreSize ≤ S*ScoreSize := Nat.mul_le_mul_right ScoreSize hj
    rw [Nat.succ_mul] at hj'
    simp only [scoreKept,List.drop_take,List.take_take]
    rw [Nat.min_eq_left (by omega)]
  have hfix : stripLen (scoreKept l) S=S := by rw [← hS,stripLen_stripLen]
  rw [htr,zeroTruncate,if_pos hp,hlen,stripLen_congr hkeep,hfix,List.take_take,Nat.min_self]

theorem zeroTruncate_data_idem {typ : BlockType} (hp : isPointer typ=false) (hr : typ≠RootType) (l : List UInt8) :
    zeroTruncate typ (zeroTruncate typ l)=zeroTruncate typ l := by
  obtain ⟨L,hL⟩ : ∃ L, stripLen (fun i => decide (l.getD i 0≠0)) l.length=L := ⟨_,rfl⟩
  have hLle : L ≤ l.length := by
    rw [← hL]
    exact stripLen_le _
  have htr : zeroTruncate typ l=l.take L := by rw [zeroTruncate,if_neg (by simp [hp]),if_neg hr,hL]
  have hkeep : ∀ j < L, decide ((l.take L).getD j 0≠0)=decide (l.getD j 0≠0) := fun j hj => by
    simp [hj]
  have hfix : stripLen (fun i => decide (l.getD i 0≠0)) L=L := by rw [← hL,stripLen_stripLen]
  rw [htr,zeroTruncate,if_neg (by simp [hp]),if_neg hr,List.length_take,Nat.min_eq_left hLle,
    stripLen_congr hkeep,hfix,List.take_take,Nat.min_self]

theorem zeroTruncate_root_idem (l : List UInt8) :
    zeroTruncate RootType (zeroTruncate RootType l)=zeroTruncate RootType l := by
  have hp : isPointer RootType=false := by decide
  by_cases h : l.length < RootSize
  · simp [zeroTruncate,hp,h]
  · have hle : (l.take RootSize).length=RootSize := by
      rw [List.length_take]
      omega
    simp [zeroTruncate,hp,h,hle]

/-- For every block type but the root type, truncating a block extended from `n` to `N` bytes,
as a slice of `N` or of `n` bytes, gives what truncating its first `n` bytes gave before; and
truncation, of any type, is idempotent. -/
theorem zeroTruncate_zeroExtend (typ : BlockType) (hr : typ≠RootType) (b : Buf) (cap n N : Nat)
    (hn : n ≤ N) (hN : N ≤ cap) :
    (∃ b', zeroExtend typ b cap n N=some (.ok b') ∧
      zeroTruncate typ (region b' 0 N)=zeroTruncate typ (region b' 0 n) ∧
      zeroTruncate typ (region b' 0 N)=zeroTruncate typ (region b 0 n)) ∧
    ∀ typ' l, zeroTruncate typ' (zeroTruncate typ' l)=zeroTruncate typ' l := by
  refine ⟨?_,fun typ' l => ?_⟩
  · cases hp : isPointer typ
    · obtain ⟨b',hext,hb,hz⟩ := zeroExtend_data hp b hn hN
      exact ⟨b',hext,(zeroTruncate_data hp hr hn (fun _ _ => rfl) hz).trans
          (zeroTruncate_data hp hr le_rfl (fun _ _ => rfl) fun p h1 h2 => absurd h2 (by omega)).symm,
        zeroTruncate_data hp hr hn hb hz⟩
    · obtain ⟨b',hext,hb,hz⟩ := zeroExtend_pointer hp b hn hN
      have hself : zeroTruncate typ (region b' 0 n)=zeroTruncate typ (region b 0 n) :=
        zeroTruncate_pointer hp le_rfl hb fun j h1 h2 => absurd h2 (by omega)
      exact ⟨b',hext,(zeroTruncate_pointer hp hn hb hz).trans hself.symm,zeroTruncate_pointer hp hn hb hz⟩
  · by_cases hroot : typ'=RootType
    · rw [hroot]
      exact zeroTruncate_root_idem l
    · cases hp : isPointer typ'
      · exact zeroTruncate_data_idem hp hroot l
      · exact zeroTruncate_pointer_idem hp l

/-- The case of `TestZeroExtend` that keeps two bytes of a pointer block, extended to one score
and two bytes in an array of 24. -/
theorem zeroTruncate_zeroExtend_pointerType2 :
    PointerType0+2≠RootType ∧ 2 ≤ ScoreSize+2 ∧ ScoreSize+2 ≤ 24 ∧
    (∃ b', zeroExtend (PointerType0+2) (fun _ => 7) 24 2 (ScoreSize+2)=some (.ok b') ∧
      zeroTruncate (PointerType0+2) (region b' 0 (ScoreSize+2))=zeroTruncate (PointerType0+2) (region b' 0 2) ∧
      zeroTruncate (PointerType0+2) (region b' 0 (ScoreSize+2))=zeroTruncate (PointerType0+2) (region (fun _ => 7) 0 2)) ∧
    ∀ typ' l, zeroTruncate typ' (zeroTruncate typ' l)=zeroTruncate typ' l :=
  ⟨by decide,by decide,by decide,
    zeroTruncate_zeroExtend (PointerType0+2) (by decide) (fun _ => 7) 24 2 (ScoreSize+2) (by decide) (by decide)⟩

example : zeroTruncate 13 [0,0,0,1,2,3,0,0,0]=[0,0,0,1,2,3] := by decide

end Fossil.Venti
