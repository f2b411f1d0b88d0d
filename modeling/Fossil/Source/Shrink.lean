import Fossil.Source.Depth

/-!
# Cutting a tree down to a new size

`shrinkSize` (`source.go`) walks down a source's tree towards the new end of the file. In each
pointer block it zeroes the scores of the children that start at or past the new size `s`,
handing each local child to `removeLink`, and goes down the child that holds the end, with the
size taken relative to that child; it stops when the end falls on a child's boundary. In the data
block at the bottom it zeroes the bytes past the end. A block on Venti, or not of the current
epoch, ends the walk.

The blocks the walk visits are the right spine: the blocks of the tree whose bytes have `s`
strictly inside (`OnSpine`), reached from the root along the pointers (`Below`). When the spine's
blocks are local, labelled with their level and the tree's tag and of the current epoch, the walk
cuts each of them as `cutBlock` says and leaves every other block alone, provided the 64-bit
arithmetic of the walk does not wrap: each pointer of the root accounts for `dsize * ppb^(d-1)`
bytes, computed by repeated multiplication in 64 bits. Every tree as deep as `sizeToDepth` of the
new size, which is what `setSize` hands `shrinkSize`, meets that; a deeper tree of large blocks
does not, and `shrinkSize` then divides by zero.
-/

namespace Fossil.Shrink

open Fossil.Venti Fossil.Block Fossil.Source Fossil.Tree Fossil.Depth Bytes

/-! ## The geometry of a tree -/

/-- Pointers per pointer block of the tree of `e`. -/
def ppb (e : Entry) : Nat :=
  e.psize.toNat/ScoreSize

/-- The bytes a block at level `L` of the tree of `e` covers. -/
def span (e : Entry) (L : Nat) : Nat :=
  e.dsize.toNat*ppb e^L

/-- The type of the blocks at level `L` of the tree of `e`, as `EntryType` and `typ--` give it. -/
def levelType (e : Entry) (L : Nat) : BlockType :=
  (if e.flags &&& EntryDir≠0 then BtDir else BtData) ||| L.toUInt8

theorem span_succ (e : Entry) (L : Nat) : span e (L+1)=span e L*ppb e := by
  unfold span
  rw [Nat.pow_succ,Nat.mul_assoc]

theorem span_pos {e : Entry} (hppb : 0 < ppb e) (hdsz : 0 < e.dsize.toNat) (L : Nat) : 0 < span e L :=
  Nat.mul_pos hdsz (Nat.pow_pos hppb)

/-- The level bits and the directory bit of a level's type. -/
theorem levelType_toNat (e : Entry) {L : Nat} (hL : L ≤ 7) :
    (levelType e L).toNat=(if e.flags &&& EntryDir≠0 then 8 else 0)+L := by
  have hL8 : L%2^8=L := Nat.mod_eq_of_lt (by omega)
  unfold levelType
  split
  · rw [UInt8.toNat_or]
    simp only [BtDir,Nat.toUInt8_eq,UInt8.toNat_ofNat',hL8]
    exact (Nat.two_pow_add_eq_or_of_lt (i := 3) (by omega) 1).symm
  · simp only [BtData,Nat.toUInt8_eq,UInt8.zero_or,UInt8.toNat_ofNat',hL8]
    omega

section Levels

variable (e : Entry) {L L' : Nat}

/-- One level down is one type down. -/
theorem levelType_sub_one (hL : L+1 ≤ 7) : levelType e (L+1)-1=levelType e L := by
  have h1 : (1 : UInt8) ≤ levelType e (L+1) := by
    rw [UInt8.le_iff_toNat_le,levelType_toNat e hL]
    split <;> simp only [UInt8.reduceToNat] <;> omega
  apply UInt8.toNat_inj.mp
  rw [UInt8.toNat_sub_of_le _ _ h1,levelType_toNat e hL,levelType_toNat e (by omega)]
  simp

/-- Only level 0 has no level bits. -/
theorem levelType_level (hL : L ≤ 7) : levelType e L &&& BtLevelMask=0 ↔ L=0 := by
  have hmask : (levelType e L &&& BtLevelMask).toNat=L := by
    rw [UInt8.toNat_and,levelType_toNat e hL]
    simp only [BtLevelMask,UInt8.reduceToNat]
    rw [show (7 : Nat)=2^3-1 from rfl,Nat.and_two_pow_sub_one_eq_mod]
    split <;> omega
  rw [← UInt8.toNat_inj,hmask]
  simp

/-- The data level of a file's tree is `BtData`, that of a directory's tree is not. -/
theorem levelType_zero : levelType e 0=BtData ↔ e.flags &&& EntryDir=0 := by
  rw [← UInt8.toNat_inj,levelType_toNat e (by omega)]
  split <;> simp_all [BtData]

/-- Different levels have different types. -/
theorem levelType_inj (hL : L ≤ 7) (hL' : L' ≤ 7) (h : levelType e L=levelType e L') : L=L' := by
  have := congrArg UInt8.toNat h
  rw [levelType_toNat e hL,levelType_toNat e hL'] at this
  omega

/-- The root's type is that of the tree's depth. -/
theorem entryType_eq : entryType e=levelType e e.depth.toNat := by
  unfold entryType levelType
  rw [Nat.toUInt8_eq,UInt8.ofNat_toNat]

end Levels

/-! ## Which slots are cut -/

/-- The first child to zero, `(t+S-1)/S` rounded up, is at or before slot `j` exactly when that
slot starts at or past `t`. -/
theorem ceil_le_iff {t S j : Nat} (hS : 0 < S) : (t+S-1)/S ≤ j ↔ t ≤ j*S := by
  rw [Nat.div_le_iff_le_mul_add_pred hS,Nat.mul_comm S j]
  omega

/-- Off a boundary, the child holding the end is the one before the first child zeroed. -/
theorem ceil_eq_of_mod {t S : Nat} (hS : 0 < S) (h : t%S≠0) : (t+S-1)/S=t/S+1 := by
  apply Nat.le_antisymm
  · rw [ceil_le_iff hS,Nat.add_mul,Nat.one_mul]
    have := Nat.div_add_mod t S
    rw [Nat.mul_comm] at this
    have := Nat.mod_lt t hS
    omega
  · apply Nat.le_of_not_lt
    intro hlt
    have hle : (t+S-1)/S ≤ t/S := Nat.le_of_lt_succ hlt
    rw [ceil_le_iff hS] at hle
    have := Nat.div_mul_le_self t S
    have := Nat.div_add_mod t S
    rw [Nat.mul_comm] at this
    omega

/-- A pointer block with its scores `i` to `ppb-1` zeroed. -/
def zeroSlots (d : Buf) (ppb i : Nat) : Buf :=
  fun k => if i*ScoreSize ≤ k ∧ k < ppb*ScoreSize then zeroScore.getD (k%ScoreSize) 0 else d k

section Slots

variable {d : Buf} {ppb i : Nat}

/-- Zeroing score `i`, then the scores after it, zeroes the scores from `i` on. -/
theorem zeroSlots_write (hi : i < ppb) : zeroSlots (write d (i*ScoreSize) zeroScore.toList) ppb (i+1)=zeroSlots d ppb i := by
  have hlen : zeroScore.toList.length=ScoreSize := by simp [ScoreSize]
  have hend := Nat.mul_le_mul_right ScoreSize (show i+1 ≤ ppb from hi)
  rw [Nat.add_mul,Nat.one_mul] at hend
  funext k
  unfold zeroSlots write
  rw [hlen,Nat.add_mul,Nat.one_mul]
  by_cases hk : i*ScoreSize ≤ k ∧ k < i*ScoreSize+ScoreSize
  · have hmod : k%ScoreSize=k-i*ScoreSize := by
      have hk' : k=i*ScoreSize+(k-i*ScoreSize) := by omega
      conv_lhs => rw [hk']
      rw [Nat.mul_add_mod_of_lt (by omega)]
    rw [if_neg (fun h => by omega),if_pos hk,if_pos ⟨hk.1,by omega⟩,hmod]
    simp [Vector.getD]
  · rw [if_neg hk]
    by_cases hk' : i*ScoreSize ≤ k
    · simp only [show i*ScoreSize+ScoreSize ≤ k by omega,hk',true_and]
    · simp only [show ¬i*ScoreSize+ScoreSize ≤ k by omega,hk',false_and,if_false]

/-- From past the last score on, nothing is zeroed. -/
theorem zeroSlots_of_le (hi : ppb ≤ i) : zeroSlots d ppb i=d := by
  funext k
  unfold zeroSlots
  rw [if_neg]
  intro h
  have := Nat.mul_le_mul_right ScoreSize hi
  omega

/-- Score `j` of a block with the scores from `i` on zeroed. -/
theorem scoreAt_zeroSlots (j : Nat) :
    scoreAt (zeroSlots d ppb i) (j*ScoreSize)=if i ≤ j ∧ j < ppb then zeroScore else scoreAt d (j*ScoreSize) := by
  have hiff : ∀ k < ScoreSize, (i*ScoreSize ≤ j*ScoreSize+k ∧ j*ScoreSize+k < ppb*ScoreSize) ↔ (i ≤ j ∧ j < ppb) := by
    intro k hk
    constructor
    · rintro ⟨h1,h2⟩
      refine ⟨Nat.le_of_lt_succ (Nat.lt_of_mul_lt_mul_right (a := ScoreSize) ?_),
        Nat.lt_of_mul_lt_mul_right (a := ScoreSize) (by omega)⟩
      rw [Nat.succ_mul]
      omega
    · rintro ⟨h1,h2⟩
      have := Nat.mul_le_mul_right ScoreSize h1
      have := Nat.mul_le_mul_right ScoreSize (show j+1 ≤ ppb from h2)
      rw [Nat.add_mul] at this
      omega
  by_cases hj : i ≤ j ∧ j < ppb
  · rw [if_pos hj]
    apply Vector.ext
    intro k hk
    unfold scoreAt zeroSlots
    rw [Vector.getElem_ofFn,if_pos ((hiff k hk).mpr hj)]
    show zeroScore.getD ((j*ScoreSize+k)%ScoreSize) 0=zeroScore[k]
    rw [Nat.mul_add_mod_of_lt (show k < ScoreSize from hk)]
    simp [Vector.getD,hk]
  · rw [if_neg hj]
    apply Vector.ext
    intro k hk
    unfold scoreAt zeroSlots
    rw [Vector.getElem_ofFn,Vector.getElem_ofFn,if_neg (fun h => hj ((hiff k hk).mp h))]

/-- Zeroing score `i` leaves every other score. -/
theorem scoreAt_write_other {j : Nat} (hij : i≠j) :
    scoreAt (write d (i*ScoreSize) zeroScore.toList) (j*ScoreSize)=scoreAt d (j*ScoreSize) := by
  apply Vector.ext
  intro k hk
  unfold scoreAt
  rw [Vector.getElem_ofFn,Vector.getElem_ofFn]
  apply write_of_not_mem
  have hlen : zeroScore.toList.length=ScoreSize := by simp [ScoreSize]
  rw [hlen]
  rcases Nat.lt_or_gt_of_ne hij with h | h
  · have := Nat.mul_le_mul_right ScoreSize (show i+1 ≤ j from h)
    rw [Nat.add_mul] at this
    right
    omega
  · have := Nat.mul_le_mul_right ScoreSize (show j+1 ≤ i from h)
    rw [Nat.add_mul] at this
    left
    show j*ScoreSize+k < i*ScoreSize
    have : k < ScoreSize := hk
    omega

end Slots

/-! ## Zeroing the scores past the end -/

/-- The zeroing loop of `shrinkSize`, given fuel for the scores `i` to `ppb-1` of block `b`: it
zeroes them in the block, and hands to `removeLink` the local addresses they held, each with the
holder `p`, the type one level down and the tag. -/
theorem zeroPointers_eq {p : Nat} {typ : BlockType} {tag : UInt32} {ppb : Nat} :
    ∀ fuel i (fs : Fs) (b : Blk), ppb ≤ i+fuel → fs.data b.addr.toNat=b.data →
    ∃ new, zeroPointers p typ tag ppb fuel i fs b=
        ({ fs with data := Function.update fs.data b.addr.toNat (zeroSlots b.data ppb i), unlinks := new++fs.unlinks },
          { b with data := zeroSlots b.data ppb i }) ∧
      ∀ u, u ∈ new ↔ ∃ j, i ≤ j ∧ j < ppb ∧ globalToLocal (scoreAt b.data (j*ScoreSize))≠NilBlock ∧
        u=(p,globalToLocal (scoreAt b.data (j*ScoreSize)),typ-1,tag) := by
  have hstop : ∀ fuel i (fs : Fs) (b : Blk), ppb ≤ i → fs.data b.addr.toNat=b.data →
      zeroPointers p typ tag ppb fuel i fs b=(fs,b) →
      ∃ new, zeroPointers p typ tag ppb fuel i fs b=
        ({ fs with data := Function.update fs.data b.addr.toNat (zeroSlots b.data ppb i), unlinks := new++fs.unlinks },
          { b with data := zeroSlots b.data ppb i }) ∧
      ∀ u, u ∈ new ↔ ∃ j, i ≤ j ∧ j < ppb ∧ globalToLocal (scoreAt b.data (j*ScoreSize))≠NilBlock ∧
        u=(p,globalToLocal (scoreAt b.data (j*ScoreSize)),typ-1,tag) := by
    intro fuel i fs b hi hb hz
    refine ⟨[],?_,fun u => ⟨fun h => absurd h List.not_mem_nil,fun ⟨j,hj,hj',_⟩ => absurd (Nat.lt_of_le_of_lt hj hj') (by omega)⟩⟩
    have hu : Function.update fs.data b.addr.toNat b.data=fs.data := by
      rw [← hb]
      exact Function.update_eq_self _ _
    rw [hz,zeroSlots_of_le hi,hu]
    rfl
  intro fuel
  induction fuel with
  | zero =>
    intro i fs b hi hb
    exact hstop 0 i fs b (by omega) hb rfl
  | succ fuel ih =>
    intro i fs b hi hb
    by_cases hlt : i < ppb
    · have hshift : ∀ j, i+1 ≤ j → scoreAt (write b.data (i*ScoreSize) zeroScore.toList) (j*ScoreSize)=scoreAt b.data (j*ScoreSize) :=
        fun j hj => scoreAt_write_other (by omega)
      let head := if globalToLocal (scoreAt b.data (i*ScoreSize))≠NilBlock
        then [(p,globalToLocal (scoreAt b.data (i*ScoreSize)),typ-1,tag)] else []
      have hhead : ∀ u, u ∈ head ↔ globalToLocal (scoreAt b.data (i*ScoreSize))≠NilBlock ∧
          u=(p,globalToLocal (scoreAt b.data (i*ScoreSize)),typ-1,tag) := by
        intro u
        by_cases hloc : globalToLocal (scoreAt b.data (i*ScoreSize))≠NilBlock
        · simp only [head,if_pos hloc,List.mem_singleton]
          exact ⟨fun h => ⟨hloc,h⟩,And.right⟩
        · simp only [head,if_neg hloc,List.not_mem_nil,false_iff]
          exact fun h => hloc h.1
      have hstep : zeroPointers p typ tag ppb (fuel+1) i fs b=zeroPointers p typ tag ppb fuel (i+1)
          { fs with data := Function.update fs.data b.addr.toNat (write b.data (i*ScoreSize) zeroScore.toList),
                    unlinks := head++fs.unlinks }
          { b with data := write b.data (i*ScoreSize) zeroScore.toList } := by
        conv_lhs => unfold zeroPointers
        rw [if_pos hlt]
        by_cases hloc : globalToLocal (scoreAt b.data (i*ScoreSize))≠NilBlock
        · simp only [head,if_pos hloc]
          rfl
        · simp only [head,if_neg hloc]
          rfl
      obtain ⟨new,heq,hmem⟩ := ih (i+1)
        { fs with data := Function.update fs.data b.addr.toNat (write b.data (i*ScoreSize) zeroScore.toList),
                  unlinks := head++fs.unlinks }
        { b with data := write b.data (i*ScoreSize) zeroScore.toList } (by omega) (by simp)
      refine ⟨new++head,?_,?_⟩
      · rw [hstep,heq]
        simp only [Function.update_idem,zeroSlots_write hlt,List.append_assoc]
      · intro u
        rw [List.mem_append,hmem,hhead]
        constructor
        · rintro (⟨j,hj,hj',hl,rfl⟩ | ⟨hl,rfl⟩)
          · rw [hshift j hj] at hl ⊢
            exact ⟨j,by omega,hj',hl,rfl⟩
          · exact ⟨i,Nat.le_refl i,hlt,hl,rfl⟩
        · rintro ⟨j,hj,hj',hl,rfl⟩
          rcases Nat.eq_or_lt_of_le hj with rfl | hj
          · exact Or.inr ⟨hl,rfl⟩
          · exact Or.inl ⟨j,hj,hj',by rwa [hshift j hj],by rw [hshift j hj]⟩
    · exact hstop (fuel+1) i fs b (by omega) hb (by unfold zeroPointers; rw [if_neg hlt])

/-! ## The tree below a block -/

/-- The block score `j` of block `a` points at. -/
def childAddr (D : Nat → Buf) (a : UInt32) (j : Nat) : UInt32 :=
  globalToLocal (scoreAt (D a.toNat) (j*ScoreSize))

/-- Block `x` at level `L'`, covering the bytes from `lo'`, lies below block `a` at level `L`,
covering the bytes from `lo`, in the tree whose blocks hold the bytes `D`: child `j` of a pointer
block at level `L+1` covers the `span e L` bytes from `lo + j * span e L`. -/
inductive Below (e : Entry) (D : Nat → Buf) : UInt32 → Nat → Nat → UInt32 → Nat → Nat → Prop
  | refl (a : UInt32) (L lo : Nat) : Below e D a L lo a L lo
  | child {a x : UInt32} {L lo L' lo' : Nat} (j : Nat) (hj : j < ppb e)
      (h : Below e D (childAddr D a j) L (lo+j*span e L) x L' lo') : Below e D a (L+1) lo x L' lo'

/-- Block `x` lies below `a` with the new size `s` strictly inside its bytes. -/
def OnPath (e : Entry) (D : Nat → Buf) (s : Nat) (a : UInt32) (L lo : Nat) (x : UInt32) (L' lo' : Nat) : Prop :=
  Below e D a L lo x L' lo' ∧ lo' < s ∧ s < lo'+span e L'

/-- The right spine of the tree of `e` for the new size `s`: the blocks whose bytes have `s`
strictly inside. -/
def OnSpine (fs : Fs) (e : Entry) (s : Nat) (x : UInt32) (L lo : Nat) : Prop :=
  OnPath e fs.data s (globalToLocal e.score) e.depth.toNat 0 x L lo

section Paths

variable {e : Entry} {D : Nat → Buf} {s : Nat}

/-- A block below another lies within its bytes, at a level no higher. -/
theorem below_range {a x : UInt32} {L lo L' lo' : Nat} (h : Below e D a L lo x L' lo') :
    L' ≤ L ∧ lo ≤ lo' ∧ lo'+span e L' ≤ lo+span e L := by
  induction h with
  | refl => exact ⟨Nat.le_refl _,Nat.le_refl _,Nat.le_refl _⟩
  | @child a x L lo L' lo' j hj h ih =>
    -- child `j` ends where child `j+1` starts, at most at the end of the block
    have hm := Nat.mul_le_mul_right (span e L) (show j+1 ≤ ppb e from hj)
    rw [Nat.add_mul,Nat.one_mul] at hm
    rw [span_succ,Nat.mul_comm (span e L)]
    omega

/-- Paths compose. -/
theorem below_trans {a x y : UInt32} {L lo L₁ lo₁ L₂ lo₂ : Nat} (h₁ : Below e D a L lo x L₁ lo₁)
    (h₂ : Below e D x L₁ lo₁ y L₂ lo₂) : Below e D a L lo y L₂ lo₂ := by
  induction h₁ with
  | refl => exact h₂
  | child j hj _ ih => exact Below.child j hj (ih h₂)

/-- A block on the path is on its own path. -/
theorem onPath_self (a : UInt32) {L lo : Nat} (hlo : lo < s) (hs : s < lo+span e L) : OnPath e D s a L lo a L lo :=
  ⟨Below.refl a L lo,hlo,hs⟩

/-- Below a data block there is only the block itself. -/
theorem onPath_zero {a x : UInt32} {lo L' lo' : Nat} (h : OnPath e D s a 0 lo x L' lo') : x=a ∧ L'=0 ∧ lo'=lo := by
  cases h.1
  exact ⟨rfl,rfl,rfl⟩

/-- The path below a pointer block is the block itself, or goes on in the child that holds the
end, when the end is not on a child's boundary. -/
theorem onPath_cases {a x : UInt32} {L lo L' lo' : Nat} (h : OnPath e D s a (L+1) lo x L' lo') :
    (x=a ∧ L'=L+1 ∧ lo'=lo) ∨ ((s-lo)%span e L≠0 ∧
      OnPath e D s (childAddr D a ((s-lo)/span e L)) L (lo+(s-lo)/span e L*span e L) x L' lo') := by
  obtain ⟨hb,h1,h2⟩ := h
  cases hb with
  | refl => exact Or.inl ⟨rfl,rfl,rfl⟩
  | child j hj hb =>
    -- the child's bytes hold `s` strictly inside, so the child is the one `s` falls in
    obtain ⟨-,hlo,hhi⟩ := below_range hb
    have hlow : j*span e L ≤ s-lo := by omega
    have hhigh : s-lo < (j+1)*span e L := by rw [Nat.add_mul,Nat.one_mul]; omega
    have hj' : (s-lo)/span e L=j := Nat.div_eq_of_lt_le hlow hhigh
    refine Or.inr ⟨?_,?_⟩
    · intro h0
      have := Nat.div_add_mod (s-lo) (span e L)
      rw [h0,hj',Nat.add_zero,Nat.mul_comm] at this
      omega
    · rw [hj']
      exact ⟨hb,h1,h2⟩

/-- Conversely, the path below the child that holds the end is on the path below its parent. -/
theorem onPath_child {a x : UInt32} {L lo L' lo' : Nat} (hlo : lo < s) (hs : s < lo+span e (L+1))
    (h : OnPath e D s (childAddr D a ((s-lo)/span e L)) L (lo+(s-lo)/span e L*span e L) x L' lo') :
    OnPath e D s a (L+1) lo x L' lo' := by
  have hj : (s-lo)/span e L < ppb e := by
    apply Nat.div_lt_of_lt_mul
    rw [span_succ] at hs
    omega
  exact ⟨Below.child _ hj h.1,h.2⟩

/-- The child that holds the end has it strictly inside, when the end is not on its boundary. -/
theorem onPath_holder (c : UInt32) {L lo : Nat} (hS : 0 < span e L) (hlo : lo < s) (h0 : (s-lo)%span e L≠0) :
    OnPath e D s c L (lo+(s-lo)/span e L*span e L) c L (lo+(s-lo)/span e L*span e L) := by
  have hdm := Nat.div_add_mod (s-lo) (span e L)
  rw [Nat.mul_comm] at hdm
  have hml := Nat.mod_lt (s-lo) hS
  exact onPath_self _ (by omega) (by omega)

end Paths

/-! ## One step of the walk -/

/-- The state once the walk has zeroed the scores of block `a` from `i` on, handing on `new`. -/
def zeroedAt (fs : Fs) (e : Entry) (a : UInt32) (i : Nat) (new : List (Nat × UInt32 × BlockType × UInt32)) : Fs :=
  { fs with data := Function.update fs.data a.toNat (zeroSlots (fs.data a.toNat) (ppb e) i), unlinks := new++fs.unlinks }

/-- The bytes the walk leaves in a data block, `size` bytes into it: a file's block loses the
bytes past `size`, a directory's keeps them. -/
def cutData (e : Entry) (d : Buf) (size : Nat) : Buf :=
  if e.flags &&& EntryDir=0 then fill d size (e.dsize.toNat-size) else d

section Step

variable {e : Entry} {fs : Fs} {a : UInt32} {ptrsz size : UInt64}

/-- At a local data block of the current epoch, the walk cuts the block's bytes. -/
theorem shrinkLoop'_data (fuel : Nat) (ha : a≠NilBlock) (hep : (fs.label a.toNat).epoch=fs.ehi)
    (hsize : size.toNat < e.dsize.toNat) :
    shrinkLoop' e (ppb e) (fuel+1) fs ⟨a,localToGlobal a,fs.label a.toNat,fs.data a.toNat⟩ (levelType e 0) ptrsz size=
      some (.ok (),{ fs with data := Function.update fs.data a.toNat (cutData e (fs.data a.toNat) size.toNat) }) := by
  rw [shrinkLoop',if_neg (by simp [ha,hep]),if_neg (by rw [not_not,levelType_level e (by omega)])]
  unfold cutData
  by_cases hdir : e.flags &&& EntryDir=0
  · rw [if_pos ⟨(levelType_zero e).mpr hdir,hsize⟩,if_pos hdir]
  · rw [if_neg (fun h => hdir ((levelType_zero e).mp h.1)),if_neg hdir,Function.update_eq_self]

/-- At a local pointer block of the current epoch at level `L+1`, with `ptrsz` bytes to a
pointer and no wrap, the walk zeroes the scores of the children that start at or past `size`,
handing on their local addresses; then it stops when `size` is on a child's boundary, and else
goes on in the child that holds it. -/
theorem shrinkLoop'_ptr {L : Nat} (fuel : Nat) (hL : L+1 ≤ 7) (ha : a≠NilBlock) (hep : (fs.label a.toNat).epoch=fs.ehi)
    (hS : 0 < ptrsz.toNat) (hppb : 0 < ppb e) (hwrap : size.toNat+ptrsz.toNat < 2^64) :
    ∃ new, (∀ u, u ∈ new ↔ ∃ j, (size.toNat+ptrsz.toNat-1)/ptrsz.toNat ≤ j ∧ j < ppb e ∧
        childAddr fs.data a j≠NilBlock ∧ u=(a.toNat,childAddr fs.data a j,levelType e L,e.tag)) ∧
      (size.toNat%ptrsz.toNat=0 →
        shrinkLoop' e (ppb e) (fuel+1) fs ⟨a,localToGlobal a,fs.label a.toNat,fs.data a.toNat⟩ (levelType e (L+1)) ptrsz size=
          some (.ok (),zeroedAt fs e a ((size.toNat+ptrsz.toNat-1)/ptrsz.toNat) new)) ∧
      (size.toNat%ptrsz.toNat≠0 → ∀ b,
        global (zeroedAt fs e a ((size.toNat+ptrsz.toNat-1)/ptrsz.toNat) new)
          (scoreAt (fs.data a.toNat) (size.toNat/ptrsz.toNat*ScoreSize)) (levelType e L) e.tag=.ok b →
        shrinkLoop' e (ppb e) (fuel+1) fs ⟨a,localToGlobal a,fs.label a.toNat,fs.data a.toNat⟩ (levelType e (L+1)) ptrsz size=
          shrinkLoop' e (ppb e) fuel (zeroedAt fs e a ((size.toNat+ptrsz.toNat-1)/ptrsz.toNat) new)
            b (levelType e L) (ptrsz/(ppb e).toUInt64) (size%ptrsz)) := by
  obtain ⟨new,hz,hmem⟩ := @zeroPointers_eq a.toNat (levelType e (L+1)) e.tag (ppb e) (ppb e)
    ((size+ptrsz-1)/ptrsz).toNat fs ⟨a,localToGlobal a,fs.label a.toNat,fs.data a.toNat⟩ (by omega) rfl
  rw [ceilStep_toNat hwrap hS] at hmem
  have hmod0 : size%ptrsz=0 ↔ size.toNat%ptrsz.toNat=0 := by
    rw [← UInt64.toNat_inj,UInt64.toNat_mod]
    rfl
  have hptr : ptrsz≠0 := fun h => by rw [h] at hS; exact absurd hS (by decide)
  refine ⟨new,?_,?_,?_⟩
  · intro u
    rw [hmem,levelType_sub_one e hL]
    rfl
  · intro h0
    rw [shrinkLoop',if_neg (by simp [ha,hep]),if_pos (by rw [Ne,levelType_level e hL]; omega),if_neg hptr,hz]
    dsimp only
    rw [if_pos (hmod0.mpr h0),ceilStep_toNat hwrap hS]
    rfl
  · intro h0 b hb
    have hkeep : scoreAt (zeroSlots (fs.data a.toNat) (ppb e) ((size.toNat+ptrsz.toNat-1)/ptrsz.toNat))
        ((size/ptrsz).toNat*ScoreSize)=scoreAt (fs.data a.toNat) (size.toNat/ptrsz.toNat*ScoreSize) := by
      rw [UInt64.toNat_div,scoreAt_zeroSlots,ceil_eq_of_mod hS h0,if_neg (by omega)]
    rw [shrinkLoop',if_neg (by simp [ha,hep]),if_pos (by rw [Ne,levelType_level e hL]; omega),if_neg hptr,hz]
    dsimp only
    rw [if_neg (mt hmod0.mp h0),if_neg (Nat.pos_iff_ne_zero.mp hppb),ceilStep_toNat hwrap hS,hkeep,
      levelType_sub_one e hL]
    unfold zeroedAt at hb
    rw [hb]
    rfl

end Step

/-! ## The whole walk -/

/-- What the cut leaves of a block at level `L` covering the bytes from `lo`: a pointer block
without the scores of the children that start at or past `s`, a data block cut `s-lo` bytes in. -/
def cutBlock (e : Entry) (s : Nat) : Nat → Nat → Buf → Buf
  | 0, lo, d => cutData e d (s-lo)
  | L+1, lo, d => zeroSlots d (ppb e) ((s-lo+span e L-1)/span e L)

/-- The blocks on the path below `a` hold the bytes `D`, are local, carry the label of their level
and the tree's tag, and are of the current epoch. -/
def PathLocal (fs : Fs) (e : Entry) (D : Nat → Buf) (s : Nat) (a : UInt32) (L lo : Nat) : Prop :=
  ∀ x L' lo', OnPath e D s a L lo x L' lo' → fs.data x.toNat=D x.toNat ∧ x≠NilBlock ∧
    (fs.label x.toNat).typ=levelType e L' ∧ (fs.label x.toNat).tag=e.tag ∧ (fs.label x.toNat).epoch=fs.ehi

/-- A link the cut of the path below `a` hands to `removeLink`: a local child, starting at or past
`s`, of a pointer block on the path, with its holder, its level and the tree's tag. -/
def CutLink (e : Entry) (D : Nat → Buf) (s : Nat) (a : UInt32) (L lo : Nat) (u : Nat × UInt32 × BlockType × UInt32) : Prop :=
  ∃ x L' lo' j, OnPath e D s a L lo x (L'+1) lo' ∧ j < ppb e ∧ s ≤ lo'+j*span e L' ∧
    childAddr D x j≠NilBlock ∧ u=(x.toNat,childAddr D x j,levelType e L',e.tag)

section Run

variable {fs : Fs} {e : Entry} {D : Nat → Buf} {s : Nat}

/-- A block lower on the path is another block than the one at its top: its label is of
another level. -/
theorem onPath_ne_top {a x : UInt32} {L lo L' lo' : Nat} (hloc : PathLocal fs e D s a (L+1) lo) (hL : L+1 ≤ 7)
    (hlo : lo < s) (hs : s < lo+span e (L+1)) (hx : OnPath e D s a (L+1) lo x L' lo') (hL' : L' ≤ L) :
    x.toNat≠a.toNat := by
  intro h
  have hxa := (hloc x L' lo' hx).2.2.1
  have haa := (hloc a (L+1) lo (onPath_self a hlo hs)).2.2.1
  rw [h,haa] at hxa
  have := levelType_inj e hL (by omega) hxa
  omega

/-- The links of a path below a pointer block: those of the block itself, and those of the path
below the child that holds the end. -/
theorem cutLink_cases {a : UInt32} {L lo : Nat} {u : Nat × UInt32 × BlockType × UInt32} (hlo : lo < s)
    (hs : s < lo+span e (L+1)) :
    CutLink e D s a (L+1) lo u ↔ (∃ j, j < ppb e ∧ s ≤ lo+j*span e L ∧ childAddr D a j≠NilBlock ∧
        u=(a.toNat,childAddr D a j,levelType e L,e.tag)) ∨
      ((s-lo)%span e L≠0 ∧ CutLink e D s (childAddr D a ((s-lo)/span e L)) L (lo+(s-lo)/span e L*span e L) u) := by
  constructor
  · rintro ⟨x,L',lo',j,hx,hj,hjs,hn,rfl⟩
    rcases onPath_cases hx with ⟨rfl,hL,rfl⟩ | ⟨hm,hx'⟩
    · obtain rfl : L'=L := by omega
      exact Or.inl ⟨j,hj,hjs,hn,rfl⟩
    · exact Or.inr ⟨hm,x,L',lo',j,hx',hj,hjs,hn,rfl⟩
  · rintro (⟨j,hj,hjs,hn,rfl⟩ | ⟨-,x,L',lo',j,hx,hj,hjs,hn,rfl⟩)
    · exact ⟨a,L,lo,j,onPath_self a hlo hs,hj,hjs,hn,rfl⟩
    · exact ⟨x,L',lo',j,onPath_child hlo hs hx,hj,hjs,hn,rfl⟩

/-- No block on the path below the child that holds the end is the pointer block above it. -/
theorem onPath_child_ne_top {a x : UInt32} {L lo L' lo' : Nat} (hloc : PathLocal fs e D s a (L+1) lo) (hL : L+1 ≤ 7)
    (hlo : lo < s) (hs : s < lo+span e (L+1))
    (hx : OnPath e D s (childAddr D a ((s-lo)/span e L)) L (lo+(s-lo)/span e L*span e L) x L' lo') :
    x.toNat≠a.toNat :=
  onPath_ne_top hloc hL hlo hs (onPath_child hlo hs hx) (below_range hx.1).1

/-- Zeroing scores of the pointer block at the top keeps the path below the child that holds the
end local. -/
theorem pathLocal_zeroed {a : UInt32} {L lo i : Nat} {new : List (Nat × UInt32 × BlockType × UInt32)}
    (hloc : PathLocal fs e D s a (L+1) lo) (hL : L+1 ≤ 7) (hlo : lo < s) (hs : s < lo+span e (L+1)) :
    PathLocal (zeroedAt fs e a i new) e D s (childAddr D a ((s-lo)/span e L)) L (lo+(s-lo)/span e L*span e L) := by
  intro x L' lo' hx
  obtain ⟨hD,hn,ht,hg,hep⟩ := hloc x L' lo' (onPath_child hlo hs hx)
  exact ⟨(Function.update_of_ne (onPath_child_ne_top hloc hL hlo hs hx) _ _).trans hD,hn,ht,hg,hep⟩

/-- One level down: each pointer of the child accounts for `ptrsz / ppb` bytes, the end lies
`size % ptrsz` bytes into the child, and their sum does not wrap. -/
theorem child_geometry {ptrsz size : UInt64} {L lo : Nat} (hppb : 0 < ppb e) (hS : ptrsz.toNat=span e L)
    (hsize : size.toNat=s-lo) (hwrap : size.toNat+ptrsz.toNat < 2^64) :
    (1 ≤ L → (ptrsz/(ppb e).toUInt64).toNat=span e (L-1)) ∧ (size%ptrsz).toNat=s-(lo+(s-lo)/span e L*span e L) ∧
      (size%ptrsz).toNat+(ptrsz/(ppb e).toUInt64).toNat < 2^64 := by
  have hppb64 : (ppb e).toUInt64.toNat=ppb e :=
    toUInt64_toNat_of_lt (Nat.lt_of_le_of_lt (Nat.div_le_self _ _) (by have := e.psize.toNat_lt; simp at this; omega))
  refine ⟨fun h1 => ?_,?_,?_⟩
  · rw [UInt64.toNat_div,hS,hppb64]
    obtain ⟨L,rfl⟩ : ∃ L', L=L'+1 := ⟨L-1,by omega⟩
    rw [span_succ,Nat.mul_div_cancel _ hppb]
    rfl
  · rw [UInt64.toNat_mod,hS,hsize]
    have := Nat.div_add_mod (s-lo) (span e L)
    rw [Nat.mul_comm] at this
    omega
  · rw [UInt64.toNat_mod,UInt64.toNat_div]
    have := Nat.mod_le size.toNat ptrsz.toNat
    have := Nat.div_le_self ptrsz.toNat (ppb e).toUInt64.toNat
    omega

/-- The run of the walk from a block `a` at level `L`, covering the bytes from `lo` with the new
size `s` strictly inside, `ptrsz` the bytes of each of its pointers and `size` the new size taken
relative to it, when the blocks on the path below it are local, labelled and of the current epoch
and the arithmetic does not wrap: the walk succeeds, cuts each block on the path as `cutBlock`
says, leaves every other block, and hands on exactly the links `CutLink` names. By induction on
the level: each pointer block is cut by one step, and the walk goes on below the child that holds
the end. -/
theorem shrinkLoop'_run (hppb : 0 < ppb e) (hdsz : 0 < e.dsize.toNat) :
    ∀ L, L ≤ 7 → ∀ (fs : Fs) (a : UInt32) (lo : Nat) (ptrsz size : UInt64), lo < s → s < lo+span e L →
    (1 ≤ L → ptrsz.toNat=span e (L-1)) → size.toNat=s-lo → size.toNat+ptrsz.toNat < 2^64 → PathLocal fs e D s a L lo →
    ∃ data new, shrinkLoop' e (ppb e) (L+1) fs ⟨a,localToGlobal a,fs.label a.toNat,fs.data a.toNat⟩ (levelType e L) ptrsz size=
        some (.ok (),{ fs with data := data, unlinks := new++fs.unlinks }) ∧
      (∀ x L' lo', OnPath e D s a L lo x L' lo' → data x.toNat=cutBlock e s L' lo' (D x.toNat)) ∧
      (∀ y, (∀ x L' lo', OnPath e D s a L lo x L' lo' → x.toNat≠y) → data y=fs.data y) ∧
      (∀ u, u ∈ new ↔ CutLink e D s a L lo u) := by
  intro L
  induction L with
  | zero =>
    intro _ fs a lo ptrsz size hlo hs _ hsize _ hloc
    obtain ⟨hD,ha,-,-,hep⟩ := hloc a 0 lo (onPath_self a hlo hs)
    have hdata : size.toNat < e.dsize.toNat := by
      unfold span at hs
      rw [Nat.pow_zero,Nat.mul_one] at hs
      omega
    refine ⟨Function.update fs.data a.toNat (cutData e (fs.data a.toNat) size.toNat),[],?_,?_,?_,?_⟩
    · rw [shrinkLoop'_data 0 ha hep hdata]
      rfl
    · intro x L' lo' hx
      obtain ⟨rfl,rfl,rfl⟩ := onPath_zero hx
      rw [Function.update_self,hsize,hD]
      rfl
    · intro y hy
      exact Function.update_of_ne (hy a 0 lo (onPath_self a hlo hs)).symm _ _
    · rintro u
      refine ⟨fun h => absurd h List.not_mem_nil,?_⟩
      rintro ⟨x,L',lo',j,hx,-⟩
      exact absurd (onPath_zero hx).2.1 (Nat.succ_ne_zero L')
  | succ L ih =>
    intro hL fs a lo ptrsz size hlo hs hptr hsize hwrap hloc
    obtain ⟨hD,ha,-,-,hep⟩ := hloc a (L+1) lo (onPath_self a hlo hs)
    have hS : ptrsz.toNat=span e L := hptr (by omega)
    have hSpos := span_pos hppb hdsz L
    obtain ⟨new,hmem,hstop,hdown⟩ := @shrinkLoop'_ptr e fs a ptrsz size L (L+1) hL ha hep
      (by omega) hppb hwrap
    rw [hS,hsize] at hmem hstop hdown
    have htop : zeroSlots (fs.data a.toNat) (ppb e) ((s-lo+span e L-1)/span e L)=cutBlock e s (L+1) lo (D a.toNat) := by
      rw [hD]
      rfl
    have hmem' : ∀ u, u ∈ new ↔ ∃ j, j < ppb e ∧ s ≤ lo+j*span e L ∧ childAddr D a j≠NilBlock ∧
        u=(a.toNat,childAddr D a j,levelType e L,e.tag) := by
      intro u
      rw [hmem]
      unfold childAddr
      rw [hD]
      constructor
      · rintro ⟨j,hc,hj,hn,rfl⟩
        exact ⟨j,hj,by rw [ceil_le_iff hSpos] at hc; omega,hn,rfl⟩
      · rintro ⟨j,hj,hjs,hn,rfl⟩
        exact ⟨j,by rw [ceil_le_iff hSpos]; omega,hj,hn,rfl⟩
    by_cases h0 : (s-lo)%span e L=0
    · have honly : ∀ x L' lo', OnPath e D s a (L+1) lo x L' lo' → x=a ∧ L'=L+1 ∧ lo'=lo := by
        intro x L' lo' hx
        rcases onPath_cases hx with h | ⟨hm,-⟩
        · exact h
        · exact absurd h0 hm
      refine ⟨Function.update fs.data a.toNat (zeroSlots (fs.data a.toNat) (ppb e) ((s-lo+span e L-1)/span e L)),new,
        by rw [hstop h0]; rfl,?_,?_,?_⟩
      · intro x L' lo' hx
        obtain ⟨rfl,rfl,rfl⟩ := honly x L' lo' hx
        rw [Function.update_self,htop]
      · intro y hy
        exact Function.update_of_ne (hy a (L+1) lo (onPath_self a hlo hs)).symm _ _
      · intro u
        rw [hmem',cutLink_cases hlo hs]
        constructor
        · exact Or.inl
        · rintro (h | ⟨hm,-⟩)
          · exact h
          · exact absurd h0 hm
    · have hchild := onPath_holder (D := D) (childAddr D a ((s-lo)/span e L)) hSpos hlo h0
      obtain ⟨-,hx,hxt,hxg,-⟩ := hloc _ L _ (onPath_child hlo hs hchild)
      have hsc : globalToLocal (scoreAt (fs.data a.toNat) ((s-lo)/span e L*ScoreSize))=childAddr D a ((s-lo)/span e L) := by
        unfold childAddr
        rw [hD]
      have hget := @global_local (scoreAt (fs.data a.toNat) ((s-lo)/span e L*ScoreSize)) (levelType e L)
        (zeroedAt fs e a ((s-lo+span e L-1)/span e L) new) e.tag (by rw [hsc]; exact hx) (by rw [hsc]; exact hxt)
        (by rw [hsc]; exact hxg)
      rw [hsc] at hget
      obtain ⟨hptr',hsize',hwrap'⟩ := child_geometry hppb hS hsize hwrap
      obtain ⟨data,new',heq,hcut,hframe,hmem''⟩ := ih (by omega) _ _ _ _ _ hchild.2.1 hchild.2.2 hptr' hsize' hwrap'
        (pathLocal_zeroed hloc hL hlo hs)
      refine ⟨data,new'++new,?_,?_,?_,?_⟩
      · rw [hdown h0 _ hget,heq,List.append_assoc]
        rfl
      · intro x L' lo' hx
        rcases onPath_cases hx with ⟨rfl,rfl,rfl⟩ | ⟨-,hx'⟩
        · rw [hframe _ (fun x' L'' lo'' hx'' => onPath_child_ne_top hloc hL hlo hs hx''),← htop]
          exact Function.update_self _ _ _
        · exact hcut x L' lo' hx'
      · intro y hy
        rw [hframe y (fun x L' lo' hx => hy x L' lo' (onPath_child hlo hs hx))]
        exact Function.update_of_ne (hy a (L+1) lo (onPath_self a hlo hs)).symm _ _
      · intro u
        rw [List.mem_append,hmem'',hmem',cutLink_cases hlo hs]
        constructor
        · rintro (h | h)
          · exact Or.inr ⟨h0,h⟩
          · exact Or.inl h
        · rintro (h | ⟨-,h⟩)
          · exact Or.inr h
          · exact Or.inl h

end Run

/-! ## `shrinkSize` -/

/-- The bytes of a root pointer, as `shrinkSize` multiplies them up in 64 bits. -/
theorem ptrsz_toNat (x : UInt64) (k : Nat) : ∀ n,
    ((List.range n).foldl (fun p _ => p*k.toUInt64) x).toNat=x.toNat*k^n%2^64
  | 0 => by simp [Nat.mod_eq_of_lt x.toNat_lt]
  | n+1 => by
    rw [List.range_succ,List.foldl_append,List.foldl_cons,List.foldl_nil,UInt64.toNat_mul,ptrsz_toNat x k n,
      Nat.toUInt64_eq,UInt64.toNat_ofNat',← Nat.mul_mod,Nat.mul_assoc,← Nat.pow_succ]

/-- The blocks of the right spine of the tree of `e` for the new size `s` are local blocks of the
tree, labelled with their level and the tree's tag, and of the current epoch. -/
def SpineLocal (fs : Fs) (e : Entry) (s : Nat) : Prop :=
  ∀ x L lo, OnSpine fs e s x L lo → x≠NilBlock ∧ (fs.label x.toNat).typ=levelType e L ∧
    (fs.label x.toNat).tag=e.tag ∧ (fs.label x.toNat).epoch=fs.ehi

/-- The root of the tree of `e` is a local block labelled as the root, with the tree's tag: the
block `shrinkSize` fetches first, whether or not the new size falls inside it. -/
def RootLocal (fs : Fs) (e : Entry) : Prop :=
  globalToLocal e.score≠NilBlock ∧ (fs.label (globalToLocal e.score).toNat).typ=levelType e e.depth.toNat ∧
    (fs.label (globalToLocal e.score).toNat).tag=e.tag

section Top

variable {fs : Fs} {e : Entry} {s : UInt64}

/-- The bytes of a root pointer, as `shrinkSize` multiplies them up, when they fit 64 bits. -/
theorem rootPtrsz_toNat (h : span e (e.depth.toNat-1) < 2^64) :
    ((List.range (e.depth.toNat-1)).foldl (fun p _ => p*(ppb e).toUInt64) e.dsize.toUInt64).toNat=
      span e (e.depth.toNat-1) := by
  rw [ptrsz_toNat,UInt16.toNat_toUInt64]
  exact Nat.mod_eq_of_lt h

/-- `shrinkSize` fetches a local root labelled as the root. -/
theorem RootLocal.global (h : RootLocal fs e) :
    global fs e.score (entryType e) e.tag=.ok ⟨globalToLocal e.score,localToGlobal (globalToLocal e.score),
      fs.label (globalToLocal e.score).toNat,fs.data (globalToLocal e.score).toNat⟩ :=
  global_local fs e.tag h.1 (by rw [h.2.1,entryType_eq]) h.2.2

/-- A tree that holds a byte past the root's first pointer has pointers and data bytes. -/
theorem geometry_pos (hd : 1 ≤ e.depth.toNat) (hs : 0 < s.toNat) (hcap : s.toNat < span e e.depth.toNat) :
    0 < ppb e ∧ 0 < e.dsize.toNat := by
  unfold span at hcap
  refine ⟨Nat.pos_of_ne_zero fun h => ?_,Nat.pos_of_ne_zero fun h => ?_⟩
  · rw [h,Nat.zero_pow (by omega),Nat.mul_zero] at hcap
    omega
  · rw [h,Nat.zero_mul] at hcap
    omega

/-- `shrinkSize` on a tree of depth at least 1, for a new size strictly inside the tree's bytes,
when the blocks of the right spine are local, labelled and of the current epoch and its 64-bit
arithmetic does not wrap: it succeeds, cuts each block of the spine as `cutBlock` says, leaves
every other block, and hands on exactly the links `CutLink` names. -/
theorem shrinkSize_run (hd : 1 ≤ e.depth.toNat) (hd7 : e.depth ≤ 7) (hs : 0 < s.toNat)
    (hcap : s.toNat < span e e.depth.toNat) (hwrap : s.toNat+span e (e.depth.toNat-1) < 2^64)
    (hloc : SpineLocal fs e s.toNat) :
    ∃ data new, shrinkSize fs e s=some (.ok (),{ fs with data := data, unlinks := new++fs.unlinks }) ∧
      (∀ x L lo, OnSpine fs e s.toNat x L lo → data x.toNat=cutBlock e s.toNat L lo (fs.data x.toNat)) ∧
      (∀ y, (∀ x L lo, OnSpine fs e s.toNat x L lo → x.toNat≠y) → data y=fs.data y) ∧
      (∀ u, u ∈ new ↔ CutLink e fs.data s.toNat (globalToLocal e.score) e.depth.toNat 0 u) := by
  have hd7' : e.depth.toNat ≤ 7 := by simpa [UInt8.le_iff_toNat_le] using hd7
  obtain ⟨hppb,hdsz⟩ := geometry_pos hd hs hcap
  obtain ⟨ha,ht,hg,-⟩ := hloc _ _ _ (onPath_self (globalToLocal e.score) hs (by rw [Nat.zero_add]; exact hcap))
  have hglobal := RootLocal.global ⟨ha,ht,hg⟩
  have hptr : 1 ≤ e.depth.toNat → ((List.range (e.depth.toNat-1)).foldl (fun p _ => p*(ppb e).toUInt64)
      e.dsize.toUInt64).toNat=span e (e.depth.toNat-1) :=
    fun _ => rootPtrsz_toNat (by omega)
  obtain ⟨data,new,heq,hcut,hframe,hmem⟩ := shrinkLoop'_run (D := fs.data) (s := s.toNat) hppb hdsz e.depth.toNat hd7' fs
    (globalToLocal e.score) 0 _ s hs (by rw [Nat.zero_add]; exact hcap) hptr (by rw [Nat.sub_zero]) (by omega)
    (fun x L lo hx => ⟨rfl,hloc x L lo hx⟩)
  refine ⟨data,new,?_,hcut,hframe,hmem⟩
  unfold shrinkSize
  rw [hglobal,entryType_eq]
  exact heq

/-- The spine reaches down to every level at which the end is not on a block boundary, in the block
that covers the bytes from `s` rounded down to its span. By induction on the levels walked from the
root: the child that holds the end starts at `s` rounded down to the child's span. -/
theorem onSpine_exists {s : Nat} (hs : 0 < s) (hcap : s < span e e.depth.toNat) (hppb : 0 < ppb e)
    (hdsz : 0 < e.dsize.toNat) :
    ∀ k ≤ e.depth.toNat, s%span e (e.depth.toNat-k)≠0 →
      ∃ x, OnSpine fs e s x (e.depth.toNat-k) (s-s%span e (e.depth.toNat-k)) := by
  intro k
  induction k with
  | zero =>
    intro _ _
    refine ⟨globalToLocal e.score,?_⟩
    rw [Nat.sub_zero,Nat.mod_eq_of_lt hcap,Nat.sub_self]
    exact onPath_self _ hs (by omega)
  | succ k ih =>
    intro hk hm
    obtain ⟨L,hL⟩ : ∃ L, e.depth.toNat-k=L+1 := ⟨e.depth.toNat-k-1,by omega⟩
    have hL' : e.depth.toNat-(k+1)=L := by omega
    rw [hL'] at hm ⊢
    rw [hL] at ih
    have hm' : s%span e (L+1)≠0 := by
      intro h0
      apply hm
      apply Nat.mod_eq_zero_of_dvd
      exact Nat.dvd_trans ⟨ppb e,span_succ e L⟩ (Nat.dvd_of_mod_eq_zero h0)
    obtain ⟨x,hx,-,-⟩ := ih (by omega) hm'
    have hr : s%span e (L+1)%span e L=s%span e L := by
      rw [span_succ]
      exact Nat.mod_mul_right_mod s (span e L) (ppb e)
    have hj : s%span e (L+1)/span e L < ppb e := by
      apply Nat.div_lt_of_lt_mul
      rw [← span_succ]
      exact Nat.mod_lt s (span_pos hppb hdsz (L+1))
    have hlo : s-s%span e (L+1)+s%span e (L+1)/span e L*span e L=s-s%span e L := by
      have hdm := Nat.div_add_mod (s%span e (L+1)) (span e L)
      rw [hr,Nat.mul_comm] at hdm
      have := Nat.mod_le s (span e (L+1))
      omega
    refine ⟨childAddr fs.data x (s%span e (L+1)/span e L),below_trans hx ?_,?_,?_⟩
    · rw [← hlo]
      exact Below.child _ hj (Below.refl _ L _)
    · have := Nat.mod_le s (span e L)
      omega
    · have := Nat.mod_lt s (span_pos hppb hdsz L)
      omega

/-- Every tree as deep as `sizeToDepth` of the new size, which is the tree `setSize` hands
`shrinkSize`, holds the new size and keeps the walk's arithmetic from wrapping: the root's
pointers each cover less than the new size. -/
theorem noWrap_of_sizeToDepth (hs : s.toNat ≤ MaxFileSize) (hp : 2*ScoreSize ≤ e.psize.toNat) (hdsz : 0 < e.dsize.toNat)
    (h : sizeToDepth s e.psize.toNat e.dsize.toNat=some e.depth.toNat) (hd : 1 ≤ e.depth.toNat) :
    s.toNat ≤ span e e.depth.toNat ∧ s.toNat+span e (e.depth.toNat-1) < 2^64 := by
  have hle := sizeToDepth_le_iff hs hp e.psize.toNat_lt hdsz e.dsize.toNat_lt h
  have hfits := (hle e.depth.toNat).mp (Nat.le_refl _)
  have hmore : ¬s.toNat ≤ span e (e.depth.toNat-1) := fun h' => by
    have := (hle (e.depth.toNat-1)).mpr h'
    omega
  unfold MaxFileSize at hs
  exact ⟨hfits,by omega⟩

/-- A new size at the very end of the tree's bytes lies strictly inside no block: there is no
spine. -/
theorem not_onSpine_full {s : Nat} (hfull : s=span e e.depth.toNat) {x : UInt32} {L lo : Nat} :
    ¬OnSpine fs e s x L lo := by
  rintro ⟨hb,-,hs⟩
  have := (below_range hb).2.2
  omega

/-- `shrinkSize` to the very end of the tree's bytes changes nothing: no child of the root starts
at or past the end, which falls on the root's last boundary. -/
theorem shrinkSize_full (hd : 1 ≤ e.depth.toNat) (hd7 : e.depth ≤ 7) (hppb : 0 < ppb e) (hdsz : 0 < e.dsize.toNat)
    (hfull : s.toNat=span e e.depth.toNat) (hwrap : s.toNat+span e (e.depth.toNat-1) < 2^64)
    (hroot : RootLocal fs e) : shrinkSize fs e s=some (.ok (),fs) := by
  have hd7' : e.depth.toNat ≤ 7 := by simpa [UInt8.le_iff_toNat_le] using hd7
  have hglobal := hroot.global
  obtain ⟨ha,-,-⟩ := hroot
  by_cases hep : (fs.label (globalToLocal e.score).toNat).epoch=fs.ehi
  swap
  · exact shrinkSize_of_old_root hglobal (.inr hep)
  obtain ⟨L,hL⟩ : ∃ L, e.depth.toNat=L+1 := ⟨e.depth.toNat-1,by omega⟩
  have hptr := rootPtrsz_toNat (e := e) (by omega)
  rw [hL,Nat.add_sub_cancel] at hptr hwrap
  rw [hL,span_succ] at hfull
  have hS := span_pos hppb hdsz L
  obtain ⟨new,hmem,hstop,-⟩ := @shrinkLoop'_ptr e fs (globalToLocal e.score)
    ((List.range L).foldl (fun p _ => p*(ppb e).toUInt64) e.dsize.toUInt64) s L (L+1) (by omega) ha hep
    (by rw [hptr]; exact hS) hppb (by rw [hptr]; exact hwrap)
  rw [hptr] at hmem hstop
  have hnone : new=[] := List.eq_nil_iff_forall_not_mem.mpr fun u hu => by
    obtain ⟨j,hj,hj',-⟩ := (hmem u).mp hu
    have hlt := Nat.mul_lt_mul_of_pos_right hj' hS
    rw [ceil_le_iff hS] at hj
    rw [Nat.mul_comm (ppb e)] at hlt
    omega
  have hceil : ppb e ≤ (s.toNat+span e L-1)/span e L := by
    rw [Nat.le_div_iff_mul_le hS,Nat.mul_comm]
    omega
  have hrun := hstop (by rw [hfull]; exact Nat.mul_mod_right _ _)
  unfold shrinkSize
  rw [hglobal,entryType_eq]
  dsimp only
  rw [hL,Nat.add_sub_cancel]
  refine hrun.trans ?_
  unfold zeroedAt
  rw [hnone,zeroSlots_of_le hceil,Function.update_eq_self]
  rfl

end Top

/-! ## Chains of first pointers -/

/-- A tree of depth `d` whose blocks form the chain of first pointers: block `n`, for `n` from 1
to `d+1`, sits at level `d+1-n` with the tree's tag, in the current epoch, and points first at
block `n+1`. -/
def chainFs (e : Entry) (d : Nat) : Fs where
  label := fun n => if 1 ≤ n ∧ n ≤ d+1 then ⟨levelType e (d+1-n),BsAlloc,e.tag,1,0xFFFFFFFF⟩ else ⟨0,0,0,0,0⟩
  data := fun n => write (fun _ => 0) 0 (localToGlobal (n+1).toUInt32).toList
  venti := fun _ _ => none
  bsize := e.dsize.toNat
  last := 0
  flEnd := d+2
  ehi := 1
  elo := 1
  unlinks := []

section Chain

variable (e : Entry) (d : Nat)

/-- The first score of block `a` is the address `a+1`. -/
theorem chain_child (a : UInt32) : childAddr (chainFs e d).data a 0=(a.toNat+1).toUInt32 := by
  have hsc : scoreAt ((chainFs e d).data a.toNat) (0*ScoreSize)=localToGlobal (a.toNat+1).toUInt32 := by
    apply Vector.ext
    intro k hk
    simp only [scoreAt,chainFs,Vector.getElem_ofFn,Nat.zero_mul,Nat.zero_add]
    have h := write_of_lt (b := fun _ => (0 : UInt8)) (o := 0) (l := (localToGlobal (a.toNat+1).toUInt32).toList)
      (k := k) (by simpa using hk)
    rw [Nat.zero_add] at h
    rw [h]
    simp [hk]
  unfold childAddr
  rw [hsc,globalToLocal_localToGlobal]

/-- When every level spans more than one byte, the path of the new size 1 runs down the first
pointers: from block `d+1-L` at level `L`, each block on it is block `d+1-L'` at its level `L'`. -/
theorem chain_path (hd7 : d ≤ 7) (hspan : ∀ L, 1 < span e L) : ∀ L ≤ d, ∀ x L' lo',
    OnPath e (chainFs e d).data 1 (d+1-L).toUInt32 L 0 x L' lo' → x=(d+1-L').toUInt32 ∧ L' ≤ L := by
  intro L
  induction L with
  | zero =>
    intro _ x L' lo' hx
    obtain ⟨rfl,rfl,-⟩ := onPath_zero hx
    exact ⟨rfl,Nat.le_refl 0⟩
  | succ L ih =>
    intro hL x L' lo' hx
    rcases onPath_cases hx with ⟨rfl,rfl,-⟩ | ⟨-,hx'⟩
    · exact ⟨rfl,Nat.le_refl _⟩
    · rw [Nat.sub_zero,Nat.div_eq_of_lt (hspan L),Nat.zero_mul,Nat.add_zero,chain_child] at hx'
      have ha : ((d+1-(L+1)).toUInt32.toNat+1).toUInt32=(d+1-L).toUInt32 := by
        rw [Nat.toUInt32_eq,UInt32.toNat_ofNat',Nat.mod_eq_of_lt (by omega)]
        congr 1
        omega
      rw [ha] at hx'
      obtain ⟨hxe,hle⟩ := ih (by omega) x L' lo' hx'
      exact ⟨hxe,by omega⟩

/-- The right spine of such a tree for the new size 1 is local, labelled and of the current
epoch. -/
theorem chain_spineLocal (hscore : e.score=localToGlobal 1) (hd : e.depth.toNat=d) (hd7 : d ≤ 7)
    (hspan : ∀ L, 1 < span e L) : SpineLocal (chainFs e d) e 1 := by
  intro x L lo hx
  have hroot : globalToLocal e.score=(d+1-d).toUInt32 := by
    rw [hscore,globalToLocal_localToGlobal,show d+1-d=1 by omega]
    rfl
  unfold OnSpine at hx
  rw [hroot,hd] at hx
  obtain ⟨rfl,hL⟩ := chain_path e d hd7 hspan d (Nat.le_refl d) x L lo hx
  have hn : (d+1-L).toUInt32.toNat=d+1-L := by
    rw [Nat.toUInt32_eq,UInt32.toNat_ofNat',Nat.mod_eq_of_lt (by omega)]
  have hlabel : (chainFs e d).label (d+1-L)=⟨levelType e (d+1-(d+1-L)),BsAlloc,e.tag,1,0xFFFFFFFF⟩ :=
    if_pos ⟨by omega,by omega⟩
  rw [hn,hlabel,show d+1-(d+1-L)=L by omega]
  refine ⟨?_,rfl,rfl,rfl⟩
  intro h
  have := congrArg UInt32.toNat h
  rw [hn] at this
  simp [NilBlock] at this
  omega

/-- Every level of a tree of data blocks longer than a byte spans more than a byte. -/
theorem one_lt_span {e : Entry} (hppb : 0 < ppb e) (hdsz : 1 < e.dsize.toNat) (L : Nat) : 1 < span e L := by
  have := Nat.pow_pos (n := L) hppb
  unfold span
  calc 1 < e.dsize.toNat := hdsz
    _ ≤ e.dsize.toNat*ppb e^L := Nat.le_mul_of_pos_right _ this

end Chain

/-! ## The cut -/

theorem span_zero (e : Entry) : span e 0=e.dsize.toNat := by
  simp [span]

/-- `shrinkSize` cuts exactly the tail of a tree of depth at least 1, for a new size `s` strictly
inside its bytes, whose right spine is made of local blocks of the current epoch, labelled with
their level and the tree's tag, and whose root pointers' byte count does not wrap 64 bits: it
succeeds; every score of a pointer block on the spine is the zero score when its child starts at or
past `s` and is unchanged otherwise; the links handed to `removeLink` are exactly the local
children zeroed; when `s` is not a multiple of `dsize` the spine reaches the data block holding
byte `s-1`, and for a file its bytes from `s mod dsize` on are zero, the rest unchanged; every
block off the spine keeps its bytes. -/
theorem shrinkSize_cuts_tail (fs : Fs) (e : Entry) (s : UInt64) (hd : 1 ≤ e.depth.toNat) (hd7 : e.depth ≤ 7)
    (hs : 0 < s.toNat) (hcap : s.toNat < span e e.depth.toNat) (hwrap : s.toNat+span e (e.depth.toNat-1) < 2^64)
    (hloc : SpineLocal fs e s.toNat) :
    ∃ fs', shrinkSize fs e s=some (.ok (),fs') ∧
      (∀ x L lo, OnSpine fs e s.toNat x (L+1) lo → ∀ j < ppb e,
        scoreAt (fs'.data x.toNat) (j*ScoreSize)=
          if s.toNat ≤ lo+j*span e L then zeroScore else scoreAt (fs.data x.toNat) (j*ScoreSize)) ∧
      (∃ new, fs'.unlinks=new++fs.unlinks ∧ ∀ u, u ∈ new ↔ ∃ x L lo j, OnSpine fs e s.toNat x (L+1) lo ∧ j < ppb e ∧
        s.toNat ≤ lo+j*span e L ∧ childAddr fs.data x j≠NilBlock ∧ u=(x.toNat,childAddr fs.data x j,levelType e L,e.tag)) ∧
      (s.toNat%e.dsize.toNat≠0 → ∃ x, OnSpine fs e s.toNat x 0 (s.toNat-s.toNat%e.dsize.toNat) ∧
        (e.flags &&& EntryDir=0 → ∀ k < e.dsize.toNat,
          fs'.data x.toNat k=if s.toNat%e.dsize.toNat ≤ k then 0 else fs.data x.toNat k)) ∧
      (∀ y, (∀ x L lo, OnSpine fs e s.toNat x L lo → x.toNat≠y) → fs'.data y=fs.data y) ∧
      fs'.label=fs.label := by
  obtain ⟨hppb,hdsz⟩ := geometry_pos hd hs hcap
  obtain ⟨data,new,heq,hcut,hframe,hmem⟩ := shrinkSize_run hd hd7 hs hcap hwrap hloc
  refine ⟨_,heq,?_,⟨new,rfl,hmem⟩,?_,hframe,rfl⟩
  · intro x L lo hx j hj
    have hlo := hx.2.1
    show scoreAt (data x.toNat) (j*ScoreSize)=_
    rw [hcut x (L+1) lo hx]
    show scoreAt (zeroSlots (fs.data x.toNat) (ppb e) ((s.toNat-lo+span e L-1)/span e L)) (j*ScoreSize)=_
    rw [scoreAt_zeroSlots]
    have hc := ceil_le_iff (t := s.toNat-lo) (j := j) (span_pos hppb hdsz L)
    by_cases h : s.toNat ≤ lo+j*span e L
    · rw [if_pos ⟨hc.mpr (by omega),hj⟩,if_pos h]
    · rw [if_neg (fun h' => h (by have := hc.mp h'.1; omega)),if_neg h]
  · intro hm
    have hm' : s.toNat%span e (e.depth.toNat-e.depth.toNat)≠0 := by rw [Nat.sub_self,span_zero]; exact hm
    obtain ⟨x,hx⟩ := onSpine_exists hs hcap hppb hdsz e.depth.toNat (Nat.le_refl _) hm'
    rw [Nat.sub_self,span_zero] at hx
    refine ⟨x,hx,fun hdir k hk => ?_⟩
    show data x.toNat k=_
    have hle := Nat.mod_le s.toNat e.dsize.toNat
    rw [hcut x 0 _ hx]
    show cutData e (fs.data x.toNat) (s.toNat-(s.toNat-s.toNat%e.dsize.toNat)) k=_
    rw [Nat.sub_sub_self hle]
    unfold cutData
    rw [if_pos hdir]
    by_cases h : s.toNat%e.dsize.toNat ≤ k
    · rw [if_pos h,fill_of_mem h (by omega)]
    · rw [if_neg h,fill_of_not_mem (Or.inl (by omega))]

/-- `shrinkSize` zeroes exactly the tail of the tree `setSize` hands it: a tree of depth at least 1
as deep as `sizeToDepth` of the new size `s`, for `0 < s` within `MaxFileSize` and pointer blocks
with room for two scores, whose root and right spine are local blocks labelled with their level
and the tree's tag, the spine's of the current epoch. It succeeds; every score of a pointer block
on the spine is the zero score when its child starts at or past `s` and is unchanged otherwise;
the links handed to `removeLink` are exactly the local children zeroed; when `s` is not a multiple
of `dsize` the spine reaches the data block holding byte `s-1`, and for a file its bytes from
`s mod dsize` on are zero, the rest unchanged; every block off the spine keeps its bytes, and no
label changes. At the tree's full capacity there is no spine and nothing changes. -/
theorem shrinkSize_zeroes_tail (fs : Fs) (e : Entry) (s : UInt64) (hd : 1 ≤ e.depth.toNat) (hd7 : e.depth ≤ 7)
    (hs : 0 < s.toNat) (hmax : s.toNat ≤ MaxFileSize) (hp : 2*ScoreSize ≤ e.psize.toNat) (hdsz : 0 < e.dsize.toNat)
    (hdepth : sizeToDepth s e.psize.toNat e.dsize.toNat=some e.depth.toNat) (hroot : RootLocal fs e)
    (hloc : SpineLocal fs e s.toNat) :
    ∃ fs', shrinkSize fs e s=some (.ok (),fs') ∧
      (∀ x L lo, OnSpine fs e s.toNat x (L+1) lo → ∀ j < ppb e,
        scoreAt (fs'.data x.toNat) (j*ScoreSize)=
          if s.toNat ≤ lo+j*span e L then zeroScore else scoreAt (fs.data x.toNat) (j*ScoreSize)) ∧
      (∃ new, fs'.unlinks=new++fs.unlinks ∧ ∀ u, u ∈ new ↔ ∃ x L lo j, OnSpine fs e s.toNat x (L+1) lo ∧ j < ppb e ∧
        s.toNat ≤ lo+j*span e L ∧ childAddr fs.data x j≠NilBlock ∧ u=(x.toNat,childAddr fs.data x j,levelType e L,e.tag)) ∧
      (s.toNat%e.dsize.toNat≠0 → ∃ x, OnSpine fs e s.toNat x 0 (s.toNat-s.toNat%e.dsize.toNat) ∧
        (e.flags &&& EntryDir=0 → ∀ k < e.dsize.toNat,
          fs'.data x.toNat k=if s.toNat%e.dsize.toNat ≤ k then 0 else fs.data x.toNat k)) ∧
      (∀ y, (∀ x L lo, OnSpine fs e s.toNat x L lo → x.toNat≠y) → fs'.data y=fs.data y) ∧
      fs'.label=fs.label := by
  obtain ⟨hle,hwrap⟩ := noWrap_of_sizeToDepth hmax hp hdsz hdepth hd
  rcases Nat.lt_or_eq_of_le hle with hcap | hfull
  · exact shrinkSize_cuts_tail fs e s hd hd7 hs hcap hwrap hloc
  · have hppb : 0 < ppb e := Nat.div_pos (by omega) (by decide)
    refine ⟨fs,shrinkSize_full hd hd7 hppb hdsz hfull hwrap hroot,fun x L lo hx => absurd hx (not_onSpine_full hfull),
      ⟨[],rfl,fun u => ⟨fun h => absurd h List.not_mem_nil,fun ⟨x,L,lo,j,hx,_⟩ => absurd hx (not_onSpine_full hfull)⟩⟩,
      fun hm => absurd ?_ hm,fun _ _ => rfl,rfl⟩
    rw [hfull]
    exact Nat.mul_mod_right _ _

/-- A file of 16 bytes in a tree one level deep, of 8-byte data blocks under a root of two
scores, block 1, tagged 40. -/
def pairEntry : Entry :=
  ⟨1,40,8,1,EntryActive ||| EntryLocal,16,localToGlobal 1,40,0,false⟩

/-- The tree of `pairEntry`: the root points at the data blocks 2 and 3, all of the current
epoch; the data blocks hold sevens. -/
def pairFs : Fs where
  label := fun n =>
    if n=1 then ⟨levelType pairEntry 1,BsAlloc,40,1,0xFFFFFFFF⟩
    else if n=2 ∨ n=3 then ⟨levelType pairEntry 0,BsAlloc,40,1,0xFFFFFFFF⟩
    else ⟨0,0,0,0,0⟩
  data := fun n =>
    if n=1 then write (write (fun _ => 0) 0 (localToGlobal 2).toList) ScoreSize (localToGlobal 3).toList
    else fun _ => 7
  venti := fun _ _ => none
  bsize := 40
  last := 0
  flEnd := 4
  ehi := 1
  elo := 1
  unlinks := []

/-- The spine of `pairFs` for the new size 12 is the root and the data block 3 that holds byte 11. -/
theorem pair_spineLocal : SpineLocal pairFs pairEntry 12 := by
  intro x L lo hx
  have hx' : OnPath pairEntry pairFs.data 12 1 (0+1) 0 x L lo := hx
  rcases onPath_cases hx' with ⟨rfl,rfl,rfl⟩ | ⟨-,hc⟩
  · decide
  · obtain ⟨rfl,rfl,rfl⟩ := onPath_zero hc
    decide

theorem shrinkSize_zeroes_tail_pair :
    1 ≤ pairEntry.depth.toNat ∧ pairEntry.depth ≤ 7 ∧ 0 < (12 : UInt64).toNat ∧ (12 : UInt64).toNat ≤ MaxFileSize ∧
      2*ScoreSize ≤ pairEntry.psize.toNat ∧ 0 < pairEntry.dsize.toNat ∧
      sizeToDepth 12 pairEntry.psize.toNat pairEntry.dsize.toNat=some pairEntry.depth.toNat ∧
      RootLocal pairFs pairEntry ∧ SpineLocal pairFs pairEntry (12 : UInt64).toNat ∧
      ∃ fs', shrinkSize pairFs pairEntry 12=some (.ok (),fs') ∧
      (∀ x L lo, OnSpine pairFs pairEntry (12 : UInt64).toNat x (L+1) lo → ∀ j < ppb pairEntry,
        scoreAt (fs'.data x.toNat) (j*ScoreSize)=
          if (12 : UInt64).toNat ≤ lo+j*span pairEntry L then zeroScore else scoreAt (pairFs.data x.toNat) (j*ScoreSize)) ∧
      (∃ new, fs'.unlinks=new++pairFs.unlinks ∧ ∀ u, u ∈ new ↔ ∃ x L lo j,
        OnSpine pairFs pairEntry (12 : UInt64).toNat x (L+1) lo ∧ j < ppb pairEntry ∧
        (12 : UInt64).toNat ≤ lo+j*span pairEntry L ∧ childAddr pairFs.data x j≠NilBlock ∧
        u=(x.toNat,childAddr pairFs.data x j,levelType pairEntry L,pairEntry.tag)) ∧
      ((12 : UInt64).toNat%pairEntry.dsize.toNat≠0 → ∃ x, OnSpine pairFs pairEntry (12 : UInt64).toNat x 0
          ((12 : UInt64).toNat-(12 : UInt64).toNat%pairEntry.dsize.toNat) ∧
        (pairEntry.flags &&& EntryDir=0 → ∀ k < pairEntry.dsize.toNat,
          fs'.data x.toNat k=if (12 : UInt64).toNat%pairEntry.dsize.toNat ≤ k then 0 else pairFs.data x.toNat k)) ∧
      (∀ y, (∀ x L lo, OnSpine pairFs pairEntry (12 : UInt64).toNat x L lo → x.toNat≠y) →
        fs'.data y=pairFs.data y) ∧
      fs'.label=pairFs.label := by
  have hroot : RootLocal pairFs pairEntry := ⟨by decide,by decide,by decide⟩
  exact ⟨by decide,by decide,by decide,by decide,by decide,by decide,by decide,hroot,pair_spineLocal,
    shrinkSize_zeroes_tail pairFs pairEntry 12 (by decide) (by decide) (by decide) (by decide) (by decide) (by decide)
      (by decide) hroot pair_spineLocal⟩

/-- A file of two bytes in a tree seven levels deep, of 32768-byte data blocks under pointer
blocks of 512 scores, rooted at block 1 and tagged 40. Its root pointers each cover `2^69` bytes,
which 64-bit multiplication turns into 0. -/
def deepWideEntry : Entry :=
  ⟨1,10240,32768,7,EntryActive ||| EntryLocal,2,localToGlobal 1,40,0,false⟩

/-- Past the wrap: on this tree, whose right spine for the new size 1 is local, labelled and of
the current epoch, `shrinkSize` to one byte divides by the zero its 64-bit pointer size became,
instead of zeroing the pointers past the first byte. -/
theorem shrinkSize_wraps :
    1 ≤ deepWideEntry.depth.toNat ∧ deepWideEntry.depth ≤ 7 ∧ (1 : UInt64) < deepWideEntry.size ∧
      deepWideEntry.size.toNat < span deepWideEntry deepWideEntry.depth.toNat ∧
      SpineLocal (chainFs deepWideEntry 7) deepWideEntry 1 ∧ shrinkSize (chainFs deepWideEntry 7) deepWideEntry 1=none :=
  ⟨by decide,by decide,by decide,by decide,chain_spineLocal deepWideEntry 7 rfl rfl (by decide) (one_lt_span (by decide) (by decide)),rfl⟩

end Fossil.Shrink
