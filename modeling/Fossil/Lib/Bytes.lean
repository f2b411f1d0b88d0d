import Mathlib

/-!
# Byte buffers

A byte buffer read and written at any offset: the big-endian accessors of a wire format,
writes of byte lists, zero fills and copies whose ranges may overlap (`memmove`, as Go's `copy`
behaves). Every write comes with a frame lemma (bytes outside the written range keep their
value) and a read-back lemma, and `region` reads a range back as a list, so that "a range is
untouched" is an equation between lists.
-/

namespace Bytes

/-- A byte buffer, indexed by offset. -/
abbrev Buf := Nat → UInt8

/-- `GetUint16`, big-endian. -/
def get16 (b : Buf) (o : Nat) : UInt16 :=
  (b o).toUInt16 <<< 8 ||| (b (o+1)).toUInt16

/-- `GetUint32`, big-endian. -/
def get32 (b : Buf) (o : Nat) : UInt32 :=
  (b o).toUInt32 <<< 24 ||| (b (o+1)).toUInt32 <<< 16 ||| (b (o+2)).toUInt32 <<< 8 ||| (b (o+3)).toUInt32

/-- The bytes `PutUint16` writes. -/
def be16 (v : UInt16) : List UInt8 :=
  [(v >>> 8).toUInt8,v.toUInt8]

/-- The bytes `PutUint32` writes. -/
def be32 (v : UInt32) : List UInt8 :=
  [(v >>> 24).toUInt8,(v >>> 16).toUInt8,(v >>> 8).toUInt8,v.toUInt8]

/-- The bytes `PutUint64` writes: the high word, then the low word. -/
def be64 (v : UInt64) : List UInt8 :=
  be32 (v >>> 32).toUInt32 ++ be32 v.toUInt32

/-- `GetUint48`: sixteen high bits, then thirty-two low ones. -/
def get48 (b : Buf) (o : Nat) : UInt64 :=
  (get16 b o).toUInt64 <<< 32 ||| (get32 b (o+2)).toUInt64

/-- The bytes `PutUint48` writes. -/
def be48 (v : UInt64) : List UInt8 :=
  be16 (v >>> 32).toUInt16 ++ be32 v.toUInt32

/-- Write a list of bytes from offset `o`. -/
def write (b : Buf) (o : Nat) (l : List UInt8) : Buf :=
  fun k => if o ≤ k ∧ k < o+l.length then l.getD (k-o) 0 else b k

/-- `PutUint16`. -/
def put16 (b : Buf) (o : Nat) (v : UInt16) : Buf :=
  write b o (be16 v)

/-- `PutUint32`. -/
def put32 (b : Buf) (o : Nat) (v : UInt32) : Buf :=
  write b o (be32 v)

/-- Zero `n` bytes from `o`. -/
def fill (b : Buf) (o n : Nat) : Buf :=
  fun k => if o ≤ k ∧ k < o+n then 0 else b k

/-- Copy `n` bytes from `src` to `dst`, reading the buffer as it was before (`copy`, `memmove`). -/
def move (b : Buf) (dst src n : Nat) : Buf :=
  fun k => if dst ≤ k ∧ k < dst+n then b (src+(k-dst)) else b k

/-- The `n` bytes from `o`. -/
def region (b : Buf) (o n : Nat) : List UInt8 :=
  (List.range n).map fun k => b (o+k)

@[simp] theorem be16_length (v : UInt16) : (be16 v).length=2 := rfl

@[simp] theorem be32_length (v : UInt32) : (be32 v).length=4 := rfl

@[simp] theorem be64_length (v : UInt64) : (be64 v).length=8 := rfl

@[simp] theorem be48_length (v : UInt64) : (be48 v).length=6 := rfl

/-! ## Frames -/

theorem write_of_not_mem {b : Buf} {o k : Nat} {l : List UInt8} (h : k < o ∨ o+l.length ≤ k) :
    write b o l k=b k := by
  unfold write
  rw [if_neg (by omega)]

theorem write_of_lt {b : Buf} {o k : Nat} {l : List UInt8} (h : k < l.length) :
    write b o l (o+k)=l.getD k 0 := by
  unfold write
  rw [if_pos (by omega)]
  congr 1
  omega

theorem fill_of_not_mem {b : Buf} {o n k : Nat} (h : k < o ∨ o+n ≤ k) : fill b o n k=b k := by
  unfold fill
  rw [if_neg (by omega)]

theorem fill_of_mem {b : Buf} {o n k : Nat} (h1 : o ≤ k) (h2 : k < o+n) : fill b o n k=0 := by
  unfold fill
  rw [if_pos ⟨h1,h2⟩]

theorem move_of_not_mem {b : Buf} {dst src n k : Nat} (h : k < dst ∨ dst+n ≤ k) :
    move b dst src n k=b k := by
  unfold move
  rw [if_neg (by omega)]

theorem move_of_lt {b : Buf} {dst src n k : Nat} (h : k < n) : move b dst src n (dst+k)=b (src+k) := by
  unfold move
  rw [if_pos (by omega)]
  congr 1
  omega

@[simp] theorem region_length (b : Buf) (o n : Nat) : (region b o n).length=n := by
  simp [region]

theorem region_getElem (b : Buf) (o n k : Nat) (h : k < (region b o n).length) :
    (region b o n)[k]=b (o+k) := by
  simp [region]

/-- Two buffers that agree on a range read it back the same. -/
theorem region_congr {b b' : Buf} {o n : Nat} (h : ∀ k, o ≤ k → k < o+n → b k=b' k) :
    region b o n=region b' o n := by
  unfold region
  apply List.map_congr_left
  intro k hk
  exact h _ (by omega) (by simp at hk; omega)

theorem region_write_same (b : Buf) (o : Nat) (l : List UInt8) : region (write b o l) o l.length=l := by
  apply List.ext_getElem
  · simp
  · intro k h1 h2
    rw [region_getElem,write_of_lt (by simpa using h1),List.getD_eq_getElem _ _ h2]

theorem region_move_same (b : Buf) (dst src n : Nat) : region (move b dst src n) dst n=region b src n := by
  unfold region
  apply List.map_congr_left
  intro k hk
  exact move_of_lt (by simpa using hk)

theorem region_add (b : Buf) (o m n : Nat) : region b o (m+n)=region b o m++region b (o+m) n := by
  unfold region
  rw [List.range_add,List.map_append,List.map_map]
  congr 1
  apply List.map_congr_left
  intro k _
  simp [Nat.add_assoc]

theorem region_take (b : Buf) (o : Nat) {m n : Nat} (h : m ≤ n) : (region b o n).take m=region b o m := by
  obtain ⟨d,rfl⟩ := Nat.exists_eq_add_of_le h
  rw [region_add,List.take_left' (region_length b o m)]

theorem region_drop (b : Buf) (o : Nat) {m n : Nat} (h : m ≤ n) : (region b o n).drop m=region b (o+m) (n-m) := by
  obtain ⟨d,rfl⟩ := Nat.exists_eq_add_of_le h
  rw [region_add,List.drop_left' (region_length b o m),Nat.add_sub_cancel_left]

/-- A copy reads a range inside its destination from the source. -/
theorem region_move_inside {b : Buf} {dst src n o m : Nat} (h1 : dst ≤ o) (h2 : o+m ≤ dst+n) :
    region (move b dst src n) o m=region b (src+(o-dst)) m := by
  unfold region
  apply List.map_congr_left
  intro k hk
  rw [List.mem_range] at hk
  unfold move
  rw [if_pos (by omega)]
  congr 1
  omega

/-- A range inside a write reads back the written bytes there. -/
theorem region_write_inside (b : Buf) (o : Nat) (l : List UInt8) {k n : Nat} (h : k+n ≤ l.length) :
    region (write b o l) (o+k) n=(l.drop k).take n := by
  apply List.ext_getElem
  · simp
    omega
  · intro j h1 h2
    simp only [region_length] at h1
    rw [region_getElem,Nat.add_assoc,write_of_lt (by omega),List.getElem_take,List.getElem_drop,
      List.getD_eq_getElem _ _ (by omega)]

/-- A write leaves a range it does not meet as it was. -/
theorem region_write_disjoint {b : Buf} {o o' n : Nat} {l : List UInt8}
    (h : o'+n ≤ o ∨ o+l.length ≤ o') : region (write b o l) o' n=region b o' n :=
  region_congr fun _ _ _ => write_of_not_mem (by omega)

theorem region_fill_disjoint {b : Buf} {o m o' n : Nat} (h : o'+n ≤ o ∨ o+m ≤ o') :
    region (fill b o m) o' n=region b o' n :=
  region_congr fun _ _ _ => fill_of_not_mem (by omega)

theorem region_move_disjoint {b : Buf} {dst src m o' n : Nat} (h : o'+n ≤ dst ∨ dst+m ≤ o') :
    region (move b dst src m) o' n=region b o' n :=
  region_congr fun _ _ _ => move_of_not_mem (by omega)

/-! ## Integers -/

theorem get16_toNat (b : Buf) (o : Nat) : (get16 b o).toNat=(b o).toNat*256+(b (o+1)).toNat := by
  have hx := (b o).toNat_lt
  have hy := (b (o+1)).toNat_lt
  unfold get16
  simp only [UInt16.toNat_or,UInt16.toNat_shiftLeft,UInt8.toNat_toUInt16]
  rw [show UInt16.toNat 8 % 16=8 from rfl,Nat.mod_eq_of_lt (by rw [Nat.shiftLeft_eq]; omega),
    ← Nat.shiftLeft_add_eq_or_of_lt (show (b (o+1)).toNat < 2^8 by omega),Nat.shiftLeft_eq]

theorem get16_congr {b b' : Buf} {o o' : Nat} (h0 : b o=b' o') (h1 : b (o+1)=b' (o'+1)) :
    get16 b o=get16 b' o' := by
  unfold get16
  rw [h0,h1]

/-- A 16-bit word depends only on its two bytes. -/
theorem get16_of_region {b b' : Buf} {o o' : Nat} (h : region b o 2=region b' o' 2) : get16 b o=get16 b' o' := by
  have h0 := congrArg (fun l => l.getD 0 0) h
  have h1 := congrArg (fun l => l.getD 1 0) h
  simp [region] at h0 h1
  exact get16_congr h0 h1

/-- A 32-bit word depends only on its four bytes. -/
theorem get32_of_region {b b' : Buf} {o o' : Nat} (h : region b o 4=region b' o' 4) : get32 b o=get32 b' o' := by
  have h0 := congrArg (fun l => l.getD 0 0) h
  have h1 := congrArg (fun l => l.getD 1 0) h
  have h2 := congrArg (fun l => l.getD 2 0) h
  have h3 := congrArg (fun l => l.getD 3 0) h
  simp [region] at h0 h1 h2 h3
  unfold get32
  rw [h0,h1,h2,h3]

theorem get32_toNat (b : Buf) (o : Nat) :
    (get32 b o).toNat=(b o).toNat*2^24+(b (o+1)).toNat*2^16+(b (o+2)).toNat*2^8+(b (o+3)).toNat := by
  have h0 := (b o).toNat_lt
  have h1 := (b (o+1)).toNat_lt
  have h2 := (b (o+2)).toNat_lt
  have h3 := (b (o+3)).toNat_lt
  unfold get32
  simp only [UInt32.toNat_or,UInt32.toNat_shiftLeft,UInt8.toNat_toUInt32]
  rw [show UInt32.toNat 24 % 32=24 from rfl,show UInt32.toNat 16 % 32=16 from rfl,
    show UInt32.toNat 8 % 32=8 from rfl]
  -- no byte reaches bit 32, and the bytes meet no bit in common: the `or`s are sums
  rw [Nat.mod_eq_of_lt (by rw [Nat.shiftLeft_eq]; omega),Nat.mod_eq_of_lt (by rw [Nat.shiftLeft_eq]; omega),
    Nat.mod_eq_of_lt (by rw [Nat.shiftLeft_eq]; omega),Nat.or_assoc,Nat.or_assoc,
    ← Nat.shiftLeft_add_eq_or_of_lt (show (b (o+3)).toNat < 2^8 by omega),
    ← Nat.shiftLeft_add_eq_or_of_lt (show (b (o+2)).toNat <<< 8+(b (o+3)).toNat < 2^16 by rw [Nat.shiftLeft_eq]; omega),
    ← Nat.shiftLeft_add_eq_or_of_lt (show (b (o+1)).toNat <<< 16+((b (o+2)).toNat <<< 8+(b (o+3)).toNat) < 2^24 by
      rw [Nat.shiftLeft_eq,Nat.shiftLeft_eq]; omega)]
  simp only [Nat.shiftLeft_eq]
  omega

theorem get48_toNat (b : Buf) (o : Nat) : (get48 b o).toNat=(get16 b o).toNat*2^32+(get32 b (o+2)).toNat := by
  have h16 := (get16 b o).toNat_lt
  have h32 := (get32 b (o+2)).toNat_lt
  unfold get48
  simp only [UInt64.toNat_or,UInt64.toNat_shiftLeft,UInt16.toNat_toUInt64,UInt32.toNat_toUInt64]
  rw [show UInt64.toNat 32 % 64=32 from rfl,Nat.mod_eq_of_lt (by rw [Nat.shiftLeft_eq]; omega),
    ← Nat.shiftLeft_add_eq_or_of_lt h32,Nat.shiftLeft_eq]

theorem get16_put16 (b : Buf) (o : Nat) (v : UInt16) : get16 (put16 b o v) o=v := by
  apply UInt16.toNat_inj.mp
  have hv := v.toNat_lt
  have e0 : write b o (be16 v) o=(v >>> 8).toUInt8 := by
    have h := write_of_lt (b := b) (o := o) (l := be16 v) (k := 0) (by simp)
    simpa [be16] using h
  have e1 : write b o (be16 v) (o+1)=v.toUInt8 :=
    write_of_lt (b := b) (o := o) (l := be16 v) (k := 1) (by simp)
  rw [get16_toNat,put16,e0,e1]
  simp [UInt16.toNat_shiftRight]
  omega

theorem get32_put32 (b : Buf) (o : Nat) (v : UInt32) : get32 (put32 b o v) o=v := by
  apply UInt32.toNat_inj.mp
  have hv := v.toNat_lt
  have e0 : put32 b o v o=(v >>> 24).toUInt8 := by
    simpa [put32,be32] using write_of_lt (b := b) (o := o) (l := be32 v) (k := 0) (by simp)
  have e1 : put32 b o v (o+1)=(v >>> 16).toUInt8 := write_of_lt (b := b) (o := o) (l := be32 v) (k := 1) (by simp)
  have e2 : put32 b o v (o+2)=(v >>> 8).toUInt8 := write_of_lt (b := b) (o := o) (l := be32 v) (k := 2) (by simp)
  have e3 : put32 b o v (o+3)=v.toUInt8 := write_of_lt (b := b) (o := o) (l := be32 v) (k := 3) (by simp)
  rw [get32_toNat,e0,e1,e2,e3]
  simp [UInt32.toNat_shiftRight,Nat.shiftRight_eq_div_pow]
  omega

theorem get16_put16_of_apart {b : Buf} {o o' : Nat} {w : UInt16} (h : o+2 ≤ o' ∨ o'+2 ≤ o) :
    get16 (put16 b o' w) o=get16 b o :=
  get16_of_region (region_write_disjoint (by simp only [be16_length]; omega))

theorem get32_put32_of_apart {b : Buf} {o o' : Nat} {v : UInt32} (h : o'+4 ≤ o ∨ o+4 ≤ o') :
    get32 (put32 b o v) o'=get32 b o' :=
  get32_of_region (region_write_disjoint h)

theorem get32_put16_of_apart {b : Buf} {o o' : Nat} {w : UInt16} (h : o+4 ≤ o' ∨ o'+2 ≤ o) :
    get32 (put16 b o' w) o=get32 b o :=
  get32_of_region (region_write_disjoint (by simp only [be16_length]; omega))

theorem get16_put32_of_apart {b : Buf} {o o' : Nat} {v : UInt32} (h : o+2 ≤ o' ∨ o'+4 ≤ o) :
    get16 (put32 b o' v) o=get16 b o :=
  get16_of_region (region_write_disjoint (by simp only [be32_length]; omega))

/-- A 16-bit word inside a write is the word its two bytes there encode. -/
theorem get16_write_of_take {b : Buf} {o k : Nat} {l : List UInt8} {v : UInt16} (hk : k+2 ≤ l.length)
    (h : (l.drop k).take 2=be16 v) : get16 (write b o l) (o+k)=v := by
  rw [← get16_put16 (fun _ => 0) 0 v]
  apply get16_of_region
  rw [region_write_inside _ _ _ hk,h,put16,← Nat.zero_add 0,region_write_inside _ _ _ (by simp)]
  rfl

/-- A 32-bit word inside a write is the word its four bytes there encode. -/
theorem get32_write_of_take {b : Buf} {o k : Nat} {l : List UInt8} {v : UInt32} (hk : k+4 ≤ l.length)
    (h : (l.drop k).take 4=be32 v) : get32 (write b o l) (o+k)=v := by
  rw [← get32_put32 (fun _ => 0) 0 v]
  apply get32_of_region
  rw [region_write_inside _ _ _ hk,h,put32,← Nat.zero_add 0,region_write_inside _ _ _ (by simp)]
  rfl

/-- A 48-bit word inside a write is the word its six bytes there encode, below `2^48`. -/
theorem get48_write_of_take {b : Buf} {o k : Nat} {l : List UInt8} {v : UInt64} (hv : v.toNat < 2^48)
    (hk : k+6 ≤ l.length) (h : (l.drop k).take 6=be48 v) : get48 (write b o l) (o+k)=v := by
  have h2 : (l.drop k).take 2=be16 (v >>> 32).toUInt16 := by
    have := congrArg (List.take 2) h
    rw [be48,List.take_left' (be16_length _),List.take_take] at this
    simpa using this
  have h4 : (l.drop (k+2)).take 4=be32 v.toUInt32 := by
    have := congrArg (List.drop 2) h
    rw [be48,List.drop_left' (be16_length _),List.drop_take,List.drop_drop] at this
    simpa [Nat.add_comm] using this
  apply UInt64.toNat_inj.mp
  rw [get48_toNat,get16_write_of_take (by omega) h2,show o+k+2=o+(k+2) by omega,
    get32_write_of_take (by omega) h4]
  simp [UInt64.toNat_shiftRight,Nat.shiftRight_eq_div_pow]
  omega

/-- A 32-bit word whose first byte is zero is below `2^24`. -/
theorem get32_lt_of_zero {b : Buf} {o : Nat} (h : b o=0) : (get32 b o).toNat < 2^24 := by
  have h1 := (b (o+1)).toNat_lt
  have h2 := (b (o+2)).toNat_lt
  have h3 := (b (o+3)).toNat_lt
  unfold get32
  rw [h]
  simp only [UInt32.toNat_or,UInt32.toNat_shiftLeft,UInt8.toNat_toUInt32,UInt8.toNat_zero]
  rw [show UInt32.toNat 24 % 32=24 from rfl,show UInt32.toNat 16 % 32=16 from rfl,
    show UInt32.toNat 8 % 32=8 from rfl]
  simp only [Nat.zero_shiftLeft,Nat.zero_mod,Nat.zero_or]
  refine Nat.or_lt_two_pow (Nat.or_lt_two_pow ?_ ?_) (by omega)
  · rw [Nat.mod_eq_of_lt (by rw [Nat.shiftLeft_eq]; omega),Nat.shiftLeft_eq]
    omega
  · rw [Nat.mod_eq_of_lt (by rw [Nat.shiftLeft_eq]; omega),Nat.shiftLeft_eq]
    omega

end Bytes
