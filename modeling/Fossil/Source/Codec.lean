import Fossil.Source.Entry
import Fossil.Block
import Fossil.Lib.Bytes

/-!
# Packing entries

An entry takes 40 bytes of a directory block (`entry.go`): generation, block sizes, the flags
byte with the depth folded into bits 2-4, five zero bytes and a 48-bit size, then either the
whole score or, for an entry of local blocks, seven zero bytes, the archive byte, the snapshot
epoch, the tag and the four address bytes of the score. `unpackEntry` reads the same layout
back; on the domain `pack` is meant for (a depth of at most 7, flags without depth bits, a size
below `2^48`, and a local address as the score of a local entry) the round trip gives the entry
back, with tag, snapshot and archive bit cleared for an entry stored on Venti.
-/

namespace Fossil.Source

open Fossil.Venti Fossil.Block Bytes

/-- The flags byte `pack` writes: the flags, with the depth in bits 2-4. -/
def Entry.packedFlags (e : Entry) : UInt8 :=
  e.flags ||| ((e.depth <<< EntryDepthShift) &&& EntryDepthMask)

/-- The 40 bytes `pack` writes, field by field. -/
def Entry.bytes (e : Entry) : List UInt8 :=
  be32 e.gen++be16 e.psize++be16 e.dsize++[e.packedFlags]++List.replicate 5 0++be48 e.size++
    if e.packedFlags &&& EntryLocal≠0 then
      List.replicate 7 0++[if e.archive then 1 else 0]++be32 e.snap++be32 e.tag++e.score.toList.drop 16
    else e.score.toList

/-- `(*Entry).pack` into slot `index`; `none` is its panic on a local entry whose score is not
a local address. -/
def Entry.pack (e : Entry) (p : Buf) (index : Nat) : Option Buf :=
  if e.packedFlags &&& EntryLocal≠0 ∧ globalToLocal e.score=NilBlock then none
  else some (write p (index*EntrySize) e.bytes)

/-- `unpackEntry(p, index)`. -/
def unpackEntry (p : Buf) (index : Nat) : Entry :=
  let o := index*EntrySize
  let flags := p (o+8) &&& ~~~EntryDepthMask
  let isLocal : Bool := flags &&& EntryLocal != 0
  { gen := get32 p o
    psize := get16 p (o+4)
    dsize := get16 p (o+6)
    depth := (p (o+8) &&& EntryDepthMask) >>> EntryDepthShift
    flags := flags
    size := get48 p (o+14)
    score := if isLocal then Vector.ofFn fun k : Fin 20 => if k.val < 16 then 0 else p (o+36+(k.val-16))
      else Vector.ofFn fun k : Fin 20 => p (o+20+k.val)
    tag := if isLocal then get32 p (o+32) else 0
    snap := if isLocal then get32 p (o+28) else 0
    archive := isLocal && p (o+27)!=0 }

/-! ## The flags byte -/

/-- Folding the depth in leaves the local bit alone. -/
theorem packedFlags_local (e : Entry) : e.packedFlags &&& EntryLocal=e.flags &&& EntryLocal := by
  apply UInt8.eq_of_toBitVec_eq
  ext i hi
  simp [Entry.packedFlags,EntryLocal,EntryDepthMask,EntryDepthShift]
  interval_cases i <;> simp

section Flags

variable {e : Entry} (hf : e.flags &&& EntryDepthMask=0)

include hf in
/-- The flags come back without the depth bits. -/
theorem packedFlags_flags : e.packedFlags &&& ~~~EntryDepthMask=e.flags :=
  foldDepth_flags hf e.depth

include hf in
/-- A depth of at most 7 comes back from bits 2-4. -/
theorem packedFlags_depth (hd : e.depth ≤ 7) :
    (e.packedFlags &&& EntryDepthMask) >>> EntryDepthShift=e.depth :=
  foldDepth_depth hf hd

end Flags

/-! ## The bytes of an entry -/

@[simp] theorem bytes_length (e : Entry) : e.bytes.length=EntrySize := by
  unfold Entry.bytes
  split <;> simp [EntrySize]

/-- The fields every entry has, where `pack` puts them. -/
theorem bytes_head (e : Entry) :
    (e.bytes.drop 0).take 4=be32 e.gen ∧ (e.bytes.drop 4).take 2=be16 e.psize ∧
    (e.bytes.drop 6).take 2=be16 e.dsize ∧ e.bytes.getD 8 0=e.packedFlags ∧
    (e.bytes.drop 14).take 6=be48 e.size := by
  unfold Entry.bytes
  split <;> simp [be32,be16,be48]

/-- The tail of a local entry: archive byte, snapshot epoch, tag and address. -/
theorem bytes_local {e : Entry} (h : e.packedFlags &&& EntryLocal≠0) :
    e.bytes.getD 27 0=(if e.archive then 1 else 0) ∧ (e.bytes.drop 28).take 4=be32 e.snap ∧
    (e.bytes.drop 32).take 4=be32 e.tag ∧ ∀ k < 4, e.bytes.getD (36+k) 0=e.score.getD (16+k) 0 := by
  unfold Entry.bytes
  rw [if_pos h]
  refine ⟨by simp [be32,be16,be48],by simp [be32,be16,be48],by simp [be32,be16,be48],?_⟩
  intro k hk
  interval_cases k <;> simp [be32,be16,be48,Vector.getD]

/-- The tail of an entry stored on Venti: the score. -/
theorem bytes_global {e : Entry} (h : ¬e.packedFlags &&& EntryLocal≠0) :
    ∀ k < 20, e.bytes.getD (20+k) 0=e.score.getD k 0 := by
  unfold Entry.bytes
  rw [if_neg h]
  intro k hk
  interval_cases k <;> simp [be32,be16,be48,Vector.getD]

/-- What `unpackEntry` reads back of an entry: all of a local entry, and an entry stored on
Venti without tag, snapshot epoch and archive bit, which its slot has no room for. -/
def Entry.unpacked (e : Entry) : Entry :=
  if e.flags &&& EntryLocal≠0 then e else { e with tag := 0, snap := 0, archive := false }

/-- `pack` writes the entry's bytes into its slot, unless it is local with a score that is no
local address. -/
theorem pack_eq_write {e : Entry} (p : Buf) (i : Nat)
    (hl : e.flags &&& EntryLocal≠0 → globalToLocal e.score≠NilBlock) :
    e.pack p i=some (write p (i*EntrySize) e.bytes) := by
  unfold Entry.pack
  rw [if_neg]
  rintro ⟨h1,h2⟩
  rw [packedFlags_local] at h1
  exact hl h1 h2

/-- Generation and size, in the bytes `pack` writes, whatever the rest of the entry is. -/
theorem write_gen_size {e : Entry} (p : Buf) (i : Nat) (hs : e.size.toNat < 2^48) :
    get32 (write p (i*EntrySize) e.bytes) (i*EntrySize)=e.gen ∧
      get48 (write p (i*EntrySize) e.bytes) (i*EntrySize+14)=e.size := by
  obtain ⟨h0,-,-,-,h14⟩ := bytes_head e
  refine ⟨?_,get48_write_of_take (b := p) (o := i*EntrySize) hs (by simp [EntrySize]) h14⟩
  simpa using get32_write_of_take (b := p) (o := i*EntrySize) (by simp [EntrySize]) h0

/-- `unpackEntry` reads an entry back from the bytes `pack` writes. -/
theorem unpackEntry_write {e : Entry} (p : Buf) (i : Nat) (hd : e.depth ≤ 7) (hf : e.flags &&& EntryDepthMask=0)
    (hs : e.size.toNat < 2^48) (hl : e.flags &&& EntryLocal≠0 → ∀ k < 16, e.score.getD k 0=0) :
    unpackEntry (write p (i*EntrySize) e.bytes) i=e.unpacked := by
  have hloc := packedFlags_local e
  have hbyte : ∀ k < EntrySize, write p (i*EntrySize) e.bytes (i*EntrySize+k)=e.bytes.getD k 0 :=
    fun k hk => write_of_lt (by rw [bytes_length]; exact hk)
  obtain ⟨-,h4,h6,h8,-⟩ := bytes_head e
  obtain ⟨hgen,hsize⟩ := write_gen_size p i hs
  have hpsize := get16_write_of_take (b := p) (o := i*EntrySize) (by simp [EntrySize]) h4
  have hdsize := get16_write_of_take (b := p) (o := i*EntrySize) (by simp [EntrySize]) h6
  have hflags : write p (i*EntrySize) e.bytes (i*EntrySize+8)=e.packedFlags := by
    rw [hbyte 8 (by decide),h8]
  unfold unpackEntry Entry.unpacked
  simp only [hgen,hpsize,hdsize,hsize,hflags,packedFlags_flags hf,packedFlags_depth hf hd]
  by_cases hL : e.flags &&& EntryLocal≠0
  · obtain ⟨h27,h28,h32,h36⟩ := bytes_local (hloc ▸ hL)
    have hsnap := get32_write_of_take (b := p) (o := i*EntrySize) (by simp [EntrySize]) h28
    have htag := get32_write_of_take (b := p) (o := i*EntrySize) (by simp [EntrySize]) h32
    have harch : write p (i*EntrySize) e.bytes (i*EntrySize+27)=if e.archive then 1 else 0 := by
      rw [hbyte 27 (by decide),h27]
    have hscore : (Vector.ofFn fun k : Fin 20 => if k.val < 16 then 0
        else write p (i*EntrySize) e.bytes (i*EntrySize+36+(k.val-16)))=e.score := by
      apply Vector.ext
      intro k hk
      rw [Vector.getElem_ofFn]
      by_cases hk16 : k < 16
      · have := hl hL k hk16
        simp only [hk16,if_true]
        simpa [Vector.getD,hk] using this.symm
      · have := h36 (k-16) (by omega)
        simp only [hk16,if_false]
        rw [Nat.add_assoc,hbyte (36+(k-16)) (by unfold EntrySize; omega),this]
        simp [Vector.getD,show 16+(k-16)=k by omega,hk]
    have hL' : (e.flags &&& EntryLocal != 0)=true := bne_iff_ne.mpr hL
    rw [if_pos hL]
    have har : ((if e.archive=true then (1 : UInt8) else 0) != 0)=e.archive := by
      cases e.archive <;> rfl
    simp only [hL',hsnap,htag,harch,hscore,if_true,Bool.true_and,har]
  · have hg := bytes_global (hloc ▸ hL)
    have hscore : (Vector.ofFn fun k : Fin 20 => write p (i*EntrySize) e.bytes (i*EntrySize+20+k.val))=e.score := by
      apply Vector.ext
      intro k hk
      rw [Vector.getElem_ofFn,Nat.add_assoc,hbyte (20+k) (by unfold EntrySize; omega),hg k hk]
      simp [Vector.getD,hk]
    simp [hL,hscore]

/-- An unpacked depth has three bits. -/
theorem unpackEntry_depth_le (p : Buf) (i : Nat) : (unpackEntry p i).depth ≤ 7 :=
  unfoldDepth_le _

/-- Unpacked flags have no depth bits. -/
theorem unpackEntry_flags (p : Buf) (i : Nat) : (unpackEntry p i).flags &&& EntryDepthMask=0 :=
  andNot_depthMask _

/-- An unpacked size has 48 bits. -/
theorem unpackEntry_size_lt (p : Buf) (i : Nat) : (unpackEntry p i).size.toNat < 2^48 := by
  unfold unpackEntry
  simp only
  rw [get48_toNat]
  have h16 := (get16 p (i*EntrySize+14)).toNat_lt
  have h32 := (get32 p (i*EntrySize+14+2)).toNat_lt
  simp at h16 h32
  omega

/-- An unpacked local entry's score is a local address: sixteen zero bytes, then the address. -/
theorem unpackEntry_score_local (p : Buf) (i : Nat) (h : (unpackEntry p i).flags &&& EntryLocal≠0) :
    ∀ k < 16, (unpackEntry p i).score.getD k 0=0 := by
  intro k hk
  have hloc : (p (i*EntrySize+8) &&& ~~~EntryDepthMask &&& EntryLocal != 0)=true := by
    simpa [unpackEntry] using h
  simp only [unpackEntry,hloc,if_true,Vector.getD]
  simp [hk,Nat.lt_trans hk (show 16 < 20 by decide)]

/-- An unpacked entry, at any size, is what unpacking its bytes gives back: a local one keeps
everything, and one on Venti was read with no tag, snapshot or archive bit. -/
theorem unpackEntry_unpacked (p : Buf) (i : Nat) (s : UInt64) :
    { unpackEntry p i with size := s }.unpacked={ unpackEntry p i with size := s } := by
  unfold Entry.unpacked
  split_ifs with h
  · rfl
  · have hloc : (p (i*EntrySize+8) &&& ~~~EntryDepthMask &&& EntryLocal != 0)=false := by
      simpa [unpackEntry] using h
    simp [unpackEntry,hloc]

/-- `unpackEntry` reads nothing but the bytes of its slot. -/
theorem unpackEntry_congr {p p' : Buf} {i : Nat} (h : ∀ k < EntrySize, p (i*EntrySize+k)=p' (i*EntrySize+k)) :
    unpackEntry p i=unpackEntry p' i := by
  have h16 : ∀ o, o+2 ≤ EntrySize → get16 p (i*EntrySize+o)=get16 p' (i*EntrySize+o) := fun o ho => by
    unfold get16
    simp only [Nat.add_assoc]
    rw [h o (by omega),h (o+1) (by omega)]
  have h32 : ∀ o, o+4 ≤ EntrySize → get32 p (i*EntrySize+o)=get32 p' (i*EntrySize+o) := fun o ho => by
    unfold get32
    simp only [Nat.add_assoc]
    rw [h o (by omega),h (o+1) (by omega),h (o+2) (by omega),h (o+3) (by omega)]
  have hgen : get32 p (i*EntrySize)=get32 p' (i*EntrySize) := by simpa using h32 0 (by decide)
  have hflags : p (i*EntrySize+8)=p' (i*EntrySize+8) := h 8 (by decide)
  have harch : p (i*EntrySize+27)=p' (i*EntrySize+27) := h 27 (by decide)
  have hglobal : (fun k : Fin 20 => p (i*EntrySize+20+k.val))=fun k => p' (i*EntrySize+20+k.val) :=
    funext fun k => by rw [Nat.add_assoc,h _ (by unfold EntrySize; omega)]
  have hlocal : (fun k : Fin 20 => if k.val < 16 then (0 : UInt8) else p (i*EntrySize+36+(k.val-16)))=
      fun k => if k.val < 16 then 0 else p' (i*EntrySize+36+(k.val-16)) :=
    funext fun k => by
      split_ifs
      · rfl
      · rw [Nat.add_assoc,h _ (by unfold EntrySize; omega)]
  unfold unpackEntry get48
  dsimp only
  rw [hgen,h16 4 (by decide),h16 6 (by decide),hflags,h16 14 (by decide),Nat.add_assoc _ 14 2,
    h32 16 (by decide),h32 28 (by decide),h32 32 (by decide),harch,hglobal,hlocal]

/-- Writing one slot leaves the bytes of every other slot. -/
theorem region_write_other_slot (p : Buf) {i j : Nat} (l : List UInt8) (hl : l.length=EntrySize) (hj : j≠i) :
    region (write p (i*EntrySize) l) (j*EntrySize) EntrySize=region p (j*EntrySize) EntrySize := by
  apply region_write_disjoint
  rw [hl]
  unfold EntrySize
  rcases Nat.lt_or_gt_of_ne hj with h | h
  · left
    omega
  · right
    omega

/-- The entry round trip: on the domain `pack` is meant for, packing slot `i` succeeds,
`unpackEntry` reads the entry back from it, and every other slot keeps its bytes. -/
theorem unpackEntry_pack (e : Entry) (p : Buf) (i : Nat) (hd : e.depth ≤ 7) (hf : e.flags &&& EntryDepthMask=0)
    (hs : e.size.toNat < 2^48)
    (hl : e.flags &&& EntryLocal≠0 → (∀ k < 16, e.score.getD k 0=0) ∧ globalToLocal e.score≠NilBlock) :
    ∃ p', e.pack p i=some p' ∧ unpackEntry p' i=e.unpacked ∧
      ∀ j≠i, region p' (j*EntrySize) EntrySize=region p (j*EntrySize) EntrySize :=
  ⟨write p (i*EntrySize) e.bytes,pack_eq_write p i fun h => (hl h).2,
    unpackEntry_write p i hd hf hs fun h => (hl h).1,
    fun _ hj => region_write_other_slot p e.bytes (bytes_length e) hj⟩

/-- The entry of a one-level file of local blocks rooted at block 5, tagged 40. -/
def localEntry : Entry :=
  ⟨1,8180,8192,1,EntryActive ||| EntryLocal,8192,localToGlobal 5,40,0,false⟩

theorem unpackEntry_pack_localEntry :
    ∃ p', localEntry.pack (fun _ => 0) 3=some p' ∧ unpackEntry p' 3=localEntry ∧
      ∀ j≠3, region p' (j*EntrySize) EntrySize=region (fun _ => 0) (j*EntrySize) EntrySize := by
  have h := unpackEntry_pack localEntry (fun _ => 0) 3 (by decide) (by decide) (by decide)
    (fun _ => ⟨by decide,by decide⟩)
  have hu : localEntry.unpacked=localEntry := by decide
  rw [hu] at h
  exact h

end Fossil.Source
