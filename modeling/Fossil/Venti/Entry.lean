import Fossil.Source.Entry
import Fossil.Venti.Root
import Fossil.Lib.Bytes
import Mathlib.Tactic.IntervalCases

/-!
# Venti entries

A Venti entry (`venti/entry.go`) takes 40 bytes: generation, pointer and data block sizes, the
flags byte with the depth in bits 2-4, five zero bytes, a 48-bit size and the score. Unlike the
fossil entry of `Fossil.Source.Codec` it has no local form, and `UnpackEntry` checks the block
sizes of an active entry. On the domain `Pack` is meant for (a depth of at most 7, flags without
depth bits, a size below `2^48`, and block sizes `checkBlockSize` accepts when the entry is
active) the round trip gives the entry back at every slot, and packing one slot leaves the others.
-/

namespace Fossil.Venti

open Bytes
open Fossil.Source (EntryActive EntryDepthMask EntryDepthShift foldDepth_flags foldDepth_depth unfoldDepth_le
  andNot_depthMask)

/-- `venti.Entry`. -/
structure Entry where
  gen : UInt32
  psize : UInt16
  dsize : UInt16
  depth : UInt8
  flags : UInt8
  size : UInt64
  score : Score
  deriving DecidableEq, Repr

/-- The 40 bytes `Pack` writes, field by field. -/
def Entry.bytes (e : Entry) : List UInt8 :=
  be32 e.gen++be16 e.psize++be16 e.dsize++[e.flags ||| ((e.depth <<< EntryDepthShift) &&& EntryDepthMask)]++
    List.replicate 5 0++be48 e.size++e.score.toList

/-- `(*Entry).Pack(p, index)`. -/
def Entry.pack (e : Entry) (p : Buf) (index : Nat) : Buf :=
  write p (index*EntrySize) e.bytes

/-- `checkBlockSize` as an error. -/
def checkBlockSizeErr (n : Nat) : Except String Unit :=
  if checkBlockSize n then .ok () else .error ("bad block size "++toString n)

/-- The fields `UnpackEntry` reads from slot `index`: the depth out of the flags byte, the flags
without it. -/
def readEntry (p : Buf) (index : Nat) : Entry :=
  let o := index*EntrySize
  { gen := get32 p o
    psize := get16 p (o+4)
    dsize := get16 p (o+6)
    depth := (p (o+8) &&& EntryDepthMask) >>> EntryDepthShift
    flags := p (o+8) &&& ~~~EntryDepthMask
    size := get48 p (o+14)
    score := Vector.ofFn fun k : Fin 20 => p (o+20+k.val) }

/-- `UnpackEntry(p, index)`: the block sizes of an active entry are checked. -/
def unpackEntry (p : Buf) (index : Nat) : Except String Entry :=
  let e := readEntry p index
  if e.flags &&& EntryActive=0 then .ok e
  else do
    checkBlockSizeErr e.psize.toNat
    checkBlockSizeErr e.dsize.toNat
    return e

/-! ## What `UnpackEntry` returns -/

/-- The entries `UnpackEntry` accepts: inactive ones, and active ones with block sizes
`checkBlockSize` accepts. -/
def Entry.Valid (e : Entry) : Prop :=
  e.flags &&& EntryActive≠0 → checkBlockSize e.psize.toNat ∧ checkBlockSize e.dsize.toNat

instance (e : Entry) : Decidable e.Valid := inferInstanceAs (Decidable (_ → _))

theorem checkBlockSizeErr_bind {α : Type} (n : Nat) (x : Except String α) :
    (checkBlockSizeErr n >>= fun _ => x)=if checkBlockSize n then x else .error ("bad block size "++toString n) := by
  unfold checkBlockSizeErr
  split <;> rfl

/-- `UnpackEntry` returns the fields it reads when they make a valid entry. -/
theorem unpackEntry_of_valid {p : Buf} {index : Nat} (hv : (readEntry p index).Valid) :
    unpackEntry p index=.ok (readEntry p index) := by
  unfold unpackEntry
  by_cases ha : (readEntry p index).flags &&& EntryActive=0
  · rw [if_pos ha]
  · obtain ⟨hp,hd⟩ := hv ha
    rw [if_neg ha,checkBlockSizeErr_bind,if_pos hp,checkBlockSizeErr_bind,if_pos hd]
    rfl

/-- Otherwise it names a block size `checkBlockSize` refuses: the pointer block size when it is
bad, else the data block size. -/
theorem unpackEntry_of_not_valid {p : Buf} {index : Nat} (hv : ¬(readEntry p index).Valid) :
    ∃ n, checkBlockSize n=false ∧ unpackEntry p index=.error ("bad block size "++toString n) := by
  have ha : ¬(readEntry p index).flags &&& EntryActive=0 := fun h => hv fun h' => absurd h h'
  unfold unpackEntry
  rw [if_neg ha,checkBlockSizeErr_bind,checkBlockSizeErr_bind]
  by_cases hp : checkBlockSize (readEntry p index).psize.toNat
  · have hd : ¬checkBlockSize (readEntry p index).dsize.toNat := fun hd => hv fun _ => ⟨hp,hd⟩
    exact ⟨_,by simpa using hd,by rw [if_pos hp,if_neg hd]⟩
  · exact ⟨_,by simpa using hp,by rw [if_neg hp]⟩

/-- An unpacked entry has a depth of three bits, no depth bits in its flags and a 48-bit size. -/
theorem readEntry_domain (p : Buf) (index : Nat) :
    (readEntry p index).depth ≤ 7 ∧ (readEntry p index).flags &&& EntryDepthMask=0 ∧
      (readEntry p index).size.toNat<2^48 := by
  refine ⟨unfoldDepth_le _,andNot_depthMask _,?_⟩
  simp only [readEntry]
  rw [get48_toNat]
  have h16 := (get16 p (index*EntrySize+14)).toNat_lt
  have h32 := (get32 p (index*EntrySize+14+2)).toNat_lt
  simp at h16 h32
  omega

/-! ## The round trip -/

@[simp] theorem bytes_length (e : Entry) : e.bytes.length=EntrySize := by
  simp [Entry.bytes,EntrySize]

/-- The fields where `Pack` puts them. -/
theorem bytes_head (e : Entry) :
    (e.bytes.drop 0).take 4=be32 e.gen ∧ (e.bytes.drop 4).take 2=be16 e.psize ∧
    (e.bytes.drop 6).take 2=be16 e.dsize ∧
    e.bytes.getD 8 0=e.flags ||| ((e.depth <<< EntryDepthShift) &&& EntryDepthMask) ∧
    (e.bytes.drop 14).take 6=be48 e.size := by
  unfold Entry.bytes
  simp [be32,be16,be48]

/-- The score, in the last twenty bytes. -/
theorem bytes_score (e : Entry) : ∀ k < 20, e.bytes.getD (20+k) 0=e.score.getD k 0 := by
  unfold Entry.bytes
  intro k hk
  interval_cases k <;> simp [be32,be16,be48,Vector.getD]

/-- The bytes `Pack` writes read back, before any check, as the entry. -/
theorem readEntry_pack (e : Entry) (p : Buf) (i : Nat) (hd : e.depth ≤ 7) (hf : e.flags &&& EntryDepthMask=0)
    (hs : e.size.toNat<2^48) : readEntry (e.pack p i) i=e := by
  unfold Entry.pack
  have hbyte : ∀ k < EntrySize, write p (i*EntrySize) e.bytes (i*EntrySize+k)=e.bytes.getD k 0 :=
    fun k hk => write_of_lt (by rw [bytes_length]; exact hk)
  obtain ⟨h0,h4,h6,h8,h14⟩ := bytes_head e
  have hgen : get32 (write p (i*EntrySize) e.bytes) (i*EntrySize)=e.gen := by
    simpa using get32_write_of_take (b := p) (o := i*EntrySize) (by simp [EntrySize]) h0
  have hpsize := get16_write_of_take (b := p) (o := i*EntrySize) (by simp [EntrySize]) h4
  have hdsize := get16_write_of_take (b := p) (o := i*EntrySize) (by simp [EntrySize]) h6
  have hsize := get48_write_of_take (b := p) (o := i*EntrySize) hs (by simp [EntrySize]) h14
  have hflags : write p (i*EntrySize) e.bytes (i*EntrySize+8)=
      e.flags ||| ((e.depth <<< EntryDepthShift) &&& EntryDepthMask) := by
    rw [hbyte 8 (by decide),h8]
  have hscore : (Vector.ofFn fun k : Fin 20 => write p (i*EntrySize) e.bytes (i*EntrySize+20+k.val))=e.score := by
    apply Vector.ext
    intro k hk
    rw [Vector.getElem_ofFn,Nat.add_assoc,hbyte (20+k) (by unfold EntrySize; omega),bytes_score e k hk]
    simp [Vector.getD,hk]
  unfold readEntry
  simp only [hgen,hpsize,hdsize,hsize,hflags,foldDepth_flags hf,foldDepth_depth hf hd,hscore]

/-- Writing one slot leaves the bytes of every other slot. -/
theorem pack_other_slot (e : Entry) (p : Buf) {i j : Nat} (hj : j≠i) :
    region (e.pack p i) (j*EntrySize) EntrySize=region p (j*EntrySize) EntrySize := by
  apply region_write_disjoint
  rw [bytes_length]
  unfold EntrySize
  rcases Nat.lt_or_gt_of_ne hj with h | h
  · left
    omega
  · right
    omega

/-- The Venti entry round trip: on the domain `Pack` is meant for, `UnpackEntry` reads the entry
back from every slot it was packed into, and every other slot keeps its bytes. -/
theorem entry_pack_round_trip (e : Entry) (p : Buf) (i : Nat) (hd : e.depth ≤ 7) (hf : e.flags &&& EntryDepthMask=0)
    (hs : e.size.toNat<2^48) (hv : e.Valid) :
    unpackEntry (e.pack p i) i=.ok e ∧
      ∀ j≠i, region (e.pack p i) (j*EntrySize) EntrySize=region p (j*EntrySize) EntrySize := by
  refine ⟨?_,fun j hj => pack_other_slot e p hj⟩
  have he := readEntry_pack e p i hd hf hs
  have hv' : (readEntry (e.pack p i) i).Valid := by rw [he]; exact hv
  rw [unpackEntry_of_valid hv',he]

/-- The entry of `TestPackEntry`: active, with the largest block sizes, at depth 3. -/
def testEntry : Entry :=
  ⟨1,56*1024,56*1024,3,EntryActive,56*1024,zeroScore⟩

theorem entry_pack_round_trip_testEntry :
    testEntry.depth ≤ 7 ∧ testEntry.flags &&& EntryDepthMask=0 ∧ testEntry.size.toNat<2^48 ∧ testEntry.Valid ∧
      unpackEntry (testEntry.pack (fun _ => 0) 1) 1=.ok testEntry ∧
      ∀ j≠1, region (testEntry.pack (fun _ => 0) 1) (j*EntrySize) EntrySize=region (fun _ => 0) (j*EntrySize) EntrySize :=
  ⟨by decide,by decide,by decide,by decide,
    entry_pack_round_trip testEntry (fun _ => 0) 1 (by decide) (by decide) (by decide) (by decide)⟩

end Fossil.Venti
