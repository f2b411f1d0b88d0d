import Fossil.Vac.File
import Fossil.Lib.Wire
import Fossil.Venti.Score

/-!
# Directory entries

`(*MetaBlock).unpackDirEntry` (`vac.go`) decodes the entry that `packDirEntry` writes: the magic,
a version from 7 to 9, the name, the entry numbers and the qid (version 7 also has a score
there, which is skipped), the three user names, five words, and then optional sections, each a
tag, a length and that many bytes. A Plan 9 section (versions 7 and 8) sets `plan9`, `p9path`
and `p9version`; a qid-space section sets the qid space; other sections are skipped. The size is
taken from the data source's entry, not from here, and is left zero.

The decoder reads the slice `mb.buf[me.offset:][:me.size]` as a list of bytes. An error is `none`
(`EBadMeta`). The round trip: an entry packed into a slot of exactly `getSize` bytes decodes to
itself, with the fields the encoder does not write cleared.
-/

namespace Fossil.Vac

open Bytes

/-- `DePlan9`: Plan 9 path and version, not valid in version 9. -/
def DePlan9 : UInt8 := 1

/-- `DeNT`, not valid in version 9; no case of the decoder takes it. -/
def DeNT : UInt8 := 2

/-- `DeGen`, not valid in version 9. -/
def DeGen : UInt8 := 4

/-- The decoded `DirEntry`: the fields `packDirEntry` writes, the size, and the Plan 9 fields of
older versions. -/
structure UnpackedDirEntry extends DirEntry where
  size : UInt64
  plan9 : Bool
  p9path : UInt64
  p9version : UInt32
  deriving DecidableEq

/-- `pack.UnpackString`: a 16-bit length and that many bytes; the string and the rest. -/
def unpackString (p : List UInt8) : Option (List UInt8 × List UInt8) :=
  if p.length < 2 then none
  else
    let n := (getUint16 p).toNat
    let buf := p.drop 2
    if buf.length < n then none else some (buf.take n,buf.drop n)

/-- One optional section of `unpackDirEntry`, tag `t` with the `n` bytes `p`. -/
def unpackSection (version : Nat) (dir : UnpackedDirEntry) (t : UInt8) (n : Nat) (p : List UInt8) :
    Option UnpackedDirEntry :=
  if t=DePlan9 then
    if 9 ≤ version then some dir
    else if dir.plan9 ∨ n≠12 then none
    else
      let p9version := getUint32 (p.drop 8)
      some { dir with
        plan9 := true,p9path := getUint64 p,p9version := p9version,
        mcount := if dir.mcount=0 then p9version else dir.mcount }
  -- skipped in every version
  else if t=DeGen then some dir
  else if t=DeQidSpace then
    if dir.qidSpace≠0 ∨ n≠16 then none
    else some { dir with qidSpace := 1,qidOffset := getUint64 p,qidMax := getUint64 (p.drop 8) }
  else some dir

/-- The loop over the optional sections, until the slice is used up. -/
def unpackOptions (version : Nat) (dir : UnpackedDirEntry) (p : List UInt8) : Option UnpackedDirEntry :=
  if p.length=0 then some dir
  else if p.length < 3 then none
  else
    let n := (getUint16 (p.drop 1)).toNat
    if (p.drop 3).length < n then none
    else
      match unpackSection version dir (p.headD 0) n (p.drop 3) with
      | none => none
      | some dir => unpackOptions version dir ((p.drop 3).drop n)
termination_by p.length
decreasing_by
  simp only [List.length_drop]
  omega

/-- The body of `unpackDirEntry` on the slice `p`. The final `len(p) != 0` check cannot fail: the
section loop stops only when the slice is used up. -/
def parseDirEntry (p : List UInt8) : Option UnpackedDirEntry := do
  if p.length < 4 ∨ getUint32 p≠DirMagic then none
  let p := p.drop 4
  if p.length < 2 then none
  let version := (getUint16 p).toNat
  if version < 7 ∨ 9 < version then none
  let p := p.drop 2
  let (elem,p) ← unpackString p
  if p.length < 4 then none
  let entry := getUint32 p
  let p := p.drop 4
  -- versions before 9 have no generations: the meta entry follows the data entry
  let (gen,mentry,mgen,p) ← if version < 9 then some (0,entry+1,0,p)
    else if p.length < 3*4 then none
    else some (getUint32 p,getUint32 (p.drop 4),getUint32 (p.drop 8),p.drop (3*4))
  if p.length < 8 then none
  let qid := getUint64 p
  let p := p.drop 8
  -- version 7 kept a replacement score here
  let p ← if version=7 then (if p.length < Venti.ScoreSize then none else some (p.drop Venti.ScoreSize))
    else some p
  let (uid,p) ← unpackString p
  let (gid,p) ← unpackString p
  let (mid,p) ← unpackString p
  if p.length < 5*4 then none
  let dir : UnpackedDirEntry :=
    ⟨⟨elem,entry,gen,mentry,mgen,qid,uid,gid,mid,getUint32 p,getUint32 (p.drop 4),getUint32 (p.drop 8),
      getUint32 (p.drop 12),getUint32 (p.drop 16),0,0,0⟩,0,false,0,0⟩
  unpackOptions version dir (p.drop (5*4))

/-- `(*MetaBlock).unpackDirEntry`: the entry in the slot `me`. -/
def unpackDirEntry (mb : MetaBlock) (me : MetaEntry) : Option UnpackedDirEntry :=
  parseDirEntry (region mb.buf me.offset me.size.toNat)

/-! ## The size is not decoded -/

theorem unpackSection_size {version : Nat} {dir de : UnpackedDirEntry} {t : UInt8} {n : Nat} {p : List UInt8}
    (h : unpackSection version dir t n p=some de) : de.size=dir.size := by
  unfold unpackSection at h
  split_ifs at h <;> cases h <;> rfl

theorem unpackOptions_size {version : Nat} {dir de : UnpackedDirEntry} {p : List UInt8}
    (h : unpackOptions version dir p=some de) : de.size=dir.size := by
  -- induction on the sections read; each keeps the size
  fun_induction unpackOptions version dir p with
  | case1 dir p h0 =>
    cases h
    rfl
  | case2 | case3 | case4 => cases h
  | case5 dir p _ _ _ _ dir' hs ih => exact (ih h).trans (unpackSection_size hs)

theorem parseDirEntry_size {p : List UInt8} {de : UnpackedDirEntry} (h : parseDirEntry p=some de) : de.size=0 := by
  -- drop the failed guards before they are unfolded: each one copies the rest of the decoder
  simp only [parseDirEntry,↓Option.bind_eq_bind,↓Option.bind_none,Option.ite_none_left_eq_some,
    Option.bind_eq_some_iff,Option.bind_some] at h
  obtain ⟨-,-,-,_,-,-,h⟩ := h
  generalize (getUint16 (List.drop 4 p)).toNat=v at h
  -- versions 7 and 8 have no generation words, and version 7 skips a score after the qid
  by_cases h9 : v < 9 <;> by_cases h7 : v = 7 <;>
    simp only [h9,h7,Nat.reduceLT,↓reduceIte,Option.bind_eq_some_iff,Option.ite_none_left_eq_some,
      Option.some.injEq,and_assoc,exists_and_left,exists_eq_left'] at h
  · obtain ⟨-,-,_,-,_,-,_,-,-,h⟩ := h
    exact unpackOptions_size h
  · obtain ⟨-,_,-,_,-,_,-,-,h⟩ := h
    exact unpackOptions_size h
  · omega
  · obtain ⟨-,-,_,-,_,-,_,-,-,h⟩ := h
    exact unpackOptions_size h

/-- Every entry `unpackDirEntry` returns has size zero: the size lives in the data source. -/
theorem unpackDirEntry_size {mb : MetaBlock} {me : MetaEntry} {de : UnpackedDirEntry} (h : unpackDirEntry mb me=some de) :
    de.size=0 :=
  parseDirEntry_size h

/-! ## The round trip -/

@[simp] theorem length_packString (s : List UInt8) : (packString s).length=2+s.length := by
  simp [packString]

/-- A string shorter than `2^16` reads back in front of any suffix. -/
theorem unpackString_packString (s r : List UInt8) (hs : s.length < 2^16) :
    unpackString (packString s++r)=some (s,r) := by
  have hn : (getUint16 (packString s++r)).toNat=s.length := by
    rw [packString,List.append_assoc,getUint16_be16_append,UInt16.toNat_ofNat_of_lt' hs]
  have hb : (packString s++r).drop 2=s++r := by
    rw [packString,List.append_assoc,drop_be16_append]
  unfold unpackString
  rw [if_neg (by simp; omega),hn,hb,if_neg (by simp),List.take_left,List.drop_left]

theorem unpackOptions_nil (version : Nat) (dir : UnpackedDirEntry) : unpackOptions version dir []=some dir := by
  rw [unpackOptions]
  rfl

/-- The qid-space section `packDirEntry` writes, read into an entry that has none yet. -/
theorem unpackOptions_qidSpace (version : Nat) (dir : UnpackedDirEntry) (h : dir.qidSpace=0) (a b : UInt64) :
    unpackOptions version dir (DeQidSpace::(be16 16++(be64 a++be64 b)))=
      some { dir with qidSpace := 1,qidOffset := a,qidMax := b } := by
  have hsec : unpackSection version dir DeQidSpace 16 (be64 a++be64 b)=
      some { dir with qidSpace := 1,qidOffset := a,qidMax := b } := by
    simp [unpackSection,DePlan9,DeGen,DeQidSpace,h]
  have hend : (be64 a++be64 b).drop 16=[] := List.drop_of_length_le (by simp)
  rw [unpackOptions]
  simp [hsec,hend,unpackOptions_nil]

/-- The bytes of a version 9 entry decode to the entry. The qid offset and maximum are written
only with a qid space, and decode as zero without one. -/
theorem parseDirEntry_encode (d : DirEntry) (he : d.elem.length < 2^16) (hu : d.uid.length < 2^16)
    (hg : d.gid.length < 2^16) (hm : d.mid.length < 2^16) (hq : d.qidSpace=0 ∨ d.qidSpace=1) :
    parseDirEntry (encode d)=some ⟨{ d with
      qidOffset := if d.qidSpace=0 then 0 else d.qidOffset,
      qidMax := if d.qidSpace=0 then 0 else d.qidMax },0,false,0,0⟩ := by
  simp only [parseDirEntry,↓Option.bind_eq_bind,↓Option.bind_none]
  rcases hq with h | h
  · have hend : (be32 d.mode).drop 4=[] := List.drop_of_length_le (by simp)
    simp [encode,h,unpackString_packString _ _ he,unpackString_packString _ _ hu,
      unpackString_packString _ _ hg,unpackString_packString _ _ hm,hend,unpackOptions_nil]
    omega
  · simp [encode,h,unpackString_packString _ _ he,unpackString_packString _ _ hu,
      unpackString_packString _ _ hg,unpackString_packString _ _ hm,unpackOptions_qidSpace]
    omega

theorem unpackDirEntry_packDirEntry (d : DirEntry) (he : d.elem.length < 2^16) (hu : d.uid.length < 2^16)
    (hg : d.gid.length < 2^16) (hm : d.mid.length < 2^16) (hq : d.qidSpace=0 ∨ d.qidSpace=1) :
    (encode d).length=d.getSize ∧
      ∀ (mb : MetaBlock) (me : MetaEntry), me.size.toNat=d.getSize →
        ∃ mb', packDirEntry mb d me=some mb' ∧
          unpackDirEntry mb' me=some ⟨{ d with
            qidOffset := if d.qidSpace=0 then 0 else d.qidOffset,
            qidMax := if d.qidSpace=0 then 0 else d.qidMax },0,false,0,0⟩ := by
  have hlen := encode_length d (by omega)
  refine ⟨hlen,fun mb me hs => ⟨_,if_pos (hlen.trans hs.symm),?_⟩⟩
  rw [unpackDirEntry,← hlen.trans hs.symm,region_write_same]
  exact parseDirEntry_encode d he hu hg hm hq

/-- The root's entry as `rootMetaInit` builds it: `root`, owned by `adm`, a directory
(`ModeDir | 0555`) with no qid space. -/
def rootDir : DirEntry :=
  ⟨[114,111,111,116],0,0,1,0,0,[97,100,109],[97,100,109],[97,100,109],0,0,0,0,0x8000 ||| 0o555,0,0,0⟩

theorem unpackDirEntry_packDirEntry_root :
    (encode rootDir).length=rootDir.getSize ∧
      ∀ (mb : MetaBlock) (me : MetaEntry), me.size.toNat=rootDir.getSize →
        ∃ mb', packDirEntry mb rootDir me=some mb' ∧
          unpackDirEntry mb' me=some ⟨{ rootDir with
            qidOffset := if rootDir.qidSpace=0 then 0 else rootDir.qidOffset,
            qidMax := if rootDir.qidSpace=0 then 0 else rootDir.qidMax },0,false,0,0⟩ :=
  unpackDirEntry_packDirEntry rootDir (by decide) (by decide) (by decide) (by decide) (.inl rfl)

end Fossil.Vac
