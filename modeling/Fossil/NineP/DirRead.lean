import Fossil.Vac.DirEntry
import Fossil.Vac.Flush
import Fossil.Source.Codec

/-!
# Reading a directory

A `Tread` on a directory (`rTread` in `9p.go`) goes to `dirRead` (`9dir.go`). The fid keeps a
`DirBuf`: a `DirEntryEnum` over the directory's meta source (`file.go`), which `fill`s a buffer
with the entries of one meta block at a time and hands them out one by one, and one entry of
look-ahead. `dirRead` turns entries into 9P stat records (`dirDe2M`, marshalled as
`plan9.Dir.Bytes` does) and appends them to the reply.

Its loop runs while `nb < count`, with `nb` counting entries, not bytes, and it appends every
record whole: a reply holds one record per byte of `count` asked for, whatever their size. And
`fill` copies each entry into its buffer before `dirEntrySize` computes the entry's size, so every
record it hands out says length 0.

The directory is given by what the code reads of it: the blocks of its two sources as
`Source.block` returns them, the meta source's block count and the two block sizes. User names
are looked up by a function standing for the user table.
-/

namespace Fossil.Plan9

/-! ## Stat records (`internal/plan9`) -/

def QTDIR : UInt8 := 0x80

def QTAPPEND : UInt8 := 0x40

def QTEXCL : UInt8 := 0x20

def QTMOUNT : UInt8 := 0x10

def QTTMP : UInt8 := 0x04

def DMDIR : UInt32 := 0x80000000

def DMAPPEND : UInt32 := 0x40000000

def DMEXCL : UInt32 := 0x20000000

def DMMOUNT : UInt32 := 0x10000000

def DMTMP : UInt32 := 0x04000000

structure Qid where
  path : UInt64
  vers : UInt32
  type : UInt8

/-- A stat record (`plan9.Dir`). -/
structure Dir where
  type : UInt16
  dev : UInt32
  qid : Qid
  mode : UInt32
  atime : UInt32
  mtime : UInt32
  length : UInt64
  name : List UInt8
  uid : List UInt8
  gid : List UInt8
  muid : List UInt8

/-- The byte `pbit8` appends. -/
def pbit8 (x : UInt8) : List UInt8 := [x]

/-- The bytes `pbit16` appends: 9P is little-endian. -/
def pbit16 (x : UInt16) : List UInt8 := [x.toUInt8,(x >>> 8).toUInt8]

def pbit32 (x : UInt32) : List UInt8 := [x.toUInt8,(x >>> 8).toUInt8,(x >>> 16).toUInt8,(x >>> 24).toUInt8]

/-- The bytes `pbit64` appends: the low word, then the high word. -/
def pbit64 (x : UInt64) : List UInt8 := pbit32 x.toUInt32++pbit32 (x >>> 32).toUInt32

/-- `pstring`, which panics on a string of `2^16` bytes or more. -/
def pstring (s : List UInt8) : Option (List UInt8) :=
  if 2^16 ≤ s.length then none else some (pbit16 s.length.toUInt16++s)

def pqid (q : Qid) : List UInt8 := pbit8 q.type++pbit32 q.vers++pbit64 q.path

/-- `pdir`, the bytes of `(*Dir).Bytes`: the record's size, then its fields. -/
def pdir (d : Dir) : Option (List UInt8) := do
  let name ← pstring d.name
  let uid ← pstring d.uid
  let gid ← pstring d.gid
  let muid ← pstring d.muid
  let body := pbit16 d.type++pbit32 d.dev++pqid d.qid++pbit32 d.mode++pbit32 d.atime++pbit32 d.mtime++
    pbit64 d.length++name++uid++gid++muid
  some (pbit16 body.length.toUInt16++body)

theorem pstring_length {s r : List UInt8} (h : pstring s=some r) : r.length=2+s.length := by
  unfold pstring at h
  split_ifs at h
  cases h
  simp [pbit16]
  omega

/-- A record is 49 bytes and its four strings. -/
theorem pdir_length {d : Dir} {r : List UInt8} (h : pdir d=some r) :
    r.length=49+d.name.length+d.uid.length+d.gid.length+d.muid.length := by
  simp only [pdir,Option.bind_eq_bind,Option.bind_eq_some_iff] at h
  obtain ⟨name,hn,uid,hu,gid,hg,muid,hm,h⟩ := h
  cases h
  simp [pbit16,pbit32,pbit64,pqid,pbit8,pstring_length hn,pstring_length hu,pstring_length hg,pstring_length hm]
  omega

/-- The length field sits at byte 33, after the size, type, dev, qid, mode and times. -/
theorem pdir_length_field {d : Dir} {r : List UInt8} (h : pdir d=some r) : (r.drop 33).take 8=pbit64 d.length := by
  simp only [pdir,Option.bind_eq_bind,Option.bind_eq_some_iff] at h
  obtain ⟨name,hn,uid,hu,gid,hg,muid,hm,h⟩ := h
  cases h
  simp [pbit16,pbit32,pbit64,pqid,pbit8]

end Fossil.Plan9

namespace Fossil.NineP

open Bytes Fossil.Vac Fossil.Source Fossil.Venti Fossil.Plan9

def ModeAppend : UInt32 := 0x1000

def ModeExclusive : UInt32 := 0x2000

def ModeDir : UInt32 := 0x8000

def ModeTemporary : UInt32 := 0x80000

def ModeSnapshot : UInt32 := 0x100000

/-- `dirDe2M`: the entry as a stat record. A user id that the table does not know is shown in
parentheses. -/
def dirDe2M (unameByUid : List UInt8 → List UInt8) (de : UnpackedDirEntry) : Option (List UInt8) :=
  let bit (m : UInt32) {α : Type} [OfNat α 0] (b : α) : α := if de.mode &&& m≠0 then b else 0
  let uname (uid : List UInt8) : List UInt8 :=
    if unameByUid uid=[] then [40]++uid++[41] else unameByUid uid
  pdir ⟨0,0,⟨de.qid,de.mcount,bit ModeAppend QTAPPEND ||| bit ModeExclusive QTEXCL ||| bit ModeDir QTDIR |||
      bit ModeSnapshot QTMOUNT ||| bit ModeTemporary QTTMP⟩,
    (de.mode &&& 0o777) ||| bit ModeAppend DMAPPEND ||| bit ModeExclusive DMEXCL ||| bit ModeDir DMDIR |||
      bit ModeSnapshot DMMOUNT ||| bit ModeTemporary DMTMP,
    de.atime,de.mtime,de.size,de.elem,uname de.uid,uname de.gid,uname de.mid⟩

theorem dirDe2M_length {u : List UInt8 → List UInt8} {de : UnpackedDirEntry} {r : List UInt8}
    (h : dirDe2M u de=some r) : 49 ≤ r.length := by
  unfold dirDe2M at h
  rw [pdir_length h]
  omega

theorem dirDe2M_length_field {u : List UInt8 → List UInt8} {de : UnpackedDirEntry} {r : List UInt8}
    (h : dirDe2M u de=some r) : (r.drop 33).take 8=pbit64 de.size :=
  pdir_length_field h

/-- The directory being read: its meta source's blocks, their size and count
(`(getSize() + dsize - 1)/dsize`), and its data source's blocks and their size, which holds at
least one entry. -/
structure DirSource where
  mblock : Nat → Except String Buf
  mdsize : Nat
  nb : Nat
  dblock : Nat → Except String Buf
  dsize : Nat
  entries_per_block : EntrySize ≤ dsize

/-- `dirEntrySize`: the size recorded in the data source's entry `elem`, zero for a hanging
entry (inactive, or of another generation). -/
def dirEntrySize (s : DirSource) (elem gen : UInt32) : Except String UInt64 :=
  let epb := s.dsize/EntrySize
  let bn := elem.toNat/epb
  match s.dblock bn with
  | .error err => .error err
  | .ok b =>
    let e := unpackEntry b (elem.toNat-bn*epb)
    if e.flags &&& EntryActive=0 ∨ e.gen≠gen then .ok 0 else .ok e.size

/-- A `DirEntryEnum`: the next meta block, the entries of the last one filled, and how many
of them were handed out. `dee.n` is the buffer's length. -/
structure DirEntryEnum where
  boff : Nat
  buf : List UnpackedDirEntry
  i : Nat
  deriving DecidableEq

/-- The loop of `fill` over the slots `is`: each entry goes into the buffer as `unpackDirEntry`
returns it, and only then does `dirEntrySize` run, for a file, on the unpacked copy; its value is
lost and only its error is kept. `none` is a failed assertion of `unpackMetaEntry`. -/
def fillLoop (s : DirSource) (mb : MetaBlock) : List Nat → List UnpackedDirEntry →
    Option (Option String × List UnpackedDirEntry)
  | [],buf => some (none,buf)
  | i :: is,buf =>
    match unpackMetaEntry mb i with
    | none => none
    | some me =>
      match unpackDirEntry mb me with
      | none => some (some EBadMeta,buf)
      | some de =>
        if de.mode &&& ModeDir=0 then
          match dirEntrySize s de.entry de.gen with
          | .error err => some (some err,buf++[de])
          | .ok _ => fillLoop s mb is (buf++[de])
        else fillLoop s mb is (buf++[de])

theorem fillLoop_size {s : DirSource} {mb : MetaBlock} {is : List Nat} {buf buf' : List UnpackedDirEntry}
    {err : Option String} (h : fillLoop s mb is buf=some (err,buf')) (hb : ∀ e ∈ buf, e.size=0) :
    ∀ e ∈ buf', e.size=0 := by
  induction is generalizing buf with
  | nil =>
    cases h
    exact hb
  | cons i is ih =>
    simp only [fillLoop] at h
    split at h
    · cases h
    · split at h
      · cases h
        exact hb
      · rename_i de hde
        have hb' : ∀ e ∈ buf++[de], e.size=0 := by
          simp only [List.mem_append,List.mem_singleton]
          rintro e (he | rfl)
          · exact hb e he
          · exact unpackDirEntry_size hde
        split_ifs at h
        · split at h
          · cases h
            exact hb'
          · exact ih h hb'
        · exact ih h hb'

/-- `(*DirEntryEnum).fill`: the entries of meta block `boff`; on success the enum moves to the
next block. On an error the entries read so far stay in the buffer. -/
def fill (s : DirSource) (dee : DirEntryEnum) : Option (Option String × DirEntryEnum) :=
  match s.mblock dee.boff with
  | .error err => some (some err,⟨dee.boff,[],0⟩)
  | .ok b =>
    match unpackMetaBlock b s.mdsize with
    | none => some (some EBadMeta,⟨dee.boff,[],0⟩)
    | some mb =>
      (fillLoop s mb (List.range mb.nindex) []).map fun (err,buf) =>
        (err,⟨if err.isNone then dee.boff+1 else dee.boff,buf,0⟩)

theorem fill_boff {s : DirSource} {dee dee' : DirEntryEnum} (h : fill s dee=some (none,dee')) :
    dee'.boff=dee.boff+1 := by
  unfold fill at h
  split at h
  · cases h
  · split at h
    · cases h
    · obtain ⟨⟨err,buf⟩,_,h⟩ := Option.map_eq_some_iff.mp h
      cases h
      rfl

theorem fill_size {s : DirSource} {dee dee' : DirEntryEnum} {err : Option String} (h : fill s dee=some (err,dee')) :
    ∀ e ∈ dee'.buf, e.size=0 := by
  unfold fill at h
  split at h
  · cases h
    simp
  · split at h
    · cases h
      simp
    · obtain ⟨⟨err,buf⟩,hl,h⟩ := Option.map_eq_some_iff.mp h
      cases h
      exact fillLoop_size hl (by simp)

/-- `(*DirEntryEnum).read`: the next buffered entry, filling blocks until one has entries;
`.ok none` is the end of the directory. -/
def read (s : DirSource) (dee : DirEntryEnum) : Option (Except String (Option UnpackedDirEntry) × DirEntryEnum) :=
  if h : dee.i < dee.buf.length then some (.ok (some dee.buf[dee.i]),{ dee with i := dee.i+1 })
  else if s.nb ≤ dee.boff then some (.ok none,dee)
  else
    match hf : fill s dee with
    | none => none
    | some (some err,dee') => some (.error err,dee')
    | some (none,dee') => read s dee'
termination_by s.nb-dee.boff
decreasing_by
  have := fill_boff hf
  omega

theorem read_buffered (s : DirSource) (dee : DirEntryEnum) (h : dee.i < dee.buf.length) :
    read s dee=some (.ok (some dee.buf[dee.i]),{ dee with i := dee.i+1 }) := by
  rw [read,dif_pos h]

theorem read_end (s : DirSource) (dee : DirEntryEnum) (h : dee.buf.length ≤ dee.i) (hb : s.nb ≤ dee.boff) :
    read s dee=some (.ok none,dee) := by
  rw [read,dif_neg (by omega),if_pos hb]

theorem read_fill {s : DirSource} {dee dee' : DirEntryEnum} (h : dee.buf.length ≤ dee.i) (hb : dee.boff < s.nb)
    (hf : fill s dee=some (none,dee')) : read s dee=read s dee' := by
  rw [read,dif_neg (by omega),if_neg (by omega)]
  split <;> simp_all

/-- A fid's directory buffer (`DirBuf`): the enum and one entry of look-ahead. -/
structure DirBuf where
  dee : DirEntryEnum
  valid : Bool
  de : UnpackedDirEntry

/-- The entry of a fresh `DirBuf`, all zero. -/
def zeroDirEntry : UnpackedDirEntry :=
  ⟨⟨[],0,0,0,0,0,[],[],[],0,0,0,0,0,0,0,0⟩,0,false,0,0⟩

/-- `dirBufAlloc`: a fresh enum over the directory. -/
def dirBufAlloc : DirBuf :=
  ⟨⟨0,[],0⟩,false,zeroDirEntry⟩

/-- The loop of `dirRead`. `nb` counts the entries read so far and `n` is what the last `read`
returned; each round appends the whole record of the look-ahead entry. -/
def dirReadLoop (s : DirSource) (unameByUid : List UInt8 → List UInt8) (count nb n : Nat) (db : DirBuf)
    (data : List UInt8) : Option (Except String (List UInt8) × DirBuf) :=
  if nb < count then
    -- `read` only when no entry is waiting; it returns 1 for an entry
    let next : Option (Except String Bool × DirBuf) :=
      if db.valid then some (.ok true,db)
      else (read s db.dee).map fun (r,dee) =>
        match r with
        | .error err => (.error err,{ db with dee := dee })
        | .ok none => (.ok false,{ db with dee := dee })
        | .ok (some de) => (.ok true,⟨dee,true,de⟩)
    let n' := if db.valid then n else 1
    match next with
    | none => none
    | some (.error err,db') => some (.error err,db')
    | some (.ok false,db') => some (.ok data,db')
    | some (.ok true,db') =>
      match dirDe2M unameByUid db'.de with
      | none => none
      | some buf =>
        if buf.length ≤ 2 then some (.ok (data++buf),db')
        else dirReadLoop s unameByUid count (nb+n') n' { db' with valid := false } (data++buf)
  else some (.ok data,db)
termination_by 2*(count-nb)+(if db.valid then 1 else 0)
decreasing_by
  simp only [if_false]
  split <;> omega

/-- `dirRead` on the fid's buffer `db` (`fid.db`, `none` when not yet allocated): offset 0
rewinds, any other offset is ignored. The buffer is kept, also after an error. -/
def dirRead (s : DirSource) (unameByUid : List UInt8 → List UInt8) (db : Option DirBuf) (count : Nat) (offset : Int) :
    Option (Except String (List UInt8) × Option DirBuf) :=
  let db := if offset=0 then none else db
  (dirReadLoop s unameByUid count 0 0 (db.getD dirBufAlloc) []).map fun (r,db) => (r,some db)

/-! ## A read returns a record per byte asked for -/

theorem mem_of_mapM {α β : Type} {f : α → Option β} {l : List α} {bs : List β} (h : l.mapM f=some bs) {b : β}
    (hb : b ∈ bs) : ∃ a ∈ l, f a=some b := by
  induction l generalizing bs with
  | nil =>
    cases h
    cases hb
  | cons a l ih =>
    simp only [List.mapM_cons,Option.bind_eq_bind,Option.bind_eq_some_iff,Option.pure_def,Option.some.injEq] at h
    obtain ⟨b',hb',bs',hbs',rfl⟩ := h
    rcases List.mem_cons.mp hb with rfl | hb
    · exact ⟨a,by simp,hb'⟩
    · obtain ⟨a',ha',h'⟩ := ih hbs' hb
      exact ⟨a',by simp [ha'],h'⟩

section Loop

variable (s : DirSource) (u : List UInt8 → List UInt8) {count nb n : Nat} {db : DirBuf} {data : List UInt8}

theorem dirReadLoop_done (h : count ≤ nb) : dirReadLoop s u count nb n db data=some (.ok data,db) := by
  rw [dirReadLoop,if_neg (by omega)]

/-- A round without look-ahead: `read`, then append the entry's record. -/
theorem dirReadLoop_read (h : nb < count) (hv : db.valid=false) :
    dirReadLoop s u count nb n db data=
      match read s db.dee with
      | none => none
      | some (.error err,dee) => some (.error err,{ db with dee := dee })
      | some (.ok none,dee) => some (.ok data,{ db with dee := dee })
      | some (.ok (some de),dee) =>
        match dirDe2M u de with
        | none => none
        | some buf =>
          if buf.length ≤ 2 then some (.ok (data++buf),⟨dee,true,de⟩)
          else dirReadLoop s u count (nb+1) 1 ⟨dee,false,de⟩ (data++buf) := by
  rw [dirReadLoop,if_pos h]
  rcases read s db.dee with _ | ⟨_ | _ | _,dee⟩ <;> simp [hv]

/-- With every block filled and no look-ahead, the loop appends the records of the next
`count - nb` buffered entries, one per round, whatever their length. -/
theorem dirReadLoop_buffered {rs : List (List UInt8)} (hr : ∀ r ∈ rs, 2 < r.length) :
    ∀ {db : DirBuf} {nb n : Nat} {data : List UInt8}, db.valid=false → s.nb ≤ db.dee.boff →
      (db.dee.buf.drop db.dee.i).mapM (dirDe2M u)=some rs → nb ≤ count →
      ∃ db', dirReadLoop s u count nb n db data=some (.ok (data++(rs.take (count-nb)).flatten),db') := by
  -- induction on the records still to hand out
  induction rs with
  | nil =>
    intro db nb n data hv hb hm hnb
    have hi : db.dee.buf.length ≤ db.dee.i := by
      cases hd : db.dee.buf.drop db.dee.i with
      | nil => simpa using hd
      | cons e l => simp [hd,List.mapM_cons,Option.bind_eq_some_iff] at hm
    rcases Nat.lt_or_ge nb count with hc | hc
    · rw [dirReadLoop_read s u hc hv,read_end s db.dee hi hb]
      exact ⟨{ db with dee := db.dee },by simp⟩
    · rw [dirReadLoop_done s u hc]
      exact ⟨db,by simp⟩
  | cons r rs ih =>
    intro db nb n data hv hb hm hnb
    have hi : db.dee.i < db.dee.buf.length := by
      by_contra hi
      rw [List.drop_of_length_le (by omega)] at hm
      cases hm
    rw [List.drop_eq_getElem_cons hi] at hm
    simp only [List.mapM_cons,Option.bind_eq_bind,Option.bind_eq_some_iff,Option.pure_def,Option.some.injEq,
      List.cons.injEq] at hm
    obtain ⟨r',hr',rs',hrs',rfl,rfl⟩ := hm
    have hlen : 2 < r'.length := hr r' (by simp)
    rcases Nat.lt_or_ge nb count with hc | hc
    · rw [dirReadLoop_read s u hc hv,read_buffered s db.dee hi]
      simp only [hr',if_neg (show ¬r'.length ≤ 2 by omega)]
      obtain ⟨db',h'⟩ := @ih (fun r hr1 => hr r (by simp [hr1])) ⟨{ db.dee with i := db.dee.i+1 },false,db.dee.buf[db.dee.i]⟩
        (nb+1) 1 (data++r') rfl hb hrs' (by omega)
      refine ⟨db',?_⟩
      rw [h',show count-nb=count-(nb+1)+1 by omega,List.take_succ_cons,List.flatten_cons,List.append_assoc]
    · rw [dirReadLoop_done s u hc]
      exact ⟨db,by simp [show count-nb=0 by omega]⟩

/-- The first round of a fresh buffer fills block 0; when that succeeds, the loop goes on as if
the buffer had been filled already. -/
theorem dirReadLoop_fresh {es : List UnpackedDirEntry} (hc : 0 < count) (hnb : 0 < s.nb)
    (hfill : fill s ⟨0,[],0⟩=some (none,⟨1,es,0⟩)) :
    dirReadLoop s u count 0 0 dirBufAlloc []=dirReadLoop s u count 0 0 ⟨⟨1,es,0⟩,false,zeroDirEntry⟩ [] := by
  rw [dirReadLoop_read s u hc rfl,dirReadLoop_read s u hc rfl]
  dsimp only [dirBufAlloc]
  rw [read_fill (le_refl 0) hnb hfill]

end Loop

theorem dirRead_overruns_count (s : DirSource) (unameByUid : List UInt8 → List UInt8) (db : Option DirBuf)
    {es : List UnpackedDirEntry} {rs : List (List UInt8)} (hnb : s.nb=1) (hfill : fill s ⟨0,[],0⟩=some (none,⟨1,es,0⟩))
    (hrs : es.mapM (dirDe2M unameByUid)=some rs) {c : Nat} (hmax : ∀ r ∈ rs, r.length ≤ c)
    (hc : c < (rs.take 2).flatten.length) :
    ∃ db', dirRead s unameByUid db c 0=some (.ok (rs.take c).flatten,some db') ∧ c < (rs.take c).flatten.length ∧
      ∀ r ∈ rs, (r.drop 33).take 8=pbit64 0 := by
  have hlen : ∀ r ∈ rs, 49 ≤ r.length := fun r hr => by
    obtain ⟨e,-,he⟩ := mem_of_mapM hrs hr
    exact dirDe2M_length he
  -- a count below two records leaves at least one record, and records are longer than two bytes
  have hc2 : 2 ≤ c := by
    cases rs with
    | nil => simp at hc
    | cons r rs => have := hlen r (by simp); have := hmax r (by simp); omega
  obtain ⟨db',h⟩ := @dirReadLoop_buffered s unameByUid c rs (fun r hr => by have := hlen r hr; omega)
    ⟨⟨1,es,0⟩,false,zeroDirEntry⟩ 0 0 [] rfl (by simp [hnb]) (by simpa using hrs) (Nat.zero_le c)
  refine ⟨db',?_,?_,?_⟩
  · simp only [dirRead,↓reduceIte,Option.getD_none]
    rw [dirReadLoop_fresh s unameByUid (by omega) (by omega) hfill,h]
    simp
  · have htake : (rs.take c).take 2=rs.take 2 := by
      rw [List.take_take,Nat.min_eq_left hc2]
    calc c < (rs.take 2).flatten.length := hc
      _ ≤ ((rs.take c).take 2).flatten.length+((rs.take c).drop 2).flatten.length := by rw [htake]; omega
      _ = (rs.take c).flatten.length := by rw [← List.length_append,← List.flatten_append,List.take_append_drop]
  · intro r hr
    obtain ⟨e,he,hre⟩ := mem_of_mapM hrs hr
    rw [dirDe2M_length_field hre,fill_size hfill e he]

/-! ### A directory of two files

The meta block `fullBlock` (`archive` and `snapshot`) as the directory's only meta block, and a
data source whose entries 1 and 2, the two files' data, are active, of generation 1, and hold
100 bytes each. User ids are their own names. -/

def listingEntry : Entry := ⟨1,0,0,0,EntryActive,100,Vector.replicate 20 0,0,0,false⟩

def listingData : Buf :=
  write (write (fun _ => 0) EntrySize listingEntry.bytes) (2*EntrySize) listingEntry.bytes

def listingSource : DirSource := ⟨fun _ => .ok fullBlockBuf,200,1,fun _ => .ok listingData,200,by decide⟩

/-- The two entries as `fill` buffers them. -/
def listing : List UnpackedDirEntry :=
  [⟨{ archiveDir with qidOffset := 0,qidMax := 0 },0,false,0,0⟩,⟨snapshotDir,0,false,0,0⟩]

def listingRecords : List (List UInt8) := (listing.mapM (dirDe2M id)).getD []

/-- Reading with a count of 74, the size of the larger record, returns both records, 143 bytes;
both say length 0 where `dirEntrySize` gives 100. -/
theorem dirRead_overruns_count_listing :
    dirEntrySize listingSource archiveDir.entry archiveDir.gen=.ok 100 ∧
      ∃ db', dirRead listingSource id none 74 0=some (.ok (listingRecords.take 74).flatten,some db') ∧
        74 < (listingRecords.take 74).flatten.length ∧ ∀ r ∈ listingRecords, (r.drop 33).take 8=pbit64 0 :=
  ⟨by decide,@dirRead_overruns_count listingSource id none listing listingRecords rfl (by decide +kernel)
    (by decide +kernel) 74 (by decide +kernel) (by decide +kernel)⟩

end Fossil.NineP
