import Fossil.Source.Tree
import Fossil.Venti.Zero

/-!
# The archiver's walk

`archWalk` (`archive.go`) sends a snapshot's tree of local blocks to Venti, children first. In
each block it replaces the local score of every child it archived by the child's Venti score
(clearing `EntryLocal` in an entry), and it empties the entries of snapshots that are not to be
archived and of trees marked `EntryNoArchive`. It makes these changes in the block itself while
it can; once an entry has to be emptied, or a child comes back faked (a copy of it was
archived, not the block), it goes on in a private copy, and the block keeps its local scores.
A block archived in place is labelled `BsVenti`, and a later walk takes its score from its bytes
without sending it again.

The state is the disk as the cache serves it, whether a Venti session is open, the blocks
written to Venti in order, and the links the walk hands to `removeLink`. The SHA-1 that names
a Venti block is a parameter, and so is the outside world (`Env`): what the Venti server
answers to a write and to a sync, and whether the disk loads the label block `setLabel` needs.
A panic or a walk that runs out of fuel (a cycle of local pointers) is `none`; the counters of
`Param` are statistics and left out.
-/

namespace Fossil.Archive

open Fossil.Block Fossil.Source Fossil.Tree Bytes
open Fossil.Venti (Score ScoreSize EntrySize zeroScore globalToLocal localToGlobal zeroTruncate)

/-- The tag of a file system's root block. -/
def RootTag : UInt32 := 1

/-- Venti's `DirType`. -/
def DirType : Venti.BlockType := 2

/-- Venti's `DataType`. -/
def DataType : Venti.BlockType := 13

/-- The table `vtType`: `PointerType0` to `PointerType6` are 3 to 9. -/
def vtTable : List Venti.BlockType :=
  [DataType,3,4,5,6,7,8,9,DirType,3,4,5,6,7,8,9]

/-- `vtType[t]`; `none` from `BtMax` on, where the array index panics. -/
def vtType (t : Block.BlockType) : Option Venti.BlockType :=
  vtTable[t.toNat]?

/-- `etype`: the type of the root of an entry's tree. -/
def etype (e : Entry) : Block.BlockType :=
  (if e.flags &&& EntryDir≠0 then BtDir else BtData)+e.depth

/-- `copyBlock`: a new block of `blockSize` bytes with the first `blockSize` bytes of `d`. -/
def copyBlock (d : Buf) (blockSize : Nat) : Buf :=
  fun i => if i < blockSize then d i else 0

/-- `shaBlock`: the Venti score of the block `ventiSend` writes for these bytes. -/
def shaBlock (sha1 : List UInt8 → Score) (l : Label) (d : Buf) (blockSize : Nat) : Option Score :=
  (vtType l.typ).map fun t => sha1 (zeroTruncate t (region d 0 blockSize))

/-- The local block at `addr` as the cache hands it out. -/
def blockAt (fs : Fs) (addr : UInt32) : Blk :=
  ⟨addr,localToGlobal addr,fs.label addr.toNat,fs.data addr.toNat⟩

/-- `cache.localData` with no epoch: the block at `addr`, which must carry the type and tag asked
for. -/
def localData (fs : Fs) (addr : UInt32) (typ : Block.BlockType) (tag : UInt32) : Except String Blk :=
  let l := fs.label addr.toNat
  if l.typ≠typ ∨ l.tag≠tag then .error ELabelMismatch
  else .ok (blockAt fs addr)

/-- The parameters of the recursion (`Param`) that the walk reads or hands back. -/
structure Param where
  blockSize : Nat
  dsize : Nat
  psize : Nat
  /-- Label of the block archived last. -/
  l : Label
  /-- Score of the block archived last. -/
  score : Score

/-- The parameters `Arch.thread` starts the walk with: the root block holds three entries, and
the rest is Go's zero value. -/
def archParam (blockSize : Nat) : Param :=
  ⟨blockSize,3*EntrySize,0,⟨0,0,0,0,0⟩,Vector.replicate 20 0⟩

/-- What the walk changes: the disk, the blocks written through the Venti session (with their
Venti types, oldest first), and the links handed to `removeLink` without recursion (holder,
address, type, tag). -/
structure St where
  fs : Fs
  /-- A Venti session is open (`a.z != nil`). -/
  z : Bool
  sent : List (Venti.BlockType × List UInt8)
  unlinked : List (Nat × UInt32 × Block.BlockType × UInt32)

/-- What the walk's outside world answers, given the blocks written to Venti before: the Venti
server's reply to a write (the score it returns, or the rpc's error) and to a sync (the rpc's
error, if any), and the disk's error loading the label block of an address for `setLabel`. -/
structure Env where
  write : List (Venti.BlockType × List UInt8) → Venti.BlockType → List UInt8 → Except String Score
  sync : List (Venti.BlockType × List UInt8) → Option String
  labelErr : UInt32 → Option String

/-- A Venti server that stores every block and answers with its score, syncs, and a disk that
loads every label block. -/
structure Env.Honest (sha1 : List UInt8 → Score) (env : Env) : Prop where
  write : ∀ sent t data, env.write sent t data=.ok (sha1 data)
  sync : ∀ sent, env.sync sent=none
  label : ∀ addr, env.labelErr addr=none

/-- `%#x` of an address. -/
def hexAddr (a : UInt32) : String :=
  "0x"++String.ofList (Nat.toDigits 16 a.toNat)

/-- `vtWriteBlock` through `(*Session).Write`: a block larger than `MaxBlockSize` is refused
before the rpc, and the score the server returns must be the block's. A block the server took is
written whether or not the check then fails. -/
def vtWriteBlock (sha1 : List UInt8 → Score) (env : Env) (st : St) (t : Venti.BlockType) (data : List UInt8) :
    Option String × St :=
  if Venti.MaxBlockSize < data.length then
    (some ("data exceeds maximum block size: "++toString data.length++" > "++toString Venti.MaxBlockSize),st)
  else
    match env.write st.sent t data with
    | .error err => (some ("rpc: "++err),st)
    | .ok score =>
      let st := { st with sent := st.sent++[(t,data)] }
      if score≠sha1 data then (some "score check failed",st) else (none,st)

/-- `ventiSend`: write the zero-truncated block to Venti and sync. `none` is the panic of
`vtType[b.l.typ]` past the table; otherwise the error, if any, and what was written. -/
def ventiSend (sha1 : List UInt8 → Score) (env : Env) (st : St) (b : Blk) (d : Buf) (blockSize : Nat) :
    Option (Option String × St) :=
  if !st.z then some (some "no venti session",st)
  else (vtType b.l.typ).map fun t =>
    match vtWriteBlock sha1 env st t (zeroTruncate t (region d 0 blockSize)) with
    | (some err,st) => (some ("venti write block "++hexAddr b.addr++": "++err++"\n"),st)
    | (none,st) =>
      match env.sync st.sent with
      | some err => (some ("venti sync: rpc: "++err),st)
      | none => (none,st)

/-- `ArchFailure`, `ArchSuccess` and `ArchFaked`. -/
inductive ArchResult where
  | failure
  | success
  | faked
  deriving DecidableEq, Repr

/-- What `archWalk` returns, with the parameters and the state it leaves. -/
abbrev Walked := ArchResult × Option String × Param × St

/-- How a round of the loop ends: on to the next slot with the parameters, the state and where
`*data` points (`none`: at the block's own bytes; `some tmp`: at the private copy), or a child's
`ArchFailure` with its error. -/
abbrev Round := Except (Option String × Param × St) (Param × St × Option Buf)

/-- `*data`: the block's bytes, or the copy. -/
def curData (st : St) (b : Blk) : Option Buf → Buf
  | none => st.fs.data b.addr.toNat
  | some tmp => tmp

/-- `if data == &b.data { tmp := copyBlock(b, blockSize); data = &tmp }`. -/
def fakeData (st : St) (b : Blk) (blockSize : Nat) : Option Buf → Option Buf
  | none => some (copyBlock (st.fs.data b.addr.toNat) blockSize)
  | some tmp => some tmp

/-- Store `d` where `*data` points. -/
def storeData (st : St) (b : Blk) (d : Buf) : Option Buf → St × Option Buf
  | none => ({ st with fs := { st.fs with data := Function.update st.fs.data b.addr.toNat d } },none)
  | some _ => (st,some d)

/-- An entry whose tree is not archived: no score, depth, size or tag, and not local. -/
def emptyEntry (e : Entry) : Entry :=
  { e with score := zeroScore, depth := 0, size := 0, tag := 0, flags := e.flags &&& ~~~EntryLocal }

/-- An entry whose tree was archived under score `s`. -/
def archivedEntry (e : Entry) (s : Score) : Entry :=
  { e with score := s, flags := e.flags &&& ~~~EntryLocal }

/-- Record the score `s` of the child in slot `n` of `d`: in its entry, or as the pointer. -/
def recordScore (e : Option Entry) (d : Buf) (n : Nat) (s : Score) : Option Buf :=
  match e with
  | some e => (archivedEntry e s).pack d n
  | none => some (write d (n*ScoreSize) s.toList)

/-- The parameters for the child: an entry's tree has its own block sizes. -/
def childParam (e : Option Entry) (p : Param) : Param :=
  match e with
  | some e => { p with dsize := e.dsize.toNat, psize := e.psize.toNat }
  | none => p

/-- The parameters after the child: the block sizes saved before the call come back. -/
def restoreParam (e : Option Entry) (p p2 : Param) : Param :=
  match e with
  | some _ => { p2 with dsize := p.dsize, psize := p.psize }
  | none => p2

/-- `removeLink(addr, p.l.typ, p.l.tag, false)` after the block's own bytes changed, unless the
block was copied or the entry enters a snapshot. -/
def unlinkChild (st : St) (b : Blk) (e : Option Entry) (addr : UInt32) (l : Label) (data : Option Buf) : St :=
  if data.isNone ∧ b.l.state &&& BsCopied=0 ∧ (e.all fun e => e.snap=0) then
    { st with unlinked := (b.addr.toNat,addr,l.typ,l.tag) :: st.unlinked }
  else st

/-- A round of the loop from the recursive call on: archive the child at `score` (type `typ`, tag
`tag`, in slot `n`, from entry `e` if the block holds entries) and record its score. -/
def archChild (walk : Param → St → UInt32 → Block.BlockType → UInt32 → Option Walked) (b : Blk)
    (n : Nat) (e : Option Entry) (score : Score) (typ : Block.BlockType) (tag : UInt32) (p : Param)
    (st : St) (data : Option Buf) : Option Round :=
  let addr := globalToLocal score
  if addr=NilBlock then some (.ok (p,st,data))
  else
    match walk (childParam e p) st addr typ tag with
    | none => none
    | some (x,err,p2,st) =>
      let p2 := restoreParam e p p2
      match x with
      | .failure => some (.error (err,p2,st))
      | x =>
        -- a faked child fakes the block too, unless it is an archive directory's entry
        let data := if x=.faked ∧ (e.all fun e => !e.archive) then fakeData st b p2.blockSize data else data
        (recordScore e (curData st b data) n p2.score).map fun d =>
          let sd := storeData st b d data
          .ok (p2,unlinkChild sd.1 b e addr p2.l sd.2,sd.2)

/-- A round of the loop for slot `n` (`nextWalk` and the body). -/
def archSlot (walk : Param → St → UInt32 → Block.BlockType → UInt32 → Option Walked) (b : Blk)
    (isEntry : Bool) (n : Nat) (p : Param) (st : St) (data : Option Buf) : Option Round :=
  let d := curData st b data
  if isEntry then
    let e := unpackEntry d n
    if e.flags &&& EntryActive=0 then some (.ok (p,st,data))
    else if (e.snap≠0 ∧ !e.archive) ∨ e.flags &&& EntryNoArchive≠0 then
      -- a snapshot is archived as an empty entry, in the copy
      ((emptyEntry e).pack (curData st b (fakeData st b p.blockSize data)) n).map fun tmp => .ok (p,st,some tmp)
    else archChild walk b n (some e) e.score (etype e) e.tag p st data
  else archChild walk b n none (scoreAt d (n*ScoreSize)) (b.l.typ-1) b.l.tag p st data

/-- What slot `n` of a block labelled `l` holds for the walk, in a tree of `dsize`-byte data and
`psize`-byte pointer blocks: nothing to do (an inactive entry, or a score that is not local), a
snapshot to empty, or a local child with its address, type, tag and block sizes. -/
inductive Slot where
  | keep
  | empty
  | child (addr : UInt32) (typ : Block.BlockType) (tag : UInt32) (dsize psize : Nat)
  deriving DecidableEq

/-- The slot `n` of `d`, read as `nextWalk` and the loop's tests read it. -/
def slotOf (l : Label) (dsize psize : Nat) (d : Buf) (n : Nat) : Slot :=
  if l.typ=BtDir then
    let e := unpackEntry d n
    if e.flags &&& EntryActive=0 then .keep
    else if (e.snap≠0 ∧ !e.archive) ∨ e.flags &&& EntryNoArchive≠0 then .empty
    else if globalToLocal e.score=NilBlock then .keep
    else .child (globalToLocal e.score) (etype e) e.tag e.dsize.toNat e.psize.toNat
  else
    let a := globalToLocal (scoreAt d (n*ScoreSize))
    if a=NilBlock then .keep else .child a (l.typ-1) l.tag dsize psize

/-- The entry in slot `n`, if the block holds entries. -/
def entryOf (l : Label) (d : Buf) (n : Nat) : Option Entry :=
  if l.typ=BtDir then some (unpackEntry d n) else none

/-- The loop over `k` slots from slot `n`. -/
def archLoop (walk : Param → St → UInt32 → Block.BlockType → UInt32 → Option Walked) (b : Blk)
    (isEntry : Bool) : Nat → Nat → Param → St → Option Buf → Option Round
  | _, 0, p, st, data => some (.ok (p,st,data))
  | n, k+1, p, st, data =>
    match archSlot walk b isEntry n p st data with
    | some (.ok (p,st,data)) => archLoop walk b isEntry (n+1) k p st data
    | r => r

/-- `initWalk`: whether the block holds entries, and the number of slots the walk reads (none in
a data block). -/
def initWalk (typ : Block.BlockType) (size : Nat) : Bool × Nat :=
  if typ=BtData then (false,0)
  else if typ=BtDir then (true,size/EntrySize)
  else (false,size/ScoreSize)

/-- The slots of a block of type `typ` in a tree of `dsize`-byte data and `psize`-byte pointer
blocks. -/
def slotCount (typ : Block.BlockType) (dsize psize : Nat) : Nat :=
  (initWalk typ (if typ≠BtDir then psize else dsize)).2

/-- The end of `archWalk`: the block's score, `ArchSuccess` unless the walk faked, and the label
(`p.l`) the caller's `removeLink` reads. -/
def archDone (sha1 : List UInt8 → Score) (b : Blk) (l : Label) (p : Param) (st : St)
    (data : Option Buf) : Option Walked :=
  (shaBlock sha1 b.l (curData st b data) p.blockSize).map fun s =>
    (if data.isNone then .success else .faked,none,{ p with score := s, l := l },st)

/-- Label the block `BsVenti` (`b.setLabel`). -/
def setVenti (st : St) (b : Blk) : St × Label :=
  let l := { b.l with state := b.l.state ||| BsVenti }
  ({ st with fs := { st.fs with label := Function.update st.fs.label b.addr.toNat l } },l)

/-- After the loop: send the block to Venti, label it `BsVenti` if it was archived in place
(`setLabel` loads the label block, which may fail), and finish. -/
def archSend (sha1 : List UInt8 → Score) (env : Env) (b : Blk) (p : Param) (st : St) (data : Option Buf) :
    Option Walked :=
  match ventiSend sha1 env st b (curData st b data) p.blockSize with
  | none => none
  | some (some err,st) => some (.failure,some err,p,st)
  | some (none,st) =>
    if data.isNone then
      match env.labelErr b.addr with
      | some err => some (.failure,some err,p,st)
      | none =>
        let sl := setVenti st b
        archDone sha1 b sl.2 p sl.1 data
    else archDone sha1 b b.l p st data

/-- `archWalk(p, addr, typ, tag)`, with `fuel` bounding the depth of the recursion. -/
def archWalk (sha1 : List UInt8 → Score) (env : Env) :
    Nat → Param → St → UInt32 → Block.BlockType → UInt32 → Option Walked
  | 0, _, _, _, _, _ => none
  | fuel+1, p, st, addr, typ, tag =>
    match localData st.fs addr typ tag with
    | .error err =>
      -- plod on with the zero score, so that something is written to Venti
      if err=ELabelMismatch then some (.faked,some err,{ p with score := zeroScore },st)
      else some (.failure,some err,p,st)
    | .ok b =>
      if b.l.state &&& BsVenti≠0 then archDone sha1 b b.l p st none
      else
        let w := initWalk b.l.typ (if b.l.typ≠BtDir then p.psize else p.dsize)
        match archLoop (archWalk sha1 env fuel) b w.1 0 w.2 p st none with
        | none => none
        | some (.error (err,p,st)) => some (.failure,err,p,st)
        | some (.ok (p,st,data)) => archSend sha1 env b p st data

/-! ## Where the bytes go -/

section Buffers

variable (st : St) (b : Blk) (d : Buf) (data : Option Buf)

/-- The copy holds the block's bytes below the block size. -/
theorem curData_fakeData {bs : Nat} : ∀ i < bs, curData st b (fakeData st b bs data) i=curData st b data i := by
  intro i hi
  cases data with
  | none => simp [fakeData,curData,copyBlock,hi]
  | some tmp => rfl

@[simp] theorem curData_storeData : curData (storeData st b d data).1 b (storeData st b d data).2=d := by
  cases data <;> simp [storeData,curData]

@[simp] theorem storeData_label : (storeData st b d data).1.fs.label=st.fs.label := by
  cases data <;> rfl

@[simp] theorem storeData_sent : (storeData st b d data).1.sent=st.sent := by
  cases data <;> rfl

theorem storeData_data_of_ne {x : Nat} (hx : x≠b.addr.toNat) : (storeData st b d data).1.fs.data x=st.fs.data x := by
  cases data <;> simp [storeData,Function.update_of_ne hx]

@[simp] theorem unlinkChild_fs (e : Option Entry) (a : UInt32) (l : Label) : (unlinkChild st b e a l data).fs=st.fs := by
  unfold unlinkChild
  split_ifs <;> rfl

@[simp] theorem unlinkChild_sent (e : Option Entry) (a : UInt32) (l : Label) : (unlinkChild st b e a l data).sent=st.sent := by
  unfold unlinkChild
  split_ifs <;> rfl

@[simp] theorem curData_unlinkChild (e : Option Entry) (a : UInt32) (l : Label) (data' : Option Buf) :
    curData (unlinkChild st b e a l data) b data'=curData st b data' := by
  cases data' <;> simp [curData]

@[simp] theorem storeData_z : (storeData st b d data).1.z=st.z := by
  cases data <;> rfl

@[simp] theorem unlinkChild_z (e : Option Entry) (a : UInt32) (l : Label) : (unlinkChild st b e a l data).z=st.z := by
  unfold unlinkChild
  split_ifs <;> rfl

/-- The bytes `*data` points at, in two states that hold the same bytes for the block. -/
theorem curData_congr {st' : St} (h : st'.fs.data b.addr.toNat=st.fs.data b.addr.toNat) :
    curData st' b data=curData st b data := by
  cases data
  · exact h
  · rfl

end Buffers

@[simp] theorem restoreParam_blockSize (e : Option Entry) (p p2 : Param) :
    (restoreParam e p p2).blockSize=p2.blockSize := by
  cases e <;> rfl

@[simp] theorem restoreParam_score (e : Option Entry) (p p2 : Param) : (restoreParam e p p2).score=p2.score := by
  cases e <;> rfl

/-- After the child, the block sizes are the block's again, if the child handed back those it
was given. -/
theorem restoreParam_sizes {e : Option Entry} {p p2 : Param} (hd : p2.dsize=(childParam e p).dsize)
    (hp : p2.psize=(childParam e p).psize) :
    (restoreParam e p p2).dsize=p.dsize ∧ (restoreParam e p p2).psize=p.psize := by
  cases e
  · exact ⟨hd,hp⟩
  · exact ⟨rfl,rfl⟩

/-- Clearing the local bit clears it. -/
theorem andNot_local_local (f : UInt8) : f &&& ~~~EntryLocal &&& EntryLocal=0 := by
  apply UInt8.eq_of_toBitVec_eq
  ext i hi
  simp [EntryLocal]
  interval_cases i <;> simp

/-- An emptied entry is not local, so `pack` writes its bytes. -/
theorem pack_emptyEntry (e : Entry) (d : Buf) (n : Nat) :
    (emptyEntry e).pack d n=some (write d (n*EntrySize) (emptyEntry e).bytes) :=
  pack_eq_write d n fun h => absurd (andNot_local_local e.flags) h

/-- Recording a child's score in its entry writes the archived entry's bytes. -/
theorem recordScore_entry (e : Entry) (d : Buf) (n : Nat) (s : Score) :
    recordScore (some e) d n s=some (write d (n*EntrySize) (archivedEntry e s).bytes) :=
  pack_eq_write d n fun h => absurd (andNot_local_local e.flags) h

/-- Recording a score never fails: an archived entry is not local. -/
theorem recordScore_isSome (e : Option Entry) (d : Buf) (n : Nat) (s : Score) : (recordScore e d n s).isSome := by
  cases e with
  | some e => simp [recordScore_entry]
  | none => rfl

/-- Every block type below `BtMax` has a Venti type. -/
theorem vtType_isSome {t : Block.BlockType} (h : t < BtMax) : (vtType t).isSome := by
  have h16 : t.toNat < 16 := UInt8.lt_iff_toNat_lt.mp h
  simpa [vtType,vtTable] using h16

/-! ## What a round does -/

theorem initWalk_fst (t : Block.BlockType) (size : Nat) : (initWalk t size).1=decide (t=BtDir) := by
  unfold initWalk
  by_cases hd : t=BtDir
  · have hdata : t≠BtData := by rw [hd]; decide
    rw [if_neg hdata,if_pos hd]
    simp [hd]
  · split_ifs <;> simp [hd]

theorem localData_eq {fs : Fs} {addr : UInt32} {typ : Block.BlockType} {tag : UInt32}
    (ht : (fs.label addr.toNat).typ=typ) (hg : (fs.label addr.toNat).tag=tag) :
    localData fs addr typ tag=.ok (blockAt fs addr) := by
  simp [localData,ht,hg]

section Rounds

variable {walk : Param → St → UInt32 → Block.BlockType → UInt32 → Option Walked} {b : Blk} {n : Nat}
  {p : Param} {st : St} {data : Option Buf}

/-- Nothing to do in a slot leaves everything as it is. -/
theorem archSlot_keep (h : slotOf b.l p.dsize p.psize (curData st b data) n=.keep) :
    archSlot walk b (decide (b.l.typ=BtDir)) n p st data=some (.ok (p,st,data)) := by
  unfold slotOf at h
  unfold archSlot
  by_cases hd : b.l.typ=BtDir
  · simp only [hd,if_true,decide_true] at h ⊢
    split_ifs at h with h1 h2 h3 <;> simp_all [archChild]
  · simp only [hd,if_false,decide_false] at h ⊢
    split_ifs at h with h1
    simp [archChild,h1]

/-- A snapshot's entry is emptied, in the copy. -/
theorem archSlot_empty (h : slotOf b.l p.dsize p.psize (curData st b data) n=.empty) :
    archSlot walk b (decide (b.l.typ=BtDir)) n p st data=
      ((emptyEntry (unpackEntry (curData st b data) n)).pack (curData st b (fakeData st b p.blockSize data)) n).map
        fun tmp => .ok (p,st,some tmp) := by
  unfold slotOf at h
  unfold archSlot
  by_cases hd : b.l.typ=BtDir
  · simp only [hd,if_true,decide_true] at h ⊢
    split_ifs at h with h1 h2 h3
    simp only [if_neg h1,if_pos h2]
  · simp only [hd,if_false] at h
    split_ifs at h

/-- A local child is walked, from the score in its slot. -/
theorem archSlot_child {a : UInt32} {t : Block.BlockType} {g : UInt32} {ds ps : Nat}
    (h : slotOf b.l p.dsize p.psize (curData st b data) n=.child a t g ds ps) :
    ∃ score, globalToLocal score=a ∧ a≠NilBlock ∧
      childParam (entryOf b.l (curData st b data) n) p={ p with dsize := ds, psize := ps } ∧
      archSlot walk b (decide (b.l.typ=BtDir)) n p st data=
        archChild walk b n (entryOf b.l (curData st b data) n) score t g p st data := by
  unfold slotOf at h
  unfold archSlot entryOf
  by_cases hd : b.l.typ=BtDir
  · simp only [hd,if_true,decide_true] at h ⊢
    split_ifs at h with h1 h2 h3
    simp only [Slot.child.injEq] at h
    obtain ⟨rfl,rfl,rfl,rfl,rfl⟩ := h
    exact ⟨(unpackEntry (curData st b data) n).score,rfl,h3,rfl,by simp only [if_neg h1,if_neg h2]⟩
  · simp only [hd,if_false,decide_false] at h ⊢
    split_ifs at h with h1
    simp only [Slot.child.injEq] at h
    obtain ⟨rfl,rfl,rfl,rfl,rfl⟩ := h
    exact ⟨scoreAt (curData st b data) (n*ScoreSize),rfl,h1,rfl,if_neg Bool.false_ne_true⟩

/-- A round that goes on after a local child: the child was walked with the entry's block sizes
and did not fail, its score is recorded in the block or the copy, and the parameters come back. -/
theorem archChild_ok {e : Option Entry} {score : Score} {typ : Block.BlockType} {tag : UInt32}
    {p' : Param} {st' : St} {data' : Option Buf} (ha : globalToLocal score≠NilBlock)
    (h : archChild walk b n e score typ tag p st data=some (.ok (p',st',data'))) :
    ∃ x err p2 st2 data1 d, walk (childParam e p) st (globalToLocal score) typ tag=some (x,err,p2,st2) ∧
      x≠.failure ∧ p'=restoreParam e p p2 ∧ (data1=data ∨ data1=fakeData st2 b p'.blockSize data) ∧
      recordScore e (curData st2 b data1) n p'.score=some d ∧
      st'=unlinkChild (storeData st2 b d data1).1 b e (globalToLocal score) p'.l (storeData st2 b d data1).2 ∧
      data'=(storeData st2 b d data1).2 := by
  unfold archChild at h
  rw [if_neg ha] at h
  rcases hw : walk (childParam e p) st (globalToLocal score) typ tag with _ | ⟨x,err,p2,st2⟩
  · simp [hw] at h
  · simp only [hw] at h
    cases x with
    | failure => simp at h
    | success =>
      obtain ⟨d,hd,hok⟩ := Option.map_eq_some_iff.mp h
      cases hok
      exact ⟨_,_,_,_,_,d,rfl,by decide,rfl,.inl rfl,by simpa using hd,rfl,rfl⟩
    | faked =>
      obtain ⟨d,hd,hok⟩ := Option.map_eq_some_iff.mp h
      cases hok
      refine ⟨_,_,_,_,_,d,rfl,by decide,rfl,?_,hd,rfl,rfl⟩
      split_ifs
      · exact .inr rfl
      · exact .inl rfl

/-- A child's walk that returns without failing lets the round go on, in the child's session. -/
theorem archChild_goes {e : Option Entry} {score : Score} {typ : Block.BlockType} {tag : UInt32} {x : ArchResult}
    {err : Option String} {p2 : Param} {st2 : St} (ha : globalToLocal score≠NilBlock)
    (hw : walk (childParam e p) st (globalToLocal score) typ tag=some (x,err,p2,st2)) (hx : x≠.failure) :
    ∃ p' st' data', archChild walk b n e score typ tag p st data=some (.ok (p',st',data')) ∧ st'.z=st2.z := by
  unfold archChild
  rw [if_neg ha]
  simp only [hw]
  cases x with
  | failure => exact absurd rfl hx
  | success | faked =>
    simp only [reduceCtorEq,false_and,reduceIte,true_and,restoreParam_score,restoreParam_blockSize,
      Option.map_eq_some_iff,Except.ok.injEq,Prod.mk.injEq,exists_and_right,existsAndEq,and_true,unlinkChild_z,
      storeData_z,exists_and_left]
    exact Option.isSome_iff_exists.mp (recordScore_isSome _ _ _ _)

end Rounds

/-! ## What a walk does -/

section Walk

variable {sha1 : List UInt8 → Score} {env : Env} {fuel : Nat} {p : Param} {st : St} {addr : UInt32}
  {typ : Block.BlockType} {tag : UInt32} {r : ArchResult} {err : Option String} {p' : Param} {st' : St}

/-- A block already on Venti is neither walked nor sent again: its score is `shaBlock` of its
bytes, and the state comes back as it was. -/
theorem archWalk_venti (ht : (st.fs.label addr.toNat).typ=typ) (hg : (st.fs.label addr.toNat).tag=tag)
    (hv : (st.fs.label addr.toNat).state &&& BsVenti≠0) :
    archWalk sha1 env (fuel+1) p st addr typ tag=(shaBlock sha1 (st.fs.label addr.toNat) (st.fs.data addr.toNat) p.blockSize).map
      fun s => (.success,none,{ p with score := s, l := st.fs.label addr.toNat },st) := by
  rw [archWalk,localData_eq ht hg]
  simp only [blockAt,ne_eq,hv,not_false_eq_true,if_true]
  rfl

/-- A walk of a block not yet on Venti that does not fail ran the loop over its slots to the end
and sent the block. -/
theorem archWalk_walked (ht : (st.fs.label addr.toNat).typ=typ) (hg : (st.fs.label addr.toNat).tag=tag)
    (hv : (st.fs.label addr.toNat).state &&& BsVenti=0) (h : archWalk sha1 env (fuel+1) p st addr typ tag=some (r,err,p',st'))
    (hr : r≠.failure) :
    ∃ pL stL dataL, archLoop (archWalk sha1 env fuel) (blockAt st.fs addr) (decide ((st.fs.label addr.toNat).typ=BtDir)) 0
        (slotCount (st.fs.label addr.toNat).typ p.dsize p.psize) p st none=some (.ok (pL,stL,dataL)) ∧
      archSend sha1 env (blockAt st.fs addr) pL stL dataL=some (r,err,p',st') := by
  rw [archWalk,localData_eq ht hg] at h
  simp only [blockAt,hv,ne_eq,not_true_eq_false,if_false] at h
  rw [← initWalk_fst _ (if (st.fs.label addr.toNat).typ≠BtDir then p.psize else p.dsize)]
  split at h
  · simp at h
  · cases h
    exact absurd rfl hr
  · exact ⟨_,_,_,‹_›,h⟩

/-- A send that reports no error wrote the zero-truncated block, and nothing else. -/
theorem ventiSend_ok {b : Blk} {d : Buf} {bs : Nat} {st1 : St} (h : ventiSend sha1 env st b d bs=some (none,st1)) :
    ∃ t, vtType b.l.typ=some t ∧ st1={ st with sent := st.sent++[(t,zeroTruncate t (region d 0 bs))] } := by
  unfold ventiSend at h
  split_ifs at h
  · simp at h
  rcases htv : vtType b.l.typ with _ | t
  · simp [htv] at h
  refine ⟨t,rfl,?_⟩
  simp only [htv,Option.map_some,Option.some.injEq] at h
  unfold vtWriteBlock at h
  split_ifs at h
  · simp at h
  split at h
  · simp at h
  rename_i hw
  split at h
  · simp at h
  obtain rfl := (Prod.mk.inj h).2
  split at hw
  · simp at hw
  split_ifs at hw
  · simp at hw
  exact (Prod.mk.inj hw).2.symm

/-- An honest server takes every block the walk sends: with a session open, a block of a Venti
type no larger than `MaxBlockSize` is written and synced. -/
theorem ventiSend_honest (henv : env.Honest sha1) (hz : st.z=true) {b : Blk} {t : Venti.BlockType}
    (ht : vtType b.l.typ=some t) {bs : Nat} (hbs : bs ≤ Venti.MaxBlockSize) (d : Buf) :
    ventiSend sha1 env st b d bs=some (none,{ st with sent := st.sent++[(t,zeroTruncate t (region d 0 bs))] }) := by
  have hlen : (zeroTruncate t (region d 0 bs)).length ≤ Venti.MaxBlockSize :=
    calc (zeroTruncate t (region d 0 bs)).length ≤ (region d 0 bs).length := Venti.zeroTruncate_length_le t _
      _ = bs := region_length d 0 bs
      _ ≤ Venti.MaxBlockSize := hbs
  unfold ventiSend vtWriteBlock
  simp [hz,ht,henv.write,henv.sync,Nat.not_lt.mpr hlen]

/-- A send that does not fail wrote the block and, for a block archived in place, loaded its label
block: what remains is `archDone` with the block labelled `BsVenti`, or as it was for a copy. -/
theorem archSend_sent {b : Blk} {data : Option Buf} (h : archSend sha1 env b p st data=some (r,err,p',st'))
    (hr : r≠.failure) :
    ∃ t, vtType b.l.typ=some t ∧
      let st1 : St := { st with sent := st.sent++[(t,zeroTruncate t (region (curData st b data) 0 p.blockSize))] }
      archDone sha1 b (if data.isNone then (setVenti st1 b).2 else b.l) p (if data.isNone then (setVenti st1 b).1 else st1)
        data=some (r,err,p',st') := by
  unfold archSend at h
  rcases hs : ventiSend sha1 env st b (curData st b data) p.blockSize with _ | ⟨_ | e,st1⟩
  · rw [hs] at h
    cases h
  · obtain ⟨t,htv,rfl⟩ := ventiSend_ok hs
    rw [hs] at h
    refine ⟨t,htv,?_⟩
    dsimp only at h ⊢
    split at h
    · rename_i hd
      rw [if_pos hd,if_pos hd]
      rcases hl : env.labelErr b.addr with _ | e
      · rw [hl] at h
        exact h
      · rw [hl] at h
        cases h
        exact absurd rfl hr
    · rename_i hd
      rw [if_neg hd,if_neg hd]
      exact h
  · rw [hs] at h
    cases h
    exact absurd rfl hr

/-- Sending a block records its zero-truncated bytes, scores them, and labels the block `BsVenti`
if it was archived in place; nothing else changes. -/
theorem archSend_ok {b : Blk} {data : Option Buf} (h : archSend sha1 env b p st data=some (r,err,p',st')) (hr : r≠.failure) :
    ∃ t, vtType b.l.typ=some t ∧
      p'={ p with score := sha1 (zeroTruncate t (region (curData st b data) 0 p.blockSize)), l := p'.l } ∧
      st'.sent=st.sent++[(t,zeroTruncate t (region (curData st b data) 0 p.blockSize))] ∧
      st'.fs.data=st.fs.data ∧ ∀ x≠b.addr.toNat, st'.fs.label x=st.fs.label x := by
  obtain ⟨t,htv,h⟩ := archSend_sent h hr
  refine ⟨t,htv,?_⟩
  unfold archDone shaBlock at h
  split at h
  · simp only [setVenti,curData,htv,Option.map_some,Option.some.injEq,Prod.mk.injEq] at h
    obtain ⟨-,-,rfl,rfl⟩ := h
    refine ⟨rfl,rfl,rfl,fun x hx => ?_⟩
    simp [Function.update_of_ne hx]
  · simp only [htv,Option.map_some,Option.some.injEq,Prod.mk.injEq] at h
    obtain ⟨-,-,rfl,rfl⟩ := h
    exact ⟨rfl,rfl,rfl,fun _ _ => rfl⟩

/-- A send that reports `ArchSuccess` archived the block in place: the block is labelled `BsVenti`,
the label is handed back in `p.l`, and the score is `shaBlock` of the block's own bytes. -/
theorem archSend_success {b : Blk} {data : Option Buf} (h : archSend sha1 env b p st data=some (.success,err,p',st')) :
    st'.fs.label b.addr.toNat={ b.l with state := b.l.state ||| BsVenti } ∧ p'.l=st'.fs.label b.addr.toNat ∧
      shaBlock sha1 b.l (st'.fs.data b.addr.toNat) p'.blockSize=some p'.score := by
  obtain ⟨t,htv,h⟩ := archSend_sent h (by decide)
  unfold archDone at h
  split at h
  · rename_i hdata
    have hnone : data=none := Option.isNone_iff_eq_none.mp hdata
    subst hnone
    simp only [setVenti,shaBlock,htv,Option.map_some,Option.some.injEq,Prod.mk.injEq] at h
    obtain ⟨-,-,rfl,rfl⟩ := h
    simp [shaBlock,htv,curData]
  · simp only [shaBlock,htv,Option.map_some,Option.some.injEq,Prod.mk.injEq] at h
    exact absurd h.1 (by simp)

/-- With a Venti session open and an honest server and disk, a block of a Venti type no larger
than `MaxBlockSize` is sent and scored. -/
theorem archSend_goes (henv : env.Honest sha1) {b : Blk} {data : Option Buf} (hz : st.z=true)
    (ht : (vtType b.l.typ).isSome) (hbs : p.blockSize ≤ Venti.MaxBlockSize) :
    ∃ r err p' st', archSend sha1 env b p st data=some (r,err,p',st') ∧ r≠.failure ∧ st'.z=true := by
  obtain ⟨t,htv⟩ := Option.isSome_iff_exists.mp ht
  unfold archSend
  rw [ventiSend_honest henv hz htv hbs]
  dsimp only
  unfold archDone shaBlock
  split
  · rw [henv.label]
    simp [setVenti,htv,hz]
  · simp [htv,hz]

/-- A walk of a block not yet on Venti whose loop goes to the end sends the block. -/
theorem archWalk_loop (ht : (st.fs.label addr.toNat).typ=typ) (hg : (st.fs.label addr.toNat).tag=tag)
    (hv : (st.fs.label addr.toNat).state &&& BsVenti=0) {pL : Param} {stL : St} {dataL : Option Buf}
    (hloop : archLoop (archWalk sha1 env fuel) (blockAt st.fs addr) (decide ((st.fs.label addr.toNat).typ=BtDir)) 0
      (slotCount (st.fs.label addr.toNat).typ p.dsize p.psize) p st none=some (.ok (pL,stL,dataL))) :
    archWalk sha1 env (fuel+1) p st addr typ tag=archSend sha1 env (blockAt st.fs addr) pL stL dataL := by
  rw [archWalk,localData_eq ht hg]
  simp only [blockAt,hv,ne_eq,not_true_eq_false,if_false]
  rw [← initWalk_fst _ (if (st.fs.label addr.toNat).typ≠BtDir then p.psize else p.dsize)] at hloop
  simp only [blockAt,slotCount,ne_eq] at hloop
  erw [hloop]

/-- A block without the type and tag asked for is faked with the zero score (`ELabelMismatch`),
and nothing changes. -/
theorem archWalk_mismatch (hl : ¬((st.fs.label addr.toNat).typ=typ ∧ (st.fs.label addr.toNat).tag=tag)) :
    archWalk sha1 env (fuel+1) p st addr typ tag=some (.faked,some ELabelMismatch,{ p with score := zeroScore },st) := by
  have hd : localData st.fs addr typ tag=.error ELabelMismatch := by
    unfold localData
    rw [if_pos (by tauto)]
  rw [archWalk,hd]
  simp

end Walk

/-- Setting the `BsVenti` bit sets it. -/
theorem or_venti_and_venti (s : BlockState) : (s ||| BsVenti) &&& BsVenti=BsVenti := by
  apply UInt8.eq_of_toBitVec_eq
  ext i hi
  simp [BsVenti]
  interval_cases i <;> simp

/-! ## Archiving twice -/

/-- Archiving a tree again after `ArchSuccess` sends nothing and hands back the same score: the
walk left its root on Venti, labelled `BsVenti`, holding the bytes it sent. -/
theorem archWalk_success_again {sha1 : List UInt8 → Score} {fuel fuel' : Nat} {p : Param} {st : St}
    {addr : UInt32} {typ : Block.BlockType} {tag : UInt32} {err : Option String} {p' : Param} {st' : St}
    (h : archWalk sha1 env fuel p st addr typ tag=some (.success,err,p',st')) :
    (st'.fs.label addr.toNat).state &&& BsVenti≠0 ∧
      archWalk sha1 env (fuel'+1) p' st' addr typ tag=some (.success,none,{ p' with l := st'.fs.label addr.toNat },st') := by
  cases fuel with
  | zero => simp [archWalk] at h
  | succ fuel =>
    by_cases hl : (st.fs.label addr.toNat).typ=typ ∧ (st.fs.label addr.toNat).tag=tag
    · by_cases hv : (st.fs.label addr.toNat).state &&& BsVenti≠0
      · rw [archWalk_venti hl.1 hl.2 hv] at h
        obtain ⟨s,hs,heq⟩ := Option.map_eq_some_iff.mp h
        cases heq
        refine ⟨hv,?_⟩
        rw [archWalk_venti hl.1 hl.2 hv,hs]
        rfl
      · obtain ⟨pL,stL,dataL,-,hsend⟩ := archWalk_walked hl.1 hl.2 (not_not.mp hv) h (by decide)
        obtain ⟨hlab,hpl,hsha⟩ := archSend_success hsend
        simp only [blockAt] at hlab hsha
        have hv' : (st'.fs.label addr.toNat).state &&& BsVenti≠0 := by
          rw [hlab,or_venti_and_venti]
          decide
        refine ⟨hv',?_⟩
        rw [archWalk_venti (by rw [hlab]; exact hl.1) (by rw [hlab]; exact hl.2) hv']
        have hsha' : shaBlock sha1 (st'.fs.label addr.toNat) (st'.fs.data addr.toNat) p'.blockSize=some p'.score := by
          rw [hlab]
          exact hsha
        rw [hsha']
        rfl
    · rw [archWalk_mismatch hl] at h
      cases h

/-- The entry of a file of one local data block, block 2, tagged 40. -/
def fileEntry : Entry :=
  ⟨1,120,120,0,EntryActive ||| EntryLocal,3,localToGlobal 2,40,0,false⟩

/-- The entry of the snapshot of epoch 5, rooted at block 3, which is not archived. -/
def snapEntry : Entry :=
  ⟨1,120,120,0,EntryActive ||| EntryLocal,8,localToGlobal 3,41,5,false⟩

/-- A disk of 120-byte blocks: the root directory at block 1 holds the file's entry and the
snapshot's, and every other block is a data block of tag 40 holding `abc`. -/
def archFs : Fs where
  label a := if a=1 then ⟨BtDir,BsAlloc,RootTag,1,0xFFFFFFFF⟩ else ⟨BtData,BsAlloc,40,1,0xFFFFFFFF⟩
  data a := if a=1 then write (write (fun _ => 0) 0 fileEntry.bytes) EntrySize snapEntry.bytes
    else write (fun _ => 0) 0 [97,98,99]
  venti _ _ := none
  bsize := 120
  last := 0
  flEnd := 8
  ehi := 2
  elo := 1
  unlinks := []

/-- A hash that only counts the bytes: any function serves as `sha1`. -/
def lengthSha (l : List UInt8) : Score :=
  Vector.ofFn fun k => if k.val=0 then l.length.toUInt8+1 else 0

/-- The Venti server and the disk of the examples: every write is taken and answered with the
block's score, every sync and every label block load succeeds. -/
def honestEnv (sha1 : List UInt8 → Score) : Env :=
  ⟨fun _ _ data => .ok (sha1 data),fun _ => none,fun _ => none⟩

theorem honestEnv_honest (sha1 : List UInt8 → Score) : (honestEnv sha1).Honest sha1 :=
  ⟨fun _ _ _ => rfl,fun _ => rfl,fun _ => rfl⟩

set_option maxRecDepth 8192 in
theorem archWalk_success_again_abc :
    ∃ err p' st', archWalk lengthSha (honestEnv lengthSha) 1 (archParam 120) ⟨archFs,true,[],[]⟩ 2 BtData 40=some (.success,err,p',st') ∧
      (st'.fs.label (2 : UInt32).toNat).state &&& BsVenti≠0 ∧
      archWalk lengthSha (honestEnv lengthSha) 1 p' st' 2 BtData 40=some (.success,none,{ p' with l := st'.fs.label (2 : UInt32).toNat },st') := by
  obtain ⟨err,p',st',h⟩ : ∃ err p' st',
      archWalk lengthSha (honestEnv lengthSha) 1 (archParam 120) ⟨archFs,true,[],[]⟩ 2 BtData 40=some (.success,err,p',st') :=
    ⟨_,_,_,rfl⟩
  exact ⟨err,p',st',h,archWalk_success_again h⟩

end Fossil.Archive
