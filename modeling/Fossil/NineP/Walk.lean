import Fossil.NineP.User
import Fossil.NineP.DirRead

/-!
# Permissions and walking a fid

`permFile` (`9p.go`) grants a user a permission on a file when the owner's, the group's or the
others' bits of the file's mode allow it: the owner's to the user the table names for the file's
uid, the group's to a member of the file's group, and the others' to anyone except members of
`noworld`, for whom only search on a directory is granted. User `none` gets the others' bits
only, and the `noperm` flags of the file system and of the connection grant everything.

`rTwalk` walks the fid `t.Fid`, or a clone of it under `t.Newfid`, through the names `t.Wname`:
each step needs the current file to be a directory and the user to have search permission on it,
except that `..` is walked whatever the permission says. The qids walked go into the reply; when
every name is walked the fid moves to the last file, and otherwise the clone is clunked and the
fid stays where it was.

The loop leaves in three ways: `break` with the error of a non-directory or of the lookup,
`goto Out` when the permission check fails, and the end of the names. `goto Out` does not set
`err`, which is still the `nil` of the last call that succeeded: a walk refused at its first name
returns no error and an empty `Wqid`, where the protocol wants an `Rerror`.

Users are looked up in the table of `User`. Files are a type `F` with the entry each holds, what
`getDir` returns for it and the file layer's `walk`; the fids of the connection are a table from
fid numbers.
-/

namespace Fossil.Plan9

def QTAUTH : UInt8 := 0x08

def QTFILE : UInt8 := 0x00

def NOFID : UInt32 := 0xFFFFFFFF

end Fossil.Plan9

namespace Fossil.NineP

open Fossil.Plan9 Fossil.Vac

/-! ## Users -/

def unamenone : List UInt8 := ascii "none"

def uidnoworld : List UInt8 := ascii "noworld"

/-- `unameByUid`: the uname of the user with `uid`, empty when there is none. -/
def unameByUid (box : Ubox) (uid : List UInt8) : List UInt8 :=
  match _userByUid box uid with
  | .ok u => (box.users u).uname
  | .error _ => []

/-- `uidByUname`: the uid of the user named `uname`, empty when there is none. -/
def uidByUname (box : Ubox) (uname : List UInt8) : List UInt8 :=
  match _userByUname box uname with
  | .ok u => (box.users u).uid
  | .error _ => []

/-- `groupMember`: no one is in the empty group. -/
def groupMember (box : Ubox) (group member : List UInt8) : Bool :=
  group≠[] && _groupMember box group member false

/-- `groupLeader`: the group's leader, or any member of a group without one; never `none`. -/
def groupLeader (box : Ubox) (group member : List UInt8) : Bool :=
  if member=unamenone ∨ group=[] then false
  else
    match _userByUid box group with
    | .error _ => false
    | .ok g => if (box.users g).leader≠[] then decide ((box.users g).leader=member) else _groupMember box group member false

/-- `groupWriteMember`: everyone, unless there is a group `write`. -/
def groupWriteMember (box : Ubox) (uname : List UInt8) : Bool :=
  _groupMember box (ascii "write") uname true

/-! ## Permissions -/

def PermX : UInt32 := 1

def PermW : UInt32 := 2

def PermR : UInt32 := 4

def EPermission : String := "permission denied"

/-- An error of `permFile`: `EPermission`, which `rTwalk` tells apart by identity, or the error of
`getDir`. -/
inductive PermError where
  | permission
  | getDir (err : String)
  deriving DecidableEq

/-- The text of the error. -/
def PermError.text : PermError → String
  | .permission => EPermission
  | .getDir err => err

/-- `permFile(file, fid, perm)` for the user `uname`, on what `getDir` returned for the file;
`noPermCheck` is the file system's or the connection's `noperm` flag. -/
def permFile (box : Ubox) (noPermCheck : Bool) (getDir : Except String UnpackedDirEntry) (uname : List UInt8)
    (perm : UInt32) : Except PermError Unit :=
  match getDir with
  | .error err => .error (.getDir err)
  | .ok de =>
    let owner := unameByUid box de.uid≠[] ∧ uname=unameByUid box de.uid ∧ (perm <<< 6) &&& de.mode≠0
    let group := groupMember box de.gid uname ∧ (perm <<< 3) &&& de.mode≠0
    -- `noworld` members get only search on a directory from the others' bits
    let other := perm &&& de.mode≠0 ∧ (perm=PermX ∧ de.mode &&& ModeDir≠0 ∨ groupMember box uidnoworld uname=false)
    if uname≠unamenone ∧ (owner ∨ group) ∨ other ∨ noPermCheck then .ok () else .error .permission

/-! ## Walking -/

/-- The files a walk goes through: the entry each holds (`f.dir`), what `getDir` returns for it,
and `(*File).walk`. -/
structure Files (F : Type) where
  dir : F → UnpackedDirEntry
  getDir : F → Except String UnpackedDirEntry
  walk : F → List UInt8 → Except String F

/-- The fields of a `Fid` that the handlers read and set. -/
structure Fid (F : Type) where
  /-- `open`: the open mode bits. -/
  omode : UInt32
  file : F
  qid : Qid
  uid : List UInt8
  uname : List UInt8

/-- The fids of a connection, by number. -/
abbrev Fids (F : Type) := UInt32 → Option (Fid F)

def FidORclose : UInt32 := 0x08

variable {F : Type}

/-- The qid the walk records for a file: type bits from the entry's mode, version and path. -/
def fileQid (de : UnpackedDirEntry) : Qid :=
  ⟨de.qid,de.mcount,(if de.mode &&& ModeDir≠0 then QTDIR else QTFILE) ||| (if de.mode &&& ModeAppend≠0 then QTAPPEND else 0) |||
    (if de.mode &&& ModeTemporary≠0 then QTTMP else 0) ||| (if de.mode &&& ModeExclusive≠0 then QTEXCL else 0)⟩

/-- The loop of `rTwalk` for the user `uname` over the names, from `file` with qid `qid`: the qids
walked, the file reached, and `err` when the loop breaks. A failed permission check leaves by
`goto Out` with `err` as it was, `nil`. -/
def walkLoop (box : Ubox) (noPermCheck : Bool) (files : Files F) (uname : List UInt8) :
    List (List UInt8) → F → Qid → List Qid × F × Option String
  | [],file,_ => ([],file,none)
  | name :: names,file,qid =>
    if qid.type &&& QTDIR=0 then ([],file,some "not a directory")
    else
      let walked : List Qid × F × Option String :=
        match files.walk file name with
        | .error err => ([],file,some err)
        | .ok nfile =>
          let q := fileQid (files.dir nfile)
          let (qs,f,err) := walkLoop box noPermCheck files uname names nfile q
          (q :: qs,f,err)
      match permFile box noPermCheck (files.getDir file) uname PermX with
      | .ok () => walked
      | .error .permission => if name=ascii ".." then walked else ([],file,none)
      | .error (.getDir _) => ([],file,none)

/-- `getFid(con, fidno, flags)` for a fid in use. -/
def getFid (fids : Fids F) (fidno : UInt32) : Except String (Fid F) :=
  if fidno=NOFID then .error "fidno invalid"
  else
    match fids fidno with
    | some fid => .ok fid
    | none => .error "fid not found"

/-- `rTwalk`: the fids after the walk and the reply's `Wqid`, or the error; `con` is how the
connection prints. -/
def rTwalk (box : Ubox) (noPermCheck : Bool) (files : Files F) (con : String) (fids : Fids F) (fid newfid : UInt32)
    (wname : List (List UInt8)) : Except String (Fids F × List Qid) :=
  match getFid fids fid with
  | .error err => .error err
  | .ok ofid =>
    if ofid.omode≠0 then .error "file open for I/O"
    else if fid≠newfid ∧ (newfid=NOFID ∨ (fids newfid).isSome) then
      .error ("con="++con++": walk: newfid 0x"++toString newfid.toNat++" in use")
    else
      -- the clone under `newfid`, or the fid itself
      let nfid := if fid≠newfid then { ofid with omode := ofid.omode &&& ~~~FidORclose } else ofid
      let fids := if fid≠newfid then Function.update fids newfid (some nfid) else fids
      if wname=[] then .ok (fids,[])
      else
        let (qs,file,err) := walkLoop box noPermCheck files nfid.uname wname nfid.file nfid.qid
        if qs.length=wname.length then
          .ok (Function.update fids newfid (some { nfid with qid := qs.getLast?.getD nfid.qid, file := file }),qs)
        else
          -- `Out`: the clone is clunked and the fid left where it was
          let fids := if fid≠newfid then Function.update fids newfid none else fids
          if qs.length=0 then
            match err with
            | some e => .error e
            | none => .ok (fids,qs)
          else .ok (fids,qs)

/-- A walk whose first step fails its permission check, `..` apart, or whose `getDir` fails,
walks nothing and leaves the loop with no error. -/
theorem walkLoop_refused {box : Ubox} {noPermCheck : Bool} {files : Files F} {uname name : List UInt8}
    {names : List (List UInt8)} {file : F} {qid : Qid} (hd : qid.type &&& QTDIR≠0)
    (hp : permFile box noPermCheck (files.getDir file) uname PermX=.error .permission ∧ name≠ascii ".." ∨
      ∃ e, permFile box noPermCheck (files.getDir file) uname PermX=.error (.getDir e)) :
    walkLoop box noPermCheck files uname (name :: names) file qid=([],file,none) := by
  rw [walkLoop,if_neg hd]
  rcases hp with ⟨hp,hn⟩ | ⟨e,hp⟩
  · simp only [hp,hn,if_false]
  · simp only [hp]

/-- A walk refused at its first name answers with no error: the permission check leaves the loop
by `goto Out` with `err` still `nil`, so `rTwalk` returns an empty `Wqid` and the fids as they
were, the clone clunked. The same happens when `getDir` fails on the directory. -/
theorem rTwalk_refused_first_name {box : Ubox} {noPermCheck : Bool} {files : Files F} {con : String}
    {fids : Fids F} {fid newfid : UInt32} {ofid : Fid F} (hf : fids fid=some ofid) (hfid : fid≠NOFID)
    (ho : ofid.omode=0) (hn : fid=newfid ∨ newfid≠NOFID ∧ fids newfid=none) (hd : ofid.qid.type &&& QTDIR≠0)
    (name : List UInt8) (names : List (List UInt8))
    (hp : permFile box noPermCheck (files.getDir ofid.file) ofid.uname PermX=.error .permission ∧ name≠ascii ".." ∨
      ∃ e, permFile box noPermCheck (files.getDir ofid.file) ofid.uname PermX=.error (.getDir e)) :
    rTwalk box noPermCheck files con fids fid newfid (name :: names)=.ok (fids,[]) := by
  have hget : getFid fids fid=.ok ofid := by simp [getFid,hfid,hf]
  have hloop : walkLoop box noPermCheck files ofid.uname (name :: names) ofid.file ofid.qid=([],ofid.file,none) :=
    walkLoop_refused hd hp
  rcases hn with rfl | ⟨hnn,hfree⟩
  · simp [rTwalk,hget,ho,hloop]
  · have hne : fid≠newfid := by
      rintro rfl
      simp [hf] at hfree
    have hclunk : ∀ x : Fid F, Function.update (Function.update fids newfid (some x)) newfid none=fids := by
      intro x
      rw [Function.update_idem,Function.update_eq_self_iff.mpr hfree.symm]
    simp [rTwalk,hget,ho,hne,hnn,hfree,hloop,hclunk]

/-- A directory only its owner `adm` may search. -/
def admDir : UnpackedDirEntry :=
  { elem := ascii "adm", entry := 0, gen := 0, mentry := 1, mgen := 0, qid := 7, uid := ascii "adm",
    gid := ascii "adm", mid := ascii "adm", mtime := 0, mcount := 0, ctime := 0, atime := 0,
    mode := ModeDir ||| 0o700, qidSpace := 0, qidOffset := 0, qidMax := 0, size := 0, plan9 := false,
    p9path := 0, p9version := 0 }

/-- Files that are all that directory. -/
def admFiles : Files Nat := ⟨fun _ => admDir,fun _ => .ok admDir,fun f _ => .ok (f+1)⟩

/-- Fid 1 of `glenda`, on the directory, before the user table is read (`ubox.box` nil). -/
def glendaFids : Fids Nat :=
  fun n => if n=1 then some ⟨0,0,⟨7,0,QTDIR⟩,ascii "glenda",ascii "glenda"⟩ else none

theorem rTwalk_refused_first_name_glenda :
    rTwalk emptyBox false admFiles "con" glendaFids 1 2 [ascii "lib"]=.ok (glendaFids,[]) :=
  rTwalk_refused_first_name (rfl : glendaFids 1=some ⟨0,0,⟨7,0,QTDIR⟩,ascii "glenda",ascii "glenda"⟩) (by decide) rfl
    (.inr ⟨by decide,rfl⟩) (by decide) _ _ (.inl ⟨by decide,by decide⟩)

end Fossil.NineP
