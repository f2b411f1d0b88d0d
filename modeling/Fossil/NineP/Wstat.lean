import Fossil.NineP.Walk

/-!
# Changing a file's attributes

`rTwstat` (`9p.go`) runs through the fields of the stat record in the request. A field whose
value is all ones (or empty, for a string) is defaulted and left alone; `qid.path`, `qid.vers`
and `muid` may not change; the mode (from `qid.Type` or `mode`), `mtime`, `length`, `gid`, the
name and `uid` may, each under its own rule: only known bits and not the directory bit, no length
on an append-only file or a directory, the owner or a group leader for a change, the owner in the
new group or the leader of both groups for a new group, write permission in the parent for a new
name, and `wstat allow` for a new owner. `op` records whether anything changed, and the edited
entry then goes to `(*File).setDir` (`file.go`).

`setDir` refuses the root, a removed file, a file of a read-only source and a name a sibling
holds, and fails when it cannot lock the sources or set a file's new size; only then does it
commit. `rTwstat` assigns its error to `err` and returns `nil` all the same: a request that
`setDir` refuses is answered as done, and the entry is left as it was.

The file is what `rTwstat` and `setDir` read of it: its entry, the size of its data source, its
flags, whether a sibling holds a name, the errors of locking and of `setSize`, and what `getDir`
returns for its parent. The request's stat record is given as `plan9.UnmarshalDir` returns it.
-/

namespace Fossil.NineP

open Fossil.Plan9 Fossil.Vac

def ERoot : String := "cannot remove root"

def EReadOnly : String := "file is read only"

def EExists : String := "file already exists"

def ERemoved : String := "file has been removed"

/-- A file as `rTwstat` and `setDir` see it (`File`). -/
structure File where
  /-- `f.dir`. -/
  dir : UnpackedDirEntry
  /-- The size of the data source, which `getDir` reports for a file. -/
  size : UInt64
  isRoot : Bool
  /-- `isRoFs`: the file system is read-only. -/
  roFs : Bool
  /-- `chkSource` fails: the file has been removed. -/
  removed : Bool
  /-- The source is open `OReadWrite`: not a snapshot's. -/
  readWrite : Bool
  /-- Whether a sibling holds the name: an open one not removed, or an entry `lookupDir` finds. -/
  taken : List UInt8 → Bool
  /-- The error of locking the sources, if any. -/
  lockErr : Option String
  /-- The error of `setSize` to a size, if any. -/
  setSizeErr : UInt64 → Option String
  /-- What `getDir` returns for the parent, which `permParent` checks. -/
  parent : Except String UnpackedDirEntry

/-- `(*File).getDir`: the entry, with the data source's size for a file. -/
def File.getDir (f : File) : Except String UnpackedDirEntry :=
  if f.removed then .error ERemoved
  else if f.dir.mode &&& ModeDir≠0 then .ok f.dir
  else
    match f.lockErr with
    | some err => .error err
    | none => .ok { f.dir with size := f.size }

/-- `(*File).setDir(dir, uid)`: the file with the entry set, or the error, the file as it was. -/
def File.setDir (f : File) (dir : UnpackedDirEntry) : Except String File :=
  if f.isRoot then .error ERoot
  else if f.removed then .error ERemoved
  else if !f.readWrite then .error EReadOnly
  else if f.dir.elem≠dir.elem ∧ f.taken dir.elem then .error EExists
  else
    match f.lockErr with
    | some err => .error err
    | none =>
      -- a file's new size goes to its data source first; past it the change is committed
      match if f.dir.mode &&& ModeDir=0 ∧ f.size≠dir.size then f.setSizeErr dir.size else none with
      | some err => .error err
      | none =>
        let mask := ~~~(ModeDir ||| ModeSnapshot)
        let de : UnpackedDirEntry :=
          { f.dir with elem := dir.elem, uid := dir.uid, gid := dir.gid, mtime := dir.mtime, atime := dir.atime,
                       mode := f.dir.mode &&& ~~~mask ||| mask &&& dir.mode }
        .ok { f with size := if f.dir.mode &&& ModeDir=0 then dir.size else f.size, dir := de }

/-! ## The checks and edits of `rTwstat` -/

/-- The entry being edited, and whether anything changed (`op`). -/
abbrev Edit := UnpackedDirEntry × Bool

/-- `%#o`. -/
def octal (n : UInt32) : String :=
  "0"++String.ofList (Nat.toDigits 8 n.toNat)

/-- The fields that may not change: `qid.path`, `qid.vers` and `muid`, and the agreement of
`qid.Type` with `mode` when neither is defaulted. -/
def wstatFixed (box : Ubox) (de : UnpackedDirEntry) (dir : Dir) : Except String Unit := do
  if dir.qid.path≠0xFFFFFFFFFFFFFFFF ∧ dir.qid.path≠de.qid then throw "wstat -- attempt to change qid.path"
  if dir.qid.vers≠0xFFFFFFFF ∧ dir.qid.vers≠de.mcount then throw "wstat -- attempt to change qid.vers"
  if dir.muid≠[] then
    let uid := uidByUname box dir.muid
    if uid=[] then throw "wstat -- unknown muid"
    if uid≠de.mid then throw "wstat -- attempt to change muid"
  if dir.qid.type≠0xFF ∧ dir.mode≠0xFFFFFFFF ∧ dir.qid.type≠((dir.mode >>> 24) &&& 0xFF).toUInt8 then
    throw "wstat -- qid.Type/mode mismatch"

/-- The mode from `qid.Type` or `mode`: only known bits, the directory bit as it was. -/
def editMode (dir : Dir) (e : Edit) : Except String Edit :=
  let (de,op) := e
  if dir.qid.type≠0xFF ∨ dir.mode≠0xFFFFFFFF then
    let dmode := if dir.mode=0xFFFFFFFF then dir.qid.type.toUInt32 <<< 24 ||| (de.mode &&& 0o777) else dir.mode
    if dmode &&& ~~~(DMDIR ||| DMAPPEND ||| DMEXCL ||| DMTMP ||| 0o777)≠0 then
      .error ("wstat -- unknown bits in qid.Type/mode: "++octal dmode)
    else
      let mode := dmode &&& 0o777 ||| (if dmode &&& DMEXCL≠0 then ModeExclusive else 0) |||
        (if dmode &&& DMAPPEND≠0 then ModeAppend else 0) ||| (if dmode &&& DMDIR≠0 then ModeDir else 0) |||
        (if dmode &&& DMTMP≠0 then ModeTemporary else 0)
      let bits := ModeAppend ||| ModeExclusive ||| ModeTemporary ||| 0o777
      if (de.mode ^^^ mode) &&& ModeDir≠0 then .error "wstat -- attempt to change directory bit"
      else if de.mode &&& bits≠mode then .ok ({ de with mode := de.mode &&& ~~~bits ||| mode },true)
      else .ok (de,op)
  else .ok (de,op)

def editMtime (dir : Dir) (e : Edit) : Edit :=
  if dir.mtime≠0xFFFFFFFF ∧ dir.mtime≠e.1.mtime then ({ e.1 with mtime := dir.mtime },true) else e

/-- The length: not of an append-only file (unless the edit clears the bit), nor of a directory. -/
def editLength (dir : Dir) (oldmode : UInt32) (e : Edit) : Except String Edit :=
  let (de,op) := e
  if dir.length≠0xFFFFFFFFFFFFFFFF ∧ dir.length≠de.size then
    if de.mode &&& oldmode &&& ModeAppend≠0 then .error "wstat -- attempt to change length of append-only file"
    else if de.mode &&& ModeDir≠0 then .error "wstat -- attempt to change length of directory"
    else .ok ({ de with size := dir.length },true)
  else .ok (de,op)

/-- The group asked for: the request's, which must be a known user, or the entry's. -/
def wstatGid (box : Ubox) (de : UnpackedDirEntry) (dir : Dir) : Except String (List UInt8) :=
  if dir.gid≠[] then
    let gid := uidByUname box dir.gid
    if gid=[] then .error "wstat -- unknown gid" else .ok gid
  else .ok de.gid

/-- The owner or a leader of either group for any change, and the owner in the new group or the
leader of both groups for a new group (`gl` counts the groups led). -/
def editGid {F : Type} (box : Ubox) (wstatAllow : Bool) (fid : Fid F) (gid : List UInt8) (e : Edit) :
    Except String Edit :=
  let (de,op) := e
  let gl := (if groupLeader box gid fid.uname then 1 else 0)+(if groupLeader box de.gid fid.uname then 1 else 0)
  if op ∧ !wstatAllow ∧ fid.uid≠de.uid ∧ gl=0 then .error "wstat -- not owner or group leader"
  else if gid≠de.gid then
    if !wstatAllow ∧ (fid.uid≠de.uid ∨ !groupMember box gid fid.uname) ∧ gl≠2 then
      .error "wstat -- not owner and not group leaders"
    else .ok ({ de with gid := gid },true)
  else .ok (de,op)

/-- `checkValidFileName`. -/
def checkValidFileName (name : List UInt8) : Except String Unit :=
  if name=[] then .error "no file name"
  else if name=ascii "." ∨ name=ascii ".." then .error ". and .. illegal as file name"
  else if name.any (· < 0x20) then .error "bad character in file name"
  else .ok ()

/-- A new name needs write permission in the parent (`permParent`). -/
def editName (box : Ubox) (noPermCheck : Bool) (parent : Except String UnpackedDirEntry) (uname : List UInt8)
    (dir : Dir) (e : Edit) : Except String Edit :=
  let (de,op) := e
  if dir.name≠[] then
    match checkValidFileName dir.name with
    | .error err => .error err
    | .ok () =>
      if dir.name≠de.elem then
        match permFile box noPermCheck parent uname PermW with
        | .error err => .error err.text
        | .ok () => .ok ({ de with elem := dir.name },true)
      else .ok (de,op)
  else .ok (de,op)

/-- A new owner needs `wstat allow`, and may not be `noworld`. -/
def editUid (box : Ubox) (wstatAllow : Bool) (dir : Dir) (e : Edit) : Except String Edit :=
  let (de,op) := e
  if dir.uid≠[] then
    let uid := uidByUname box dir.uid
    if uid=[] then .error "wstat -- unknown uid"
    else if uid≠de.uid then
      if !wstatAllow then .error "wstat -- not owner"
      else if uid=uidnoworld then .error EPermission
      else .ok ({ de with uid := uid },true)
    else .ok (de,op)
  else .ok (de,op)

/-- The checks and edits of `rTwstat` on the entry `getDir` returned, up to the call of `setDir`. -/
def wstatEdit {F : Type} (box : Ubox) (wstatAllow noPermCheck : Bool) (fid : Fid F)
    (parent : Except String UnpackedDirEntry) (de : UnpackedDirEntry) (dir : Dir) : Except String Edit := do
  wstatFixed box de dir
  let e ← editMode dir (de,false)
  let e ← editLength dir de.mode (editMtime dir e)
  let gid ← wstatGid box e.1 dir
  let e ← editGid box wstatAllow fid gid e
  let e ← editName box noPermCheck parent fid.uname dir e
  editUid box wstatAllow dir e

/-- `rTwstat` on a fid: the reply's error and the file after. `wstatAllow` and `noPermCheck` are
the file system's or the connection's flags. The error of `setDir` is assigned and dropped. -/
def rTwstat (box : Ubox) (wstatAllow noPermCheck : Bool) (fid : Fid File) (stat : Except String Dir) :
    Except String Unit × File :=
  let f := fid.file
  if fid.uname=unamenone ∨ fid.qid.type &&& QTAUTH≠0 then (.error EPermission,f)
  else if f.roFs ∨ groupWriteMember box fid.uname=false then (.error "read-only filesystem",f)
  else
    match f.getDir with
    | .error err => (.error err,f)
    | .ok de =>
      match stat with
      | .error err => (.error ("wstat -- protocol botch: "++err),f)
      | .ok dir =>
        match wstatEdit box wstatAllow noPermCheck fid f.parent de dir with
        | .error err => (.error err,f)
        | .ok (de,op) =>
          if op then
            match f.setDir de with
            | .ok f' => (.ok (),f')
            | .error _ => (.ok (),f)
          else (.ok (),f)

/-! ## Failures `rTwstat` does not report -/

theorem except_bind_eq_ok {ε α β : Type} {x : Except ε α} {f : α → Except ε β} {b : β} (h : x >>= f=.ok b) :
    ∃ a, x=.ok a ∧ f a=.ok b := by
  cases x with
  | error e => cases h
  | ok a => exact ⟨a,rfl,h⟩

theorem getDir_elem {f : File} {de : UnpackedDirEntry} (h : f.getDir=.ok de) : de.elem=f.dir.elem := by
  unfold File.getDir at h
  split_ifs at h
  · cases h
    rfl
  · split at h
    · cases h
    · cases h
      rfl

/-- `setDir` refuses a name a sibling holds, if it did not refuse the file before. -/
theorem setDir_taken {f : File} {de : UnpackedDirEntry} (hd : f.dir.elem≠de.elem) (ht : f.taken de.elem=true) :
    ∃ err, f.setDir de=.error err := by
  have h4 : f.dir.elem≠de.elem ∧ f.taken de.elem=true := ⟨hd,ht⟩
  simp only [File.setDir,if_pos h4]
  split_ifs <;> exact ⟨_,rfl⟩

/-- An edit step that leaves the name, and `op` once set. -/
def KeepsName (e e' : Edit) : Prop :=
  e'.1.elem=e.1.elem ∧ (e.2=true → e'.2=true)

theorem KeepsName.trans {e e' e'' : Edit} (h : KeepsName e e') (h' : KeepsName e' e'') : KeepsName e e'' :=
  ⟨h'.1.trans h.1,fun h2 => h'.2 (h.2 h2)⟩

/-- A step that keeps the entry, or changes a field other than the name and records a change,
keeps the name. -/
theorem KeepsName.of_cases {de : UnpackedDirEntry} {op : Bool} {e' : Edit}
    (h : e'=(de,op) ∨ ∃ de', de'.elem=de.elem ∧ e'=(de',true)) : KeepsName (de,op) e' := by
  rcases h with rfl | ⟨de',hn,rfl⟩
  · exact ⟨rfl,id⟩
  · exact ⟨hn,fun _ => rfl⟩

/-- What `editMode` can do: keep the entry, or set its mode and record a change. -/
theorem editMode_cases {dir : Dir} {de : UnpackedDirEntry} {op : Bool} {e' : Edit} (h : editMode dir (de,op)=.ok e') :
    e'=(de,op) ∨ ∃ m, e'=({ de with mode := m },true) := by
  unfold editMode at h
  dsimp only at h
  -- the modes computed are values: only the checks around them decide the result's shape
  generalize (if dir.mode=0xFFFFFFFF then dir.qid.type.toUInt32 <<< 24 ||| de.mode &&& 0o777 else dir.mode)=dmode at h
  generalize (dmode &&& 0o777 ||| (if dmode &&& DMEXCL≠0 then ModeExclusive else 0) |||
      (if dmode &&& DMAPPEND≠0 then ModeAppend else 0) ||| (if dmode &&& DMDIR≠0 then ModeDir else 0) |||
      (if dmode &&& DMTMP≠0 then ModeTemporary else 0))=mode at h
  split_ifs at h <;> cases h
  · exact .inr ⟨_,rfl⟩
  · exact .inl rfl
  · exact .inl rfl

theorem editMode_keepsName {dir : Dir} {e e' : Edit} (h : editMode dir e=.ok e') : KeepsName e e' := by
  obtain ⟨de,op⟩ := e
  exact KeepsName.of_cases ((editMode_cases h).imp_right fun ⟨_,he⟩ => ⟨_,by rfl,he⟩)

theorem editMtime_keepsName (dir : Dir) (e : Edit) : KeepsName e (editMtime dir e) := by
  unfold editMtime
  split_ifs
  · exact ⟨rfl,fun _ => rfl⟩
  · exact ⟨rfl,id⟩

/-- What `editLength` can do: keep the entry, or set the asked length and record a change. -/
theorem editLength_cases {dir : Dir} {oldmode : UInt32} {de : UnpackedDirEntry} {op : Bool} {e' : Edit}
    (h : editLength dir oldmode (de,op)=.ok e') : e'=(de,op) ∨ e'=({ de with size := dir.length },true) := by
  simp only [editLength] at h
  split_ifs at h <;> cases h
  · exact .inr rfl
  · exact .inl rfl

theorem editLength_keepsName {dir : Dir} {oldmode : UInt32} {e e' : Edit} (h : editLength dir oldmode e=.ok e') :
    KeepsName e e' := by
  obtain ⟨de,op⟩ := e
  exact KeepsName.of_cases ((editLength_cases h).imp_right fun he => ⟨_,by rfl,he⟩)

/-- What `editGid` can do: keep the entry, or set the group asked for and record a change. -/
theorem editGid_cases {F : Type} {box : Ubox} {wstatAllow : Bool} {fid : Fid F} {gid : List UInt8}
    {de : UnpackedDirEntry} {op : Bool} {e' : Edit} (h : editGid box wstatAllow fid gid (de,op)=.ok e') :
    e'=(de,op) ∨ e'=({ de with gid := gid },true) := by
  simp only [editGid] at h
  generalize (if groupLeader box gid fid.uname then 1 else 0)+(if groupLeader box de.gid fid.uname then 1 else 0)=gl at h
  split_ifs at h <;> cases h
  · exact .inr rfl
  · exact .inl rfl

theorem editGid_keepsName {F : Type} {box : Ubox} {wstatAllow : Bool} {fid : Fid F} {gid : List UInt8} {e e' : Edit}
    (h : editGid box wstatAllow fid gid e=.ok e') : KeepsName e e' := by
  obtain ⟨de,op⟩ := e
  exact KeepsName.of_cases ((editGid_cases h).imp_right fun he => ⟨_,by rfl,he⟩)

/-- What `editUid` can do: keep the entry, or set the owner asked for and record a change. -/
theorem editUid_cases {box : Ubox} {wstatAllow : Bool} {dir : Dir} {de : UnpackedDirEntry} {op : Bool} {e' : Edit}
    (h : editUid box wstatAllow dir (de,op)=.ok e') : e'=(de,op) ∨ e'=({ de with uid := uidByUname box dir.uid },true) := by
  simp only [editUid] at h
  split_ifs at h <;> cases h
  · exact .inr rfl
  · exact .inl rfl
  · exact .inl rfl

theorem editUid_keepsName {box : Ubox} {wstatAllow : Bool} {dir : Dir} {e e' : Edit}
    (h : editUid box wstatAllow dir e=.ok e') : KeepsName e e' := by
  obtain ⟨de,op⟩ := e
  exact KeepsName.of_cases ((editUid_cases h).imp_right fun he => ⟨_,by rfl,he⟩)

/-- A new name is taken into the entry, and counts as a change. -/
theorem editName_rename {box : Ubox} {noPermCheck : Bool} {parent : Except String UnpackedDirEntry}
    {uname : List UInt8} {dir : Dir} {e e' : Edit} (hn : dir.name≠[]) (hd : dir.name≠e.1.elem)
    (h : editName box noPermCheck parent uname dir e=.ok e') : e'.1.elem=dir.name ∧ e'.2=true := by
  obtain ⟨de,op⟩ := e
  simp only [editName,hn,ne_eq,not_false_eq_true,if_true] at h
  split at h
  · cases h
  · simp only [hd,not_false_eq_true,if_true] at h
    split at h
    · cases h
    · cases h
      exact ⟨rfl,rfl⟩

/-- A request with a new name that passes the checks renames the entry, and changes it. -/
theorem wstatEdit_rename {F : Type} {box : Ubox} {wstatAllow noPermCheck : Bool} {fid : Fid F}
    {parent : Except String UnpackedDirEntry} {de : UnpackedDirEntry} {dir : Dir} {e' : Edit}
    (h : wstatEdit box wstatAllow noPermCheck fid parent de dir=.ok e') (hn : dir.name≠[]) (hd : dir.name≠de.elem) :
    e'.1.elem=dir.name ∧ e'.2=true := by
  simp only [wstatEdit] at h
  obtain ⟨_,-,h⟩ := except_bind_eq_ok h
  obtain ⟨e1,h1,h⟩ := except_bind_eq_ok h
  obtain ⟨e2,h2,h⟩ := except_bind_eq_ok h
  obtain ⟨gid,-,h⟩ := except_bind_eq_ok h
  obtain ⟨e3,h3,h⟩ := except_bind_eq_ok h
  obtain ⟨e4,h4,h5⟩ := except_bind_eq_ok h
  have hk : KeepsName (de,false) e3 :=
    (((editMode_keepsName h1).trans (editMtime_keepsName dir e1)).trans (editLength_keepsName h2)).trans
      (editGid_keepsName h3)
  have hr := editName_rename hn (by rw [hk.1]; exact hd) h4
  have hu := editUid_keepsName h5
  exact ⟨hu.1.trans hr.1,hu.2 hr.2⟩

/-- `rTwstat` answers a request as done when `setDir` refuses it: a request that passed every
check and changed the entry, but that `setDir` failed on, returns `nil` with the file as it was.
In particular a rename onto a name a sibling holds is answered as done, and the file keeps its
name. -/
theorem rTwstat_reports_failed_setDir (box : Ubox) (wstatAllow noPermCheck : Bool) (fid : Fid File) (dir : Dir)
    (hu : fid.uname≠unamenone) (ha : fid.qid.type &&& QTAUTH=0) (hro : fid.file.roFs=false)
    (hw : groupWriteMember box fid.uname=true) {de : UnpackedDirEntry} (hg : fid.file.getDir=.ok de) :
    (∀ de' err, wstatEdit box wstatAllow noPermCheck fid fid.file.parent de dir=.ok (de',true) →
      fid.file.setDir de'=.error err → rTwstat box wstatAllow noPermCheck fid (.ok dir)=(.ok (),fid.file)) ∧
    ∀ e', wstatEdit box wstatAllow noPermCheck fid fid.file.parent de dir=.ok e' → dir.name≠[] →
      dir.name≠de.elem → fid.file.taken dir.name=true →
      rTwstat box wstatAllow noPermCheck fid (.ok dir)=(.ok (),fid.file) ∧ fid.file.dir.elem≠dir.name := by
  have hfail : ∀ de' err, wstatEdit box wstatAllow noPermCheck fid fid.file.parent de dir=.ok (de',true) →
      fid.file.setDir de'=.error err → rTwstat box wstatAllow noPermCheck fid (.ok dir)=(.ok (),fid.file) := by
    intro de' err he hs
    simp [rTwstat,hu,ha,hro,hw,hg,he,hs]
  refine ⟨hfail,fun e' he hn hd ht => ?_⟩
  have hel := getDir_elem hg
  obtain ⟨hname,hop⟩ := wstatEdit_rename he hn hd
  obtain ⟨de',op⟩ := e'
  cases hop
  obtain ⟨err,hs⟩ := @setDir_taken fid.file de' (by rw [hname,← hel]; exact Ne.symm hd) (by rw [hname]; exact ht)
  exact ⟨hfail de' err he hs,by rw [← hel]; exact Ne.symm hd⟩

/-- A file `a` of `glenda`, beside a file `b`, in a directory anyone may write. -/
def fileA : File where
  dir := { admDir with elem := ascii "a", qid := 8, uid := ascii "glenda", gid := ascii "glenda",
                       mid := ascii "glenda", mode := 0o644 }
  size := 0
  isRoot := false
  roFs := false
  removed := false
  readWrite := true
  taken := fun n => decide (n=ascii "b")
  lockErr := none
  setSizeErr := fun _ => none
  parent := .ok { admDir with mode := ModeDir ||| 0o777 }

/-- `glenda`'s fid on the file. -/
def fidA : Fid File := ⟨0,fileA,⟨8,0,QTFILE⟩,ascii "glenda",ascii "glenda"⟩

/-- A stat record that changes only the name, to `b`. -/
def renameToB : Dir :=
  ⟨0xFFFF,0xFFFFFFFF,⟨0xFFFFFFFFFFFFFFFF,0xFFFFFFFF,0xFF⟩,0xFFFFFFFF,0xFFFFFFFF,0xFFFFFFFF,0xFFFFFFFFFFFFFFFF,
    ascii "b",[],[],[]⟩

theorem rTwstat_reports_failed_setDir_rename :
    rTwstat emptyBox false false fidA (.ok renameToB)=(.ok (),fileA) ∧ fileA.dir.elem≠ascii "b" := by
  have hg : fileA.getDir=.ok { fileA.dir with size := 0 } := rfl
  obtain ⟨e',he⟩ : ∃ e', wstatEdit emptyBox false false fidA fileA.parent { fileA.dir with size := 0 } renameToB=.ok e' :=
    ⟨_,rfl⟩
  exact (rTwstat_reports_failed_setDir emptyBox false false fidA renameToB (by decide) (by decide) rfl rfl hg).2 e' he
    (by decide) (by decide) rfl

end Fossil.NineP
