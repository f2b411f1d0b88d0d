import Fossil.NineP.Fcall
import Fossil.Lib.Sorted
import Fossil.Lib.Replay
import Mathlib.Algebra.BigOperators.Group.List.Basic
import Mathlib.Data.List.Nodup

/-!
# The user table

`9user.go` keeps the users in a `Ubox`: a list of `User` objects sorted by uid, two maps from uid
and from uname to the users, a count, and `length`, the number of bytes the table takes written
out, one `uid:uname:leader:members` line a user. `uboxInit` builds a table from the text of the
users file. The console command `uname` adds a user, renames one, sets or clears a group leader and
adds or removes group members, each adjusting `length` by the bytes it adds to the text or takes
from it; `writeUsersFile` writes the text with `length` as the count.

The list and the maps hold pointers to the users; here the users live in a heap indexed by
pointers. Every table that `uboxInit` accepts, edited by any run of `uname` commands, failing or
not, keeps its list sorted and counted, its maps indexing exactly the listed users, and `length`
equal to the length of the text, so `writeUsersFile` writes the whole table.
-/

namespace Fossil.NineP

/-- A `User`: its uid and uname, the uname of its group's leader (empty for none) and the unames
of its group's members. -/
structure User where
  uid : List UInt8
  uname : List UInt8
  leader : List UInt8
  group : List (List UInt8)
  deriving DecidableEq, Repr

/-- A `Ubox` with the `User` objects its pointers reach: `users` maps a pointer to its object and
`userAlloc` hands out `nalloc` next. `head` is the list from `head` along the `next` pointers;
`tail` is never read. -/
structure Ubox where
  users : Nat → User
  nalloc : Nat
  head : List Nat
  nuser : Int
  length : Int
  ihash : List UInt8 → Option Nat
  nhash : List UInt8 → Option Nat

/-- The errors of the user table, with the names their messages quote. -/
inductive UserError where
  /-- `EUsage`. -/
  | usage
  /-- `uname: uid %q not found`. -/
  | uidNotFound (uid : List UInt8)
  /-- `uname %q not found`. -/
  | unameNotFound (uname : List UInt8)
  /-- `uname: %q always in own group`. -/
  | ownGroup (member : List UInt8)
  /-- `uname: %q not in group %q`. -/
  | notInGroup (member group : List UInt8)
  /-- `uname: %q already in group %q`. -/
  | inGroup (member group : List UInt8)
  /-- `uname: uname %q already exists`. -/
  | unameExists (uname : List UInt8)
  /-- `uname: uname %q is mandatory`. -/
  | mandatory (uname : List UInt8)
  /-- `uname: uid %q already exists`. -/
  | uidExists (uid : List UInt8)
  /-- `create home dir: %v`. -/
  | createHome (err : String)
  /-- `user %q is mandatory`. -/
  | userMandatory (name : List UInt8)
  /-- `uid/uname for user %q must match`. -/
  | mustMatch (name : List UInt8)
  deriving DecidableEq, Repr

/-- `usersMandatory`. -/
def usersMandatory : List (List UInt8) := [ascii "adm",ascii "none",ascii "noworld",ascii "sys"]

/-- `usersDefault`. -/
def usersDefault : List UInt8 :=
  ascii "adm:adm:adm:sys\nnone:none::\nnoworld:noworld::\nsys:sys::glenda\nglenda:glenda:glenda:\n"

/-! ## Lookups and groups -/

/-- `_userByUid`. -/
def _userByUid (box : Ubox) (uid : List UInt8) : Except UserError Nat :=
  match box.ihash uid with
  | some u => .ok u
  | none => .error (.uidNotFound uid)

/-- `_userByUname`. -/
def _userByUname (box : Ubox) (uname : List UInt8) : Except UserError Nat :=
  match box.nhash uname with
  | some u => .ok u
  | none => .error (.unameNotFound uname)

/-- `_groupMember`: whether the user named `member` is in the group with uid `group`; a user is in
its own group. -/
def _groupMember (box : Ubox) (group member : List UInt8) (whenNoGroup : Bool) : Bool :=
  match box.ihash group with
  | none => whenNoGroup
  | some g =>
    match box.nhash member with
    | none => false
    | some m => m=g || decide (member ∈ (box.users g).group)

/-- `_groupRemMember`: `member` leaves the group of `g`, and its bytes and, unless it was alone,
one comma leave `length`. -/
def _groupRemMember (box : Ubox) (g : Nat) (member : List UInt8) : Except UserError Ubox := do
  let _ ← _userByUname box member
  let group := (box.users g).group
  let i := group.idxOf member
  if group.length ≤ i then
    .error (if (box.users g).uname=member then .ownGroup member else .notInGroup member (box.users g).uname)
  else
    .ok { box with
      users := Function.update box.users g { box.users g with group := group.eraseIdx i }
      length := box.length-member.length-(if 1 < group.length then 1 else 0) }

/-- `_groupAddMember`: `member` joins the group of `g`, and its bytes and, unless it is the first,
one comma join `length`. -/
def _groupAddMember (box : Ubox) (g : Nat) (member : List UInt8) : Except UserError Ubox := do
  let u ← _userByUname box member
  if _groupMember box (box.users g).uid (box.users u).uname false then
    .error (if (box.users g).uname=member then .ownGroup member else .inGroup member (box.users g).uname)
  else
    let group := (box.users g).group++[member]
    .ok { box with
      users := Function.update box.users g { box.users g with group := group }
      length := box.length+member.length+(if 1 < group.length then 1 else 0) }

/-- `userAlloc`: a new user, with no leader and no members. -/
def userAlloc (box : Ubox) (uid uname : List UInt8) : Ubox × Nat :=
  ({ box with
    users := Function.update box.users box.nalloc ⟨uid,uname,[],[]⟩
    nalloc := box.nalloc+1 },box.nalloc)

/-- `validUserName`. -/
def validUserName (name : List UInt8) : Bool := name.all fun c => c ∉ ascii "#:,()"

/-! ## The text of the table -/

/-- The members as `(*User).String` writes them, separated by commas. -/
def groupString : List (List UInt8) → List UInt8
  | [] => []
  | m::ms => m++(ms.map fun m => ','.toUInt8::m).flatten

/-- `(*User).String`: `uid:uname:leader:members`. -/
def User.string (u : User) : List UInt8 :=
  u.uid++[':'.toUInt8]++u.uname++[':'.toUInt8]++u.leader++[':'.toUInt8]++groupString u.group

/-- What `writeUsersFile` hands to `(*File).write`: the users' lines, each ended by a newline, and
`box.length` as the count. -/
def writeUsersFile (box : Ubox) : List UInt8 × Int :=
  ((box.head.map fun u => (box.users u).string++['\n'.toUInt8]).flatten,box.length)

/-! ## Linking users in and out -/

/-- `uboxRemUser`: `u` is unhashed, unlinked from the list where its uid is found, and its uid,
uname and separators leave `length`; `none` when the user found there is not `u` (the assertion). -/
def uboxRemUser (box : Ubox) (u : Nat) : Option Ubox :=
  let uid := (box.users u).uid
  match box.head.dropWhile fun up => (box.users up).uid≠uid with
  | up::rest =>
    if up=u then
      some { box with
        ihash := Function.update box.ihash uid none
        nhash := Function.update box.nhash (box.users u).uname none
        head := (box.head.takeWhile fun up => (box.users up).uid≠uid)++rest
        length := box.length-uid.length-(box.users u).uname.length-4
        nuser := box.nuser-1 }
    else none
  | [] => none

/-- `uboxAddUser`: `u` is hashed, linked in before the first user whose uid is not below its own,
and its uid, uname and separators join `length`. -/
def uboxAddUser (box : Ubox) (u : Nat) : Ubox :=
  let uid := (box.users u).uid
  { box with
    ihash := Function.update box.ihash uid (some u)
    nhash := Function.update box.nhash (box.users u).uname (some u)
    head := (box.head.takeWhile fun up => (box.users up).uid < uid)++u::box.head.dropWhile fun up => (box.users up).uid < uid
    length := box.length+uid.length+(box.users u).uname.length+4
    nuser := box.nuser+1 }

/-! ## The `uname` command -/

/-- The renaming loop of `uname %p`, at one user `up`: its leader and the first of its members
that name `old` become `p`, each adding `d` to `length`. -/
def renameRefs (old p : List UInt8) (d : Int) (box : Ubox) (up : Nat) : Ubox :=
  let v := box.users up
  { box with
    users := Function.update box.users up
      { v with
        leader := if v.leader≠[] ∧ v.leader=old then p else v.leader
        group := v.group.replace old p }
    length := box.length+(if v.leader≠[] ∧ v.leader=old then d else 0)+(if old ∈ v.group then d else 0) }

/-- `uname uname %p` for the user `u`: refused when `p` is taken or `uname` is mandatory; otherwise
every reference to the old uname is renamed, and `u` is unlinked, renamed and linked in again. -/
def rename (box : Ubox) (uname : List UInt8) (u : Nat) (p : List UInt8) :
    Option (Except UserError (Option Nat) × Ubox) :=
  match box.nhash p with
  | some up => some (.error (.unameExists (box.users up).uname),box)
  | none =>
    if uname ∈ usersMandatory then some (.error (.mandatory uname),box)
    else
      let old := (box.users u).uname
      let box := box.head.foldl (renameRefs old p ((p.length : Int)-old.length)) box
      (uboxRemUser box u).map fun box =>
        (.ok (some u),uboxAddUser { box with users := Function.update box.users u { box.users u with uname := p } } u)

/-- `uname uname =p` for the user `u`: the leader is cleared, then set to the user named `p` if
there is one; an unknown `p` other than the empty one is refused. -/
def setLeader (box : Ubox) (u : Nat) (p : List UInt8) : Except UserError Ubox :=
  if box.nhash p=none ∧ p≠[] then .error (.unameNotFound p)
  else
    let v := box.users u
    let length := if v.leader≠[] then box.length-v.leader.length else box.length
    match box.nhash p with
    | some up =>
      .ok { box with
        users := Function.update box.users u { v with leader := (box.users up).uname }
        length := length+(box.users up).uname.length }
    | none => .ok { box with users := Function.update box.users u { v with leader := [] }, length := length }

/-- An edit of the user `u` that may fail: the loop goes on with `u`, or stops with the table as
it was. -/
def edited (u : Nat) (box : Ubox) : Except UserError Ubox → Except UserError (Option Nat) × Ubox
  | .ok box => (.ok (some u),box)
  | .error e => (.error e,box)

/-- One argument of `uname uname arg...`, with `u` the user named `uname` (`none` while there is
none): `%` renames, `=` sets the leader, `+` and `-` add and remove a member, anything else adds the
user `uname` with that uid (after a `:`, without a home directory; `createHome` is the outcome of
creating one). `none` when the argument is empty (`arg[0]` is out of range). -/
def unameArg (createHome : List UInt8 → Except String Unit) (uname : List UInt8) (box : Ubox) (u : Option Nat) :
    List UInt8 → Option (Except UserError (Option Nat) × Ubox)
  | [] => none
  | c::p =>
    if c = '%'.toUInt8 then
      match u with
      | none => some (.error (.unameNotFound uname),box)
      | some u => rename box uname u p
    else if c = '='.toUInt8 then
      match u with
      | none => some (.error (.unameNotFound uname),box)
      | some u => some (edited u box (setLeader box u p))
    else if c = '+'.toUInt8 then
      match u with
      | none => some (.error (.unameNotFound uname),box)
      | some u => some (edited u box (_userByUname box p >>= fun up => _groupAddMember box u (box.users up).uname))
    else if c = '-'.toUInt8 then
      match u with
      | none => some (.error (.unameNotFound uname),box)
      | some u => some (edited u box (_userByUname box p >>= fun up => _groupRemMember box u (box.users up).uname))
    else
      match u with
      | some u => some (.error (.unameExists (box.users u).uname),box)
      | none =>
        let uid := if c = ':'.toUInt8 then p else c::p
        match box.ihash uid with
        | some _ => some (.error (.uidExists uid),box)
        | none =>
          let (box,u) := userAlloc box uid uname
          let box := uboxAddUser box u
          if c = ':'.toUInt8 then some (.ok (some u),box)
          else
            match createHome uname with
            | .error e => some (.error (.createHome e),box)
            | .ok () => some (.ok (some u),box)

/-- The arguments of `uname` one after the other, up to the first error. -/
def unameArgs (createHome : List UInt8 → Except String Unit) (uname : List UInt8) :
    Ubox → Option Nat → List (List UInt8) → Option (Except UserError Unit × Ubox)
  | box,_,[] => some (.ok (),box)
  | box,u,arg::args =>
    match unameArg createHome uname box u arg with
    | none => none
    | some (.error e,box) => some (.error e,box)
    | some (.ok u,box) => unameArgs createHome uname box u args

/-- `cmdUname` on the arguments its flags leave, `dflag` being `-d`: with none it dumps the table
or fails with its usage, with one it looks the user up; otherwise it makes the edits and writes the
users file (what it writes is `writeUsersFile`). -/
def cmdUname (createHome : List UInt8 → Except String Unit) (dflag : Bool) (box : Ubox) :
    List (List UInt8) → Option (Except UserError Unit × Ubox)
  | [] => some (if dflag then .ok () else .error .usage,box)
  | [uname] => some ((_userByUname box uname).map fun _ => (),box)
  | uname::args => unameArgs createHome uname box (box.nhash uname) args

/-! ## Reading the users file -/

/-- The bytes of `U+FFFD`, the rune `range` yields for a byte that starts no valid sequence. -/
def runeError : List UInt8 := [0xEF,0xBF,0xBD]

/-- For a first byte `b ≥ 0x80`, the length of the UTF-8 sequence it starts and the range its
second byte must lie in (`first` and `acceptRanges` of `unicode/utf8`); `none` when it starts
none. -/
def utf8First (b : UInt8) : Option (Nat × UInt8 × UInt8) :=
  if b < 0xC2 then none
  else if b < 0xE0 then some (2,0x80,0xBF)
  else if b=0xE0 then some (3,0xA0,0xBF)
  else if b=0xED then some (3,0x80,0x9F)
  else if b < 0xF0 then some (3,0x80,0xBF)
  else if b=0xF0 then some (4,0x90,0xBF)
  else if b < 0xF4 then some (4,0x80,0xBF)
  else if b=0xF4 then some (4,0x80,0x8F)
  else none

/-- Whether `rest` starts with the `n-1` bytes that complete a sequence: the first of them in
`lo..hi`, the others continuation bytes. -/
def utf8Completes (n : Nat) (lo hi : UInt8) (rest : List UInt8) : Bool :=
  n-1 ≤ rest.length &&
    match rest with
    | b::bs => lo ≤ b && b ≤ hi && (bs.take (n-2)).all fun c => 0x80 ≤ c && c ≤ 0xBF
    | [] => false

/-- The runes of a string as `for _, c := range s` yields them, each as the bytes that encode it. -/
def runes : List UInt8 → List (List UInt8)
  | [] => []
  | b::rest =>
    if b < 0x80 then [b]::runes rest
    else
      match utf8First b with
      | some (n,lo,hi) =>
        if utf8Completes n lo hi rest then (b::rest.take (n-1))::runes (rest.drop (n-1))
        else runeError::runes rest
      | none => runeError::runes rest
termination_by p => p.length
decreasing_by all_goals simp only [List.length_cons,List.length_drop]; omega

/-- The state of the loop of `uboxInit` that strips whitespace and comments. -/
structure Strip where
  buf : List (List UInt8)
  newline : Bool
  comment : Bool
  blank : Bool

/-- One rune of the stripping loop: blanks are dropped, a comment runs to the end of its line, and
a newline is kept only after a line with something on it. -/
def stripRune (s : Strip) (c : List UInt8) : Strip :=
  if c=ascii "\r" ∨ c=ascii "\t" ∨ c=ascii " " then s
  else if c=ascii "\n" then
    if s.blank then { s with comment := false }
    else if s.newline then { s with blank := true, comment := false }
    else { s with newline := true, buf := s.buf++[c], blank := true, comment := false }
  else
    let comment := s.comment || c=ascii "#"
    if comment then { s with comment := comment, blank := false }
    else { s with comment := comment, blank := false, newline := false, buf := s.buf++[c] }

/-- The text `uboxInit` parses: the stripped runes less a final newline; `none` when no rune is
left (`buf[len(buf)-1]` is out of range). -/
def stripUsers (users : List UInt8) : Option (List UInt8) :=
  let s := (runes users).foldl stripRune ⟨[],false,false,true⟩
  s.buf.getLast?.map fun c => (if c=ascii "\n" then s.buf.dropLast else s.buf).flatten

/-- A line of the first pass of `uboxInit`: a line of four fields whose uid and uname are
nonempty, valid and new adds a user and is kept for the second pass; any other is skipped. -/
def firstPass (acc : Ubox × List (List UInt8)) (line : List UInt8) : Ubox × List (List UInt8) :=
  match line.splitOn ':'.toUInt8 with
  | [uid,uname,_,_] =>
    if uid=[] ∨ uname=[] ∨ !validUserName uid ∨ (acc.1.ihash uid).isSome ∨ !validUserName uname ∨
        (acc.1.nhash uname).isSome then acc
    else
      let (box,u) := userAlloc acc.1 uid uname
      (uboxAddUser box u,acc.2++[line])
  | _ => acc

/-- A member of the second pass: added if it can be, skipped (and logged) if not. -/
def addMember (g : Nat) (box : Ubox) (member : List UInt8) : Ubox :=
  match _groupAddMember box g member with
  | .ok box => box
  | .error _ => box

/-- A line of the second pass of `uboxInit`: the user it names gets its leader (the user named in
the third field, or itself when no user has that name) and the members of the fourth field;
`none` where a field or the user is missing (`panic("impossible")`). -/
def secondPass (box : Ubox) (line : List UInt8) : Option Ubox := do
  let fields := line.splitOn ':'.toUInt8
  let uname ← fields[1]?
  let leader ← fields[2]?
  let members ← fields[3]?
  let g ← box.nhash uname
  let box :=
    if leader=[] then box
    else
      let l := match box.nhash leader with
        | some u => (box.users u).uname
        | none => (box.users g).uname
      { box with users := Function.update box.users g { box.users g with leader := l }, length := box.length+l.length }
  pure (if members=[] then box else (members.splitOn ','.toUInt8).foldl (addMember g) box)

/-- The mandatory users must be there, each with its uid as its uname. -/
def checkMandatory (box : Ubox) : List (List UInt8) → Except UserError Unit
  | [] => .ok ()
  | name::names =>
    match box.ihash name with
    | none => .error (.userMandatory name)
    | some u => if (box.users u).uid≠(box.users u).uname then .error (.mustMatch name) else checkMandatory box names

/-- The table `uboxInit` starts from. -/
def emptyBox : Ubox := ⟨fun _ => ⟨[],[],[],[]⟩,0,[],0,0,fun _ => none,fun _ => none⟩

/-- `uboxInit`: the table the users text describes, built in a fresh `Ubox`; `none` where the
code panics. -/
def uboxInit (users : List UInt8) : Option (Except UserError Ubox) := do
  let text ← stripUsers users
  let acc := (text.splitOn '\n'.toUInt8).foldl firstPass (emptyBox,[])
  let box ← acc.2.foldlM secondPass acc.1
  pure ((checkMandatory box usersMandatory).map fun _ => box)

/-! ## Lengths of the text -/

/-- Every member takes at least one byte with its separator. -/
theorem length_le_sum_members (ms : List (List UInt8)) : ms.length ≤ (ms.map fun m => m.length+1).sum := by
  induction ms with
  | nil => simp
  | cons m ms ih =>
    simp only [List.length_cons,List.map_cons,List.sum_cons]
    omega

/-- The members take their bytes and one comma fewer than there are of them. -/
theorem groupString_length (ms : List (List UInt8)) :
    (groupString ms).length=(ms.map fun m => m.length+1).sum-1 := by
  cases ms with
  | nil => rfl
  | cons m ms =>
    simp only [groupString,List.length_append,List.length_flatten,List.map_map,List.map_cons,List.sum_cons]
    have : (ms.map (List.length ∘ fun m => ','.toUInt8::m)).sum=(ms.map fun m => m.length+1).sum := by
      congr 1
    omega

theorem string_length (u : User) :
    u.string.length=u.uid.length+u.uname.length+u.leader.length+(groupString u.group).length+3 := by
  simp only [User.string,List.length_append,List.length_singleton]
  omega

/-- The text of a table is its users' lines, each with its newline. -/
theorem text_length (box : Ubox) :
    (writeUsersFile box).1.length=(box.head.map fun u => (box.users u).string.length+1).sum := by
  simp only [writeUsersFile,List.length_flatten,List.map_map]
  congr 1
  exact List.map_congr_left fun u _ => by simp

/-- A member joining a group adds its bytes and, unless it is the first, a comma. -/
theorem groupString_append_length (ms : List (List UInt8)) (m : List UInt8) :
    (groupString (ms++[m])).length=(groupString ms).length+m.length+(if 1 < (ms++[m]).length then 1 else 0) := by
  rw [groupString_length,groupString_length]
  cases ms with
  | nil => simp
  | cons a ms =>
    simp only [List.cons_append,List.map_cons,List.sum_cons,List.map_append,List.sum_append,List.length_cons,
      List.length_append]
    simp
    omega

/-- A member leaving a group takes its bytes and, unless it was alone, a comma. -/
theorem groupString_erase_length {ms : List (List UInt8)} {m : List UInt8} (hm : m ∈ ms) :
    (groupString (ms.erase m)).length+m.length+(if 1 < ms.length then 1 else 0)=(groupString ms).length := by
  have hs := ((List.perm_cons_erase hm).map fun m => m.length+1).sum_eq
  have hl := List.length_erase_of_mem hm
  have hle := length_le_sum_members (ms.erase m)
  rw [List.map_cons,List.sum_cons] at hs
  rw [groupString_length,groupString_length,hs]
  split_ifs with h1
  · omega
  · have he : ms.erase m=[] := List.length_eq_zero_iff.mp (by omega)
    simp [he]

/-- Renaming a member changes the bytes of its name. -/
theorem sum_members_replace {ms : List (List UInt8)} {a : List UInt8} (ha : a ∈ ms) (b : List UInt8) :
    ((ms.replace a b).map fun m => m.length+1).sum+a.length=(ms.map fun m => m.length+1).sum+b.length := by
  induction ms with
  | nil => simp at ha
  | cons x ms ih =>
    rw [List.replace_cons]
    by_cases hx : a=x
    · subst hx
      simp only [beq_self_eq_true,List.map_cons,List.sum_cons]
      omega
    · have hb : (a==x)=false := beq_eq_false_iff_ne.mpr hx
      have := ih ((List.mem_cons.mp ha).resolve_left hx)
      simp only [hb,List.map_cons,List.sum_cons]
      omega

theorem groupString_replace_length {ms : List (List UInt8)} {a : List UInt8} (ha : a ∈ ms) (b : List UInt8) :
    (groupString (ms.replace a b)).length+a.length=(groupString ms).length+b.length := by
  have hs := sum_members_replace ha b
  have hle := length_le_sum_members (ms.replace a b)
  have hle' := length_le_sum_members ms
  have hpos : 0 < ms.length := List.length_pos_of_mem ha
  rw [List.length_replace] at hle
  rw [groupString_length,groupString_length]
  omega

/-! ## The invariant -/

instance bytesStrictTotalOrder : IsStrictTotalOrder (List UInt8) (· < ·) where
  trichotomous _ _ hab hba := Std.le_antisymm hba hab
  irrefl := List.lt_irrefl
  trans _ _ _ := List.lt_trans

/-- How the list, the count and the maps of a table agree. -/
structure Linked (box : Ubox) : Prop where
  /-- The list is sorted by uid, with no uid twice. -/
  sorted : box.head.Pairwise fun u v => (box.users u).uid < (box.users v).uid
  /-- `ihash` maps the uid of every listed user to it, and nothing else. -/
  ihash : ∀ uid u, box.ihash uid=some u ↔ u ∈ box.head ∧ (box.users u).uid=uid
  /-- `nhash` maps the uname of every listed user to it, and nothing else. -/
  nhash : ∀ uname u, box.nhash uname=some u ↔ u ∈ box.head ∧ (box.users u).uname=uname
  nuser : box.nuser=box.head.length
  /-- Every listed user was allocated. -/
  allocated : ∀ u ∈ box.head, u < box.nalloc

/-- A consistent table: linked, and `length` is the length of its text. -/
structure Table (box : Ubox) : Prop extends Linked box where
  length : box.length=(writeUsersFile box).1.length

section Index

/-! A map that indexes a list by a key, as `ihash` and `nhash` index the listed users. -/

variable {m : List UInt8 → Option Nat} {key : Nat → List UInt8} {l : List Nat}

theorem index_unique (hm : ∀ k u, m k=some u ↔ u ∈ l ∧ key u=k) {u w : Nat} (hu : u ∈ l) (hw : w ∈ l)
    (hk : key w=key u) : w=u := by
  have h1 := (hm (key u) u).mpr ⟨hu,rfl⟩
  have h2 := (hm (key u) w).mpr ⟨hw,hk⟩
  exact Option.some.inj (h2.symm.trans h1)

theorem key_ne_of_index_none (hm : ∀ k u, m k=some u ↔ u ∈ l ∧ key u=k) {k : List UInt8} (hk : m k=none)
    {w : Nat} (hw : w ∈ l) : key w≠k := fun h => by
  rw [(hm k w).mpr ⟨hw,h⟩] at hk
  cases hk

/-- Mapping the free key of a new element to it indexes the list with the element added. -/
theorem index_update_some (hm : ∀ k u, m k=some u ↔ u ∈ l ∧ key u=k) {u : Nat} (hfree : m (key u)=none)
    {l' : List Nat} (hl' : ∀ w, w ∈ l' ↔ w=u ∨ w ∈ l) :
    ∀ k w, Function.update m (key u) (some u) k=some w ↔ w ∈ l' ∧ key w=k := by
  intro k w
  rw [hl']
  by_cases hk : k=key u
  · subst hk
    rw [Function.update_self,Option.some.injEq]
    constructor
    · rintro rfl
      exact ⟨.inl rfl,rfl⟩
    · rintro ⟨rfl | hw,hkw⟩
      · rfl
      · exact absurd hkw (key_ne_of_index_none hm hfree hw)
  · rw [Function.update_of_ne hk,hm]
    constructor
    · rintro ⟨hw,rfl⟩
      exact ⟨.inr hw,rfl⟩
    · rintro ⟨rfl | hw,hkw⟩
      · exact absurd hkw.symm hk
      · exact ⟨hw,hkw⟩

/-- Unmapping the key of a listed element indexes the list without it. -/
theorem index_update_none (hm : ∀ k u, m k=some u ↔ u ∈ l ∧ key u=k) {u : Nat} (hu : u ∈ l)
    {l' : List Nat} (hl' : ∀ w, w ∈ l' ↔ w≠u ∧ w ∈ l) :
    ∀ k w, Function.update m (key u) none k=some w ↔ w ∈ l' ∧ key w=k := by
  intro k w
  rw [hl']
  by_cases hk : k=key u
  · subst hk
    rw [Function.update_self]
    constructor
    · intro h
      cases h
    · rintro ⟨⟨hne,hw⟩,hkw⟩
      exact absurd (index_unique hm hu hw hkw) hne
  · rw [Function.update_of_ne hk,hm]
    constructor
    · rintro ⟨hw,rfl⟩
      exact ⟨⟨fun e => hk (e ▸ rfl),hw⟩,rfl⟩
    · rintro ⟨⟨-,hw⟩,hkw⟩
      exact ⟨hw,hkw⟩

end Index

theorem Linked.nodup {box : Ubox} (h : Linked box) : box.head.Nodup :=
  h.sorted.imp fun hlt e => by
    subst e
    exact List.lt_irrefl _ hlt

/-- A table stays linked when its listed users keep their uids and unames, whatever else the
heap holds. -/
theorem Linked.of_users {box : Ubox} (box' : Ubox) (h : Linked box) (hhead : box'.head=box.head)
    (hnuser : box'.nuser=box.nuser) (hi : box'.ihash=box.ihash) (hn : box'.nhash=box.nhash)
    (ha : box.nalloc ≤ box'.nalloc)
    (hu : ∀ w ∈ box.head, (box'.users w).uid=(box.users w).uid ∧ (box'.users w).uname=(box.users w).uname) :
    Linked box' where
  sorted := by
    rw [hhead]
    exact h.sorted.imp_of_mem fun ha hb hab => by rwa [(hu _ ha).1,(hu _ hb).1]
  ihash uid u := by
    rw [hi,h.ihash,hhead]
    exact and_congr_right fun hu' => by rw [(hu u hu').1]
  nhash uname u := by
    rw [hn,h.nhash,hhead]
    exact and_congr_right fun hu' => by rw [(hu u hu').2]
  nuser := by rw [hnuser,h.nuser,hhead]
  allocated u hu' := Nat.lt_of_lt_of_le (h.allocated u (hhead ▸ hu')) ha

/-- The text's length depends on which users are listed, not on their order. -/
theorem text_length_perm (box box' : Ubox) (hu : box'.users=box.users) (hp : box'.head.Perm box.head) :
    (writeUsersFile box').1.length=(writeUsersFile box).1.length := by
  rw [text_length,text_length,hu]
  exact (hp.map _).sum_eq

/-- A user written outside the list leaves the text as it was. -/
theorem text_length_update_of_not_mem (box box' : Ubox) {u : Nat} (hu : u ∉ box.head) {v : User}
    (hhead : box'.head=box.head) (husers : box'.users=Function.update box.users u v) :
    (writeUsersFile box').1.length=(writeUsersFile box).1.length := by
  rw [text_length,text_length,hhead,husers]
  congr 1
  exact List.map_congr_left fun w hw => by rw [Function.update_of_ne (fun e : w=u => hu (e ▸ hw))]

/-- Rewriting a listed user's leader and members, with `length` moved by what its line gains,
keeps a table consistent. -/
theorem Table.setUser {box : Ubox} (h : Table box) {u : Nat} (hu : u ∈ box.head) (leader : List UInt8)
    (group : List (List UInt8)) (len : Int)
    (hl : len+(box.users u).string.length=box.length+{ box.users u with leader := leader, group := group }.string.length) :
    Table { box with
      users := Function.update box.users u { box.users u with leader := leader, group := group }
      length := len } where
  toLinked := h.toLinked.of_users _ rfl rfl rfl rfl (Nat.le_refl _) fun w _ => by
    by_cases hw : w=u
    · subst hw
      simp
    · simp [Function.update_of_ne hw]
  length := by
    have hs := Replay.sum_map_update_of_mem h.nodup hu box.users { box.users u with leader := leader, group := group }
      fun v => v.string.length+1
    have ht := h.length
    rw [text_length] at ht ⊢
    dsimp only at hl hs ⊢
    omega

/-! ## Linking users in and out keeps the table -/

theorem uboxAddUser_head_perm (box : Ubox) (u : Nat) : (uboxAddUser box u).head.Perm (u::box.head) :=
  List.perm_middle.trans (by rw [List.takeWhile_append_dropWhile])

theorem text_length_uboxAddUser (box : Ubox) (u : Nat) :
    (writeUsersFile (uboxAddUser box u)).1.length=(writeUsersFile box).1.length+(box.users u).string.length+1 := by
  rw [text_length,text_length,((uboxAddUser_head_perm box u).map _).sum_eq,List.map_cons,List.sum_cons]
  simp only [uboxAddUser]
  omega

/-- Linking in an allocated user that is not listed, with a free uid and a free uname. -/
theorem Linked.insert {box : Ubox} (h : Linked box) {u : Nat} (hu : u ∉ box.head) (hlt : u < box.nalloc)
    (hi : box.ihash (box.users u).uid=none) (hn : box.nhash (box.users u).uname=none) :
    Linked (uboxAddUser box u) := by
  have hp := uboxAddUser_head_perm box u
  have hmem : ∀ w, w ∈ (uboxAddUser box u).head ↔ w=u ∨ w ∈ box.head := fun w => by
    rw [hp.mem_iff,List.mem_cons]
  refine ⟨?_,index_update_some h.ihash hi hmem,index_update_some h.nhash hn hmem,?_,?_⟩
  · exact Sorted.pairwise_insert_key h.sorted fun w hw => key_ne_of_index_none h.ihash hi hw
  · rw [hp.length_eq,List.length_cons]
    simp only [uboxAddUser]
    rw [h.nuser]
    push_cast
    rfl
  · intro w hw
    rcases (hmem w).mp hw with rfl | hw
    · exact hlt
    · exact h.allocated w hw

/-- Unlinking a listed user finds it where it is, and takes it, and only it, out of the list. -/
theorem uboxRemUser_eq {box : Ubox} (h : Linked box) {u : Nat} (hu : u ∈ box.head) :
    ∃ pre post, box.head=pre++u::post ∧ uboxRemUser box u=some { box with
      ihash := Function.update box.ihash (box.users u).uid none
      nhash := Function.update box.nhash (box.users u).uname none
      head := pre++post
      length := box.length-(box.users u).uid.length-(box.users u).uname.length-4
      nuser := box.nuser-1 } := by
  obtain ⟨pre,post,hs,hpre,-⟩ := Sorted.eq_append_cons_of_mem h.sorted hu
  -- the users before `u` have smaller uids, so the search passes them and stops at `u`
  have hne : ∀ w ∈ pre, decide ((box.users w).uid≠(box.users u).uid)=true := fun w hw => by
    simpa using fun e => List.lt_irrefl _ (e ▸ hpre w hw)
  refine ⟨pre,post,hs,?_⟩
  unfold uboxRemUser
  rw [hs]
  dsimp only
  rw [List.dropWhile_append_of_pos hne,List.dropWhile_cons_of_neg (by simp),List.takeWhile_append_of_pos hne,
    List.takeWhile_cons_of_neg (by simp),List.append_nil]
  simp

/-- The table a listed user was unlinked from is linked. -/
theorem Linked.erase {box : Ubox} (h : Linked box) {pre post : List Nat} {u : Nat} (hs : box.head=pre++u::post)
    (len : Int) :
    Linked { box with
      ihash := Function.update box.ihash (box.users u).uid none
      nhash := Function.update box.nhash (box.users u).uname none
      head := pre++post
      length := len
      nuser := box.nuser-1 } := by
  have hnd := h.nodup
  rw [hs,List.nodup_middle,List.nodup_cons] at hnd
  have hu : u ∈ box.head := by simp [hs]
  have hmem : ∀ w, w ∈ pre++post ↔ w≠u ∧ w ∈ box.head := fun w => by
    rw [hs]
    constructor
    · intro hw
      exact ⟨fun e => hnd.1 (e ▸ hw),List.mem_append.mpr ((List.mem_append.mp hw).imp_right (List.mem_cons_of_mem _))⟩
    · rintro ⟨hne,hw⟩
      rcases List.mem_append.mp hw with hw | hw
      · exact List.mem_append_left _ hw
      · exact List.mem_append_right _ ((List.mem_cons.mp hw).resolve_left hne)
  refine ⟨?_,index_update_none h.ihash hu hmem,index_update_none h.nhash hu hmem,?_,?_⟩
  · exact (hs ▸ h.sorted).sublist (List.Sublist.append_left (List.sublist_cons_self u post) pre)
  · simp only
    rw [h.nuser,hs,List.length_append,List.length_append,List.length_cons]
    push_cast
    omega
  · intro w hw
    exact h.allocated w ((hmem w).mp hw).2

/-- Adding a user with a new uid and a new uname keeps a table consistent and lists the user. -/
theorem Table.addUser {box : Ubox} (h : Table box) {uid uname : List UInt8} (hi : box.ihash uid=none)
    (hn : box.nhash uname=none) :
    Table (uboxAddUser (userAlloc box uid uname).1 (userAlloc box uid uname).2) ∧
      (userAlloc box uid uname).2 ∈ (uboxAddUser (userAlloc box uid uname).1 (userAlloc box uid uname).2).head := by
  have hfree : box.nalloc ∉ box.head := fun hm => Nat.lt_irrefl _ (h.allocated _ hm)
  have hb : Linked (userAlloc box uid uname).1 :=
    h.toLinked.of_users _ rfl rfl rfl rfl (Nat.le_succ _) fun w hw => by
      simp [userAlloc,Function.update_of_ne (fun e : w=box.nalloc => hfree (e ▸ hw))]
  have hu : (userAlloc box uid uname).1.users (userAlloc box uid uname).2=⟨uid,uname,[],[]⟩ := by
    simp [userAlloc]
  have htext := text_length_update_of_not_mem box (userAlloc box uid uname).1 hfree rfl rfl
  refine ⟨⟨hb.insert hfree (Nat.lt_succ_self _) (by rw [hu]; exact hi) (by rw [hu]; exact hn),?_⟩,?_⟩
  · rw [text_length_uboxAddUser,htext,hu,string_length]
    simp only [uboxAddUser,userAlloc,h.length]
    simp [groupString]
    omega
  · exact (uboxAddUser_head_perm _ _).mem_iff.mpr List.mem_cons_self

/-- Unlinking a listed user, renaming it to a free uname and linking it in again keeps a table
consistent: the line of the user changes by the bytes of its uname. -/
theorem Table.relink {box : Ubox} (h : Table box) {u : Nat} (hu : u ∈ box.head) {p : List UInt8}
    (hp : box.nhash p=none) :
    ∃ box', uboxRemUser box u=some box' ∧
      Table (uboxAddUser { box' with users := Function.update box'.users u { box'.users u with uname := p } } u) ∧
      u ∈ (uboxAddUser { box' with users := Function.update box'.users u { box'.users u with uname := p } } u).head := by
  obtain ⟨pre,post,hs,hrem⟩ := uboxRemUser_eq h.toLinked hu
  refine ⟨_,hrem,?_⟩
  have hnd := h.nodup
  rw [hs,List.nodup_middle,List.nodup_cons] at hnd
  have h1 := h.toLinked.erase hs (box.length-(box.users u).uid.length-(box.users u).uname.length-4)
  set b1 : Ubox := { box with
      ihash := Function.update box.ihash (box.users u).uid none
      nhash := Function.update box.nhash (box.users u).uname none
      head := pre++post
      length := box.length-(box.users u).uid.length-(box.users u).uname.length-4
      nuser := box.nuser-1 } with hb1
  have h2 := h1.of_users { b1 with users := Function.update b1.users u { b1.users u with uname := p } }
    rfl rfl rfl rfl (Nat.le_refl _) fun w hw => by
      simp [Function.update_of_ne (fun e : w=u => hnd.1 (e ▸ hw))]
  have hfree : Function.update box.nhash (box.users u).uname none p=none := by
    by_cases hpo : p=(box.users u).uname
    · rw [hpo,Function.update_self]
    · rw [Function.update_of_ne hpo,hp]
  have h3 := h2.insert hnd.1 (h.allocated u hu) (by simp [b1]) (by simpa [b1] using hfree)
  refine ⟨⟨h3,?_⟩,(uboxAddUser_head_perm _ _).mem_iff.mpr List.mem_cons_self⟩
  have hperm : box.head.Perm (u::(pre++post)) := hs ▸ List.perm_middle
  have ht := h.length
  rw [text_length_perm { box with head := u::(pre++post) } box rfl hperm] at ht
  rw [text_length_uboxAddUser,text_length_update_of_not_mem b1
    { b1 with users := Function.update b1.users u { b1.users u with uname := p } } hnd.1 rfl rfl]
  rw [text_length] at ht ⊢
  simp only [List.map_cons,List.sum_cons] at ht
  simp only [uboxAddUser,b1,Function.update_self]
  rw [string_length] at ht ⊢
  push_cast at ht ⊢
  omega

/-! ## Every edit keeps the table -/

theorem groupAddMember_ok {box box' : Ubox} {g : Nat} {m : List UInt8} (hok : _groupAddMember box g m=.ok box') :
    box'={ box with
      users := Function.update box.users g { box.users g with group := (box.users g).group++[m] }
      length := box.length+m.length+(if 1 < ((box.users g).group++[m]).length then 1 else 0) } := by
  unfold _groupAddMember at hok
  cases hu : _userByUname box m with
  | error e =>
    rw [hu] at hok
    cases hok
  | ok u =>
    rw [hu] at hok
    dsimp only [bind,Except.bind] at hok
    split at hok
    · cases hok
    · cases hok
      rfl

theorem groupRemMember_ok {box box' : Ubox} {g : Nat} {m : List UInt8} (hok : _groupRemMember box g m=.ok box') :
    m ∈ (box.users g).group ∧ box'={ box with
      users := Function.update box.users g { box.users g with group := (box.users g).group.erase m }
      length := box.length-m.length-(if 1 < (box.users g).group.length then 1 else 0) } := by
  unfold _groupRemMember at hok
  cases hu : _userByUname box m with
  | error e =>
    rw [hu] at hok
    cases hok
  | ok u =>
    rw [hu] at hok
    dsimp only [bind,Except.bind] at hok
    split at hok
    · cases hok
    · rename_i hi
      cases hok
      exact ⟨List.idxOf_lt_length_iff.mp (Nat.lt_of_not_le hi),by rw [List.eraseIdx_idxOf_eq_erase]⟩

/-- A member joining a listed user's group keeps the table consistent. -/
theorem groupAddMember_table {box box' : Ubox} (h : Table box) {g : Nat} (hg : g ∈ box.head) {m : List UInt8}
    (hok : _groupAddMember box g m=.ok box') : Table box' ∧ box'.head=box.head := by
  rw [groupAddMember_ok hok]
  refine ⟨h.setUser hg _ _ _ ?_,rfl⟩
  simp only [string_length,groupString_append_length]
  split_ifs <;> push_cast <;> omega

/-- A member leaving a listed user's group keeps the table consistent. -/
theorem groupRemMember_table {box box' : Ubox} (h : Table box) {g : Nat} (hg : g ∈ box.head) {m : List UInt8}
    (hok : _groupRemMember box g m=.ok box') : Table box' ∧ box'.head=box.head := by
  obtain ⟨hm,rfl⟩ := groupRemMember_ok hok
  refine ⟨h.setUser hg _ _ _ ?_,rfl⟩
  have := groupString_erase_length hm
  simp only [string_length]
  split_ifs at this ⊢ <;> push_cast <;> omega

/-- Setting or clearing a listed user's leader keeps the table consistent. -/
theorem setLeader_table {box box' : Ubox} (h : Table box) {u : Nat} (hu : u ∈ box.head) {p : List UInt8}
    (hok : setLeader box u p=.ok box') : Table box' ∧ box'.head=box.head := by
  unfold setLeader at hok
  split_ifs at hok
  have hold : ((if (box.users u).leader≠[] then box.length-(box.users u).leader.length else box.length)+
      (box.users u).leader.length : Int)=box.length := by
    split_ifs with hl
    · omega
    · simp [not_not.mp hl]
  split at hok <;> cases hok <;> refine ⟨h.setUser hu _ _ _ ?_,rfl⟩ <;> simp only [string_length,List.length_nil] <;>
    push_cast <;> omega

/-- The renaming loop, at a listed user, keeps the table consistent. -/
theorem renameRefs_table {box : Ubox} (h : Table box) {up : Nat} (hup : up ∈ box.head) (old p : List UInt8) :
    Table (renameRefs old p ((p.length : Int)-old.length) box up) := by
  refine h.setUser hup _ _ _ ?_
  have hg : (groupString ((box.users up).group.replace old p)).length+(if old ∈ (box.users up).group then old.length else 0)=
      (groupString (box.users up).group).length+(if old ∈ (box.users up).group then p.length else 0) := by
    split_ifs with ho
    · exact groupString_replace_length ho p
    · rw [List.replace_of_not_mem ho]
  simp only [string_length]
  split_ifs at hg ⊢ with h1 h2 <;> (try obtain ⟨-,rfl⟩ := h1) <;> push_cast <;> omega

/-- The whole renaming loop over listed users: the table stays consistent, the list and the unames
where they were. -/
theorem foldl_renameRefs_table (old p : List UInt8) {ups : List Nat} :
    ∀ {box : Ubox}, Table box → (∀ up ∈ ups, up ∈ box.head) →
      Table (ups.foldl (renameRefs old p ((p.length : Int)-old.length)) box) ∧
        (ups.foldl (renameRefs old p ((p.length : Int)-old.length)) box).head=box.head ∧
        (ups.foldl (renameRefs old p ((p.length : Int)-old.length)) box).nhash=box.nhash := by
  induction ups with
  | nil => exact fun h _ => ⟨h,rfl,rfl⟩
  | cons up ups ih =>
    intro box h hups
    obtain ⟨h',hhead,hn⟩ := ih (renameRefs_table h (hups up List.mem_cons_self) old p)
      fun w hw => hups w (List.mem_cons_of_mem _ hw)
    exact ⟨h',hhead,hn⟩

/-- `uname uname %p` on a listed user keeps the table consistent and the user listed. -/
theorem rename_table {box : Ubox} (h : Table box) {uname : List UInt8} {u : Nat} (hu : u ∈ box.head)
    {p : List UInt8} {r : Except UserError (Option Nat)} {box' : Ubox} (hr : rename box uname u p=some (r,box')) :
    Table box' ∧ u ∈ box'.head ∧ ∀ u', r=.ok u' → u'=some u := by
  unfold rename at hr
  dsimp only at hr
  split at hr
  · cases hr
    exact ⟨h,hu,fun _ h => by cases h⟩
  · rename_i hp
    split_ifs at hr
    · cases hr
      exact ⟨h,hu,fun _ h => by cases h⟩
    · obtain ⟨h1,hhead,hn⟩ := foldl_renameRefs_table (box.users u).uname p h fun w hw => hw
      obtain ⟨b,hrem,h2,hu2⟩ := h1.relink (hhead ▸ hu) (hn ▸ hp)
      rw [hrem,Option.map_some,Option.some.injEq,Prod.mk.injEq] at hr
      rw [← hr.2,← hr.1]
      exact ⟨h2,hu2,fun _ h => by cases h; rfl⟩

/-! ## The `uname` command keeps the table -/

/-- What the loop of `uname` knows of the user it edits: listed when there is one, and no user
named `uname` when there is none. -/
def Editing (box : Ubox) (uname : List UInt8) : Option Nat → Prop
  | none => box.nhash uname=none
  | some u => u ∈ box.head

/-- An edit of a listed user that keeps the table and the list keeps the loop going. -/
theorem edited_table {box : Ubox} (h : Table box) {u : Nat} (hu : u ∈ box.head) {e : Except UserError Ubox}
    (he : ∀ b, e=.ok b → Table b ∧ b.head=box.head) (uname : List UInt8) :
    Table (edited u box e).2 ∧ ∀ u', (edited u box e).1=.ok u' → Editing (edited u box e).2 uname u' := by
  cases e with
  | ok b =>
    obtain ⟨hb,hhead⟩ := he b rfl
    refine ⟨hb,fun u' hu' => ?_⟩
    cases hu'
    show u ∈ b.head
    rw [hhead]
    exact hu
  | error err => exact ⟨h,fun _ h => by cases h⟩

/-- The members named by `+` and `-` are looked up before the group changes. -/
theorem lookup_edit_table {box : Ubox} {p : List UInt8} {f : Nat → Except UserError Ubox}
    (hf : ∀ up b, f up=.ok b → Table b ∧ b.head=box.head) :
    ∀ b, (_userByUname box p >>= f)=.ok b → Table b ∧ b.head=box.head := by
  intro b hb
  unfold _userByUname at hb
  split at hb
  · exact hf _ b hb
  · cases hb

/-- A failed argument leaves the table as it was and stops the loop. -/
theorem failed_table {box : Ubox} (h : Table box) (uname : List UInt8) (e : UserError) :
    Table box ∧ ∀ u', (.error e : Except UserError (Option Nat))=.ok u' → Editing box uname u' :=
  ⟨h,fun _ h => by cases h⟩

/-- One argument of `uname` keeps the table consistent, and what the loop knows of the user. -/
theorem unameArg_table {createHome : List UInt8 → Except String Unit} {uname : List UInt8} {box : Ubox}
    (h : Table box) {u : Option Nat} (hu : Editing box uname u) {arg : List UInt8}
    {r : Except UserError (Option Nat)} {box' : Ubox} (hr : unameArg createHome uname box u arg=some (r,box')) :
    Table box' ∧ ∀ u', r=.ok u' → Editing box' uname u' := by
  cases arg with
  | nil => cases hr
  | cons c p =>
    simp only [unameArg] at hr
    -- `%`, `=`, `+` and `-` edit the user there is, and fail at once without one; anything else
    -- adds the user, after a `:` without a home directory
    split_ifs at hr
    · cases u with
      | none =>
        cases hr
        exact failed_table h uname _
      | some u =>
        obtain ⟨h',hu',hr'⟩ := rename_table h hu hr
        exact ⟨h',fun u' e => hr' u' e ▸ hu'⟩
    · cases u with
      | none =>
        cases hr
        exact failed_table h uname _
      | some u =>
        dsimp only at hr
        obtain ⟨rfl,rfl⟩ := Prod.ext_iff.mp (Option.some.inj hr).symm
        exact edited_table h hu (fun b hb => setLeader_table h hu hb) uname
    · cases u with
      | none =>
        cases hr
        exact failed_table h uname _
      | some u =>
        dsimp only at hr
        obtain ⟨rfl,rfl⟩ := Prod.ext_iff.mp (Option.some.inj hr).symm
        exact edited_table h hu (lookup_edit_table fun _ b hb => groupAddMember_table h hu hb) uname
    · cases u with
      | none =>
        cases hr
        exact failed_table h uname _
      | some u =>
        dsimp only at hr
        obtain ⟨rfl,rfl⟩ := Prod.ext_iff.mp (Option.some.inj hr).symm
        exact edited_table h hu (lookup_edit_table fun _ b hb => groupRemMember_table h hu hb) uname
    · cases u with
      | some u =>
        cases hr
        exact failed_table h uname _
      | none =>
        cases hi : box.ihash p with
        | some w =>
          simp only [hi] at hr
          cases hr
          exact failed_table h uname _
        | none =>
          simp only [hi] at hr
          obtain ⟨h',hu'⟩ := h.addUser hi hu
          cases hr
          exact ⟨h',fun _ e => by cases e; exact hu'⟩
    · cases u with
      | some u =>
        cases hr
        exact failed_table h uname _
      | none =>
        cases hi : box.ihash (c::p) with
        | some w =>
          simp only [hi] at hr
          cases hr
          exact failed_table h uname _
        | none =>
          simp only [hi] at hr
          obtain ⟨h',hu'⟩ := h.addUser hi hu
          split at hr <;> cases hr
          · exact ⟨h',fun _ h => by cases h⟩
          · exact ⟨h',fun _ e => by cases e; exact hu'⟩

theorem unameArgs_table {createHome : List UInt8 → Except String Unit} {uname : List UInt8} {args : List (List UInt8)} :
    ∀ {box : Ubox} {u : Option Nat}, Table box → Editing box uname u →
      ∀ {r : Except UserError Unit} {box' : Ubox}, unameArgs createHome uname box u args=some (r,box') → Table box' := by
  induction args with
  | nil =>
    intro box u h _ r box' hr
    cases hr
    exact h
  | cons arg args ih =>
    intro box u h hu r box' hr
    unfold unameArgs at hr
    split at hr
    · cases hr
    · rename_i e b harg
      cases hr
      exact (unameArg_table h hu harg).1
    · rename_i u' b harg
      obtain ⟨hb,hu'⟩ := unameArg_table h hu harg
      exact ih hb (hu' u' rfl) hr

/-- Every `uname` command that does not panic leaves a consistent table consistent, whether it
succeeds or stops at an error. -/
theorem cmdUname_table {createHome : List UInt8 → Except String Unit} {dflag : Bool} {box : Ubox} (h : Table box)
    {argv : List (List UInt8)} {r : Except UserError Unit} {box' : Ubox}
    (hr : cmdUname createHome dflag box argv=some (r,box')) : Table box' := by
  match argv, hr with
  | [], hr =>
    cases hr
    exact h
  | [_], hr =>
    cases hr
    exact h
  | uname::arg::args, hr =>
    have hu : Editing box uname (box.nhash uname) := by
      cases hn : box.nhash uname with
      | none => exact hn
      | some w => exact ((h.nhash uname w).mp hn).1
    exact unameArgs_table h hu hr

/-! ## `uboxInit` builds a consistent table -/

/-- Where the first pass of `uboxInit` stands: a consistent table of users without leaders, and the
lines kept so far, each of four fields naming a listed user, no two the same. -/
structure Fresh (box : Ubox) (valid : List (List UInt8)) : Prop where
  table : Table box
  leaderless : ∀ u ∈ box.head, (box.users u).leader=[]
  fields : ∀ line ∈ valid, ∃ uid uname l m, line.splitOn ':'.toUInt8=[uid,uname,l,m] ∧ (box.nhash uname).isSome
  distinct : (valid.map fun line => (line.splitOn ':'.toUInt8)[1]?).Nodup

/-- Where the second pass of `uboxInit` stands: a consistent table, and the lines still to read,
each of four fields naming a listed user that has no leader yet, no two the same. -/
structure Pending (box : Ubox) (lines : List (List UInt8)) : Prop where
  table : Table box
  fields : ∀ line ∈ lines, ∃ uid uname l m u, line.splitOn ':'.toUInt8=[uid,uname,l,m] ∧ box.nhash uname=some u ∧
    (box.users u).leader=[]
  distinct : (lines.map fun line => (line.splitOn ':'.toUInt8)[1]?).Nodup

theorem emptyBox_fresh : Fresh emptyBox [] where
  table := ⟨⟨List.Pairwise.nil,by simp [emptyBox],by simp [emptyBox],rfl,by simp [emptyBox]⟩,rfl⟩
  leaderless := by simp [emptyBox]
  fields := by simp
  distinct := List.nodup_nil

theorem Fresh.pending {box : Ubox} {valid : List (List UInt8)} (h : Fresh box valid) : Pending box valid where
  table := h.table
  fields line hl := by
    obtain ⟨uid,uname,l,m,hs,hn⟩ := h.fields line hl
    obtain ⟨u,hu⟩ := Option.isSome_iff_exists.mp hn
    exact ⟨uid,uname,l,m,u,hs,hu,h.leaderless u ((h.table.nhash uname u).mp hu).1⟩
  distinct := h.distinct

/-- A line of the first pass keeps its invariant. -/
theorem Fresh.step {acc : Ubox × List (List UInt8)} (h : Fresh acc.1 acc.2) (line : List UInt8) :
    Fresh (firstPass acc line).1 (firstPass acc line).2 := by
  unfold firstPass
  split
  · rename_i uid uname l m hs
    split_ifs with hc
    · exact h
    · simp only [not_or,Bool.not_eq_true',Bool.not_eq_false,Option.not_isSome_iff_eq_none] at hc
      obtain ⟨-,-,-,hi,-,hn⟩ := hc
      obtain ⟨ht,hu⟩ := h.table.addUser hi hn
      have hfree : acc.1.nalloc ∉ acc.1.head := fun hm => Nat.lt_irrefl _ (h.table.allocated _ hm)
      have hold : ∀ w ∈ acc.1.head, (uboxAddUser (userAlloc acc.1 uid uname).1 (userAlloc acc.1 uid uname).2).users w=
          acc.1.users w := fun w hw => by
        simp [uboxAddUser,userAlloc,Function.update_of_ne (fun e : w=acc.1.nalloc => hfree (e ▸ hw))]
      have hmem : ∀ w, w ∈ (uboxAddUser (userAlloc acc.1 uid uname).1 (userAlloc acc.1 uid uname).2).head ↔
          w=acc.1.nalloc ∨ w ∈ acc.1.head := fun w => by
        rw [(uboxAddUser_head_perm _ _).mem_iff,List.mem_cons]
        rfl
      refine ⟨ht,fun w hw => ?_,fun line' hl => ?_,?_⟩
      · rcases (hmem w).mp hw with rfl | hw
        · simp [uboxAddUser,userAlloc]
        · rw [hold w hw]
          exact h.leaderless w hw
      · rcases List.mem_append.mp hl with hl | hl
        · obtain ⟨uid',uname',l',m',hs',hn'⟩ := h.fields line' hl
          obtain ⟨w,hw⟩ := Option.isSome_iff_exists.mp hn'
          have hw' := (h.table.nhash uname' w).mp hw
          refine ⟨uid',uname',l',m',hs',Option.isSome_iff_exists.mpr ⟨w,(ht.nhash uname' w).mpr ⟨(hmem w).mpr (.inr hw'.1),?_⟩⟩⟩
          rw [hold w hw'.1]
          exact hw'.2
        · rw [List.mem_singleton] at hl
          subst hl
          refine ⟨uid,uname,l,m,hs,Option.isSome_iff_exists.mpr ⟨acc.1.nalloc,(ht.nhash uname _).mpr ⟨hu,?_⟩⟩⟩
          simp [uboxAddUser,userAlloc]
      · rw [List.map_append,List.nodup_append]
        refine ⟨h.distinct,List.nodup_singleton _,fun a ha b hb => ?_⟩
        rw [List.map_singleton,List.mem_singleton,hs] at hb
        obtain ⟨line',hl,rfl⟩ := List.mem_map.mp ha
        obtain ⟨uid',uname',l',m',hs',hn'⟩ := h.fields line' hl
        rw [hs',hb]
        intro e
        simp only [List.getElem?_cons_succ,List.getElem?_cons_zero,Option.some.injEq] at e
        rw [e,hn] at hn'
        cases hn'
  · exact h

theorem Fresh.run (lines : List (List UInt8)) :
    ∀ (acc : Ubox × List (List UInt8)), Fresh acc.1 acc.2 →
      Fresh (lines.foldl firstPass acc).1 (lines.foldl firstPass acc).2 := by
  induction lines with
  | nil => exact fun _ h => h
  | cons line lines ih => exact fun _ h => ih _ (h.step line)

theorem Pending.tail {box : Ubox} {line : List UInt8} {lines : List (List UInt8)} (h : Pending box (line::lines)) :
    Pending box lines :=
  ⟨h.table,fun l hl => h.fields l (List.mem_cons_of_mem _ hl),(List.nodup_cons.mp h.distinct).2⟩

/-- A member of the second pass keeps its invariant: only the group of `g` changes. -/
theorem Pending.member {box : Ubox} {lines : List (List UInt8)} (h : Pending box lines) {g : Nat}
    (hg : g ∈ box.head) (m : List UInt8) : Pending (addMember g box m) lines ∧ (addMember g box m).head=box.head := by
  unfold addMember
  split
  · rename_i b hok
    obtain ⟨ht,hhead⟩ := groupAddMember_table h.table hg hok
    rw [groupAddMember_ok hok] at ht ⊢
    refine ⟨⟨ht,fun line hl => ?_,h.distinct⟩,rfl⟩
    obtain ⟨uid,uname,l,m',u,hs,hu,hl'⟩ := h.fields line hl
    refine ⟨uid,uname,l,m',u,hs,hu,?_⟩
    by_cases hug : u=g
    · subst hug
      simpa using hl'
    · simpa [Function.update_of_ne hug] using hl'
  · exact ⟨h,rfl⟩

theorem Pending.members {g : Nat} (ms : List (List UInt8)) :
    ∀ {box : Ubox} {lines : List (List UInt8)}, Pending box lines → g ∈ box.head →
      Pending (ms.foldl (addMember g) box) lines := by
  induction ms with
  | nil => exact fun h _ => h
  | cons m ms ih =>
    intro box lines h hg
    obtain ⟨h',hhead⟩ := h.member hg m
    exact ih h' (hhead ▸ hg)

/-- A line of the second pass goes through and keeps its invariant: its user gets its leader, whose
bytes join `length`, and its members; no other line's user changes. -/
theorem Pending.step {box : Ubox} {line : List UInt8} {lines : List (List UInt8)}
    (h : Pending box (line::lines)) : ∃ box', secondPass box line=some box' ∧ Pending box' lines := by
  obtain ⟨uid,uname,l,m,g,hs,hg,hlead⟩ := h.fields line List.mem_cons_self
  have hgl := ((h.table.nhash uname g).mp hg)
  have hother : ∀ line' ∈ lines, ∃ uid' uname' l' m' u, line'.splitOn ':'.toUInt8=[uid',uname',l',m'] ∧
      box.nhash uname'=some u ∧ (box.users u).leader=[] ∧ u≠g := by
    intro line' hl
    obtain ⟨uid',uname',l',m',u,hs',hu,hul⟩ := h.fields line' (List.mem_cons_of_mem _ hl)
    refine ⟨uid',uname',l',m',u,hs',hu,hul,fun hug => ?_⟩
    have hn := (List.nodup_cons.mp h.distinct).1
    apply hn
    refine List.mem_map.mpr ⟨line',hl,?_⟩
    simp only [hs,hs',List.getElem?_cons_succ,List.getElem?_cons_zero,Option.some.injEq]
    rw [← ((h.table.nhash uname' u).mp hu).2,hug,hgl.2]
  obtain ⟨box1,hb1,hp1⟩ : ∃ box1, box1=(if l=[] then box else
      let ld := match box.nhash l with
        | some u => (box.users u).uname
        | none => (box.users g).uname
      { box with users := Function.update box.users g { box.users g with leader := ld }, length := box.length+ld.length }) ∧
      Pending box1 lines ∧ box1.head=box.head := by
    refine ⟨_,rfl,?_⟩
    split_ifs
    · exact ⟨h.tail,rfl⟩
    · refine ⟨⟨h.table.setUser hgl.1 _ _ _ ?_,fun line' hl => ?_,h.tail.distinct⟩,rfl⟩
      · simp only [string_length,hlead,List.length_nil]
        push_cast
        omega
      · obtain ⟨uid',uname',l',m',u,hs',hu,hul,hug⟩ := hother line' hl
        exact ⟨uid',uname',l',m',u,hs',hu,by simpa [Function.update_of_ne hug] using hul⟩
  refine ⟨if m=[] then box1 else (m.splitOn ','.toUInt8).foldl (addMember g) box1,?_,?_⟩
  · unfold secondPass
    simp only [hs,List.getElem?_cons_succ,List.getElem?_cons_zero,Option.bind_eq_bind,Option.bind_some,hg,hb1]
    rfl
  · split_ifs
    · exact hp1.1
    · exact hp1.1.members _ (hp1.2 ▸ hgl.1)

theorem Pending.run (lines : List (List UInt8)) :
    ∀ {box : Ubox}, Pending box lines → ∃ box', lines.foldlM secondPass box=some box' ∧ Table box' := by
  induction lines with
  | nil => exact fun h => ⟨_,rfl,h.table⟩
  | cons line lines ih =>
    intro box h
    obtain ⟨box1,h1,hp1⟩ := h.step
    obtain ⟨box2,h2,ht2⟩ := ih hp1
    exact ⟨box2,by rw [List.foldlM_cons,h1,Option.bind_eq_bind,Option.bind_some,h2],ht2⟩

/-- Every table `uboxInit` accepts is consistent. -/
theorem uboxInit_table {users : List UInt8} {box : Ubox} (h : uboxInit users=some (.ok box)) : Table box := by
  unfold uboxInit at h
  cases hs : stripUsers users with
  | none =>
    rw [hs] at h
    cases h
  | some text =>
    have hf := Fresh.run (text.splitOn '\n'.toUInt8) (emptyBox,[]) emptyBox_fresh
    obtain ⟨box1,h1,ht1⟩ := hf.pending.run _
    simp only [hs,h1,Option.bind_eq_bind,Option.bind_some,Option.pure_def,Option.some.injEq] at h
    cases hc : checkMandatory box1 usersMandatory with
    | error e =>
      rw [hc] at h
      cases h
    | ok u =>
      rw [hc] at h
      cases h
      exact ht1

/-! ## The names a table read from text holds -/

/-- Every uid and uname of the table passes `validUserName`. -/
def ValidNames (box : Ubox) : Prop :=
  ∀ u ∈ box.head, validUserName (box.users u).uid=true ∧ validUserName (box.users u).uname=true

/-- The list and every user's uid and uname are as in `box`. -/
def SameNames (box box' : Ubox) : Prop :=
  box'.head=box.head ∧ ∀ u, (box'.users u).uid=(box.users u).uid ∧ (box'.users u).uname=(box.users u).uname

theorem SameNames.refl (box : Ubox) : SameNames box box :=
  ⟨rfl,fun _ => ⟨rfl,rfl⟩⟩

theorem SameNames.trans {b₁ b₂ b₃ : Ubox} (h₁ : SameNames b₁ b₂) (h₂ : SameNames b₂ b₃) : SameNames b₁ b₃ :=
  ⟨h₂.1.trans h₁.1,fun u => ⟨(h₂.2 u).1.trans (h₁.2 u).1,(h₂.2 u).2.trans (h₁.2 u).2⟩⟩

theorem SameNames.validNames {box box' : Ubox} (h : SameNames box box') (hv : ValidNames box) : ValidNames box' := by
  intro u hu
  rw [(h.2 u).1,(h.2 u).2]
  exact hv u (h.1 ▸ hu)

/-- Changing one user's leader or group keeps the names. -/
theorem sameNames_update (box : Ubox) (g : Nat) (v : User) (hv : v.uid=(box.users g).uid ∧ v.uname=(box.users g).uname)
    (len : Int) : SameNames box { box with users := Function.update box.users g v, length := len } := by
  refine ⟨rfl,fun u => ?_⟩
  by_cases hu : u=g
  · subst hu
    simpa using hv
  · simp [Function.update_of_ne hu]

/-- The first pass adds only users whose uid and uname pass `validUserName`. -/
theorem ValidNames.step {acc : Ubox × List (List UInt8)} (hf : Fresh acc.1 acc.2) (hv : ValidNames acc.1)
    (line : List UInt8) : ValidNames (firstPass acc line).1 := by
  unfold firstPass
  split
  · rename_i uid uname l m hs
    split_ifs with hc
    · exact hv
    · simp only [not_or,Bool.not_eq_true',Bool.not_eq_false,Option.not_isSome_iff_eq_none] at hc
      obtain ⟨-,-,hvu,-,hvn,-⟩ := hc
      have hfree : acc.1.nalloc ∉ acc.1.head := fun hm => Nat.lt_irrefl _ (hf.table.allocated _ hm)
      intro w hw
      rcases List.mem_cons.mp ((uboxAddUser_head_perm _ _).mem_iff.mp hw) with hw | hw
      · subst hw
        simp [uboxAddUser,userAlloc,hvu,hvn]
      · have hne : w≠acc.1.nalloc := fun e => hfree (e ▸ hw)
        simpa [uboxAddUser,userAlloc,Function.update_of_ne hne] using hv w hw
  · exact hv

theorem ValidNames.run (lines : List (List UInt8)) :
    ∀ (acc : Ubox × List (List UInt8)), Fresh acc.1 acc.2 → ValidNames acc.1 →
      ValidNames (lines.foldl firstPass acc).1 := by
  induction lines with
  | nil => exact fun _ _ hv => hv
  | cons line lines ih => exact fun acc hf hv => ih _ (hf.step line) (hv.step hf line)

theorem sameNames_addMember (g : Nat) (box : Ubox) (m : List UInt8) : SameNames box (addMember g box m) := by
  unfold addMember
  split
  · rename_i box' hok
    rw [groupAddMember_ok hok]
    apply sameNames_update
    exact ⟨rfl,rfl⟩
  · exact SameNames.refl box

theorem sameNames_members (g : Nat) (ms : List (List UInt8)) :
    ∀ box : Ubox, SameNames box (ms.foldl (addMember g) box) := by
  induction ms with
  | nil => exact SameNames.refl
  | cons m ms ih => exact fun box => (sameNames_addMember g box m).trans (ih _)

/-- The second pass sets leaders and groups only. -/
theorem sameNames_secondPass {box box' : Ubox} {line : List UInt8} (h : secondPass box line=some box') :
    SameNames box box' := by
  unfold secondPass at h
  simp only [Option.bind_eq_bind,Option.bind_eq_some_iff,Option.pure_def,Option.some.injEq] at h
  obtain ⟨-,-,-,-,-,-,g,-,rfl⟩ := h
  have hl : ∀ v : User, v.uid=(box.users g).uid ∧ v.uname=(box.users g).uname → ∀ len : Int,
      SameNames box { box with users := Function.update box.users g v, length := len } :=
    sameNames_update box g
  split_ifs
  · exact SameNames.refl box
  · refine hl _ ?_ _
    exact ⟨rfl,rfl⟩
  · exact sameNames_members g _ box
  · refine SameNames.trans (hl _ ?_ _) (sameNames_members g _ _)
    exact ⟨rfl,rfl⟩

theorem sameNames_foldlM_secondPass (lines : List (List UInt8)) :
    ∀ {box box' : Ubox}, lines.foldlM secondPass box=some box' → SameNames box box' := by
  induction lines with
  | nil =>
    intro box box' h
    cases h
    exact SameNames.refl box
  | cons line lines ih =>
    intro box box' h
    rw [List.foldlM_cons,Option.bind_eq_bind,Option.bind_eq_some_iff] at h
    obtain ⟨box1,h1,h2⟩ := h
    exact (sameNames_secondPass h1).trans (ih h2)

/-- Every uid and uname of a table `uboxInit` builds passes `validUserName`: the first pass skips
the lines whose names do not. -/
theorem uboxInit_validNames {users : List UInt8} {box : Ubox} (h : uboxInit users=some (.ok box)) :
    ValidNames box := by
  unfold uboxInit at h
  cases hs : stripUsers users with
  | none =>
    rw [hs] at h
    cases h
  | some text =>
    have hf := Fresh.run (text.splitOn '\n'.toUInt8) (emptyBox,[]) emptyBox_fresh
    have hv := ValidNames.run (text.splitOn '\n'.toUInt8) (emptyBox,[]) emptyBox_fresh (by simp [ValidNames,emptyBox])
    obtain ⟨box1,h1,-⟩ := hf.pending.run _
    simp only [hs,h1,Option.bind_eq_bind,Option.bind_some,Option.pure_def,Option.some.injEq] at h
    cases hc : checkMandatory box1 usersMandatory with
    | error e =>
      rw [hc] at h
      cases h
    | ok u =>
      rw [hc] at h
      cases h
      exact (sameNames_foldlM_secondPass _ h1).validNames hv

/-- A table whose names are valid has no user of an invalid uname. -/
theorem ValidNames.nhash_eq_none {box : Ubox} (ht : Table box) (hv : ValidNames box) {n : List UInt8}
    (hn : validUserName n=false) : box.nhash n=none := by
  cases hu : box.nhash n with
  | none => rfl
  | some u =>
    obtain ⟨hu,he⟩ := (ht.nhash n u).mp hu
    have := (hv u hu).2
    rw [he,hn] at this
    cases this

/-- A table whose names are valid has no user of an invalid uid. -/
theorem ValidNames.ihash_eq_none {box : Ubox} (ht : Table box) (hv : ValidNames box) {n : List UInt8}
    (hn : validUserName n=false) : box.ihash n=none := by
  cases hu : box.ihash n with
  | none => rfl
  | some u =>
    obtain ⟨hu,he⟩ := (ht.ihash n u).mp hu
    have := (hv u hu).1
    rw [he,hn] at this
    cases this

/-- `uname name :uid` adds the user whenever neither name is taken: nothing checks the names. -/
theorem cmdUname_adds (createHome : List UInt8 → Except String Unit) (dflag : Bool) {box : Ubox} (h : Table box)
    {uname uid : List UInt8} (hn : box.nhash uname=none) (hi : box.ihash uid=none) :
    ∃ box', cmdUname createHome dflag box [uname,':'.toUInt8::uid]=some (.ok (),box') ∧
      ∃ u ∈ box'.head, (box'.users u).uid=uid ∧ (box'.users u).uname=uname := by
  obtain ⟨-,hu⟩ := h.addUser hi hn
  refine ⟨_,?_,_,hu,by simp [uboxAddUser,userAlloc]⟩
  have h1 : ¬ ':'.toUInt8 = '%'.toUInt8 := by decide
  have h2 : ¬ ':'.toUInt8 = '='.toUInt8 := by decide
  have h3 : ¬ ':'.toUInt8 = '+'.toUInt8 := by decide
  have h4 : ¬ ':'.toUInt8 = '-'.toUInt8 := by decide
  simp [cmdUname,unameArgs,unameArg,hn,hi,h1,h2,h3,h4]

/-! ## When `uboxInit` panics -/

/-- The second pass never reaches `panic("impossible")`: `uboxInit` panics only when the stripping
loop keeps no rune, at `buf[len(buf)-1]`. -/
theorem uboxInit_eq_none_iff (users : List UInt8) : uboxInit users=none ↔ stripUsers users=none := by
  unfold uboxInit
  cases hs : stripUsers users with
  | none => simp
  | some text =>
    obtain ⟨box,hb,-⟩ := (Fresh.run (text.splitOn '\n'.toUInt8) (emptyBox,[]) emptyBox_fresh).pending.run _
    simp [hb]

/-- Bytes below `0x80` are runes of their own. -/
theorem runes_of_lt {bs : List UInt8} (h : ∀ b ∈ bs, b < 0x80) : runes bs=bs.map fun b => [b] := by
  induction bs with
  | nil => simp [runes]
  | cons b bs ih =>
    rw [runes,if_pos (h b List.mem_cons_self),ih fun c hc => h c (List.mem_cons_of_mem b hc)]
    rfl

/-- Blanks and newlines keep a stripping loop that has kept nothing at its start: nothing kept, no
newline pending, the line blank. -/
theorem foldl_stripRune_blank {cs : List UInt8}
    (h : ∀ c ∈ cs, c = ' '.toUInt8 ∨ c = '\t'.toUInt8 ∨ c = '\r'.toUInt8 ∨ c = '\n'.toUInt8) :
    ∀ s : Strip, s.buf=[] → s.newline=false → s.blank=true →
      ((cs.map fun b => [b]).foldl stripRune s).buf=[] := by
  induction cs with
  | nil => exact fun s hb _ _ => hb
  | cons c cs ih =>
    intro s hb hn hl
    -- a blank is skipped, and a newline on a blank line only ends a comment
    have hc : stripRune s [c]=s ∨ stripRune s [c]={ s with comment := false } := by
      unfold stripRune
      rcases h c List.mem_cons_self with rfl | rfl | rfl | rfl
      · exact .inl (if_pos (by decide))
      · exact .inl (if_pos (by decide))
      · exact .inl (if_pos (by decide))
      · rw [if_neg (by decide),if_pos (by decide),if_pos hl]
        exact .inr rfl
    have ih' := ih fun d hd => h d (List.mem_cons_of_mem c hd)
    rcases hc with hc | hc <;> simp only [List.map_cons,List.foldl_cons,hc] <;> exact ih' _ hb hn hl

/-- On a text of blanks and newlines only, the empty one included, `uboxInit` panics. -/
theorem uboxInit_blank_panics (users : List UInt8)
    (h : ∀ c ∈ users, c = ' '.toUInt8 ∨ c = '\t'.toUInt8 ∨ c = '\r'.toUInt8 ∨ c = '\n'.toUInt8) : uboxInit users=none := by
  have hr : runes users=users.map fun b => [b] :=
    runes_of_lt fun b hb => by rcases h b hb with rfl | rfl | rfl | rfl <;> decide
  have hs := foldl_stripRune_blank h ⟨[],false,false,true⟩ rfl rfl rfl
  rw [uboxInit_eq_none_iff]
  simp [stripUsers,hr,hs]

theorem uboxInit_blank_panics_newlines :
    (∀ c ∈ ascii " \t\n\r\n", c = ' '.toUInt8 ∨ c = '\t'.toUInt8 ∨ c = '\r'.toUInt8 ∨ c = '\n'.toUInt8) ∧
      uboxInit (ascii " \t\n\r\n")=none :=
  ⟨by decide +kernel,uboxInit_blank_panics _ (by decide +kernel)⟩

/-! ## Every table the server holds -/

/-- The tables the server holds: one that `uboxInit` accepted (at start-up, or by `users -d` or
`users -r`), then edited by `uname` commands, each of which ran to its end or to an error. -/
inductive Reachable : Ubox → Prop
  | init {users : List UInt8} {box : Ubox} : uboxInit users=some (.ok box) → Reachable box
  | uname {box box' : Ubox} {createHome : List UInt8 → Except String Unit} {dflag : Bool}
      {argv : List (List UInt8)} {r : Except UserError Unit} :
      Reachable box → cmdUname createHome dflag box argv=some (r,box') → Reachable box'

theorem reachable_table {box : Ubox} (h : Reachable box) : Table box := by
  induction h with
  | init h => exact uboxInit_table h
  | uname _ hr ih => exact cmdUname_table ih hr

theorem users_length_invariant (box : Ubox) (h : Reachable box) :
    box.length=((box.head.map fun u => (box.users u).string.length+1).sum : Nat) ∧ box.nuser=box.head.length ∧
      box.head.Pairwise (fun u v => (box.users u).uid < (box.users v).uid) ∧
      (∀ uid u, box.ihash uid=some u ↔ u ∈ box.head ∧ (box.users u).uid=uid) ∧
      (∀ uname u, box.nhash uname=some u ↔ u ∈ box.head ∧ (box.users u).uname=uname) ∧
      (writeUsersFile box).2=(writeUsersFile box).1.length := by
  have ht := reachable_table h
  refine ⟨?_,ht.nuser,ht.sorted,ht.ihash,ht.nhash,ht.length⟩
  rw [ht.length,text_length]

/-- The default table is accepted. -/
theorem usersDefault_ok : ∃ box, uboxInit usersDefault=some (.ok box) := by
  have hd : (uboxInit usersDefault).any Except.toBool=true := by decide +kernel
  obtain ⟨r,hr,hok⟩ := (Option.any_eq_true _ _).mp hd
  cases r with
  | error e => cases hok
  | ok box => exact ⟨box,hr⟩

theorem users_length_invariant_default :
    ∃ box, uboxInit usersDefault=some (.ok box) ∧
      (box.length=((box.head.map fun u => (box.users u).string.length+1).sum : Nat) ∧ box.nuser=box.head.length ∧
        box.head.Pairwise (fun u v => (box.users u).uid < (box.users v).uid) ∧
        (∀ uid u, box.ihash uid=some u ↔ u ∈ box.head ∧ (box.users u).uid=uid) ∧
        (∀ uname u, box.nhash uname=some u ↔ u ∈ box.head ∧ (box.users u).uname=uname) ∧
        (writeUsersFile box).2=(writeUsersFile box).1.length) := by
  obtain ⟨box,hbox⟩ := usersDefault_ok
  exact ⟨box,hbox,users_length_invariant box (.init hbox)⟩

/-- `uname a:b :a:b` on the default table adds a user whose line `a:b:a:b::` splits into six fields. Read
back, that line is skipped: no user of the table `uboxInit` builds from the text has that uname. -/
theorem users_file_round_trip_loses_user :
    ∃ box, Reachable box ∧ (∃ u ∈ box.head, (box.users u).uname=ascii "a:b") ∧
      ∀ box', uboxInit (writeUsersFile box).1=some (.ok box') → ∀ v ∈ box'.head, (box'.users v).uname≠ascii "a:b" := by
  obtain ⟨b0,hb0⟩ := usersDefault_ok
  have ht := uboxInit_table hb0
  have hv := uboxInit_validNames hb0
  have hbad : validUserName (ascii "a:b")=false := by decide
  obtain ⟨b1,hc,u,hu,-,hname⟩ :=
    cmdUname_adds (fun _ => .ok ()) false ht (hv.nhash_eq_none ht hbad) (hv.ihash_eq_none ht hbad)
  refine ⟨b1,.uname (.init hb0) hc,⟨u,hu,hname⟩,fun box' h' v hv' he => ?_⟩
  have := (uboxInit_validNames h' v hv').2
  rw [he,hbad] at this
  cases this

end Fossil.NineP
