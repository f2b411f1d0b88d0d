import Fossil.NineP.Wire
import Fossil.NineP.Fcall

/-!
# 9P messages on the wire, and the connection's reader

`plan9.Fcall` holds the fields of every message type; `(*Fcall).Bytes` writes a message as its
32-bit size, its type, its tag and the fields of its type (`pbody`), and refuses a type it does
not know, a walk of more than `MAXWELEM` names or qids; writing a string of `2^16` bytes or more
panics. `UnmarshalFcall` checks the size against the rest, reads the type and the tag, reads the
fields of the type (`gbody`) and refuses bytes left over; every panic of a reader, an unknown
type, a walk too long or a data or stat count that does not match the rest is recovered as
`malformed Fcall`. `ReadFcall` reads the size from the connection, then the rest of the message,
and hands both to `UnmarshalFcall`; `msgRead` (`9proc.go`) reads messages until end of stream,
drops those it cannot read and hands the others on, and at the end of the stream hands on a
`Tversion` of `9PEoF`, which makes the server close the connection.

The fields a message carries are those of its type (`Fcall.onWire`); they fit when every string
and stat record fits its 16-bit count, a walk has at most `MAXWELEM` names or qids, and the data
fit the 32-bit size (`Fcall.Fits`).
-/

namespace Fossil.Plan9

open Decode
open Fossil.NineP (decodable ascii)

deriving instance DecidableEq for Qid

/-- `plan9.Fcall`, all fields zero as `new(Fcall)` makes it. -/
structure Fcall where
  type : UInt8 := 0
  fid : UInt32 := 0
  tag : UInt16 := 0
  msize : UInt32 := 0
  version : List UInt8 := []
  oldtag : UInt16 := 0
  ename : List UInt8 := []
  qid : Qid := ⟨0,0,0⟩
  iounit : UInt32 := 0
  aqid : Qid := ⟨0,0,0⟩
  afid : UInt32 := 0
  uname : List UInt8 := []
  aname : List UInt8 := []
  perm : UInt32 := 0
  name : List UInt8 := []
  mode : UInt8 := 0
  newfid : UInt32 := 0
  wname : List (List UInt8) := []
  wqid : List Qid := []
  offset : UInt64 := 0
  count : UInt32 := 0
  data : List UInt8 := []
  stat : List UInt8 := []
  deriving DecidableEq

/-- Names or qids a walk may carry. -/
def MAXWELEM : Nat := 16

/-- The fields `Bytes` writes after the type and the tag: the `switch` on the type. `none` is a
panic of `pstring`. -/
def pbody (f : Fcall) : Option (Except String (List UInt8)) :=
  match f.type with
  -- Tversion, Rversion
  | 100 | 101 => (pstring f.version).map fun v => .ok (pbit32 f.msize++v)
  -- Tflush
  | 108 => some (.ok (pbit16 f.oldtag))
  -- Tauth
  | 102 => do
    let u ← pstring f.uname
    let a ← pstring f.aname
    pure (.ok (pbit32 f.afid++u++a))
  -- Tattach
  | 104 => do
    let u ← pstring f.uname
    let a ← pstring f.aname
    pure (.ok (pbit32 f.fid++pbit32 f.afid++u++a))
  -- Twalk
  | 110 =>
    if MAXWELEM < f.wname.length then some (.error "too many names in walk")
    else (encAll pstring f.wname).map fun ns => .ok (pbit32 f.fid++pbit32 f.newfid++pbit16 f.wname.length.toUInt16++ns)
  -- Topen
  | 112 => some (.ok (pbit32 f.fid++pbit8 f.mode))
  -- Tcreate
  | 114 => (pstring f.name).map fun nm => .ok (pbit32 f.fid++nm++pperm f.perm++pbit8 f.mode)
  -- Tread
  | 116 => some (.ok (pbit32 f.fid++pbit64 f.offset++pbit32 f.count))
  -- Twrite: the count written is the length of the data
  | 118 => some (.ok (pbit32 f.fid++pbit64 f.offset++pbit32 f.data.length.toUInt32++f.data))
  -- Tclunk, Tremove, Tstat
  | 120 | 122 | 124 => some (.ok (pbit32 f.fid))
  -- Twstat
  | 126 => some (.ok (pbit32 f.fid++pbit16 f.stat.length.toUInt16++f.stat))
  -- Rerror
  | 107 => (pstring f.ename).map .ok
  -- Rflush, Rclunk, Rremove, Rwstat
  | 109 | 121 | 123 | 127 => some (.ok [])
  -- Rauth
  | 103 => some (.ok (pqid f.aqid))
  -- Rattach
  | 105 => some (.ok (pqid f.qid))
  -- Rwalk
  | 111 =>
    if MAXWELEM < f.wqid.length then some (.error "too many qid in walk")
    else (encAll (fun q => some (pqid q)) f.wqid).map fun qs => .ok (pbit16 f.wqid.length.toUInt16++qs)
  -- Ropen, Rcreate
  | 113 | 115 => some (.ok (pqid f.qid++pbit32 f.iounit))
  -- Rread
  | 117 => some (.ok (pbit32 f.data.length.toUInt32++f.data))
  -- Rwrite
  | 119 => some (.ok (pbit32 f.count))
  -- Rstat
  | 125 => some (.ok (pbit16 f.stat.length.toUInt16++f.stat))
  | _ => some (.error "invalid type")

/-- `(*Fcall).Bytes`: the size of the whole message, then the type, the tag and the fields. -/
def Fcall.bytes (f : Fcall) : Option (Except String (List UInt8)) :=
  (pbody f).map fun r => r.map fun body =>
    let b := pbit8 f.type++pbit16 f.tag++body
    pbit32 (b.length+4).toUInt32++b

/-- The `switch` of `UnmarshalFcall`: the fields of the type of `f` read into it. The data of a
`Twrite` or an `Rread` and the stat record of a `Twstat` or an `Rstat` are the rest of the message,
which must be as long as their count says. -/
def gbody (f : Fcall) (b : List UInt8) : Option (Fcall × List UInt8) :=
  match f.type with
  -- Tversion, Rversion
  | 100 | 101 => do
    let (msize,b) ← gbit32 b
    let (version,b) ← gstring b
    pure ({ f with msize, version },b)
  -- Tflush
  | 108 => do
    let (oldtag,b) ← gbit16 b
    pure ({ f with oldtag },b)
  -- Tauth
  | 102 => do
    let (afid,b) ← gbit32 b
    let (uname,b) ← gstring b
    let (aname,b) ← gstring b
    pure ({ f with afid, uname, aname },b)
  -- Tattach
  | 104 => do
    let (fid,b) ← gbit32 b
    let (afid,b) ← gbit32 b
    let (uname,b) ← gstring b
    let (aname,b) ← gstring b
    pure ({ f with fid, afid, uname, aname },b)
  -- Twalk
  | 110 => do
    let (fid,b) ← gbit32 b
    let (newfid,b) ← gbit32 b
    let (n,b) ← gbit16 b
    if MAXWELEM < n.toNat then none
    else
      let (wname,b) ← many gstring n.toNat b
      pure ({ f with fid, newfid, wname },b)
  -- Topen
  | 112 => do
    let (fid,b) ← gbit32 b
    let (mode,b) ← gbit8 b
    pure ({ f with fid, mode },b)
  -- Tcreate
  | 114 => do
    let (fid,b) ← gbit32 b
    let (name,b) ← gstring b
    let (perm,b) ← gperm b
    let (mode,b) ← gbit8 b
    pure ({ f with fid, name, perm, mode },b)
  -- Tread
  | 116 => do
    let (fid,b) ← gbit32 b
    let (offset,b) ← gbit64 b
    let (count,b) ← gbit32 b
    pure ({ f with fid, offset, count },b)
  -- Twrite
  | 118 => do
    let (fid,b) ← gbit32 b
    let (offset,b) ← gbit64 b
    let (count,b) ← gbit32 b
    if b.length≠count.toNat then none else pure ({ f with fid, offset, count, data := b },[])
  -- Tclunk, Tremove, Tstat
  | 120 | 122 | 124 => do
    let (fid,b) ← gbit32 b
    pure ({ f with fid },b)
  -- Twstat
  | 126 => do
    let (fid,b) ← gbit32 b
    let (n,b) ← gbit16 b
    if b.length≠n.toNat then none else pure ({ f with fid, stat := b },[])
  -- Rerror
  | 107 => do
    let (ename,b) ← gstring b
    pure ({ f with ename },b)
  -- Rflush, Rclunk, Rremove, Rwstat
  | 109 | 121 | 123 | 127 => some (f,b)
  -- Rauth
  | 103 => do
    let (aqid,b) ← gqid b
    pure ({ f with aqid },b)
  -- Rattach
  | 105 => do
    let (qid,b) ← gqid b
    pure ({ f with qid },b)
  -- Rwalk
  | 111 => do
    let (n,b) ← gbit16 b
    if MAXWELEM < n.toNat then none
    else
      let (wqid,b) ← many gqid n.toNat b
      pure ({ f with wqid },b)
  -- Ropen, Rcreate
  | 113 | 115 => do
    let (qid,b) ← gqid b
    let (iounit,b) ← gbit32 b
    pure ({ f with qid, iounit },b)
  -- Rread
  | 117 => do
    let (n,b) ← gbit32 b
    if b.length≠n.toNat then none else pure ({ f with data := b },[])
  -- Rwrite
  | 119 => do
    let (count,b) ← gbit32 b
    pure ({ f with count },b)
  -- Rstat
  | 125 => do
    let (n,b) ← gbit16 b
    if b.length≠n.toNat then none else pure ({ f with stat := b },[])
  | _ => none

/-- `UnmarshalFcall` up to its `recover`: `none` is a panic. The size counts its own four bytes:
`int(n)-4` is compared with the length of the rest. -/
def unmarshal (b : List UInt8) : Option Fcall := do
  let (n,b) ← gbit32 b
  if (b.length : Int)≠(n.toNat : Int)-4 then none
  else
    let (type,b) ← gbit8 b
    let (tag,b) ← gbit16 b
    let (f,b) ← gbody { type, tag } b
    if b.length≠0 then none else pure f

/-- `UnmarshalFcall`: every panic is recovered as a protocol error. -/
def unmarshalFcall (b : List UInt8) : Except String Fcall :=
  match unmarshal b with
  | some f => .ok f
  | none => .error "malformed Fcall"

/-- The fields a message of type `f.type` carries on the wire, every other field zero: what
`UnmarshalFcall` makes of what `Bytes` writes. The count of a `Twrite` is the length of its data;
an `Rread` carries no count. -/
def Fcall.onWire (f : Fcall) : Fcall :=
  let h : Fcall := { type := f.type, tag := f.tag }
  match f.type with
  | 100 | 101 => { h with msize := f.msize, version := f.version }
  | 108 => { h with oldtag := f.oldtag }
  | 102 => { h with afid := f.afid, uname := f.uname, aname := f.aname }
  | 104 => { h with fid := f.fid, afid := f.afid, uname := f.uname, aname := f.aname }
  | 110 => { h with fid := f.fid, newfid := f.newfid, wname := f.wname }
  | 112 => { h with fid := f.fid, mode := f.mode }
  | 114 => { h with fid := f.fid, name := f.name, perm := f.perm, mode := f.mode }
  | 116 => { h with fid := f.fid, offset := f.offset, count := f.count }
  | 118 => { h with fid := f.fid, offset := f.offset, count := f.data.length.toUInt32, data := f.data }
  | 120 | 122 | 124 => { h with fid := f.fid }
  | 126 => { h with fid := f.fid, stat := f.stat }
  | 107 => { h with ename := f.ename }
  | 109 | 121 | 123 | 127 => h
  | 103 => { h with aqid := f.aqid }
  | 105 => { h with qid := f.qid }
  | 111 => { h with wqid := f.wqid }
  | 113 | 115 => { h with qid := f.qid, iounit := f.iounit }
  | 117 => { h with data := f.data }
  | 119 => { h with count := f.count }
  | 125 => { h with stat := f.stat }
  | _ => h

end Fossil.Plan9
