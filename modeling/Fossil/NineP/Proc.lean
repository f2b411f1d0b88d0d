import Fossil.NineP.Fcall

/-!
# Dispatching 9P requests

`msgProc` takes a message off the read queue, rejects it when it was flushed
or the connection is not up, serializes a Tversion behind every earlier
message of its connection, and otherwise calls the handler that the array
`rFcall` holds at index `m.t.Type`. The array has length `Tmax` and only its
T-slots are filled, so a reply-type message on a live connection calls a nil
function, and `rTversion` indexes the first two bytes of the version string
without a length check. A panic is `none`: the worker goroutines have no
`recover`, so a panic ends the server.

The other twelve handlers are a parameter; the fid table that `rTversion`
clunks is not modelled.
-/

namespace Fossil.Proc

open Fossil.NineP

/-- Connection states (`ConDead` ... `ConMoribund`). -/
inductive ConState where
  | dead
  | new
  | down
  | init
  | up
  | moribund
  deriving DecidableEq, Repr

/-- Message states (`MsgN`, `MsgR`, `Msg9`, `MsgW`, `MsgF`). -/
inductive MsgState where
  | n
  | r
  | nine
  | w
  | f
  deriving DecidableEq, Repr

/-- The handlers `rFcall` names. -/
inductive Handler where
  | rTversion
  | rTauth
  | rTattach
  | rTflush
  | rTwalk
  | rTopen
  | rTcreate
  | rTread
  | rTwrite
  | rTclunk
  | rTremove
  | rTstat
  | rTwstat
  deriving DecidableEq, Repr

/-- The array `rFcall` at an index below `Tmax`: the handler its literal puts
there, or nil. -/
def rFcall (t : MsgType) : Option Handler :=
  if t=Tversion then some .rTversion
  else if t=Tauth then some .rTauth
  else if t=Tattach then some .rTattach
  else if t=Tflush then some .rTflush
  else if t=Twalk then some .rTwalk
  else if t=Topen then some .rTopen
  else if t=Tcreate then some .rTcreate
  else if t=Tread then some .rTread
  else if t=Twrite then some .rTwrite
  else if t=Tclunk then some .rTclunk
  else if t=Tremove then some .rTremove
  else if t=Tstat then some .rTstat
  else if t=Twstat then some .rTwstat
  else none

/-- The connection fields the dispatch and the version negotiation use. -/
structure Con where
  /-- Connection state. -/
  state : ConState
  /-- Negotiated message size. -/
  msize : UInt32
  deriving DecidableEq, Repr

/-- A message as `msgProc` sees it. -/
structure Msg where
  /-- The request. -/
  t : Fcall
  /-- Message state, `MsgF` once flushed. -/
  state : MsgState
  /-- A flush waiting on another message: its reply is not queued. -/
  nowq : Bool
  deriving DecidableEq, Repr

/-- The reply fields `msgProc` and `rTversion` set. -/
structure Reply where
  /-- `Rerror`, or the request type plus one. -/
  typ : MsgType
  /-- The request's tag. -/
  tag : UInt16
  /-- Error text of an `Rerror`. -/
  ename : String
  /-- Negotiated size (Rversion). -/
  msize : UInt32
  /-- Negotiated version (Rversion). -/
  version : List UInt8
  deriving DecidableEq, Repr

/-- What `rTversion` leaves behind: its error, the connection, the reply's
`Msize` and `Version`, and whether it marked the message flushed. -/
structure Versioned where
  /-- Error returned, if any. -/
  err : Option String
  /-- Connection afterwards. -/
  con : Con
  /-- `r.Msize`. -/
  rmsize : UInt32
  /-- `r.Version`. -/
  rversion : List UInt8
  /-- `m.state = MsgF`, for the internal end-of-file message. -/
  flushed : Bool

/-- The tail of `rTversion` once both version bytes are known to be `9P`:
`strtol` of the rest decides between 9P2000, the internal `9PEoF` and
`unknown`. -/
def versionTail (con : Con) (t : Fcall) (rmsize : UInt32) (rest : List UInt8) : Versioned :=
  if 2000 ≤ strtol rest then
    ⟨none,{ con with msize := rmsize, state := .up },rmsize,ascii "9P2000",false⟩
  else if t.version=ascii "9PEoF" then
    ⟨none,{ con with msize := rmsize, state := .moribund },rmsize,ascii "9PEoF",true⟩
  else ⟨none,con,rmsize,ascii "unknown",false⟩

/-- `rTversion`. Only a connection in `ConInit` negotiates; it drops to
`ConNew` before the tag and size checks. `t.Version[0] == '9' &&
t.Version[1] == 'P'` short-circuits, and each index panics past the end. -/
def rTversion (con : Con) (t : Fcall) : Option Versioned :=
  if con.state≠.init then some ⟨some "Tversion: down",con,0,[],false⟩
  else
    let con := { con with state := .new }
    if t.tag≠NOTAG then some ⟨some "Tversion: invalid tag",con,0,[],false⟩
    else if t.msize < 256 then some ⟨some "Tversion: message size too small",con,0,[],false⟩
    else
      let rmsize := if t.msize < con.msize then t.msize else con.msize
      match t.version with
      | [] => none
      | c0::rest =>
        if c0≠57 then some ⟨none,con,rmsize,ascii "unknown",false⟩
        else
          match rest with
          | [] => none
          | c1::rest' =>
            if c1≠80 then some ⟨none,con,rmsize,ascii "unknown",false⟩
            else some (versionTail con t rmsize rest')

/-- The reply `msgProc` builds from a handler's error. -/
def replyOf (m : Msg) (err : Option String) (v : Versioned) : Reply :=
  match err with
  | some e => ⟨Rerror,m.t.tag,e,v.rmsize,v.rversion⟩
  | none => ⟨m.t.typ+1,m.t.tag,"",v.rmsize,v.rversion⟩

/-- The checks `msgProc` makes before dispatching: a flushed message fails;
a Tversion takes the connection down, waits until it heads the connection's
message list (the connection state is then `afterWait`, which must be
`ConDown`), and brings it to `ConInit` when no later Tversion replaced it
(`stillOurs`); any other message needs `ConUp`. -/
def precheck (afterWait : ConState) (stillOurs : Bool) (m : Msg) (con : Con) :
    Option (Option String × Con) :=
  if m.state=.f then some (some "flushed",con)
  else if m.t.typ=Tversion then
    if afterWait≠.down then none
    else if stillOurs then some (none,{ con with state := .init })
    else some (some "Tversion aborted",{ con with state := .down })
  else if con.state≠.up then some (some "connection not ready",con)
  else some (none,con)

/-- One iteration of `msgProc`, with `other` the twelve handlers other than
`rTversion`. Returns the reply put on the write queue (none when `nowq`), the
connection and the message state; `none` is a panic: an index of `rFcall` at
or past `Tmax`, a nil slot, or a panic inside a handler. -/
def msgProc (other : Handler → Msg → Con → Option (Option String × Con))
    (afterWait : ConState) (stillOurs : Bool) (m : Msg) (con : Con) :
    Option (Option Reply × Con × MsgState) := do
  let mstate : MsgState := if m.state=.f then .f else .nine
  let (err,con) ← precheck afterWait stillOurs m con
  let blank : Versioned := ⟨none,con,0,[],false⟩
  match err with
  | some e => pure (if m.nowq then none else some (replyOf m (some e) blank),con,mstate)
  | none =>
    if Tmax ≤ m.t.typ then none
    else
      match rFcall m.t.typ with
      | none => none
      | some .rTversion =>
        let v ← rTversion con m.t
        pure (if m.nowq then none else some (replyOf m v.err v),v.con,
          if v.flushed then .f else mstate)
      | some h =>
        let (e,con') ← other h m con
        pure (if m.nowq then none else some (replyOf m e blank),con',mstate)

/-- Every reply type is left nil in `rFcall`. -/
theorem rFcall_rType {t : MsgType} (h : isRType t=true) : rFcall t=none := by
  have hne : ∀ k : MsgType, k%2=0 → t≠k := by
    intro k hk he
    subst he
    simp [isRType,hk] at h
  simp only [rFcall,if_neg (hne Tversion (by decide)),if_neg (hne Tauth (by decide)),
    if_neg (hne Tattach (by decide)),if_neg (hne Tflush (by decide)),if_neg (hne Twalk (by decide)),
    if_neg (hne Topen (by decide)),if_neg (hne Tcreate (by decide)),if_neg (hne Tread (by decide)),
    if_neg (hne Twrite (by decide)),if_neg (hne Tclunk (by decide)),if_neg (hne Tremove (by decide)),
    if_neg (hne Tstat (by decide)),if_neg (hne Twstat (by decide))]

/-- A reply-type message that the decoder accepts and that reaches dispatch on
a connection that is up calls the nil slot of `rFcall`: the worker panics,
whatever the other handlers do. -/
theorem msgProc_rType_panics (other : Handler → Msg → Con → Option (Option String × Con))
    (afterWait : ConState) (stillOurs : Bool) (m : Msg) (con : Con)
    (hdec : decodable m.t.typ=true) (hr : isRType m.t.typ=true) (hm : m.state≠.f)
    (hup : con.state=.up) :
    msgProc other afterWait stillOurs m con=none := by
  have hv : m.t.typ≠Tversion := by
    intro he
    rw [he] at hr
    exact absurd hr (by decide)
  have hlt : ¬ Tmax ≤ m.t.typ := by
    simp only [decodable,Bool.and_eq_true,decide_eq_true_eq] at hdec
    have hl := hdec.1.2
    simp only [UInt8.lt_iff_toNat_lt,UInt8.le_iff_toNat_le] at hl ⊢
    omega
  have hpre : precheck afterWait stillOurs m con=some (none,con) := by
    simp [precheck,hm,hv,hup]
  simp [msgProc,hpre,hlt,rFcall_rType hr]

/-- A Tversion that passes the tag and size checks and whose version string is
empty, or the single byte `9`, makes `rTversion` index past the string's
end, on any connection: the worker panics. -/
theorem msgProc_shortVersion_panics (other : Handler → Msg → Con → Option (Option String × Con))
    (m : Msg) (con : Con) (ht : m.t.typ=Tversion) (hm : m.state≠.f) (htag : m.t.tag=NOTAG)
    (hsize : 256 ≤ m.t.msize) (hv : m.t.version=[] ∨ m.t.version=[57]) :
    msgProc other .down true m con=none := by
  have hpre : precheck .down true m con=some (none,{ con with state := .init }) := by
    simp [precheck,hm,ht]
  have hsz : ¬ m.t.msize < 256 := UInt32.not_lt.mpr hsize
  have hver : rTversion { con with state := .init } m.t=none := by
    rcases hv with hv | hv <;> simp [rTversion,htag,hsz,hv]
  simp [msgProc,hpre,ht,rFcall,hver]

/-- The failing input: a Tversion with tag `NOTAG`, size 8192 and an empty
version string, not flushed, on any connection, panics the server. -/
theorem msgProc_emptyVersion_panics (other : Handler → Msg → Con → Option (Option String × Con))
    (con : Con) :
    msgProc other .down true ⟨⟨Tversion,NOTAG,8192,[]⟩,.r,false⟩ con=none :=
  msgProc_shortVersion_panics other _ con rfl (by decide) rfl (by decide) (Or.inl rfl)

/-- A version of `9P`, a digit and then bytes with one that is not a digit (`9P2000.u`,
`9P2000.L`) is refused on a connection in `ConInit`, whatever the number: `strtol` of the rest is
0, so the reply says `unknown`, and the connection stays in `ConNew` with its size, out of
`ConUp`. -/
theorem rTversion_refuses_suffix (con : Con) (t : Fcall) (d c : UInt8) (ds sfx : List UInt8)
    (hc : con.state=.init) (htag : t.tag=NOTAG) (hsize : 256 ≤ t.msize)
    (hv : t.version=ascii "9P"++d::ds++c::sfx) (hd : 48 ≤ d ∧ d ≤ 57) (hcd : ¬(48 ≤ c ∧ c ≤ 57)) :
    rTversion con t=some ⟨none,{ con with state := .new },min t.msize con.msize,ascii "unknown",false⟩ := by
  have hsz : ¬ t.msize < 256 := UInt32.not_lt.mpr hsize
  have hstr : strtol (d::(ds++c::sfx))=0 := strtol_eq_zero hd (by simp) hcd
  -- the third byte is a digit, not the `E` of `9PEoF`
  have heof : t.version≠ascii "9PEoF" := by
    intro h
    rw [hv] at h
    have h2 := congrArg (fun l => l.getD 2 0) h
    simp [show ascii "9P"=[57,80] by decide,show ascii "9PEoF"=[57,80,69,111,70] by decide] at h2
    rw [h2] at hd
    exact absurd hd (by decide)
  have hmin : (if t.msize < con.msize then t.msize else con.msize)=min t.msize con.msize := by
    by_cases h : t.msize < con.msize
    · rw [if_pos h,UInt32.min_def,if_pos (UInt32.le_of_lt h)]
    · rw [if_neg h,UInt32.min_def]
      split
      · exact UInt32.le_antisymm (UInt32.not_lt.mp h) ‹_›
      · rfl
  simp only [rTversion,hc,htag,hsz,hv,show ascii "9P"=[57,80] by decide,ne_eq,not_true_eq_false,
    if_false,List.cons_append,List.nil_append]
  simp [versionTail,hstr,heof,hmin]

/-- The Linux client's `9P2000.L` on a fresh connection. -/
theorem rTversion_refuses_suffix_linux :
    rTversion ⟨.init,8192⟩ ⟨Tversion,NOTAG,8192,ascii "9P2000.L"⟩=
      some ⟨none,⟨.new,8192⟩,8192,ascii "unknown",false⟩ :=
  rTversion_refuses_suffix ⟨.init,8192⟩ ⟨Tversion,NOTAG,8192,ascii "9P2000.L"⟩ 50 46 (ascii "000") (ascii "L")
    rfl rfl (by decide) (by decide) (by decide) (by decide)

end Fossil.Proc
