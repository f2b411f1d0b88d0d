import Fossil.Venti.Root
import Fossil.Vac.DirEntry

/-!
# Decoding a Venti reply

`receiveThread` (`client.go`) reads each reply in two parts: `receiveHeader` reads four bytes,
the length of what follows them and the reply's type and tag, and takes 2 from the length for
the type and the tag, in 16 bits; `receiveMessage` then reads the body. An `Rread` body goes
straight into the caller's buffer, sliced to the length the server sent; any other body is
decoded by `unpackFcall`, whose `Rhello` case reads the two bytes after the session id without
checking that they are there. A failed read or decode is handed to the waiting rpc as an error.

The connection is the list of bytes the server sends; the caller's `Rread` buffer is a slice
whose capacity is its length. `none` is a panic.
-/

namespace Fossil.Venti

open Bytes

def rError : UInt8 := 1
def rPing : UInt8 := 3
def rHello : UInt8 := 5
def rGoodbye : UInt8 := 7
def rAuth0 : UInt8 := 9
def rAuth1 : UInt8 := 11
def rRead : UInt8 := 13
def rWrite : UInt8 := 15
def rSync : UInt8 := 17

/-- The fields of an rpc's reply that the decoding sets (`fcall`). -/
structure Reply where
  msgtype : UInt8
  /-- `Rerror`: the server's text. -/
  err : Option (List UInt8)
  /-- `Rhello`. -/
  sid : List UInt8
  rcrypto : UInt8
  rcodec : UInt8
  /-- `Rwrite`. -/
  score : Option Score
  /-- `Rread`: the bytes read. -/
  count : UInt16
  /-- `Rread`: the caller's buffer. -/
  data : List UInt8

/-- `unpackFcall(buf, f)`. -/
def unpackFcall (buf : List UInt8) (f : Reply) : Option (Except String Reply) :=
  if f.msgtype=rError then
    match Vac.unpackString buf with
    | none => some (.error "unpack err: short buffer")
    | some (s,_) => some (.ok { f with err := some s })
  else if f.msgtype=rHello then
    match Vac.unpackString buf with
    | none => some (.error "unpack sid: short buffer")
    | some (sid,rest) =>
      -- `buf[0]` and `buf[1]` past the session id
      match rest with
      | c0::c1::_ => some (.ok { f with sid := sid, rcrypto := c0, rcodec := c1 })
      | _ => none
  else if f.msgtype=rWrite then some (.ok { f with score := some (scoreOf buf) })
  else if f.msgtype=rPing ∨ f.msgtype=rGoodbye ∨ f.msgtype=rAuth0 ∨ f.msgtype=rAuth1 ∨ f.msgtype=rRead ∨
      f.msgtype=rSync then some (.ok f)
  else some (.error "unrecognized message type")

/-- `receiveHeader`: the body length, less 2 in 16 bits, the type, the tag, the error of a short
read, and the bytes after the header. -/
def receiveHeader (stream : List UInt8) : UInt16 × UInt8 × UInt8 × Option String × List UInt8 :=
  let buf := stream.take 4++List.replicate (4-stream.length) 0
  (getUint16 buf-2,buf.getD 2 0,buf.getD 3 0,if stream.length < 4 then some "short read" else none,stream.drop 4)

/-- `receiveMessage(rx, length)`: the reply, or the error of a short read or of the decoder. -/
def receiveMessage (rx : Reply) (length : UInt16) (stream : List UInt8) : Option (Except String Reply) :=
  if rx.msgtype=rRead then
    -- `rx.data[:length]`
    if rx.data.length < length.toNat then none
    else if stream.length < length.toNat then some (.error "EOF")
    else some (.ok { rx with data := stream.take length.toNat++rx.data.drop length.toNat, count := length })
  else if stream.length < length.toNat then some (.error "EOF")
  else
    match unpackFcall (stream.take length.toNat) rx with
    | none => none
    | some (.error e) => some (.error ("unpack fcall: "++e))
    | some (.ok rx) => some (.ok rx)

/-- One round of `receiveThread` for the rpc `rx` waiting under the reply's tag: what it is
handed, a reply or an error. -/
def receiveReply (rx : Reply) (stream : List UInt8) : Option (Except String Reply) :=
  let (length,msgtype,_,err,body) := receiveHeader stream
  match err with
  | some e => some (.error ("receive header: "++e))
  | none =>
    match receiveMessage { rx with msgtype := msgtype } length body with
    | none => none
    | some (.error e) => some (.error ("receive message: "++e))
    | some (.ok rx) => some (.ok rx)

/-- The header the server sends before a body of `n` bytes. -/
def replyHeader (n : Nat) (msgtype tag : UInt8) : List UInt8 :=
  be16 (n+2).toUInt16++[msgtype,tag]

/-- The header read from a length `v`, a type and a tag: the length less 2, wrapping below 2. -/
theorem receiveHeader_be16 (v : UInt16) (msgtype tag : UInt8) (body : List UInt8) :
    receiveHeader (be16 v++[msgtype,tag]++body)=(v-2,msgtype,tag,none,body) := by
  have h4 : (be16 v++[msgtype,tag]++body).length=body.length+4 := by
    simp
    omega
  have hbuf : (be16 v++[msgtype,tag]++body).take 4=be16 v++[msgtype,tag] := rfl
  simp only [receiveHeader,h4,show ¬body.length+4 < 4 by omega,if_false,show 4-(body.length+4)=0 by omega,
    List.replicate_zero,List.append_nil,hbuf,getUint16_be16_append]
  rfl

theorem receiveHeader_replyHeader (n : Nat) (msgtype tag : UInt8) (body : List UInt8) :
    receiveHeader (replyHeader n msgtype tag++body)=(n.toUInt16,msgtype,tag,none,body) := by
  have hlen : (n+2).toUInt16-2=n.toUInt16 := by simp
  rw [replyHeader,receiveHeader_be16,hlen]

/-- Decoding a reply can panic the session: an `Rhello` whose body ends right after the session
id makes `unpackFcall` read past the body, and an `Rread` longer than the caller's buffer makes
`receiveMessage` slice the buffer past its capacity. Either way the receive thread panics instead
of handing the waiting rpc a reply or an error. -/
theorem receiveReply_panics (rx : Reply) (tag : UInt8) :
    (∀ sid, sid.length+4 < 2^16 →
      receiveReply rx (replyHeader (sid.length+2) rHello tag++Vac.packString sid)=none) ∧
    (∀ body : List UInt8, body.length+2 < 2^16 → rx.data.length < body.length →
      receiveReply rx (replyHeader body.length rRead tag++body)=none) ∧
    ∀ (v : UInt16) (body : List UInt8), v < 2 → rx.data.length < 65534 →
      receiveReply rx (be16 v++[rRead,tag]++body)=none := by
  refine ⟨fun sid hs => ?_,fun body hb hd => ?_,fun v body hv hd => ?_⟩
  · have hbody : (Vac.packString sid).length=sid.length+2 := by
      rw [Vac.length_packString]
      omega
    have hup := Vac.unpackString_packString sid [] (by omega)
    rw [List.append_nil] at hup
    simp only [receiveReply,receiveHeader_replyHeader]
    have htake : (Vac.packString sid).take (sid.length+2)=Vac.packString sid :=
      List.take_of_length_le (by omega)
    simp [receiveMessage,Nat.mod_eq_of_lt (show sid.length+2 < 65536 by omega),hbody,htake,unpackFcall,rError,
      rHello,rRead,hup]
  · simp only [receiveReply,receiveHeader_replyHeader]
    simp [receiveMessage,Nat.mod_eq_of_lt (show body.length < 65536 by omega),hd]
  · -- a length field of 0 or 1 wraps to 65534 or 65535
    have hwrap : 65534 ≤ (v-2).toNat := by
      have hv' : v.toNat < 2 := UInt16.lt_iff_toNat_lt.mp hv
      rcases (show v=0 ∨ v=1 by
        rcases (show v.toNat=0 ∨ v.toNat=1 by omega) with h | h
        · exact .inl (UInt16.toNat_inj.mp h)
        · exact .inr (UInt16.toNat_inj.mp h)) with rfl | rfl
      · decide
      · decide
    simp only [receiveReply,receiveHeader_be16]
    simp [receiveMessage,rRead,show rx.data.length < (v-2).toNat by omega]

/-- An rpc waiting with an empty buffer. -/
def idleReply : Reply := ⟨0,none,[],0,0,none,0,[]⟩

theorem receiveReply_panics_idle :
    receiveReply idleReply (replyHeader 2 rHello 0++Vac.packString [])=none ∧
      receiveReply idleReply (replyHeader 1 rRead 0++[7])=none ∧
      receiveReply idleReply (be16 0++[rRead,0])=none :=
  have h := receiveReply_panics idleReply 0
  ⟨h.1 [] (by decide),h.2.1 [7] (by decide) (by decide),h.2.2 0 [] (by decide) (by decide)⟩

end Fossil.Venti
