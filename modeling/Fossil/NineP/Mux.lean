import Fossil.NineP.Proc
import Fossil.Lib.DList

/-!
# Flushing requests on one connection

`9proc.go` multiplexes the messages of a connection over goroutines. `msgRead` takes a `Msg` off
the free list (`allocMsg`), reads a request into it, links it after `con.mtail` and sends it on
`mbox.rchan`. Any number of `msgProc` workers take messages off `rchan`, mark them `Msg9` unless
they were flushed, dispatch them and send them on `con.wchan` unless `nowq` is set. `msgWrite`
takes them off `wchan`, unlinks them, writes the reply of each that is not `MsgF`, and then walks
its `toFlush` chain, freeing every message it passes. A Tflush is dispatched to `rTflush`, whose
`(*Msg).flush` looks up the old tag on the connection's list, marks that message `MsgF` when it
was not yet processed (or is itself a Tflush), and hangs the Tflush on its `toFlush` chain with
`nowq` set, freeing the Tflush that waited there before.

Every critical section of a goroutine is one step of a transition system (`step`); a worker and
the writer keep a program counter between their steps. The connection's list is an intrusive
doubly linked list (`DList.Links`), linked and unlinked with the code's own pointer updates. The
free list is a stack. `log` records, newest first, what happened to each `Msg`: handed out,
dispatched, replied to, freed.

`flush` sets `nowq` under `con.mlock`, and the worker reads it after the lock is released. In
between, the Tflush can be freed, by the writer once the message it waits for has gone out or by
a later Tflush for the same message, and handed out again by `allocMsg`, which clears `nowq`. The
worker then sends the new message on `wchan`, and it is written and freed twice
(`flush_race_replies_twice`).

The connection's state checks and the handlers other than `rTflush` do not touch the
multiplexer's structures; a worker's dispatch step only says whether they let the handler run.
-/

namespace Fossil.Multiplex

open Fossil.NineP DList
open Fossil.Proc (MsgState)

/-- The request fields the multiplexer reads. -/
structure Req where
  /-- `t.Type`. -/
  typ : MsgType
  /-- `t.Tag`. -/
  tag : UInt16
  /-- `t.Oldtag`, the tag a Tflush flushes. -/
  oldtag : UInt16
  deriving DecidableEq, Repr

/-- The fields of a `Msg` the multiplexer uses; its list links are in `Mux.links`. -/
structure Msg where
  /-- The request. -/
  t : Req
  /-- `MsgN`, `MsgR`, `Msg9`, `MsgW` or `MsgF`. -/
  state : MsgState
  /-- The Tflush waiting for this message. -/
  toFlush : Option Nat
  /-- Waiting on a `toFlush` chain: not to be sent on the write queue. -/
  nowq : Bool
  /-- `r.Tag`, the tag of the reply. -/
  rtag : UInt16
  deriving DecidableEq, Repr

/-- A `Msg` as `new(Msg)` makes it. -/
def Msg.zero : Msg :=
  ⟨⟨0,0,0⟩,.n,none,false,0⟩

/-- What happens to a `Msg`. -/
inductive Event where
  /-- `allocMsg` hands it out. -/
  | alloc (m : Nat)
  /-- `msgProc` calls its handler. -/
  | dispatch (m : Nat)
  /-- `msgWrite` writes its reply, with this tag. -/
  | reply (m : Nat) (tag : UInt16)
  /-- `(*Msg).free`. -/
  | free (m : Nat)
  deriving DecidableEq, Repr

/-- A `msgProc` worker busy with a message. -/
inductive Proc where
  /-- Taken off `rchan`; `flushed` when it was `MsgF` then. -/
  | checked (m : Nat) (flushed : Bool)
  /-- Handled and its reply built; the worker is about to test `nowq`. -/
  | replied (m : Nat)
  deriving DecidableEq, Repr

/-- Where `msgWrite` is. -/
inductive Writer where
  /-- Waiting on `wchan`. -/
  | idle
  /-- At the top of its loop with `m`, holding `con.mlock`. -/
  | loop (m : Nat)
  /-- Writing the reply of `m`, without the lock. -/
  | writing (m : Nat)
  /-- Written, about to take the lock again. -/
  | wrote (m : Nat)
  deriving DecidableEq, Repr

/-- One connection and the message pool: the `Msg`s by address, the connection's list, the free
list, the queues, the reader, the busy workers and the writer. -/
structure Mux where
  /-- The `Msg` at each address. -/
  msgs : Nat → Msg
  /-- `mnext`, `mprev`, `con.mhead` and `con.mtail`. -/
  links : Links Nat
  /-- `mbox.ahead` and its `anext` chain. -/
  ahead : List Nat
  /-- `mbox.nmsg`: the addresses below it have been handed out. -/
  nmsg : Nat
  /-- `mbox.rchan`, oldest first. -/
  rchan : List Nat
  /-- `con.wchan`, oldest first. -/
  wchan : List Nat
  /-- The `Msg` `msgRead` holds between `allocMsg` and the send on `rchan`. -/
  reader : Option Nat
  /-- The workers busy with a message. -/
  procs : List Proc
  /-- `msgWrite`. -/
  writer : Writer
  /-- What happened, newest first. -/
  log : List Event

/-- A fresh connection: no message yet. -/
def init : Mux :=
  ⟨fun _ => Msg.zero,Links.empty,[],0,[],[],none,[],.idle,[]⟩

/-- Change the `Msg` at `m`. -/
def Mux.modify (s : Mux) (m : Nat) (f : Msg → Msg) : Mux :=
  { s with msgs := Function.update s.msgs m (f (s.msgs m)) }

/-- `allocMsg`: the head of the free list, or a new `Msg` while fewer than `maxmsg` exist; `none`
when it would wait. A new `Msg` is an address not handed out before. -/
def allocMsg (maxmsg : Nat) (s : Mux) : Option (Nat × Mux) :=
  match s.ahead with
  | m :: rest => some (m,{ s with ahead := rest })
  | [] => if s.nmsg < maxmsg then some (s.nmsg,{ s with nmsg := s.nmsg+1 }) else none

/-- `(*Msg).free`: the assertion that no flush waits for `m`, then `m` on the free list. With a
fixed `maxmsg` at most `maxmsg` messages exist, so the branch that drops a surplus one is not
taken. -/
def free (s : Mux) (m : Nat) : Option Mux :=
  if (s.msgs m).toFlush=none then some { s with ahead := m :: s.ahead, log := .free m :: s.log }
  else none

/-- The lines of `msgRead` that link `m` after `con.mtail`; `m.mnext` is left as it is. -/
def mlink (d : Links Nat) (m : Nat) : Links Nat :=
  let d := match d.tail with
    | some t => { d with prev := Function.update d.prev m (some t), next := Function.update d.next t (some m) }
    | none => { d with head := some m, prev := Function.update d.prev m none }
  { d with tail := some m }

/-- `(*Msg).munlink`: the neighbours of `m` linked to each other, then `m`'s own links cleared. -/
def munlink (d : Links Nat) (m : Nat) : Links Nat :=
  let d := unlink d m
  { d with next := Function.update d.next m none, prev := Function.update d.prev m none }

/-- The search of `(*Msg).flush`: the first message on the connection's list with tag `tag`. The
walk follows `mnext` from `con.mhead`; at most `nmsg` messages exist. -/
def lookup (s : Mux) (tag : UInt16) : Option Nat :=
  (chain s.links.next s.nmsg s.links.head).find? fun o => (s.msgs o).t.tag=tag

/-- `(*Msg).flush` for the Tflush `m`. -/
def flush (s : Mux) (m : Nat) : Option Mux :=
  if (s.msgs m).state=.f then some s
  else
    match lookup s (s.msgs m).t.oldtag with
    | none => some s
    | some old => do
      -- an unprocessed message, or a Tflush, is flushed outright
      let s := if (s.msgs old).state=.r ∨ (s.msgs old).t.typ=Tflush then
        s.modify old fun o => { o with state := .f } else s
      -- the Tflush already waiting for `old` is dropped, its waiters passed on to `m`
      let s ← match (s.msgs old).toFlush with
        | some fl =>
          let s := s.modify m fun x => { x with toFlush := (s.msgs fl).toFlush }
          let s := s.modify fl fun x => { x with toFlush := none }
          free { s with links := munlink s.links fl } fl
        | none => some s
      let s := s.modify old fun o => { o with toFlush := some m }
      pure (s.modify m fun x => { x with nowq := true })

/-- The end of `msgWrite`'s loop body for `m`: take the Tflush waiting for it (asserting `nowq`),
free `m`, and go on with that Tflush. -/
def finish (s : Mux) (m : Nat) : Option Mux := do
  let fl := (s.msgs m).toFlush
  let s ← match fl with
    | some f => if (s.msgs f).nowq then some (s.modify m fun x => { x with toFlush := none }) else none
    | none => some s
  let s ← free s m
  pure { s with writer := match fl with | some f => .loop f | none => .idle }

/-- The steps of the goroutines of one connection. -/
inductive Act where
  /-- `msgRead`: `allocMsg`. -/
  | read
  /-- `msgRead`: the request `t` read, linked and sent on `rchan`. -/
  | arrive (t : Req)
  /-- `msgRead`: the request could not be unmarshalled; the `Msg` is freed. -/
  | garbled
  /-- A worker takes a message off `rchan` and checks it under `con.mlock`. -/
  | take
  /-- Worker `i` builds the reply and, when `ready` (the connection checks pass) and the
  message was not flushed, calls the handler. -/
  | dispatch (i : Nat) (ready : Bool)
  /-- Worker `i` tests `nowq` and sends the message on `wchan`. -/
  | queue (i : Nat)
  /-- `msgWrite` takes a message off `wchan`. -/
  | recv
  /-- `msgWrite` unlinks the message and marks it `MsgW` unless it was flushed. -/
  | unlink
  /-- `msgWrite` writes the reply. -/
  | write
  /-- `msgWrite` frees the message and goes on with the Tflush waiting for it. -/
  | next
  deriving DecidableEq, Repr

/-- One step; `none` when it cannot happen (a goroutine would wait) or an assertion fails. -/
def step (maxmsg : Nat) (s : Mux) : Act → Option Mux
  | .read =>
    match s.reader with
    | some _ => none
    | none => (allocMsg maxmsg s).map fun (m,s) =>
      { s.modify m (fun x => { x with state := .r, nowq := false }) with
        reader := some m, log := .alloc m :: s.log }
  | .arrive t =>
    match s.reader with
    | none => none
    | some m => some { s.modify m (fun x => { x with t := t }) with
        links := mlink s.links m, rchan := s.rchan ++ [m], reader := none }
  | .garbled =>
    match s.reader with
    | none => none
    | some m => free { s with reader := none } m
  | .take =>
    match s.rchan with
    | [] => none
    | m :: rest =>
      if (s.msgs m).state=.f then some { s with rchan := rest, procs := s.procs ++ [.checked m true] }
      else some { s.modify m (fun x => { x with state := .nine }) with
        rchan := rest, procs := s.procs ++ [.checked m false] }
  | .dispatch i ready =>
    match s.procs[i]? with
    | some (.checked m flushed) =>
      let s := { s.modify m (fun x => { x with rtag := x.t.tag }) with procs := s.procs.set i (.replied m) }
      if flushed ∨ ready=false then some s
      else
        let s := { s with log := .dispatch m :: s.log }
        -- `rTflush`
        if (s.msgs m).t.typ=Tflush ∧ (s.msgs m).t.oldtag≠NOTAG then flush s m else some s
    | _ => none
  | .queue i =>
    match s.procs[i]? with
    | some (.replied m) =>
      let s := { s with procs := s.procs.eraseIdx i }
      some (if (s.msgs m).nowq then s else { s with wchan := s.wchan ++ [m] })
    | _ => none
  | .recv =>
    match s.writer, s.wchan with
    | .idle, m :: rest => some { s with writer := .loop m, wchan := rest }
    | _, _ => none
  | .unlink =>
    match s.writer with
    | .loop m =>
      let s := { s with links := munlink s.links m }
      if (s.msgs m).state=.f then finish s m
      else some { s.modify m (fun x => { x with state := .w }) with writer := .writing m }
    | _ => none
  | .write =>
    match s.writer with
    | .writing m => some { s with writer := .wrote m, log := .reply m (s.msgs m).rtag :: s.log }
    | _ => none
  | .next =>
    match s.writer with
    | .wrote m => finish s m
    | _ => none

/-- The steps one after another. -/
def run (maxmsg : Nat) : Mux → List Act → Option Mux
  | s, [] => some s
  | s, a :: as => (step maxmsg s a).bind fun s => run maxmsg s as

/-! ## Replies and frees of one `Msg` since it was handed out -/

/-- The events since `m` was last handed out, newest first. -/
def current (log : List Event) (m : Nat) : List Event :=
  log.takeWhile (·≠.alloc m)

/-- The replies written for `m` since it was last handed out. -/
def replies (log : List Event) (m : Nat) : List UInt16 :=
  (current log m).filterMap fun e => match e with
    | .reply m' tag => if m'=m then some tag else none
    | _ => none

/-- How often `m` was freed since it was last handed out. -/
def frees (log : List Event) (m : Nat) : Nat :=
  (current log m).count (.free m)

/-! ## The race -/

/-- A worker still holding a `Msg` that has been freed and is next on the free list: the next
request read goes into that `Msg`, and the worker's `nowq` test, which `allocMsg` reset, sends it
on `wchan` while it waits on `rchan` for a worker of its own. -/
theorem stale_worker_queues_new_request (maxmsg : Nat) (s : Mux) {i m : Nat} {rest : List Nat}
    (hi : s.procs[i]?=some (.replied m)) (ha : s.ahead=m :: rest) (hr : s.reader=none) (t : Req) :
    ∃ s', run maxmsg s [.read,.arrive t,.queue i]=some s' ∧ (s'.msgs m).t=t ∧
      s'.rchan=s.rchan ++ [m] ∧ s'.wchan=s.wchan ++ [m] := by
  simp [run,step,allocMsg,hr,ha,hi,Mux.modify]

/-- A read with tag 1, a Tflush of it with tag 2, a second Tflush of it with tag 3, and a stat
with tag 4. -/
def tread : Req := ⟨Tread,1,NOTAG⟩
def tflush1 : Req := ⟨Tflush,2,1⟩
def tflush2 : Req := ⟨Tflush,3,1⟩
def tstat : Req := ⟨Tstat,4,NOTAG⟩

/-- The read is taken by a worker that stays busy. The first Tflush finds it and waits for it; its
worker is then held up before it tests `nowq`. The second Tflush finds the read, drops the first
(freeing it) and waits in its place. `allocMsg` hands the first Tflush's `Msg` (address 1) to the
stat, and a worker dispatches it. Now the first Tflush's worker tests `nowq`, which `allocMsg`
cleared, and sends address 1 on `wchan`; the writer writes and frees it. Then the stat's own
worker sends it again, and it is written and freed again. -/
def raceScript : List Act :=
  [.read,.arrive tread,.take,
   .read,.arrive tflush1,.take,.dispatch 1 true,
   .read,.arrive tflush2,.take,.dispatch 2 true,.queue 2,
   .read,.arrive tstat,.take,.dispatch 2 true,
   .queue 1,.recv,.unlink,.write,.next,
   .queue 1,.recv,.unlink,.write,.next]

theorem flush_race_replies_twice :
    ∃ s, run 8 init raceScript=some s ∧ replies s.log 1=[4,4] ∧ frees s.log 1=2 ∧ s.ahead=[1,1] := by
  refine ⟨_,rfl,?_,?_,?_⟩ <;> decide

end Fossil.Multiplex
