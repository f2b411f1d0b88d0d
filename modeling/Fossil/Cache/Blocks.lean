import Fossil.Block
import Fossil.Venti.Score
import Fossil.Lib.Heap

/-!
# The block cache's descriptors, heap and hash chains

The cache keeps a fixed table of block descriptors (`cache.go`). A descriptor nobody holds
(`ref = 0`) and that need not reach the disk waits in a min-heap on `used - now`, unsigned, so
that the least recently used sorts first while no difference wraps; `bumpBlock` reuses the root
for another block and asserts that it is idle. A descriptor holding a block is chained in the hash
chain of its address (of its score, for a Venti block), and the lookups walk that chain.

The model keeps the descriptor fields this bookkeeping reads and writes. The heap cells, `nheap`
and each descriptor's `heap` field are one `Heap.Arr`. A hash chain is the list of descriptors
from `c.heads[h]` along `next`; the `prev` links are the list order, and unlinking through `prev`
erases the descriptor from the chain holding it. The lookups are modelled up to the end of their
`c.lk` section; what follows is the holder's `setIOState`, `dirty` and `put` calls, and the disk
thread's. A panic (a failed assertion or a bad `iostate`) is `.panic`; waiting on `heapwait` with
an empty heap is `.wait`. The count `ndirty`, the prior and unlink lists, the block data and the
lock counts are not modelled.
-/

namespace Fossil.Blocks

open Fossil.Block Fossil.Venti

/-- `BadHeap`, the `heap` field of a descriptor outside the heap. -/
def BadHeap : Nat := 0xFFFFFFFF

/-- The descriptor fields the cache's bookkeeping uses. -/
structure Blk where
  /-- Partition. -/
  part : Part
  /-- Disk address, `NilBlock` for a Venti block. -/
  addr : UInt32
  /-- Score; for a local block, its address as a score. -/
  score : Score
  /-- `l.typ`. -/
  typ : BlockType
  /-- `l.epoch`. -/
  epoch : UInt32
  /-- I/O state. -/
  iostate : IOState
  /-- References: holders, and the disk thread while the block is queued. -/
  ref : Nat
  /-- Clock value of the last `put`. -/
  used : UInt32
  /-- Version of the dirty flag. -/
  vers : UInt32
  deriving DecidableEq

/-- The cache. -/
structure Cache where
  /-- `c.blocks`. -/
  blocks : Nat → Blk
  /-- `len(c.blocks)`. -/
  nblocks : Nat
  /-- `c.heap`, `c.nheap` and the descriptors' `heap` fields. -/
  hp : Heap.Arr Nat
  /-- `c.now`. -/
  now : UInt32
  /-- `c.vers`. -/
  vers : UInt32
  /-- `c.hashSize`. -/
  hashSize : Nat
  /-- `c.heads`, each chain from its head along `next`. -/
  heads : Nat → List Nat

/-- How a cache operation stops short. -/
inductive Stop where
  /-- An assertion failed or a switch hit its panicking default. -/
  | panic
  /-- `bumpBlock` waits on `heapwait`: every descriptor is in use. -/
  | wait
  deriving DecidableEq, Repr

/-- Change one descriptor. -/
def modify (c : Cache) (b : Nat) (f : Blk → Blk) : Cache :=
  { c with blocks := Function.update c.blocks b (f (c.blocks b)) }

@[simp] theorem modify_blocks (c : Cache) (b : Nat) (f : Blk → Blk) (j : Nat) :
    (modify c b f).blocks j=if j=b then f (c.blocks b) else c.blocks j := by
  simp [modify,Function.update_apply]

@[simp] theorem modify_hp (c : Cache) (b : Nat) (f : Blk → Blk) : (modify c b f).hp=c.hp := rfl

@[simp] theorem modify_now (c : Cache) (b : Nat) (f : Blk → Blk) : (modify c b f).now=c.now := rfl

@[simp] theorem modify_heads (c : Cache) (b : Nat) (f : Blk → Blk) : (modify c b f).heads=c.heads := rfl

@[simp] theorem modify_nblocks (c : Cache) (b : Nat) (f : Blk → Blk) : (modify c b f).nblocks=c.nblocks := rfl

/-- The heap key of a descriptor, `b.used-now` as the sifts compare it. -/
def key (c : Cache) (b : Nat) : Nat :=
  ((c.blocks b).used-c.now).toNat

/-- `heapDel`. -/
def heapDel (c : Cache) (b : Nat) : Cache :=
  { c with hp := Heap.heapDel (key c) BadHeap c.hp b }

@[simp] theorem heapDel_blocks (c : Cache) (b : Nat) : (heapDel c b).blocks=c.blocks := rfl

@[simp] theorem heapDel_now (c : Cache) (b : Nat) : (heapDel c b).now=c.now := rfl

@[simp] theorem heapDel_heads (c : Cache) (b : Nat) : (heapDel c b).heads=c.heads := rfl

/-- `heapIns`, whose assertion is that the descriptor is outside the heap. -/
def heapIns (c : Cache) (b : Nat) : Except Stop Cache :=
  match Heap.heapIns (key c) BadHeap c.hp b with
  | some hp => .ok { c with hp := hp }
  | none => .error .panic

/-- `(*Block).put` once the holder's last lock reference goes: drop a reference, and when none
is left put the descriptor in the heap unless it is dirty. An empty or label-only descriptor
takes the root's last use, so that it goes first; any other takes `now`, and the clock moves on.
A reference count already at zero drops to -1 and fails `assert(b.ref == 0)`. -/
def put (c : Cache) (b : Nat) : Except Stop Cache :=
  if (c.blocks b).ref=0 then .error .panic
  else
    let c' := modify c b fun x => { x with ref := x.ref-1 }
    if 0 < (c.blocks b).ref-1 then .ok c'
    else
      match (c.blocks b).iostate with
      | .dirty => .ok c'
      | .empty | .label =>
        if c'.hp.n=0 then heapIns { modify c' b (fun x => { x with used := c'.now }) with now := c'.now+1 } b
        else heapIns (modify c' b fun x => { x with used := (c'.blocks (c'.hp.heap 0)).used }) b
      | _ => heapIns { modify c' b (fun x => { x with used := c'.now }) with now := c'.now+1 } b

/-- `(*Block).setIOState`. Queueing for the disk takes a reference for the disk thread; a write
that finishes (clean, or dirty after an old image went out) gives the block a new version. -/
def setIOState (c : Cache) (b : Nat) (s : IOState) : Cache :=
  let old := (c.blocks b).iostate
  match s with
  | .clean =>
    if old=.dirty ∨ old=.writing then
      { modify c b (fun x => { x with iostate := .clean, vers := c.vers }) with vers := c.vers+1 }
    else modify c b fun x => { x with iostate := .clean }
  | .dirty =>
    if old=.writing then
      { modify c b (fun x => { x with iostate := .dirty, vers := c.vers }) with vers := c.vers+1 }
    else modify c b fun x => { x with iostate := .dirty }
  | .reading | .writing => modify c b fun x => { x with iostate := s, ref := x.ref+1 }
  | _ => modify c b fun x => { x with iostate := s }

/-- `(*Block).dirty`: only a clean or label-only local block becomes dirty. -/
def dirty (c : Cache) (b : Nat) : Except Stop Cache :=
  if (c.blocks b).part=.venti then .error .panic
  else if (c.blocks b).iostate=.dirty then .ok c
  else if (c.blocks b).iostate=.clean ∨ (c.blocks b).iostate=.label then
    .ok (modify c b fun x => { x with iostate := .dirty })
  else .error .panic

/-- Unlink a descriptor from its hash chain through `prev`. -/
def unchain (c : Cache) (b : Nat) : Cache :=
  { c with heads := fun h => (c.heads h).erase b }

/-- `bumpBlock`: take the heap's root, check that nobody holds it and that it need not reach
the disk, unchain it and hand it out empty with one reference. -/
def bumpBlock (c : Cache) : Except Stop (Cache × Nat) :=
  if c.hp.n=0 then .error .wait
  else
    let b := c.hp.heap 0
    let c := heapDel c b
    if c.hp.pos b≠BadHeap then .error .panic
    else if (c.blocks b).ref≠0 then .error .panic
    else if (c.blocks b).iostate=.dirty ∨ (c.blocks b).iostate=.reading ∨ (c.blocks b).iostate=.writing then
      .error .panic
    else
      let empty : Blk → Blk := fun x =>
        { x with
          ref := 1
          part := .error
          typ := 0
          epoch := 0
          iostate := .empty }
      .ok (modify (unchain c b) b empty,b)

/-- Hash chain of a local address, `addr % c.hashSize`. -/
def localHash (c : Cache) (addr : UInt32) : Nat :=
  addr.toNat % c.hashSize

/-- Hash chain of a Venti score: its first four bytes little-endian, modulo `c.hashSize`. -/
def ventiHash (c : Cache) (s : Score) : Nat :=
  ((s.get 0).toUInt32 ||| (s.get 1).toUInt32 <<< 8 ||| (s.get 2).toUInt32 <<< 16 |||
    (s.get 3).toUInt32 <<< 24).toNat % c.hashSize

/-- `_local` under `c.lk`: the first descriptor of `(part, addr)` in its chain, out of the heap
with one more reference (`ELabelMismatch` when a wanted epoch differs), or on a miss a bumped
descriptor set to the block and chained at the head. -/
def localBlock (c : Cache) (part : Part) (addr epoch : UInt32) : Except Stop (Cache × Option Nat) :=
  let h := localHash c addr
  match (c.heads h).find? (fun b => (c.blocks b).part=part ∧ (c.blocks b).addr=addr) with
  | some b =>
    if epoch≠0 ∧ (c.blocks b).epoch≠epoch then .ok (c,none)
    else .ok (modify (heapDel c b) b (fun x => { x with ref := x.ref+1 }),some b)
  | none =>
    match bumpBlock c with
    | .error e => .error e
    | .ok (c,b) =>
      let c := modify c b fun x => { x with part := part, addr := addr, score := localToGlobal addr }
      .ok ({ c with heads := Function.update c.heads h (b::c.heads h) },some b)

/-- `global` under `c.lk`, for a score that is not a local address: the descriptor of
`(score, typ)` or a bumped one chained at the head. -/
def globalBlock (c : Cache) (score : Score) (typ : BlockType) : Except Stop (Cache × Nat) :=
  let h := ventiHash c score
  match (c.heads h).find? (fun b => (c.blocks b).part=.venti ∧ (c.blocks b).score=score ∧
      (c.blocks b).typ=typ) with
  | some b => .ok (modify (heapDel c b) b (fun x => { x with ref := x.ref+1 }),b)
  | none =>
    match bumpBlock c with
    | .error e => .error e
    | .ok (c,b) =>
      let c := modify c b fun x => { x with part := .venti, addr := NilBlock, typ := typ, score := score }
      .ok ({ c with heads := Function.update c.heads h (b::c.heads h) },b)

/-- `localLookup` under `c.lk`: a hit only when the chained descriptor has the wanted version. -/
def localLookup (c : Cache) (part : Part) (addr vers : UInt32) : Cache × Option Nat :=
  match (c.heads (localHash c addr)).find? (fun b => (c.blocks b).part=part ∧ (c.blocks b).addr=addr) with
  | some b =>
    if (c.blocks b).vers≠vers then (c,none)
    else (modify (heapDel c b) b (fun x => { x with ref := x.ref+1 }),some b)
  | none => (c,none)

/-- The cache operations, each the `c.lk` section of a lookup or one call on a held block. -/
inductive Op where
  | localBlock (part : Part) (addr epoch : UInt32)
  | globalBlock (score : Score) (typ : BlockType)
  | localLookup (part : Part) (addr vers : UInt32)
  | put (b : Nat)
  | dirty (b : Nat)
  | setIOState (b : Nat) (s : IOState)

/-- One operation. -/
def step (c : Cache) : Op → Except Stop Cache
  | .localBlock part addr epoch => (localBlock c part addr epoch).map Prod.fst
  | .globalBlock score typ => (globalBlock c score typ).map Prod.fst
  | .localLookup part addr vers => .ok (localLookup c part addr vers).1
  | .put b => put c b
  | .dirty b => dirty c b
  | .setIOState b s => .ok (setIOState c b s)

/-- A run, stopping at the first panic or wait. -/
def run (c : Cache) : List Op → Except Stop Cache
  | [] => .ok c
  | op::ops =>
    match step c op with
    | .ok c' => run c' ops
    | .error e => .error e

@[simp] theorem run_nil (c : Cache) : run c []=.ok c := rfl

theorem run_cons_ok {c c' : Cache} {op : Op} (h : step c op=.ok c') (ops : List Op) :
    run c (op::ops)=run c' ops := by
  simp [run,h]

/-! ## The representation invariant -/

/-- An I/O state `bumpBlock` accepts. -/
def Idle (s : IOState) : Prop :=
  s≠.dirty ∧ s≠.reading ∧ s≠.writing

/-- The chain a chained descriptor belongs in. -/
def hashOf (c : Cache) (b : Nat) : Nat :=
  if (c.blocks b).part=.venti then ventiHash c (c.blocks b).score else localHash c (c.blocks b).addr

/-- The block a chained descriptor holds, as the lookups match it. -/
def Same (c : Cache) (b b' : Nat) : Prop :=
  (c.blocks b).part=(c.blocks b').part ∧
    if (c.blocks b).part=.venti then
      (c.blocks b).score=(c.blocks b').score ∧ (c.blocks b).typ=(c.blocks b').typ
    else (c.blocks b).addr=(c.blocks b').addr

/-- The cache's representation invariant: (a) the heap is a valid heap on `used - now` over
descriptors of the table; (b) its members are unreferenced and idle; (c) every chained descriptor
sits once in the chain of its own hash, and no block is chained twice. -/
structure Inv (c : Cache) : Prop where
  heap : Heap.Valid (key c) BadHeap c.hp
  cells : ∀ i, i < c.hp.n → c.hp.heap i < c.nblocks
  nheap_le : c.hp.n ≤ c.nblocks
  nblocks_lt : c.nblocks < BadHeap
  idle : ∀ b, c.hp.pos b≠BadHeap → (c.blocks b).ref=0 ∧ Idle (c.blocks b).iostate
  nodup : ∀ h, (c.heads h).Nodup
  hash : ∀ h b, b ∈ c.heads h → h=hashOf c b
  unique : ∀ h b b', b ∈ c.heads h → b' ∈ c.heads h → Same c b b' → b=b'

/-- The descriptor `allocCache` makes: every field zero. -/
def blankBlk : Blk :=
  ⟨.error,0,Vector.replicate 20 0,0,0,.empty,0,0,0⟩

/-- `allocCache`: every descriptor blank and in the heap, descriptor `i` in cell `i`, the clock
at zero, one empty chain per descriptor. -/
def allocCache (nblocks : Nat) : Cache where
  blocks := fun _ => blankBlk
  nblocks := nblocks
  hp := ⟨fun i => i,fun b => if b < nblocks then b else BadHeap,nblocks⟩
  now := 0
  vers := 1
  hashSize := nblocks
  heads := fun _ => []

/-! ## A write that fails -/

/-- `put` of the last reference to a descriptor outside the heap in a state other than dirty,
empty or label-only: its use is stamped with the clock, which moves on, and it joins the heap in
a cell of its own, whatever the keys. -/
theorem put_last {c : Cache} (hi : ∀ i, i < c.hp.n → c.hp.pos (c.hp.heap i)=i)
    (hp : ∀ x, c.hp.pos x≠BadHeap → c.hp.pos x < c.hp.n ∧ c.hp.heap (c.hp.pos x)=x)
    (hn : c.hp.n < BadHeap) {b : Nat} (hr : (c.blocks b).ref=1) (hpos : c.hp.pos b=BadHeap)
    (hs : (c.blocks b).iostate≠.dirty ∧ (c.blocks b).iostate≠.empty ∧ (c.blocks b).iostate≠.label) :
    ∃ c', put c b=.ok c' ∧ c'.hp.pos b < c'.hp.n ∧ c'.hp.heap (c'.hp.pos b)=b ∧ c'.hp.n=c.hp.n+1 ∧
      c'.blocks b={ c.blocks b with ref := 0, used := c.now } := by
  set c₁ : Cache := { modify (modify c b fun x => { x with ref := x.ref-1 }) b
    (fun x => { x with used := c.now }) with now := c.now+1 } with hc₁
  obtain ⟨hp',hins,hmem,hat,hn'⟩ := Heap.heapIns_mem (key c₁) (h := c₁.hp) hi hp hpos hn
  have hput : put c b=heapIns c₁ b := by
    obtain ⟨h1,h2,h3⟩ := hs
    unfold put
    rw [if_neg (by omega),if_neg (by omega)]
    cases hst : (c.blocks b).iostate <;> simp_all
  refine ⟨{ c₁ with hp := hp' },by rw [hput,heapIns,hins],hmem,hat,hn',?_⟩
  simp [hc₁,hr]

/-- A failed disk write strands a written block in the heap. `(*Block).write` hands a dirty
block to `(*Disk).write`, which queues it (`setIOState` to `BioWriting`, a reference for the disk
thread); the holder puts it; the disk thread's `writeRaw` fails, so it skips `setIOState` and puts
the block still `BioWriting`. When the holder's was the only reference, that last `put` inserts
the block into the heap: the invariant breaks, and when nothing else was in the heap the next
`bumpBlock` takes it and fails its assertion. -/
theorem failed_write_heaps_writing {c : Cache} (hc : Inv c) {b : Nat} (hr : (c.blocks b).ref=1) :
    ∃ c', run c [.setIOState b .writing,.put b,.put b]=.ok c' ∧ c'.hp.pos b≠BadHeap ∧
      (c'.blocks b).iostate=.writing ∧ ¬Inv c' ∧ (c.hp.n=0 → bumpBlock c'=.error .panic) := by
  -- the holder's reference keeps the block out of the heap
  have hpos : c.hp.pos b=BadHeap := by
    by_contra hne
    have := (hc.idle b hne).1
    omega
  set c₁ := setIOState c b .writing with hc₁
  have h₁ : c₁.blocks b={ c.blocks b with iostate := .writing, ref := 2 } := by
    simp [hc₁,setIOState,hr]
  set c₂ := modify c₁ b fun x => { x with ref := x.ref-1 } with hc₂
  have hput₂ : put c₁ b=.ok c₂ := by
    simp [put,h₁,hc₂]
  have h₂ : c₂.blocks b={ c.blocks b with iostate := .writing, ref := 1 } := by
    simp [hc₂,h₁]
  have hhp : c₂.hp=c.hp := rfl
  obtain ⟨c₃,hput₃,hlt,hat,hn₃,h₃⟩ := put_last (c := c₂) (by rw [hhp]; exact hc.heap.indexed)
    (by rw [hhp]; exact hc.heap.placed) (by rw [hhp]; exact lt_of_le_of_lt hc.nheap_le hc.nblocks_lt)
    (by rw [h₂]) (by rw [hhp]; exact hpos) (by simp [h₂])
  have hbad₃ : c₃.hp.pos b≠BadHeap := by
    have : c₃.hp.n ≤ BadHeap := by
      rw [hn₃,hhp]
      exact Nat.succ_le_of_lt (lt_of_le_of_lt hc.nheap_le hc.nblocks_lt)
    omega
  have hw₃ : (c₃.blocks b).iostate=.writing := by
    rw [h₃,h₂]
  refine ⟨c₃,?_,hbad₃,hw₃,fun hinv => (hinv.idle b hbad₃).2.2.2 hw₃,?_⟩
  · rw [run_cons_ok (rfl : step c (.setIOState b .writing)=.ok c₁),run_cons_ok (show step c₁ (.put b)=.ok c₂ from hput₂),
      run_cons_ok (show step c₂ (.put b)=.ok c₃ from hput₃)]
    rfl
  · intro hn0
    have hn1 : c₃.hp.n=1 := by rw [hn₃,hhp,hn0]
    have hroot : c₃.hp.heap 0=b := by
      have h0 : c₃.hp.pos b=0 := by omega
      rw [← h0]
      exact hat
    have hdel : (heapDel c₃ b).hp.pos b=BadHeap := by
      simp [heapDel,Heap.heapDel_last (key c₃) BadHeap hbad₃ (by omega)]
    simp [bumpBlock,hn1,hroot,hdel,hw₃]

/-- One descriptor, held once and dirty, with nothing in the heap: what a one-descriptor cache
holds after `_local` of the super block (a miss, `bumpBlock`, a read the disk thread completes)
and `dirty`. -/
def heldDirty : Cache where
  blocks := Function.update (fun _ => blankBlk) 0
    { blankBlk with part := .super, score := localToGlobal 0, iostate := .dirty, ref := 1 }
  nblocks := 1
  hp := ⟨fun i => i,fun _ => BadHeap,0⟩
  now := 0
  vers := 1
  hashSize := 1
  heads := Function.update (fun _ => []) 0 [0]

/-- `heldDirty` is reachable from a fresh one-descriptor cache. -/
theorem run_allocCache_heldDirty :
    run (allocCache 1) [.localBlock .super 0 0,.setIOState 0 .reading,.setIOState 0 .clean,.put 0,.dirty 0]=
      .ok heldDirty := by
  simp [run,step,localBlock,bumpBlock,allocCache,heapDel,Heap.heapDel,localHash,unchain,setIOState,put,dirty,
    heldDirty,BadHeap,blankBlk,modify,Function.update_apply,Except.map,funext_iff]
  intro x hx hx0
  exact absurd hx0 hx

theorem inv_heldDirty : Inv heldDirty := by
  refine ⟨⟨?_,?_,?_,?_⟩,?_,?_,?_,?_,?_,?_,?_⟩
  · intro i _ hi
    simp [heldDirty] at hi
  · intro i hi
    simp [heldDirty] at hi
  · intro x hx
    simp [heldDirty] at hx
  · simp [heldDirty]
  · intro i hi
    simp [heldDirty] at hi
  · simp [heldDirty]
  · simp [heldDirty,BadHeap]
  · intro b hb
    simp [heldDirty] at hb
  · intro h
    by_cases h0 : h=0 <;> simp [heldDirty,h0]
  · intro h b hb
    by_cases h0 : h=0 <;> simp [heldDirty,h0] at hb
    subst h0 hb
    simp [hashOf,heldDirty,localHash,Nat.mod_one]
  · intro h b b' hb hb' _
    by_cases h0 : h=0 <;> simp [heldDirty,h0] at hb hb'
    rw [hb,hb']

/-- The one-descriptor run, from a fresh cache: after the failed write the next `bumpBlock`
panics. -/
theorem failed_write_heaps_writing_heldDirty :
    run (allocCache 1) [.localBlock .super 0 0,.setIOState 0 .reading,.setIOState 0 .clean,.put 0,.dirty 0]=
        .ok heldDirty ∧
      ∃ c', run heldDirty [.setIOState 0 .writing,.put 0,.put 0]=.ok c' ∧ bumpBlock c'=.error .panic := by
  obtain ⟨c',hrun,-,-,-,hbump⟩ := failed_write_heaps_writing inv_heldDirty (b := 0) rfl
  exact ⟨run_allocCache_heldDirty,c',hrun,hbump rfl⟩

end Fossil.Blocks
