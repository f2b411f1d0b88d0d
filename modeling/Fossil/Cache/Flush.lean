import Fossil.Block
import Fossil.Lib.Sorted

/-!
# The flush work list

`(*Cache).flushFill` scans the block descriptors and writes each dirty
block's (partition, address, version) into the `baddr` slot of the same
index, then sorts the whole `baddr` array by (partition, address) and sets the
work-list length `bw` from the loop variable of `for i = range c.blocks`,
which ends at `len(c.blocks)-1`. Slots of blocks that are not dirty keep what
earlier rounds left there. `(*Cache).flushBlock` then walks `baddr[0:bw]`,
writing the blocks it still finds and requeueing the ones it cannot write.

Go's `sort.Sort` is not stable, so the sort is a parameter: any function that
returns a sorted permutation. The results show that the work list always
loses the greatest entry of the filled array, and that a fresh cache whose
last descriptor holds its only dirty block never flushes it.
-/

namespace Fossil.Flush

open Fossil.Block Sorted

/-- Work-list element (`BAddr`): the zero value is partition `PartError`,
address 0, version 0, which is what `make` fills `c.baddr` with. -/
structure BAddr where
  /-- Partition of the block. -/
  part : Part
  /-- Address within the partition. -/
  addr : UInt32
  /-- Dirty version the block had when listed. -/
  vers : UInt32
  deriving DecidableEq, Repr

/-- The zero `BAddr`. -/
def BAddr.zero : BAddr := ⟨.error,0,0⟩

/-- `BAddrSorter.Less`: by partition, then by address. -/
def baddrLess (a b : BAddr) : Bool :=
  a.part.toNat < b.part.toNat || (a.part.toNat=b.part.toNat && a.addr < b.addr)

/-- The fields of a block descriptor the flush code reads. -/
structure CBlock where
  /-- Partition, `PartError` for a descriptor holding no block. -/
  part : Part
  /-- Address within the partition. -/
  addr : UInt32
  /-- Dirty version. -/
  vers : UInt32
  /-- I/O state. -/
  iostate : IOState
  deriving DecidableEq, Repr

/-- The cache fields `flushFill` and `flushBlock` read and write. -/
structure FlushState where
  /-- Block descriptors, `c.blocks`. -/
  blocks : List CBlock
  /-- The work-list array, as long as `c.blocks`. -/
  baddr : List BAddr
  /-- Count of dirty blocks, `c.ndirty`. -/
  ndirty : Nat
  /-- Write position, `c.bw`. -/
  bw : Nat
  /-- Read position, `c.br`. -/
  br : Nat
  /-- End of the current round, `c.be`. -/
  be : Nat
  /-- Blocks written this round, `c.nflush`. -/
  nflush : Nat

/-- One iteration of the `flushFill` loop on slot `p` for descriptor `b`. -/
def fillSlot (b : CBlock) (p : BAddr) : BAddr :=
  if b.part=.error ∨ b.iostate≠.dirty then p else ⟨b.part,b.addr,b.vers⟩

/-- `baddr` after the `flushFill` loop, before the sort. -/
def fillList (c : FlushState) : List BAddr :=
  List.zipWith fillSlot c.blocks c.baddr

/-- Blocks the loop counts as dirty: dirty or being written. -/
def countDirty (blocks : List CBlock) : Nat :=
  (blocks.filter fun b => b.part≠.error ∧ (b.iostate=.dirty ∨ b.iostate=.writing)).length

/-- `(*Cache).flushFill`. Nothing happens with no dirty blocks; otherwise the
filled array is sorted whole, `ndirty` is recounted and `bw` is the last index
the range loop visited. -/
def flushFill (sort : List BAddr → List BAddr) (c : FlushState) : FlushState :=
  if c.ndirty=0 then c
  else { c with baddr := sort (fillList c), ndirty := countDirty c.blocks, bw := c.blocks.length-1 }

/-- The work list `flushBlock` walks, `baddr[0:bw]`. -/
def workList (c : FlushState) : List BAddr :=
  c.baddr.take c.bw

/-- `(*Cache).localLookup` as the flush code calls it: the hash chains hold the
descriptors whose partition is not `PartError`; a block found at another
version, or in an I/O error state, is a miss. -/
def localLookup (blocks : List CBlock) (p : BAddr) : Option CBlock :=
  match blocks.find? (fun b => b.part≠.error ∧ b.part=p.part ∧ b.addr=p.addr) with
  | some b => if b.vers=p.vers ∧ b.iostate≠.readError ∧ b.iostate≠.ventiError then some b else none
  | none => none

/-- Start of a `flushBlock` iteration: at the end of a round, refill when
nothing was requeued or everything was, and start the next round. -/
def flushRound (sort : List BAddr → List BAddr) (c : FlushState) : FlushState :=
  if c.br=c.be then
    let c' := if c.bw=0 ∨ c.bw=c.be then flushFill sort c else c
    { c' with br := 0, be := c'.bw, bw := 0, nflush := 0 }
  else c

/-- `(*Cache).flushBlock`, with `blockWrite` the decision of `(*Block).write`
for a block found in the cache. `fuel` bounds the iterations of its `for`
loop: `none` means the loop had not returned. -/
def flushBlock (sort : List BAddr → List BAddr) (blockWrite : CBlock → Bool) :
    Nat → FlushState → Option (Bool × FlushState)
  | 0, _ => none
  | fuel+1, c =>
    let c := flushRound sort c
    if c.br=c.be then some (false,c)
    else
      let p := c.baddr.getD c.br BAddr.zero
      let c := { c with br := c.br+1 }
      match localLookup c.blocks p with
      | some b =>
        if blockWrite b then some (true,{ c with nflush := c.nflush+1 })
        else if c.bw < c.be then
          flushBlock sort blockWrite fuel { c with baddr := c.baddr.set c.bw p, bw := c.bw+1 }
        else flushBlock sort blockWrite fuel c
      | none => flushBlock sort blockWrite fuel c

/-- What Go's `sort.Sort` promises: a permutation, sorted by `Less`. -/
structure GoSort (sort : List BAddr → List BAddr) : Prop where
  perm : ∀ l, (sort l).Perm l
  sorted : ∀ l, SortedBy baddrLess (sort l)

/-- The work list after a fill is the sorted filled array without its last
position. -/
theorem workList_flushFill (sort : List BAddr → List BAddr) (hsort : GoSort sort) (c : FlushState)
    (hlen : c.baddr.length=c.blocks.length) (hnd : c.ndirty≠0) :
    workList (flushFill sort c)=(sort (fillList c)).take ((sort (fillList c)).length-1) := by
  have hl : (sort (fillList c)).length=c.blocks.length := by
    rw [(hsort.perm _).length_eq,fillList,List.length_zipWith,hlen,min_self]
  simp only [workList,flushFill,if_neg hnd,hl]

/-- `flushFill` always leaves the greatest entry of the filled array off the
work list: a dirty block whose entry sorts above every other slot, stale
slots included, is not attempted in the round that follows. -/
theorem flushFill_drops_greatest (sort : List BAddr → List BAddr) (hsort : GoSort sort)
    (c : FlushState) (hlen : c.baddr.length=c.blocks.length) (hnd : c.ndirty≠0) (e : BAddr)
    (he : (fillList c).count e=1) (hmax : ∀ x ∈ fillList c, x≠e → baddrLess x e=true) :
    e ∉ workList (flushFill sort c) := by
  rw [workList_flushFill sort hsort c hlen hnd]
  have hp := hsort.perm (fillList c)
  apply not_mem_take_pred_of_greatest baddrLess (hsort.sorted _)
  · rw [hp.count_eq]
    exact he
  · intro x hx hxe
    exact hmax x (hp.subset hx) hxe

/-- `Less` is asymmetric. -/
theorem baddrLess_asymm {a b : BAddr} (h : baddrLess a b=true) : baddrLess b a=false := by
  simp only [baddrLess,Bool.or_eq_true,Bool.and_eq_true,decide_eq_true_eq] at h
  simp only [baddrLess,Bool.or_eq_false_iff,Bool.and_eq_false_iff,decide_eq_false_iff_not]
  rcases h with h | ⟨h₁,h₂⟩
  · omega
  · refine ⟨by omega,Or.inr ?_⟩
    exact UInt32.lt_asymm h₂

/-- A conforming sort puts two entries in `Less` order, from either order. -/
theorem GoSort.pair {sort : List BAddr → List BAddr} (hsort : GoSort sort) {a b : BAddr}
    (hab : baddrLess a b=true) (l : List BAddr) (hl : l=[a,b] ∨ l=[b,a]) : sort l=[a,b] := by
  have hne : a≠b := by
    rintro rfl
    rw [baddrLess_asymm hab] at hab
    exact Bool.false_ne_true hab
  have hp : (sort l).Perm [a,b] := by
    rcases hl with rfl | rfl
    · exact hsort.perm _
    · exact (hsort.perm _).trans (List.Perm.swap a b [])
  have hs := hsort.sorted l
  match hm : sort l, hp, hs with
  | [x,y], hp, hs =>
    have hx : x=a ∨ x=b := by simpa using hp.mem_iff.mp (by simp)
    have hy : y=a ∨ y=b := by simpa using hp.mem_iff.mp (by simp)
    rcases hx with hx | hx <;> rcases hy with hy | hy <;> rw [hx,hy] at hp hs ⊢
    · have hc := hp.count_eq a
      simp [hne] at hc
    · have h' : baddrLess a b=false := by simpa [SortedBy] using hs
      simp [hab] at h'
    · have hc := hp.count_eq b
      simp [hne,Ne.symm hne] at hc
  | [], hp, _ => exact absurd hp.length_eq (by simp)
  | [_], hp, _ => exact absurd hp.length_eq (by simp)
  | _::_::_::_, hp, _ => exact absurd hp.length_eq (by simp)

/-- The dirty block of the failing input: data block 5 at version 1. -/
def dirtyData : CBlock := ⟨.data,5,1,.dirty⟩

/-- A two-descriptor cache just after start-up: the super block was read into
the first descriptor the heap handed out, a data block into the second and
dirtied, and no flush round has run (`baddr` is all zero). -/
def lastDirty : FlushState :=
  ⟨[⟨.super,0,0,.clean⟩,dirtyData],[BAddr.zero,BAddr.zero],1,0,0,0,0⟩

/-- The state every later round of `flushBlock` returns to on `lastDirty`. -/
def lastDirtyRound : FlushState :=
  { lastDirty with baddr := [BAddr.zero,⟨.data,5,1⟩], br := 1, be := 1 }

theorem lastDirty_less : baddrLess BAddr.zero ⟨.data,5,1⟩=true := by decide

theorem flushBlock_lastDirty_start (sort : List BAddr → List BAddr) (hsort : GoSort sort)
    (blockWrite : CBlock → Bool) (fuel : Nat) :
    flushBlock sort blockWrite (fuel+1) lastDirty=flushBlock sort blockWrite fuel lastDirtyRound := by
  have hs := hsort.pair lastDirty_less [BAddr.zero,⟨.data,5,1⟩] (Or.inl rfl)
  simp only [BAddr.zero] at hs
  simp [flushBlock,flushRound,flushFill,fillList,fillSlot,lastDirty,lastDirtyRound,dirtyData,
    countDirty,localLookup,BAddr.zero,hs]

theorem flushBlock_lastDirtyRound (sort : List BAddr → List BAddr) (hsort : GoSort sort)
    (blockWrite : CBlock → Bool) (fuel : Nat) :
    flushBlock sort blockWrite (fuel+1) lastDirtyRound=flushBlock sort blockWrite fuel lastDirtyRound := by
  have hs := hsort.pair lastDirty_less [BAddr.zero,⟨.data,5,1⟩] (Or.inl rfl)
  simp only [BAddr.zero] at hs
  simp [flushBlock,flushRound,flushFill,fillList,fillSlot,lastDirty,lastDirtyRound,dirtyData,
    countDirty,localLookup,BAddr.zero,hs]

/-- On the failing input the first fill leaves the dirty block off the work
list, which holds only a zero slot, and `flushBlock` never returns, whatever
the block writes would decide: the dirty block is never written, so
`flush(wait=true)`, `Fs.sync` and `Cache.free` never finish. -/
theorem flushFill_lastDirty_skipped (sort : List BAddr → List BAddr) (hsort : GoSort sort) :
    workList (flushFill sort lastDirty)=[BAddr.zero] ∧
    (⟨.data,5,1⟩ : BAddr) ∉ workList (flushFill sort lastDirty) ∧
    ∀ (blockWrite : CBlock → Bool) (fuel : Nat), flushBlock sort blockWrite fuel lastDirty=none := by
  have hs := hsort.pair lastDirty_less [BAddr.zero,⟨.data,5,1⟩] (Or.inl rfl)
  simp only [BAddr.zero] at hs
  have hw : workList (flushFill sort lastDirty)=[BAddr.zero] := by
    simp [workList,flushFill,fillList,fillSlot,lastDirty,dirtyData,BAddr.zero,hs]
  refine ⟨hw,by rw [hw]; decide,fun blockWrite fuel => ?_⟩
  have hround : ∀ n, flushBlock sort blockWrite n lastDirtyRound=none := by
    intro n
    induction n with
    | zero => rfl
    | succ n ih => rw [flushBlock_lastDirtyRound sort hsort,ih]
  cases fuel with
  | zero => rfl
  | succ n => rw [flushBlock_lastDirty_start sort hsort,hround]

/-- Merge sort by `Less`, one function Go's `sort.Sort` may behave as. -/
def mergeSortBAddr (l : List BAddr) : List BAddr :=
  l.mergeSort fun a b => !baddrLess b a

theorem goSort_mergeSortBAddr : GoSort mergeSortBAddr where
  perm l := List.mergeSort_perm l _
  sorted l := by
    have htrans : ∀ a b c : BAddr, (!baddrLess b a)=true → (!baddrLess c b)=true →
        (!baddrLess c a)=true := by
      intro a b c
      simp only [baddrLess,Bool.not_eq_true',Bool.or_eq_false_iff,Bool.and_eq_false_iff,
        decide_eq_false_iff_not,UInt32.lt_iff_toNat_lt]
      omega
    have htotal : ∀ a b : BAddr, ((!baddrLess b a) || !baddrLess a b)=true := by
      intro a b
      simp only [baddrLess,Bool.or_eq_true,Bool.not_eq_true',Bool.or_eq_false_iff,
        Bool.and_eq_false_iff,decide_eq_false_iff_not,UInt32.lt_iff_toNat_lt]
      omega
    have h : (mergeSortBAddr l).Pairwise fun a b => (!baddrLess b a)=true :=
      List.pairwise_mergeSort htrans htotal l
    simpa [SortedBy] using h

theorem flushFill_lastDirty_skipped_mergeSort : GoSort mergeSortBAddr ∧
    (workList (flushFill mergeSortBAddr lastDirty)=[BAddr.zero] ∧
    (⟨.data,5,1⟩ : BAddr) ∉ workList (flushFill mergeSortBAddr lastDirty) ∧
    ∀ (blockWrite : CBlock → Bool) (fuel : Nat),
      flushBlock mergeSortBAddr blockWrite fuel lastDirty=none) :=
  ⟨goSort_mergeSortBAddr,flushFill_lastDirty_skipped mergeSortBAddr goSort_mergeSortBAddr⟩

end Fossil.Flush
