import Fossil.Block
import Fossil.Lib.Replay

/-!
# Soft-update write ordering

Before a pointer or entry slot of a block is overwritten with a reference to a
block that is not yet on the disk, `(*Block).dependency` pushes a record onto
the block's prior list (newest first) saving the slot's old value. When the
flush thread picks the block, `(*Block).write` prunes the list newest first:
a dependency whose dependee is gone from the cache at its recorded version is
written, and it supersedes every older dependency on the same slot (the
`dmap` bitmap). A dependency that cannot be rolled back (slot `-1`) and is not
written keeps the block off the disk. The disk thread then writes the image
`(*Block).rollback` builds: the current data with each surviving dependency's
old value replayed over it, newest first, so the oldest survivor of each slot
wins.

The slot contents are a value type `α` (a score for pointer blocks, a packed
entry for directory blocks). The main result says that the written image holds
in every slot the value that slot had right after its newest written
dependency, read off the prior list, for every written-predicate.
-/

namespace Fossil.Dependency

open Fossil.Block Replay

variable {α : Type*}

/-- One element of a prior list (`BList` in `cache.go`) as `dependency` fills
it: the dependee's partition, address and dirty version, the slot about to be
overwritten (`-1` when there is none) and the slot's old value. -/
structure BList (α : Type*) where
  /-- Partition of the dependee. -/
  part : Part
  /-- Address of the dependee. -/
  addr : UInt32
  /-- Version the dependee had when the dependency was recorded. -/
  vers : UInt32
  /-- Slot of the dependent block, `-1` when the old value is unknown. -/
  index : Int
  /-- Value the slot held before the update. -/
  old : α

/-- The dependee as `dependency` reads it. -/
structure Dependee where
  /-- Partition of the dependee. -/
  part : Part
  /-- Address of the dependee. -/
  addr : UInt32
  /-- Current dirty version of the dependee. -/
  vers : UInt32
  /-- Current I/O state of the dependee. -/
  iostate : IOState

/-- `(*Block).dependency` on a block of type `typ`: nothing to record for a
clean dependee; an assertion failure (`none`) for a slot-less dependency on a
data block from a non-data block, and a panic for a dependee that is neither
clean nor dirty; otherwise a new head of the prior list. -/
def dependency (typ : BlockType) (prior : List (BList α)) (bb : Dependee) (index : Int)
    (old : α) : Option (List (BList α)) :=
  if bb.iostate = .clean then some prior
  else if index = -1 ∧ bb.part = .data ∧ typ ≠ BtData then none
  else if bb.iostate ≠ .dirty then none
  else some (⟨bb.part,bb.addr,bb.vers,index,old⟩::prior)

/-- What `(*Cache).localLookup` reports on a dependency: a miss (the dependee
is not cached at the recorded version, or is in an I/O error state), or the
dependee at that version in the I/O state it settled in. -/
inductive Lookup where
  | miss
  | hit (state : IOState)

/-- `dmap[i/8] |= 1<<uint(i%8)`. For `i = -1` the shift count wraps to 2^64-1
and the byte is unchanged, so only valid slots are recorded. -/
def markWritten (dmap : List Nat) (i : Int) : List Nat :=
  if 0 ≤ i then i.toNat::dmap else dmap

/-- The pruning loop of `(*Block).write`, newest first. A dependency on a slot
in `dmap` is dropped; a miss drops it and records its slot; a clean dependee
drops it without recording the slot; any other hit keeps it, except that a
kept slot-less dependency ends the loop with the block not written. Returns
whether the loop ran to the end, and the prior list as it leaves it. -/
def writePrior (lookup : BList α → Lookup) : List Nat → List (BList α) → Bool × List (BList α)
  | _, [] => (true,[])
  | dmap, p::ps =>
    if 0 ≤ p.index ∧ p.index.toNat ∈ dmap then writePrior lookup dmap ps
    else
      match lookup p with
      | .miss => writePrior lookup (markWritten dmap p.index) ps
      | .hit s =>
        if s = .clean then writePrior lookup dmap ps
        else if p.index < 0 then (false,p::ps)
        else
          let r := writePrior lookup dmap ps
          (r.1,p::r.2)

/-- A cached block as `write`, `rollback` and the disk thread see it. -/
structure Block (α : Type*) where
  /-- Current I/O state. -/
  iostate : IOState
  /-- Dirty version, bumped each time a write finishes. -/
  vers : UInt32
  /-- Dependencies, newest first. -/
  prior : List (BList α)
  /-- Current contents, slot by slot. -/
  data : Nat → α

/-- `(*Block).write`: a block that is not dirty needs no write; otherwise the
prior list is pruned and, if the loop ran to the end, the block is queued for
the disk (`disk.write` sets it writing). -/
def write (lookup : BList α → Lookup) (b : Block α) : Bool × Block α :=
  if b.iostate ≠ .dirty then (true,b)
  else
    let r := writePrior lookup [] b.prior
    (r.1,{ b with prior := r.2, iostate := if r.1 then .writing else b.iostate })

/-- `(*Block).rollback`: the current data when nothing is pending; otherwise
every dependency's old value replayed over a copy, newest first, asserting
that each has a slot. The flag says whether an old image was built. -/
def rollback (data : Nat → α) (prior : List (BList α)) : Option ((Nat → α) × Bool) :=
  match prior with
  | [] => some (data,false)
  | _::_ =>
    if prior.all (fun p => decide (0 ≤ p.index)) then
      some (replay (fun p => p.index.toNat) BList.old data prior,true)
    else none

/-- `(*Disk).thread` on a block being written: the rollback image goes to the
disk; after a failed write the block stays writing, after a successful one it
takes version `cvers` and becomes dirty again when an old image was written,
clean (with its prior list freed) otherwise. Returns the image, the block and
the cache's next version. -/
def diskWrite (cvers : UInt32) (werr : Bool) (b : Block α) :
    Option ((Nat → α) × Block α × UInt32) :=
  (rollback b.data b.prior).map fun r =>
    if werr then (r.1,b,cvers)
    else if r.2 then (r.1,{ b with iostate := .dirty, vers := cvers },cvers+1)
    else (r.1,{ b with iostate := .clean, vers := cvers, prior := [] },cvers+1)

/-! ## The written-predicate view -/

/-- The lookup a written-predicate fixes: a written dependee is gone from the
cache at its recorded version; any other is still the dirty block it was when
the dependency was recorded, as the comment in `write` says it must be. -/
def lookupOf (written : BList α → Bool) (p : BList α) : Lookup :=
  if written p then .miss else .hit .dirty

/-- The value slot `i` had right after its newest dependency whose dependee is
written, read off a newest-first prior list: `cur` is the value after the
position reached (the current data at the head), and an unwritten dependency
passes its saved old value on. With no written dependency on `i` this is the
value before the oldest one. -/
def slotAfterWritten (written : BList α → Bool) (i : Nat) : α → List (BList α) → α
  | cur, [] => cur
  | cur, p::ps =>
    if p.index = i then
      if written p then cur else slotAfterWritten written i p.old ps
    else slotAfterWritten written i cur ps

section Pruning

variable (written : BList α → Bool)

/-- The pruning loop runs to the end exactly when every slot-less dependency
is written. -/
theorem writePrior_fst_iff (dmap : List Nat) (prior : List (BList α)) :
    (writePrior (lookupOf written) dmap prior).1=true ↔
      ∀ p ∈ prior, p.index < 0 → written p=true := by
  induction prior generalizing dmap with
  | nil => simp [writePrior]
  | cons p ps ih =>
    by_cases hs : 0 ≤ p.index ∧ p.index.toNat ∈ dmap
    · rw [writePrior,if_pos hs,ih]
      simp only [List.mem_cons,forall_eq_or_imp]
      exact ⟨fun h => ⟨fun hn => absurd hs.1 (by omega),h⟩,fun h => h.2⟩
    · rw [writePrior,if_neg hs]
      cases hw : written p with
      | true =>
        simp only [lookupOf,hw,if_true,ih,List.mem_cons,forall_eq_or_imp,imp_true_iff,true_and]
      | false =>
        simp only [lookupOf,hw,Bool.false_eq_true,if_false,reduceCtorEq,List.mem_cons,
          forall_eq_or_imp]
        by_cases hn : p.index < 0
        · simp [hn]
        · simp only [hn,if_false,ih,false_imp_iff,true_and]

/-- When the loop runs to the end, every survivor has a slot and an unwritten
dependee. -/
theorem writePrior_survivor (dmap : List Nat) (prior : List (BList α))
    (h : (writePrior (lookupOf written) dmap prior).1=true) :
    ∀ q ∈ (writePrior (lookupOf written) dmap prior).2, 0 ≤ q.index ∧ written q=false := by
  induction prior generalizing dmap with
  | nil => simp [writePrior]
  | cons p ps ih =>
    by_cases hs : 0 ≤ p.index ∧ p.index.toNat ∈ dmap
    · rw [writePrior,if_pos hs] at h ⊢
      exact ih dmap h
    · rw [writePrior,if_neg hs] at h ⊢
      cases hw : written p with
      | true =>
        simp only [lookupOf,hw,if_true] at h ⊢
        exact ih _ h
      | false =>
        simp only [lookupOf,hw,Bool.false_eq_true,if_false,reduceCtorEq] at h ⊢
        by_cases hn : p.index < 0
        · simp [hn] at h
        · simp only [hn,if_false] at h ⊢
          intro q hq
          rcases List.mem_cons.mp hq with rfl | hq
          · exact ⟨by omega,hw⟩
          · exact ih dmap h q hq

/-- The survivors of the loop, replayed oldest-wins, give every slot the value
right after its newest written dependency; a slot already recorded in `dmap`
has no survivor. -/
theorem writePrior_lastWrite (dmap : List Nat) (prior : List (BList α))
    (h : (writePrior (lookupOf written) dmap prior).1=true) (i : Nat) (cur : α) :
    lastWrite (fun p => p.index.toNat) BList.old i cur (writePrior (lookupOf written) dmap prior).2=
      if i ∈ dmap then cur else slotAfterWritten written i cur prior := by
  induction prior generalizing dmap cur with
  | nil => simp [writePrior,slotAfterWritten]
  | cons p ps ih =>
    by_cases hs : 0 ≤ p.index ∧ p.index.toNat ∈ dmap
    · rw [writePrior,if_pos hs] at h ⊢
      rw [ih dmap h cur,slotAfterWritten]
      by_cases hi : p.index=i
      · have hd : i ∈ dmap := by
          have he : p.index.toNat=i := by omega
          exact he ▸ hs.2
        simp [hd]
      · simp [hi]
    · rw [writePrior,if_neg hs] at h ⊢
      cases hw : written p with
      | true =>
        simp only [lookupOf,hw,if_true] at h ⊢
        rw [ih _ h cur,slotAfterWritten]
        by_cases hi : p.index=i
        · have hm : i ∈ markWritten dmap p.index := by
            simp [markWritten,hi]
          have hd : i ∉ dmap := by
            intro hd
            exact hs ⟨by omega,by simpa [hi] using hd⟩
          rw [if_pos hm,if_neg hd,if_pos hi,if_pos hw]
        · have hm : i ∈ markWritten dmap p.index ↔ i ∈ dmap := by
            unfold markWritten
            split
            · have hne : i≠p.index.toNat := by omega
              simp [hne]
            · rfl
          simp [hm,hi]
      | false =>
        simp only [lookupOf,hw,Bool.false_eq_true,if_false,reduceCtorEq] at h ⊢
        by_cases hn : p.index < 0
        · simp [hn] at h
        · simp only [hn,if_false] at h ⊢
          rw [lastWrite,ih dmap h,slotAfterWritten]
          by_cases hi : p.index=i
          · have hk : p.index.toNat=i := by omega
            have hd : i ∉ dmap := by
              intro hd
              exact hs ⟨by omega,hk ▸ hd⟩
            simp [hd,hi,hw]
          · have hk : p.index.toNat≠i := by omega
            simp [hk,hi]

end Pruning

/-- Soft-update ordering of one write of a dirty block, for every
written-predicate: the write goes ahead exactly when every slot-less
dependency is written; when it does, every surviving dependency has a slot
and an unwritten dependee; the disk receives, in every slot, the value right
after the slot's newest written dependency (the value before its oldest one
when none is written), so a slot with no survivor carries the current data;
and after the write the block takes the new version and is dirty again exactly
when a non-empty prior list survived the pruning. -/
theorem write_respects_dependencies (written : BList α → Bool) (b : Block α) (cvers : UInt32)
    (werr : Bool) (hb : b.iostate=.dirty) :
    ((write (lookupOf written) b).1=true ↔ ∀ p ∈ b.prior, p.index < 0 → written p=true) ∧
    ((write (lookupOf written) b).1=true →
      (∀ q ∈ (write (lookupOf written) b).2.prior, 0 ≤ q.index ∧ written q=false) ∧
      ∃ img b' v, diskWrite cvers werr (write (lookupOf written) b).2=some (img,b',v) ∧
        (∀ i : Nat, img i=slotAfterWritten written i (b.data i) b.prior) ∧
        (∀ i : Nat, (∀ q ∈ (write (lookupOf written) b).2.prior, q.index≠i) → img i=b.data i) ∧
        b'.iostate=(if werr then .writing
          else if (write (lookupOf written) b).2.prior=[] then .clean else .dirty) ∧
        (werr=false → b'.vers=cvers)) := by
  have hw1 : (write (lookupOf written) b).1=(writePrior (lookupOf written) [] b.prior).1 := by
    simp [write,hb]
  have hw2 : (write (lookupOf written) b).2.prior=(writePrior (lookupOf written) [] b.prior).2 := by
    simp [write,hb]
  have hw3 : (write (lookupOf written) b).2.data=b.data := by
    simp [write,hb]
  rw [hw1]
  refine ⟨writePrior_fst_iff written [] b.prior,fun hok => ?_⟩
  have hsurv := writePrior_survivor written [] b.prior hok
  have hw4 : (write (lookupOf written) b).2.iostate=.writing := by
    simp [write,hb,hok]
  rw [hw2]
  refine ⟨hsurv,?_⟩
  set P := (writePrior (lookupOf written) [] b.prior).2 with hP
  have himg : ∀ i : Nat, replay (fun p => p.index.toNat) BList.old b.data P i=
      slotAfterWritten written i (b.data i) b.prior := by
    intro i
    rw [replay_apply,hP,writePrior_lastWrite written [] b.prior hok]
    simp
  have hall : P.all (fun p => decide (0 ≤ p.index))=true := by
    simp only [List.all_eq_true,decide_eq_true_eq]
    exact fun q hq => (hsurv q hq).1
  cases hPc : P with
  | nil =>
    refine ⟨b.data,if werr then (write (lookupOf written) b).2
        else { (write (lookupOf written) b).2 with iostate := .clean, vers := cvers, prior := [] },
      if werr then cvers else cvers+1,?_,fun i => ?_,fun _ _ => rfl,?_,?_⟩
    · cases werr <;> simp [diskWrite,rollback,hw2,hw3,hPc]
    · have := himg i
      rw [hPc] at this
      simpa using this
    · cases werr <;> simp [hw4]
    · intro hwe
      simp [hwe]
  | cons q qs =>
    rw [hPc] at hall
    refine ⟨replay (fun p => p.index.toNat) BList.old b.data (q::qs),
      if werr then (write (lookupOf written) b).2
        else { (write (lookupOf written) b).2 with iostate := .dirty, vers := cvers },
      if werr then cvers else cvers+1,?_,fun i => ?_,fun i hi => ?_,?_,?_⟩
    · cases werr <;> simp [diskWrite,rollback,hw2,hw3,hPc,hall]
    · rw [← hPc]
      exact himg i
    · rw [replay_apply]
      apply lastWrite_of_forall_ne
      intro r hr he
      have hr' : r ∈ P := hPc ▸ hr
      exact hi r hr (by have := (hsurv r hr').1; omega)
    · cases werr <;> simp [hw4]
    · intro hwe
      simp [hwe]

theorem write_respects_dependencies_labelWritten : IOState.dirty=IOState.dirty ∧
    (let written := fun p : BList Nat => decide (p.part=.label)
    let b : Block Nat := ⟨.dirty,3,[⟨.data,7,2,0,11⟩,⟨.label,1,1,-1,0⟩],fun _ => 5⟩
    ((write (lookupOf written) b).1=true ↔ ∀ p ∈ b.prior, p.index < 0 → written p=true) ∧
    ((write (lookupOf written) b).1=true →
      (∀ q ∈ (write (lookupOf written) b).2.prior, 0 ≤ q.index ∧ written q=false) ∧
      ∃ img b' v, diskWrite 4 false (write (lookupOf written) b).2=some (img,b',v) ∧
        (∀ i : Nat, img i=slotAfterWritten written i (b.data i) b.prior) ∧
        (∀ i : Nat, (∀ q ∈ (write (lookupOf written) b).2.prior, q.index≠i) → img i=b.data i) ∧
        b'.iostate=(if false then .writing
          else if (write (lookupOf written) b).2.prior=[] then .clean else .dirty) ∧
        (false=false → b'.vers=4))) :=
  ⟨rfl,write_respects_dependencies _ _ 4 false rfl⟩

end Fossil.Dependency
