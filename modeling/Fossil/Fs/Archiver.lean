import Fossil.Fs.Super
import Fossil.Lib.Run
import Fossil.Source.Archive

/-!
# The archiver and the snapshots it archives

Two parties share the super block under `fs.elk`. `(*Fs).bumpEpoch` makes the active root a
snapshot and, for an archival snapshot, leaves the old root in `super.next`. The archiver's thread
(`(*Arch).thread`) moves `next` to `current` when no archive is in progress, archives the tree at
`current` (`archWalk`), writes a vac root for it to Venti (`vtWriteBlock`), and records the root's
score in `super.last` while clearing `current`. Each critical section is one step: the walk and
the root's write run outside the lock, so snapshots can come in between. A restart loses the
thread's place but not the super block. The walk itself is `Fossil.Archive.archWalk`; here its
outcome is a step: a score, or a failure.

Every run keeps `Inv`: the super block stays long enough for `pack`, so no step panics
(`step_isSome`); `super.last` heads a chain of vac roots on Venti (`VacChain`), each of which
`UnpackRoot` reads back and whose `Prev` leads to the next, down to the archive the run started
from; and while the thread works, its copies of `last` and `current` are the super block's.
Observed with the roots archival snapshots leave and the roots the thread records (`Hist`), the
recorded roots are a sublist of the snapshots' roots: each archived once at most, in order, and
none that an archival snapshot did not leave. A snapshot taken while another waits in `next`
replaces it, so the sublist can be a proper one.
-/

namespace Fossil.Archiver

open Bytes Fossil.SuperBlock
open Fossil.Venti (Score Root RootVersion RootType unpackRoot unpackRoot_pack checkBlockSize rootStringSize)
open Fossil.Block (NilBlock)
open Fossil.Archive (lengthSha)

/-- `"fossil"`, the name of the vac roots the archiver writes. -/
def vacName : List UInt8 := [0x66,0x6f,0x73,0x73,0x69,0x6c]

/-- `"vac"`, their type. -/
def vacType : List UInt8 := [0x76,0x61,0x63]

/-- The vac root the thread writes for the tree archived under `score`, after the archive `prev`. -/
def vacRoot (blockSize : Nat) (score prev : Score) : Root :=
  ⟨RootVersion,vacName,vacType,score,blockSize.toUInt16,prev⟩

/-- Where the archiver's thread is between its critical sections: waiting for a kick, archiving
the snapshot at `addr` with the score `prev` of the last archive read alongside, or holding the
score of the vac root it wrote. -/
inductive Thread where
  | idle
  | walking (addr : UInt32) (prev : Score)
  | rooted (score : Score)
  deriving DecidableEq

/-- The super block's bytes, the thread, and the blocks sent to Venti. -/
structure St where
  super : List UInt8
  thread : Thread
  sent : List (Venti.BlockType × List UInt8)

inductive Act where
  /-- `(*Fs).bumpEpoch(doarchive)`, whose copy of the root block is at `root`. -/
  | bump (doarchive : Bool) (root : UInt32)
  /-- The thread looks for work. -/
  | take
  /-- `archWalk` returns `ArchSuccess` or `ArchFaked` with `p.score`, and the vac root is written. -/
  | walked (score : Score)
  /-- `archWalk` returns `ArchFailure`, or the root's `vtWriteBlock` fails: the thread sleeps and
  starts over. -/
  | failed
  /-- The thread records the archive in the super block. -/
  | record
  /-- The file server restarts. -/
  | restart

/-- `bumpEpoch`'s change to the super block: the next epoch, the new root, and for an archival
snapshot the old root to archive. -/
def bumpSuper (doarchive : Bool) (root : UInt32) (s : Super) : Super :=
  { s with epochHigh := s.epochHigh+1, active := root, next := if doarchive then s.active else s.next }

/-- One critical section of either party; `none` is a panic. An action the thread is not at
leaves the state alone. -/
def step (sha1 : List UInt8 → Score) (blockSize : Nat) (st : St) : Act → Option St
  | .bump doarchive root =>
    match unpackSuper st.super with
    -- `getSuper` fails: `bumpEpoch` returns the error
    | .error _ => some st
    | .ok s => ((bumpSuper doarchive root s).pack st.super).map fun b => { st with super := b }
  | .take =>
    match st.thread, unpackSuper st.super with
    | .idle, .ok s =>
      if s.next≠NilBlock ∧ s.current=NilBlock then
        (Super.pack { s with current := s.next, next := NilBlock } st.super).map fun b =>
          { st with super := b, thread := .walking s.next s.last }
      else if s.current=NilBlock then some st
      else some { st with thread := .walking s.current s.last }
    | _, _ => some st
  | .walked score =>
    match st.thread with
    | .walking _ prev =>
      let r := (vacRoot blockSize score prev).pack
      some { st with sent := st.sent++[(RootType,r)], thread := .rooted (sha1 r) }
    | _ => some st
  | .failed =>
    match st.thread with
    | .walking _ _ => some { st with thread := .idle }
    | _ => some st
  | .record =>
    match st.thread, unpackSuper st.super with
    | .rooted score, .ok s =>
      (Super.pack { s with current := NilBlock, last := score } st.super).map fun b =>
        { st with super := b, thread := .idle }
    -- `getSuper` fails: the thread sleeps and starts over, the root unrecorded
    | .rooted _, .error _ => some { st with thread := .idle }
    | _, _ => some st
  | .restart => some { st with thread := .idle }

section Steps

variable {sha1 : List UInt8 → Score} {blockSize : Nat} {st st' : St}

/-- What `bumpEpoch` does: nothing if the super block does not unpack, else writes its update. -/
theorem step_bump {doarchive : Bool} {root : UInt32} (h : step sha1 blockSize st (.bump doarchive root)=some st') :
    (∃ e, unpackSuper st.super=.error e) ∧ st'=st ∨
      ∃ s, unpackSuper st.super=.ok s ∧ (bumpSuper doarchive root s).pack st.super=some st'.super ∧
        st'.thread=st.thread ∧ st'.sent=st.sent := by
  unfold step at h
  simp only at h
  split at h
  · cases h
    exact .inl ⟨⟨_,‹_›⟩,rfl⟩
  · obtain ⟨b,hb,rfl⟩ := Option.map_eq_some_iff.mp h
    exact .inr ⟨_,‹_›,hb,rfl,rfl⟩

/-- What the thread's look for work does: nothing unless it is idle and the super block unpacks;
then it moves `next` to `current` if it may, and goes to work on `current` if there is one. -/
theorem step_take (h : step sha1 blockSize st .take=some st') :
    st'.sent=st.sent ∧
      (st'=st ∨ ∃ s, st.thread=.idle ∧ unpackSuper st.super=.ok s ∧
        ((s.next≠NilBlock ∧ s.current=NilBlock ∧
            Super.pack { s with current := s.next, next := NilBlock } st.super=some st'.super ∧
            st'.thread=.walking s.next s.last) ∨
          (s.current≠NilBlock ∧ st'.super=st.super ∧ st'.thread=.walking s.current s.last))) := by
  unfold step at h
  simp only at h
  split at h
  · rename_i s hth hs
    split_ifs at h with h1 h2
    · obtain ⟨b,hb,rfl⟩ := Option.map_eq_some_iff.mp h
      exact ⟨rfl,.inr ⟨s,hth,hs,.inl ⟨h1.1,h1.2,hb,rfl⟩⟩⟩
    · cases h
      exact ⟨rfl,.inl rfl⟩
    · cases h
      exact ⟨rfl,.inr ⟨s,hth,hs,.inr ⟨h2,rfl,rfl⟩⟩⟩
  · cases h
    exact ⟨rfl,.inl rfl⟩

/-- What the thread does with the walk's score: writes the vac root, after the `last` it read. -/
theorem step_walked {score : Score} (h : step sha1 blockSize st (.walked score)=some st') :
    st'=st ∨ ∃ addr prev, st.thread=.walking addr prev ∧ st'.super=st.super ∧
      st'.sent=st.sent++[(RootType,(vacRoot blockSize score prev).pack)] ∧
      st'.thread=.rooted (sha1 (vacRoot blockSize score prev).pack) := by
  unfold step at h
  simp only at h
  split at h
  · cases h
    exact .inr ⟨_,_,‹_›,rfl,rfl,rfl⟩
  · cases h
    exact .inl rfl

/-- A failure, or a restart, only sends the thread back to the start. -/
theorem step_failed (h : step sha1 blockSize st .failed=some st') : st'=st ∨ st'={ st with thread := .idle } := by
  unfold step at h
  simp only at h
  split at h <;> cases h
  · exact .inr rfl
  · exact .inl rfl

/-- What recording does: nothing unless the thread holds a root; then it clears `current` and
records the root's score, or, if the super block does not unpack, starts over. -/
theorem step_record (h : step sha1 blockSize st .record=some st') :
    st'.sent=st.sent ∧
      ((∀ sc, st.thread≠.rooted sc) ∧ st'=st ∨ ∃ sc, st.thread=.rooted sc ∧
        ((∃ e, unpackSuper st.super=.error e) ∧ st'={ st with thread := .idle } ∨
          ∃ s, unpackSuper st.super=.ok s ∧
            Super.pack { s with current := NilBlock, last := sc } st.super=some st'.super ∧ st'.thread=.idle)) := by
  unfold step at h
  simp only at h
  split at h
  · obtain ⟨b,hb,rfl⟩ := Option.map_eq_some_iff.mp h
    exact ⟨rfl,.inr ⟨_,‹_›,.inr ⟨_,‹_›,hb,rfl⟩⟩⟩
  · cases h
    exact ⟨rfl,.inr ⟨_,‹_›,.inl ⟨⟨_,‹_›⟩,rfl⟩⟩⟩
  · rename_i hok herr
    cases h
    refine ⟨rfl,.inl ⟨fun sc hth => ?_,rfl⟩⟩
    cases hs : unpackSuper st.super with
    | error e => exact herr sc e hth hs
    | ok s => exact hok sc s hth hs

/-- No step panics while the super block is long enough for `pack`: every record packed was
unpacked, so it has the version `pack` asserts. -/
theorem step_isSome (hl : SuperSize ≤ st.super.length) (a : Act) : (step sha1 blockSize st a).isSome := by
  cases a with
  | bump doarchive root =>
    unfold step
    simp only
    split
    · rfl
    · rename_i s hs
      simpa using pack_isSome (s := bumpSuper doarchive root s) hl (unpackSuper_valid hs).version
  | take =>
    unfold step
    simp only
    split
    · rename_i s _ hs
      split_ifs
      · simpa using pack_isSome (s := { s with current := s.next, next := NilBlock }) hl (unpackSuper_valid hs).version
      · rfl
      · rfl
    · rfl
  | walked score =>
    unfold step
    simp only
    split <;> rfl
  | failed =>
    unfold step
    simp only
    split <;> rfl
  | record =>
    unfold step
    simp only
    split
    · rename_i sc s _ hs
      simpa using pack_isSome (s := { s with current := NilBlock, last := sc }) hl (unpackSuper_valid hs).version
    · rfl
    · rfl
  | restart => rfl

/-- No step shortens the super block. -/
theorem step_long (hl : SuperSize ≤ st.super.length) {a : Act} (h : step sha1 blockSize st a=some st') :
    SuperSize ≤ st'.super.length := by
  cases a with
  | bump doarchive root =>
    rcases step_bump h with ⟨-,rfl⟩ | ⟨s,-,hp,-,-⟩
    · exact hl
    · rwa [pack_length hp]
  | take =>
    rcases (step_take h).2 with rfl | ⟨s,-,-,⟨-,-,hp,-⟩ | ⟨-,hsup,-⟩⟩
    · exact hl
    · rwa [pack_length hp]
    · rwa [hsup]
  | walked score =>
    rcases step_walked h with rfl | ⟨-,-,-,hsup,-,-⟩
    · exact hl
    · rwa [hsup]
  | failed =>
    rcases step_failed h with rfl | rfl <;> exact hl
  | record =>
    rcases (step_record h).2 with ⟨-,rfl⟩ | ⟨sc,-,⟨-,rfl⟩ | ⟨s,-,hp,-⟩⟩
    · exact hl
    · exact hl
    · rwa [pack_length hp]
  | restart =>
    cases h
    exact hl

end Steps

/-! ## The chain of archives -/

/-- Following `Prev` from the score `sc` through vac roots sent to Venti, each of which
`UnpackRoot` reads back: the roots name the trees `ts`, the latest first, and end at `base`. -/
inductive VacChain (sha1 : List UInt8 → Score) (sent : List (Venti.BlockType × List UInt8)) (base : Score) :
    List Score → Score → Prop
  | start : VacChain sha1 sent base [] base
  | root {r : Root} {ts : List Score} (hsent : (RootType,r.pack) ∈ sent) (hread : unpackRoot r.pack=some (.ok r))
      (hprev : VacChain sha1 sent base ts r.prev) : VacChain sha1 sent base (r.score :: ts) (sha1 r.pack)

/-- Sending more blocks keeps a chain. -/
theorem VacChain.mono {sha1 : List UInt8 → Score} {sent sent' : List (Venti.BlockType × List UInt8)} {base : Score}
    (h : ∀ x ∈ sent, x ∈ sent') {ts : List Score} {sc : Score} (hc : VacChain sha1 sent base ts sc) :
    VacChain sha1 sent' base ts sc := by
  induction hc with
  | start => exact .start
  | root hsent hread _ ih => exact .root (h _ hsent) hread ih

/-- The block size goes into the root's 16 bits whole. -/
theorem toUInt16_toNat_of_check {n : Nat} (h : checkBlockSize n=true) : n.toUInt16.toNat=n := by
  simp only [checkBlockSize,Fossil.Venti.MaxBlockSize,Bool.and_eq_true,decide_eq_true_eq] at h
  have h2 : n ≤ 56*1024 := of_decide_eq_true h.2
  rw [Nat.toUInt16_eq,UInt16.toNat_ofNat']
  omega

/-- `UnpackRoot` reads back the vac roots the thread writes, for a block size it accepts. -/
theorem unpackRoot_vacRoot {blockSize : Nat} (hbs : checkBlockSize blockSize=true) (score prev : Score) :
    unpackRoot (vacRoot blockSize score prev).pack=some (.ok (vacRoot blockSize score prev)) := by
  refine unpackRoot_pack rfl ?_ (show vacName.length < rootStringSize by decide) (show 0 ∉ vacName by decide)
    (show vacType.length < rootStringSize by decide) (show 0 ∉ vacType by decide)
  show checkBlockSize blockSize.toUInt16.toNat=true
  rw [toUInt16_toNat_of_check hbs]
  exact hbs

/-- What every run keeps, from an archive `base`: the super block stays long enough for `pack`;
when it unpacks, its `last` heads a chain of vac roots down to `base`; while the thread walks, the
`last` it read and the `current` it walks are the super block's; and once it wrote a root, a
snapshot is still in progress and the root heads a chain down to `base`. -/
structure Inv (sha1 : List UInt8 → Score) (blockSize : Nat) (base : Score) (st : St) : Prop where
  long : SuperSize ≤ st.super.length
  chain : ∀ s, unpackSuper st.super=.ok s → ∃ ts, VacChain sha1 st.sent base ts s.last
  walking : ∀ s addr prev, unpackSuper st.super=.ok s → st.thread=.walking addr prev →
    prev=s.last ∧ s.current=addr ∧ addr≠NilBlock
  rooted : ∀ s sc, unpackSuper st.super=.ok s → st.thread=.rooted sc →
    s.current≠NilBlock ∧ ∃ ts, VacChain sha1 st.sent base ts sc

section Invariant

variable {sha1 : List UInt8 → Score} {blockSize : Nat} {base : Score} {st st' : St}

/-- Sending the thread back to the start keeps the invariant. -/
theorem Inv.idle (hi : Inv sha1 blockSize base st) : Inv sha1 blockSize base { st with thread := .idle } :=
  ⟨hi.long,hi.chain,(fun _ _ _ _ h => by cases h),(fun _ _ _ h => by cases h)⟩

/-- A super block written from a record `s'` keeps the invariant when `last` of `s'` heads a chain
and `s'` agrees with what the thread holds. -/
theorem Inv.of_pack (hl : SuperSize ≤ st.super.length) {s' : Super} (hp : s'.pack st.super=some st'.super)
    (hchain : ∃ ts, VacChain sha1 st'.sent base ts s'.last)
    (hwalk : ∀ addr prev, st'.thread=.walking addr prev → prev=s'.last ∧ s'.current=addr ∧ addr≠NilBlock)
    (hroot : ∀ sc, st'.thread=.rooted sc → s'.current≠NilBlock ∧ ∃ ts, VacChain sha1 st'.sent base ts sc) :
    Inv sha1 blockSize base st' := by
  refine ⟨by rw [pack_length hp]; exact hl,fun s'' hs'' => ?_,fun s'' addr prev hs'' ht => ?_,
    fun s'' sc hs'' ht => ?_⟩
  all_goals obtain rfl := unpackSuper_pack_eq hp hs''
  · exact hchain
  · exact hwalk addr prev ht
  · exact hroot sc ht

/-- A super block written from the unpacked `s` by a change that keeps `current` and `last`, with
the thread and Venti as they were, keeps the invariant. -/
theorem Inv.repack (hi : Inv sha1 blockSize base st) {s s' : Super} (hs : unpackSuper st.super=.ok s)
    (hp : s'.pack st.super=some st'.super) (hth : st'.thread=st.thread) (hsent : st'.sent=st.sent)
    (hc : s'.current=s.current) (hlast : s'.last=s.last) : Inv sha1 blockSize base st' := by
  refine Inv.of_pack hi.long hp ?_ (fun addr prev ht => ?_) (fun sc ht => ?_)
  · rw [hlast,hsent]
    exact hi.chain s hs
  · rw [hlast,hc]
    exact hi.walking s addr prev hs (hth ▸ ht)
  · rw [hc,hsent]
    exact hi.rooted s sc hs (hth ▸ ht)

/-- Every step keeps the invariant, for a block size `UnpackRoot` accepts. -/
theorem inv_step (hbs : checkBlockSize blockSize=true) : Run.Inductive (step sha1 blockSize) (Inv sha1 blockSize base) := by
  intro st a st' hi h
  cases a with
  | bump doarchive root =>
    rcases step_bump h with ⟨-,rfl⟩ | ⟨s,hs,hp,hth,hsent⟩
    · exact hi
    · exact hi.repack hs hp hth hsent rfl rfl
  | take =>
    obtain ⟨hsent,rfl | ⟨s,-,hs,⟨hn,hc,hp,hth⟩ | ⟨hc,hsup,hth⟩⟩⟩ := step_take h
    · exact hi
    · refine Inv.of_pack hi.long hp (by rw [hsent]; exact hi.chain s hs) (fun addr prev ht => ?_) (fun sc ht => ?_)
      all_goals
        rw [hth] at ht
        cases ht
      exact ⟨rfl,rfl,hn⟩
    · refine ⟨hsup ▸ hi.long,fun s'' hs'' => ?_,fun s'' addr prev hs'' ht => ?_,fun s'' sc hs'' ht => ?_⟩
      all_goals
        rw [hsup,hs] at hs''
        cases hs''
      · rw [hsent]
        exact hi.chain _ hs
      · rw [hth] at ht
        cases ht
        exact ⟨rfl,rfl,hc⟩
      · rw [hth] at ht
        cases ht
  | walked score =>
    rcases step_walked h with rfl | ⟨addr,prev,hth,hsup,hsent,hth'⟩
    · exact hi
    · have hgrow : ∀ x ∈ st.sent, x ∈ st'.sent := fun x hx => hsent ▸ List.mem_append_left _ hx
      refine ⟨hsup ▸ hi.long,fun s hs => ?_,fun s addr' prev' hs ht => ?_,fun s sc hs ht => ?_⟩
      all_goals rw [hsup] at hs
      · obtain ⟨ts,hts⟩ := hi.chain s hs
        exact ⟨ts,hts.mono hgrow⟩
      · rw [hth'] at ht
        cases ht
      · rw [hth'] at ht
        cases ht
        obtain ⟨hprev,hcur,hnil⟩ := hi.walking s addr prev hs hth
        obtain ⟨ts,hts⟩ := hi.chain s hs
        refine ⟨hcur ▸ hnil,score :: ts,.root (hsent ▸ List.mem_append_right _ (List.mem_singleton_self _))
          (unpackRoot_vacRoot hbs score prev) ?_⟩
        rw [show (vacRoot blockSize score prev).prev=s.last from hprev]
        exact hts.mono hgrow
  | failed =>
    rcases step_failed h with rfl | rfl
    · exact hi
    · exact hi.idle
  | record =>
    obtain ⟨hsent,⟨-,rfl⟩ | ⟨sc,hth,⟨-,rfl⟩ | ⟨s,hs,hp,hth'⟩⟩⟩ := step_record h
    · exact hi
    · exact hi.idle
    · refine Inv.of_pack hi.long hp (by rw [hsent]; exact (hi.rooted s sc hs hth).2) (fun _ _ ht => ?_) (fun _ ht => ?_)
      all_goals
        rw [hth'] at ht
        cases ht
  | restart =>
    cases h
    exact hi.idle

end Invariant

/-- A run starts from an idle thread, with the archive the super block names as the base. -/
theorem inv_init {sha1 : List UInt8 → Score} {blockSize : Nat} {st : St} {s : Super}
    (hl : SuperSize ≤ st.super.length) (hidle : st.thread=.idle) (hs : unpackSuper st.super=.ok s) :
    Inv sha1 blockSize s.last st := by
  refine ⟨hl,fun s' hs' => ?_,fun _ _ _ _ ht => ?_,fun _ _ _ ht => ?_⟩
  · rw [hs] at hs'
    cases hs'
    exact ⟨[],.start⟩
  all_goals
    rw [hidle] at ht
    cases ht

/-- Over every interleaving of snapshots and the archiver's steps, from a super block that `pack`
fits and an idle thread: whenever the super block unpacks, its `last` heads a chain of vac roots
sent to Venti, each read back by `UnpackRoot`, whose `Prev` fields lead down to the archive the
run started from. -/
theorem archives_chain {sha1 : List UInt8 → Score} {blockSize : Nat} (hbs : checkBlockSize blockSize=true)
    {st0 st : St} {s0 : Super} (hl : SuperSize ≤ st0.super.length) (hidle : st0.thread=.idle)
    (hs0 : unpackSuper st0.super=.ok s0) {as : List Act} (h : Run.run (step sha1 blockSize) st0 as=some st) :
    ∀ s, unpackSuper st.super=.ok s → ∃ ts, VacChain sha1 st.sent s0.last ts s.last :=
  (Run.run_inv (inv_step hbs) as (inv_init hl hidle hs0) h).chain

/-- The actions of the witness: an archival snapshot of a fresh file system, whose new root is
block 7, archived by one round of the thread. -/
def freshRound : List Act :=
  [.bump true 7,.take,.walked Fossil.Venti.zeroScore,.record]

theorem archives_chain_fresh :
    ∃ st, Run.run (step lengthSha 8192) ⟨freshSuper.block,.idle,[]⟩ freshRound=some st ∧
      ∀ s, unpackSuper st.super=.ok s → ∃ ts, VacChain lengthSha st.sent freshSuper.last ts s.last := by
  have hbs : checkBlockSize 8192=true := by decide
  have hi := @inv_init lengthSha 8192 ⟨freshSuper.block,.idle,[]⟩ freshSuper (block_length _).ge rfl
    (unpackSuper_block freshSuper_valid)
  obtain ⟨st,h⟩ := Option.isSome_iff_exists.mp
    (Run.run_isSome (inv_step hbs) (fun _ a hi => step_isSome hi.long a) freshRound hi)
  exact ⟨st,h,@archives_chain lengthSha 8192 hbs ⟨freshSuper.block,.idle,[]⟩ st freshSuper (block_length _).ge rfl
    (unpackSuper_block freshSuper_valid) freshRound h⟩

/-! ## Which snapshots are archived -/

/-- What the run has done, for the statements about it: the roots archival snapshots left for
the archiver, and the roots the thread recorded as archived, in order. -/
structure Hist where
  snaps : List UInt32
  archived : List UInt32

/-- What a step adds to the history: `bumpEpoch(true)` leaves the old active root, and a record
archives `current`. -/
def observed (st : St) (a : Act) (_ : St) (h : Hist) : Hist :=
  match a with
  | .bump true _ =>
    match unpackSuper st.super with
    | .ok s => { h with snaps := h.snaps++[s.active] }
    | .error _ => h
  | .record =>
    match st.thread, unpackSuper st.super with
    | .rooted _, .ok s => { h with archived := h.archived++[s.current] }
    | _, _ => h
  | _ => h

/-- The roots waiting to be archived: the one in progress, then the next. -/
def pending (s : Super) : List UInt32 :=
  (if s.current=NilBlock then [] else [s.current])++(if s.next=NilBlock then [] else [s.next])

/-- What every observed run keeps: the invariant, and the roots archived, followed by those
waiting, in the order the snapshots left them. -/
structure HInv (sha1 : List UInt8 → Score) (blockSize : Nat) (base : Score) (p : St × Hist) : Prop where
  inv : Inv sha1 blockSize base p.1
  sub : p.2.archived.Sublist p.2.snaps
  pend : ∀ s, unpackSuper p.1.super=.ok s → (p.2.archived++pending s).Sublist p.2.snaps

section History

variable {sha1 : List UInt8 → Score} {blockSize : Nat} {base : Score} {st st' : St} {h : Hist}

/-- Steps that neither change the super block nor the history keep the order. -/
theorem HInv.quiet (hi : HInv sha1 blockSize base (st,h)) (hinv : Inv sha1 blockSize base st')
    (hsup : st'.super=st.super) : HInv sha1 blockSize base (st',h) :=
  ⟨hinv,hi.sub,fun s hs => hi.pend s (hsup ▸ hs)⟩

/-- With no root to record, a record leaves the history alone. -/
theorem observed_record_of_not_rooted (hnr : ∀ sc, st.thread≠.rooted sc) : observed st .record st' h=h := by
  unfold observed
  simp only
  split
  · exact absurd ‹_› (hnr _)
  · rfl

/-- The waiting roots after `bumpEpoch(true)`: the one in progress, then the old active root, in
place of the next. -/
theorem sublist_pending_bump {l L : List UInt32} {s : Super} (r : UInt32) (h : (l++pending s).Sublist L) :
    (l++pending (bumpSuper true r s)).Sublist (L++[s.active]) := by
  unfold pending at h
  rw [← List.append_assoc] at h
  have hc : (l++if s.current=NilBlock then [] else [s.current]).Sublist L := (List.sublist_append_left _ _).trans h
  have ha : (if s.active=NilBlock then [] else [s.active]).Sublist [s.active] := by
    split_ifs
    · exact List.nil_sublist _
    · exact List.Sublist.refl _
  simpa [pending,bumpSuper,List.append_assoc] using hc.append ha

/-- A snapshot keeps the order: an archival one adds its root behind the others, and its root
replaces the one waiting in `next`. -/
theorem hinv_bump (hbs : checkBlockSize blockSize=true) (hi : HInv sha1 blockSize base (st,h)) {doarchive : Bool}
    {root : UInt32} (hst : step sha1 blockSize st (.bump doarchive root)=some st') :
    HInv sha1 blockSize base (st',observed st (.bump doarchive root) st' h) := by
  have hinv := inv_step hbs st _ st' hi.inv hst
  rcases step_bump hst with ⟨⟨e,he⟩,rfl⟩ | ⟨s,hs,hp,-,-⟩
  · cases doarchive with
    | false => exact hi
    | true =>
      unfold observed
      simpa [he] using hi
  cases doarchive with
  | false =>
    refine ⟨hinv,hi.sub,fun s' hs' => ?_⟩
    obtain rfl := unpackSuper_pack_eq hp hs'
    unfold observed
    simpa [pending,bumpSuper] using hi.pend s hs
  | true =>
    unfold observed
    simp only [hs]
    refine ⟨hinv,hi.sub.trans (List.sublist_append_left _ _),fun s' hs' => ?_⟩
    obtain rfl := unpackSuper_pack_eq hp hs'
    exact sublist_pending_bump root (hi.pend s hs)

/-- Taking work keeps the order: `next` becomes `current` only when none is in progress. -/
theorem hinv_take (hbs : checkBlockSize blockSize=true) (hi : HInv sha1 blockSize base (st,h))
    (hst : step sha1 blockSize st .take=some st') : HInv sha1 blockSize base (st',observed st .take st' h) := by
  have hinv := inv_step hbs st _ st' hi.inv hst
  obtain ⟨-,rfl | ⟨s,-,hs,⟨hn,hc,hp,-⟩ | ⟨-,hsup,-⟩⟩⟩ := step_take hst
  · exact hi
  · refine ⟨hinv,hi.sub,fun s' hs' => ?_⟩
    obtain rfl := unpackSuper_pack_eq hp hs'
    unfold observed
    simpa [pending,hn,hc] using hi.pend s hs
  · exact hi.quiet hinv hsup

/-- Recording keeps the order: the root in progress moves to the archived ones. -/
theorem hinv_record (hbs : checkBlockSize blockSize=true) (hi : HInv sha1 blockSize base (st,h))
    (hst : step sha1 blockSize st .record=some st') : HInv sha1 blockSize base (st',observed st .record st' h) := by
  have hinv := inv_step hbs st _ st' hi.inv hst
  obtain ⟨-,⟨hnr,rfl⟩ | ⟨sc,hth,⟨⟨e,he⟩,rfl⟩ | ⟨s,hs,hp,-⟩⟩⟩ := step_record hst
  · rw [observed_record_of_not_rooted hnr]
    exact hi
  · unfold observed
    simpa [hth,he] using hi.quiet hinv rfl
  · have hc := (hi.inv.rooted s sc hs hth).1
    have hpend := hi.pend s hs
    unfold observed
    simp only [hth,hs]
    refine ⟨hinv,(List.sublist_append_left _ _).trans (by simpa [pending,hc] using hpend),fun s' hs' => ?_⟩
    obtain rfl := unpackSuper_pack_eq hp hs'
    simpa [pending,hc,List.append_assoc] using hpend

/-- Every observed step keeps the order. -/
theorem hinv_step (hbs : checkBlockSize blockSize=true) :
    Run.Inductive (Run.observe (step sha1 blockSize) observed) (HInv sha1 blockSize base) := by
  rintro ⟨st,h⟩ a ⟨st',h'⟩ hi hstep
  obtain ⟨st'',hst,heq⟩ := Option.map_eq_some_iff.mp hstep
  simp only [Prod.mk.injEq] at heq
  obtain ⟨rfl,rfl⟩ := heq
  have hinv := inv_step hbs st a st'' hi.inv hst
  cases a with
  | bump doarchive root => exact hinv_bump hbs hi hst
  | take => exact hinv_take hbs hi hst
  | walked score =>
    rcases step_walked hst with rfl | ⟨-,-,-,hsup,-,-⟩
    · exact hi
    · exact hi.quiet hinv hsup
  | failed =>
    rcases step_failed hst with rfl | rfl
    · exact hi
    · exact hi.quiet hinv rfl
  | record => exact hinv_record hbs hi hst
  | restart =>
    cases hst
    exact hi.quiet hinv rfl

end History

/-- Over every interleaving, observed from a super block that `pack` fits and an idle thread, with
the roots waiting at the start counted as left by earlier snapshots: the roots the archiver
records are a sublist of the roots archival snapshots left, so each is archived at most once, in
the order of the snapshots, and none is archived that no snapshot left. The run is the model's. -/
theorem archives_snapshots_in_order {sha1 : List UInt8 → Score} {blockSize : Nat} (hbs : checkBlockSize blockSize=true)
    {st0 st : St} {s0 : Super} {hist : Hist} (hl : SuperSize ≤ st0.super.length) (hidle : st0.thread=.idle)
    (hs0 : unpackSuper st0.super=.ok s0) {as : List Act}
    (h : Run.run (Run.observe (step sha1 blockSize) observed) (st0,⟨pending s0,[]⟩) as=some (st,hist)) :
    Run.run (step sha1 blockSize) st0 as=some st ∧ hist.archived.Sublist hist.snaps := by
  have h0 : HInv sha1 blockSize s0.last (st0,⟨pending s0,[]⟩) :=
    ⟨inv_init hl hidle hs0,List.nil_sublist _,fun s hs => by rw [hs0] at hs; cases hs; exact List.Sublist.refl _⟩
  refine ⟨?_,(Run.run_inv (hinv_step hbs) as h0 h).sub⟩
  rw [← Run.run_observe (step sha1 blockSize) observed st0 ⟨pending s0,[]⟩ as,h]
  rfl

/-- Archival snapshots at blocks 7, 9 and 11 while the thread archives the first: the second is
replaced by the third before the thread takes it. -/
def busyRun : List Act :=
  [.bump true 7,.take,.bump true 9,.bump true 11,.walked Fossil.Venti.zeroScore,.record]

theorem archives_snapshots_in_order_busy :
    ∃ st hist, Run.run (Run.observe (step lengthSha 8192) observed)
        (⟨freshSuper.block,.idle,[]⟩,⟨pending freshSuper,[]⟩) busyRun=some (st,hist) ∧
      Run.run (step lengthSha 8192) ⟨freshSuper.block,.idle,[]⟩ busyRun=some st ∧ hist.archived.Sublist hist.snaps := by
  have hbs : checkBlockSize 8192=true := by decide
  have hi := @inv_init lengthSha 8192 ⟨freshSuper.block,.idle,[]⟩ freshSuper (block_length _).ge rfl
    (unpackSuper_block freshSuper_valid)
  -- the observed run is defined exactly where the plain one is
  have hsome : (Run.run (Run.observe (step lengthSha 8192) observed)
      (⟨freshSuper.block,.idle,[]⟩,⟨pending freshSuper,[]⟩) busyRun).isSome := by
    rw [← Option.isSome_map (f := Prod.fst),Run.run_observe]
    exact Run.run_isSome (inv_step hbs) (fun _ a hi => step_isSome hi.long a) busyRun hi
  obtain ⟨⟨st,hist⟩,h⟩ := Option.isSome_iff_exists.mp hsome
  exact ⟨st,hist,h,@archives_snapshots_in_order lengthSha 8192 hbs ⟨freshSuper.block,.idle,[]⟩ st freshSuper hist
    (block_length _).ge rfl (unpackSuper_block freshSuper_valid) busyRun h⟩

/-! ## A round of the archiver -/

section Round

variable {sha1 : List UInt8 → Score} {blockSize : Nat} {st : St} {s : Super}

theorem step_take_next {sup b : List UInt8} {sent : List (Venti.BlockType × List UInt8)}
    (hs : unpackSuper sup=.ok s) (hn : s.next≠NilBlock) (hc : s.current=NilBlock)
    (hp : Super.pack { s with current := s.next, next := NilBlock } sup=some b) :
    step sha1 blockSize ⟨sup,.idle,sent⟩ .take=some ⟨b,.walking s.next s.last,sent⟩ := by
  unfold step
  simp [hs,hn,hc,hp]

theorem step_take_current {sup : List UInt8} {sent : List (Venti.BlockType × List UInt8)}
    (hs : unpackSuper sup=.ok s) (hc : s.current≠NilBlock) :
    step sha1 blockSize ⟨sup,.idle,sent⟩ .take=some ⟨sup,.walking s.current s.last,sent⟩ := by
  unfold step
  simp [hs,hc]

theorem step_walked_eq {sup : List UInt8} {sent : List (Venti.BlockType × List UInt8)} {addr : UInt32}
    {prev : Score} (t : Score) :
    step sha1 blockSize ⟨sup,.walking addr prev,sent⟩ (.walked t)=
      some ⟨sup,.rooted (sha1 (vacRoot blockSize t prev).pack),sent++[(RootType,(vacRoot blockSize t prev).pack)]⟩ :=
  rfl

theorem step_record_eq {sup b : List UInt8} {sent : List (Venti.BlockType × List UInt8)} {sc : Score}
    (hs : unpackSuper sup=.ok s) (hp : Super.pack { s with current := NilBlock, last := sc } sup=some b) :
    step sha1 blockSize ⟨sup,.rooted sc,sent⟩ .record=some ⟨b,.idle,sent⟩ := by
  unfold step
  simp [hs,hp]

/-- One undisturbed round of the thread archives the snapshot waiting: the one in progress, or
else the next. From an idle thread and a super block that unpacks, looking for work, the walk's
score `t` and the record leave no archive in progress, take `next` if none was, and make `last`
the score of the vac root for `t`, sent to Venti with the `last` before as its `Prev`. -/
theorem archive_round (hl : SuperSize ≤ st.super.length) (hidle : st.thread=.idle) (hs : unpackSuper st.super=.ok s)
    (hwork : s.current≠NilBlock ∨ s.next≠NilBlock) (t : Score) :
    ∃ st', Run.run (step sha1 blockSize) st [.take,.walked t,.record]=some st' ∧ st'.thread=.idle ∧
      st'.sent=st.sent++[(RootType,(vacRoot blockSize t s.last).pack)] ∧
      unpackSuper st'.super=
        .ok
          { s with
            current := NilBlock
            next := if s.current=NilBlock then NilBlock else s.next
            last := sha1 (vacRoot blockSize t s.last).pack } := by
  obtain ⟨sup,th,sent⟩ := st
  subst hidle
  have hv := unpackSuper_valid hs
  by_cases hc : s.current=NilBlock
  · have hn : s.next≠NilBlock := hwork.resolve_left (not_not.mpr hc)
    obtain ⟨b1,hp1,hl1,hu1⟩ :=
      pack_valid (s := { s with current := s.next, next := NilBlock }) ⟨hv.1,hv.2,hv.3,hv.4⟩ hl
    obtain ⟨b2,hp2,-,hu2⟩ := pack_valid
      (s :=
        { { s with current := s.next, next := NilBlock } with
          current := NilBlock
          last := sha1 (vacRoot blockSize t s.last).pack })
      ⟨hv.1,hv.2,hv.3,hv.4⟩ (hl1 ▸ hl)
    refine ⟨⟨b2,.idle,sent++[(RootType,(vacRoot blockSize t s.last).pack)]⟩,?_,rfl,rfl,by simpa [hc] using hu2⟩
    rw [Run.run_cons,step_take_next hs hn hc hp1,Option.bind_some,Run.run_cons,step_walked_eq,Option.bind_some,
      Run.run_cons,step_record_eq hu1 hp2,Option.bind_some,Run.run_nil]
  · obtain ⟨b2,hp2,-,hu2⟩ := pack_valid
      (s := { s with current := NilBlock, last := sha1 (vacRoot blockSize t s.last).pack }) ⟨hv.1,hv.2,hv.3,hv.4⟩ hl
    refine ⟨⟨b2,.idle,sent++[(RootType,(vacRoot blockSize t s.last).pack)]⟩,?_,rfl,rfl,by simpa [hc] using hu2⟩
    rw [Run.run_cons,step_take_current hs hc,Option.bind_some,Run.run_cons,step_walked_eq,Option.bind_some,
      Run.run_cons,step_record_eq hs hp2,Option.bind_some,Run.run_nil]

end Round

/-- From every state a run reaches, an idle thread with a snapshot waiting archives it in one
undisturbed round: the round returns, takes the snapshot, and makes `last` the score of a vac root
for the walk's score `t` that sits on top of the chain `last` headed before. -/
theorem archive_round_extends_chain {sha1 : List UInt8 → Score} {blockSize : Nat} (hbs : checkBlockSize blockSize=true)
    {st0 st : St} {s0 s : Super} (hl : SuperSize ≤ st0.super.length) (hidle0 : st0.thread=.idle)
    (hs0 : unpackSuper st0.super=.ok s0) {as : List Act} (h : Run.run (step sha1 blockSize) st0 as=some st)
    (hidle : st.thread=.idle) (hs : unpackSuper st.super=.ok s) (hwork : s.current≠NilBlock ∨ s.next≠NilBlock)
    (t : Score) :
    ∃ st', Run.run (step sha1 blockSize) st [.take,.walked t,.record]=some st' ∧ st'.thread=.idle ∧
      unpackSuper st'.super=
        .ok
          { s with
            current := NilBlock
            next := if s.current=NilBlock then NilBlock else s.next
            last := sha1 (vacRoot blockSize t s.last).pack } ∧
      ∃ ts, VacChain sha1 st.sent s0.last ts s.last ∧
        VacChain sha1 st'.sent s0.last (t :: ts) (sha1 (vacRoot blockSize t s.last).pack) := by
  have hi := Run.run_inv (inv_step hbs) as (inv_init hl hidle0 hs0) h
  obtain ⟨ts,hts⟩ := hi.chain s hs
  obtain ⟨st',hrun,hidle',hsent,hs'⟩ := archive_round hi.long hidle hs hwork t
  have hgrow : ∀ x ∈ st.sent, x ∈ st'.sent := fun x hx => hsent ▸ List.mem_append_left _ hx
  have hroot : (RootType,(vacRoot blockSize t s.last).pack) ∈ st'.sent :=
    hsent ▸ List.mem_append_right _ (List.mem_singleton_self _)
  exact ⟨st',hrun,hidle',hs',ts,hts,.root hroot (unpackRoot_vacRoot hbs t s.last) (hts.mono hgrow)⟩

/-- A fresh file system's super block with an archival snapshot of block 0 waiting. -/
def waitingSuper : Super :=
  { freshSuper with next := 0 }

theorem archive_round_extends_chain_waiting :
    ∃ st', Run.run (step lengthSha 8192) ⟨waitingSuper.block,.idle,[]⟩
        [.take,.walked Fossil.Venti.zeroScore,.record]=some st' ∧ st'.thread=.idle ∧
      unpackSuper st'.super=
        .ok
          { waitingSuper with
            current := NilBlock
            next := if waitingSuper.current=NilBlock then NilBlock else waitingSuper.next
            last := lengthSha (vacRoot 8192 Fossil.Venti.zeroScore waitingSuper.last).pack } ∧
      ∃ ts, VacChain lengthSha [] waitingSuper.last ts waitingSuper.last ∧
        VacChain lengthSha st'.sent waitingSuper.last (Fossil.Venti.zeroScore :: ts)
          (lengthSha (vacRoot 8192 Fossil.Venti.zeroScore waitingSuper.last).pack) :=
  @archive_round_extends_chain lengthSha 8192 (by decide) ⟨waitingSuper.block,.idle,[]⟩ ⟨waitingSuper.block,.idle,[]⟩
    waitingSuper waitingSuper (block_length _).ge rfl (unpackSuper_block ⟨rfl,by decide,by decide,by decide⟩) []
    rfl rfl (unpackSuper_block ⟨rfl,by decide,by decide,by decide⟩) (.inr (by decide)) Fossil.Venti.zeroScore

end Fossil.Archiver
