import Fossil.Source.Archived

/-!
# Archiving a tree returns

`archWalk` runs on fuel, one unit for each level of the tree, and `archWalk_spec` says what a walk
leaves when it returns. Here the walk returns: with a Venti session open, a walk of a snapshot
tree whose root has a valid type returns for all fuel from some bound on, without `ArchFailure`,
and leaves the tree's archive on Venti.

The types of the children stay valid on the way down: an entry's depth has three bits, and a
pointer block's children are one level below it. The bound is the tree's height. It is not
computed but found one block at a time: the bound of a block is one more than the largest of its
children's, which the loop over its slots needs all at once (`Filter.eventually_all_finite`).
-/

namespace Fossil.Archive

open Fossil.Block Fossil.Source Fossil.Tree Bytes
open Fossil.Venti (Score ScoreSize EntrySize zeroScore globalToLocal localToGlobal zeroTruncate)
open Filter

/-! ## Valid types -/

/-- `etype` of an unpacked entry is a valid type: a directory or data tree at most seven levels
deep. -/
theorem etype_unpackEntry_lt (d : Buf) (n : Nat) : etype (unpackEntry d n) < BtMax := by
  have hle := unpackEntry_depth_le d n
  have h16 : BtMax=16 := by decide
  have h8 : BtDir=8 := by decide
  have h0 : BtData=0 := rfl
  unfold etype
  generalize (unpackEntry d n).depth=x at hle
  split_ifs
  · rw [h16,h8]
    grind
  · rw [h16,h0]
    grind

/-- The child in a slot of a block of a valid type, other than a data block, has a valid type. -/
theorem slotOf_child_typ {l : Label} {ds ps : Nat} {d : Buf} {n : Nat} {a : UInt32} {t : Block.BlockType}
    {g : UInt32} {ds' ps' : Nat} (hl : l.typ < BtMax) (hd : l.typ≠BtData)
    (h : slotOf l ds ps d n=.child a t g ds' ps') : t < BtMax := by
  have hdown : ∀ x : UInt8, x < BtMax → x≠BtData → x-1 < BtMax := by
    intro x h1 h2
    have h16 : BtMax=16 := by decide
    have h0 : BtData=0 := rfl
    rw [h16] at h1 ⊢
    rw [h0] at h2
    grind
  unfold slotOf at h
  dsimp only at h
  split_ifs at h <;> simp only [Slot.child.injEq] at h
  · rw [← h.2.1]
    exact etype_unpackEntry_lt d n
  · rw [← h.2.1]
    exact hdown _ hl hd

/-- A data block has no slots. -/
theorem slotCount_data (dsize psize : Nat) : slotCount BtData dsize psize=0 := by
  simp [slotCount,initWalk]

/-! ## Rounds that go on -/

/-- What a walk of the tree at `addr` does for the loop above it to go on: from a state that holds
the tree's blocks as `fs0` has them, in an open Venti session, it returns without `ArchFailure`,
and the session stays open. -/
def WalkGoes (fs0 : Fs) (bsize : Nat) (walk : Param → St → UInt32 → Block.BlockType → UInt32 → Option Walked)
    (dsize psize : Nat) (addr : UInt32) (typ : Block.BlockType) (tag : UInt32) (S : List Nat) : Prop :=
  ∀ p st, Agrees (fun x => x ∈ S ∨ (fs0.label x).state &&& BsVenti≠0) fs0 st.fs → st.z=true →
    p.blockSize=bsize → p.dsize=dsize → p.psize=psize →
    ∃ r err p' st', walk p st addr typ tag=some (r,err,p',st') ∧ r≠.failure ∧ st'.z=true

section Loop

variable {sha1 : List UInt8 → Score} {env : Env} {fs0 : Fs} {bsize : Nat}
  {walk : Param → St → UInt32 → Block.BlockType → UInt32 → Option Walked} {addr : UInt32} {dsize psize : Nat}
  {S : Nat → List Nat}

/-- A round goes on when the child's walk does: a slot to keep or a snapshot to empty never stops
the loop, and recording a child's score never fails. -/
theorem archSlot_goes (hN : WalkNode sha1 fs0 bsize walk addr dsize psize S)
    (hG : ∀ n < slotCount (fs0.label addr.toNat).typ dsize psize, ∀ a t g ds ps,
      slotOf (fs0.label addr.toNat) dsize psize (fs0.data addr.toNat) n=.child a t g ds ps →
        WalkGoes fs0 bsize walk ds ps a t g (S n))
    {n : Nat} (hn : n < slotCount (fs0.label addr.toNat).typ dsize psize) {p : Param} {st : St}
    {data : Option Buf} {acc : Buf} (hacc : ∀ i < bsize, curData st (blockAt fs0 addr) data i=acc i)
    (hD : ∀ i, n*slotSize (fs0.label addr.toNat).typ ≤ i → acc i=fs0.data addr.toNat i)
    (hag : Agrees (fun x => x ∈ S n ∨ (fs0.label x).state &&& BsVenti≠0) fs0 st.fs) (hz : st.z=true)
    (hb : p.blockSize=bsize) (hd : p.dsize=dsize) (hp : p.psize=psize) :
    ∃ p' st' data', archSlot walk (blockAt fs0 addr) (decide ((fs0.label addr.toNat).typ=BtDir)) n p st data=
      some (.ok (p',st',data')) ∧ st'.z=true := by
  have hslot := slotOf_round hN hn hacc hD hd hp
  rcases hs : slotOf (fs0.label addr.toNat) dsize psize (fs0.data addr.toNat) n with _ | _ | ⟨a,t,g,ds,ps⟩
  · exact ⟨p,st,data,archSlot_keep (hslot.trans hs),hz⟩
  · have he : archSlot walk (blockAt fs0 addr) (decide ((blockAt fs0 addr).l.typ=BtDir)) n p st data=_ :=
      archSlot_empty (hslot.trans hs)
    rw [pack_emptyEntry] at he
    exact ⟨p,st,_,he,hz⟩
  · obtain ⟨score,hsc,hna,hcp,heq⟩ := archSlot_child (hslot.trans hs)
    obtain ⟨x,err,p2,st2,hw,hx,hz2⟩ := hG n hn a t g ds ps hs { p with dsize := ds, psize := ps } st hag hz hb rfl rfl
    rw [← hcp,← hsc] at hw
    obtain ⟨p',st',data',hch,hz'⟩ := archChild_goes (hsc ▸ hna) hw hx
    exact ⟨p',st',data',heq.trans hch,hz'.trans hz2⟩

/-- The loop from slot `n` to the last goes to its end when every child's walk goes on. By
induction on the slots left, with the invariants of `archLoop_run`. -/
theorem archLoop_goes (hN : WalkNode sha1 fs0 bsize walk addr dsize psize S)
    (hG : ∀ n < slotCount (fs0.label addr.toNat).typ dsize psize, ∀ a t g ds ps,
      slotOf (fs0.label addr.toNat) dsize psize (fs0.data addr.toNat) n=.child a t g ds ps →
        WalkGoes fs0 bsize walk ds ps a t g (S n)) :
    ∀ k n {p : Param} {st : St} {data : Option Buf} {acc : Buf},
      n+k=slotCount (fs0.label addr.toNat).typ dsize psize →
      (∀ i < bsize, curData st (blockAt fs0 addr) data i=acc i) →
      (∀ i, n*slotSize (fs0.label addr.toNat).typ ≤ i → acc i=fs0.data addr.toNat i) →
      Agrees (fun x => (∃ j, n ≤ j ∧ j < slotCount (fs0.label addr.toNat).typ dsize psize ∧ x ∈ S j) ∨
        (fs0.label x).state &&& BsVenti≠0) fs0 st.fs →
      st.z=true → p.blockSize=bsize → p.dsize=dsize → p.psize=psize →
      ∃ pL stL dataL, archLoop walk (blockAt fs0 addr) (decide ((fs0.label addr.toNat).typ=BtDir)) n k p st data=
        some (.ok (pL,stL,dataL)) ∧ stL.z=true
  | 0, _, p, st, data, _, _, _, _, _, hz, _, _, _ => ⟨p,st,data,rfl,hz⟩
  | k+1, n, p, st, data, acc, hk, hacc, hD, hag, hz, hb, hd, hp => by
    have hn : n < slotCount (fs0.label addr.toNat).typ dsize psize := by omega
    have hagn : Agrees (fun x => x ∈ S n ∨ (fs0.label x).state &&& BsVenti≠0) fs0 st.fs :=
      fun x hx => hag x (hx.imp_left fun hx => ⟨n,le_rfl,hn,hx⟩)
    -- round `n` goes on, and leaves the invariants for the rounds after it
    obtain ⟨p1,st1,data1,hr,hz1⟩ := archSlot_goes hN hG hn hacc hD hagn hz hb hd hp
    obtain ⟨_,-,him,hb1,hd1,hp1,hfr,-⟩ := archSlot_step hN hn hacc hD hagn hb hd hp hr
    obtain ⟨pL,stL,dataL,hL,hzL⟩ := archLoop_goes hN hG k (n+1) (by omega) him (slotImage_tail hD)
      (agrees_next_round hN hn hag hfr) hz1 hb1 hd1 hp1
    refine ⟨pL,stL,dataL,?_,hzL⟩
    rw [archLoop,hr]
    exact hL

end Loop

/-! ## The walk -/

/-- A walk of a snapshot tree whose root has a valid type goes on for all fuel from some bound
on. By induction on the tree: a block already on Venti needs one unit, and a block not yet on
Venti one more than all of its children. -/
theorem archWalk_goes (sha1 : List UInt8 → Score) (env : Env) (fs0 : Fs) (bsize : Nat) (henv : env.Honest sha1)
    (hbsz : bsize ≤ Venti.MaxBlockSize) :
    ∀ {dsize psize : Nat} {addr : UInt32} {typ : Block.BlockType} {tag : UInt32} {S : List Nat},
      SnapTree fs0 bsize dsize psize addr typ tag S →
        typ < BtMax → ∀ᶠ fuel in atTop, WalkGoes fs0 bsize (archWalk sha1 env fuel) dsize psize addr typ tag S := by
  intro dsize psize addr typ tag S htree
  induction htree with
  | venti ht hg hv =>
    intro htyp
    refine eventually_atTop.mpr ⟨1,fun fuel hf p st hag hz _ _ _ => ?_⟩
    obtain ⟨fuel,rfl⟩ : ∃ f, fuel=f+1 := ⟨fuel-1,by omega⟩
    obtain ⟨hl,hdat⟩ := hag _ (.inr hv)
    obtain ⟨t,htv⟩ := Option.isSome_iff_exists.mp (vtType_isSome (ht ▸ htyp))
    rw [archWalk_venti (by rw [hl]; exact ht) (by rw [hl]; exact hg) (by rw [hl]; exact hv)]
    simp [shaBlock,hl,htv,hz]
  | @block dsize psize addr typ tag Sc ht hg hv hfit hc hS hnot hdisj ih =>
    intro htyp
    -- the children's walks go on together from some fuel on
    have hchild : ∀ᶠ fuel in atTop, ∀ n < slotCount typ dsize psize, ∀ a t g ds ps,
        slotOf (fs0.label addr.toNat) dsize psize (fs0.data addr.toNat) n=.child a t g ds ps →
          WalkGoes fs0 bsize (archWalk sha1 env fuel) ds ps a t g (Sc n) := by
      refine (eventually_all_finite (Set.finite_lt_nat _)).mpr fun n (hn : n < slotCount typ dsize psize) => ?_
      have hdata : typ≠BtData := by
        rintro rfl
        rw [slotCount_data] at hn
        exact Nat.not_lt_zero n hn
      rcases hs : slotOf (fs0.label addr.toNat) dsize psize (fs0.data addr.toNat) n with _ | _ | ⟨a,t,g,ds,ps⟩
      · exact Eventually.of_forall fun _ _ _ _ _ _ h => by cases h
      · exact Eventually.of_forall fun _ _ _ _ _ _ h => by cases h
      · have hlt : (fs0.label addr.toNat).typ < BtMax := by rw [ht]; exact htyp
        have hnd : (fs0.label addr.toNat).typ≠BtData := by rw [ht]; exact hdata
        have ht' : t < BtMax := slotOf_child_typ hlt hnd hs
        refine (ih n hn a t g ds ps hs ht').mono fun fuel hf a' t' g' ds' ps' hs' => ?_
        cases hs'
        exact hf
    obtain ⟨N,hN⟩ := eventually_atTop.mp hchild
    refine eventually_atTop.mpr ⟨N+1,fun fuel hf p st hag hz hb hd hp => ?_⟩
    obtain ⟨fuel,rfl⟩ : ∃ f, fuel=f+1 := ⟨fuel-1,by omega⟩
    obtain ⟨hl,hdat⟩ := hag addr.toNat (.inl List.mem_cons_self)
    have hblk : blockAt st.fs addr=blockAt fs0 addr := by simp [blockAt,hl,hdat]
    have hWN : WalkNode sha1 fs0 bsize (archWalk sha1 env fuel) addr dsize psize Sc :=
      walkNode_of_block (archWalk_spec sha1 env fs0 bsize fuel) ht hv hfit hc hnot hdisj
    have hacc0 : ∀ i < bsize, curData st (blockAt fs0 addr) none i=fs0.data addr.toNat i :=
      fun i _ => congrFun hdat i
    have hag0 : Agrees (fun x => (∃ j, 0 ≤ j ∧ j < slotCount (fs0.label addr.toNat).typ dsize psize ∧ x ∈ Sc j) ∨
        (fs0.label x).state &&& BsVenti≠0) fs0 st.fs := by
      rw [ht]
      exact agrees_loop_start hag
    obtain ⟨pL,stL,dataL,hloop,hzL⟩ := archLoop_goes hWN (fun n hn => hN fuel (by omega) n (ht ▸ hn)) _ 0
      (Nat.zero_add _) hacc0 (fun _ _ => rfl) hag0 hz hb hd hp
    obtain ⟨-,-,-,hbL,-⟩ := archLoop_run hWN _ 0 (Nat.zero_add _) hacc0 (fun _ _ => rfl) hag0 hb hd hp hloop
    rw [← hblk,← hl,← hd,← hp] at hloop
    obtain ⟨r,err,p',st',hsend,hr,hz'⟩ : ∃ r err p' st', archSend sha1 env (blockAt st.fs addr) pL stL dataL=
        some (r,err,p',st') ∧ r≠.failure ∧ st'.z=true :=
      archSend_goes henv hzL (vtType_isSome (show (blockAt st.fs addr).l.typ < BtMax by rw [hblk]; exact ht ▸ htyp))
        (hbL ▸ hbsz)
    exact ⟨r,err,p',st',(archWalk_loop (by rw [hl]; exact ht) (by rw [hl]; exact hg) (by rw [hl]; exact hv) hloop).trans hsend,
      hr,hz'⟩

/-- Archiving a snapshot tree whose root has a valid type, in an open Venti session, to a server
that answers every write with the data's score and every sync with success, with a label disk that
takes every write and blocks no larger than `MaxBlockSize`, returns for all fuel from some bound
on, without `ArchFailure`, and leaves the tree's archive on Venti under the score it hands back. -/
theorem archWalk_archives_eventually {sha1 : List UInt8 → Score} {bsize dsize psize : Nat} {addr : UInt32}
    {typ : Block.BlockType} {tag : UInt32} {S : List Nat} {p : Param} {st : St}
    (henv : env.Honest sha1) (hbsz : bsize ≤ Venti.MaxBlockSize)
    (htree : SnapTree st.fs bsize dsize psize addr typ tag S) (htyp : typ < BtMax) (hz : st.z=true)
    (hb : p.blockSize=bsize) (hd : p.dsize=dsize) (hp : p.psize=psize) :
    ∀ᶠ fuel in atTop, ∃ r err p' st', archWalk sha1 env fuel p st addr typ tag=some (r,err,p',st') ∧ r≠.failure ∧
      Archived sha1 st.fs bsize st'.sent dsize psize addr typ tag p'.score := by
  refine (archWalk_goes sha1 env st.fs bsize henv hbsz htree htyp).mono fun fuel hgo => ?_
  have hag : Agrees (fun x => x ∈ S ∨ (st.fs.label x).state &&& BsVenti≠0) st.fs st.fs :=
    fun _ _ => And.intro rfl rfl
  obtain ⟨r,err,p',st',h,hr,-⟩ := hgo p st hag hz hb hd hp
  exact ⟨r,err,p',st',h,hr,(archWalk_spec sha1 env st.fs bsize fuel htree p st r err p' st' hag hb hd hp h hr).1⟩

theorem archWalk_archives_eventually_root :
    ∀ᶠ fuel in atTop, ∃ r err p' st',
      archWalk lengthSha (honestEnv lengthSha) fuel (archParam 120) ⟨archFs,true,[],[]⟩ 1 BtDir RootTag=some (r,err,p',st') ∧
        r≠.failure ∧ Archived lengthSha archFs 120 st'.sent 120 0 1 BtDir RootTag p'.score :=
  archWalk_archives_eventually (honestEnv_honest lengthSha) (by decide) archFs_root_tree (by decide) rfl rfl rfl rfl

end Fossil.Archive
