import Fossil.Source.Archive

/-!
# What archiving leaves on Venti

The tree `archWalk` is given (`SnapTree`): every block it looks up carries the type and tag
asked for, the slots it reads lie inside the block, and every block not yet on Venti is reached
from one slot only, so that rewriting one subtree leaves the others alone. Blocks already on
Venti may be shared.

What Venti holds afterwards (`Archived`): for a block already on Venti, the score `shaBlock`
computes from its bytes; for any other, the zero-truncated bytes of its image were written, and
its score names them. The image of a block (`blockImage`) is the block with every slot the walk
reads replaced as the walk replaces it: the score of each local child by the score of the
child's archived copy (clearing `EntryLocal` in an entry), and each snapshot that is not
archived, or entry marked `EntryNoArchive`, by an empty entry. The children's scores are those
`Archived` gives them, so the relation describes the whole Venti tree below the score.

`archWalk_spec` proves it by induction on the fuel, with one lemma for a round of the loop
(`archSlot_step`) and one for the loop (`archLoop_run`).
-/

namespace Fossil.Archive

open Fossil.Block Fossil.Source Fossil.Tree Bytes
open Fossil.Venti (Score ScoreSize EntrySize zeroScore globalToLocal localToGlobal zeroTruncate)

/-! ## Slots -/

/-- Bytes of a slot: an entry in a directory block, a score in a pointer block. -/
def slotSize (typ : Block.BlockType) : Nat :=
  if typ=BtDir then EntrySize else ScoreSize

theorem scoreAt_congr {d d' : Buf} {o : Nat} (h : ∀ k < ScoreSize, d (o+k)=d' (o+k)) :
    scoreAt d o=scoreAt d' o := by
  unfold scoreAt
  congr 1
  funext k
  exact h k.val k.isLt

/-- What a slot holds depends on its bytes only. -/
theorem slotOf_congr {l : Label} {ds ps : Nat} {d d' : Buf} {n : Nat}
    (h : ∀ k < slotSize l.typ, d (n*slotSize l.typ+k)=d' (n*slotSize l.typ+k)) :
    slotOf l ds ps d n=slotOf l ds ps d' n := by
  unfold slotSize at h
  unfold slotOf
  by_cases hd : l.typ=BtDir
  · simp only [hd,if_true] at h ⊢
    rw [unpackEntry_congr h]
  · simp only [hd,if_false] at h ⊢
    rw [scoreAt_congr h]

/-- Only a directory block has snapshots to empty. -/
theorem slotOf_empty {l : Label} {ds ps : Nat} {d : Buf} {n : Nat} (h : slotOf l ds ps d n=.empty) :
    l.typ=BtDir := by
  unfold slotOf at h
  by_contra hd
  simp only [hd,if_false] at h
  split_ifs at h

/-- The block sizes of a pointer block's child are the block's. -/
theorem slotOf_child_sizes {l : Label} {ds ps : Nat} {d : Buf} {n : Nat} {a : UInt32} {t : Block.BlockType}
    {g : UInt32} {ds' ps' : Nat} (h : slotOf l ds ps d n=.child a t g ds' ps') (hd : l.typ≠BtDir) :
    ds'=ds ∧ ps'=ps := by
  unfold slotOf at h
  simp only [hd,if_false] at h
  split_ifs at h
  simp only [Slot.child.injEq] at h
  exact ⟨h.2.2.2.1.symm,h.2.2.2.2.symm⟩

/-! ## The image of a block -/

/-- Slot `n` of `acc` as the walk leaves it, read from the original bytes `d`: a snapshot emptied,
the child's score `s` in place of its local one. -/
def slotImage (l : Label) (d acc : Buf) (n : Nat) (s : Score) : Slot → Buf
  | .keep => acc
  | .empty => write acc (n*EntrySize) (emptyEntry (unpackEntry d n)).bytes
  | .child .. =>
    if l.typ=BtDir then write acc (n*EntrySize) (archivedEntry (unpackEntry d n) s).bytes
    else write acc (n*ScoreSize) s.toList

/-- Slots `n` to `n+k-1` of `acc` as the walk leaves them, child `j` having score `sc j`. -/
def archImage (l : Label) (dsize psize : Nat) (sc : Nat → Score) (d : Buf) (n k : Nat) (acc : Buf) : Buf :=
  (List.range' n k).foldl (fun acc j => slotImage l d acc j (sc j) (slotOf l dsize psize d j)) acc

/-- The bytes `d` of a block labelled `l` as archived: every slot the walk reads. -/
def blockImage (l : Label) (dsize psize : Nat) (sc : Nat → Score) (d : Buf) : Buf :=
  archImage l dsize psize sc d 0 (slotCount l.typ dsize psize) d

theorem archImage_succ (l : Label) (dsize psize : Nat) (sc : Nat → Score) (d : Buf) (n k : Nat) (acc : Buf) :
    archImage l dsize psize sc d n (k+1) acc=
      archImage l dsize psize sc d (n+1) k (slotImage l d acc n (sc n) (slotOf l dsize psize d n)) :=
  rfl

/-- The image reads the scores of its own slots only. -/
theorem archImage_congr {l : Label} {dsize psize : Nat} {sc sc' : Nat → Score} {d : Buf} :
    ∀ {n k : Nat} {acc : Buf}, (∀ j, n ≤ j → j < n+k → sc j=sc' j) →
      archImage l dsize psize sc d n k acc=archImage l dsize psize sc' d n k acc
  | _, 0, _, _ => rfl
  | n, k+1, acc, h => by
    rw [archImage_succ,archImage_succ,h n le_rfl (by omega)]
    exact archImage_congr fun j h1 h2 => h j (by omega) (by omega)

/-- A slot's image changes the slot's bytes only. -/
theorem slotImage_of_not_mem {l : Label} {ds ps : Nat} {d acc : Buf} {n : Nat} {s : Score} {i : Nat}
    (hi : i < n*slotSize l.typ ∨ (n+1)*slotSize l.typ ≤ i) :
    slotImage l d acc n s (slotOf l ds ps d n) i=acc i := by
  unfold slotSize at hi
  rcases hs : slotOf l ds ps d n with _ | _ | ⟨a,t,g,ds',ps'⟩
  · rfl
  · have hd := slotOf_empty hs
    simp only [hd,if_true] at hi
    exact write_of_not_mem (by rw [bytes_length]; rcases hi with hi | hi <;> [left; right] <;> linarith [Nat.succ_mul n EntrySize])
  · unfold slotImage
    split_ifs with hd
    · simp only [hd,if_true] at hi
      exact write_of_not_mem (by rw [bytes_length]; rcases hi with hi | hi <;> [left; right] <;> linarith [Nat.succ_mul n EntrySize])
    · simp only [hd,if_false] at hi
      exact write_of_not_mem (by simp only [Vector.length_toList]; rcases hi with hi | hi <;> [left; right] <;> linarith [Nat.succ_mul n ScoreSize,show ScoreSize=20 from rfl])

/-- Past slot `n`, the image of slot `n` holds what `acc` held. -/
theorem slotImage_tail {l : Label} {ds ps : Nat} {d acc : Buf} {n : Nat} {s : Score}
    (hD : ∀ i, n*slotSize l.typ ≤ i → acc i=d i) :
    ∀ i, (n+1)*slotSize l.typ ≤ i → slotImage l d acc n s (slotOf l ds ps d n) i=d i := by
  intro i hi
  rw [slotImage_of_not_mem (.inr hi)]
  exact hD i (le_trans (Nat.mul_le_mul_right _ (Nat.le_succ n)) hi)

/-- Writing the same bytes into two buffers that agree below `N` keeps them agreeing. -/
theorem write_agree {d d' : Buf} {N : Nat} (h : ∀ i < N, d i=d' i) (o : Nat) (l : List UInt8) :
    ∀ i < N, write d o l i=write d' o l i := by
  intro i hi
  unfold write
  split_ifs
  · rfl
  · exact h i hi

/-! ## The tree and its archive -/

/-- The blocks `archWalk` reads from `addr` down, in a tree of `dsize`-byte data and `psize`-byte
pointer blocks: each carries the type and tag asked for; a block not yet on Venti has its slots
inside its `bsize` bytes, and the trees of its children share no block not yet on Venti with each
other or with it. `S` lists the blocks not yet on Venti. -/
inductive SnapTree (fs : Fs) (bsize : Nat) : Nat → Nat → UInt32 → Block.BlockType → UInt32 → List Nat → Prop
  | venti {dsize psize : Nat} {addr : UInt32} {typ : Block.BlockType} {tag : UInt32}
      (ht : (fs.label addr.toNat).typ=typ) (hg : (fs.label addr.toNat).tag=tag)
      (hv : (fs.label addr.toNat).state &&& BsVenti≠0) :
      SnapTree fs bsize dsize psize addr typ tag []
  | block {dsize psize : Nat} {addr : UInt32} {typ : Block.BlockType} {tag : UInt32} (S : Nat → List Nat)
      (ht : (fs.label addr.toNat).typ=typ) (hg : (fs.label addr.toNat).tag=tag)
      (hv : (fs.label addr.toNat).state &&& BsVenti=0)
      (hfit : slotCount typ dsize psize*slotSize typ ≤ bsize)
      (hc : ∀ n < slotCount typ dsize psize, ∀ a t g ds ps,
        slotOf (fs.label addr.toNat) dsize psize (fs.data addr.toNat) n=.child a t g ds ps →
          SnapTree fs bsize ds ps a t g (S n))
      (hS : ∀ n < slotCount typ dsize psize, ∀ x ∈ S n, ∃ a t g ds ps,
        slotOf (fs.label addr.toNat) dsize psize (fs.data addr.toNat) n=.child a t g ds ps)
      (hnot : ∀ n < slotCount typ dsize psize, addr.toNat ∉ S n)
      (hdisj : ∀ i < slotCount typ dsize psize, ∀ j < slotCount typ dsize psize, i≠j → ∀ x ∈ S i, x ∉ S j) :
      SnapTree fs bsize dsize psize addr typ tag (addr.toNat :: (List.range (slotCount typ dsize psize)).flatMap S)

/-- What Venti holds for the tree at `addr` under the score `s`, given the blocks written to it:
for a block already on Venti, the score of its bytes; for any other, the zero-truncated bytes of
its image, whose children hold the trees of the block's children. -/
inductive Archived (sha1 : List UInt8 → Score) (fs : Fs) (bsize : Nat) (sent : List (Venti.BlockType × List UInt8)) :
    Nat → Nat → UInt32 → Block.BlockType → UInt32 → Score → Prop
  | venti {dsize psize : Nat} {addr : UInt32} {typ : Block.BlockType} {tag : UInt32} {s : Score}
      (ht : (fs.label addr.toNat).typ=typ) (hg : (fs.label addr.toNat).tag=tag)
      (hv : (fs.label addr.toNat).state &&& BsVenti≠0)
      (hs : shaBlock sha1 (fs.label addr.toNat) (fs.data addr.toNat) bsize=some s) :
      Archived sha1 fs bsize sent dsize psize addr typ tag s
  | block {dsize psize : Nat} {addr : UInt32} {typ : Block.BlockType} {tag : UInt32} {t : Venti.BlockType}
      (sc : Nat → Score) (ht : (fs.label addr.toNat).typ=typ) (hg : (fs.label addr.toNat).tag=tag)
      (hv : (fs.label addr.toNat).state &&& BsVenti=0) (hvt : vtType typ=some t)
      (hc : ∀ n < slotCount typ dsize psize, ∀ a t' g ds ps,
        slotOf (fs.label addr.toNat) dsize psize (fs.data addr.toNat) n=.child a t' g ds ps →
          Archived sha1 fs bsize sent ds ps a t' g (sc n))
      (hsent : (t,zeroTruncate t (region (blockImage (fs.label addr.toNat) dsize psize sc (fs.data addr.toNat)) 0 bsize)) ∈ sent) :
      Archived sha1 fs bsize sent dsize psize addr typ tag
        (sha1 (zeroTruncate t (region (blockImage (fs.label addr.toNat) dsize psize sc (fs.data addr.toNat)) 0 bsize)))

/-- Writing more blocks to Venti keeps what it held. -/
theorem Archived.mono {sha1 : List UInt8 → Score} {fs : Fs} {bsize : Nat} {sent sent' : List (Venti.BlockType × List UInt8)}
    (h : ∀ x ∈ sent, x ∈ sent') {ds ps : Nat} {a : UInt32} {t : Block.BlockType} {g : UInt32} {s : Score}
    (ha : Archived sha1 fs bsize sent ds ps a t g s) : Archived sha1 fs bsize sent' ds ps a t g s := by
  induction ha with
  | venti ht hg hv hs => exact .venti ht hg hv hs
  | block sc ht hg hv hvt _ hsent ih => exact .block sc ht hg hv hvt ih (h _ hsent)

/-- The blocks a tree lists are not on Venti yet. -/
theorem SnapTree.fresh {fs : Fs} {bsize ds ps : Nat} {a : UInt32} {t : Block.BlockType} {g : UInt32} {S : List Nat}
    (h : SnapTree fs bsize ds ps a t g S) : ∀ x ∈ S, (fs.label x).state &&& BsVenti=0 := by
  induction h with
  | venti => simp
  | block S ht hg hv hfit hc hS hnot hdisj ih =>
    intro x hx
    rcases List.mem_cons.mp hx with rfl | hx
    · exact hv
    · obtain ⟨n,hn,hxn⟩ := List.mem_flatMap.mp hx
      obtain ⟨a,t,g,ds,ps,hs⟩ := hS n (List.mem_range.mp hn) x hxn
      exact ih n (List.mem_range.mp hn) a t g ds ps hs x hxn

/-! ## The walk, round by round -/

/-- `fs'` holds the labels and bytes of `fs` at every address `P` names. -/
def Agrees (P : Nat → Prop) (fs fs' : Fs) : Prop :=
  ∀ x, P x → fs'.label x=fs.label x ∧ fs'.data x=fs.data x

/-- What a walk of the tree at `addr` does from a state that holds the tree's blocks as `fs0` has
them: unless it fails, Venti holds the tree's archive under the score it hands back, the block
sizes come back, no block outside `S` changed, and blocks were only added to Venti. -/
def WalkSpec (sha1 : List UInt8 → Score) (fs0 : Fs) (bsize : Nat)
    (walk : Param → St → UInt32 → Block.BlockType → UInt32 → Option Walked) (dsize psize : Nat) (addr : UInt32)
    (typ : Block.BlockType) (tag : UInt32) (S : List Nat) : Prop :=
  ∀ p st r err p' st', Agrees (fun x => x ∈ S ∨ (fs0.label x).state &&& BsVenti≠0) fs0 st.fs →
    p.blockSize=bsize → p.dsize=dsize → p.psize=psize → walk p st addr typ tag=some (r,err,p',st') → r≠.failure →
    Archived sha1 fs0 bsize st'.sent dsize psize addr typ tag p'.score ∧ p'.blockSize=bsize ∧ p'.dsize=dsize ∧
      p'.psize=psize ∧ Agrees (fun x => x ∉ S) st.fs st'.fs ∧ ∃ more, st'.sent=st.sent++more

/-- A block not yet on Venti as the loop finds it: its slots fit, each child's walk does what
`WalkSpec` says over blocks not yet on Venti, and the children's blocks are apart. -/
structure WalkNode (sha1 : List UInt8 → Score) (fs0 : Fs) (bsize : Nat)
    (walk : Param → St → UInt32 → Block.BlockType → UInt32 → Option Walked) (addr : UInt32) (dsize psize : Nat)
    (S : Nat → List Nat) : Prop where
  fresh : (fs0.label addr.toNat).state &&& BsVenti=0
  fit : slotCount (fs0.label addr.toNat).typ dsize psize*slotSize (fs0.label addr.toNat).typ ≤ bsize
  child : ∀ n < slotCount (fs0.label addr.toNat).typ dsize psize, ∀ a t g ds ps,
    slotOf (fs0.label addr.toNat) dsize psize (fs0.data addr.toNat) n=.child a t g ds ps →
      WalkSpec sha1 fs0 bsize walk ds ps a t g (S n) ∧ ∀ x ∈ S n, (fs0.label x).state &&& BsVenti=0
  apart : ∀ n < slotCount (fs0.label addr.toNat).typ dsize psize, addr.toNat ∉ S n
  disjoint : ∀ i < slotCount (fs0.label addr.toNat).typ dsize psize, ∀ j < slotCount (fs0.label addr.toNat).typ dsize psize,
    i≠j → ∀ x ∈ S i, x ∉ S j

section Loop

variable {sha1 : List UInt8 → Score} {env : Env} {fs0 : Fs} {bsize : Nat}
  {walk : Param → St → UInt32 → Block.BlockType → UInt32 → Option Walked} {addr : UInt32} {dsize psize : Nat}
  {S : Nat → List Nat}

/-- The bytes of slot `n` lie below the block size. -/
theorem slot_lt (hN : WalkNode sha1 fs0 bsize walk addr dsize psize S) {n : Nat}
    (hn : n < slotCount (fs0.label addr.toNat).typ dsize psize) {k : Nat} (hk : k < slotSize (fs0.label addr.toNat).typ) :
    n*slotSize (fs0.label addr.toNat).typ+k < bsize := by
  have := Nat.mul_le_mul_right (slotSize (fs0.label addr.toNat).typ) hn
  have := hN.fit
  rw [Nat.succ_mul] at *
  omega

/-- While the slots from `n` on are as the original block has them, a round reads slot `n` as the
original block has it. -/
theorem slot_bytes (hN : WalkNode sha1 fs0 bsize walk addr dsize psize S) {n : Nat}
    (hn : n < slotCount (fs0.label addr.toNat).typ dsize psize) {st : St} {data : Option Buf} {acc : Buf}
    (hacc : ∀ i < bsize, curData st (blockAt fs0 addr) data i=acc i)
    (hD : ∀ i, n*slotSize (fs0.label addr.toNat).typ ≤ i → acc i=fs0.data addr.toNat i) :
    ∀ k < slotSize (fs0.label addr.toNat).typ, curData st (blockAt fs0 addr) data (n*slotSize (fs0.label addr.toNat).typ+k)=
      fs0.data addr.toNat (n*slotSize (fs0.label addr.toNat).typ+k) :=
  fun k hk => by rw [hacc _ (slot_lt hN hn hk),hD _ (Nat.le_add_right _ _)]

theorem slotOf_round (hN : WalkNode sha1 fs0 bsize walk addr dsize psize S) {n : Nat}
    (hn : n < slotCount (fs0.label addr.toNat).typ dsize psize) {p : Param} {st : St} {data : Option Buf} {acc : Buf}
    (hacc : ∀ i < bsize, curData st (blockAt fs0 addr) data i=acc i)
    (hD : ∀ i, n*slotSize (fs0.label addr.toNat).typ ≤ i → acc i=fs0.data addr.toNat i)
    (hd : p.dsize=dsize) (hp : p.psize=psize) :
    slotOf (blockAt fs0 addr).l p.dsize p.psize (curData st (blockAt fs0 addr) data) n=
      slotOf (fs0.label addr.toNat) dsize psize (fs0.data addr.toNat) n := by
  rw [hd,hp]
  exact slotOf_congr (slot_bytes hN hn hacc hD)

/-- The blocks the rounds after round `n` read are still as `fs0` has them: round `n` changed only
its child's blocks and the block's own bytes, and the children's blocks are apart. -/
theorem agrees_next_round (hN : WalkNode sha1 fs0 bsize walk addr dsize psize S) {n : Nat}
    (hn : n < slotCount (fs0.label addr.toNat).typ dsize psize) {fs fs' : Fs}
    (hag : Agrees (fun x => (∃ j, n ≤ j ∧ j < slotCount (fs0.label addr.toNat).typ dsize psize ∧ x ∈ S j) ∨
      (fs0.label x).state &&& BsVenti≠0) fs0 fs)
    (hfr : Agrees (fun x => x≠addr.toNat ∧ ∀ a t g ds ps,
      slotOf (fs0.label addr.toNat) dsize psize (fs0.data addr.toNat) n=.child a t g ds ps → x ∉ S n) fs fs') :
    Agrees (fun x => (∃ j, n+1 ≤ j ∧ j < slotCount (fs0.label addr.toNat).typ dsize psize ∧ x ∈ S j) ∨
      (fs0.label x).state &&& BsVenti≠0) fs0 fs' := by
  intro x hx
  have hkept : x≠addr.toNat ∧ ∀ a t g ds ps,
      slotOf (fs0.label addr.toNat) dsize psize (fs0.data addr.toNat) n=.child a t g ds ps → x ∉ S n := by
    rcases hx with ⟨j,hj1,hj2,hxj⟩ | hv
    · exact ⟨fun he => hN.apart j hj2 (he ▸ hxj),fun _ _ _ _ _ _ => hN.disjoint j hj2 n hn (by omega) x hxj⟩
    · exact ⟨fun he => hv (he ▸ hN.fresh),fun a t g ds ps hs hxn => hv ((hN.child n hn a t g ds ps hs).2 x hxn)⟩
  obtain ⟨hl,hdat⟩ := hfr x hkept
  have hx0 : (∃ j, n ≤ j ∧ j < slotCount (fs0.label addr.toNat).typ dsize psize ∧ x ∈ S j) ∨
      (fs0.label x).state &&& BsVenti≠0 := by
    rcases hx with ⟨j,hj1,hj2,hxj⟩ | hv
    · exact .inl ⟨j,by omega,hj2,hxj⟩
    · exact .inr hv
  obtain ⟨hl0,hd0⟩ := hag x hx0
  exact ⟨hl.trans hl0,hdat.trans hd0⟩

/-- One round of the loop: slot `n` of the block, or of the copy, becomes its image, the child's
tree is archived under the score recorded, and only the child's blocks and the block's own bytes
change. -/
theorem archSlot_step (hN : WalkNode sha1 fs0 bsize walk addr dsize psize S) {n : Nat}
    (hn : n < slotCount (fs0.label addr.toNat).typ dsize psize) {p : Param} {st : St} {data : Option Buf} {acc : Buf}
    {p' : Param} {st' : St} {data' : Option Buf}
    (hacc : ∀ i < bsize, curData st (blockAt fs0 addr) data i=acc i)
    (hD : ∀ i, n*slotSize (fs0.label addr.toNat).typ ≤ i → acc i=fs0.data addr.toNat i)
    (hag : Agrees (fun x => x ∈ S n ∨ (fs0.label x).state &&& BsVenti≠0) fs0 st.fs)
    (hb : p.blockSize=bsize) (hd : p.dsize=dsize) (hp : p.psize=psize)
    (h : archSlot walk (blockAt fs0 addr) (decide ((fs0.label addr.toNat).typ=BtDir)) n p st data=some (.ok (p',st',data'))) :
    ∃ s, (∀ a t g ds ps, slotOf (fs0.label addr.toNat) dsize psize (fs0.data addr.toNat) n=.child a t g ds ps →
        Archived sha1 fs0 bsize st'.sent ds ps a t g s) ∧
      (∀ i < bsize, curData st' (blockAt fs0 addr) data' i=
        slotImage (fs0.label addr.toNat) (fs0.data addr.toNat) acc n s
          (slotOf (fs0.label addr.toNat) dsize psize (fs0.data addr.toNat) n) i) ∧
      p'.blockSize=bsize ∧ p'.dsize=dsize ∧ p'.psize=psize ∧
      Agrees (fun x => x≠addr.toNat ∧ ∀ a t g ds ps,
        slotOf (fs0.label addr.toNat) dsize psize (fs0.data addr.toNat) n=.child a t g ds ps → x ∉ S n) st.fs st'.fs ∧
      ∃ more, st'.sent=st.sent++more := by
  have hbytes := slot_bytes hN hn hacc hD
  have hslot := slotOf_round hN hn hacc hD hd hp
  change archSlot walk (blockAt fs0 addr) (decide ((blockAt fs0 addr).l.typ=BtDir)) n p st data=_ at h
  rcases hs : slotOf (fs0.label addr.toNat) dsize psize (fs0.data addr.toNat) n with _ | _ | ⟨a,t,g,ds,ps⟩
  · rw [archSlot_keep (hslot.trans hs)] at h
    cases h
    refine ⟨zeroScore,?_,hacc,hb,hd,hp,fun _ _ => And.intro rfl rfl,[],(List.append_nil _).symm⟩
    intro _ _ _ _ _ h
    cases h
  · have hdir := slotOf_empty hs
    have hent : unpackEntry (curData st (blockAt fs0 addr) data) n=unpackEntry (fs0.data addr.toNat) n := by
      apply unpackEntry_congr
      simpa [slotSize,hdir] using hbytes
    rw [archSlot_empty (hslot.trans hs),pack_emptyEntry,hent] at h
    cases h
    refine ⟨zeroScore,?_,fun i hi => ?_,hb,hd,hp,fun _ _ => And.intro rfl rfl,[],(List.append_nil _).symm⟩
    · intro _ _ _ _ _ h
      cases h
    refine write_agree (fun i hi => ?_) _ _ i hi
    rw [curData_fakeData st _ data i (hb ▸ hi),hacc i hi]
  · obtain ⟨score,hsc,hna,hcp,heq⟩ := archSlot_child (hslot.trans hs)
    rw [heq] at h
    obtain ⟨x,err,p2,st2,data1,d,hw,hx,rfl,hdata1,hrec,rfl,rfl⟩ := archChild_ok (hsc ▸ hna) h
    rw [hsc] at hw
    obtain ⟨hspec,-⟩ := hN.child n hn a t g ds ps hs
    obtain ⟨harch,hb2,hd2,hp2,hframe,more,hmore⟩ :=
      hspec _ st x err p2 st2 hag (by rw [hcp]; exact hb) (by rw [hcp]) (by rw [hcp]) hw hx
    have hsizes := restoreParam_sizes (e := entryOf (blockAt fs0 addr).l (curData st (blockAt fs0 addr) data) n)
      (p := p) (hd2.trans (by rw [hcp])) (hp2.trans (by rw [hcp]))
    have hcur : ∀ i < bsize, curData st2 (blockAt fs0 addr) data1 i=acc i := by
      intro i hi
      have hsame : curData st2 (blockAt fs0 addr) data=curData st (blockAt fs0 addr) data :=
        curData_congr _ _ _ (hframe _ (hN.apart n hn)).2
      rcases hdata1 with rfl | rfl
      · rw [hsame,hacc i hi]
      · rw [curData_fakeData st2 _ data i (by simpa [hb2] using hi),hsame,hacc i hi]
    refine ⟨p2.score,fun a' t' g' ds' ps' hs' => ?_,fun i hi => ?_,by simpa using hb2,hsizes.1.trans hd,
      hsizes.2.trans hp,fun y hy => ?_,more,by simpa using hmore⟩
    · simp only [Slot.child.injEq] at hs'
      obtain ⟨rfl,rfl,rfl,rfl,rfl⟩ := hs'
      simpa using harch
    · simp only [curData_unlinkChild,curData_storeData,restoreParam_score] at hrec ⊢
      by_cases hdir : (fs0.label addr.toNat).typ=BtDir
      · have hent : unpackEntry (curData st (blockAt fs0 addr) data) n=unpackEntry (fs0.data addr.toNat) n := by
          apply unpackEntry_congr
          simpa [slotSize,hdir] using hbytes
        have he : entryOf (blockAt fs0 addr).l (curData st (blockAt fs0 addr) data) n=
            some (unpackEntry (fs0.data addr.toNat) n) := by
          rw [← hent]
          exact if_pos hdir
        rw [he,recordScore_entry,Option.some.injEq] at hrec
        rw [← hrec]
        unfold slotImage
        rw [if_pos hdir]
        exact write_agree hcur _ _ i hi
      · have he : entryOf (blockAt fs0 addr).l (curData st (blockAt fs0 addr) data) n=none := if_neg hdir
        rw [he] at hrec
        simp only [recordScore,Option.some.injEq] at hrec
        rw [← hrec]
        unfold slotImage
        rw [if_neg hdir]
        exact write_agree hcur _ _ i hi
    · obtain ⟨hl,hdat⟩ := hframe y (hy.2 a t g ds ps rfl)
      simp only [unlinkChild_fs,storeData_label]
      exact ⟨hl,(storeData_data_of_ne _ _ _ _ hy.1).trans hdat⟩

/-- The loop from slot `n` to the last: the block, or the copy, ends as the image of the slots it
went through, every child there is archived, and only the children's blocks and the block's own
bytes change. By induction on the slots left, one round a step. -/
theorem archLoop_run (hN : WalkNode sha1 fs0 bsize walk addr dsize psize S) :
    ∀ k n {p : Param} {st : St} {data : Option Buf} {acc : Buf} {pL : Param} {stL : St} {dataL : Option Buf},
      n+k=slotCount (fs0.label addr.toNat).typ dsize psize →
      (∀ i < bsize, curData st (blockAt fs0 addr) data i=acc i) →
      (∀ i, n*slotSize (fs0.label addr.toNat).typ ≤ i → acc i=fs0.data addr.toNat i) →
      Agrees (fun x => (∃ j, n ≤ j ∧ j < slotCount (fs0.label addr.toNat).typ dsize psize ∧ x ∈ S j) ∨
        (fs0.label x).state &&& BsVenti≠0) fs0 st.fs →
      p.blockSize=bsize → p.dsize=dsize → p.psize=psize →
      archLoop walk (blockAt fs0 addr) (decide ((fs0.label addr.toNat).typ=BtDir)) n k p st data=some (.ok (pL,stL,dataL)) →
      ∃ sc, (∀ j, n ≤ j → j < slotCount (fs0.label addr.toNat).typ dsize psize → ∀ a t g ds ps,
          slotOf (fs0.label addr.toNat) dsize psize (fs0.data addr.toNat) j=.child a t g ds ps →
            Archived sha1 fs0 bsize stL.sent ds ps a t g (sc j)) ∧
        (∀ i < bsize, curData stL (blockAt fs0 addr) dataL i=
          archImage (fs0.label addr.toNat) dsize psize sc (fs0.data addr.toNat) n k acc i) ∧
        pL.blockSize=bsize ∧ pL.dsize=dsize ∧ pL.psize=psize ∧
        Agrees (fun x => x≠addr.toNat ∧ ∀ j, n ≤ j → j < slotCount (fs0.label addr.toNat).typ dsize psize → x ∉ S j)
          st.fs stL.fs ∧
        ∃ more, stL.sent=st.sent++more
  | 0, n, p, st, data, acc, pL, stL, dataL, hk, hacc, _, _, hb, hd, hp, h => by
    simp only [archLoop,Option.some.injEq,Except.ok.injEq,Prod.mk.injEq] at h
    obtain ⟨rfl,rfl,rfl⟩ := h
    refine ⟨fun _ => zeroScore,fun j h1 h2 => by omega,hacc,hb,hd,hp,fun _ _ => And.intro rfl rfl,[],
      (List.append_nil _).symm⟩
  | k+1, n, p, st, data, acc, pL, stL, dataL, hk, hacc, hD, hag, hb, hd, hp, h => by
    have hn : n < slotCount (fs0.label addr.toNat).typ dsize psize := by omega
    rcases hr : archSlot walk (blockAt fs0 addr) (decide ((fs0.label addr.toNat).typ=BtDir)) n p st data
      with _ | (_ | ⟨p1,st1,data1⟩)
    · simp [archLoop,hr] at h
    · simp [archLoop,hr] at h
    rw [archLoop,hr] at h
    -- round `n`, then the rounds after it
    obtain ⟨s,hch,him,hb1,hd1,hp1,hfr,more,hmore⟩ :=
      archSlot_step hN hn hacc hD (fun x hx => hag x (hx.imp_left fun hx => ⟨n,le_rfl,hn,hx⟩)) hb hd hp hr
    obtain ⟨sc,hch',him',hbL,hdL,hpL,hfrL,more',hmore'⟩ := archLoop_run hN k (n+1) (by omega) him
      (slotImage_tail hD) (agrees_next_round hN hn hag hfr) hb1 hd1 hp1 h
    refine ⟨Function.update sc n s,fun j hj1 hj2 a t g ds ps hs => ?_,fun i hi => ?_,hbL,hdL,hpL,fun x hx => ?_,
      more++more',by rw [hmore',hmore,List.append_assoc]⟩
    · rcases Nat.eq_or_lt_of_le hj1 with rfl | hj
      · rw [Function.update_self]
        exact (hch a t g ds ps hs).mono fun y hy => by rw [hmore']; exact List.mem_append_left _ hy
      · rw [Function.update_of_ne (by omega)]
        exact hch' j hj hj2 a t g ds ps hs
    · have hsc : ∀ j, n+1 ≤ j → j < n+1+k → sc j=Function.update sc n s j :=
        fun j hj _ => (Function.update_of_ne (by omega) _ _).symm
      rw [him' i hi,archImage_succ,Function.update_self,archImage_congr hsc]
    · obtain ⟨hl1,hd1'⟩ := hfr x ⟨hx.1,fun _ _ _ _ _ _ => hx.2 n le_rfl hn⟩
      obtain ⟨hl2,hd2⟩ := hfrL x ⟨hx.1,fun j hj1 hj2 => hx.2 j (by omega) hj2⟩
      exact ⟨hl2.trans hl1,hd2.trans hd1'⟩

end Loop

/-! ## The walk -/

/-- A state that holds a tree's blocks as `fs0` has them holds the blocks the loop over the root's
slots reads. -/
theorem agrees_loop_start {P : Nat → Prop} {fs0 fs : Fs} {a k : Nat} {Sc : Nat → List Nat}
    (hag : Agrees (fun x => x ∈ a :: (List.range k).flatMap Sc ∨ P x) fs0 fs) :
    Agrees (fun x => (∃ j, 0 ≤ j ∧ j < k ∧ x ∈ Sc j) ∨ P x) fs0 fs := by
  intro x hx
  refine hag x (hx.imp_left ?_)
  rintro ⟨j,-,hj,hxj⟩
  exact List.mem_cons_of_mem _ (List.mem_flatMap.mpr ⟨j,List.mem_range.mpr hj,hxj⟩)

/-- A block of a snapshot tree not yet on Venti is a `WalkNode` for walks that do what `WalkSpec`
says on every snapshot tree. -/
theorem walkNode_of_block {sha1 : List UInt8 → Score} {fs0 : Fs} {bsize : Nat}
    {walk : Param → St → UInt32 → Block.BlockType → UInt32 → Option Walked} {dsize psize : Nat} {addr : UInt32}
    {typ : Block.BlockType} {S : Nat → List Nat}
    (hspec : ∀ {ds ps : Nat} {a : UInt32} {t : Block.BlockType} {g : UInt32} {S' : List Nat},
      SnapTree fs0 bsize ds ps a t g S' → WalkSpec sha1 fs0 bsize walk ds ps a t g S')
    (ht : (fs0.label addr.toNat).typ=typ) (hv : (fs0.label addr.toNat).state &&& BsVenti=0)
    (hfit : slotCount typ dsize psize*slotSize typ ≤ bsize)
    (hc : ∀ n < slotCount typ dsize psize, ∀ a t g ds ps,
      slotOf (fs0.label addr.toNat) dsize psize (fs0.data addr.toNat) n=.child a t g ds ps →
        SnapTree fs0 bsize ds ps a t g (S n))
    (hnot : ∀ n < slotCount typ dsize psize, addr.toNat ∉ S n)
    (hdisj : ∀ i < slotCount typ dsize psize, ∀ j < slotCount typ dsize psize, i≠j → ∀ x ∈ S i, x ∉ S j) :
    WalkNode sha1 fs0 bsize walk addr dsize psize S :=
  { fresh := hv
    fit := ht ▸ hfit
    child := fun n hn a t g ds ps hs =>
      ⟨hspec (hc n (ht ▸ hn) a t g ds ps hs),(hc n (ht ▸ hn) a t g ds ps hs).fresh⟩
    apart := fun n hn => hnot n (ht ▸ hn)
    disjoint := fun i hi j hj => hdisj i (ht ▸ hi) j (ht ▸ hj) }

/-- A walk of a snapshot tree that does not fail leaves the tree's archive on Venti. By induction
on the fuel: a block's loop runs over children walked with one unit less. -/
theorem archWalk_spec (sha1 : List UInt8 → Score) (env : Env) (fs0 : Fs) (bsize : Nat) (fuel : Nat) :
    ∀ {dsize psize : Nat} {addr : UInt32} {typ : Block.BlockType} {tag : UInt32} {S : List Nat},
      SnapTree fs0 bsize dsize psize addr typ tag S → WalkSpec sha1 fs0 bsize (archWalk sha1 env fuel) dsize psize addr typ tag S := by
  induction fuel with
  | zero =>
    intro _ _ _ _ _ _ _ p st r err p' st' _ _ _ _ h
    simp [archWalk] at h
  | succ fuel ih =>
    intro dsize psize addr typ tag S htree p st r err p' st' hag hb hd hp h hr
    cases htree with
    | venti ht hg hv =>
      obtain ⟨hl,hdat⟩ := hag addr.toNat (.inr hv)
      rw [archWalk_venti (by rw [hl]; exact ht) (by rw [hl]; exact hg) (by rw [hl]; exact hv),hl,hdat,hb] at h
      obtain ⟨s,hs,heq⟩ := Option.map_eq_some_iff.mp h
      cases heq
      exact ⟨.venti ht hg hv hs,rfl,hd,hp,fun _ _ => And.intro rfl rfl,[],(List.append_nil _).symm⟩
    | block Sc ht hg hv hfit hc hS hnot hdisj =>
      obtain ⟨hl,hdat⟩ := hag addr.toNat (.inl List.mem_cons_self)
      have hblk : blockAt st.fs addr=blockAt fs0 addr := by simp [blockAt,hl,hdat]
      obtain ⟨pL,stL,dataL,hloop,hsend⟩ :=
        archWalk_walked (by rw [hl]; exact ht) (by rw [hl]; exact hg) (by rw [hl]; exact hv) h hr
      rw [hblk,hl,hd,hp] at hloop
      rw [hblk] at hsend
      have hN : WalkNode sha1 fs0 bsize (archWalk sha1 env fuel) addr dsize psize Sc :=
        walkNode_of_block ih ht hv hfit hc hnot hdisj
      obtain ⟨sc,hch,him,hbL,hdL,hpL,hfr,more,hmore⟩ := archLoop_run hN _ 0 (Nat.zero_add _)
        (fun i _ => show curData st (blockAt fs0 addr) none i=fs0.data addr.toNat i from congrFun hdat i)
        (fun _ _ => rfl)
        (by rw [ht]; exact agrees_loop_start hag) hb hd hp hloop
      obtain ⟨t,hvt,hp',hsent,hdata,hlabel⟩ := archSend_ok hsend hr
      have himg : region (curData stL (blockAt fs0 addr) dataL) 0 pL.blockSize=
          region (blockImage (fs0.label addr.toNat) dsize psize sc (fs0.data addr.toNat)) 0 bsize := by
        rw [hbL]
        exact region_congr fun k _ hk => him k (by omega)
      have hscore : p'.score=sha1 (zeroTruncate t (region (curData stL (blockAt fs0 addr) dataL) 0 pL.blockSize)) :=
        congrArg Param.score hp'
      refine ⟨?_,(congrArg Param.blockSize hp').trans hbL,(congrArg Param.dsize hp').trans hdL,
        (congrArg Param.psize hp').trans hpL,fun x hx => ?_,
        more++[(t,zeroTruncate t (region (curData stL (blockAt fs0 addr) dataL) 0 pL.blockSize))],
        by rw [hsent,hmore,List.append_assoc]⟩
      · rw [hscore,himg]
        refine .block sc ht hg hv (ht ▸ hvt) (fun n hn a t' g ds ps hs => ?_) ?_
        · refine (hch n (Nat.zero_le n) (ht ▸ hn) a t' g ds ps hs).mono fun y hy => ?_
          rw [hsent]
          exact List.mem_append_left _ hy
        · rw [hsent,← himg]
          exact List.mem_append_right _ (List.mem_singleton_self _)
      · have hxa : x≠addr.toNat := fun he => hx (he ▸ List.mem_cons_self)
        have hxc : ∀ j, 0 ≤ j → j < slotCount (fs0.label addr.toNat).typ dsize psize → x ∉ Sc j :=
          fun j _ hj hxj => hx (List.mem_cons_of_mem _ (List.mem_flatMap.mpr ⟨j,List.mem_range.mpr (ht ▸ hj),hxj⟩))
        obtain ⟨hl',hd'⟩ := hfr x ⟨hxa,hxc⟩
        exact ⟨(hlabel x (by simpa [blockAt] using hxa)).trans hl',(congrFun hdata x).trans hd'⟩

/-- Archiving a snapshot tree from the disk as it is: a walk that returns `ArchSuccess` or
`ArchFaked` leaves the tree's archive on Venti under the score it hands back, changes no block
outside the tree's blocks not yet on Venti, and only adds blocks to Venti. -/
theorem archWalk_archives_tree {sha1 : List UInt8 → Score} {fuel bsize dsize psize : Nat} {addr : UInt32}
    {typ : Block.BlockType} {tag : UInt32} {S : List Nat} {p : Param} {st : St} {r : ArchResult}
    {err : Option String} {p' : Param} {st' : St} (htree : SnapTree st.fs bsize dsize psize addr typ tag S)
    (hb : p.blockSize=bsize) (hd : p.dsize=dsize) (hp : p.psize=psize)
    (h : archWalk sha1 env fuel p st addr typ tag=some (r,err,p',st')) (hr : r=.success ∨ r=.faked) :
    Archived sha1 st.fs bsize st'.sent dsize psize addr typ tag p'.score ∧
      Agrees (fun x => x ∉ S) st.fs st'.fs ∧ ∃ more, st'.sent=st.sent++more := by
  have hnf : r≠.failure := by rcases hr with rfl | rfl <;> decide
  obtain ⟨harch,-,-,-,hframe,hsent⟩ :=
    archWalk_spec sha1 env st.fs bsize fuel htree p st r err p' st' (fun _ _ => And.intro rfl rfl) hb hd hp h hnf
  exact ⟨harch,hframe,hsent⟩

/-- The data block of `archFs`'s file is a tree of its own. -/
theorem archFs_file_tree : SnapTree archFs 120 120 120 2 BtData 40 [2] := by
  have h := @SnapTree.block archFs 120 120 120 2 BtData 40 (fun _ => []) (by decide) (by decide) (by decide)
    (by decide) (fun n hn => by simp [slotCount,initWalk] at hn) (fun n hn => by simp [slotCount,initWalk] at hn)
    (fun n hn => by simp [slotCount,initWalk] at hn) (fun i hi => by simp [slotCount,initWalk] at hi)
  simpa [slotCount,initWalk] using h

/-- The root of `archFs` is a tree: the file's block below it, the snapshot's entry emptied. -/
theorem archFs_root_tree : SnapTree archFs 120 120 0 1 BtDir RootTag [1,2] := by
  have h0 : slotOf (archFs.label (1 : UInt32).toNat) 120 0 (archFs.data (1 : UInt32).toNat) 0=.child 2 BtData 40 120 120 := by
    decide
  have h1 : slotOf (archFs.label (1 : UInt32).toNat) 120 0 (archFs.data (1 : UInt32).toNat) 1=.empty := by decide
  have h2 : slotOf (archFs.label (1 : UInt32).toNat) 120 0 (archFs.data (1 : UInt32).toNat) 2=.keep := by decide
  have hn3 : slotCount BtDir 120 0=3 := by decide
  have h := @SnapTree.block archFs 120 120 0 1 BtDir RootTag (fun n => if n=0 then [2] else []) (by decide) (by decide)
    (by decide) (by decide) (fun n hn a t g ds ps hs => by
      rw [hn3] at hn
      interval_cases n
      · rw [h0] at hs
        cases hs
        exact archFs_file_tree
      · rw [h1] at hs
        cases hs
      · rw [h2] at hs
        cases hs)
    (fun n hn x hx => by
      rw [hn3] at hn
      interval_cases n
      · exact ⟨_,_,_,_,_,h0⟩
      all_goals simp at hx)
    (fun n hn => by split_ifs <;> simp)
    (fun i hi j hj hij x hxi hxj => by
      split_ifs at hxi hxj <;> simp_all)
  have hS : (1 : UInt32).toNat :: (List.range 3).flatMap (fun n => if n=0 then [2] else [])=[1,2] := by decide
  rwa [hn3,hS] at h

set_option maxRecDepth 8192 in
theorem archWalk_archives_tree_root :
    ∃ r err p' st', archWalk lengthSha (honestEnv lengthSha) 3 (archParam 120) ⟨archFs,true,[],[]⟩ 1 BtDir RootTag=some (r,err,p',st') ∧
      Archived lengthSha archFs 120 st'.sent 120 0 1 BtDir RootTag p'.score ∧
      Agrees (fun x => x ∉ [1,2]) archFs st'.fs ∧ ∃ more, st'.sent=[]++more := by
  obtain ⟨err,p',st',h⟩ : ∃ err p' st',
      archWalk lengthSha (honestEnv lengthSha) 3 (archParam 120) ⟨archFs,true,[],[]⟩ 1 BtDir RootTag=some (.faked,err,p',st') :=
    ⟨_,_,_,rfl⟩
  exact ⟨.faked,err,p',st',h,archWalk_archives_tree archFs_root_tree rfl rfl rfl h (.inr rfl)⟩

end Fossil.Archive
