import Fossil.Source.Tree

/-!
# Labels on disk

A label (`label.go`) takes 14 bytes of a block of the label partition: the state, the type, and
then the allocation epoch, the close epoch and the tag, big-endian. `unpackLabel` refuses a type
above `BtMax` and, unless the state is `BsFree` or `BsBad`, a state without `BsAlloc`, a state
with bits outside `BsMask`, and a close epoch that disagrees with the `BsClosed` bit: a block in
use is open exactly while its close epoch is `0xFFFFFFFF`. What `pack` writes comes back whole
when it passes these checks, and as `EBadLabel` when it does not.

Five places write labels. `allocBlock` (`cache.go`) and `format`'s `blockAlloc` label the block
they take allocated and open; `copy` marks the block it copies `BsCopied` and, when it cannot,
frees the new block under type `BtMax`; `doRemoveLink` closes a block in an epoch, and the
checker's `fsckClose` closes a block or frees a lost one. The cache loads a block checking only
its type and tag, so `copy` and `doRemoveLink` change whatever state the label has: on a free
label they write a state without `BsAlloc`, which no later `unpackLabel` accepts. Each writer
keeps labels readable when its block is in use and the epoch it closes in is a real one.
-/

namespace Fossil.Block

open Fossil.Tree Bytes

def EBadLabel : String := "corrupted block label"

/-- `(*Label).pack(p, i)`. -/
def Label.pack (l : Label) (p : Buf) (i : Nat) : Buf :=
  let o := i*LabelSize
  put32 (put32 (put32 (write (write p o [l.state]) (o+1) [l.typ]) (o+2) l.epoch) (o+6) l.epochClose)
    (o+10) l.tag

/-- The checks of `unpackLabel` on the fields it has read. -/
def checkLabel (l : Label) : Except String Label :=
  if l.typ > BtMax then .error EBadLabel
  else if l.state≠BsBad ∧ l.state≠BsFree then
    if l.state &&& BsAlloc=0 ∨ l.state &&& ~~~BsMask≠0 then .error EBadLabel
    else if l.state &&& BsClosed≠0 then
      if l.epochClose=0xFFFFFFFF then .error EBadLabel else .ok l
    else if l.epochClose≠0xFFFFFFFF then .error EBadLabel else .ok l
  else .ok l

/-- `unpackLabel(p, i)`. -/
def unpackLabel (p : Buf) (i : Nat) : Except String Label :=
  let o := i*LabelSize
  checkLabel
    { state := p o, typ := p (o+1), epoch := get32 p (o+2), epochClose := get32 p (o+6), tag := get32 p (o+10) }

/-- The label of a block in use: allocated, with no bits outside `BsMask`, and open exactly while
its close epoch is `0xFFFFFFFF`. -/
def Label.InUse (l : Label) : Prop :=
  l.state &&& BsAlloc≠0 ∧ l.state &&& ~~~BsMask=0 ∧ (l.epochClose=0xFFFFFFFF ↔ l.state &&& BsClosed=0)

/-- The labels `unpackLabel` accepts: a type up to `BtMax`, and a free, bad or in-use state. -/
def Label.Valid (l : Label) : Prop :=
  l.typ ≤ BtMax ∧ (l.state=BsFree ∨ l.state=BsBad ∨ l.InUse)

instance (l : Label) : Decidable l.InUse := inferInstanceAs (Decidable (_ ∧ _ ∧ _))

instance (l : Label) : Decidable l.Valid := inferInstanceAs (Decidable (_ ∧ _))

/-! ## The codec -/

/-- `unpackLabel`'s checks accept exactly the valid labels. -/
theorem checkLabel_eq (l : Label) : checkLabel l=if l.Valid then .ok l else .error EBadLabel := by
  unfold checkLabel
  by_cases ht : BtMax < l.typ
  · rw [if_pos ht,if_neg fun hv => UInt8.not_le.mpr ht hv.1]
  have hle : l.typ ≤ BtMax := UInt8.not_lt.mp ht
  rw [if_neg ht]
  by_cases hs : l.state=BsBad ∨ l.state=BsFree
  · have hv : l.Valid := ⟨hle,by tauto⟩
    rw [if_neg (by tauto),if_pos hv]
  have hb : l.state≠BsBad := fun h => hs (.inl h)
  have hf : l.state≠BsFree := fun h => hs (.inr h)
  rw [if_pos ⟨hb,hf⟩]
  by_cases hu : l.InUse
  · obtain ⟨ha,hmask,hclose⟩ := hu
    rw [if_pos (show l.Valid from ⟨hle,.inr (.inr ⟨ha,hmask,hclose⟩)⟩),if_neg (by tauto)]
    by_cases hc : l.state &&& BsClosed=0
    · rw [if_neg (not_not.mpr hc),if_neg (not_not.mpr (hclose.mpr hc))]
    · rw [if_pos hc,if_neg (mt hclose.mp hc)]
  · rw [if_neg (show ¬l.Valid from fun hv => hu ((hv.2.resolve_left hf).resolve_left hb))]
    by_cases hm : l.state &&& BsAlloc=0 ∨ l.state &&& ~~~BsMask≠0
    · rw [if_pos hm]
    · rw [if_neg hm]
      have ha : l.state &&& BsAlloc≠0 := by tauto
      have hmask : l.state &&& ~~~BsMask=0 := by tauto
      by_cases hc : l.state &&& BsClosed=0
      · have he : l.epochClose≠0xFFFFFFFF := fun he => hu ⟨ha,hmask,iff_of_true he hc⟩
        rw [if_neg (not_not.mpr hc),if_pos he]
      · have he : l.epochClose=0xFFFFFFFF := by
          by_contra he
          exact hu ⟨ha,hmask,iff_of_false he hc⟩
        rw [if_pos hc,if_pos he]

/-- Bytes outside the label's fourteen keep their value. -/
theorem pack_of_not_mem (l : Label) (p : Buf) {i k : Nat} (h : k < i*LabelSize ∨ i*LabelSize+LabelSize ≤ k) :
    l.pack p i k=p k := by
  unfold LabelSize at h
  simp only [Label.pack,put32]
  rw [write_of_not_mem,write_of_not_mem,write_of_not_mem,write_of_not_mem,write_of_not_mem]
  all_goals simp only [be32_length,List.length_singleton,LabelSize]; omega

@[simp] theorem pack_state (l : Label) (p : Buf) (i : Nat) : l.pack p i (i*LabelSize)=l.state := by
  simp only [Label.pack,put32]
  rw [write_of_not_mem,write_of_not_mem,write_of_not_mem,write_of_not_mem]
  · simpa using write_of_lt (b := p) (o := i*LabelSize) (l := [l.state]) (k := 0) (by simp)
  all_goals simp only [be32_length,List.length_singleton]; omega

@[simp] theorem pack_typ (l : Label) (p : Buf) (i : Nat) : l.pack p i (i*LabelSize+1)=l.typ := by
  simp only [Label.pack,put32]
  rw [write_of_not_mem,write_of_not_mem,write_of_not_mem]
  · simpa using write_of_lt (b := write p (i*LabelSize) [l.state]) (o := i*LabelSize+1) (l := [l.typ]) (k := 0) (by simp)
  all_goals simp only [be32_length]; omega

@[simp] theorem get32_pack_epoch (l : Label) (p : Buf) (i : Nat) : get32 (l.pack p i) (i*LabelSize+2)=l.epoch := by
  simp only [Label.pack]
  rw [get32_put32_of_apart (by omega),get32_put32_of_apart (by omega),get32_put32]

@[simp] theorem get32_pack_epochClose (l : Label) (p : Buf) (i : Nat) :
    get32 (l.pack p i) (i*LabelSize+6)=l.epochClose := by
  simp only [Label.pack]
  rw [get32_put32_of_apart (by omega),get32_put32]

@[simp] theorem get32_pack_tag (l : Label) (p : Buf) (i : Nat) : get32 (l.pack p i) (i*LabelSize+10)=l.tag := by
  simp only [Label.pack]
  rw [get32_put32]

/-- What `pack` writes unpacks to the label when it is valid, and to `EBadLabel` when not. -/
theorem unpackLabel_pack (l : Label) (p : Buf) (i : Nat) :
    unpackLabel (l.pack p i) i=if l.Valid then .ok l else .error EBadLabel := by
  rw [← checkLabel_eq]
  simp only [unpackLabel,pack_state,pack_typ,get32_pack_epoch,get32_pack_epochClose,get32_pack_tag]

/-- `unpackLabel` reads only the label's fourteen bytes. -/
theorem unpackLabel_congr {p p' : Buf} {j : Nat} (h : ∀ k, j*LabelSize ≤ k → k < j*LabelSize+LabelSize → p k=p' k) :
    unpackLabel p j=unpackLabel p' j := by
  unfold LabelSize at h
  have h32 : ∀ d, d+4 ≤ LabelSize → get32 p (j*LabelSize+d)=get32 p' (j*LabelSize+d) := fun d hd =>
    get32_of_region (region_congr fun k h1 h2 => h k (by unfold LabelSize at *; omega) (by unfold LabelSize at *; omega))
  simp only [unpackLabel,h (j*LabelSize) (by unfold LabelSize; omega) (by unfold LabelSize; omega),
    h (j*LabelSize+1) (by unfold LabelSize; omega) (by unfold LabelSize; omega),h32 2 (by decide),h32 6 (by decide),
    h32 10 (by decide)]

/-- Packing one label leaves every other slot's label as it was. -/
theorem unpackLabel_pack_of_ne (l : Label) (p : Buf) {i j : Nat} (hij : i≠j) :
    unpackLabel (l.pack p i) j=unpackLabel p j := by
  apply unpackLabel_congr
  intro k h1 h2
  apply pack_of_not_mem
  unfold LabelSize at *
  rcases Nat.lt_or_gt_of_ne hij with h | h
  · have : (i+1)*14 ≤ j*14 := Nat.mul_le_mul_right 14 h
    omega
  · have : (j+1)*14 ≤ i*14 := Nat.mul_le_mul_right 14 h
    omega

/-! ## The writers -/

/-- The labels `(*Block).copy` writes once `allocBlock` has given it the new block: the copied
block's label with `BsCopied`, unless it has the bit already or is the super block; when that
label cannot be written (`labelOk` false: `_setLabel` could not load the label block), the new
block's label instead, freed under type `BtMax`. The pair is what goes to the copied block and
to the new one. -/
def copy (bl : Label) (part : Part) (labelOk : Bool) : Option Label × Option Label :=
  if bl.state &&& BsCopied=0 ∧ part=.data then
    let l := { bl with state := bl.state ||| BsCopied }
    if labelOk then (some l,none)
    else (none,some { l with typ := BtMax, state := BsFree, epoch := 0, epochClose := 0, tag := 0 })
  else (none,none)

/-- The label `doRemoveLink` writes on the block it unlinks: the label `localData` loaded, closed
in the list entry's epoch, or in the block's next epoch when the link was the super block's
(epoch 0); nothing when the block's epoch is past the closing one. -/
def doRemoveLink (bl : Label) (epoch : UInt32) : Option Label :=
  let epoch := if epoch=0 then bl.epoch+1 else epoch
  if bl.epoch > epoch then none
  else some { bl with state := bl.state ||| BsClosed, epochClose := epoch }

/-- `%x` of an address. -/
def hex (n : UInt32) : String :=
  String.ofList (Nat.toDigits 16 n.toNat)

/-- `fsckClose(fsck, b, epoch)` on block `addr` with label `bl`: the label it writes, none when
the check does not close blocks; a block free or closed already is refused. `setErr` is the
error of `setLabel`, which then writes nothing. -/
def fsckClose (doClose : Bool) (addr : UInt32) (bl : Label) (epoch : UInt32) (setErr : Option String) :
    Except String (Option Label) :=
  if doClose=false then .ok none
  else if bl.state=BsFree ∨ bl.state &&& BsClosed≠0 then .error (hex addr++" is already closed")
  else
    let l := if epoch≠0 then { bl with state := bl.state ||| BsClosed, epochClose := epoch } else { bl with state := BsFree }
    match setErr with
    | some e => .error (hex addr++" setlabel: "++e)
    | none => .ok (some l)

/-- `(*Disk).blockAlloc(typ, tag, buf)` of `format` on the label partition `labels` (`lpb` labels
a block) with `blockAlloc_addr` at `addr`: the address taken, the partition after and the next
address; `none` is `fatalf`, on a label that does not unpack or is not free. -/
def blockAlloc (labels : Nat → Buf) (lpb addr : Nat) (typ : BlockType) (tag : UInt32) :
    Option (Nat × (Nat → Buf) × Nat) :=
  let buf := labels (addr/lpb)
  match unpackLabel buf (addr%lpb) with
  | .error _ => none
  | .ok l =>
    if l.state≠BsFree then none
    else
      let l : Label := { l with epoch := 1, epochClose := 0xFFFFFFFF, typ := typ, state := BsAlloc, tag := tag }
      some (addr,Function.update labels (addr/lpb) (l.pack buf (addr%lpb)),addr+1)

/-! ## What the writers write -/

theorem state_or_and (s m k : BlockState) : (s ||| m) &&& k=s &&& k ||| m &&& k := by
  apply UInt8.eq_of_toBitVec_eq
  simp [BitVec.and_or_distrib_right]

theorem or_and_ne_zero {s k : BlockState} (h : s &&& k≠0) (m : BlockState) : (s ||| m) &&& k≠0 := by
  rw [state_or_and]
  exact fun h0 => h (UInt8.or_eq_zero_iff.mp h0).1

theorem or_and_ne_zero_right {m k : BlockState} (h : m &&& k≠0) (s : BlockState) : (s ||| m) &&& k≠0 := by
  rw [state_or_and]
  exact fun h0 => h (UInt8.or_eq_zero_iff.mp h0).2

/-- Setting a bit of `BsMask` other than `BsClosed` keeps a label in use. -/
theorem Label.InUse.or_bit {l : Label} (h : l.InUse) {m : BlockState} (hm : m &&& ~~~BsMask=0) (hc : m &&& BsClosed=0) :
    ({ l with state := l.state ||| m } : Label).InUse := by
  obtain ⟨ha,hmask,hclose⟩ := h
  refine ⟨or_and_ne_zero ha m,?_,?_⟩
  · show (l.state ||| m) &&& ~~~BsMask=0
    rw [state_or_and,hmask,hm]
    rfl
  · show l.epochClose=0xFFFFFFFF ↔ (l.state ||| m) &&& BsClosed=0
    rw [state_or_and,hc,UInt8.or_zero]
    exact hclose

/-- Closing a block in use in a real epoch keeps its label in use. -/
theorem Label.InUse.close {l : Label} (h : l.InUse) {e : UInt32} (he : e≠0xFFFFFFFF) :
    ({ l with state := l.state ||| BsClosed, epochClose := e } : Label).InUse := by
  obtain ⟨ha,hmask,-⟩ := h
  refine ⟨or_and_ne_zero ha BsClosed,?_,iff_of_false he (or_and_ne_zero_right (by decide) l.state)⟩
  show (l.state ||| BsClosed) &&& ~~~BsMask=0
  rw [state_or_and,hmask]
  rfl

/-- A valid label that is neither free nor bad is in use. -/
theorem Label.Valid.inUse {l : Label} (hv : l.Valid) (hf : l.state≠BsFree) (hb : l.state≠BsBad) : l.InUse :=
  (hv.2.resolve_left hf).resolve_left hb

/-- The label of a block allocated and open, of a type up to `BtMax`. -/
theorem valid_allocated {typ : BlockType} (ht : typ ≤ BtMax) (tag epoch : UInt32) :
    (⟨typ,BsAlloc,tag,epoch,0xFFFFFFFF⟩ : Label).Valid :=
  ⟨ht,.inr (.inr (show BsAlloc &&& BsAlloc≠0 ∧ BsAlloc &&& ~~~BsMask=0 ∧ ((0xFFFFFFFF : UInt32)=0xFFFFFFFF ↔
    BsAlloc &&& BsClosed=0) by decide))⟩

/-- `allocBlock` keeps every label valid when it is given a type up to `BtMax`. -/
theorem allocBlock_valid {fs : Fs} (hv : ∀ a, (fs.label a).Valid) {typ : BlockType} (ht : typ ≤ BtMax)
    (tag epoch epochLow : UInt32) (a : Nat) : ((allocBlock fs typ tag epoch epochLow).2.label a).Valid := by
  unfold allocBlock
  split
  · exact hv a
  · dsimp only
    rw [Function.update_apply]
    split
    · exact valid_allocated ht tag epoch
    · exact hv a

/-- `copy` writes valid labels on a block in use. -/
theorem copy_valid {bl : Label} (hv : bl.Valid) (hf : bl.state≠BsFree) (part : Part) (labelOk : Bool) :
    (∀ l ∈ (copy bl part labelOk).1, l.Valid) ∧ ∀ l ∈ (copy bl part labelOk).2, l.Valid := by
  unfold copy
  split
  · rename_i hc
    -- a bad label has every bit, `BsCopied` among them
    have hu := hv.inUse hf fun h => absurd (h ▸ hc.1) (by decide)
    cases labelOk
    · exact ⟨by simp,by simp [Label.Valid,BtMax]⟩
    · exact ⟨by simpa using ⟨hv.1,.inr (.inr (hu.or_bit (by decide) (by decide)))⟩,by simp⟩
  · exact ⟨by simp,by simp⟩

/-- What `doRemoveLink` writes: the label closed in the list entry's epoch, or in the block's
next one. -/
theorem doRemoveLink_eq_some {bl l : Label} {epoch : UInt32} (h : doRemoveLink bl epoch=some l) :
    l={ bl with state := bl.state ||| BsClosed, epochClose := if epoch=0 then bl.epoch+1 else epoch } := by
  unfold doRemoveLink at h
  dsimp only at h
  generalize (if epoch=0 then bl.epoch+1 else epoch)=e at h ⊢
  split at h
  · cases h
  · cases h
    rfl

/-- `doRemoveLink` writes a valid label on a block in use, when neither the list entry's epoch nor
the block's next one is the open sentinel. -/
theorem doRemoveLink_valid {bl : Label} (hv : bl.Valid) (hf : bl.state≠BsFree) {epoch : UInt32}
    (hclose : (if epoch=0 then bl.epoch+1 else epoch)≠0xFFFFFFFF) {l : Label} (h : doRemoveLink bl epoch=some l) :
    l.Valid := by
  rw [doRemoveLink_eq_some h]
  refine ⟨hv.1,?_⟩
  rcases hv.2 with hs | hs | hs
  · exact absurd hs hf
  · exact .inr (.inl (by simp only [hs]; decide))
  · exact .inr (.inr (hs.close hclose))

/-- On a free label `doRemoveLink` writes `BsClosed` without `BsAlloc`, a state `unpackLabel`
refuses: the cache loads the block checking only its type and tag. -/
theorem doRemoveLink_free {bl : Label} (hf : bl.state=BsFree) (epoch : UInt32) :
    ∀ l ∈ doRemoveLink bl epoch, ¬l.Valid := by
  intro l hl
  have hstate : (BsFree ||| BsClosed)≠BsFree ∧ (BsFree ||| BsClosed)≠BsBad ∧ (BsFree ||| BsClosed) &&& BsAlloc=0 := by
    decide
  rw [doRemoveLink_eq_some hl]
  rintro ⟨-,hs | hs | ⟨ha,-,-⟩⟩
  · exact hstate.1 (by simpa only [hf] using hs)
  · exact hstate.2.1 (by simpa only [hf] using hs)
  · exact ha (by simpa only [hf] using hstate.2.2)

/-- A directory block's label as `fsckClose` leaves a lost block: free, its type and tag kept. -/
def lostLabel : Label := ⟨BtDir,BsFree,0x40,2,0xFFFFFFFF⟩

theorem doRemoveLink_free_unreadable :
    lostLabel.Valid ∧ doRemoveLink lostLabel 3=some ⟨BtDir,BsClosed,0x40,2,3⟩ ∧
      ∀ p i, unpackLabel ((⟨BtDir,BsClosed,0x40,2,3⟩ : Label).pack p i) i=.error EBadLabel := by
  have hw : doRemoveLink lostLabel 3=some ⟨BtDir,BsClosed,0x40,2,3⟩ := by decide
  refine ⟨by decide,hw,fun p i => ?_⟩
  rw [unpackLabel_pack,if_neg (doRemoveLink_free rfl 3 _ hw)]

/-- `fsckClose` writes a valid label when the epoch it closes in is not the open sentinel. -/
theorem fsckClose_valid {bl : Label} (hv : bl.Valid) {epoch : UInt32} (he : epoch≠0xFFFFFFFF) {doClose : Bool}
    {addr : UInt32} {setErr : Option String} {l : Label} (h : fsckClose doClose addr bl epoch setErr=.ok (some l)) :
    l.Valid := by
  unfold fsckClose at h
  split at h
  · cases h
  split at h
  · cases h
  rename_i hs
  have hu := hv.inUse (fun h' => hs (.inl h')) fun h' => hs (.inr (h' ▸ by decide))
  cases setErr with
  | some e => cases h
  | none =>
    simp only [Except.ok.injEq,Option.some.injEq] at h
    subst h
    split
    · exact ⟨hv.1,.inr (.inr (hu.close he))⟩
    · exact ⟨hv.1,.inl rfl⟩

/-- `blockAlloc` writes an allocated open label that unpacks, and leaves every other label as it
was. -/
theorem blockAlloc_spec {labels : Nat → Buf} {lpb addr : Nat} {typ : BlockType} (ht : typ ≤ BtMax) {tag : UInt32}
    {a : Nat} {labels' : Nat → Buf} {addr' : Nat} (h : blockAlloc labels lpb addr typ tag=some (a,labels',addr')) :
    a=addr ∧ addr'=addr+1 ∧ unpackLabel (labels' (a/lpb)) (a%lpb)=.ok ⟨typ,BsAlloc,tag,1,0xFFFFFFFF⟩ ∧
      ∀ b j, (b,j)≠(a/lpb,a%lpb) → unpackLabel (labels' b) j=unpackLabel (labels b) j := by
  unfold blockAlloc at h
  dsimp only at h
  split at h
  · cases h
  rename_i l _
  split at h
  · cases h
  cases h
  have hv := valid_allocated ht tag 1
  refine ⟨rfl,rfl,?_,?_⟩
  · simp only [Function.update_self,unpackLabel_pack]
    rw [if_pos hv]
  · intro b j hbj
    by_cases hb : b=addr/lpb
    · subst hb
      have hj : addr%lpb≠j := fun h => hbj (by rw [h])
      rw [Function.update_self,unpackLabel_pack_of_ne _ _ hj]
    · rw [Function.update_of_ne hb]

/-- Labels come back from `pack` and `unpackLabel` exactly when valid, and the writers write
valid ones: `allocBlock` and `format`'s `blockAlloc` given a type up to `BtMax`, `copy` and
`doRemoveLink` on a block in use, and `doRemoveLink` and `fsckClose` closing in an epoch other
than the open sentinel. -/
theorem labels_written_readable :
    (∀ (l : Label) (p : Buf) (i : Nat), unpackLabel (l.pack p i) i=if l.Valid then .ok l else .error EBadLabel) ∧
    (∀ (fs : Fs) (typ : BlockType) (tag epoch epochLow : UInt32), (∀ a, (fs.label a).Valid) → typ ≤ BtMax →
      ∀ a, ((allocBlock fs typ tag epoch epochLow).2.label a).Valid) ∧
    (∀ (bl : Label) (part : Part) (labelOk : Bool), bl.Valid → bl.state≠BsFree →
      (∀ l ∈ (copy bl part labelOk).1, l.Valid) ∧ ∀ l ∈ (copy bl part labelOk).2, l.Valid) ∧
    (∀ (bl : Label) (epoch : UInt32), bl.Valid → bl.state≠BsFree → (if epoch=0 then bl.epoch+1 else epoch)≠0xFFFFFFFF →
      ∀ l ∈ doRemoveLink bl epoch, l.Valid) ∧
    (∀ (doClose : Bool) (addr : UInt32) (bl : Label) (epoch : UInt32) (setErr : Option String) (l : Label),
      bl.Valid → epoch≠0xFFFFFFFF → fsckClose doClose addr bl epoch setErr=.ok (some l) → l.Valid) ∧
    ∀ (labels : Nat → Buf) (lpb addr : Nat) (typ : BlockType) (tag : UInt32) (a : Nat) (labels' : Nat → Buf)
      (addr' : Nat), typ ≤ BtMax → blockAlloc labels lpb addr typ tag=some (a,labels',addr') →
      unpackLabel (labels' (a/lpb)) (a%lpb)=.ok ⟨typ,BsAlloc,tag,1,0xFFFFFFFF⟩ ∧
        ∀ b j, (b,j)≠(a/lpb,a%lpb) → unpackLabel (labels' b) j=unpackLabel (labels b) j := by
  refine ⟨unpackLabel_pack,?alloc,?copy,?remove,?close,?format⟩
  case alloc => exact fun fs typ tag epoch epochLow hv ht a => allocBlock_valid hv ht tag epoch epochLow a
  case copy => exact fun bl part labelOk hv hf => copy_valid hv hf part labelOk
  case remove => exact fun bl epoch hv hf hclose l hl => doRemoveLink_valid hv hf hclose hl
  case close => exact fun doClose addr bl epoch setErr l hv he h => fsckClose_valid hv he h
  case format => exact fun labels lpb addr typ tag a labels' addr' ht h => (blockAlloc_spec ht h).2.2

/-- A data block in use, open since epoch 2. -/
def openLabel : Label := ⟨BtData,BsAlloc,0x40,2,0xFFFFFFFF⟩

/-- A disk whose blocks are all free. -/
def freshFs : Fs := ⟨fun _ => ⟨BtData,BsFree,0,0,0⟩,fun _ _ => 0,fun _ _ => none,8192,0,4,3,1,[]⟩

theorem labels_written_readable_openLabel :
    (∀ a, ((allocBlock freshFs BtDir 0x40 3 1).2.label a).Valid) ∧ (∀ l ∈ (copy openLabel .data true).1, l.Valid) ∧
      (∀ l ∈ doRemoveLink openLabel 3, l.Valid) ∧ (∀ l, fsckClose true 7 openLabel 3 none=.ok (some l) → l.Valid) ∧
      ∃ r, blockAlloc (fun _ _ => 0) 4 0 BtDir 0x40=some r ∧
        unpackLabel (r.2.1 (r.1/4)) (r.1%4)=.ok ⟨BtDir,BsAlloc,0x40,1,0xFFFFFFFF⟩ := by
  have h := labels_written_readable
  have hv : openLabel.Valid := by decide
  obtain ⟨r,hr⟩ := Option.isSome_iff_exists.mp (show (blockAlloc (fun _ _ => 0) 4 0 BtDir 0x40).isSome by decide)
  refine ⟨h.2.1 freshFs BtDir 0x40 3 1 (fun _ => show (⟨BtData,BsFree,0,0,0⟩ : Label).Valid by decide) (by decide),(h.2.2.1 openLabel .data true hv (by decide)).1,
    h.2.2.2.1 openLabel 3 hv (by decide) (by decide),
    fun l => h.2.2.2.2.1 true 7 openLabel 3 none l hv (by decide),r,hr,?_⟩
  exact (h.2.2.2.2.2 _ _ _ _ _ r.1 r.2.1 r.2.2 (by decide) hr).1

end Fossil.Block
