import Fossil.Vac.Search
import Fossil.Vac.Alloc

/-!
# What the file layer does to a meta block

`metaRemove` (and `fsckClri`), `metaAlloc` and `metaFlush2` each unpack one meta block, change
it with the operations of `vac.go` and pack it; `metaAlloc` may instead start from a block that
`initMetaBlock` has just made, when no block of the meta file has room. On a valid block that is
not old and that `unpackMetaBlock` accepted or `initMetaBlock` made (`Sound`), each of them, asked
what the file layer asks (a new name for `metaAlloc`, a name that is the old one or new for
`metaFlush2`), succeeds, leaves a valid block that `unpackMetaBlock` accepts again unless it left
the block as it was, and changes the list of entries' bytes only as it should: one entry removed,
one inserted in name order, or one rewritten. No other entry is lost, duplicated or overwritten,
over any sequence of such operations.

An old block is another matter: `pack` refuses to write one, so `metaAlloc` on an old block
that has room panics.
-/

namespace Fossil.Vac

open Bytes Extent

/-! ## Writing a directory entry -/

/-- `packDirEntry` writes `getSize` bytes, the optional section when `qidSpace` is positive. -/
theorem encode_length (dir : DirEntry) (hq : 0 ≤ dir.qidSpace) : (encode dir).length=dir.getSize := by
  unfold encode DirEntry.getSize packString
  by_cases h0 : dir.qidSpace=0
  · simp only [h0,List.length_append,be16_length,be32_length,be64_length,ne_eq,not_true_eq_false,↓reduceIte,
      lt_self_iff_false,List.length_nil]
    omega
  · have hpos : 0 < dir.qidSpace := lt_of_le_of_ne hq (Ne.symm h0)
    simp only [h0,hpos,List.length_append,be16_length,be32_length,be64_length,ne_eq,not_false_eq_true,↓reduceIte,
      List.length_cons,List.length_nil]
    omega

/-- The two bytes `PutUint16` writes read back as the number. -/
theorem be16_toNat (n : Nat) (h : n < 2^16) :
    ((be16 n.toUInt16).getD 0 0).toNat*256+((be16 n.toUInt16).getD 1 0).toNat=n := by
  have h' : n < 65536 := h
  simp [be16,UInt16.toNat_shiftRight,Nat.mod_eq_of_lt h',Nat.shiftRight_eq_div_pow]
  omega

/-- The name a written entry records is its `elem`. -/
theorem nameOf_encode (dir : DirEntry) (h : dir.elem.length < 2^16) : nameOf (encode dir)=dir.elem := by
  have h6 : (encode dir).getD 6 0=(be16 dir.elem.length.toUInt16).getD 0 0 := by
    simp [encode,packString,be16,be32]
  have h7 : (encode dir).getD 7 0=(be16 dir.elem.length.toUInt16).getD 1 0 := by
    simp [encode,packString,be16,be32]
  unfold nameOf
  rw [h6,h7,be16_toNat _ h]
  simp [encode,packString,be16,be32]

/-- A written entry starts with `DirMagic`. -/
theorem get32_write_encode (buf : Buf) (o : Nat) (dir : DirEntry) : get32 (write buf o (encode dir)) o=DirMagic := by
  have h : region (write buf o (encode dir)) o 4=be32 DirMagic := by
    rw [← region_take _ _ (show 4 ≤ (encode dir).length by simp [encode]),region_write_same,encode]
    simp only [List.append_assoc]
    exact List.take_left' (be32_length _)
  have href : region (put32 (fun _ => 0) 0 DirMagic) 0 4=be32 DirMagic := region_write_same _ _ _
  rw [get32_of_region (h.trans href.symm)]
  decide

theorem getSize_ge (dir : DirEntry) : 50 ≤ dir.getSize := by
  unfold DirEntry.getSize
  omega

/-- Write the entry into a free range of the block, open slot `i` for it and pack: what
`metaAlloc` and `metaFlush2` do once they have the bytes. The names must stay in order. -/
theorem place_spec {mb : MetaBlock} (hv : Valid mb) (hb : mb.botch=false) {dir : DirEntry}
    (hq : 0 ≤ dir.qidSpace) {o i : Nat} (hf : Free mb o dir.getSize) (hn : mb.nindex < mb.maxindex)
    (hi : i ≤ mb.nindex) (hlo : ∀ j < i, key (nameAt mb j) < key dir.elem)
    (hhi : ∀ j, i ≤ j → j < mb.nindex → key dir.elem < key (nameAt mb j)) :
    ∃ mb₁ mb₂ mb₃, packDirEntry mb dir ⟨o,dir.getSize.toUInt16⟩=some mb₁ ∧
      insert mb₁ i ⟨o,dir.getSize.toUInt16⟩=some mb₂ ∧ pack mb₂=some mb₃ ∧
      Valid mb₃ ∧ Shape mb mb₃ ∧ unpackMetaBlock mb₃.buf mb₃.maxsize=some mb₃ ∧
      contents mb₃=(contents mb).insertIdx i (encode dir) := by
  have hmax := hv.maxsize_lt
  have h16 : dir.getSize < 2^16 := by
    unfold Free at hf
    omega
  have hsize : (⟨o,dir.getSize.toUInt16⟩ : MetaEntry).size.toNat=dir.getSize := toNat_toUInt16 h16
  have hlen := encode_length dir hq
  have hk : Keeps mb (write mb.buf o (encode dir)) := keeps_write hv (by rw [hlen]; exact hf)
  have hpack : packDirEntry mb dir ⟨o,dir.getSize.toUInt16⟩=some { mb with buf := write mb.buf o (encode dir) } := by
    unfold packDirEntry
    rw [if_pos (by rw [hsize,hlen])]
  have hv₁ := hk.valid hv
  have hent₁ := hk.entries_eq
  have hnames : ∀ j < mb.nindex, nameAt { mb with buf := write mb.buf o (encode dir) } j=nameAt mb j := by
    intro j hj
    unfold nameAt
    dsimp only
    rw [hk.slotEntry_eq hj,hk.content_eq (slot_mem hj)]
  have hcontent : content (write mb.buf o (encode dir)) ⟨o,dir.getSize.toUInt16⟩=encode dir := by
    unfold content
    dsimp only
    rw [hsize,← hlen,region_write_same]
  have helem : dir.elem.length < 2^16 := by
    have hel : dir.elem.length < dir.getSize := by
      unfold DirEntry.getSize
      omega
    omega
  obtain ⟨mb₂,hins⟩ := @insert_isSome { mb with buf := write mb.buf o (encode dir) } i
    ⟨o,dir.getSize.toUInt16⟩ hn hi
  have hf₁ : Free { mb with buf := write mb.buf o (encode dir) } o (⟨o,dir.getSize.toUInt16⟩ : MetaEntry).size.toNat := by
    rw [hsize]
    obtain ⟨h1,h2,h3⟩ := hf
    exact ⟨h1,h2,by rw [hent₁]; exact h3⟩
  have hv₂ := valid_insert hv₁ hins hf₁ (by rw [hsize]; exact le_trans (by norm_num) (getSize_ge dir))
    (get32_write_encode _ _ _) (fun _ => ⟨fun j hj => by
      rw [hcontent,nameOf_encode dir helem,hnames j (by omega)]
      exact hlo j hj,fun j hj1 hj2 => by
      rw [hcontent,nameOf_encode dir helem,hnames j hj2]
      exact hhi j hj1 hj2⟩)
  have hc₂ := contents_insert hv₁ hins (show o < 2^16 by unfold Free at hf; omega) hf.1
  rw [hcontent,hk.contents_eq] at hc₂
  have hs₂ := (insert_shape hins).1
  have hb₂ : mb₂.botch=false := hs₂.botch.trans hb
  obtain ⟨mb₃,hp⟩ : ∃ mb₃, pack mb₂=some mb₃ := ⟨_,pack_eq hb₂⟩
  obtain ⟨hv₃,hs₃,-,hc₃,-,-⟩ := pack_spec hv₂ hp
  exact ⟨_,mb₂,mb₃,hpack,hins,hp,hv₃,⟨hs₃.maxsize.trans hs₂.maxsize,hs₃.maxindex.trans hs₂.maxindex,
    hs₃.botch.trans hs₂.botch⟩,unpackMetaBlock_pack hv₂ hp,hc₃.trans hc₂⟩

/-! ## Names after an operation -/

theorem nameOf_getElem_contents (mb : MetaBlock) {i : Nat} (hi : i < (contents mb).length) :
    nameOf (contents mb)[i]=nameAt mb i := by
  simp [contents,nameAt]

/-- Blocks with the same entries' bytes record the same names. -/
theorem nameAt_of_contents {mb mb' : MetaBlock} (h : contents mb'=contents mb) {j : Nat} (hj : j < mb.nindex) :
    nameAt mb' j=nameAt mb j := by
  have hl : mb'.nindex=mb.nindex := by
    have := congrArg List.length h
    simpa using this
  rw [← nameOf_getElem_contents mb' (by simp; omega),← nameOf_getElem_contents mb (by simp; omega)]
  simp only [h]

theorem names_of_contents {mb mb' : MetaBlock} (h : contents mb'=contents mb) : names mb'=names mb := by
  unfold names
  rw [h]

/-- After deleting slot `i` the later slots hold the next names. -/
theorem nameAt_delete {mb mb' : MetaBlock} (hv : Valid mb) {i : Nat} (h : delete mb i=some mb') {j : Nat}
    (hj : j < mb'.nindex) : nameAt mb' j=nameAt mb (if j < i then j else j+1) := by
  have hn := (delete_shape h).2
  have hi := (delete_inv h).1
  have hnames := congrArg (fun l => l[j]?) (names_delete hv h)
  simp only [List.getElem?_eq_getElem (show j < (names mb').length by simpa using hj),
    List.getElem?_eq_getElem (show j < ((names mb).eraseIdx i).length by
      simp [List.length_eraseIdx,hi]; omega),Option.some_inj,getElem_names,List.getElem_eraseIdx] at hnames
  rw [hnames]
  split <;> simp

/-- Where `metaFlush2` puts the new name once slot `i` is deleted: back at `i` when the name
stays, otherwise where `search` finds room; either way between its neighbours. -/
theorem newSlot_spec {mb mb' : MetaBlock} (hv : Valid mb) (hb : mb.botch=false) {i : Nat}
    (h : delete mb i=some mb') {oelem : List UInt8} {dir : DirEntry} (hold : nameAt mb i=oelem)
    (hname : dir.elem=oelem ∨ dir.elem ∉ names mb) :
    ∃ j, (if dir.elem≠oelem then (search mb' dir.elem).map Prod.fst else some i)=some j ∧
      j ≤ mb'.nindex ∧ (∀ k < j, key (nameAt mb' k) < key dir.elem) ∧
      ∀ k, j ≤ k → k < mb'.nindex → key dir.elem < key (nameAt mb' k) := by
  have hi := (delete_inv h).1
  have hn := (delete_shape h).2
  have hv' := valid_delete hv h
  have hb' : mb'.botch=false := (delete_shape h).1.botch.trans hb
  have hstrict := strictOn_names hv hb
  by_cases he : dir.elem=oelem
  · refine ⟨i,by simp [he],by omega,fun k hk => ?_,fun k hk1 hk2 => ?_⟩
    · rw [nameAt_delete hv h (by omega),if_pos hk,he,← hold]
      exact hstrict k i (Nat.zero_le k) hk hi
    · rw [nameAt_delete hv h hk2,if_neg (by omega),he,← hold]
      exact hstrict i (k+1) (Nat.zero_le i) (by omega) (by omega)
  · have hnot : dir.elem ∉ names mb := hname.resolve_left he
    obtain ⟨j,hj⟩ := search_spec hv' hb' dir.elem
    rcases hj with ⟨hj,hnm,-⟩ | ⟨hj,hs,hlo,hhi⟩
    · refine absurd ?_ hnot
      rw [← hnm,nameAt_delete hv h hj]
      rw [List.mem_iff_getElem]
      exact ⟨if j < i then j else j+1,by simp; split <;> omega,by simp⟩
    · exact ⟨j,by simp [he,hs],hj,hlo,hhi⟩

/-! ## The file layer's operations -/

/-- A block as the file layer holds it between operations: valid, not old, and either what
`unpackMetaBlock` reads back from its bytes or one `initMetaBlock` has just made for `metaAlloc`
to fill, whose bytes are still all zero. -/
structure Sound (mb : MetaBlock) : Prop where
  valid : Valid mb
  current : mb.botch=false
  stored : unpackMetaBlock mb.buf mb.maxsize=some mb ∨ ∃ p, mb=initMetaBlock p mb.maxsize mb.maxindex

/-- A block `initMetaBlock` makes is sound when its table fits it. -/
theorem sound_initMetaBlock (p : Buf) {maxSize n : Nat} (hmax : maxSize < 2^16)
    (hfit : MetaHeaderSize+n*MetaIndexSize ≤ maxSize) : Sound (initMetaBlock p maxSize n) := by
  have he : entries (initMetaBlock p maxSize n)=[] := rfl
  refine ⟨⟨hmax,Nat.zero_le n,hfit,by simp [he],by simp [he],?_,fun _ => by simp [names,contents,he]⟩,rfl,
    .inr ⟨p,rfl⟩⟩
  rw [he]
  simp [initMetaBlock,MetaBlock.omin]

/-- Packing a valid block that is not old leaves a sound block that `unpackMetaBlock` reads back,
with the same entries. -/
theorem pack_sound {mb : MetaBlock} (hv : Valid mb) (hb : mb.botch=false) :
    ∃ mb', pack mb=some mb' ∧ Sound mb' ∧ unpackMetaBlock mb'.buf mb'.maxsize=some mb' ∧
      contents mb'=contents mb := by
  obtain ⟨hv',hs',-,hc',-,-⟩ := pack_spec hv (pack_eq hb)
  have hu := unpackMetaBlock_pack hv (pack_eq hb)
  exact ⟨_,pack_eq hb,⟨hv',hs'.botch.trans hb,.inl hu⟩,hu,hc'⟩

/-- What the file layer asks of one meta block. -/
inductive Op
  | remove (elem : List UInt8)
  | alloc (dir : DirEntry)
  | flush (oelem : List UInt8) (dir : DirEntry) (moved : Bool)

/-- One operation on the block; `none` is a panic. -/
def step (sort : List MetaChunk → List MetaChunk) (mb : MetaBlock) : Op → Option MetaBlock
  | .remove elem => (metaRemove mb elem).map Prod.fst
  | .alloc dir => (metaAlloc sort mb dir).map Prod.fst
  | .flush oelem dir moved => (metaFlush2 sort mb oelem dir moved).map Prod.fst

/-- What the file layer makes sure of before it asks: `metaAlloc` picks a block with a free slot
(`n <= nn && mb.nindex < mb.maxindex`) for a name the directory does not hold, a rename is to a
name the directory does not hold, and `qidSpace` is never negative. -/
def Allowed (mb : MetaBlock) : Op → Prop
  | .remove _ => True
  | .alloc dir => 0 ≤ dir.qidSpace ∧ dir.elem ∉ names mb ∧ mb.nindex < mb.maxindex
  | .flush oelem dir _ => 0 ≤ dir.qidSpace ∧ (dir.elem=oelem ∨ dir.elem ∉ names mb)

/-- How an operation may change the entries' bytes, in table order: nothing, the named entry
removed, the new entry inserted, or the named entry rewritten (or moved out when `metaAlloc`
placed it in another block). -/
inductive Changes : List (List UInt8) → Op → List (List UInt8) → Prop
  | keep (d : List (List UInt8)) (op : Op) : Changes d op d
  | remove (d : List (List UInt8)) (elem : List UInt8) (i : Nat) (h : i < d.length) (he : nameOf d[i]=elem) :
      Changes d (.remove elem) (d.eraseIdx i)
  | alloc (d : List (List UInt8)) (dir : DirEntry) (i : Nat) (h : i ≤ d.length) :
      Changes d (.alloc dir) (d.insertIdx i (encode dir))
  | rewrite (d : List (List UInt8)) (oelem : List UInt8) (dir : DirEntry) (moved : Bool) (i j : Nat)
      (h : i < d.length) (he : nameOf d[i]=oelem) (hj : j < d.length) :
      Changes d (.flush oelem dir moved) ((d.eraseIdx i).insertIdx j (encode dir))
  | move (d : List (List UInt8)) (oelem : List UInt8) (dir : DirEntry) (i : Nat) (h : i < d.length)
      (he : nameOf d[i]=oelem) : Changes d (.flush oelem dir true) (d.eraseIdx i)

section Ops

variable {sort : List MetaChunk → List MetaChunk} (hs : SortsByOffset sort) {mb : MetaBlock} (h : Sound mb)
include h

/-- `metaRemove` removes the named entry and packs the block, or leaves the block when the name
is not there. -/
theorem metaRemove_spec (elem : List UInt8) :
    ∃ mb' found, metaRemove mb elem=some (mb',found) ∧ Sound mb' ∧
      (mb'=mb ∨ unpackMetaBlock mb'.buf mb'.maxsize=some mb') ∧ Changes (contents mb) (.remove elem) (contents mb') := by
  obtain ⟨i,⟨hi,hname,hsearch⟩ | ⟨-,hsearch,-,-⟩⟩ := search_spec h.valid h.current elem
  · obtain ⟨mb₁,hdel⟩ := delete_isSome h.valid hi
    obtain ⟨mb₂,hpack,hsound,hu,hc⟩ := pack_sound (valid_delete h.valid hdel)
      ((delete_shape hdel).1.botch.trans h.current)
    refine ⟨mb₂,true,by simp [metaRemove,hsearch,hdel,hpack],hsound,.inr hu,?_⟩
    rw [hc,contents_delete h.valid hdel]
    exact Changes.remove _ _ i (by simpa using hi) (by rw [nameOf_getElem_contents,hname])
  · exact ⟨mb,false,by simp [metaRemove,hsearch],h,.inl rfl,Changes.keep _ _⟩

include hs

/-- `metaAlloc` on a block with a free slot, for a new name, inserts the entry in name order,
or leaves the entries when there is no room; either way it packs the block. -/
theorem metaAlloc_spec {dir : DirEntry} (hq : 0 ≤ dir.qidSpace) (hnew : dir.elem ∉ names mb)
    (hn : mb.nindex < mb.maxindex) :
    ∃ mb' ok, metaAlloc sort mb dir=some (mb',ok) ∧ Sound mb' ∧ unpackMetaBlock mb'.buf mb'.maxsize=some mb' ∧
      Changes (contents mb) (.alloc dir) (contents mb') := by
  have hv := h.valid
  rcases ha : alloc sort mb dir.getSize with ⟨mb₁,r⟩
  obtain ⟨hv₁,hs₁,hn₁,hc₁,hf⟩ := alloc_spec hs hv ha
  have hb₁ : mb₁.botch=false := hs₁.botch.trans h.current
  cases r with
  | none =>
    obtain ⟨mb₂,hpack,hsound,hu,hc⟩ := pack_sound hv₁ hb₁
    refine ⟨mb₂,false,by simp [metaAlloc,ha,hpack],hsound,hu,?_⟩
    rw [hc,hc₁]
    exact Changes.keep _ _
  | some o =>
    have hnew₁ : dir.elem ∉ names mb₁ := by
      rw [names_of_contents hc₁]
      exact hnew
    obtain ⟨i,⟨hi,hname,-⟩ | ⟨hi,hsearch,hlo,hhi⟩⟩ := search_spec hv₁ hb₁ dir.elem
    · exact absurd (List.mem_iff_getElem.mpr ⟨i,by simpa using hi,by simpa using hname⟩) hnew₁
    · obtain ⟨mb₂,mb₃,mb₄,hpk,hins,hpack,hv₄,hs₄,hu₄,hc₄⟩ :=
        place_spec hv₁ hb₁ hq (hf o rfl) (by rw [hn₁,hs₁.maxindex]; exact hn) hi hlo hhi
      refine ⟨mb₄,true,by simp [metaAlloc,ha,hsearch,hpk,hins,hpack],⟨hv₄,hs₄.botch.trans hb₁,.inl hu₄⟩,hu₄,?_⟩
      rw [hc₄,hc₁]
      exact Changes.alloc _ _ i (by simp; omega)

/-- `metaFlush2` rewrites the entry of the old name in place, under its new name in name order;
or, when it does not fit, removes it if `metaAlloc` placed it elsewhere and otherwise leaves the
entries. -/
theorem metaFlush2_spec {oelem : List UInt8} {dir : DirEntry} {moved : Bool} (hq : 0 ≤ dir.qidSpace)
    (hname : dir.elem=oelem ∨ dir.elem ∉ names mb) :
    ∃ mb' ok, metaFlush2 sort mb oelem dir moved=some (mb',ok) ∧ Sound mb' ∧
      (mb'=mb ∨ unpackMetaBlock mb'.buf mb'.maxsize=some mb') ∧
      Changes (contents mb) (.flush oelem dir moved) (contents mb') := by
  have hv := h.valid
  obtain ⟨i,⟨hi,hold,hsearch⟩ | ⟨-,hsearch,-,-⟩⟩ := search_spec hv h.current oelem
  · rcases hr : resize sort mb (slotEntry mb.buf i) dir.getSize with ⟨mb₁,me',ok⟩
    obtain ⟨hv₁,hs₁,hn₁,hc₁,hok⟩ := resize_spec hs hv hi hr
    have hb₁ : mb₁.botch=false := hs₁.botch.trans h.current
    have hi₁ : i < mb₁.nindex := by omega
    obtain ⟨mb₂,hdel⟩ := delete_isSome hv₁ hi₁
    have hb₂ : mb₂.botch=false := (delete_shape hdel).1.botch.trans hb₁
    have hc₂ : contents mb₂=(contents mb).eraseIdx i := by
      rw [contents_delete hv₁ hdel,hc₁]
    have hiL : i < (contents mb).length := by simpa using hi
    have hnm : nameOf (contents mb)[i]=oelem := by
      rw [nameOf_getElem_contents,hold]
    cases ok with
    | true =>
      obtain ⟨hsz,hlo,hhi,hap⟩ := hok rfl
      have hold₁ : nameAt mb₁ i=oelem := by
        rw [nameAt_of_contents hc₁ hi,hold]
      have hname₁ : dir.elem=oelem ∨ dir.elem ∉ names mb₁ := by
        rw [names_of_contents hc₁]
        exact hname
      obtain ⟨j,hj,hjle,hjlo,hjhi⟩ := newSlot_spec hv₁ hb₁ hdel hold₁ hname₁
      have hf₂ : Free mb₂ me'.offset dir.getSize :=
        free_delete hv₁ hdel (by rw [hs₁.omin_eq]; exact hlo) (by rw [hs₁.maxsize]; exact hhi)
          (fun k hk hki => hap k (by omega) hki)
      have hme' : me'=⟨me'.offset,dir.getSize.toUInt16⟩ := by
        have h16 : dir.getSize < 2^16 := by
          have := hv.maxsize_lt
          omega
        obtain ⟨off,sz⟩ := me'
        simp only at hsz ⊢
        rw [MetaEntry.mk.injEq]
        exact ⟨rfl,UInt16.toNat_inj.mp (by rw [hsz,toNat_toUInt16 h16])⟩
      have hn₂ : mb₂.nindex < mb₂.maxindex := by
        have := hv₁.nindex_le
        rw [(delete_shape hdel).2,(delete_shape hdel).1.maxindex]
        omega
      obtain ⟨mb₃,mb₄,mb₅,hpk,hins,hpack,hv₅,hs₅,hu₅,hc₅⟩ :=
        place_spec (valid_delete hv₁ hdel) hb₂ hq hf₂ hn₂ hjle hjlo hjhi
      rw [hme'] at hr
      refine ⟨mb₅,true,?_,⟨hv₅,hs₅.botch.trans hb₂,.inl hu₅⟩,.inr hu₅,?_⟩
      · simp only [metaFlush2,hsearch,hr,hdel]
        rw [hj]
        simp [hpk,hins,hpack]
      · rw [hc₅,hc₂]
        have := (delete_shape hdel).2
        exact Changes.rewrite _ _ _ _ i j hiL hnm (by simp; omega)
    | false =>
      cases moved with
      | true =>
        obtain ⟨mb₃,hpack,hsound,hu,hc⟩ := pack_sound (valid_delete hv₁ hdel) hb₂
        refine ⟨mb₃,true,by simp [metaFlush2,hsearch,hr,hdel,hpack],hsound,.inr hu,?_⟩
        rw [hc,hc₂]
        exact Changes.move _ _ _ i hiL hnm
      | false =>
        obtain ⟨mb₃,hpack,hsound,hu,hc⟩ := pack_sound hv₁ hb₁
        refine ⟨mb₃,false,by simp [metaFlush2,hsearch,hr,hpack],hsound,.inr hu,?_⟩
        rw [hc,hc₁]
        exact Changes.keep _ _
  · exact ⟨mb,false,by simp [metaFlush2,hsearch],h,.inl rfl,Changes.keep _ _⟩

/-- Every allowed operation succeeds on a sound block, leaves a sound block, either the block as
it was or one `unpackMetaBlock` reads back from its bytes, and changes the entries' bytes only as
`Changes` says. -/
theorem step_spec (op : Op) (ha : Allowed mb op) :
    ∃ mb', step sort mb op=some mb' ∧ Sound mb' ∧ (mb'=mb ∨ unpackMetaBlock mb'.buf mb'.maxsize=some mb') ∧
      Changes (contents mb) op (contents mb') := by
  cases op with
  | remove elem =>
    obtain ⟨mb',_,he,hs',hk,hc⟩ := metaRemove_spec h elem
    exact ⟨mb',by simp [step,he],hs',hk,hc⟩
  | alloc dir =>
    obtain ⟨hq,hnew,hn⟩ := ha
    obtain ⟨mb',_,he,hs',hu,hc⟩ := metaAlloc_spec hs h hq hnew hn
    exact ⟨mb',by simp [step,he],hs',.inr hu,hc⟩
  | flush oelem dir moved =>
    obtain ⟨hq,hname⟩ := ha
    obtain ⟨mb',_,he,hs',hk,hc⟩ := metaFlush2_spec hs h hq hname
    exact ⟨mb',by simp [step,he],hs',hk,hc⟩

end Ops

/-- A sequence of operations on one block; `none` is a panic. -/
def run (sort : List MetaChunk → List MetaChunk) : MetaBlock → List Op → Option MetaBlock
  | mb, [] => some mb
  | mb, op::ops => (step sort mb op).bind fun mb' => run sort mb' ops

/-- Each operation of the sequence is allowed in the block it meets. -/
def AllowedRun (sort : List MetaChunk → List MetaChunk) : MetaBlock → List Op → Prop
  | _, [] => True
  | mb, op::ops => Allowed mb op ∧ ∀ mb', step sort mb op=some mb' → AllowedRun sort mb' ops

/-- A sound block stays sound over every sequence of allowed operations. -/
theorem run_sound {sort : List MetaChunk → List MetaChunk} (hs : SortsByOffset sort) (ops : List Op) :
    ∀ mb, Sound mb → AllowedRun sort mb ops → ∃ mb', run sort mb ops=some mb' ∧ Sound mb' := by
  induction ops with
  | nil => exact fun mb h _ => ⟨mb,rfl,h⟩
  | cons op ops ih =>
    intro mb h ⟨ha,hrest⟩
    obtain ⟨mb₁,hstep,h₁,-,-⟩ := step_spec hs h op ha
    obtain ⟨mb₂,hrun,h₂⟩ := ih mb₁ h₁ (hrest mb₁ hstep)
    exact ⟨mb₂,by simp [run,hstep,hrun],h₂⟩

/-- A directory entry named `a`. -/
def newDir : DirEntry :=
  ⟨[0x61],0,0,0,0,0,[],[],[],0,0,0,0,0,0,0,0⟩

/-- A directory entry named `b`. -/
def otherDir : DirEntry :=
  ⟨[0x62],0,0,0,0,0,[],[],[],0,0,0,0,0,0,0,0⟩

/-- A block of 200 bytes with two slots, the first holding the entry of `newDir`, written right
after the table. -/
def oneBlock : MetaBlock :=
  ⟨200,20+(encode newDir).length,0,2,1,false,
    write (write (fun _ => 0) 0 (be32 MetaMagic++be16 (20+(encode newDir).length).toUInt16++be16 0++be16 2++be16 1++
      be16 20++be16 (encode newDir).length.toUInt16)) 20 (encode newDir)⟩

theorem valid_oneBlock : Valid oneBlock := by
  have he : entries oneBlock=[⟨20,(encode newDir).length.toUInt16⟩] := rfl
  refine ⟨by decide,by decide,by decide,?_,by simp [he],by rw [he]; decide,fun _ => ?_⟩
  · simp only [he,List.mem_singleton,forall_eq,Within]
    decide
  · simp [names,contents,he]

/-- A block an older fossil wrote (magic `MetaMagic-1`), with no entries and one free slot. -/
def oldBlock : MetaBlock :=
  ⟨200,16,0,1,0,true,write (fun _ => 0) 0 (be32 (MetaMagic-1)++be16 16++be16 0++be16 1++be16 0)⟩

theorem valid_oldBlock : Valid oldBlock := by
  have he : entries oldBlock=[] := rfl
  refine ⟨by decide,by decide,by decide,by simp [he],by simp [he],by rw [he]; rfl,fun hb => absurd hb (by decide)⟩

theorem unpackMetaBlock_oldBlock : unpackMetaBlock oldBlock.buf oldBlock.maxsize=some oldBlock := by
  rfl

theorem metaAlloc_oldBlock (sort : List MetaChunk → List MetaChunk) : metaAlloc sort oldBlock newDir=none := by
  simp [metaAlloc,alloc,search,BinSearch.search_of_le,packDirEntry,insert,pack,oldBlock,newDir,DirEntry.getSize,
    encode,packString]

end Fossil.Vac
