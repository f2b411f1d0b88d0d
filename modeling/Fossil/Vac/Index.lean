import Fossil.Vac.Layout

/-!
# Opening and closing index slots

`delete` zeroes an entry and closes its slot, moving the later slots down; `insert` opens a slot
for an entry already written, moving the later slots up. On the view of the block as its list of
entries these are `eraseIdx` and `insertIdx`: every other entry keeps its bytes and its place in
the order. Each keeps the block valid, `insert` when the new entry lies in a free range, starts
with `DirMagic` and, in a block that is not old, has a name between its neighbours'.
-/

namespace Fossil.Vac

open Bytes Extent

/-- The name slot `j` records. -/
def nameAt (mb : MetaBlock) (j : Nat) : List UInt8 :=
  nameOf (content mb.buf (slotEntry mb.buf j))

@[simp] theorem getElem_names (mb : MetaBlock) (j : Nat) (h : j < (names mb).length) :
    (names mb)[j]=nameAt mb j := by
  simp [names,contents,nameAt]

@[simp] theorem length_names (mb : MetaBlock) : (names mb).length=mb.nindex := by
  simp [names]

/-! ## Delete -/

/-- What `delete` does to a slot in use. -/
theorem delete_inv {mb mb' : MetaBlock} {i : Nat} (h : delete mb i=some mb') :
    i < mb.nindex ∧ 8 ≤ (slotEntry mb.buf i).size ∧
    mb'={ mb with
      buf := fill (move (fill mb.buf (slotEntry mb.buf i).offset (slotEntry mb.buf i).size.toNat) (slot i)
        (slot i+MetaIndexSize) ((mb.nindex-i-1)*MetaIndexSize)) (slot i+(mb.nindex-i-1)*MetaIndexSize)
        MetaIndexSize
      size := if (slotEntry mb.buf i).offset+(slotEntry mb.buf i).size.toNat=mb.size then
        mb.size-(slotEntry mb.buf i).size.toNat else mb.size
      free := if (slotEntry mb.buf i).offset+(slotEntry mb.buf i).size.toNat=mb.size then mb.free
        else mb.free+(slotEntry mb.buf i).size.toNat
      nindex := mb.nindex-1 } := by
  unfold delete at h
  cases hu : unpackMetaEntry mb i with
  | none =>
    rw [hu] at h
    cases h
  | some me =>
    rw [hu] at h
    unfold unpackMetaEntry at hu
    split_ifs at hu with h1 h2
    obtain rfl := Option.some_inj.mp hu
    exact ⟨h1,h2,(Option.some_inj.mp h).symm⟩

theorem delete_isSome {mb : MetaBlock} {i : Nat} (hv : Valid mb) (hi : i < mb.nindex) :
    ∃ mb', delete mb i=some mb' := by
  have h8 := hv.entry_size (slot_mem hi)
  unfold delete unpackMetaEntry
  rw [if_pos hi,if_pos (show 8 ≤ get16 mb.buf (slot i+2) from h8)]
  exact ⟨_,rfl⟩

section Delete

variable {buf : Buf} {i nindex off s : Nat}

/-- Closing slot `i` of `nindex`: the slots below `i` stay, the later ones move down. -/
theorem region_slot_delete {j : Nat} (hj : j+1 < nindex) (hoff : slot nindex ≤ off) :
    region (fill (move (fill buf off s) (slot i) (slot i+MetaIndexSize) ((nindex-i-1)*MetaIndexSize))
      (slot i+(nindex-i-1)*MetaIndexSize) MetaIndexSize) (slot j) 4=
    region buf (slot (if j < i then j else j+1)) 4 := by
  unfold slot MetaHeaderSize MetaIndexSize at *
  rw [region_fill_disjoint (Or.inl (by omega))]
  by_cases hji : j < i
  · rw [if_pos hji,region_move_disjoint (Or.inl (by omega)),region_fill_disjoint (Or.inl (by omega))]
  · rw [if_neg hji,region_move_inside (by omega) (by omega),region_fill_disjoint (Or.inl (by omega))]
    congr 1
    omega

/-- Closing a slot leaves every byte past the table and outside the zeroed entry. -/
theorem region_data_delete {o m : Nat} (hi : i < nindex) (ho : slot nindex ≤ o) (hap : o+m ≤ off ∨ off+s ≤ o) :
    region (fill (move (fill buf off s) (slot i) (slot i+MetaIndexSize) ((nindex-i-1)*MetaIndexSize))
      (slot i+(nindex-i-1)*MetaIndexSize) MetaIndexSize) o m=region buf o m := by
  unfold slot MetaHeaderSize MetaIndexSize at *
  rw [region_fill_disjoint (Or.inr (by omega)),region_move_disjoint (Or.inr (by omega)),region_fill_disjoint hap]

end Delete

theorem delete_shape {mb mb' : MetaBlock} {i : Nat} (h : delete mb i=some mb') :
    Shape mb mb' ∧ mb'.nindex=mb.nindex-1 := by
  obtain ⟨-,-,rfl⟩ := delete_inv h
  exact ⟨⟨rfl,rfl,rfl⟩,rfl⟩

section Delete

variable {mb mb' : MetaBlock} {i : Nat} (hv : Valid mb) (h : delete mb i=some mb')
include hv h

theorem entries_delete : entries mb'=(entries mb).eraseIdx i := by
  obtain ⟨hi,-,rfl⟩ := delete_inv h
  apply List.ext_getElem
  · simp [List.length_eraseIdx,hi]
  · intro j h1 h2
    simp only [length_entries] at h1
    rw [List.getElem_eraseIdx,getElem_entries]
    have hs := @region_slot_delete mb.buf i mb.nindex (slotEntry mb.buf i).offset (slotEntry mb.buf i).size.toNat j
      (by omega) ((hv.slot_le_omin).trans (hv.entry_within (slot_mem hi)).1)
    by_cases hji : j < i
    · rw [dif_pos hji,getElem_entries]
      rw [if_pos hji] at hs
      exact slotEntry_of_region hs
    · rw [dif_neg hji,getElem_entries]
      rw [if_neg hji] at hs
      exact slotEntry_of_region hs

/-- Every slot but the deleted one keeps its entry's bytes. -/
theorem content_delete {j : Nat} (hj : j < mb.nindex) (hji : j≠i) :
    content mb'.buf (slotEntry mb.buf j)=content mb.buf (slotEntry mb.buf j) := by
  obtain ⟨hi,-,rfl⟩ := delete_inv h
  have hw := hv.entry_within (slot_mem hj)
  have hap := hv.slot_apart hj hi hji
  unfold Within at hw
  unfold Apart at hap
  simp only [extent_offset,extent_size] at hw hap
  exact region_data_delete hi (hv.slot_le_omin.trans hw.1) hap

theorem contents_delete : contents mb'=(contents mb).eraseIdx i := by
  have hi := (delete_inv h).1
  unfold contents
  rw [entries_delete hv h]
  apply List.ext_getElem
  · simp [List.length_eraseIdx,hi]
  · intro j h1 h2
    simp only [List.length_map,List.length_eraseIdx,length_entries,hi,if_true] at h1
    rw [List.getElem_map,List.getElem_eraseIdx,List.getElem_eraseIdx]
    split
    · simp only [List.getElem_map,getElem_entries]
      exact content_delete hv h (by omega) (by omega)
    · simp only [List.getElem_map,getElem_entries]
      exact content_delete hv h (by omega) (by omega)

theorem names_delete : names mb'=(names mb).eraseIdx i := by
  unfold names
  rw [contents_delete hv h,List.eraseIdx_map]

/-- A range apart from every entry but the deleted one is free once it is gone. -/
theorem free_delete {o n : Nat} (ho : mb.omin ≤ o) (hn : o+n ≤ mb.maxsize)
    (hap : ∀ j < mb.nindex, j≠i → Apart (o,n) (slotEntry mb.buf j).extent) : Free mb' o n := by
  obtain ⟨hs,-⟩ := delete_shape h
  refine ⟨hs.omin_eq ▸ ho,hs.maxsize ▸ hn,fun me hme => ?_⟩
  rw [entries_delete hv h,List.mem_eraseIdx_iff_getElem] at hme
  obtain ⟨j,hj,hji,rfl⟩ := hme
  simp only [length_entries] at hj
  rw [getElem_entries]
  exact hap j hj hji

/-- `delete` keeps the block valid. -/
theorem valid_delete : Valid mb' := by
  obtain ⟨hi,-,hmb⟩ := delete_inv h
  have hent := entries_delete hv h
  have hsum := List.add_sum_eraseIdx (l := (entries mb).map fun me => me.size.toNat) (i := i) (by simpa using hi)
    (fun _ _ => AddCommute.all _ _)
  rw [List.eraseIdx_map] at hsum
  simp only [List.getElem_map,getElem_entries] at hsum
  have hwi := hv.entry_within (slot_mem hi)
  have hfree := hv.free_eq
  unfold Within at hwi
  simp only [extent_offset,extent_size] at hwi
  -- the entries left lie below the new end: when the deleted entry was last, they end before it
  have hbelow : ∀ j < mb.nindex, j≠i → (slotEntry mb.buf j).offset+(slotEntry mb.buf j).size.toNat ≤ mb'.size := by
    intro j hj hji
    have hwj := hv.entry_within (slot_mem hj)
    have h8 := hv.entry_size (slot_mem hj)
    have hap := hv.slot_apart hj hi hji
    unfold Within at hwj
    unfold Apart at hap
    simp only [extent_offset,extent_size] at hwj hap
    rw [hmb]
    dsimp only
    split <;> omega
  refine ⟨?_,?_,?_,?_,?_,?_,?_⟩
  · rw [hmb]
    exact hv.maxsize_lt
  · rw [hmb]
    have := hv.nindex_le
    dsimp only
    omega
  · rw [hmb]
    have := hv.size_le
    dsimp only
    split <;> omega
  · rw [hent]
    intro me hme
    rw [List.mem_eraseIdx_iff_getElem] at hme
    obtain ⟨j,hj,hji,rfl⟩ := hme
    simp only [length_entries] at hj
    rw [getElem_entries]
    obtain ⟨h8,hw,hm⟩ := hv.entry_ok _ (slot_mem hj)
    refine ⟨h8,⟨?_,hbelow j hj hji⟩,?_⟩
    · rw [hmb]
      exact hw.1
    · rw [← hm]
      exact get32_of_content (by omega) rfl (content_delete hv h hj hji)
  · rw [hent]
    exact hv.apart.sublist (List.eraseIdx_sublist _ _)
  · rw [hent]
    rw [hmb]
    dsimp only
    simp only [MetaBlock.omin] at hfree ⊢
    split <;> omega
  · intro hb
    rw [names_delete hv h,← List.eraseIdx_map]
    exact (hv.sorted (by rw [hmb] at hb; exact hb)).sublist (List.eraseIdx_sublist _ _)

end Delete

/-! ## Insert -/

/-- What `insert` does when it opens a slot. -/
theorem insert_inv {mb mb' : MetaBlock} {i : Nat} {me : MetaEntry} (h : insert mb i me=some mb') :
    mb.nindex < mb.maxindex ∧ i ≤ mb.nindex ∧
    mb'={ mb with
      buf := put16 (put16 (move mb.buf (slot i+MetaIndexSize) (slot i) ((mb.nindex-i)*MetaIndexSize)) (slot i)
        me.offset.toUInt16) (slot i+2) me.size
      size := if mb.size < me.offset+me.size.toNat then me.offset+me.size.toNat else mb.size
      free := if mb.size < me.offset+me.size.toNat then mb.free+me.offset-mb.size else mb.free-me.size.toNat
      nindex := mb.nindex+1 } := by
  unfold insert at h
  by_cases h1 : mb.maxindex ≤ mb.nindex
  · rw [if_pos h1] at h
    cases h
  rw [if_neg h1] at h
  by_cases h2 : mb.nindex < i
  · rw [if_pos h2] at h
    cases h
  rw [if_neg h2] at h
  exact ⟨by omega,by omega,(Option.some_inj.mp h).symm⟩

theorem insert_isSome {mb : MetaBlock} {i : Nat} (me : MetaEntry) (hn : mb.nindex < mb.maxindex)
    (hi : i ≤ mb.nindex) : ∃ mb', insert mb i me=some mb' := by
  unfold insert
  rw [if_neg (by omega),if_neg (by omega)]
  exact ⟨_,rfl⟩

section Insert

variable {buf : Buf} {i nindex : Nat} {v w : UInt16}

/-- Opening slot `i` of `nindex`: the slots below `i` stay, the later ones move up. -/
theorem region_slot_insert {j : Nat} (hj : j ≤ nindex) (hji : j≠i) :
    region (put16 (put16 (move buf (slot i+MetaIndexSize) (slot i) ((nindex-i)*MetaIndexSize)) (slot i) v)
      (slot i+2) w) (slot j) 4=region buf (slot (if j < i then j else j-1)) 4 := by
  unfold put16
  unfold slot MetaHeaderSize MetaIndexSize at *
  rw [region_write_disjoint (by simp only [be16_length]; omega),region_write_disjoint (by simp only [be16_length]; omega)]
  by_cases hlt : j < i
  · rw [if_pos hlt,region_move_disjoint (Or.inl (by omega))]
  · rw [if_neg hlt,region_move_inside (by omega) (by omega)]
    congr 1
    omega

theorem slotEntry_insert_self (hv : v.toNat=o) :
    slotEntry (put16 (put16 (move buf (slot i+MetaIndexSize) (slot i) ((nindex-i)*MetaIndexSize)) (slot i) v)
      (slot i+2) w) i=⟨o,w⟩ := by
  unfold slotEntry
  rw [get16_put16_of_apart (Or.inl le_rfl),get16_put16,get16_put16,hv]

/-- Opening a slot leaves every byte past the new table. -/
theorem region_data_insert {o m : Nat} (hi : i ≤ nindex) (ho : slot nindex+MetaIndexSize ≤ o) :
    region (put16 (put16 (move buf (slot i+MetaIndexSize) (slot i) ((nindex-i)*MetaIndexSize)) (slot i) v)
      (slot i+2) w) o m=region buf o m := by
  unfold put16
  unfold slot MetaHeaderSize MetaIndexSize at *
  rw [region_write_disjoint (by simp only [be16_length]; omega),region_write_disjoint (by simp only [be16_length]; omega),
    region_move_disjoint (Or.inr (by omega))]

end Insert

theorem insert_shape {mb mb' : MetaBlock} {i : Nat} {me : MetaEntry} (h : insert mb i me=some mb') :
    Shape mb mb' ∧ mb'.nindex=mb.nindex+1 := by
  obtain ⟨-,-,rfl⟩ := insert_inv h
  exact ⟨⟨rfl,rfl,rfl⟩,rfl⟩

section Insert

variable {mb mb' : MetaBlock} {i : Nat} {me : MetaEntry} (hv : Valid mb) (h : insert mb i me=some mb')
include hv h

omit hv in
/-- The bytes past the table stay as they were. -/
theorem region_insert {o m : Nat} (ho : mb.omin ≤ o) : region mb'.buf o m=region mb.buf o m := by
  obtain ⟨hn,hi,rfl⟩ := insert_inv h
  exact region_data_insert hi ((slot_add_le_omin hn).trans ho)

omit hv in
theorem entries_insert (hoff : me.offset < 2^16) : entries mb'=(entries mb).insertIdx i me := by
  obtain ⟨hn,hi,rfl⟩ := insert_inv h
  apply List.ext_getElem
  · simp [List.length_insertIdx,hi]
  · intro j h1 h2
    simp only [length_entries] at h1
    rw [List.getElem_insertIdx,getElem_entries]
    by_cases hji : j < i
    · rw [dif_pos hji,getElem_entries]
      have hs := @region_slot_insert mb.buf i mb.nindex me.offset.toUInt16 me.size j (by omega) (by omega)
      rw [if_pos hji] at hs
      exact slotEntry_of_region hs
    · rw [dif_neg hji]
      by_cases hje : j=i
      · rw [dif_pos hje]
        subst hje
        have hoff' : me.offset < 65536 := hoff
        exact slotEntry_insert_self (by simp [Nat.mod_eq_of_lt hoff'])
      · rw [dif_neg hje,getElem_entries]
        have hs := @region_slot_insert mb.buf i mb.nindex me.offset.toUInt16 me.size j (by omega) hje
        rw [if_neg hji] at hs
        exact slotEntry_of_region hs

theorem contents_insert (hoff : me.offset < 2^16) (hme : mb.omin ≤ me.offset) :
    contents mb'=(contents mb).insertIdx i (content mb.buf me) := by
  unfold contents
  rw [entries_insert h hoff,List.map_insertIdx]
  have hc : ∀ e : MetaEntry, mb.omin ≤ e.offset → content mb'.buf e=content mb.buf e :=
    fun e he => region_insert h he
  rw [hc me hme]
  congr 1
  apply List.map_congr_left
  intro e he
  exact hc e (hv.entry_within he).1

/-- `insert` keeps the block valid when the entry lies in a free range, starts with `DirMagic`
and, in a block that is not old, has a name between its neighbours'. -/
theorem valid_insert (hf : Free mb me.offset me.size.toNat) (h8 : 8 ≤ me.size.toNat)
    (hm : get32 mb.buf me.offset=DirMagic)
    (hord : mb.botch=false → (∀ j < i, key (nameAt mb j) < key (nameOf (content mb.buf me))) ∧
      ∀ j, i ≤ j → j < mb.nindex → key (nameOf (content mb.buf me)) < key (nameAt mb j)) : Valid mb' := by
  obtain ⟨hn,hi,hmb⟩ := insert_inv h
  have hoff : me.offset < 2^16 := by
    have := hv.maxsize_lt
    unfold Free at hf
    omega
  have hent := entries_insert h hoff
  have hfree := hv.free_eq
  have hsum : ((entries mb').map fun me => me.size.toNat).sum=me.size.toNat+((entries mb).map fun me => me.size.toNat).sum := by
    rw [hent,List.map_insertIdx,List.sum_insertIdx (by simp; omega) (fun _ _ => AddCommute.all _ _)]
  obtain ⟨hfo,hfm,hfa⟩ := hf
  refine ⟨?_,?_,?_,?_,?_,?_,?_⟩
  · rw [hmb]
    exact hv.maxsize_lt
  · rw [hmb]
    dsimp only
    omega
  · rw [hmb]
    have := hv.size_le
    dsimp only
    split <;> omega
  · rw [hent]
    intro e he
    rw [List.mem_insertIdx (by simp; omega)] at he
    have hsize : mb.size ≤ mb'.size := by
      rw [hmb]
      dsimp only
      split <;> omega
    rcases he with rfl | he
    · refine ⟨h8,⟨?_,?_⟩,?_⟩
      · rw [hmb]
        exact hfo
      · rw [hmb]
        dsimp only
        simp only [extent_offset,extent_size]
        split <;> omega
      · rw [← hm]
        apply get32_of_region
        exact region_insert h hfo
    · obtain ⟨h8',⟨hw1,hw2⟩,hm'⟩ := hv.entry_ok e he
      refine ⟨h8',⟨?_,by omega⟩,?_⟩
      · rw [hmb]
        exact hw1
      · rw [← hm']
        apply get32_of_region
        exact region_insert h hw1
  · rw [hent]
    apply Sorted.pairwise_insertIdx hv.apart (by simp; omega)
    · intro j hj
      exact (hfa _ (List.getElem_mem _)).symm
    · intro j hj _
      exact hfa _ (List.getElem_mem _)
  · rw [hsum,hmb]
    dsimp only
    simp only [MetaBlock.omin] at hfree ⊢
    by_cases hend : mb.size < me.offset+me.size.toNat
    · rw [if_pos hend,if_pos hend]
      have hle := @Valid.sum_le_of_within mb hv me.offset (fun e he => by
        have hw := hv.entry_within he
        have h8' := hv.entry_size he
        have hap := hfa e he
        unfold Within Apart at *
        simp only [extent_offset,extent_size] at *
        omega)
      simp only [MetaBlock.omin] at hle hfo
      omega
    · rw [if_neg hend,if_neg hend]
      have hle := @Extent.sum_le_of_within (me.extent::(entries mb).map MetaEntry.extent) mb.omin mb.size
        (List.pairwise_cons.mpr ⟨fun e he => by
          obtain ⟨e',he',rfl⟩ := List.mem_map.mp he
          exact hfa e' he',hv.extents_apart⟩)
        (fun e he => by
          rcases List.mem_cons.mp he with rfl | he
          · unfold Within
            simp only [extent_offset,extent_size]
            omega
          · obtain ⟨e',he',rfl⟩ := List.mem_map.mp he
            exact hv.entry_within he')
      simp only [List.map_cons,List.sum_cons,List.map_map,extent_size,MetaBlock.omin] at hle
      simp only [Function.comp_def,extent_size] at hle
      omega
  · intro hb
    have hb' : mb.botch=false := by
      rw [hmb] at hb
      exact hb
    obtain ⟨hlo,hhi⟩ := hord hb'
    have hnames : names mb'=(names mb).insertIdx i (nameOf (content mb.buf me)) := by
      unfold names
      rw [contents_insert hv h hoff hfo,List.map_insertIdx]
    rw [hnames,List.map_insertIdx]
    apply Sorted.pairwise_insertIdx (hv.sorted hb') (by simp; omega)
    · intro j hj
      simpa using hlo j hj
    · intro j hj hij
      simp only [List.length_map,length_names] at hj
      simpa using hhi j hij hj

end Insert

end Fossil.Vac
