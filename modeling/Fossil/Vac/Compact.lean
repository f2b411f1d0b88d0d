import Fossil.Vac.Layout

/-!
# Chunks and compaction

`metaChunks` lists the slots in use as chunks (offset, size, slot) sorted by offset, and
`compact` walks them in that order, moving each entry down to the bytes the earlier ones take
and pointing its slot there. In a valid block the sorted chunks are ordered (each ends before
the next starts), so every move copies an entry onto bytes no later entry uses: the block stays
valid, every slot keeps its entry's bytes, and the entries end up packed from `omin`.
-/

namespace Fossil.Vac

open Bytes Extent

/-- The range a chunk takes. -/
def MetaChunk.extent (c : MetaChunk) : Nat × Nat :=
  (c.offset.toNat,c.size.toNat)

/-- The chunk of slot `i`. -/
def chunkAt (buf : Buf) (i : Nat) : MetaChunk :=
  ⟨get16 buf (slot i),get16 buf (slot i+2),i.toUInt16⟩

theorem chunks_eq (mb : MetaBlock) : chunks mb=(List.range mb.nindex).map (chunkAt mb.buf) := rfl

/-- `sort` orders chunks by offset, as `sort.Sort` does on `metaChunks`. -/
def SortsByOffset (sort : List MetaChunk → List MetaChunk) : Prop :=
  ∀ l, (sort l).Perm l ∧ (sort l).Pairwise fun a b => a.offset.toNat ≤ b.offset.toNat

/-- Chunks sorted by offset with a merge sort. -/
def offsetSort (l : List MetaChunk) : List MetaChunk :=
  l.mergeSort fun a b => decide (a.offset.toNat ≤ b.offset.toNat)

theorem offsetSort_sorts : SortsByOffset offsetSort := by
  intro l
  refine ⟨List.mergeSort_perm _ _,?_⟩
  have h := @List.pairwise_mergeSort MetaChunk (fun a b => decide (a.offset.toNat ≤ b.offset.toNat))
    (fun a b c hab hbc => by simp only [decide_eq_true_eq] at *; omega)
    (fun a b => by simp only [Bool.or_eq_true,decide_eq_true_eq]; omega) l
  simpa [offsetSort] using h

/-- Each chunk ends where or before the next one starts. -/
def Ordered (l : List MetaChunk) : Prop :=
  l.Pairwise fun a b => a.offset.toNat+a.size.toNat ≤ b.offset.toNat

/-- Slots of different positions do not share a byte. -/
theorem slot_apart {a b : Nat} (h : a≠b) : slot a+MetaIndexSize ≤ slot b ∨ slot b+MetaIndexSize ≤ slot a := by
  unfold slot MetaHeaderSize MetaIndexSize
  omega

/-! ## The chunks of a valid block -/

section Chunks

variable {sort : List MetaChunk → List MetaChunk} (hs : SortsByOffset sort) {mb : MetaBlock} (hv : Valid mb)
include hs hv

omit hv in
theorem mem_sort_chunks {c : MetaChunk} : c ∈ sort (chunks mb) ↔ ∃ i < mb.nindex, chunkAt mb.buf i=c := by
  rw [(hs (chunks mb)).1.mem_iff,chunks_eq]
  simp

/-- A chunk of a valid block names a slot in use, which names it back. -/
theorem chunk_spec {c : MetaChunk} (hc : c ∈ sort (chunks mb)) :
    c.index.toNat < mb.nindex ∧ slotEntry mb.buf c.index.toNat=⟨c.offset.toNat,c.size⟩ ∧
      c.extent=(slotEntry mb.buf c.index.toNat).extent := by
  obtain ⟨i,hi,rfl⟩ := (mem_sort_chunks hs).mp hc
  have hi' : i < 65536 := by
    have := hv.nindex_lt
    omega
  have hidx : (chunkAt mb.buf i).index.toNat=i := by
    simp [chunkAt,Nat.mod_eq_of_lt hi']
  rw [hidx]
  exact ⟨hi,rfl,rfl⟩

theorem chunk_ok {c : MetaChunk} (hc : c ∈ sort (chunks mb)) :
    8 ≤ c.size.toNat ∧ Within mb.omin mb.size c.extent ∧ slot c.index.toNat+MetaIndexSize ≤ mb.omin := by
  obtain ⟨hi,hent,hext⟩ := chunk_spec hs hv hc
  have hmem := slot_mem hi
  refine ⟨?_,?_,(slot_add_le_omin (lt_of_lt_of_le hi hv.nindex_le))⟩
  · have := hv.entry_size hmem
    rw [hent] at this
    exact this
  · rw [hext]
    exact hv.entry_within hmem

/-- The sorted chunks of a valid block are ordered. -/
theorem ordered_sort_chunks : Ordered (sort (chunks mb)) := by
  have happ : (chunks mb).Pairwise fun a b => Apart a.extent b.extent := by
    have h := hv.extents_apart
    rw [chunks_eq,List.pairwise_map]
    rw [entries,List.map_map,List.pairwise_map] at h
    exact h
  have happ' := ((hs (chunks mb)).1.pairwise_iff (fun h => Apart.symm h)).mpr happ
  apply ((hs (chunks mb)).2.and happ').imp_of_mem
  intro a b _ hb hab
  obtain ⟨hle,hap⟩ := hab
  have h8 := (chunk_ok hs hv hb).1
  unfold Apart MetaChunk.extent at hap
  dsimp only at hap
  omega

theorem distinct_sort_chunks : (sort (chunks mb)).Pairwise fun a b => a.index≠b.index := by
  have hd : (chunks mb).Pairwise fun a b => a.index≠b.index := by
    rw [chunks_eq,List.pairwise_map]
    apply List.pairwise_lt_range.imp_of_mem
    intro a b ha hb hab
    rw [List.mem_range] at ha hb
    have h16 : ∀ i, i < mb.nindex → (chunkAt mb.buf i).index.toNat=i := fun i hi => by
      have hi' : i < 65536 := by
        have := hv.nindex_lt
        omega
      simp [chunkAt,Nat.mod_eq_of_lt hi']
    intro heq
    have := congrArg UInt16.toNat heq
    rw [h16 a ha,h16 b hb] at this
    omega
  exact ((hs (chunks mb)).1.pairwise_iff (fun h => Ne.symm h)).mpr hd

omit hv in
theorem sum_sort_chunks :
    ((sort (chunks mb)).map fun c => c.size.toNat).sum=((entries mb).map fun me => me.size.toNat).sum := by
  rw [((hs (chunks mb)).1.map _).sum_eq,chunks_eq,entries,List.map_map,List.map_map]
  rfl

end Chunks

/-! ## The compaction loop -/

/-- One step of the loop: move the chunk down to `oo` and point its slot there. -/
def moveChunk (buf : Buf) (c : MetaChunk) (oo : Nat) : Buf :=
  if c.offset.toNat≠oo then put16 (move buf oo c.offset.toNat c.size.toNat) (slot c.index.toNat) oo.toUInt16
  else buf

theorem compactLoop_cons (c : MetaChunk) (cs : List MetaChunk) (oo : Nat) (buf : Buf) :
    compactLoop (c::cs) oo buf=compactLoop cs (oo+c.size.toNat) (moveChunk buf c oo) := rfl

/-- Offset `k` lies in the slot of a chunk of `l`. -/
def InSlots (l : List MetaChunk) (k : Nat) : Prop :=
  ∃ c ∈ l, slot c.index.toNat ≤ k ∧ k < slot c.index.toNat+MetaIndexSize

/-- The loop's precondition: the chunks are ordered and start at or after `oo`, their slots are
distinct and lie below `oo`, and each slot names its chunk. -/
structure Compactable (l : List MetaChunk) (oo : Nat) (buf : Buf) : Prop where
  ordered : Ordered l
  after : ∀ c ∈ l, oo ≤ c.offset.toNat
  distinct : l.Pairwise fun a b => a.index≠b.index
  slots_below : ∀ c ∈ l, slot c.index.toNat+MetaIndexSize ≤ oo
  named : ∀ c ∈ l, slotEntry buf c.index.toNat=⟨c.offset.toNat,c.size⟩

/-- What the loop over `l` from `oo` leaves: every chunk's slot names its bytes, moved to within
`[oo, oo')` in the order of `l`, and nothing else below `oo` changed. -/
structure Compacted (l : List MetaChunk) (oo : Nat) (buf buf' : Buf) (oo' : Nat) : Prop where
  stop : oo'=oo+(l.map fun c => c.size.toNat).sum
  moved : ∀ c ∈ l, (slotEntry buf' c.index.toNat).size=c.size ∧ oo ≤ (slotEntry buf' c.index.toNat).offset ∧
    (slotEntry buf' c.index.toNat).offset+c.size.toNat ≤ oo' ∧
    content buf' (slotEntry buf' c.index.toNat)=region buf c.offset.toNat c.size.toNat
  packed : l.Pairwise fun a b =>
    (slotEntry buf' a.index.toNat).offset+a.size.toNat ≤ (slotEntry buf' b.index.toNat).offset
  frame : ∀ k, k < oo → ¬InSlots l k → buf' k=buf k

section Step

variable {c : MetaChunk} {oo : Nat} {buf : Buf}

/-- A step writes only the chunk's new bytes and its slot. -/
theorem moveChunk_frame {k : Nat} (hk : k < oo ∨ oo+c.size.toNat ≤ k)
    (hs : k < slot c.index.toNat ∨ slot c.index.toNat+MetaIndexSize ≤ k) : moveChunk buf c oo k=buf k := by
  unfold moveChunk
  split
  · unfold put16
    unfold MetaIndexSize at hs
    rw [write_of_not_mem (by simp only [be16_length]; omega),move_of_not_mem (by omega)]
  · rfl

/-- After the step the chunk's slot names `oo`. -/
theorem slotEntry_moveChunk (hoo : oo ≤ c.offset.toNat) (hsl : slot c.index.toNat+MetaIndexSize ≤ oo)
    (hent : slotEntry buf c.index.toNat=⟨c.offset.toNat,c.size⟩) :
    slotEntry (moveChunk buf c oo) c.index.toNat=⟨oo,c.size⟩ := by
  unfold moveChunk
  split
  · have hlt : oo < 65536 := lt_of_le_of_lt hoo c.offset.toNat_lt
    have hsize : get16 buf (slot c.index.toNat+2)=c.size := by
      have := congrArg MetaEntry.size hent
      exact this
    unfold slotEntry
    rw [get16_put16,get16_put16_of_apart (Or.inr le_rfl)]
    congr 1
    · simp [Nat.mod_eq_of_lt hlt]
    · rw [← hsize]
      apply get16_congr <;> exact move_of_not_mem (Or.inl (by unfold MetaIndexSize at hsl; omega))
  · rename_i h
    rw [not_not] at h
    rw [hent,h]

/-- After the step the chunk's bytes stand at `oo`. -/
theorem region_moveChunk (hsl : slot c.index.toNat+MetaIndexSize ≤ oo) :
    region (moveChunk buf c oo) oo c.size.toNat=region buf c.offset.toNat c.size.toNat := by
  unfold moveChunk
  split
  · unfold put16
    rw [region_write_disjoint (by simp only [be16_length]; unfold MetaIndexSize at hsl; omega),region_move_same]
  · rename_i h
    rw [not_not] at h
    rw [h]

end Step

/-- The compaction loop, chunk by chunk. -/
theorem compactLoop_spec {l : List MetaChunk} {oo : Nat} {buf : Buf} (h : Compactable l oo buf) :
    Compacted l oo buf (compactLoop l oo buf).1 (compactLoop l oo buf).2 := by
  induction l generalizing oo buf with
  | nil =>
    exact ⟨by simp [compactLoop],by simp,List.Pairwise.nil,fun _ _ _ => rfl⟩
  | cons c cs ih =>
    have hord := List.pairwise_cons.mp h.ordered
    have hdist := List.pairwise_cons.mp h.distinct
    have hoo := h.after c List.mem_cons_self
    have hsl := h.slots_below c List.mem_cons_self
    have hslot_ne : ∀ d ∈ cs, ∀ k, slot d.index.toNat ≤ k → k < slot d.index.toNat+MetaIndexSize →
        k < slot c.index.toNat ∨ slot c.index.toNat+MetaIndexSize ≤ k := by
      intro d hd k hk1 hk2
      have hne : c.index.toNat≠d.index.toNat := fun he => hdist.1 d hd (UInt16.toNat_inj.mp he)
      rcases slot_apart hne with h1 | h1 <;> omega
    have htail : Compactable cs (oo+c.size.toNat) (moveChunk buf c oo) := {
      ordered := hord.2
      after := fun d hd => by
        have := hord.1 d hd
        omega
      distinct := hdist.2
      slots_below := fun d hd => by
        have := h.slots_below d (List.mem_cons_of_mem c hd)
        omega
      named := fun d hd => by
        rw [← h.named d (List.mem_cons_of_mem c hd)]
        apply slotEntry_of_region
        apply region_congr
        intro k hk1 hk2
        have := h.slots_below d (List.mem_cons_of_mem c hd)
        exact moveChunk_frame (Or.inl (by unfold MetaIndexSize at *; omega))
          (hslot_ne d hd k hk1 (by unfold MetaIndexSize at *; omega)) }
    obtain ⟨hstop,hmoved,hpacked,hframe⟩ := ih htail
    rw [compactLoop_cons]
    -- bytes below the tail's start that no later slot holds stay as the step left them
    have hkeep : ∀ k, k < oo+c.size.toNat → ¬InSlots cs k →
        (compactLoop cs (oo+c.size.toNat) (moveChunk buf c oo)).1 k=moveChunk buf c oo k := hframe
    have hnotin : ∀ k, oo ≤ k → ¬InSlots cs k := by
      rintro k hk ⟨d,hd,hk1,hk2⟩
      have := h.slots_below d (List.mem_cons_of_mem c hd)
      omega
    have hcslot : ∀ k, slot c.index.toNat ≤ k → k < slot c.index.toNat+MetaIndexSize → ¬InSlots cs k := by
      rintro k hk1 hk2 ⟨d,hd,hd1,hd2⟩
      rcases hslot_ne d hd k hd1 hd2 with h1 | h1 <;> omega
    have hc_entry : slotEntry (compactLoop cs (oo+c.size.toNat) (moveChunk buf c oo)).1 c.index.toNat=⟨oo,c.size⟩ := by
      rw [← slotEntry_moveChunk hoo hsl (h.named c List.mem_cons_self)]
      apply slotEntry_of_region
      apply region_congr
      intro k hk1 hk2
      exact hkeep k (by unfold MetaIndexSize at *; omega) (hcslot k hk1 (by unfold MetaIndexSize at *; omega))
    refine ⟨?_,?_,?_,?_⟩
    · rw [hstop,List.map_cons,List.sum_cons]
      omega
    · intro d hd
      rcases List.mem_cons.mp hd with rfl | hd
      · rw [hc_entry]
        refine ⟨rfl,le_rfl,?_,?_⟩
        · rw [hstop]
          simp only
          omega
        · rw [← region_moveChunk hsl]
          apply region_congr
          intro k hk1 _
          exact hkeep k (by simp only [content] at *; omega) (hnotin k hk1)
      · obtain ⟨h1,h2,h3,h4⟩ := hmoved d hd
        refine ⟨h1,by omega,h3,?_⟩
        rw [h4]
        apply region_congr
        intro k hk1 hk2
        have := hord.1 d hd
        exact moveChunk_frame (Or.inr (by omega)) (Or.inr (by omega))
    · refine List.pairwise_cons.mpr ⟨fun d hd => ?_,hpacked⟩
      rw [hc_entry]
      exact (hmoved d hd).2.1
    · intro k hk hin
      rw [hkeep k (by omega) (fun hk' => hin (by
        obtain ⟨d,hd,hd1,hd2⟩ := hk'
        exact ⟨d,List.mem_cons_of_mem c hd,hd1,hd2⟩))]
      apply moveChunk_frame (Or.inl hk)
      by_contra hcon
      exact hin ⟨c,List.mem_cons_self,by omega,by omega⟩

/-! ## Compacting a block -/

section Compact

variable {sort : List MetaChunk → List MetaChunk} (hs : SortsByOffset sort) {mb : MetaBlock} (hv : Valid mb)
include hs hv

/-- Every slot in use has its chunk among the sorted ones. -/
theorem chunkAt_mem {j : Nat} (hj : j < mb.nindex) :
    chunkAt mb.buf j ∈ sort (chunks mb) ∧ (chunkAt mb.buf j).index.toNat=j := by
  have hj' : j < 65536 := by
    have := hv.nindex_lt
    omega
  exact ⟨(mem_sort_chunks hs).mpr ⟨j,hj,rfl⟩,by simp [chunkAt,Nat.mod_eq_of_lt hj']⟩

theorem compactable_sort_chunks : Compactable (sort (chunks mb)) mb.omin mb.buf where
  ordered := ordered_sort_chunks hs hv
  after := fun _ hc => (chunk_ok hs hv hc).2.1.1
  distinct := distinct_sort_chunks hs hv
  slots_below := fun _ hc => (chunk_ok hs hv hc).2.2
  named := fun _ hc => (chunk_spec hs hv hc).2.1

/-- What compaction leaves in each slot in use: the same size, a place within `[omin, size')`,
the same bytes. -/
theorem slot_compact {j : Nat} (hj : j < mb.nindex) :
    (slotEntry (compact mb (sort (chunks mb))).buf j).size=(slotEntry mb.buf j).size ∧
    mb.omin ≤ (slotEntry (compact mb (sort (chunks mb))).buf j).offset ∧
    (slotEntry (compact mb (sort (chunks mb))).buf j).offset+(slotEntry mb.buf j).size.toNat ≤
      (compact mb (sort (chunks mb))).size ∧
    content (compact mb (sort (chunks mb))).buf (slotEntry (compact mb (sort (chunks mb))).buf j)=
      content mb.buf (slotEntry mb.buf j) := by
  obtain ⟨hmem,hidx⟩ := chunkAt_mem hs hv hj
  have h := (compactLoop_spec (compactable_sort_chunks hs hv)).moved _ hmem
  rw [hidx] at h
  exact h

theorem compact_size :
    (compact mb (sort (chunks mb))).size=mb.omin+((entries mb).map fun me => me.size.toNat).sum := by
  rw [← sum_sort_chunks hs]
  exact (compactLoop_spec (compactable_sort_chunks hs hv)).stop

theorem contents_compact : contents (compact mb (sort (chunks mb)))=contents mb := by
  apply List.ext_getElem
  · simp [compact]
  · intro j h1 h2
    simp only [length_contents,compact] at h1
    simp only [contents,List.getElem_map,getElem_entries]
    exact (slot_compact hs hv h1).2.2.2

/-- Compaction keeps the block valid, with the entries packed from `omin`. -/
theorem valid_compact : Valid (compact mb (sort (chunks mb))) := by
  have hsize := compact_size hs hv
  have hsum := hv.sum_le
  refine ⟨hv.maxsize_lt,hv.nindex_le,?_,?_,?_,?_,?_⟩
  · have := hv.size_le
    show _ ≤ mb.maxsize
    omega
  · intro me hme
    obtain ⟨j,hj,rfl⟩ := mem_entries.mp hme
    obtain ⟨hsz,hlo,hhi,hc⟩ := slot_compact hs hv hj
    obtain ⟨h8,-,hm⟩ := hv.entry_ok _ (slot_mem hj)
    refine ⟨by rw [hsz]; exact h8,⟨hlo,by simp only [extent_offset,extent_size,hsz]; exact hhi⟩,?_⟩
    rw [← hm]
    exact get32_of_content (by omega) hsz hc
  · unfold entries
    rw [List.pairwise_map]
    apply List.pairwise_lt_range.imp_of_mem
    intro a b ha hb hab
    rw [List.mem_range] at ha hb
    obtain ⟨hma,hia⟩ := chunkAt_mem hs hv ha
    obtain ⟨hmb,hib⟩ := chunkAt_mem hs hv hb
    have hne : chunkAt mb.buf a≠chunkAt mb.buf b := fun he => by
      have := congrArg (fun c => c.index.toNat) he
      simp only [hia,hib] at this
      omega
    have hpk := Sorted.rel_or_rel_of_pairwise (compactLoop_spec (compactable_sort_chunks hs hv)).packed hma hmb hne
    rw [hia,hib] at hpk
    have hsa := (slot_compact hs hv ha).1
    have hsb := (slot_compact hs hv hb).1
    unfold Apart
    simp only [extent_offset,extent_size,hsa,hsb]
    exact hpk.imp id id
  · have hsizes : ((entries (compact mb (sort (chunks mb)))).map fun me => me.size.toNat)=
        (entries mb).map fun me => me.size.toNat := by
      apply List.ext_getElem
      · simp [compact]
      · intro j h1 h2
        simp only [List.length_map,length_entries,compact] at h1
        simp only [List.getElem_map,getElem_entries]
        rw [(slot_compact hs hv h1).1]
    rw [hsizes,hsize]
    simp [compact,MetaBlock.omin]
  · intro hb
    unfold names
    rw [contents_compact hs hv]
    exact hv.sorted hb

end Compact

end Fossil.Vac
