import Fossil.Vac.Compact

/-!
# Allocating and resizing entries

`alloc` finds `n` bytes for an entry: past the end of the used bytes, in a hole between the
sorted chunks, past the last chunk, or past the end after compacting. Whatever it answers is a
free range of the block it returns, and that block is the old one or its compaction: valid, with
the same entries' bytes in the same order. `resize` grows an entry in place only over zero bytes,
which no entry can start with since every entry starts with `DirMagic`; so its answer meets no
other entry either.
-/

namespace Fossil.Vac

open Bytes Extent

/-- A range past the table and past every entry is free. -/
theorem free_of_end {mb : MetaBlock} {o n : Nat} (ho : mb.omin ≤ o) (hn : o+n ≤ mb.maxsize)
    (hend : ∀ me ∈ entries mb, me.offset+me.size.toNat ≤ o) : Free mb o n :=
  ⟨ho,hn,fun me hme => Or.inr (hend me hme)⟩

/-- The entries of a valid block end within its used bytes. -/
theorem Valid.end_le {mb : MetaBlock} (hv : Valid mb) {me : MetaEntry} (h : me ∈ entries mb) :
    me.offset+me.size.toNat ≤ mb.size :=
  (hv.entry_within h).2

/-- An entry starts with a byte that is not zero: the first byte of `DirMagic`. -/
theorem ne_zero_of_magic {buf : Buf} {o : Nat} (h : get32 buf o=DirMagic) : buf o≠0 := fun h0 => by
  have hlt := get32_lt_of_zero h0
  rw [h] at hlt
  exact absurd hlt (by decide)

theorem toNat_toUInt16 {n : Nat} (h : n < 2^16) : n.toUInt16.toNat=n := by
  have h' : n < 65536 := h
  simp [Nat.mod_eq_of_lt h']

/-! ## Holes between sorted chunks -/

section Hole

variable {l : List MetaChunk} {o n o' : Nat}

/-- A hole the search finds lies between chunks, before one of them. -/
theorem hole_inl (hl : Ordered l) (ho : ∀ c ∈ l, o ≤ c.offset.toNat) (h : hole l o n=.inl o') :
    o ≤ o' ∧ (∃ c ∈ l, o'+n ≤ c.offset.toNat) ∧ ∀ c ∈ l, Apart (o',n) c.extent := by
  induction l generalizing o with
  | nil => simp [hole] at h
  | cons c cs ih =>
    have hord := List.pairwise_cons.mp hl
    unfold hole at h
    split at h
    · rename_i hfit
      obtain rfl := Sum.inl.inj h
      refine ⟨le_rfl,⟨c,List.mem_cons_self,hfit⟩,fun d hd => Or.inl ?_⟩
      rcases List.mem_cons.mp hd with rfl | hd
      · exact hfit
      · have := hord.1 d hd
        unfold MetaChunk.extent
        dsimp only
        omega
    · obtain ⟨h1,⟨d,hd,hd'⟩,h3⟩ := ih hord.2 (fun d hd => hord.1 d hd) h
      have hoc := ho c List.mem_cons_self
      refine ⟨by omega,⟨d,List.mem_cons_of_mem c hd,hd'⟩,fun e he => ?_⟩
      rcases List.mem_cons.mp he with rfl | he
      · exact Or.inr h1
      · exact h3 e he

/-- Past the last chunk the search answers the end of the chunks. -/
theorem hole_inr (hl : Ordered l) (ho : ∀ c ∈ l, o ≤ c.offset.toNat) (h : hole l o n=.inr o') :
    o ≤ o' ∧ (∀ c ∈ l, c.offset.toNat+c.size.toNat ≤ o') ∧
      (o'=o ∨ ∃ c ∈ l, o'=c.offset.toNat+c.size.toNat) := by
  induction l generalizing o with
  | nil =>
    obtain rfl := Sum.inr.inj h
    simp
  | cons c cs ih =>
    have hord := List.pairwise_cons.mp hl
    unfold hole at h
    split at h
    · cases h
    · obtain ⟨h1,h2,h3⟩ := ih hord.2 (fun d hd => hord.1 d hd) h
      have hoc := ho c List.mem_cons_self
      refine ⟨by omega,fun d hd => ?_,?_⟩
      · rcases List.mem_cons.mp hd with rfl | hd
        · exact h1
        · exact h2 d hd
      · rcases h3 with h3 | ⟨d,hd,hd'⟩
        · exact Or.inr ⟨c,List.mem_cons_self,h3⟩
        · exact Or.inr ⟨d,List.mem_cons_of_mem c hd,hd'⟩

end Hole

/-! ## Allocation -/

theorem metaChunks_eq {sort : List MetaChunk → List MetaChunk} {mb : MetaBlock} {mc : List MetaChunk}
    (h : metaChunks sort mb=some mc) : mc=sort (chunks mb) := by
  unfold metaChunks at h
  split at h
  · cases h
  · split_ifs at h
    exact (Option.some_inj.mp h).symm

section Alloc

variable {sort : List MetaChunk → List MetaChunk} (hs : SortsByOffset sort) {mb : MetaBlock} (hv : Valid mb)
include hs hv

/-- Every entry is the range of a sorted chunk. -/
theorem entry_chunk {me : MetaEntry} (h : me ∈ entries mb) : ∃ c ∈ sort (chunks mb), c.extent=me.extent := by
  obtain ⟨j,hj,rfl⟩ := mem_entries.mp h
  exact ⟨chunkAt mb.buf j,(chunkAt_mem hs hv hj).1,rfl⟩

/-- The block `alloc` returns is the old one or its compaction, and what it answers is free
there. -/
theorem alloc_spec {n : Nat} {mb' : MetaBlock} {r : Option Nat} (h : alloc sort mb n=(mb',r)) :
    Valid mb' ∧ Shape mb mb' ∧ mb'.nindex=mb.nindex ∧ contents mb'=contents mb ∧
      ∀ o, r=some o → Free mb' o n := by
  have hsz := hv.size_le
  have hom := hv.omin_le_size
  have hsame : ∀ r', (∀ o, r'=some o → Free mb o n) → (mb,r')=(mb',r) →
      Valid mb' ∧ Shape mb mb' ∧ mb'.nindex=mb.nindex ∧ contents mb'=contents mb ∧
        ∀ o, r=some o → Free mb' o n := by
    rintro r' hr' ⟨⟩
    exact ⟨hv,Shape.refl mb,rfl,rfl,hr'⟩
  have hcomp : ∀ r', (∀ o, r'=some o → Free (compact mb (sort (chunks mb))) o n) →
      (compact mb (sort (chunks mb)),r')=(mb',r) →
      Valid mb' ∧ Shape mb mb' ∧ mb'.nindex=mb.nindex ∧ contents mb'=contents mb ∧
        ∀ o, r=some o → Free mb' o n := by
    rintro r' hr' ⟨⟩
    exact ⟨valid_compact hs hv,⟨rfl,rfl,rfl⟩,rfl,contents_compact hs hv,hr'⟩
  unfold alloc at h
  split_ifs at h with h1 h2
  · refine hsame _ (fun o ho => ?_) h
    cases ho
    exact free_of_end hom (by omega) (fun me hme => hv.end_le hme)
  · exact hsame none (fun _ ho => by cases ho) h
  · split at h
    · exact hsame none (fun _ ho => by cases ho) h
    · rename_i mc hmc
      obtain rfl := metaChunks_eq hmc
      have hord := ordered_sort_chunks hs hv
      have hafter : ∀ c ∈ sort (chunks mb), mb.omin ≤ c.offset.toNat := fun c hc => (chunk_ok hs hv hc).2.1.1
      split at h
      · rename_i o ho
        obtain ⟨h1,⟨c,hc,hc'⟩,h3⟩ := hole_inl hord hafter ho
        refine hsame _ (fun o' ho' => ?_) h
        cases ho'
        have hcw := (chunk_ok hs hv hc).2.1
        unfold Within MetaChunk.extent at hcw
        refine ⟨h1,by dsimp only at hcw; omega,fun me hme => ?_⟩
        obtain ⟨d,hd,hde⟩ := entry_chunk hs hv hme
        rw [← hde]
        exact h3 d hd
      · rename_i o ho
        obtain ⟨h1,h2,h3⟩ := hole_inr hord hafter ho
        have hole_le : o ≤ mb.size := by
          rcases h3 with rfl | ⟨c,hc,rfl⟩
          · exact hom
          · have hcw := (chunk_ok hs hv hc).2.1
            unfold Within MetaChunk.extent at hcw
            exact hcw.2
        split_ifs at h with h4 h5
        · refine hsame _ (fun o' ho' => ?_) h
          cases ho'
          refine free_of_end h1 (by omega) (fun me hme => ?_)
          obtain ⟨d,hd,hde⟩ := entry_chunk hs hv hme
          have := h2 d hd
          have hde1 := congrArg Prod.fst hde
          have hde2 := congrArg Prod.snd hde
          simp only [MetaChunk.extent,extent_offset,extent_size] at hde1 hde2
          omega
        · exact hcomp none (fun _ ho => by cases ho) h
        · refine hcomp _ (fun o' ho' => ?_) h
          cases ho'
          have hv' := valid_compact hs hv
          have hmax' : (compact mb (sort (chunks mb))).maxsize=mb.maxsize := rfl
          exact free_of_end hv'.omin_le_size (by omega) (fun me hme => hv'.end_le hme)

end Alloc

/-! ## Resizing -/

/-- The zero scan stops within its bound, past zero bytes only. -/
theorem scanZero_spec (buf : Buf) (o k : Nat) :
    o ≤ scanZero buf o k ∧ scanZero buf o k ≤ o+k ∧ ∀ p, o ≤ p → p < scanZero buf o k → buf p=0 := by
  induction k generalizing o with
  | zero =>
    refine ⟨le_rfl,by simp [scanZero],fun p h1 h2 => ?_⟩
    simp only [scanZero] at h2
    omega
  | succ k ih =>
    unfold scanZero
    split
    · rename_i hz
      obtain ⟨h1,h2,h3⟩ := ih (o+1)
      refine ⟨by omega,by omega,fun p hp1 hp2 => ?_⟩
      rcases Nat.eq_or_lt_of_le hp1 with rfl | hp1
      · exact hz
      · exact h3 p hp1 hp2
    · exact ⟨le_rfl,by omega,fun p hp1 hp2 => absurd hp2 (by omega)⟩

/-- The bytes entry `me` may take in place: up to the first byte after it that is not zero. -/
def growRoom (mb : MetaBlock) (me : MetaEntry) : Nat :=
  scanZero mb.buf (me.offset+me.size.toNat) (mb.maxsize-(me.offset+me.size.toNat))-me.offset

section Resize

variable {sort : List MetaChunk → List MetaChunk} (hs : SortsByOffset sort) {mb : MetaBlock} (hv : Valid mb)
include hs hv

omit hs in
/-- Growing slot `i`'s entry over the zero bytes after it meets no other entry. -/
theorem apart_of_zeros {i j n : Nat} (hi : i < mb.nindex) (hj : j < mb.nindex) (hji : j≠i)
    (hn : (slotEntry mb.buf i).offset+n ≤ scanZero mb.buf ((slotEntry mb.buf i).offset+(slotEntry mb.buf i).size.toNat)
      (mb.maxsize-((slotEntry mb.buf i).offset+(slotEntry mb.buf i).size.toNat))) :
    Apart ((slotEntry mb.buf i).offset,n) (slotEntry mb.buf j).extent := by
  have hap := hv.slot_apart hj hi hji
  have hm := ne_zero_of_magic (hv.entry_ok _ (slot_mem hj)).2.2
  obtain ⟨-,-,hz⟩ := scanZero_spec mb.buf ((slotEntry mb.buf i).offset+(slotEntry mb.buf i).size.toNat)
    (mb.maxsize-((slotEntry mb.buf i).offset+(slotEntry mb.buf i).size.toNat))
  unfold Apart at hap ⊢
  simp only [extent_offset,extent_size] at hap ⊢
  by_contra hcon
  -- entry `j` would start inside the scanned zero bytes
  exact hm (hz _ (by omega) (by omega))

/-- What `resize` answers for slot `i`: the same entries' bytes in a valid block and, when it
succeeds, a range of the new size that meets no other entry. -/
theorem resize_spec {i n : Nat} (hi : i < mb.nindex) {mb' : MetaBlock} {me' : MetaEntry} {ok : Bool}
    (h : resize sort mb (slotEntry mb.buf i) n=(mb',me',ok)) :
    Valid mb' ∧ Shape mb mb' ∧ mb'.nindex=mb.nindex ∧ contents mb'=contents mb ∧
      (ok=true → me'.size.toNat=n ∧ mb.omin ≤ me'.offset ∧ me'.offset+n ≤ mb.maxsize ∧
        ∀ j < mb.nindex, j≠i → Apart (me'.offset,n) (slotEntry mb'.buf j).extent) := by
  have hw := hv.entry_within (slot_mem hi)
  have hmax := hv.maxsize_lt
  have hsz := hv.size_le
  unfold Within at hw
  simp only [extent_offset,extent_size] at hw
  unfold resize at h
  split_ifs at h with h1 h2
  · simp only [Prod.mk.injEq] at h
    obtain ⟨rfl,rfl,rfl⟩ := h
    dsimp only
    refine ⟨hv,Shape.refl mb,rfl,rfl,fun _ => ⟨toNat_toUInt16 (by omega),hw.1,by omega,fun j hj hji => ?_⟩⟩
    have hap := hv.slot_apart hj hi hji
    unfold Apart at hap ⊢
    simp only [extent_offset,extent_size] at hap ⊢
    omega
  · simp only [Prod.mk.injEq] at h
    obtain ⟨rfl,rfl,rfl⟩ := h
    dsimp only
    obtain ⟨hz1,hz2,-⟩ := scanZero_spec mb.buf ((slotEntry mb.buf i).offset+(slotEntry mb.buf i).size.toNat)
      (mb.maxsize-((slotEntry mb.buf i).offset+(slotEntry mb.buf i).size.toNat))
    refine ⟨hv,Shape.refl mb,rfl,rfl,fun _ => ⟨toNat_toUInt16 (by omega),hw.1,by omega,
      fun j hj hji => apart_of_zeros hv hi hj hji (by omega)⟩⟩
  · split at h
    · rename_i mb₁ o ha
      simp only [Prod.mk.injEq] at h
      obtain ⟨rfl,rfl,rfl⟩ := h
      obtain ⟨hv₁,hs₁,hn₁,hc₁,hf⟩ := alloc_spec hs hv ha
      obtain ⟨hfo,hfn,hfa⟩ := hf o rfl
      rw [hs₁.omin_eq] at hfo
      rw [hs₁.maxsize] at hfn
      refine ⟨hv₁,hs₁,hn₁,hc₁,fun _ => ⟨toNat_toUInt16 (by omega),hfo,hfn,fun j hj _ => ?_⟩⟩
      exact hfa _ (slot_mem (hn₁ ▸ hj))
    · rename_i mb₁ ha
      simp only [Prod.mk.injEq] at h
      obtain ⟨rfl,-,rfl⟩ := h
      obtain ⟨hv₁,hs₁,hn₁,hc₁,-⟩ := alloc_spec hs hv ha
      exact ⟨hv₁,hs₁,hn₁,hc₁,fun hf => by cases hf⟩

end Resize

/-! ## When allocation fails -/

/-- The check loop of `metaChunks` passes over ordered chunks that start at or after some
`p ≥ oo`: it answers the bytes they take from `oo` on, and the last of them. -/
theorem scanChunks_ordered {l : List MetaChunk} (hl : Ordered l) {oo p : Nat} (hp : oo ≤ p)
    (hafter : ∀ c ∈ l, p ≤ c.offset.toNat) (o n : Nat) :
    ∃ o' n', scanChunks l (oo,o,n)=some (oo+(l.map fun c => c.size.toNat).sum,o',n') ∧
      ((o',n')=(o,n) ∨ ∃ c ∈ l, o'=c.offset.toNat ∧ n'=c.size.toNat) := by
  induction l generalizing oo p o n with
  | nil => exact ⟨o,n,by simp [scanChunks],.inl rfl⟩
  | cons c cs ih =>
    have hord := List.pairwise_cons.mp hl
    have hc := hafter c List.mem_cons_self
    -- the later chunks start after `c` ends, and the count has grown by `c`'s size only
    obtain ⟨o',n',hscan,hlast⟩ := ih hord.2 (show oo+c.size.toNat ≤ c.offset.toNat+c.size.toNat by omega)
      (fun d hd => hord.1 d hd) c.offset.toNat c.size.toNat
    refine ⟨o',n',?_,?_⟩
    · rw [scanChunks,if_neg (by omega),hscan]
      simp [Nat.add_assoc]
    · rcases hlast with h | ⟨d,hd,h⟩
      · obtain ⟨rfl,rfl⟩ := Prod.ext_iff.mp h
        exact .inr ⟨c,List.mem_cons_self,rfl,rfl⟩
      · exact .inr ⟨d,List.mem_cons_of_mem c hd,h⟩

/-- What compacting did to a block: the same table, every slot in use naming its entry's bytes at
a place from `omin` on, and the entries filling the used bytes with none free. -/
structure Compaction (mb mb' : MetaBlock) : Prop where
  shape : Shape mb mb'
  nindex : mb'.nindex=mb.nindex
  slots : ∀ j < mb.nindex, (slotEntry mb'.buf j).size=(slotEntry mb.buf j).size ∧
    mb.omin ≤ (slotEntry mb'.buf j).offset ∧ content mb'.buf (slotEntry mb'.buf j)=content mb.buf (slotEntry mb.buf j)
  size_eq : mb'.size=mb.omin+((entries mb).map fun me => me.size.toNat).sum
  free_eq : mb'.free=0

/-- The block `alloc` returns is the old one or its compaction. -/
theorem alloc_fst (sort : List MetaChunk → List MetaChunk) (mb : MetaBlock) (n : Nat) :
    (alloc sort mb n).1=mb ∨ (alloc sort mb n).1=compact mb (sort (chunks mb)) := by
  unfold alloc
  split_ifs
  · exact .inl rfl
  · exact .inl rfl
  · split
    · exact .inl rfl
    · rename_i mc hmc
      obtain rfl := metaChunks_eq hmc
      split
      · exact .inl rfl
      · split_ifs
        · exact .inl rfl
        · exact .inr rfl
        · exact .inr rfl

/-- The block `resize` returns is the old one or the one `alloc` returns. -/
theorem resize_fst (sort : List MetaChunk → List MetaChunk) (mb : MetaBlock) (me : MetaEntry) (n : Nat) :
    (resize sort mb me n).1=mb ∨ (resize sort mb me n).1=(alloc sort mb n).1 := by
  unfold resize
  split_ifs
  · exact .inl rfl
  · exact .inl rfl
  · obtain ⟨mb',r⟩ := alloc sort mb n
    cases r
    · exact .inr rfl
    · exact .inr rfl

section Fails

variable {sort : List MetaChunk → List MetaChunk} (hs : SortsByOffset sort) {mb : MetaBlock} (hv : Valid mb)
include hs hv

/-- `metaChunks` accepts every valid block. -/
theorem metaChunks_of_valid : metaChunks sort mb=some (sort (chunks mb)) := by
  obtain ⟨o,n,hscan,hlast⟩ := scanChunks_ordered (ordered_sort_chunks hs hv) le_rfl
    (fun c hc => (chunk_ok hs hv hc).2.1.1) mb.omin 0
  have hend : o+n ≤ mb.size := by
    rcases hlast with h | ⟨c,hc,rfl,rfl⟩
    · obtain ⟨rfl,rfl⟩ := Prod.ext_iff.mp h
      simpa using hv.omin_le_size
    · exact (chunk_ok hs hv hc).2.1.2
  have hfree := hv.free_eq
  rw [sum_sort_chunks hs] at hscan
  unfold metaChunks
  rw [hscan]
  dsimp only
  rw [if_neg (by omega),if_neg (by omega)]

/-- `alloc` fails on a valid block exactly when the bytes past the used ones and the free bytes
among them are too few together: the search never misses room that compaction makes. -/
theorem alloc_eq_none_iff (n : Nat) : (alloc sort mb n).2=none ↔ mb.maxsize-mb.size+mb.free < n := by
  have hsz := hv.size_le
  have hfree := hv.free_eq
  have hcs := compact_size hs hv
  unfold alloc
  rw [metaChunks_of_valid hs hv]
  split_ifs with h1 h2
  · exact iff_of_false (by simp) (by omega)
  · simp [h2]
  · dsimp only
    split
    · exact iff_of_false (by simp) h2
    · split_ifs with h3 h4
      · exact iff_of_false (by simp) h2
      · -- compaction leaves exactly `size-free` bytes used, so the room after it is enough
        have : (compact mb (sort (chunks mb))).maxsize=mb.maxsize := rfl
        omega
      · exact iff_of_false (by simp) h2

theorem compaction_compact : Compaction mb (compact mb (sort (chunks mb))) where
  shape := ⟨rfl,rfl,rfl⟩
  nindex := rfl
  slots := fun _ hj => by
    obtain ⟨h1,h2,-,h4⟩ := slot_compact hs hv hj
    exact ⟨h1,h2,h4⟩
  size_eq := compact_size hs hv
  free_eq := rfl

/-- `resize` fails exactly when the entry can neither shrink nor grow in place and `alloc`
fails. -/
theorem resize_eq_false_iff (me : MetaEntry) (n : Nat) :
    (resize sort mb me n).2.2=false ↔
      me.size.toNat < n ∧ growRoom mb me < n ∧ mb.maxsize-mb.size+mb.free < n := by
  have ha := alloc_eq_none_iff hs hv n
  unfold resize
  split_ifs with h1 h2
  · exact iff_of_false (by simp) (by omega)
  · exact iff_of_false (by simp) (fun h => by unfold growRoom at h; omega)
  · have hroom : growRoom mb me < n := by
      unfold growRoom
      omega
    rcases hr : alloc sort mb n with ⟨mb',_ | o⟩
    all_goals
      rw [hr] at ha
      simpa [hroom,show me.size.toNat < n by omega] using ha

end Fails

/-! ## Allocation end to end -/

section Post

variable {sort : List MetaChunk → List MetaChunk} (hs : SortsByOffset sort) {mb : MetaBlock} (hv : Valid mb)
include hs hv

theorem compaction_of_compact {mb' : MetaBlock} (h : mb'=mb ∨ mb'=compact mb (sort (chunks mb))) :
    mb'=mb ∨ Compaction mb mb' :=
  h.imp_right fun (he : mb'=compact mb (sort (chunks mb))) => he ▸ compaction_compact hs hv

/-- `alloc` on a valid block fails exactly when the room past the used bytes and the free bytes
together are fewer than `n`; otherwise it answers a free range of the block it returns. That
block is valid, and it is the old one or its compaction, with every entry's bytes moved whole.
`resize` of slot `i`'s entry fails exactly when the entry can neither shrink nor grow in place
and `alloc` fails; otherwise it answers a range of the new size, past the table and within the
block, that meets no other entry, in a block that is again the old one or its compaction. -/
theorem alloc_postcondition (n : Nat) :
    (∀ mb' r, alloc sort mb n=(mb',r) →
      (r=none ↔ mb.maxsize-mb.size+mb.free < n) ∧ (∀ o, r=some o → Free mb' o n) ∧
        Valid mb' ∧ (mb'=mb ∨ Compaction mb mb')) ∧
    ∀ i < mb.nindex, ∀ mb' me' ok, resize sort mb (slotEntry mb.buf i) n=(mb',me',ok) →
      (ok=false ↔ (slotEntry mb.buf i).size.toNat < n ∧ growRoom mb (slotEntry mb.buf i) < n ∧
          mb.maxsize-mb.size+mb.free < n) ∧
        (ok=true → me'.size.toNat=n ∧ mb.omin ≤ me'.offset ∧ me'.offset+n ≤ mb.maxsize ∧
          ∀ j < mb.nindex, j≠i → Apart (me'.offset,n) (slotEntry mb'.buf j).extent) ∧
        Valid mb' ∧ (mb'=mb ∨ Compaction mb mb') := by
  refine ⟨fun mb' r h => ?_,fun i hi mb' me' ok h => ?_⟩
  · have hr := alloc_eq_none_iff hs hv n
    have hm := alloc_fst sort mb n
    rw [h] at hr hm
    obtain ⟨hv',-,-,-,hf⟩ := alloc_spec hs hv h
    exact ⟨hr,hf,hv',compaction_of_compact hs hv hm⟩
  · have hr := resize_eq_false_iff hs hv (slotEntry mb.buf i) n
    have hm : mb'=mb ∨ mb'=compact mb (sort (chunks mb)) := by
      rcases resize_fst sort mb (slotEntry mb.buf i) n with he | he
      · rw [h] at he
        exact .inl he
      · rw [h] at he
        dsimp only at he
        rw [he]
        exact alloc_fst sort mb n
    rw [h] at hr
    obtain ⟨hv',-,-,-,hok⟩ := resize_spec hs hv hi h
    exact ⟨hr,hok,hv',compaction_of_compact hs hv hm⟩

end Post

/-- A block of 44 bytes with two slots, whose entries `a` at 20 and `b` at 31 leave two free
bytes between them and four past the used ones. -/
def gapBlock : MetaBlock :=
  ⟨44,40,2,2,2,false,write (fun _ => 0) 0
    (be32 MetaMagic++be16 40++be16 2++be16 2++be16 2++be16 20++be16 9++be16 31++be16 9++
      be32 DirMagic++be16 9++be16 1++[0x61]++[0,0]++be32 DirMagic++be16 9++be16 1++[0x62])⟩

theorem valid_gapBlock : Valid gapBlock := by
  have he : entries gapBlock=[⟨20,9⟩,⟨31,9⟩] := by decide
  have hn : names gapBlock=[[0x61],[0x62]] := by decide
  refine ⟨by decide,by decide,by decide,?_,?_,?_,fun _ => ?_⟩
  · rw [he]
    intro me hme
    rcases List.mem_pair.mp hme with rfl | rfl
    · exact ⟨by decide,⟨by decide,by decide⟩,by decide⟩
    · exact ⟨by decide,⟨by decide,by decide⟩,by decide⟩
  · rw [he]
    simp [MetaEntry.extent,Apart]
  · rw [he]
    rfl
  · rw [hn]
    decide

/-- Five bytes in `gapBlock` take a compaction: four lie past the used bytes and two between the
entries. -/
theorem alloc_postcondition_gapBlock :
    Valid gapBlock ∧
    (∀ mb' r, alloc offsetSort gapBlock 5=(mb',r) →
      (r=none ↔ gapBlock.maxsize-gapBlock.size+gapBlock.free < 5) ∧ (∀ o, r=some o → Free mb' o 5) ∧
        Valid mb' ∧ (mb'=gapBlock ∨ Compaction gapBlock mb')) ∧
    ∀ i < gapBlock.nindex, ∀ mb' me' ok, resize offsetSort gapBlock (slotEntry gapBlock.buf i) 5=(mb',me',ok) →
      (ok=false ↔ (slotEntry gapBlock.buf i).size.toNat < 5 ∧ growRoom gapBlock (slotEntry gapBlock.buf i) < 5 ∧
          gapBlock.maxsize-gapBlock.size+gapBlock.free < 5) ∧
        (ok=true → me'.size.toNat=5 ∧ gapBlock.omin ≤ me'.offset ∧ me'.offset+5 ≤ gapBlock.maxsize ∧
          ∀ j < gapBlock.nindex, j≠i → Apart (me'.offset,5) (slotEntry mb'.buf j).extent) ∧
        Valid mb' ∧ (mb'=gapBlock ∨ Compaction gapBlock mb') :=
  ⟨valid_gapBlock,alloc_postcondition offsetSort_sorts valid_gapBlock 5⟩

end Fossil.Vac
