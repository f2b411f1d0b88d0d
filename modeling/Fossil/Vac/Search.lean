import Fossil.Vac.Index
import Fossil.Lib.BinSearch

/-!
# Finding a name

`meCmp` compares the name an entry records with a string byte by byte, a proper prefix first:
the lexicographic order on names. In a valid block that is not old the names increase along
the table, so the binary search of `search` finds the slot of a name that is there, and
otherwise the slot where the name would go.
-/

namespace Fossil.Vac

open Bytes

theorem key_inj {a b : List UInt8} (h : key a=key b) : a=b :=
  List.map_injective_iff.mpr (fun _ _ h => UInt8.toNat_inj.mp h) h

/-- `meCmp`'s loop is the lexicographic comparison of the names. -/
theorem cmpName_spec (a b : List UInt8) :
    (cmpName a b < 0 ↔ key a < key b) ∧ (cmpName a b=0 ↔ key a=key b) := by
  induction a generalizing b with
  | nil =>
    cases b with
    | nil => simp [cmpName,key]
    | cons d s => simp [cmpName,key,List.nil_lt_cons]
  | cons c p ih =>
    cases b with
    | nil => simp [cmpName,key,List.not_lt_nil]
    | cons d s =>
      have hcd : c < d ↔ c.toNat < d.toNat := UInt8.lt_iff_toNat_lt
      have hdc : d < c ↔ d.toNat < c.toNat := UInt8.lt_iff_toNat_lt
      simp only [cmpName,key,List.map_cons,List.cons_lt_cons_iff,List.cons.injEq]
      by_cases h1 : c < d
      · simp only [if_pos h1]
        have := hcd.mp h1
        constructor
        · simp [this]
        · simp
          omega
      · by_cases h2 : d < c
        · simp only [if_neg h1,if_pos h2]
          have := hdc.mp h2
          constructor
          · simp
            omega
          · simp
            omega
        · simp only [if_neg h1,if_neg h2]
          have heq : c.toNat=d.toNat := by
            have := mt hcd.mpr h1
            have := mt hdc.mpr h2
            omega
          simp only [heq,lt_irrefl,false_or,true_and]
          exact ih s

/-- The bytes `meCmp` reads are the name the entry records. -/
theorem region_nameLen {mb : MetaBlock} {me : MetaEntry} (h8 : 8 ≤ me.size.toNat) :
    region mb.buf (me.offset+8) (nameLen mb me)=nameOf (content mb.buf me) := by
  have h6 : (content mb.buf me).getD 6 0=mb.buf (me.offset+6) := by
    simp [content,region,List.getD_eq_getElem?_getD,show 6 < me.size.toNat by omega]
  have h7 : (content mb.buf me).getD 7 0=mb.buf (me.offset+7) := by
    simp [content,region,List.getD_eq_getElem?_getD,show 7 < me.size.toNat by omega]
  have hlen := get16_toNat mb.buf (me.offset+6)
  unfold nameOf nameLen
  rw [h6,h7,content,region_drop _ _ h8,← hlen]
  split
  · rw [List.take_of_length_le (by simp; omega)]
  · rw [region_take _ _ (by omega)]

theorem meCmp_eq {mb : MetaBlock} {me : MetaEntry} (h8 : 8 ≤ me.size.toNat) (s : List UInt8) :
    meCmp mb me s=cmpName (nameOf (content mb.buf me)) s := by
  rw [meCmp,region_nameLen h8]

theorem unpackMetaEntry_of_valid {mb : MetaBlock} (hv : Valid mb) {i : Nat} (hi : i < mb.nindex) :
    unpackMetaEntry mb i=some (slotEntry mb.buf i) := by
  have h8 := hv.entry_size (slot_mem hi)
  unfold unpackMetaEntry
  rw [if_pos hi,if_pos (show 8 ≤ get16 mb.buf (slot i+2) from h8)]
  rfl

/-- The names of a valid block that is not old increase along the table. -/
theorem strictOn_names {mb : MetaBlock} (hv : Valid mb) (hb : mb.botch=false) :
    BinSearch.StrictOn (fun j => key (nameAt mb j)) 0 mb.nindex := by
  intro i j _ hij hj
  have h := List.pairwise_iff_getElem.mp (hv.sorted hb) i j (by simp; omega) (by simp; omega) hij
  simpa using h

/-- `search` in a valid block that is not old: the slot of the name, or where it would go. -/
theorem search_spec {mb : MetaBlock} (hv : Valid mb) (hb : mb.botch=false) (elem : List UInt8) :
    ∃ i, (i < mb.nindex ∧ nameAt mb i=elem ∧ search mb elem=some (i,some (slotEntry mb.buf i))) ∨
      (i ≤ mb.nindex ∧ search mb elem=some (i,none) ∧ (∀ j < i, key (nameAt mb j) < key elem) ∧
        ∀ j, i ≤ j → j < mb.nindex → key elem < key (nameAt mb j)) := by
  have hc : BinSearch.Compares (fun i => (unpackMetaEntry mb i).bind fun me =>
      if mb.botch then meCmpOld mb me elem else some (meCmp mb me elem))
      (fun j => key (nameAt mb j)) (key elem) 0 mb.nindex := by
    intro i _ hi
    have h8 := hv.entry_size (slot_mem hi)
    refine ⟨cmpName (nameAt mb i) elem,?_,cmpName_spec _ _⟩
    beta_reduce
    rw [unpackMetaEntry_of_valid hv hi,Option.bind_some,hb,if_neg Bool.false_ne_true,meCmp_eq h8]
    rfl
  obtain ⟨⟨i,found⟩,hr,ha⟩ := BinSearch.search_spec hc (strictOn_names hv hb) 0 mb.nindex le_rfl le_rfl
    (Nat.zero_le _) (fun j _ hj => absurd hj (Nat.not_lt_zero j)) (fun j hj hj' => absurd hj' (by omega))
  refine ⟨i,?_⟩
  cases found with
  | true =>
    obtain ⟨-,hi,heq⟩ := ha.1 rfl
    refine Or.inl ⟨hi,key_inj heq,?_⟩
    simp only [search,hr,unpackMetaEntry_of_valid hv hi,Option.map_some]
  | false =>
    obtain ⟨-,hi,hlo,hhi⟩ := ha.2 rfl
    refine Or.inr ⟨hi,?_,fun j hj => hlo j (Nat.zero_le j) hj,hhi⟩
    simp only [search,hr]

/-! ## Old blocks

`meCmpOld` is the comparison of blocks an older fossil wrote. Its loop answers 0 ("equal") as
soon as the entry's byte is the larger, and when the entry's name runs out it reads the first
byte of what is left of `s`, past the end of `s` when the names are equal. -/

/-- Equal names run `meCmpOld` past the end of both. -/
theorem cmpNameOld_self (p : List UInt8) : cmpNameOld p p=none := by
  induction p with
  | nil => rfl
  | cons c p ih => simp [cmpNameOld,ih]

theorem meCmpOld_eq {mb : MetaBlock} {me : MetaEntry} (h8 : 8 ≤ me.size.toNat) (s : List UInt8) :
    meCmpOld mb me s=cmpNameOld (nameOf (content mb.buf me)) s := by
  rw [meCmpOld,region_nameLen h8]

/-- The comparison `search` makes at slot `i` of a valid old block. -/
theorem probe_old {mb : MetaBlock} (hv : Valid mb) (hb : mb.botch=true) {i : Nat} (hi : i < mb.nindex)
    (elem : List UInt8) :
    ((unpackMetaEntry mb i).bind fun me =>
      if mb.botch then meCmpOld mb me elem else some (meCmp mb me elem))=cmpNameOld (nameAt mb i) elem := by
  rw [unpackMetaEntry_of_valid hv hi,Option.bind_some,hb,if_pos rfl,meCmpOld_eq (hv.entry_size (slot_mem hi))]
  rfl

/-- Searching a valid old block goes wrong at its first probe, the middle slot: the name stored
there makes `meCmpOld` index past the end of the name, a panic, and a name whose first byte is
below that name's is reported found there. -/
theorem search_old_block_fails {mb : MetaBlock} (hv : Valid mb) (hb : mb.botch=true) (hn : 0 < mb.nindex) :
    search mb (nameAt mb (mb.nindex/2))=none ∧
    ∀ c d : UInt8, ∀ s p, nameAt mb (mb.nindex/2)=d::p → c < d →
      search mb (c::s)=some (mb.nindex/2,some (slotEntry mb.buf (mb.nindex/2))) := by
  have hi : mb.nindex/2 < mb.nindex := by omega
  have hmid : (0+mb.nindex)/2=mb.nindex/2 := by rw [Nat.zero_add]
  constructor
  · rw [search,BinSearch.search_probe_none hn (by rw [hmid,probe_old hv hb hi,cmpNameOld_self])]
  · intro c d s p hname hcd
    have hdc : ¬d < c := by
      rw [UInt8.lt_iff_toNat_lt] at hcd ⊢
      omega
    have hz : cmpNameOld (nameAt mb (mb.nindex/2)) (c::s)=some 0 := by
      rw [hname]
      simp [cmpNameOld,hcd,hdc]
    rw [search,BinSearch.search_probe_zero hn (by rw [hmid,probe_old hv hb hi,hz]),hmid]
    simp [unpackMetaEntry_of_valid hv hi]

/-- An old block holding one entry, named `a`, at offset 16. -/
def oldEntryBlock : MetaBlock :=
  ⟨200,25,0,1,1,true,write (fun _ => 0) 0
    (be32 (MetaMagic-1)++be16 25++be16 0++be16 1++be16 1++be16 16++be16 9++be32 DirMagic++be16 9++be16 1++[0x61])⟩

theorem valid_oldEntryBlock : Valid oldEntryBlock := by
  have he : entries oldEntryBlock=[⟨16,9⟩] := by decide
  refine ⟨by decide,by decide,by decide,?_,by simp [he],?_,fun hb => absurd hb (by decide)⟩
  · rw [he]
    intro me hme
    rw [List.mem_singleton.mp hme]
    exact ⟨by decide,⟨by decide,by decide⟩,by decide⟩
  · rw [he]
    rfl

theorem search_old_block_fails_oldEntryBlock :
    unpackMetaBlock oldEntryBlock.buf oldEntryBlock.maxsize=some oldEntryBlock ∧
    nameAt oldEntryBlock 0=[0x61] ∧ search oldEntryBlock [0x61]=none ∧
      search oldEntryBlock [0x60]=some (0,some ⟨16,9⟩) := by
  have h := search_old_block_fails valid_oldEntryBlock rfl (by decide)
  have hname : nameAt oldEntryBlock 0=[0x61] := by decide
  have hmid : oldEntryBlock.nindex/2=0 := rfl
  have hslot : slotEntry oldEntryBlock.buf 0=⟨16,9⟩ := by decide
  rw [hmid] at h
  refine ⟨rfl,hname,h.1,?_⟩
  rw [← hslot]
  exact h.2 0x60 0x61 [] [] hname (by decide)

end Fossil.Vac
