import Mathlib.Order.Basic

/-!
# Records packed into blocks

Records of `w` bytes stored `B / w` to a block of `B` bytes, with the bytes past the last whole
record of a block left over as slack. `recordBytes B w n` is the byte size of a file of `n`
records: the whole blocks, then `w` bytes for each record of the last one. `recordCount B w s`
reads a byte size back as a number of records: `B / w` for each whole block, then the whole
records in the rest, so that a size ending in the slack of a block counts that block as full.

On blocks that hold at least one record the two are a round trip, `recordCount` is monotone, and
a file of more records than `recordCount s` is longer than `s` bytes.
-/

namespace Fossil.Slots

/-- The byte size of `n` records. -/
def recordBytes (B w n : Nat) : Nat :=
  B*(n/(B/w))+w*(n%(B/w))

/-- The records in `s` bytes. -/
def recordCount (B w s : Nat) : Nat :=
  B/w*(s/B)+s%B/w

section Packing

variable {B w : Nat} (hw : 0 < w) (hB : w ≤ B)

include hw hB in
/-- A block holds at least one record. -/
theorem perBlock_pos : 0 < B/w :=
  Nat.div_pos hB hw

include hw hB in
/-- The records of a partial block take less than a block. -/
theorem mul_mod_lt (n : Nat) : w*(n%(B/w)) < B := by
  have hk := perBlock_pos hw hB
  calc w*(n%(B/w)) < w*(B/w) := Nat.mul_lt_mul_of_pos_left (Nat.mod_lt n hk) hw
    _ ≤ B := Nat.mul_div_le B w

include hw hB in
/-- The rest of a size past its whole blocks holds at most a block's worth of records. -/
theorem mod_div_le (s : Nat) : s%B/w ≤ B/w :=
  Nat.div_le_div_right (Nat.le_of_lt (Nat.mod_lt s (Nat.lt_of_lt_of_le hw hB)))

include hw hB in
/-- The byte size of `n` records holds `n` records. -/
theorem recordCount_recordBytes (n : Nat) : recordCount B w (recordBytes B w n)=n := by
  have hB0 : 0 < B := Nat.lt_of_lt_of_le hw hB
  have hlt := mul_mod_lt hw hB n
  have hdiv : (B*(n/(B/w))+w*(n%(B/w)))/B=n/(B/w) := by
    rw [Nat.add_comm,Nat.add_mul_div_left _ _ hB0,Nat.div_eq_of_lt hlt,Nat.zero_add]
  have hmod : (B*(n/(B/w))+w*(n%(B/w)))%B=w*(n%(B/w)) := by
    rw [Nat.add_comm,Nat.add_mul_mod_self_left,Nat.mod_eq_of_lt hlt]
  unfold recordCount recordBytes
  rw [hdiv,hmod,Nat.mul_div_cancel_left _ hw]
  exact Nat.div_add_mod n (B/w)

include hw hB in
/-- More bytes never hold fewer records. -/
theorem recordCount_mono {s s' : Nat} (h : s ≤ s') : recordCount B w s ≤ recordCount B w s' := by
  have hB0 : 0 < B := Nat.lt_of_lt_of_le hw hB
  have hq : s/B ≤ s'/B := Nat.div_le_div_right h
  unfold recordCount
  rcases Nat.lt_or_eq_of_le hq with hlt | heq
  · have hr := mod_div_le hw hB s
    calc B/w*(s/B)+s%B/w ≤ B/w*(s/B)+B/w := Nat.add_le_add_left hr _
      _ = B/w*(s/B+1) := by rw [Nat.mul_succ]
      _ ≤ B/w*(s'/B) := Nat.mul_le_mul_left _ hlt
      _ ≤ B/w*(s'/B)+s'%B/w := Nat.le_add_right _ _
  · have hs := Nat.div_add_mod s B
    have hs' := Nat.div_add_mod s' B
    rw [heq] at hs ⊢
    have hr : s%B ≤ s'%B := by omega
    exact Nat.add_le_add_left (Nat.div_le_div_right hr) _

include hw hB in
/-- A file of more records than `s` bytes hold is longer than `s` bytes. -/
theorem lt_recordBytes {s n : Nat} (h : recordCount B w s < n) : s < recordBytes B w n := by
  have hB0 : 0 < B := Nat.lt_of_lt_of_le hw hB
  have hk := perBlock_pos hw hB
  have hs := Nat.div_add_mod s B
  have hn := Nat.div_add_mod n (B/w)
  have ht := Nat.mod_lt n hk
  unfold recordCount at h
  unfold recordBytes
  rcases Nat.lt_or_ge (s/B) (n/(B/w)) with hq | hq
  · have hm := Nat.mul_le_mul_left B hq
    rw [Nat.mul_succ] at hm
    calc s=B*(s/B)+s%B := hs.symm
      _ < B*(s/B)+B := Nat.add_lt_add_left (Nat.mod_lt s hB0) _
      _ ≤ B*(n/(B/w)) := hm
      _ ≤ B*(n/(B/w))+w*(n%(B/w)) := Nat.le_add_right _ _
  · have heq : s/B=n/(B/w) := by
      by_contra hne
      have hm := Nat.mul_le_mul_left (B/w) (show n/(B/w)+1 ≤ s/B by omega)
      rw [Nat.mul_succ] at hm
      have hle : n ≤ B/w*(s/B)+s%B/w :=
        calc n=B/w*(n/(B/w))+n%(B/w) := hn.symm
          _ ≤ B/w*(n/(B/w))+B/w := Nat.add_le_add_left (Nat.le_of_lt ht) _
          _ ≤ B/w*(s/B) := hm
          _ ≤ B/w*(s/B)+s%B/w := Nat.le_add_right _ _
      exact absurd h (Nat.not_lt.mpr hle)
    rw [heq] at h hs
    have hmul : w*(s%B/w+1) ≤ w*(n%(B/w)) := Nat.mul_le_mul_left w (by omega)
    calc s=B*(n/(B/w))+s%B := hs.symm
      _ < B*(n/(B/w))+w*(s%B/w+1) := Nat.add_lt_add_left (Nat.lt_mul_div_succ (s%B) hw) _
      _ ≤ B*(n/(B/w))+w*(n%(B/w)) := Nat.add_le_add_left hmul _

end Packing

/-- Six 40-byte records to a 256-byte block: 13 records take two blocks and one record. -/
example : recordBytes 256 40 13=552 ∧ recordCount 256 40 552=13 := by decide

end Fossil.Slots
