import Mathlib.Order.Basic

/-!
# Stripping trailing units

A loop that walks back from the end of a buffer over units (bytes, or fixed-size words) and
stops at the first unit it keeps answers how many units are left. `stripLen keep k` is that
count for the first `k` units. Its lemmas: the count is at most `k`; it reads only the units
below `k`; units that are dropped anyway may be skipped; and the count is stable, since the last
unit it leaves is one it keeps.
-/

namespace Strip

/-- The units left of the first `k` once the trailing units that `keep` rejects are dropped. -/
def stripLen (keep : Nat → Bool) : Nat → Nat
  | 0 => 0
  | k+1 => if keep k then k+1 else stripLen keep k

variable {keep keep' : Nat → Bool}

theorem stripLen_succ (k : Nat) : stripLen keep (k+1)=if keep k then k+1 else stripLen keep k :=
  rfl

theorem stripLen_le (k : Nat) : stripLen keep k ≤ k := by
  induction k with
  | zero => exact Nat.le_refl 0
  | succ k ih =>
    rw [stripLen_succ]
    split
    · exact Nat.le_refl _
    · omega

/-- The count reads only the units below `k`. -/
theorem stripLen_congr {k : Nat} (h : ∀ j < k, keep j=keep' j) : stripLen keep k=stripLen keep' k := by
  induction k with
  | zero => rfl
  | succ k ih =>
    rw [stripLen_succ,stripLen_succ,h k (by omega),ih fun j hj => h j (by omega)]

/-- Rejected units from `a` up to `k` are dropped whatever lies below them. -/
theorem stripLen_skip {a k : Nat} (hak : a ≤ k) (h : ∀ j, a ≤ j → j < k → keep j=false) :
    stripLen keep k=stripLen keep a := by
  induction k with
  | zero => rw [Nat.le_zero.mp hak]
  | succ k ih =>
    rcases Nat.eq_or_lt_of_le hak with rfl | hlt
    · rfl
    · rw [stripLen_succ,h k (by omega) (by omega),if_neg (by simp)]
      exact ih (by omega) fun j h1 h2 => h j h1 (by omega)

/-- The last unit left is kept. -/
theorem keep_stripLen {k : Nat} (h : 0 < stripLen keep k) : keep (stripLen keep k-1)=true := by
  induction k with
  | zero => simp [stripLen] at h
  | succ k ih =>
    unfold stripLen at h ⊢
    split
    · assumption
    · rename_i hk
      rw [if_neg hk] at h
      exact ih h

/-- Stripping what is left strips nothing more. -/
theorem stripLen_stripLen (k : Nat) : stripLen keep (stripLen keep k)=stripLen keep k := by
  rcases Nat.eq_zero_or_pos (stripLen keep k) with h | h
  · rw [h]
    rfl
  · obtain ⟨m,hm⟩ : ∃ m, stripLen keep k=m+1 := ⟨_,(Nat.succ_pred_eq_of_pos h).symm⟩
    have hkeep := keep_stripLen h
    rw [hm] at hkeep ⊢
    simp only [Nat.add_sub_cancel] at hkeep
    simp [stripLen,hkeep]

end Strip
