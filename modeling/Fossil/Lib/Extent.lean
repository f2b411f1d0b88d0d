import Mathlib

/-!
# Byte ranges

A byte range is an offset and a length, `[o, o+n)`. Ranges that do not meet are apart, and
ranges that are pairwise apart and lie within `[lo, hi)` have lengths that add up to at most
`hi - lo`: the counting fact behind every free-space count of a packed block.
-/

namespace Extent

/-- The ranges `[a.1, a.1+a.2)` and `[b.1, b.1+b.2)` do not meet. -/
def Apart (a b : Nat × Nat) : Prop :=
  a.1+a.2 ≤ b.1 ∨ b.1+b.2 ≤ a.1

/-- The range lies within `[lo, hi)`. -/
def Within (lo hi : Nat) (a : Nat × Nat) : Prop :=
  lo ≤ a.1 ∧ a.1+a.2 ≤ hi

theorem Apart.symm {a b : Nat × Nat} (h : Apart a b) : Apart b a :=
  Or.symm h

/-- The offsets a list of ranges covers. -/
def cover : List (Nat × Nat) → Finset Nat
  | [] => ∅
  | a::l => Finset.Ico a.1 (a.1+a.2) ∪ cover l

theorem mem_cover {l : List (Nat × Nat)} {k : Nat} : k ∈ cover l ↔ ∃ a ∈ l, a.1 ≤ k ∧ k < a.1+a.2 := by
  induction l with
  | nil => simp [cover]
  | cons a l ih => simp [cover,ih]

/-- Ranges that are pairwise apart cover as many offsets as their lengths add up to. -/
theorem card_cover {l : List (Nat × Nat)} (h : l.Pairwise Apart) : (cover l).card=(l.map Prod.snd).sum := by
  induction l with
  | nil => rfl
  | cons a l ih =>
    rw [List.pairwise_cons] at h
    have hdis : Disjoint (Finset.Ico a.1 (a.1+a.2)) (cover l) := by
      rw [Finset.disjoint_left]
      intro k hk hkl
      obtain ⟨b,hb,hb1,hb2⟩ := mem_cover.mp hkl
      rw [Finset.mem_Ico] at hk
      rcases h.1 b hb with hab | hab <;> omega
    rw [cover,Finset.card_union_of_disjoint hdis,ih h.2,Nat.card_Ico,List.map_cons,List.sum_cons]
    omega

/-- Ranges pairwise apart within `[lo, hi)` have lengths adding up to at most `hi - lo`. -/
theorem sum_le_of_within {l : List (Nat × Nat)} {lo hi : Nat} (h : l.Pairwise Apart)
    (hw : ∀ a ∈ l, Within lo hi a) : (l.map Prod.snd).sum ≤ hi-lo := by
  rw [← card_cover h,← Nat.card_Ico lo hi]
  apply Finset.card_le_card
  intro k hk
  obtain ⟨a,ha,h1,h2⟩ := mem_cover.mp hk
  have := hw a ha
  rw [Finset.mem_Ico]
  exact ⟨by unfold Within at this; omega,by unfold Within at this; omega⟩

end Extent
