import Mathlib.Data.List.Count
import Mathlib.Data.List.Pairwise
import Mathlib.Data.List.TakeWhile
import Mathlib.Order.Defs.Unbundled

/-!
# Sorted lists

A list is sorted for a Boolean strict order `less` when no element is `less`
than one before it, which is what a comparison sort guarantees whether or not
it is stable. An element that occurs once and is above every other element then
stands last, so dropping the last position drops it. The lexicographic comparison of lists and
the merge of two sorted lists under a strict order are here as well.
-/

namespace Sorted

variable {α : Type*} [DecidableEq α]

/-- Sorted for `less`: no later element is below an earlier one. -/
def SortedBy (less : α → α → Bool) (l : List α) : Prop :=
  l.Pairwise (fun a b => less b a=false)

/-- A unique greatest element of a sorted list stands last. -/
theorem eq_append_of_greatest (less : α → α → Bool) {l : List α} {e : α}
    (hs : SortedBy less l) (he : l.count e=1)
    (hmax : ∀ x ∈ l, x≠e → less x e=true) : ∃ l₁, l=l₁++[e] ∧ e ∉ l₁ := by
  have hmem : e ∈ l := List.count_pos_iff.mp (by omega)
  obtain ⟨l₁,l₂,rfl⟩ := List.append_of_mem hmem
  have hc : l₁.count e+l₂.count e=0 := by
    simp only [List.count_append,List.count_cons_self] at he
    omega
  have h₁ : e ∉ l₁ := fun h => by
    have := List.count_pos_iff.mpr h
    omega
  have h₂ : e ∉ l₂ := fun h => by
    have := List.count_pos_iff.mpr h
    omega
  cases l₂ with
  | nil => exact ⟨l₁,rfl,h₁⟩
  | cons y ys =>
    have hy : y≠e := fun hye => h₂ (hye ▸ List.mem_cons_self)
    have hle : less y e=false := by
      have hp := (List.pairwise_append.mp hs).2.1
      exact List.rel_of_pairwise_cons hp List.mem_cons_self
    have hlt := hmax y (by simp) hy
    rw [hle] at hlt
    exact absurd hlt Bool.false_ne_true

/-- Dropping the last position of a sorted list drops its unique greatest
element. -/
theorem not_mem_take_pred_of_greatest (less : α → α → Bool) {l : List α} {e : α}
    (hs : SortedBy less l) (he : l.count e=1)
    (hmax : ∀ x ∈ l, x≠e → less x e=true) : e ∉ l.take (l.length-1) := by
  obtain ⟨l₁,rfl,h₁⟩ := eq_append_of_greatest less hs he hmax
  simpa using h₁

omit [DecidableEq α] in
/-- Inserting an element related to every element before position `i` and to every element
from `i` on keeps a list pairwise related. -/
theorem pairwise_insertIdx {R : α → α → Prop} {l : List α} {i : Nat} {x : α} (h : l.Pairwise R)
    (hi : i ≤ l.length) (hb : ∀ j (hj : j < i), R l[j] x)
    (ha : ∀ j (hj : j < l.length), i ≤ j → R x l[j]) : (l.insertIdx i x).Pairwise R := by
  induction l generalizing i with
  | nil =>
    have hi0 : i=0 := by simpa using hi
    subst hi0
    simp
  | cons a l ih =>
    rw [List.pairwise_cons] at h
    cases i with
    | zero =>
      rw [List.insertIdx_zero,List.pairwise_cons]
      refine ⟨fun y hy => ?_,List.pairwise_cons.mpr h⟩
      rcases List.mem_cons.mp hy with rfl | hy
      · exact ha 0 (by simp) (Nat.le_refl 0)
      · obtain ⟨j,hj,rfl⟩ := List.getElem_of_mem hy
        exact ha (j+1) (by simp; omega) (by omega)
    | succ i =>
      rw [List.insertIdx_succ_cons,List.pairwise_cons]
      refine ⟨fun y hy => ?_,ih h.2 (by simpa using hi) (fun j hj => hb (j+1) (by omega))
        (fun j hj hij => ha (j+1) (by simp; omega) (by omega))⟩
      rcases (List.mem_insertIdx (by simpa using hi)).mp hy with rfl | hy
      · exact hb 0 (by omega)
      · exact h.1 y hy

omit [DecidableEq α] in
/-- Two different elements of a pairwise related list are related one way or the other. -/
theorem rel_or_rel_of_pairwise {R : α → α → Prop} {l : List α} (h : l.Pairwise R) {a b : α} (ha : a ∈ l)
    (hb : b ∈ l) (hab : a≠b) : R a b ∨ R b a := by
  induction l with
  | nil => simp at ha
  | cons x l ih =>
    rw [List.pairwise_cons] at h
    rcases List.mem_cons.mp ha with rfl | ha'
    · rcases List.mem_cons.mp hb with rfl | hb'
      · exact absurd rfl hab
      · exact Or.inl (h.1 b hb')
    · rcases List.mem_cons.mp hb with rfl | hb'
      · exact Or.inr (h.1 a ha')
      · exact ih h.2 ha' hb'

/-! ## Keeping a list sorted by key

A linked list kept in order of a key of its elements, for a strict total order on the keys: a new
element goes in after the elements below it and before the rest, and an element of the list splits
it into the elements below it and those above it.
-/

section Key

variable {κ : Type*} {lt : κ → κ → Prop} [IsStrictTotalOrder κ lt] [DecidableRel lt] {key : α → κ}

omit [DecidableEq α] in
/-- In a list sorted by key, with no element keyed `k`, every element from the first one not below
`k` on lies above `k`. -/
theorem lt_key_of_mem_dropWhile {l : List α} (h : l.Pairwise fun a b => lt (key a) (key b)) {k : κ}
    (hk : ∀ a ∈ l, key a≠k) {b : α} (hb : b ∈ l.dropWhile fun a => lt (key a) k) : lt k (key b) := by
  induction l with
  | nil => simp at hb
  | cons a l ih =>
    rw [List.pairwise_cons] at h
    by_cases ha : lt (key a) k
    · rw [List.dropWhile_cons_of_pos (by simpa using ha)] at hb
      exact ih h.2 (fun c hc => hk c (by simp [hc])) hb
    · rw [List.dropWhile_cons_of_neg (by simpa using ha)] at hb
      have hka : lt k (key a) := by
        rcases trichotomous_of lt (key a) k with h' | h' | h'
        · exact absurd h' ha
        · exact absurd h' (hk a (by simp))
        · exact h'
      rcases List.mem_cons.mp hb with rfl | hb
      · exact hka
      · exact trans_of lt hka (h.1 b hb)

omit [DecidableEq α] in
/-- Inserting `x` after the elements of a sorted list whose keys are below its own keeps the list
sorted, when no element has the key of `x`. -/
theorem pairwise_insert_key {l : List α} (h : l.Pairwise fun a b => lt (key a) (key b)) {x : α}
    (hx : ∀ a ∈ l, key a≠key x) :
    ((l.takeWhile fun a => lt (key a) (key x))++x::l.dropWhile fun a => lt (key a) (key x)).Pairwise
      fun a b => lt (key a) (key b) := by
  have hs : ((l.takeWhile fun a => lt (key a) (key x))++l.dropWhile fun a => lt (key a) (key x)).Pairwise
      fun a b => lt (key a) (key b) := by
    rwa [List.takeWhile_append_dropWhile]
  rw [List.pairwise_append] at hs ⊢
  refine ⟨hs.1,List.pairwise_cons.mpr ⟨fun b hb => lt_key_of_mem_dropWhile h hx hb,hs.2.1⟩,?_⟩
  intro a ha b hb
  have hax : lt (key a) (key x) := by simpa using List.mem_takeWhile_imp ha
  rcases List.mem_cons.mp hb with rfl | hb
  · exact hax
  · exact hs.2.2 a ha b hb

omit [DecidableEq α] [IsStrictTotalOrder κ lt] [DecidableRel lt] in
/-- An element of a list sorted by key splits it into the elements below it and those above it. -/
theorem eq_append_cons_of_mem {l : List α} (h : l.Pairwise fun a b => lt (key a) (key b)) {x : α}
    (hx : x ∈ l) :
    ∃ pre post, l=pre++x::post ∧ (∀ a ∈ pre, lt (key a) (key x)) ∧ ∀ b ∈ post, lt (key x) (key b) := by
  obtain ⟨pre,post,rfl⟩ := List.append_of_mem hx
  rw [List.pairwise_append,List.pairwise_cons] at h
  exact ⟨pre,post,rfl,fun a ha => h.2.2 a ha x (by simp),h.2.1.1⟩

end Key

/-! ## Lexicographic comparison

`cmp` compares two lists element by element, a proper prefix first, and answers `-1`, `0` or `1`.
It is below zero exactly when the first list is below the second in the lexicographic order of
`List`, so that order's laws are its laws.
-/

section Lex

variable {β : Type*} [LT β] [DecidableLT β]

/-- Three-way lexicographic comparison of lists, a proper prefix first. -/
def cmp : List β → List β → Int
  | [], [] => 0
  | [], _::_ => -1
  | _::_, [] => 1
  | c::p, d::s => if c<d then -1 else if d<c then 1 else cmp p s

variable [LE β] [Std.IsLinearOrder β] [Std.LawfulOrderLT β]

/-- `cmp` is below zero exactly when the first list is the smaller. -/
theorem cmp_neg_iff (p s : List β) : cmp p s<0 ↔ p<s := by
  induction p generalizing s with
  | nil => cases s <;> simp [cmp]
  | cons c p ih =>
    cases s with
    | nil => simp [cmp]
    | cons d s =>
      rw [List.cons_lt_cons_iff]
      by_cases hcd : c<d
      · simp [cmp,hcd]
      · by_cases hdc : d<c
        · have hne : c≠d := fun h => Std.lt_irrefl (h ▸ hdc)
          simp [cmp,hcd,hdc,hne]
        · -- neither is below the other: the heads are equal and the tails decide
          have heq : c=d := Std.le_antisymm (Std.not_lt.mp hdc) (Std.not_lt.mp hcd)
          subst heq
          simp [cmp,hcd,ih]

omit [Std.IsLinearOrder β] in
/-- Swapping the lists negates `cmp`. -/
theorem cmp_swap (p s : List β) : cmp s p=-cmp p s := by
  induction p generalizing s with
  | nil => cases s <;> simp [cmp]
  | cons c p ih =>
    cases s with
    | nil => simp [cmp]
    | cons d s =>
      by_cases hcd : c<d
      · have hdc : ¬d<c := Std.Asymm.asymm _ _ hcd
        simp [cmp,hcd,hdc]
      · by_cases hdc : d<c
        · simp [cmp,hcd,hdc]
        · simp [cmp,hcd,hdc,ih]

/-- `cmp` is at most zero exactly when the first list is not the greater. -/
theorem cmp_nonpos_iff (p s : List β) : cmp p s ≤ 0 ↔ p ≤ s := by
  rw [← List.not_lt,← cmp_neg_iff,cmp_swap]
  omega

end Lex

/-! ## Merging with a strict order

A merge that takes the left head only when it is strictly below the right one, and the right head
on ties, is `List.merge` of the swapped lists under `!lt b a`; the library's facts about `merge`
then hold of it.
-/

section Strict

variable {β : Type*} (lt : β → β → Bool)

theorem merge_eq_merge_swap (xs ys : List β) : xs.merge ys lt=ys.merge xs fun a b => !lt b a := by
  induction xs generalizing ys with
  | nil => simp
  | cons x xs ih =>
    induction ys with
    | nil => simp
    | cons y ys ihy =>
      by_cases h : lt x y
      · rw [List.cons_merge_cons_pos _ _ _ h,List.cons_merge_cons_neg _ _ _ (by simp [h]),ih]
      · rw [List.cons_merge_cons_neg _ _ _ h,List.cons_merge_cons_pos _ _ _ (by simpa using h),ihy]

variable {lt}

theorem sortedBy_merge (hasymm : ∀ a b, lt a b → lt b a=false)
    (hneg : ∀ a b c, lt b a=false → lt c b=false → lt c a=false) {xs ys : List β}
    (hx : SortedBy lt xs) (hy : SortedBy lt ys) : SortedBy lt (xs.merge ys lt) := by
  -- read as `!lt b a`, the sortedness `merge` keeps is `SortedBy lt`
  have hiff : ∀ l : List β, SortedBy lt l ↔ l.Pairwise fun a b => (!lt b a)=true := by
    intro l
    simp [SortedBy]
  rw [merge_eq_merge_swap,hiff]
  rw [hiff] at hx hy
  refine List.pairwise_merge (fun a b c hab hbc => ?_) (fun a b => ?_) _ _ hy hx
  · simp only [Bool.not_eq_true'] at hab hbc ⊢
    exact hneg a b c hab hbc
  · cases h : lt b a
    · simp
    · simp [hasymm b a h]

end Strict

end Sorted
