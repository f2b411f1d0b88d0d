import Mathlib

/-!
# Binary search with a three-way comparison

The loop that narrows `[b, t)` by probing `(b+t)/2`: a zero comparison stops with the probe, a
negative one continues right of it, a positive one left of it; an empty range answers `b`, the
insertion point. On keys that increase strictly, with a comparison that tells below, equal and
above, the search finds the key's position when it is present and otherwise the position where
every key before is below it and every key from there on is above it.
-/

namespace BinSearch

/-- The search loop over `[b, t)`. A comparison that fails (`none`) stops the search. -/
def search (cmp : Nat → Option Int) (b t : Nat) : Option (Nat × Bool) :=
  if b < t then
    match cmp ((b+t)/2) with
    | none => none
    | some x =>
      if x=0 then some ((b+t)/2,true)
      else if x < 0 then search cmp ((b+t)/2+1) t
      else search cmp b ((b+t)/2)
  else some (b,false)
termination_by t-b

/-- An empty range answers its start, the insertion point. -/
theorem search_of_le (cmp : Nat → Option Int) {b t : Nat} (h : t ≤ b) : search cmp b t=some (b,false) := by
  rw [search,if_neg (by omega)]

/-- A comparison that fails at the first probe stops the search. -/
theorem search_probe_none {cmp : Nat → Option Int} {b t : Nat} (h : b < t) (hc : cmp ((b+t)/2)=none) :
    search cmp b t=none := by
  rw [search,if_pos h,hc]

/-- A zero comparison at the first probe answers the probe. -/
theorem search_probe_zero {cmp : Nat → Option Int} {b t : Nat} (h : b < t) (hc : cmp ((b+t)/2)=some 0) :
    search cmp b t=some ((b+t)/2,true) := by
  rw [search,if_pos h,hc]
  rfl

variable {α : Type*} [LinearOrder α]

/-- `cmp` compares the key at each position of `[lo, hi)` with `x`: negative below, zero equal. -/
def Compares (cmp : Nat → Option Int) (key : Nat → α) (x : α) (lo hi : Nat) : Prop :=
  ∀ i, lo ≤ i → i < hi → ∃ c, cmp i=some c ∧ (c < 0 ↔ key i < x) ∧ (c=0 ↔ key i=x)

/-- The keys increase strictly on `[lo, hi)`. -/
def StrictOn (key : Nat → α) (lo hi : Nat) : Prop :=
  ∀ i j, lo ≤ i → i < j → j < hi → key i < key j

/-- What the search answers: the position of `x`, or its insertion point. -/
def Answer (key : Nat → α) (x : α) (lo hi : Nat) (r : Nat × Bool) : Prop :=
  (r.2=true → lo ≤ r.1 ∧ r.1 < hi ∧ key r.1=x) ∧
  (r.2=false → lo ≤ r.1 ∧ r.1 ≤ hi ∧ (∀ j, lo ≤ j → j < r.1 → key j < x) ∧ ∀ j, r.1 ≤ j → j < hi → x < key j)

/-- The loop keeps every key left of `b` below `x` and every key from `t` on above it. -/
theorem search_spec {cmp : Nat → Option Int} {key : Nat → α} {x : α} {lo hi : Nat}
    (hc : Compares cmp key x lo hi) (hs : StrictOn key lo hi) (b t : Nat) (hb : lo ≤ b) (ht : t ≤ hi)
    (hbt : b ≤ t) (hleft : ∀ j, lo ≤ j → j < b → key j < x) (hright : ∀ j, t ≤ j → j < hi → x < key j) :
    ∃ r, search cmp b t=some r ∧ Answer key x lo hi r := by
  induction b,t using search.induct cmp with
  | case1 b t hlt hnone =>
    obtain ⟨c,hcc,-,-⟩ := hc ((b+t)/2) (by omega) (by omega)
    rw [hnone] at hcc
    cases hcc
  | case2 b t hlt hcc =>
    refine ⟨((b+t)/2,true),by rw [search,if_pos hlt]; simp [hcc],?_,by simp⟩
    intro _
    obtain ⟨c',hc',-,heq⟩ := hc ((b+t)/2) (by omega) (by omega)
    rw [hcc] at hc'
    cases hc'
    exact ⟨by omega,by omega,heq.mp rfl⟩
  | case3 b t hlt c hcc hc0 hneg ih =>
    obtain ⟨c',hc',hlt',-⟩ := hc ((b+t)/2) (by omega) (by omega)
    rw [hcc] at hc'
    cases hc'
    have hkey : key ((b+t)/2) < x := hlt'.mp hneg
    obtain ⟨r,hr,ha⟩ := ih (by omega) ht (by omega) (fun j hj1 hj2 => by
      rcases Nat.lt_or_ge j b with hjb | hjb
      · exact hleft j hj1 hjb
      · rcases Nat.lt_or_ge j ((b+t)/2) with hjm | hjm
        · exact (hs j _ hj1 hjm (by omega)).trans hkey
        · have : j=(b+t)/2 := by omega
          rw [this]
          exact hkey) hright
    refine ⟨r,?_,ha⟩
    rw [search,if_pos hlt]
    simp [hcc,hc0,hneg,hr]
  | case4 b t hlt c hcc hc0 hneg ih =>
    obtain ⟨c',hc',hlt',heq⟩ := hc ((b+t)/2) (by omega) (by omega)
    rw [hcc] at hc'
    cases hc'
    have hkey : x < key ((b+t)/2) :=
      lt_of_le_of_ne (not_lt.mp fun h => hneg (hlt'.mpr h)) fun h => hc0 (heq.mpr h.symm)
    obtain ⟨r,hr,ha⟩ := ih hb (by omega) (by omega) hleft (fun j hj1 hj2 => by
      rcases Nat.lt_or_ge j t with hjt | hjt
      · rcases Nat.lt_or_ge ((b+t)/2) j with hjm | hjm
        · exact hkey.trans (hs _ j (by omega) hjm (by omega))
        · have : j=(b+t)/2 := by omega
          rw [this]
          exact hkey
      · exact hright j hjt hj2)
    refine ⟨r,?_,ha⟩
    rw [search,if_pos hlt]
    simp [hcc,hc0,hneg,hr]
  | case5 b t hge =>
    refine ⟨(b,false),by rw [search,if_neg hge],by simp,fun _ => ?_⟩
    have hbt' : b=t := by omega
    subst hbt'
    exact ⟨hb,ht,hleft,hright⟩

end BinSearch
