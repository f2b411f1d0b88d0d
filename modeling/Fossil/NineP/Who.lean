import Fossil.Lib.Sorted

/-!
# Sorting fids for `who`

`cmdWho` (`9proc.go`) links the fids of a connection that have a number and a user through their
`sort` field, sorts that chain with `fidMergeSort` and prints each user name that differs from the
one before it. `fidMergeSort` cuts the chain after the fid a slow pointer reaches when a fast one
runs off the end, the slow one skipping its first step so that a chain of two splits one and one;
`fidMerge` takes the left fid only when `scmp` puts it strictly first, and `scmp` of a nil fid
drains the other list.

The chain is the list of its fids in `sort` order. A pointer into it is an index, the length and
past standing for nil, and cutting the chain after `a` (`a.sort = nil`) is `take` and `drop`; a nil
dereference is `none`. The walk stops at the last fid of the first `⌈n/2⌉`, so both halves are
shorter and the sort ends; it returns a permutation of the chain sorted by name, and `who` prints
every user once, in order.
-/

namespace Fossil.Who

open Sorted (SortedBy)

/-- The fields of a `Fid` that `cmdWho` reads. -/
structure Fid where
  fidno : UInt32
  uname : List UInt8
  deriving DecidableEq, Repr

/-- `strings.Compare`: bytewise, a proper prefix first. -/
def stringsCompare (a b : List UInt8) : Int :=
  Sorted.cmp a b

/-- `scmp`: a nil `a` compares equal to anything, a nil `b` above any fid. -/
def scmp : Option Fid → Option Fid → Int
  | none, _ => 0
  | some _, none => -1
  | some a, some b => stringsCompare a.uname b.uname

/-- `fidMerge`: the loop takes the fid `scmp` puts first; taking from a nil list dereferences
nil. -/
def fidMerge (a b : List Fid) : Option (List Fid) :=
  if a=[] ∧ b=[] then some []
  else if scmp a.head? b.head?<0 then
    match a with
    | [] => none
    | x::a' => (fidMerge a' b).map (x :: ·)
  else
    match b with
    | [] => none
    | y::b' => (fidMerge a b').map (y :: ·)
termination_by a.length+b.length

/-- The walk of `fidMergeSort` over a chain of `n` fids: `b` moves two steps for one of `a`, and
`a` stays put in the first round (`delay`). Pointers are indices, `n` and past standing for nil;
the result is `a` once `a` or `b` is nil. -/
def splitWalk (n : Nat) (delay : Bool) (a b : Nat) : Nat :=
  if a<n ∧ b<n then
    let a := if delay then a else a+1
    let b := if b+1<n then b+2 else b+1
    splitWalk n false a b
  else a
termination_by n-b
decreasing_by split <;> omega

/-- From a round with `b` two past `a`, the walk stops at the last fid of the first half. -/
theorem splitWalk_from {n a : Nat} (h : 2*a+1 ≤ n) : splitWalk n false a (2*a+2)=(n+1)/2-1 := by
  rw [splitWalk]
  by_cases hb : 2*a+2<n
  · rw [if_pos ⟨by omega,hb⟩]
    by_cases hb' : 2*a+2+1<n
    · simp only [Bool.false_eq_true,if_false,if_pos hb']
      rw [show 2*a+2+2=2*(a+1)+2 by omega]
      exact splitWalk_from (by omega)
    · simp only [Bool.false_eq_true,if_false,if_neg hb']
      rw [splitWalk,if_neg (by omega)]
      omega
  · rw [if_neg (by omega)]
    omega
termination_by n-a

/-- On a chain of two or more fids the walk stops at the last fid of the first `⌈n/2⌉`. -/
theorem splitWalk_start {n : Nat} (h : 2 ≤ n) : splitWalk n true 0 0=(n+1)/2-1 := by
  rw [splitWalk,if_pos ⟨by omega,by omega⟩]
  simp only [if_true,if_pos (show 0+1<n by omega)]
  exact splitWalk_from (by omega)

/-- Both halves of the cut are shorter than the chain: the recursion of `fidMergeSort` ends. -/
theorem splitWalk_lt {n : Nat} (h : 2 ≤ n) : splitWalk n true 0 0+1<n := by
  rw [splitWalk_start h]
  omega

/-- `fidMergeSort`: a chain of two or more fids is cut after the fid the walk stops at
(`b = a.sort; a.sort = nil`), and the two halves are sorted and merged. -/
def fidMergeSort (f : List Fid) : Option (List Fid) :=
  match f with
  | [] => some []
  | [x] => some [x]
  | x::y::rest =>
    let a := splitWalk (x::y::rest).length true 0 0
    if a<(x::y::rest).length then do
      let a' ← fidMergeSort ((x::y::rest).take (a+1))
      let b' ← fidMergeSort ((x::y::rest).drop (a+1))
      fidMerge a' b'
    else none
termination_by f.length
decreasing_by
  all_goals
    have := splitWalk_lt (n := (x::y::rest).length) (by simp)
    simp only [List.length_take,List.length_drop] at this ⊢
    omega

/-! ## The order of the sort -/

/-- The order `fidMerge` merges by: `strings.Compare` of the user names below zero. -/
def unameLt (x y : Fid) : Bool :=
  decide (stringsCompare x.uname y.uname<0)

/-- Sorted non-decreasingly by user name under `strings.Compare`. -/
def NamesSorted (l : List Fid) : Prop :=
  l.Pairwise fun x y => stringsCompare x.uname y.uname ≤ 0

theorem unameLt_iff {x y : Fid} : unameLt x y ↔ x.uname<y.uname := by
  simp [unameLt,stringsCompare,Sorted.cmp_neg_iff]

/-- Not below in the other direction is at most in the order of the names. -/
theorem unameLt_eq_false_iff {x y : Fid} : unameLt y x=false ↔ x.uname ≤ y.uname := by
  rw [← List.not_lt,← unameLt_iff]
  simp

theorem unameLt_asymm (x y : Fid) (h : unameLt x y) : unameLt y x=false := by
  rw [unameLt_iff] at h
  rw [unameLt_eq_false_iff]
  exact List.le_of_lt h

theorem unameLt_neg_trans (x y z : Fid) (hxy : unameLt y x=false) (hyz : unameLt z y=false) :
    unameLt z x=false := by
  rw [unameLt_eq_false_iff] at hxy hyz ⊢
  exact List.le_trans hxy hyz

/-- Sorted for `unameLt` is sorted by user name. -/
theorem sortedBy_iff_namesSorted {l : List Fid} : SortedBy unameLt l ↔ NamesSorted l := by
  unfold SortedBy NamesSorted
  simp only [unameLt_eq_false_iff,stringsCompare,Sorted.cmp_nonpos_iff]

/-! ## What the merge and the sort return -/

/-- `fidMerge` is `merge` under `unameLt`: the left fid goes first only when its name is strictly
below, and the loop never takes from a nil list. -/
theorem fidMerge_eq (a b : List Fid) : fidMerge a b=some (a.merge b unameLt) := by
  induction a generalizing b with
  | nil =>
    induction b with
    | nil => rw [fidMerge]; simp
    | cons y b ih => rw [fidMerge]; simp [scmp,ih]
  | cons x a ih =>
    induction b with
    | nil => rw [fidMerge]; simp [scmp,ih]
    | cons y b ihb =>
      rw [fidMerge]
      by_cases h : unameLt x y
      · have hc : stringsCompare x.uname y.uname<0 := by simpa [unameLt] using h
        simp [scmp,hc,ih,List.cons_merge_cons_pos _ _ _ h]
      · have hc : ¬stringsCompare x.uname y.uname<0 := by simpa [unameLt] using h
        simp [scmp,hc,ihb,List.cons_merge_cons_neg _ _ _ h]

/-- `fidMergeSort` returns a permutation of the chain, sorted for `unameLt`; by induction on the
length, each half being shorter. -/
theorem fidMergeSort_spec (f : List Fid) :
    ∃ r, fidMergeSort f=some r ∧ r.Perm f ∧ SortedBy unameLt r := by
  induction h : f.length using Nat.strong_induction_on generalizing f with
  | _ n ih =>
  match f with
  | [] => exact ⟨[],by rw [fidMergeSort],.refl _,List.Pairwise.nil⟩
  | [x] => exact ⟨[x],by rw [fidMergeSort],.refl _,List.pairwise_singleton _ _⟩
  | x::y::rest =>
    -- the walk stops short of the last fid, so both halves are shorter
    have hlt := splitWalk_lt (n := (x::y::rest).length) (by simp)
    obtain ⟨l,hl,hlp,hls⟩ := ih _ (by rw [← h,List.length_take]; omega)
      ((x::y::rest).take (splitWalk (x::y::rest).length true 0 0+1)) rfl
    obtain ⟨r,hr,hrp,hrs⟩ := ih _ (by rw [← h,List.length_drop]; omega)
      ((x::y::rest).drop (splitWalk (x::y::rest).length true 0 0+1)) rfl
    refine ⟨l.merge r unameLt,?_,?_,Sorted.sortedBy_merge unameLt_asymm unameLt_neg_trans hls hrs⟩
    · rw [fidMergeSort,if_pos (by omega)]
      simp only [hl,hr,Option.bind_eq_bind,Option.bind_some,fidMerge_eq]
    · exact (List.merge_perm_append unameLt).trans ((hlp.append hrp).trans (by rw [List.take_append_drop]))

/-- The `who` sort: on every chain of fids `fidMergeSort` returns, with no nil dereference, a
permutation of the chain sorted by user name under `strings.Compare`; and `fidMerge` of two sorted
chains is their merge, a sorted permutation of the two. -/
theorem fidMergeSort_sorts :
    (∀ f : List Fid, ∃ r, fidMergeSort f=some r ∧ r.Perm f ∧ NamesSorted r) ∧
    ∀ a b : List Fid, NamesSorted a → NamesSorted b →
      fidMerge a b=some (a.merge b unameLt) ∧ (a.merge b unameLt).Perm (a++b) ∧
        NamesSorted (a.merge b unameLt) := by
  refine ⟨fun f => ?_,fun a b ha hb => ⟨fidMerge_eq a b,List.merge_perm_append unameLt,?_⟩⟩
  · obtain ⟨r,hr,hp,hs⟩ := fidMergeSort_spec f
    exact ⟨r,hr,hp,sortedBy_iff_namesSorted.mp hs⟩
  · rw [← sortedBy_iff_namesSorted] at ha hb ⊢
    exact Sorted.sortedBy_merge unameLt_asymm unameLt_neg_trans ha hb

/-! ## `who`

`cmdWho` chains the fids of a connection that have a number and a user, sorts the chain and prints
each name that differs from the one before it: every user of the connection once, in order.
-/

/-- Whether `cmdWho` chains a fid: it has a number and a user. -/
def listed (fid : Fid) : Bool :=
  fid.fidno≠0xFFFFFFFF && fid.uname≠[]

/-- The chain `cmdWho` builds: the buckets of the fid hash in order, each bucket's `hash` chain in
order, every listed fid pushed on the front. -/
def whoChain (fidhash : List (List Fid)) : List Fid :=
  fidhash.foldl (fun last bucket => bucket.foldl (fun last fid => if listed fid then fid::last else last) last) []

/-- The print loop of `cmdWho`, from the fid before: a name is printed unless it is that fid's. -/
def whoNames : Option Fid → List Fid → List (List UInt8)
  | _, [] => []
  | none, fid::rest => fid.uname::whoNames (some fid) rest
  | some last, fid::rest => (if fid.uname≠last.uname then [fid.uname] else [])++whoNames (some fid) rest

/-- The names `cmdWho` prints for a connection; `none` is a nil dereference. -/
def who (fidhash : List (List Fid)) : Option (List (List UInt8)) :=
  (fidMergeSort (whoChain fidhash)).map (whoNames none)

theorem mem_foldl_push {p : Fid → Bool} (bucket : List Fid) (acc : List Fid) (fid : Fid) :
    fid ∈ bucket.foldl (fun last fid => if p fid then fid::last else last) acc ↔ fid ∈ acc ∨ fid ∈ bucket ∧ p fid := by
  induction bucket generalizing acc with
  | nil => simp
  | cons x bucket ih =>
    rw [List.foldl_cons,ih]
    by_cases hx : p x
    · simp only [hx,if_true,List.mem_cons]
      constructor
      · rintro ((rfl|h)|⟨h,hp⟩) <;> simp_all
      · rintro (h|⟨rfl|h,hp⟩) <;> simp_all
    · simp only [hx,Bool.false_eq_true,if_false,List.mem_cons]
      constructor
      · rintro (h|⟨h,hp⟩) <;> simp_all
      · rintro (h|⟨rfl|h,hp⟩) <;> simp_all

/-- The chain holds the listed fids of every bucket. -/
theorem mem_whoChain (fidhash : List (List Fid)) (fid : Fid) :
    fid ∈ whoChain fidhash ↔ (∃ bucket ∈ fidhash, fid ∈ bucket) ∧ listed fid := by
  suffices h : ∀ acc, fid ∈ fidhash.foldl (fun last bucket =>
      bucket.foldl (fun last fid => if listed fid then fid::last else last) last) acc ↔
      fid ∈ acc ∨ (∃ bucket ∈ fidhash, fid ∈ bucket) ∧ listed fid by
    rw [whoChain]
    simpa using h []
  induction fidhash with
  | nil => simp
  | cons bucket fidhash ih =>
    intro acc
    rw [List.foldl_cons,ih,mem_foldl_push]
    simp only [List.mem_cons,exists_eq_or_imp]
    tauto

/-- A name at most another and different from it is below it. -/
theorem name_lt_of_le_of_ne {a b : List UInt8} (h : a ≤ b) (hne : a≠b) : a<b :=
  (List.le_iff_lt_or_eq.mp h).resolve_right hne

theorem exists_uname_cons {y : Fid} {rest : List Fid} {u : List UInt8} :
    (∃ x ∈ y::rest, x.uname=u) ↔ y.uname=u ∨ ∃ x ∈ rest, x.uname=u := by
  simp

/-- On a chain sorted by name the loop after `fid` prints the names of the chain other than
`fid`'s, each above it and in increasing order. -/
theorem whoNames_spec {fid : Fid} {l : List Fid} (hs : NamesSorted (fid::l)) :
    (∀ u ∈ whoNames (some fid) l, fid.uname<u) ∧ (whoNames (some fid) l).Pairwise (· < ·) ∧
      ∀ u, u ∈ whoNames (some fid) l ↔ (∃ x ∈ l, x.uname=u) ∧ fid.uname≠u := by
  induction l generalizing fid with
  | nil => simp [whoNames]
  | cons y rest ih =>
    have hle : ∀ x ∈ y::rest, fid.uname ≤ x.uname := fun x hx =>
      (Sorted.cmp_nonpos_iff _ _).mp (List.rel_of_pairwise_cons hs hx)
    obtain ⟨hlt,hp,hm⟩ := ih hs.of_cons
    have hbelow : ∀ u ∈ whoNames (some y) rest, fid.uname<u := fun u hu =>
      List.lt_of_le_of_lt (hle y (by simp)) (hlt u hu)
    have hrest : ∀ u, u≠y.uname → (∃ x ∈ rest, x.uname=u) → u ∈ whoNames (some y) rest :=
      fun u hu hx => (hm u).mpr ⟨hx,Ne.symm hu⟩
    rw [whoNames]
    by_cases hy : y.uname≠fid.uname
    · have hfy : fid.uname<y.uname := name_lt_of_le_of_ne (hle y (by simp)) (Ne.symm hy)
      simp only [hy,ne_eq,not_false_eq_true,if_true,List.singleton_append,List.pairwise_cons]
      refine ⟨fun u hu => (List.mem_cons.mp hu).elim (fun h => h ▸ hfy) (hbelow u),⟨hlt,hp⟩,fun u => ?_⟩
      rw [List.mem_cons,hm,exists_uname_cons]
      by_cases hu : u=y.uname
      · subst hu
        simp [Ne.symm hy]
      · have hne : (∃ x ∈ rest, x.uname=u) → fid.uname≠u := fun hx h =>
          List.lt_irrefl u (h ▸ hbelow u (hrest u hu hx))
        constructor
        · rintro (h|⟨hx,-⟩)
          · exact absurd h hu
          · exact ⟨Or.inr hx,hne hx⟩
        · rintro ⟨h|hx,-⟩
          · exact absurd h.symm hu
          · exact Or.inr ⟨hx,fun h => hu h.symm⟩
    · have hfy : y.uname=fid.uname := not_not.mp hy
      simp only [hy,if_false,List.nil_append]
      refine ⟨hbelow,hp,fun u => ?_⟩
      rw [hm,exists_uname_cons,hfy]
      constructor
      · exact fun ⟨h,hne⟩ => ⟨Or.inr h,hne⟩
      · rintro ⟨h|h,hne⟩
        · exact absurd h hne
        · exact ⟨h,hne⟩

/-- From the start of a chain sorted by name, the loop prints every name of the chain once, in
increasing order. -/
theorem whoNames_none_spec {l : List Fid} (hs : NamesSorted l) :
    (whoNames none l).Pairwise (· < ·) ∧ ∀ u, u ∈ whoNames none l ↔ ∃ x ∈ l, x.uname=u := by
  cases l with
  | nil => simp [whoNames]
  | cons fid rest =>
    obtain ⟨hlt,hp,hm⟩ := whoNames_spec hs
    rw [whoNames,List.pairwise_cons]
    refine ⟨⟨hlt,hp⟩,fun u => ?_⟩
    rw [List.mem_cons,hm,exists_uname_cons]
    by_cases hu : u=fid.uname
    · simp [hu]
    · simp [hu,Ne.symm hu]

/-- `who` prints, for every fid hash of a connection, the user of each listed fid once, in
increasing order of the names, and no other name. -/
theorem who_lists_users (fidhash : List (List Fid)) :
    ∃ names, who fidhash=some names ∧ names.Pairwise (· < ·) ∧
      ∀ u, u ∈ names ↔ ∃ bucket ∈ fidhash, ∃ fid ∈ bucket, listed fid ∧ fid.uname=u := by
  obtain ⟨r,hr,hp,hs⟩ := fidMergeSort_spec (whoChain fidhash)
  obtain ⟨hsorted,hm⟩ := whoNames_none_spec (sortedBy_iff_namesSorted.mp hs)
  refine ⟨whoNames none r,by rw [who,hr]; rfl,hsorted,fun u => ?_⟩
  rw [hm]
  constructor
  · rintro ⟨x,hx,rfl⟩
    obtain ⟨⟨bucket,hb,hxb⟩,hl⟩ := (mem_whoChain fidhash x).mp (hp.mem_iff.mp hx)
    exact ⟨bucket,hb,x,hxb,hl,rfl⟩
  · rintro ⟨bucket,hb,x,hxb,hl,rfl⟩
    exact ⟨x,hp.mem_iff.mpr ((mem_whoChain fidhash x).mpr ⟨⟨bucket,hb,hxb⟩,hl⟩),rfl⟩

end Fossil.Who
