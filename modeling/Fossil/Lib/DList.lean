import Mathlib

/-!
# Intrusive doubly linked lists

A list threaded through its own elements: each element carries a `next` and a `prev` link and
the list keeps a `head` and a `tail`. `pushBack` and `unlink` change the links in place, in the
way C and Go code writes them, and `chain` walks the list from its head.

`Linked d L` says that the links `d` spell the list `L`: from `head` the `next` links run
through `L` to nothing, and from `tail` the `prev` links run through `L` backwards. Each
direction is a one-way walk (`Seg`); the lemmas on walks (`seg_append`, `seg_frame`,
`seg_bypass`) are proved once and used for both directions. `pushBack` appends to the list,
`unlink` erases from it, and `chain` reads it back.
-/

namespace DList

variable {ι : Type*}

/-- The links of a list threaded through elements of type `ι`. -/
structure Links (ι : Type*) where
  next : ι → Option ι
  prev : ι → Option ι
  head : Option ι
  tail : Option ι

/-- Nothing linked. -/
def Links.empty : Links ι :=
  ⟨fun _ => none,fun _ => none,none,none⟩

/-- The elements met from `x` on by `succ`, at most `fuel` of them. -/
def chain (succ : ι → Option ι) : Nat → Option ι → List ι
  | 0, _ => []
  | _+1, none => []
  | fuel+1, some x => x :: chain succ fuel (succ x)

/-! ## One-way walks -/

/-- From `first`, `succ` runs through `L` and then reaches `stop`. -/
def Seg (succ : ι → Option ι) : Option ι → List ι → Option ι → Prop
  | first, [], stop => first=stop
  | first, x :: L, stop => first=some x ∧ Seg succ (succ x) L stop

variable {succ succ' : ι → Option ι} {f s : Option ι}

@[simp] theorem seg_nil : Seg succ f [] s ↔ f=s := Iff.rfl

@[simp] theorem seg_cons {x : ι} {L : List ι} : Seg succ f (x :: L) s ↔ f=some x ∧ Seg succ (succ x) L s :=
  Iff.rfl

theorem seg_append (A B : List ι) : Seg succ f (A ++ B) s ↔ ∃ m, Seg succ f A m ∧ Seg succ m B s := by
  induction A generalizing f with
  | nil => simp
  | cons a A ih => simp [ih,and_assoc]

/-- A walk only reads the links of its own elements. -/
theorem seg_frame {L : List ι} (h : Seg succ f L s) (hs : ∀ y ∈ L, succ' y=succ y) : Seg succ' f L s := by
  induction L generalizing f with
  | nil => exact h
  | cons a L ih =>
    obtain ⟨rfl,h⟩ := h
    refine ⟨rfl,?_⟩
    rw [hs a List.mem_cons_self]
    exact ih h fun y hy => hs y (List.mem_cons_of_mem a hy)

/-- A walk that ends in nothing starts at its list's first element. -/
theorem seg_first {L : List ι} (h : Seg succ f L none) : f=L.head? := by
  cases L with
  | nil => exact h
  | cons a L => exact h.1

/-- The walk from the last element. -/
theorem seg_concat {L : List ι} {t : ι} (h : Seg succ f (L ++ [t]) s) :
    Seg succ f L (some t) ∧ succ t=s := by
  rw [seg_append] at h
  obtain ⟨m,hL,rfl,ht⟩ := h
  exact ⟨hL,ht⟩

/-- Walking with enough fuel reads the list. -/
theorem chain_eq {L : List ι} {fuel : Nat} (h : Seg succ f L none) (hn : L.length ≤ fuel) :
    chain succ fuel f=L := by
  induction L generalizing f fuel with
  | nil =>
    cases fuel <;> simp_all [chain]
  | cons a L ih =>
    obtain ⟨rfl,h⟩ := h
    obtain ⟨fuel,rfl⟩ : ∃ k, fuel=k+1 := ⟨fuel-1,by simp at hn; omega⟩
    simp only [chain]
    rw [ih h (by simpa using hn)]

/-! ## Both directions -/

/-- The links spell `L`: forwards from `head` by `next`, backwards from `tail` by `prev`. -/
structure Linked (d : Links ι) (L : List ι) : Prop where
  nodup : L.Nodup
  fwd : Seg d.next d.head L none
  bwd : Seg d.prev d.tail L.reverse none

theorem linked_empty : Linked (Links.empty : Links ι) [] :=
  ⟨List.nodup_nil,rfl,rfl⟩

/-- The walk from the head reads the list. -/
theorem Linked.chain_eq {d : Links ι} {L : List ι} (h : Linked d L) {fuel : Nat} (hn : L.length ≤ fuel) :
    chain d.next fuel d.head=L :=
  DList.chain_eq h.fwd hn

variable [DecidableEq ι]

/-- Link `x` in after the tail. -/
def pushBack (d : Links ι) (x : ι) : Links ι :=
  let d := match d.tail with
    | some t => { d with prev := Function.update d.prev x (some t), next := Function.update d.next t (some x) }
    | none => { d with head := some x, prev := Function.update d.prev x none }
  { d with tail := some x, next := Function.update d.next x none }

/-- Take `x` out by linking its neighbours to each other; `x`'s own links are left as they
were. -/
def unlink (d : Links ι) (x : ι) : Links ι :=
  let d := match d.prev x with
    | some p => { d with next := Function.update d.next p (d.next x) }
    | none => { d with head := d.next x }
  match d.next x with
  | some n => { d with prev := Function.update d.prev n (d.prev x) }
  | none => { d with tail := d.prev x }

/-- Drop the element after `p` from a one-way walk: `p`'s successor, or the first element when
there is no `p`, becomes `n`. -/
def bypass (succ : ι → Option ι) (first : Option ι) (p n : Option ι) : (ι → Option ι) × Option ι :=
  match p with
  | some p => (Function.update succ p n,first)
  | none => (succ,n)

/-- Bypassing `x` from its predecessor (the last of `A`) to its successor erases `x`. -/
theorem seg_bypass {A B : List ι} {x : ι} (hA : Seg succ f A (some x)) (hB : Seg succ (succ x) B s)
    (hd : (A ++ x :: B).Nodup) :
    Seg (bypass succ f A.getLast? (succ x)).1 (bypass succ f A.getLast? (succ x)).2 (A ++ B) s := by
  rcases List.eq_nil_or_concat A with rfl | ⟨A,p,hAp⟩
  · exact hB
  · rw [List.concat_eq_append] at hAp
    subst hAp
    simp only [List.getLast?_concat,bypass]
    obtain ⟨hA,hp⟩ := seg_concat hA
    simp only [List.append_assoc,List.singleton_append,List.nodup_append,List.nodup_cons,List.mem_cons] at hd
    have hpA : p ∉ A := fun h => hd.2.2 p h p (.inl rfl) rfl
    have hpB : p ∉ B := fun h => hd.2.1.1 (.inr h)
    rw [List.append_assoc,seg_append]
    refine ⟨some p,seg_frame hA fun y hy => ?_,rfl,?_⟩
    · rw [Function.update_of_ne (fun he => hpA (by rw [← he]; exact hy))]
    · rw [Function.update_self]
      exact seg_frame hB fun y hy => Function.update_of_ne (fun he => hpB (by rw [← he]; exact hy)) _ _

/-- A fresh element in front of a walk. -/
theorem seg_push_front {L : List ι} {x : ι} (h : Seg succ f L s) (hx : x ∉ L) :
    Seg (Function.update succ x f) (some x) (x :: L) s := by
  refine ⟨rfl,?_⟩
  rw [Function.update_self]
  exact seg_frame h fun y hy => Function.update_of_ne (fun he => hx (by rw [← he]; exact hy)) _ _

/-- A fresh element after the last one of a walk. -/
theorem seg_push_back {L : List ι} {t x : ι} (h : Seg succ f (L ++ [t]) none) (hd : (L ++ [t]).Nodup)
    (hx : x ∉ L ++ [t]) :
    Seg (Function.update (Function.update succ t (some x)) x none) f (L ++ [t] ++ [x]) none := by
  obtain ⟨hL,-⟩ := seg_concat h
  have htx : t≠x := fun he => hx (by simp [he])
  have htL : ∀ y ∈ L, y≠x ∧ y≠t := fun y hy => ⟨fun he => hx (by simp [← he,hy]),by
    rintro rfl
    simp only [List.nodup_append,List.nodup_singleton,List.mem_singleton] at hd
    exact hd.2.2 y hy y rfl rfl⟩
  rw [seg_append]
  refine ⟨some x,?_,by simp⟩
  rw [seg_append]
  refine ⟨some t,seg_frame hL fun y hy => ?_,?_⟩
  · rw [Function.update_of_ne (htL y hy).1,Function.update_of_ne (htL y hy).2]
  · simp [htx]

theorem linked_pushBack {d : Links ι} {L : List ι} (h : Linked d L) {x : ι} (hx : x ∉ L) :
    Linked (pushBack d x) (L ++ [x]) := by
  have hnd : (L ++ [x]).Nodup :=
    List.nodup_append.mpr ⟨h.nodup,List.nodup_singleton x,fun a ha b hb he => hx (by simp at hb; rw [← hb,← he]; exact ha)⟩
  cases ht : d.tail with
  | none =>
    have hL : L=[] := by
      have := seg_first h.bwd
      rw [ht] at this
      exact List.reverse_eq_nil_iff.mp (List.head?_eq_none_iff.mp this.symm)
    subst hL
    exact ⟨List.nodup_singleton x,by simp [pushBack,ht],by simp [pushBack,ht]⟩
  | some t =>
    obtain ⟨L,rfl⟩ : ∃ L', L=L' ++ [t] := by
      have := seg_first h.bwd
      rw [ht,List.head?_reverse] at this
      exact List.getLast?_eq_some_iff.mp this.symm
    refine ⟨hnd,?_,?_⟩
    · simpa [pushBack,ht] using seg_push_back h.fwd h.nodup hx
    · simp only [pushBack,ht,List.reverse_append,List.reverse_singleton,List.singleton_append]
      have := seg_push_front h.bwd (fun hm => hx (List.mem_reverse.mp hm))
      rw [ht] at this
      simpa using this

/-- The fields of `unlink` are the two bypasses, as long as `x` is not its own predecessor. -/
theorem unlink_fwd (d : Links ι) (x : ι) :
    ((unlink d x).next,(unlink d x).head)=bypass d.next d.head (d.prev x) (d.next x) := by
  unfold unlink bypass
  cases d.prev x <;> dsimp only <;> split <;> rfl

theorem unlink_bwd (d : Links ι) {x : ι} (hx : d.prev x≠some x) :
    ((unlink d x).prev,(unlink d x).tail)=bypass d.prev d.tail (d.next x) (d.prev x) := by
  unfold unlink bypass
  cases hp : d.prev x with
  | none =>
    dsimp only
    split <;> simp_all
  | some p =>
    -- the first update does not touch `x`'s own `next`
    have hpx : p≠x := fun he => hx (by rw [hp,he])
    dsimp only
    rw [Function.update_of_ne hpx.symm]
    split <;> simp_all

theorem linked_unlink {d : Links ι} {L : List ι} (h : Linked d L) {x : ι} (hx : x ∈ L) :
    Linked (unlink d x) (L.erase x) := by
  obtain ⟨A,B,rfl⟩ := List.append_of_mem hx
  have hnd := h.nodup
  have hxA : x ∉ A := fun hA => by
    simp only [List.nodup_append,List.nodup_cons] at hnd
    exact hnd.2.2 x hA x List.mem_cons_self rfl
  rw [List.erase_append_right _ hxA,List.erase_cons_head]
  have hf := h.fwd
  rw [seg_append] at hf
  obtain ⟨m,hA,rfl,hB⟩ := hf
  have hb := h.bwd
  rw [List.reverse_append,List.reverse_cons,List.append_assoc,List.singleton_append,seg_append] at hb
  obtain ⟨m',hB',rfl,hA'⟩ := hb
  have hprev : d.prev x=A.getLast? := by rw [seg_first hA',List.head?_reverse]
  have hnext : d.next x=B.head? := seg_first hB
  have hnd' : (B.reverse ++ x :: A.reverse).Nodup := by
    have := List.nodup_reverse.mpr hnd
    simpa using this
  have hxx : d.prev x≠some x := by
    rw [hprev]
    intro he
    exact hxA (List.mem_of_getLast? he)
  refine ⟨List.Nodup.sublist (by simp) hnd,?_,?_⟩
  · have := seg_bypass hA hB hnd
    rw [← hprev,← unlink_fwd] at this
    exact this
  · have := seg_bypass hB' hA' hnd'
    rw [List.getLast?_reverse,← hnext,← unlink_bwd d hxx] at this
    simpa using this

end DList
