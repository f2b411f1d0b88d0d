import Mathlib

/-!
# Array heaps whose elements know their cell

A binary min-heap in the first `n` cells of an array, where every element records the cell it
sits in and an element outside the heap records a reserved position `bad`. A sift carries the
element being placed through a hole: each step copies a parent down (or the smaller child up)
into the hole, and the element itself is written once, where the hole stops. Deleting fills the
freed cell with the last element and sifts it up, or down when it did not move up.

Both sifts end in an ordered heap from a start with the right order around the hole (`UpOrder`,
`DownOrder`); `heapIns` and `heapDel` keep a heap valid and add or remove exactly their element;
the root has the least key.
-/

namespace Heap

variable {β α : Type*} [DecidableEq β] [LinearOrder α]

/-- Cell of the parent of cell `i > 0`, `(i-1)>>1`. -/
def parent (i : Nat) : Nat := (i-1)/2

theorem parent_lt {i : Nat} (h : i≠0) : parent i < i := by
  unfold parent
  omega

theorem lt_of_parent_eq {c i : Nat} (hc : 0 < c) (h : parent c=i) : i < c := by
  rw [← h]
  exact parent_lt (Nat.pos_iff_ne_zero.mp hc)

/-- The cells, the position each element records, and the number of elements. -/
structure Arr (β : Type*) where
  /-- Cells; the first `n` hold the heap. -/
  heap : Nat → β
  /-- Position recorded in each element. -/
  pos : β → Nat
  /-- Number of elements in the heap. -/
  n : Nat

/-- Write `x` into cell `i` and record `i` in `x`. -/
def place (h : Arr β) (i : Nat) (x : β) : Arr β :=
  { h with heap := Function.update h.heap i x, pos := Function.update h.pos x i }

@[simp] theorem place_n (h : Arr β) (i : Nat) (x : β) : (place h i x).n=h.n := rfl

@[simp] theorem place_heap_same (h : Arr β) (i : Nat) (x : β) : (place h i x).heap i=x := by
  simp [place]

theorem place_heap_other (h : Arr β) {i j : Nat} (x : β) (hj : j≠i) :
    (place h i x).heap j=h.heap j := by
  simp [place,hj]

@[simp] theorem place_pos_same (h : Arr β) (i : Nat) (x : β) : (place h i x).pos x=i := by
  simp [place]

theorem place_pos_other (h : Arr β) (i : Nat) {x y : β} (hy : y≠x) : (place h i x).pos y=h.pos y := by
  simp [place,hy]

/-- `upHeap`: carry `b` up from the hole `i` past every parent with a larger key. Returns the
array and the cell `b` ends in. -/
def siftUp (key : β → α) (h : Arr β) (i : Nat) (b : β) : Arr β × Nat :=
  if i=0 then (place h i b,i)
  else if key (h.heap (parent i)) ≤ key b then (place h i b,i)
  else siftUp key (place h i (h.heap (parent i))) (parent i) b
termination_by i
decreasing_by exact parent_lt (by assumption)

/-- The child `k` or its sibling `k+1`, whichever has the smaller key; `k` on a tie or when
`k+1` is past the heap. -/
def smaller (key : β → α) (h : Arr β) (k : Nat) : Nat :=
  if k+1 < h.n ∧ key (h.heap (k+1)) < key (h.heap k) then k+1 else k

omit [DecidableEq β] in
theorem smaller_ge (key : β → α) (h : Arr β) (k : Nat) : k ≤ smaller key h k := by
  unfold smaller
  split <;> omega

omit [DecidableEq β] in
theorem smaller_lt (key : β → α) (h : Arr β) {k : Nat} (hk : k < h.n) : smaller key h k < h.n := by
  unfold smaller
  split
  · omega
  · exact hk

/-- `downHeap`: carry `b` down from the hole `i` past every smaller child with a smaller key. -/
def siftDown (key : β → α) (h : Arr β) (i : Nat) (b : β) : Arr β × Nat :=
  if h.n ≤ 2*i+1 then (place h i b,i)
  else if key b ≤ key (h.heap (smaller key h (2*i+1))) then (place h i b,i)
  else siftDown key (place h i (h.heap (smaller key h (2*i+1)))) (smaller key h (2*i+1)) b
termination_by h.n-i
decreasing_by
  have h1 := smaller_ge key h (2*i+1)
  have h2 := smaller_lt key h (show 2*i+1 < h.n by omega)
  simp only [place_n]
  omega

/-- `heapDel`: an element recording `bad` is not in the heap; otherwise the last element fills
its cell and moves up, or down when it did not move up. -/
def heapDel (key : β → α) (bad : Nat) (h : Arr β) (b : β) : Arr β :=
  if h.pos b=bad then h
  else
    let si := h.pos b
    let h' : Arr β := { h with pos := Function.update h.pos b bad, n := h.n-1 }
    if si=h'.n then h'
    else
      let last := h'.heap h'.n
      let up := siftUp key h' si last
      if up.2=si then (siftDown key up.1 si last).1 else up.1

/-- `heapIns`: the element must record `bad` (an assertion, `none` when it fails); it moves up
from the first free cell and the heap grows by one. -/
def heapIns (key : β → α) (bad : Nat) (h : Arr β) (b : β) : Option (Arr β) :=
  if h.pos b≠bad then none
  else some { (siftUp key h h.n b).1 with n := h.n+1 }

/-! ## Validity -/

/-- No element has a smaller key than its parent. -/
def Ordered (key : β → α) (h : Arr β) : Prop :=
  ∀ i, 0 < i → i < h.n → key (h.heap (parent i)) ≤ key (h.heap i)

/-- A valid heap: ordered, every cell's element records that cell, and every element that
records a position other than `bad` sits in that cell. -/
structure Valid (key : β → α) (bad : Nat) (h : Arr β) : Prop where
  ordered : Ordered key h
  indexed : ∀ i, i < h.n → h.pos (h.heap i)=i
  placed : ∀ x, h.pos x≠bad → h.pos x < h.n ∧ h.heap (h.pos x)=x
  n_le : h.n ≤ bad

omit [DecidableEq β] in
theorem Valid.mem_iff {key : β → α} {bad : Nat} {h : Arr β} (hv : Valid key bad h) (x : β) :
    h.pos x≠bad ↔ ∃ i, i < h.n ∧ h.heap i=x := by
  constructor
  · intro hx
    exact ⟨h.pos x,hv.placed x hx⟩
  · rintro ⟨i,hi,rfl⟩
    rw [hv.indexed i hi]
    exact Nat.ne_of_lt (Nat.lt_of_lt_of_le hi hv.n_le)

/-! ## Positions during a sift -/

/-- Positions while `b` is carried through `hole`: every other cell's element records its cell
and is not `b`, and every element but `b` that records a position sits there, off the hole. -/
structure Sifting (bad : Nat) (h : Arr β) (hole : Nat) (b : β) : Prop where
  hole_lt : hole < h.n
  indexed : ∀ j, j < h.n → j≠hole → h.pos (h.heap j)=j ∧ h.heap j≠b
  placed : ∀ x, x≠b → h.pos x≠bad → h.pos x < h.n ∧ h.pos x≠hole ∧ h.heap (h.pos x)=x
  n_le : h.n ≤ bad

/-- Copying the element of cell `p` into the hole moves the hole to `p`. -/
theorem Sifting.move {bad : Nat} {h : Arr β} {hole p : Nat} {b : β} (s : Sifting bad h hole b)
    (hp : p < h.n) (hph : p≠hole) : Sifting bad (place h hole (h.heap p)) p b := by
  obtain ⟨hpp,hpb⟩ := s.indexed p hp hph
  refine ⟨by simpa using hp,?_,?_,by simpa using s.n_le⟩
  · intro j hj hjp
    simp only [place_n] at hj
    by_cases hjh : j=hole
    · subst hjh
      exact ⟨by simp,by simpa using hpb⟩
    · obtain ⟨hjj,hjb⟩ := s.indexed j hj hjh
      have hne : h.heap j≠h.heap p := fun he => hjp (by rw [← hjj,he,hpp])
      rw [place_heap_other _ _ hjh,place_pos_other _ _ hne]
      exact ⟨hjj,hjb⟩
  · intro x hxb hx
    by_cases hxp : x=h.heap p
    · subst hxp
      exact ⟨by simpa using s.hole_lt,by simpa using Ne.symm hph,by simp⟩
    · rw [place_pos_other _ _ hxp] at hx ⊢
      obtain ⟨hlt,hne,hat⟩ := s.placed x hxb hx
      have hxp' : h.pos x≠p := fun he => hxp (by rw [← hat,he])
      exact ⟨by simpa using hlt,hxp',by rw [place_heap_other _ _ hne]; exact hat⟩

/-- Moving the hole changes which elements record `bad` for none but `b`. -/
theorem Sifting.move_bad {bad : Nat} {h : Arr β} {hole p : Nat} {b : β} (s : Sifting bad h hole b)
    (hp : p < h.n) (hph : p≠hole) (x : β) :
    (place h hole (h.heap p)).pos x=bad ↔ h.pos x=bad := by
  by_cases hxp : x=h.heap p
  · subst hxp
    have hpp := (s.indexed p hp hph).1
    have := s.hole_lt
    have := s.n_le
    rw [place_pos_same,hpp]
    constructor <;> intro he <;> omega
  · rw [place_pos_other _ _ hxp]

/-- Writing `b` into the hole gives every cell its element. -/
theorem Sifting.finish {bad : Nat} {h : Arr β} {hole : Nat} {b : β} (s : Sifting bad h hole b) :
    (∀ i, i < h.n → (place h hole b).pos ((place h hole b).heap i)=i) ∧
    ∀ x, (place h hole b).pos x≠bad →
      (place h hole b).pos x < h.n ∧ (place h hole b).heap ((place h hole b).pos x)=x := by
  constructor
  · intro i hi
    by_cases hih : i=hole
    · subst hih
      simp
    · obtain ⟨hii,hib⟩ := s.indexed i hi hih
      rw [place_heap_other _ _ hih,place_pos_other _ _ hib]
      exact hii
  · intro x hx
    by_cases hxb : x=b
    · subst hxb
      simpa using s.hole_lt
    · rw [place_pos_other _ _ hxb] at hx ⊢
      obtain ⟨hlt,hne,hat⟩ := s.placed x hxb hx
      exact ⟨hlt,by rw [place_heap_other _ _ hne]; exact hat⟩

theorem Sifting.finish_bad {bad : Nat} {h : Arr β} {hole : Nat} {b : β} (s : Sifting bad h hole b) :
    (place h hole b).pos b≠bad := by
  have := s.hole_lt
  have := s.n_le
  simp only [place_pos_same]
  omega

/-! ## Order around the hole -/

/-- Every parent and child pair off the hole is in order. -/
def OrderedExcept (key : β → α) (h : Arr β) (hole : Nat) : Prop :=
  ∀ i, 0 < i → i < h.n → i≠hole → parent i≠hole → key (h.heap (parent i)) ≤ key (h.heap i)

/-- What `siftUp` needs: the pairs off the hole are in order, the hole's children are at or
above its parent, and `b` is at or below them. -/
structure UpOrder (key : β → α) (h : Arr β) (hole : Nat) (b : β) : Prop where
  except : OrderedExcept key h hole
  grand : hole≠0 → ∀ c, 0 < c → parent c=hole → c < h.n → key (h.heap (parent hole)) ≤ key (h.heap c)
  below : ∀ c, 0 < c → parent c=hole → c < h.n → key b ≤ key (h.heap c)

/-- What `siftDown` needs: the pairs off the hole are in order, and `b` and the hole's children
are at or above the hole's parent. -/
structure DownOrder (key : β → α) (h : Arr β) (hole : Nat) (b : β) : Prop where
  except : OrderedExcept key h hole
  above : hole≠0 → key (h.heap (parent hole)) ≤ key b
  grand : hole≠0 → ∀ c, 0 < c → parent c=hole → c < h.n → key (h.heap (parent hole)) ≤ key (h.heap c)

theorem UpOrder.move {key : β → α} {h : Arr β} {hole : Nat} {b : β} (o : UpOrder key h hole b)
    (hne : hole≠0) (hlt : hole < h.n) (hb : key b < key (h.heap (parent hole))) :
    UpOrder key (place h hole (h.heap (parent hole))) (parent hole) b := by
  have hq : parent hole < hole := parent_lt hne
  have hq_up : parent hole≠0 → key (h.heap (parent (parent hole))) ≤ key (h.heap (parent hole)) :=
    fun hq0 => o.except (parent hole) (by omega) (by omega) (by omega) (by have := parent_lt hq0; omega)
  -- a child of the hole's parent other than the hole is at or above that parent
  have hsib : ∀ c, 0 < c → parent c=parent hole → c < h.n → c≠hole →
      key (h.heap (parent hole)) ≤ key (h.heap c) := by
    intro c hc0 hcp hcl hch
    have := o.except c hc0 hcl hch (by rw [hcp]; omega)
    rwa [hcp] at this
  refine ⟨?_,?_,?_⟩
  · intro i hi0 hi hiq hpi
    simp only [place_n] at hi
    by_cases hih : i=hole
    · exact absurd (congrArg parent hih) hpi
    · rw [place_heap_other _ _ hih]
      by_cases hph : parent i=hole
      · rw [hph,place_heap_same]
        exact o.grand hne i hi0 hph hi
      · rw [place_heap_other _ _ hph]
        exact o.except i hi0 hi hih hph
  · intro hq0 c hc0 hcp hcl
    simp only [place_n] at hcl
    have hpq : parent (parent hole)≠hole := by have := parent_lt hq0; omega
    rw [place_heap_other _ _ hpq]
    by_cases hch : c=hole
    · rw [hch,place_heap_same]
      exact hq_up hq0
    · rw [place_heap_other _ _ hch]
      exact (hq_up hq0).trans (hsib c hc0 hcp hcl hch)
  · intro c hc0 hcp hcl
    simp only [place_n] at hcl
    by_cases hch : c=hole
    · rw [hch,place_heap_same]
      exact hb.le
    · rw [place_heap_other _ _ hch]
      exact hb.le.trans (hsib c hc0 hcp hcl hch)

/-- Placing `b` in the hole orders the heap when the pairs off the hole are in order and `b` sits
between the hole's parent and its children. -/
theorem ordered_place {key : β → α} {h : Arr β} {hole : Nat} {b : β} (hex : OrderedExcept key h hole)
    (hup : hole≠0 → key (h.heap (parent hole)) ≤ key b)
    (hdown : ∀ c, 0 < c → parent c=hole → c < h.n → key b ≤ key (h.heap c)) : Ordered key (place h hole b) := by
  intro i hi0 hi
  simp only [place_n] at hi
  by_cases hih : i=hole
  · subst hih
    have hp : parent i≠i := by have := parent_lt (show i≠0 by omega); omega
    rw [place_heap_same,place_heap_other _ _ hp]
    exact hup (by omega)
  · rw [place_heap_other _ _ hih]
    by_cases hph : parent i=hole
    · rw [hph,place_heap_same]
      exact hdown i hi0 hph hi
    · rw [place_heap_other _ _ hph]
      exact hex i hi0 hi hih hph

theorem UpOrder.finish {key : β → α} {h : Arr β} {hole : Nat} {b : β} (o : UpOrder key h hole b)
    (hstop : hole≠0 → key (h.heap (parent hole)) ≤ key b) : Ordered key (place h hole b) :=
  ordered_place o.except hstop o.below

/-- The children of `i` are the cells `2i+1` and `2i+2`. -/
theorem parent_eq_iff {c i : Nat} (hc : 0 < c) : parent c=i ↔ c=2*i+1 ∨ c=2*i+2 := by
  unfold parent
  omega

omit [DecidableEq β] in
theorem smaller_le_child (key : β → α) (h : Arr β) {i c : Nat} (hc0 : 0 < c) (hcp : parent c=i)
    (hcl : c < h.n) : key (h.heap (smaller key h (2*i+1))) ≤ key (h.heap c) := by
  rcases (parent_eq_iff hc0).mp hcp with rfl | rfl
  · unfold smaller
    split
    · rename_i hs
      exact hs.2.le
    · exact le_rfl
  · unfold smaller
    split
    · exact le_rfl
    · rename_i hs
      exact not_lt.mp fun hlt => hs ⟨hcl,hlt⟩

omit [DecidableEq β] in
theorem parent_smaller (key : β → α) (h : Arr β) (i : Nat) : parent (smaller key h (2*i+1))=i := by
  have h1 := smaller_ge key h (2*i+1)
  have h2 : smaller key h (2*i+1) ≤ 2*i+2 := by
    unfold smaller
    split <;> omega
  unfold parent
  omega

theorem DownOrder.move {key : β → α} {h : Arr β} {hole : Nat} {b : β} (o : DownOrder key h hole b)
    (hk : 2*hole+1 < h.n) (hb : key (h.heap (smaller key h (2*hole+1))) < key b) :
    DownOrder key (place h hole (h.heap (smaller key h (2*hole+1)))) (smaller key h (2*hole+1)) b := by
  set k := smaller key h (2*hole+1) with hkdef
  have hkp : parent k=hole := parent_smaller key h hole
  have hk0 : 0 < k := by have := smaller_ge key h (2*hole+1); omega
  have hkl : k < h.n := smaller_lt key h hk
  have hkh : k≠hole := by have := smaller_ge key h (2*hole+1); omega
  -- the smaller child is at or below every child of the hole
  have hmin : ∀ c, 0 < c → parent c=hole → c < h.n → key (h.heap k) ≤ key (h.heap c) :=
    fun c hc0 hcp hcl => smaller_le_child key h hc0 hcp hcl
  refine ⟨?_,?_,?_⟩
  · intro i hi0 hi hik hpi
    simp only [place_n] at hi
    by_cases hih : i=hole
    · subst hih
      by_cases hq : i=0
      · omega
      · have hqi : parent i≠i := by have := parent_lt hq; omega
        rw [place_heap_same,place_heap_other _ _ hqi]
        exact o.grand hq k hk0 hkp hkl
    · rw [place_heap_other _ _ hih]
      by_cases hph : parent i=hole
      · rw [hph,place_heap_same]
        exact hmin i hi0 hph hi
      · rw [place_heap_other _ _ hph]
        exact o.except i hi0 hi hih hph
  · intro _
    rw [hkp,place_heap_same]
    exact hb.le
  · intro _ c hc0 hcp hcl
    simp only [place_n] at hcl
    have hch : c≠hole := by
      have := lt_of_parent_eq hk0 hkp
      have := lt_of_parent_eq hc0 hcp
      omega
    rw [hkp,place_heap_same,place_heap_other _ _ hch]
    have := o.except c hc0 hcl hch (by rw [hcp]; exact hkh)
    rwa [hcp] at this

theorem DownOrder.finish {key : β → α} {h : Arr β} {hole : Nat} {b : β} (o : DownOrder key h hole b)
    (hstop : 2*hole+1 < h.n → key b ≤ key (h.heap (smaller key h (2*hole+1)))) :
    Ordered key (place h hole b) := by
  refine ordered_place o.except o.above fun c hc0 hcp hcl => ?_
  have hk : 2*hole+1 < h.n := by have := (parent_eq_iff hc0).mp hcp; omega
  exact (hstop hk).trans (smaller_le_child key h hc0 hcp hcl)

/-! ## The sifts -/

/-- What a sift leaves: a valid heap of the same size in which `b` has a cell and every other
element records `bad` exactly when it did before. -/
structure SiftResult (key : β → α) (bad : Nat) (h r : Arr β) (b : β) : Prop where
  valid : Valid key bad r
  n_eq : r.n=h.n
  mem : r.pos b≠bad
  bad_iff : ∀ x, x≠b → (r.pos x=bad ↔ h.pos x=bad)

omit [DecidableEq β] in
theorem SiftResult.trans {key : β → α} {bad : Nat} {h h' r : Arr β} {b : β}
    (hr : SiftResult key bad h' r b) (hn : h'.n=h.n) (hb : ∀ x, x≠b → (h'.pos x=bad ↔ h.pos x=bad)) :
    SiftResult key bad h r b :=
  ⟨hr.valid,hr.n_eq.trans hn,hr.mem,fun x hx => (hr.bad_iff x hx).trans (hb x hx)⟩

theorem Sifting.result {key : β → α} {bad : Nat} {h : Arr β} {hole : Nat} {b : β}
    (s : Sifting bad h hole b) (ho : Ordered key (place h hole b)) :
    SiftResult key bad h (place h hole b) b := by
  obtain ⟨hi,hp⟩ := s.finish
  refine ⟨⟨ho,by simpa using hi,by simpa using hp,by simpa using s.n_le⟩,rfl,s.finish_bad,?_⟩
  intro x hx
  rw [place_pos_other _ _ hx]

theorem siftUp_zero (key : β → α) (h : Arr β) (b : β) : siftUp key h 0 b=(place h 0 b,0) := by
  rw [siftUp,if_pos rfl]

/-- `siftUp` stops at once when the hole is the root or its parent is not above `b`. -/
theorem siftUp_stop (key : β → α) (h : Arr β) {i : Nat} (b : β)
    (hs : i=0 ∨ key (h.heap (parent i)) ≤ key b) : siftUp key h i b=(place h i b,i) := by
  rw [siftUp]
  by_cases hi : i=0
  · rw [if_pos hi]
  · rw [if_neg hi,if_pos (hs.resolve_left hi)]

theorem siftUp_up (key : β → α) (h : Arr β) {i : Nat} (b : β) (hi : i≠0)
    (hlt : ¬key (h.heap (parent i)) ≤ key b) :
    siftUp key h i b=siftUp key (place h i (h.heap (parent i))) (parent i) b := by
  rw [siftUp,if_neg hi,if_neg hlt]

theorem siftUp_spec (key : β → α) (bad : Nat) (h : Arr β) (hole : Nat) (b : β)
    (s : Sifting bad h hole b) (o : UpOrder key h hole b) :
    SiftResult key bad h (siftUp key h hole b).1 b := by
  induction h,hole using siftUp.induct key b with
  | case1 h =>
    rw [siftUp_zero]
    exact s.result (o.finish fun h0 => absurd rfl h0)
  | case2 h hole hi hle =>
    rw [siftUp_stop key h b (Or.inr hle)]
    exact s.result (o.finish fun _ => hle)
  | case3 h hole hi hlt ih =>
    rw [siftUp_up key h b hi hlt]
    have hq := parent_lt hi
    have hqh : parent hole≠hole := by omega
    have hql : parent hole < h.n := by have := s.hole_lt; omega
    exact (ih (s.move hql hqh) (o.move hi s.hole_lt (not_le.mp hlt))).trans (by simp)
      (fun x _ => s.move_bad hql hqh x)

theorem siftDown_spec (key : β → α) (bad : Nat) (h : Arr β) (hole : Nat) (b : β)
    (s : Sifting bad h hole b) (o : DownOrder key h hole b) :
    SiftResult key bad h (siftDown key h hole b).1 b := by
  induction h,hole using siftDown.induct key b with
  | case1 h hole hk =>
    rw [siftDown,if_pos hk]
    exact s.result (o.finish fun hk' => absurd hk' (by omega))
  | case2 h hole hk hle =>
    rw [siftDown,if_neg hk,if_pos hle]
    exact s.result (o.finish fun _ => hle)
  | case3 h hole hk hlt ih =>
    rw [siftDown,if_neg hk,if_neg hlt]
    have hk' : 2*hole+1 < h.n := by omega
    have hkl := smaller_lt key h hk'
    have hkh : smaller key h (2*hole+1)≠hole := by have := smaller_ge key h (2*hole+1); omega
    exact (ih (s.move hkl hkh) (o.move hk' (not_le.mp hlt))).trans (by simp)
      (fun x _ => s.move_bad hkl hkh x)

theorem siftUp_snd_le (key : β → α) (h : Arr β) (i : Nat) (b : β) : (siftUp key h i b).2 ≤ i := by
  induction h,i using siftUp.induct key b with
  | case1 h =>
    simp [siftUp_zero]
  | case2 h i hi hle =>
    simp [siftUp_stop key h b (Or.inr hle)]
  | case3 h i hi hlt ih =>
    rw [siftUp_up key h b hi hlt]
    exact Nat.le_trans ih (Nat.le_of_lt (parent_lt hi))

/-- `siftUp` moves `b` when its key is below the hole's parent's. -/
theorem siftUp_moves (key : β → α) (h : Arr β) {i : Nat} (b : β) (hi : i≠0)
    (hlt : key b < key (h.heap (parent i))) : (siftUp key h i b).2≠i := by
  rw [siftUp_up key h b hi (not_le.mpr hlt)]
  have := siftUp_snd_le key (place h i (h.heap (parent i))) (parent i) b
  have := parent_lt hi
  omega

theorem siftUp_fst_n (key : β → α) (h : Arr β) (i : Nat) (b : β) : (siftUp key h i b).1.n=h.n := by
  induction h,i using siftUp.induct key b with
  | case1 h =>
    rw [siftUp_zero]
    rfl
  | case2 h i hi hle =>
    rw [siftUp_stop key h b (Or.inr hle)]
    rfl
  | case3 h i hi hlt ih =>
    rw [siftUp_up key h b hi hlt]
    exact ih

/-- `siftUp` reads no cell at or past the hole, so it does not depend on the heap's size. -/
theorem siftUp_n (key : β → α) (h : Arr β) (i : Nat) (b : β) (m : Nat) :
    siftUp key { h with n := m } i b=({ (siftUp key h i b).1 with n := m },(siftUp key h i b).2) := by
  induction h,i using siftUp.induct key b with
  | case1 h =>
    rw [siftUp_zero,siftUp_zero]
    rfl
  | case2 h i hi hle =>
    rw [siftUp_stop key h b (Or.inr hle),siftUp_stop key { h with n := m } b (Or.inr hle)]
    rfl
  | case3 h i hi hlt ih =>
    rw [siftUp_up key h b hi hlt,siftUp_up key { h with n := m } b hi hlt]
    exact ih

/-! ## Insertion and deletion -/

theorem Sifting.place_hole {bad : Nat} {h : Arr β} {hole : Nat} {b : β} (s : Sifting bad h hole b) :
    Sifting bad (place h hole b) hole b := by
  refine ⟨by simpa using s.hole_lt,?_,?_,by simpa using s.n_le⟩
  · intro j hj hjh
    obtain ⟨hjj,hjb⟩ := s.indexed j hj hjh
    rw [place_heap_other _ _ hjh,place_pos_other _ _ hjb]
    exact ⟨hjj,hjb⟩
  · intro x hxb hx
    rw [place_pos_other _ _ hxb] at hx ⊢
    obtain ⟨hlt,hne,hat⟩ := s.placed x hxb hx
    exact ⟨hlt,hne,by rw [place_heap_other _ _ hne]; exact hat⟩

omit [DecidableEq β] in
/-- The start of an insertion: the hole is the first free cell of the grown heap. -/
theorem sifting_ins {bad : Nat} {h : Arr β} {b : β} (hi : ∀ i, i < h.n → h.pos (h.heap i)=i)
    (hp : ∀ x, h.pos x≠bad → h.pos x < h.n ∧ h.heap (h.pos x)=x) (hb : h.pos b=bad) (hn : h.n < bad) :
    Sifting bad { h with n := h.n+1 } h.n b := by
  refine ⟨by simp,?_,?_,(by show h.n+1 ≤ bad; omega)⟩
  · intro j hj hjn
    have hj' : j < h.n := by simp at hj; omega
    refine ⟨hi j hj',fun he => ?_⟩
    have := hi j hj'
    rw [he,hb] at this
    omega
  · intro x _ hx
    obtain ⟨hlt,hat⟩ := hp x hx
    exact ⟨Nat.lt_succ_of_lt hlt,Nat.ne_of_lt hlt,hat⟩

theorem heapIns_eq (key : β → α) (bad : Nat) {h : Arr β} {b : β} (hb : h.pos b=bad) :
    heapIns key bad h b=some (siftUp key { h with n := h.n+1 } h.n b).1 := by
  rw [heapIns,if_neg (not_not.mpr hb),siftUp_n key h h.n b (h.n+1)]

/-- `siftUp` leaves `b` in a cell of the heap, whatever the keys. -/
theorem siftUp_pos (key : β → α) {bad : Nat} (h : Arr β) (hole : Nat) (b : β)
    (s : Sifting bad h hole b) :
    (siftUp key h hole b).1.pos b < h.n ∧ (siftUp key h hole b).1.heap ((siftUp key h hole b).1.pos b)=b := by
  induction h,hole using siftUp.induct key b with
  | case1 h =>
    rw [siftUp_zero]
    simpa using s.hole_lt
  | case2 h hole hi hle =>
    rw [siftUp_stop key h b (Or.inr hle)]
    simpa using s.hole_lt
  | case3 h hole hi hlt ih =>
    rw [siftUp_up key h b hi hlt]
    have hq := parent_lt hi
    simpa using ih (s.move (by have := s.hole_lt; omega) (by omega))

/-- An insertion that passes its assertion puts the element in a cell of the grown heap,
whatever the keys. -/
theorem heapIns_mem (key : β → α) {bad : Nat} {h : Arr β} {b : β}
    (hi : ∀ i, i < h.n → h.pos (h.heap i)=i) (hp : ∀ x, h.pos x≠bad → h.pos x < h.n ∧ h.heap (h.pos x)=x)
    (hb : h.pos b=bad) (hn : h.n < bad) :
    ∃ r, heapIns key bad h b=some r ∧ r.pos b < r.n ∧ r.heap (r.pos b)=b ∧ r.n=h.n+1 := by
  have hr := siftUp_pos key _ _ b (sifting_ins hi hp hb hn)
  have hrn := siftUp_fst_n key { h with n := h.n+1 } h.n b
  refine ⟨_,heapIns_eq key bad hb,by rw [hrn]; exact hr.1,hr.2,hrn⟩

/-- Inserting an element outside the heap, with room below `bad`, gives a valid heap one cell
larger that holds the element. -/
theorem heapIns_spec (key : β → α) (bad : Nat) {h : Arr β} {b : β} (hv : Valid key bad h)
    (hb : h.pos b=bad) (hn : h.n < bad) :
    ∃ r, heapIns key bad h b=some r ∧ SiftResult key bad { h with n := h.n+1 } r b := by
  refine ⟨_,heapIns_eq key bad hb,siftUp_spec key bad _ _ b (sifting_ins hv.indexed hv.placed hb hn) ?_⟩
  refine ⟨?_,?_,?_⟩
  · intro i hi0 hi hin _
    exact hv.ordered i hi0 (by simp at hi; omega)
  · intro _ c hc0 hcp hcl
    have := lt_of_parent_eq hc0 hcp
    simp at hcl
    omega
  · intro c hc0 hcp hcl
    have := lt_of_parent_eq hc0 hcp
    simp at hcl
    omega

/-- What a deletion leaves: a valid heap without `b`, one smaller when `b` was in it, in which
every other element records `bad` exactly when it did before. -/
structure DelResult (key : β → α) (bad : Nat) (h r : Arr β) (b : β) : Prop where
  valid : Valid key bad r
  gone : r.pos b=bad
  bad_iff : ∀ x, x≠b → (r.pos x=bad ↔ h.pos x=bad)
  n_eq : r.n=if h.pos b=bad then h.n else h.n-1

/-- The heap with `b` taken out of its cell's record and the last cell dropped. -/
theorem heapDel_eq (key : β → α) (bad : Nat) (h : Arr β) {b : β} (hb : h.pos b≠bad) :
    heapDel key bad h b=
      let h' : Arr β := { h with pos := Function.update h.pos b bad, n := h.n-1 }
      if h.pos b=h'.n then h'
      else if (siftUp key h' (h.pos b) (h.heap h'.n)).2=h.pos b then
        (siftDown key (siftUp key h' (h.pos b) (h.heap h'.n)).1 (h.pos b) (h.heap h'.n)).1
      else (siftUp key h' (h.pos b) (h.heap h'.n)).1 := by
  rw [heapDel,if_neg hb]

/-- Deleting the element in the last cell only drops that cell. -/
theorem heapDel_last (key : β → α) (bad : Nat) {h : Arr β} {b : β} (hb : h.pos b≠bad)
    (hl : h.pos b=h.n-1) :
    heapDel key bad h b={ h with pos := Function.update h.pos b bad, n := h.n-1 } := by
  rw [heapDel_eq key bad h hb]
  exact if_pos hl

theorem heapDel_spec (key : β → α) (bad : Nat) {h : Arr β} (hv : Valid key bad h) (b : β) :
    DelResult key bad h (heapDel key bad h b) b := by
  by_cases hb : h.pos b=bad
  · rw [heapDel,if_pos hb]
    exact ⟨hv,hb,fun _ _ => Iff.rfl,by rw [if_pos hb]⟩
  obtain ⟨hsi,hatb⟩ := hv.placed b hb
  set si := h.pos b with hsidef
  set h' : Arr β := { h with pos := Function.update h.pos b bad, n := h.n-1 } with hh'
  have hpos' : ∀ x, x≠b → h'.pos x=h.pos x := fun x hx => by simp [hh',hx]
  have hposb : h'.pos b=bad := by simp [hh']
  have hother : ∀ j, j < h.n → j≠si → h.heap j≠b := fun j hj hjs he => hjs (by
    have := hv.indexed j hj
    rw [he] at this
    exact this.symm)
  rw [heapDel_eq key bad h hb]
  by_cases hlast : si=h'.n
  · rw [if_pos hlast]
    refine ⟨⟨?_,?_,?_,?_⟩,hposb,fun x hx => by rw [hpos' x hx],by rw [if_neg hb]⟩
    · intro i hi0 hi
      exact hv.ordered i hi0 (by simp at hi; omega)
    · intro i hi
      have hi' : i < h.n := by simp at hi; omega
      rw [show h'.heap i=h.heap i from rfl,hpos' _ (hother i hi' (by simp [hh'] at hlast hi; omega))]
      exact hv.indexed i hi'
    · intro x hx
      have hxb : x≠b := fun he => hx (by rw [he,hposb])
      rw [hpos' x hxb] at hx ⊢
      obtain ⟨hlt,hat⟩ := hv.placed x hx
      have hne : h.pos x≠si := fun he => hxb (by rw [← hat,he,hatb])
      exact ⟨by simp [hh'] at hlast ⊢; omega,hat⟩
    · simp
      have := hv.n_le
      omega
  · rw [if_neg hlast]
    have hn' : h'.n=h.n-1 := rfl
    have hn1 : si < h'.n := by omega
    set last := h.heap h'.n with hlastdef
    have hlastpos : h.pos last=h'.n := hv.indexed _ (by omega)
    have hlastb : last≠b := fun he => hlast (by rw [← hlastpos,he])
    have s : Sifting bad h' si last := by
      refine ⟨hn1,?_,?_,by have := hv.n_le; simp only [hn']; omega⟩
      · intro j hj hjs
        have hj' : j < h.n := by omega
        refine ⟨?_,fun he => ?_⟩
        · rw [show h'.heap j=h.heap j from rfl,hpos' _ (hother j hj' hjs)]
          exact hv.indexed j hj'
        · have := hv.indexed j hj'
          rw [show h'.heap j=h.heap j from rfl,he,hlastpos] at this
          omega
      · intro x hxl hx
        have hxb : x≠b := fun he => by rw [he,hposb] at hx; exact hx rfl
        rw [hpos' x hxb] at hx ⊢
        obtain ⟨hlt,hat⟩ := hv.placed x hx
        have h1 : h.pos x≠h'.n := fun he => hxl (by rw [← hat,he])
        have h2 : h.pos x≠si := fun he => hxb (by rw [← hat,he,hatb])
        exact ⟨by omega,h2,hat⟩
    have hexc : OrderedExcept key h' si := fun i hi0 hi _ _ => hv.ordered i hi0 (by omega)
    have hgrand : si≠0 → ∀ c, 0 < c → parent c=si → c < h'.n →
        key (h'.heap (parent si)) ≤ key (h'.heap c) := by
      intro hs0 c hc0 hcp hcl
      have h1 := hv.ordered si (Nat.pos_of_ne_zero hs0) hsi
      have h2 := hv.ordered c hc0 (by omega)
      rw [hcp] at h2
      exact h1.trans h2
    have fin : ∀ r, SiftResult key bad h' r last → DelResult key bad h r b := by
      intro r hr
      refine ⟨hr.valid,by rw [hr.bad_iff b (Ne.symm hlastb)]; exact hposb,?_,?_⟩
      · intro x hx
        by_cases hxl : x=last
        · have hlb : h.pos last≠bad := by have := hv.n_le; omega
          rw [hxl]
          exact ⟨fun h1 => absurd h1 hr.mem,fun h1 => absurd h1 hlb⟩
        · rw [hr.bad_iff x hxl,hpos' x hx]
      · rw [hr.n_eq,if_neg hb]
    by_cases hup : si=0 ∨ key (h'.heap (parent si)) ≤ key last
    · rw [siftUp_stop key h' last hup,if_pos rfl]
      apply fin
      refine (siftDown_spec key bad _ si last s.place_hole ⟨?_,?_,?_⟩).trans (by simp)
        (fun x hx => by rw [place_pos_other _ _ hx])
      · intro i hi0 hi his hps
        rw [place_heap_other _ _ his,place_heap_other _ _ hps]
        exact hexc i hi0 (by simpa using hi) his hps
      · intro hs0
        rw [place_heap_other _ _ (Nat.ne_of_lt (parent_lt hs0))]
        exact hup.resolve_left hs0
      · intro hs0 c hc0 hcp hcl
        have hcs : c≠si := Nat.ne_of_gt (lt_of_parent_eq hc0 hcp)
        rw [place_heap_other _ _ (Nat.ne_of_lt (parent_lt hs0)),place_heap_other _ _ hcs]
        exact hgrand hs0 c hc0 hcp (by simpa using hcl)
    · rw [not_or] at hup
      obtain ⟨hs0,hlt⟩ := hup
      have hlt := not_le.mp hlt
      rw [if_neg (siftUp_moves key h' last hs0 hlt)]
      exact fin _ (siftUp_spec key bad h' si last s
        ⟨hexc,hgrand,fun c hc0 hcp hcl => hlt.le.trans (hgrand hs0 c hc0 hcp hcl)⟩)

end Heap
