import Mathlib

/-!
# Rpc tags of a Venti session

A session runs its rpcs over one connection and tells their replies apart by a tag below 64
(`client.go`): `rpc` takes the lowest free tag from a bitmap (`getTag`), sends the request
under it, waits on that tag's channel for the reply `receiveThread` routes there, and gives the
tag back (`putTag`, deferred). When every tag is taken `getTag` panics ("out of tags") instead
of waiting.

The state is the bitmap and the callers of `rpc`: each is idle, waiting for the reply under its
tag, or stopped by a panic. One step is a caller taking a tag and sending its request, or the
reply under a caller's tag reaching it, which gives the tag back. Every run keeps the tags in
flight distinct, below 64 and exactly the bits of the bitmap; and 65 callers whose requests are
all in flight at once make the last of them panic.
-/

namespace Fossil.Venti

/-- Bit `j` of the tag bitmap. -/
def tagBit (b : UInt64) (j : Nat) : Bool :=
  b.toBitVec.getLsbD j

/-- `(*Session).getTag`: the lowest clear bit, now set; `none` is the panic "out of tags". -/
def getTag (tagBitmap : UInt64) : Option (Nat × UInt64) :=
  ((List.range 64).find? fun i => tagBitmap &&& ((1 : UInt64) <<< i.toUInt64)=0).map fun i =>
    (i,tagBitmap ||| ((1 : UInt64) <<< i.toUInt64))

/-- `(*Session).putTag`: clear the tag's bit; `none` is the panic "bad tag". -/
def putTag (tag : Nat) (tagBitmap : UInt64) : Option UInt64 :=
  if 64 ≤ tag then none else some (tagBitmap &&& ~~~((1 : UInt64) <<< tag.toUInt64))

/-! ## Bits -/

theorem tagBit_or (b : UInt64) {i : Nat} (hi : i < 64) (j : Nat) :
    tagBit (b ||| ((1 : UInt64) <<< i.toUInt64)) j=(tagBit b j || decide (i=j)) := by
  simp [tagBit,Nat.mod_eq_of_lt hi]
  rcases Nat.lt_trichotomy i j with h | rfl | h
  · simp [show ¬j < i by omega,show j-i≠0 by omega,show i≠j by omega]
  · simp [hi]
  · simp [h,show i≠j by omega]

theorem tagBit_andNot (b : UInt64) {i : Nat} (hi : i < 64) (j : Nat) :
    tagBit (b &&& ~~~((1 : UInt64) <<< i.toUInt64)) j=(tagBit b j && !decide (i=j)) := by
  simp [tagBit,Nat.mod_eq_of_lt hi]
  by_cases hj : j < 64
  · rcases Nat.lt_trichotomy i j with h | rfl | h
    · simp [hj,show ¬j < i by omega,show j-i≠0 by omega,show i≠j by omega]
    · simp [hi]
    · simp [hj,h,show i≠j by omega]
  · simp [BitVec.getLsbD_of_ge b.toBitVec j (by omega)]

theorem tagBit_and (b : UInt64) {i : Nat} (hi : i < 64) (j : Nat) :
    tagBit (b &&& ((1 : UInt64) <<< i.toUInt64)) j=(tagBit b j && decide (i=j)) := by
  simp [tagBit,Nat.mod_eq_of_lt hi]
  by_cases hj : j < 64
  · rcases Nat.lt_trichotomy i j with h | rfl | h
    · simp [show ¬j < i by omega,show j-i≠0 by omega,show i≠j by omega]
    · simp [hi]
    · simp [h,show i≠j by omega]
  · simp [BitVec.getLsbD_of_ge b.toBitVec j (by omega),show i≠j by omega]

/-- The test of `getTag`'s loop reads bit `i`. -/
theorem and_shift_eq_zero (b : UInt64) {i : Nat} (hi : i < 64) :
    b &&& ((1 : UInt64) <<< i.toUInt64)=0 ↔ tagBit b i=false := by
  constructor
  · intro h
    have := tagBit_and b hi i
    rw [h] at this
    simpa [tagBit] using this.symm
  · intro h
    apply UInt64.eq_of_toBitVec_eq
    apply BitVec.eq_of_getLsbD_eq
    intro j _
    have := tagBit_and b hi j
    unfold tagBit at this
    rw [this]
    by_cases hij : i=j
    · subst hij
      simpa [tagBit] using h
    · simp [hij]

/-- What `getTag` answers: the lowest clear bit below 64, set. -/
theorem getTag_eq_some {b : UInt64} {t : Nat} {b' : UInt64} :
    getTag b=some (t,b') ↔ t < 64 ∧ tagBit b t=false ∧ (∀ j < t, tagBit b j=true) ∧
      b'=b ||| ((1 : UInt64) <<< t.toUInt64) := by
  unfold getTag
  simp only [Option.map_eq_some_iff,List.find?_range_eq_some,Prod.mk.injEq,List.mem_range]
  constructor
  · rintro ⟨i,⟨hp,hi,hlow⟩,rfl,rfl⟩
    refine ⟨hi,(and_shift_eq_zero b hi).mp (by simpa using hp),fun j hj => ?_,rfl⟩
    have := hlow j hj
    simp only [Bool.not_eq_eq_eq_not,Bool.not_true,decide_eq_false_iff_not] at this
    by_contra hb
    exact this ((and_shift_eq_zero b (by omega)).mpr (by simpa using hb))
  · rintro ⟨ht,hb,hlow,rfl⟩
    refine ⟨t,⟨by simpa using (and_shift_eq_zero b ht).mpr hb,ht,fun j hj => ?_⟩,rfl,rfl⟩
    have := hlow j hj
    simp only [Bool.not_eq_eq_eq_not,Bool.not_true,decide_eq_false_iff_not]
    intro h0
    rw [(and_shift_eq_zero b (by omega)).mp h0] at this
    cases this

/-- `getTag` panics exactly when all 64 bits are set. -/
theorem getTag_eq_none {b : UInt64} : getTag b=none ↔ ∀ j < 64, tagBit b j=true := by
  unfold getTag
  simp only [Option.map_eq_none_iff,List.find?_range_eq_none]
  constructor
  · intro h j hj
    have := h j hj
    simp only [Bool.not_eq_eq_eq_not,Bool.not_true,decide_eq_false_iff_not] at this
    by_contra hb
    exact this ((and_shift_eq_zero b hj).mpr (by simpa using hb))
  · intro h j hj
    simp only [Bool.not_eq_eq_eq_not,Bool.not_true,decide_eq_false_iff_not]
    intro h0
    have := (and_shift_eq_zero b hj).mp h0
    rw [h j hj] at this
    cases this

/-- The bits `0` to `m-1` set and no others: the bitmap after `m` tags taken, none given back. -/
def Low (m : Nat) (b : UInt64) : Prop :=
  ∀ j, tagBit b j=decide (j < m)

/-- From the first `m` tags taken, `getTag` takes tag `m`. -/
theorem getTag_low {m : Nat} {b : UInt64} (hm : m < 64) (hb : Low m b) :
    getTag b=some (m,b ||| ((1 : UInt64) <<< m.toUInt64)) ∧ Low (m+1) (b ||| ((1 : UInt64) <<< m.toUInt64)) := by
  refine ⟨getTag_eq_some.mpr ⟨hm,by simp [hb m],fun j hj => by simp [hb j,hj],rfl⟩,fun j => ?_⟩
  rw [tagBit_or b hm,hb j]
  by_cases hj : j < m
  · simp [hj,show j < m+1 by omega]
  · by_cases hjm : j=m
    · simp [hjm]
    · simp [hj,show ¬j < m+1 by omega,Ne.symm hjm]

/-- With all 64 tags taken, `getTag` panics. -/
theorem getTag_low64 {b : UInt64} (hb : Low 64 b) : getTag b=none :=
  getTag_eq_none.mpr fun j hj => by simp [hb j,hj]

/-! ## Callers -/

/-- Where a caller of `rpc` is. -/
inductive Caller where
  | idle
  /-- Its request is sent under `tag`; it waits on the tag's channel. -/
  | waiting (tag : Nat)
  /-- `getTag` or `putTag` panicked. -/
  | panicked
  deriving DecidableEq, Repr

/-- A session with `n` goroutines that call `rpc`. -/
structure Session (n : Nat) where
  /-- `z.tagBitmap`. -/
  tagBitmap : UInt64
  /-- Each goroutine's place in `rpc`. -/
  caller : Fin n → Caller

/-- A fresh session: no tag taken. -/
def Session.init (n : Nat) : Session n :=
  ⟨0,fun _ => .idle⟩

variable {n : Nat}

/-- The bitmap becomes `b` and goroutine `g` moves to `c`. -/
def Session.move (s : Session n) (b : UInt64) (g : Fin n) (c : Caller) : Session n :=
  ⟨b,Function.update s.caller g c⟩

@[simp] theorem move_tagBitmap (s : Session n) (b : UInt64) (g : Fin n) (c : Caller) :
    (s.move b g c).tagBitmap=b := rfl

@[simp] theorem move_caller_self (s : Session n) (b : UInt64) (g : Fin n) (c : Caller) :
    (s.move b g c).caller g=c := by
  simp [Session.move]

theorem move_caller_ne (s : Session n) (b : UInt64) {g g' : Fin n} (c : Caller) (h : g'≠g) :
    (s.move b g c).caller g'=s.caller g' := by
  simp [Session.move,h]

/-- The steps of the session. -/
inductive Act (n : Nat) where
  /-- Goroutine `g` calls `rpc`: `getTag`, then `transmit`. -/
  | call (g : Fin n)
  /-- `receiveThread` reads the reply under `g`'s tag and passes it on the tag's channel; `g`
  takes it and its deferred `putTag` gives the tag back. -/
  | reply (g : Fin n)

/-- One step; `none` when the step cannot happen (the goroutine is not where the step starts). -/
def step (s : Session n) : Act n → Option (Session n)
  | .call g =>
    if s.caller g=.idle then
      match getTag s.tagBitmap with
      | some (t,b) => some (s.move b g (.waiting t))
      | none => some (s.move s.tagBitmap g .panicked)
    else none
  | .reply g =>
    match s.caller g with
    | .waiting t =>
      match putTag t s.tagBitmap with
      | some b => some (s.move b g .idle)
      | none => some (s.move s.tagBitmap g .panicked)
    | _ => none

/-- A run of steps. -/
def run (s : Session n) : List (Act n) → Option (Session n)
  | [] => some s
  | a::as => (step s a).bind fun s' => run s' as

theorem step_call_take {s : Session n} {g : Fin n} (hg : s.caller g=.idle) {t : Nat} {b : UInt64}
    (ht : getTag s.tagBitmap=some (t,b)) : step s (.call g)=some (s.move b g (.waiting t)) := by
  simp [step,hg,ht]

theorem step_call_panic {s : Session n} {g : Fin n} (hg : s.caller g=.idle) (ht : getTag s.tagBitmap=none) :
    step s (.call g)=some (s.move s.tagBitmap g .panicked) := by
  simp [step,hg,ht]

theorem run_append (s : Session n) (as bs : List (Act n)) :
    run s (as ++ bs)=(run s as).bind fun s' => run s' bs := by
  induction as generalizing s with
  | nil => rfl
  | cons a as ih => simp [run,ih,Option.bind_assoc]

/-- The tag discipline: tags in flight are below 64, distinct, and exactly the set bits. -/
structure Inv (s : Session n) : Prop where
  lt : ∀ g t, s.caller g=.waiting t → t < 64
  held : ∀ g t, s.caller g=.waiting t → tagBit s.tagBitmap t=true
  owner : ∀ t, tagBit s.tagBitmap t=true → ∃ g, s.caller g=.waiting t
  distinct : ∀ g g' t, s.caller g=.waiting t → s.caller g'=.waiting t → g=g'

theorem inv_init : Inv (Session.init n) := by
  refine ⟨fun _ _ h => ?_,fun _ _ h => ?_,fun t h => ?_,fun _ _ _ h _ => ?_⟩ <;>
    simp [Session.init,tagBit] at h

/-- A goroutine that waits for no reply moves to another such place: nothing else changes. -/
theorem inv_move_quiet {s : Session n} (hi : Inv s) {g : Fin n} {c : Caller}
    (hg : ∀ t, s.caller g≠.waiting t) (hc : ∀ t, c≠.waiting t) : Inv (s.move s.tagBitmap g c) := by
  have hw : ∀ g' t, (s.move s.tagBitmap g c).caller g'=.waiting t ↔ s.caller g'=.waiting t := by
    intro g' t
    by_cases hg' : g'=g
    · subst hg'
      simp [hg t,hc t]
    · rw [move_caller_ne _ _ _ hg']
  refine ⟨fun g' t h => hi.lt g' t ((hw g' t).mp h),fun g' t h => hi.held g' t ((hw g' t).mp h),
    fun t h => ?_,fun g₁ g₂ t h₁ h₂ => hi.distinct g₁ g₂ t ((hw g₁ t).mp h₁) ((hw g₂ t).mp h₂)⟩
  obtain ⟨g',hg'⟩ := hi.owner t h
  exact ⟨g',(hw g' t).mpr hg'⟩

theorem inv_call {s : Session n} (hi : Inv s) {g : Fin n} (hg : s.caller g=.idle) {t : Nat} {b : UInt64}
    (ht : getTag s.tagBitmap=some (t,b)) : Inv (s.move b g (.waiting t)) := by
  obtain ⟨ht64,hclear,-,rfl⟩ := getTag_eq_some.mp ht
  -- the tag taken was free, so no other goroutine waits under it
  have hfree : ∀ g', s.caller g'≠.waiting t := fun g' h => by
    have := hi.held g' t h
    rw [hclear] at this
    cases this
  refine ⟨fun g' t' h => ?_,fun g' t' h => ?_,fun t' h => ?_,fun g₁ g₂ t' h₁ h₂ => ?_⟩
  · by_cases hg' : g'=g
    · subst hg'
      simp at h
      omega
    · rw [move_caller_ne _ _ _ hg'] at h
      exact hi.lt g' t' h
  · rw [move_tagBitmap,tagBit_or _ ht64]
    by_cases hg' : g'=g
    · subst hg'
      simp at h
      simp [h]
    · rw [move_caller_ne _ _ _ hg'] at h
      simp [hi.held g' t' h]
  · rw [move_tagBitmap,tagBit_or _ ht64] at h
    by_cases htt : t=t'
    · exact ⟨g,by simp [htt]⟩
    · simp only [htt,decide_false,Bool.or_false] at h
      obtain ⟨g',hg'⟩ := hi.owner t' h
      have hne : g'≠g := fun he => by rw [he,hg] at hg'; cases hg'
      exact ⟨g',by rw [move_caller_ne _ _ _ hne]; exact hg'⟩
  · by_cases h1 : g₁=g <;> by_cases h2 : g₂=g
    · rw [h1,h2]
    · subst h1
      rw [move_caller_ne _ _ _ h2] at h₂
      simp at h₁
      subst h₁
      exact absurd h₂ (hfree g₂)
    · subst h2
      rw [move_caller_ne _ _ _ h1] at h₁
      simp at h₂
      subst h₂
      exact absurd h₁ (hfree g₁)
    · rw [move_caller_ne _ _ _ h1] at h₁
      rw [move_caller_ne _ _ _ h2] at h₂
      exact hi.distinct g₁ g₂ t' h₁ h₂

theorem inv_reply {s : Session n} (hi : Inv s) {g : Fin n} {t : Nat} (hg : s.caller g=.waiting t) :
    Inv (s.move (s.tagBitmap &&& ~~~((1 : UInt64) <<< t.toUInt64)) g .idle) := by
  have ht64 := hi.lt g t hg
  refine ⟨fun g' t' h => ?_,fun g' t' h => ?_,fun t' h => ?_,fun g₁ g₂ t' h₁ h₂ => ?_⟩
  · by_cases hg' : g'=g
    · subst hg'
      simp at h
    · rw [move_caller_ne _ _ _ hg'] at h
      exact hi.lt g' t' h
  · by_cases hg' : g'=g
    · subst hg'
      simp at h
    · rw [move_caller_ne _ _ _ hg'] at h
      have htt : t≠t' := fun he => hg' (hi.distinct g' g t' h (he ▸ hg))
      rw [move_tagBitmap,tagBit_andNot _ ht64]
      simp [hi.held g' t' h,htt]
  · rw [move_tagBitmap,tagBit_andNot _ ht64] at h
    simp only [Bool.and_eq_true,Bool.not_eq_eq_eq_not,Bool.not_true,decide_eq_false_iff_not] at h
    obtain ⟨g',hg'⟩ := hi.owner t' h.1
    have hne : g'≠g := fun he => by
      rw [he,hg] at hg'
      cases hg'
      exact h.2 rfl
    exact ⟨g',by rw [move_caller_ne _ _ _ hne]; exact hg'⟩
  · by_cases h1 : g₁=g
    · subst h1
      simp at h₁
    · by_cases h2 : g₂=g
      · subst h2
        simp at h₂
      · rw [move_caller_ne _ _ _ h1] at h₁
        rw [move_caller_ne _ _ _ h2] at h₂
        exact hi.distinct g₁ g₂ t' h₁ h₂

/-- Every step keeps the tag discipline. -/
theorem step_inv {s s' : Session n} (hi : Inv s) {a : Act n} (h : step s a=some s') : Inv s' := by
  cases a with
  | call g =>
    simp only [step] at h
    split_ifs at h with hg
    cases hgt : getTag s.tagBitmap with
    | some r =>
      obtain ⟨t,b⟩ := r
      rw [hgt] at h
      cases h
      exact inv_call hi hg hgt
    | none =>
      rw [hgt] at h
      cases h
      exact inv_move_quiet hi (fun t => by simp [hg]) (fun t => by simp)
  | reply g =>
    simp only [step] at h
    cases hg : s.caller g with
    | waiting t =>
      simp only [hg] at h
      have hput : putTag t s.tagBitmap=some (s.tagBitmap &&& ~~~((1 : UInt64) <<< t.toUInt64)) := by
        simp [putTag,hi.lt g t hg]
      rw [hput] at h
      cases h
      exact inv_reply hi hg
    | idle => simp [hg] at h
    | panicked => simp [hg] at h

/-- Every run keeps the tag discipline. -/
theorem run_inv {s s' : Session n} (hi : Inv s) {as : List (Act n)} (h : run s as=some s') : Inv s' := by
  induction as generalizing s with
  | nil =>
    cases h
    exact hi
  | cons a as ih =>
    simp only [run,Option.bind_eq_some_iff] at h
    obtain ⟨s₁,h₁,h₂⟩ := h
    exact ih (step_inv hi h₁) h₂

/-! ## Running out of tags -/

/-- Distinct idle goroutines calling one after another, with no reply in between, take the
tags `m`, `m+1`, ... in order while tags are left; nobody else moves. -/
theorem run_calls {s : Session n} {m : Nat} (gs : List (Fin n)) (hb : Low m s.tagBitmap)
    (hm : m+gs.length ≤ 64) (hd : gs.Nodup) (hidle : ∀ g ∈ gs, s.caller g=.idle) :
    ∃ s', run s (gs.map .call)=some s' ∧ Low (m+gs.length) s'.tagBitmap ∧
      (∀ k (h : k < gs.length), s'.caller gs[k]=.waiting (m+k)) ∧ ∀ g ∉ gs, s'.caller g=s.caller g := by
  induction gs generalizing s m with
  | nil => exact ⟨s,rfl,hb,fun k h => absurd h (Nat.not_lt_zero k),fun _ _ => rfl⟩
  | cons g gs ih =>
    obtain ⟨hgs,hd⟩ := List.nodup_cons.mp hd
    simp only [List.length_cons] at hm
    obtain ⟨ht,hb₁⟩ := getTag_low (by omega) hb
    have hidle₁ : ∀ g' ∈ gs,
        (s.move (s.tagBitmap ||| ((1 : UInt64) <<< m.toUInt64)) g (.waiting m)).caller g'=.idle := fun g' hg' => by
      have hne : g'≠g := fun he => hgs (he ▸ hg')
      rw [move_caller_ne _ _ _ hne]
      exact hidle g' (List.mem_cons_of_mem g hg')
    obtain ⟨s',hrun,hlow,hk,hframe⟩ := ih hb₁ (by omega) hd hidle₁
    refine ⟨s',?_,?_,fun k h => ?_,fun g' hg' => ?_⟩
    · simp only [List.map_cons,run,step_call_take (hidle g List.mem_cons_self) ht,Option.bind_some]
      exact hrun
    · rw [List.length_cons,show m+(gs.length+1)=m+1+gs.length by omega]
      exact hlow
    · cases k with
      | zero => simp [hframe g hgs]
      | succ k =>
        rw [List.getElem_cons_succ,hk k (by simpa using h)]
        congr 1
        omega
    · have hne : g'≠g := fun he => hg' (he ▸ List.mem_cons_self)
      have hgs' : g' ∉ gs := fun h => hg' (List.mem_cons_of_mem g h)
      rw [hframe g' hgs',move_caller_ne _ _ _ hne]

/-- Sixty-five goroutines that call `rpc` on a fresh session before any reply comes back: the
first 64 take the tags `0` to `63` and the last panics for lack of a tag, instead of waiting. -/
theorem rpc_out_of_tags (gs : List (Fin n)) (g : Fin n) (hl : gs.length=64) (hd : (gs ++ [g]).Nodup) :
    ∃ s, run (Session.init n) ((gs ++ [g]).map .call)=some s ∧ s.caller g=.panicked ∧
      ∀ k (h : k < gs.length), s.caller gs[k]=.waiting k := by
  have hg : g ∉ gs := fun h => (List.nodup_append.mp hd).2.2 g h g (List.mem_singleton_self g) rfl
  have h0 : Low 0 (Session.init n).tagBitmap := fun j => by simp [Session.init,tagBit]
  obtain ⟨s₁,hrun,hlow,hk,hframe⟩ :=
    run_calls gs h0 (by omega) (List.nodup_append.mp hd).1 (fun _ _ => rfl)
  rw [Nat.zero_add,hl] at hlow
  have hidle : s₁.caller g=.idle := hframe g hg
  refine ⟨s₁.move s₁.tagBitmap g .panicked,?_,by simp,fun k h => ?_⟩
  · rw [List.map_append,run_append,hrun,Option.bind_some]
    simp [run,step_call_panic hidle (getTag_low64 hlow)]
  · have hne : gs[k]≠g := fun he => hg (he ▸ List.getElem_mem h)
    rw [move_caller_ne _ _ _ hne,hk k h,Nat.zero_add]

theorem rpc_out_of_tags_sixtyfive :
    ((List.finRange 64).map Fin.castSucc).length=64 ∧
      ((List.finRange 64).map Fin.castSucc ++ [Fin.last 64]).Nodup ∧
      ∃ s, run (Session.init 65) (((List.finRange 64).map Fin.castSucc ++ [Fin.last 64]).map .call)=some s ∧
        s.caller (Fin.last 64)=.panicked :=
  ⟨by simp,by decide,(rpc_out_of_tags _ _ (by simp) (by decide)).imp fun _ h => ⟨h.1,h.2.1⟩⟩

end Fossil.Venti
