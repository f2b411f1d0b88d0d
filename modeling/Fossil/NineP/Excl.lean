import Fossil.Lib.DList

/-!
# Exclusive-use leases

A file with `ModeExclusive` is open through one fid at a time (`9excl.go`). Opening it takes a
lease: `allocExcl` walks the list `ebox` for records of the same file system and path, fails
("exclusive lock") at the first whose timeout lies ahead, clears the file system of each that
has run out (the record stays linked), and appends a new record with a timeout five minutes on.
Each read and write renews the lease (`updateExcl`); it fails ("exclusive lock broken") once the
timeout has passed or the record was cleared. A clunk unlinks the record (`freeExcl`).

Each call reads the clock before it takes `ebox.lock`, so the time a call acts on is any time up
to the present (`step`). Every run keeps the list well formed, holding exactly the records the
fids point to, and keeps at most one uncleared record per file. Two reads or writes on one fid
run at once (`getFid` only read-locks the fid), and the renewal that read the clock first can
take the lock last: it moves the timeout back, and another fid's open then takes the file while
the lease granted by the later renewal still runs.
-/

namespace Fossil.Exclusive

open DList

/-- `exclLifeTime`, five minutes, in nanoseconds. -/
def exclLifeTime : Nat := 5*60*1000000000

/-- An `Excl` record without its links; `fsys = none` is a record cleared by `allocExcl`. -/
structure Excl (F : Type) where
  fsys : Option F
  path : UInt64
  timeout : Nat
  deriving DecidableEq, Repr

/-- `ebox` and the fids' `excl` fields. Records live at addresses; `fresh` is the address the
next `&Excl{}` gets. -/
structure EBox (Φ F : Type) where
  links : Links Nat
  excl : Nat → Excl F
  fresh : Nat
  fidExcl : Φ → Option Nat

variable {Φ F : Type} [DecidableEq Φ] [DecidableEq F]

/-- No record, no lease. -/
def EBox.empty : EBox Φ F :=
  ⟨Links.empty,fun _ => ⟨none,0,0⟩,0,fun _ => none⟩

/-- The loop of `allocExcl` over the records `as`: a record of the file whose timeout is not
ahead of `t` is cleared; the loop stops at the first record of the file whose timeout is,
answering `true`. -/
def scan (fsys : F) (path : UInt64) (t : Nat) (excl : Nat → Excl F) : List Nat → (Nat → Excl F) × Bool
  | [] => (excl,false)
  | a :: as =>
    if (excl a).fsys≠some fsys ∨ (excl a).path≠path then scan fsys path t excl as
    else if t < (excl a).timeout then (excl,true)
    else scan fsys path t (Function.update excl a { excl a with fsys := none }) as

/-- `allocExcl` at time `t` for a fid whose file is `(fsys, path)`; `none` is the assertion that
the fid holds no lease. The walk follows `next` from `head`; the list holds distinct addresses
below `fresh`, so `fresh` steps reach its end. -/
def allocExcl (fid : Φ) (fsys : F) (path : UInt64) (t : Nat) (b : EBox Φ F) :
    Option (Except String Unit × EBox Φ F) :=
  if (b.fidExcl fid).isSome then none
  else
    match scan fsys path t b.excl (chain b.links.next b.fresh b.links.head) with
    | (excl,true) => some (.error "exclusive lock",{ b with excl := excl })
    | (excl,false) =>
      some (.ok (),{ b with
        excl := Function.update excl b.fresh ⟨some fsys,path,t+exclLifeTime⟩
        links := pushBack b.links b.fresh
        fresh := b.fresh+1
        fidExcl := Function.update b.fidExcl fid (some b.fresh) })

/-- `updateExcl` at time `t` for a fid of file system `fsys`; `none` is the nil dereference of a
fid without a lease, which its callers rule out. -/
def updateExcl (fid : Φ) (fsys : F) (t : Nat) (b : EBox Φ F) : Option (Except String Unit × EBox Φ F) :=
  match b.fidExcl fid with
  | none => none
  | some a =>
    if (b.excl a).timeout < t ∨ (b.excl a).fsys≠some fsys then some (.error "exclusive lock broken",b)
    else some (.ok (),{ b with excl := Function.update b.excl a { b.excl a with timeout := t+exclLifeTime } })

/-- `freeExcl`. -/
def freeExcl (fid : Φ) (b : EBox Φ F) : EBox Φ F :=
  match b.fidExcl fid with
  | none => b
  | some a => { b with links := unlink b.links a, fidExcl := Function.update b.fidExcl fid none }

/-! ## The list and the fids' leases -/

/-- `e` is `excl` with some records cleared. -/
def Clears (excl e : Nat → Excl F) : Prop :=
  ∀ a, e a=excl a ∨ e a={ excl a with fsys := none }

omit [DecidableEq F] in
theorem Clears.refl (excl : Nat → Excl F) : Clears excl excl :=
  fun _ => .inl rfl

omit [DecidableEq F] in
theorem Clears.trans {e₁ e₂ e₃ : Nat → Excl F} (h₁ : Clears e₁ e₂) (h₂ : Clears e₂ e₃) : Clears e₁ e₃ := by
  intro a
  rcases h₂ a with h | h <;> rcases h₁ a with h' | h' <;> simp [h,h']

omit [DecidableEq F] in
/-- A record that a clearing leaves live is the one it was. -/
theorem Clears.eq_of_live {excl e : Nat → Excl F} (h : Clears excl e) {a : Nat} (ha : (e a).fsys≠none) :
    e a=excl a := by
  rcases h a with h' | h'
  · exact h'
  · rw [h'] at ha
    exact absurd rfl ha

/-- What the loop of `allocExcl` does: it only clears records, and when it finds no live lease,
no live record of the list belongs to the file. -/
theorem scan_spec (fsys : F) (path : UInt64) (t : Nat) (excl : Nat → Excl F) (as : List Nat) :
    Clears excl (scan fsys path t excl as).1 ∧
      ((scan fsys path t excl as).2=false → ∀ a ∈ as,
        ((scan fsys path t excl as).1 a).fsys=some fsys → ((scan fsys path t excl as).1 a).path≠path) := by
  induction as generalizing excl with
  | nil => exact ⟨Clears.refl excl,fun _ a ha => absurd ha List.not_mem_nil⟩
  | cons a as ih =>
    unfold scan
    split_ifs with hm ht
    · obtain ⟨hc,hf⟩ := ih excl
      refine ⟨hc,fun h c hc' hp => ?_⟩
      rcases List.mem_cons.mp hc' with rfl | hc'
      · rcases hc c with he | he <;> rw [he] at hp ⊢
        · exact hm.resolve_left (not_not.mpr hp)
        · simp at hp
      · exact hf h c hc' hp
    · exact ⟨Clears.refl excl,fun h => absurd h (by simp)⟩
    · obtain ⟨hc,hf⟩ := ih (Function.update excl a { excl a with fsys := none })
      have hcl : Clears excl (Function.update excl a { excl a with fsys := none }) := fun c => by
        by_cases hca : c=a
        · subst hca
          simp
        · simp [hca]
      refine ⟨hcl.trans hc,fun h c hc' hp => ?_⟩
      rcases List.mem_cons.mp hc' with rfl | hc'
      · rcases hc c with he | he <;> rw [he] at hp <;> simp at hp
      · exact hf h c hc' hp

/-- The invariant of `ebox`, with `L` its records in list order: the links spell `L`; its
addresses were all handed out; they are exactly the fids' leases, one fid each; and no two live
records are of one file. -/
structure Holds (b : EBox Φ F) (L : List Nat) : Prop where
  linked : Linked b.links L
  below : ∀ a ∈ L, a < b.fresh
  owned : ∀ a, a ∈ L ↔ ∃ fid, b.fidExcl fid=some a
  owner : ∀ f g a, b.fidExcl f=some a → b.fidExcl g=some a → f=g
  single : ∀ a ∈ L, ∀ c ∈ L, (b.excl a).fsys≠none → (b.excl a).fsys=(b.excl c).fsys →
    (b.excl a).path=(b.excl c).path → a=c

omit [DecidableEq Φ] [DecidableEq F] in
theorem holds_empty : Holds (EBox.empty : EBox Φ F) [] where
  linked := linked_empty
  below := fun _ h => absurd h List.not_mem_nil
  owned := fun a => by simp [EBox.empty]
  owner := fun _ _ _ h => by simp [EBox.empty] at h
  single := fun _ h => absurd h List.not_mem_nil

/-- Distinct addresses below `n` are at most `n`. -/
theorem length_le_of_below {L : List Nat} {n : Nat} (hd : L.Nodup) (hb : ∀ a ∈ L, a < n) : L.length ≤ n := by
  have hs : L.toFinset ⊆ Finset.range n := fun a ha => Finset.mem_range.mpr (hb a (List.mem_toFinset.mp ha))
  calc L.length=L.toFinset.card := (List.toFinset_card_of_nodup hd).symm
    _ ≤ (Finset.range n).card := Finset.card_le_card hs
    _=n := Finset.card_range n

omit [DecidableEq Φ] [DecidableEq F] in
/-- The walk of `allocExcl` reads the whole list. -/
theorem Holds.chain_eq {b : EBox Φ F} {L : List Nat} (h : Holds b L) :
    chain b.links.next b.fresh b.links.head=L :=
  h.linked.chain_eq (length_le_of_below h.linked.nodup h.below)

omit [DecidableEq Φ] [DecidableEq F] in
/-- Records may change as long as each live one keeps its file. -/
theorem holds_excl {b : EBox Φ F} {L : List Nat} (h : Holds b L) {e : Nat → Excl F}
    (he : ∀ a, (e a).fsys≠none → (e a).fsys=(b.excl a).fsys ∧ (e a).path=(b.excl a).path) :
    Holds { b with excl := e } L where
  linked := h.linked
  below := h.below
  owned := h.owned
  owner := h.owner
  single := fun a ha c hc hl hf hp => by
    have hc' : (e c).fsys≠none := by rw [← hf]; exact hl
    obtain ⟨hfa,hpa⟩ := he a hl
    obtain ⟨hfc,hpc⟩ := he c hc'
    exact h.single a ha c hc (by rw [← hfa]; exact hl) (by rw [← hfa,← hfc]; exact hf) (by rw [← hpa,← hpc]; exact hp)

omit [DecidableEq F] in
theorem Clears.live {excl e : Nat → Excl F} (h : Clears excl e) :
    ∀ a, (e a).fsys≠none → (e a).fsys=(excl a).fsys ∧ (e a).path=(excl a).path :=
  fun a ha => by rw [h.eq_of_live ha]; exact ⟨rfl,rfl⟩

omit [DecidableEq F] in
/-- A granted lease: the cleared records, then the new record appended and given to the fid. -/
theorem holds_grant {b : EBox Φ F} {L : List Nat} (h : Holds b L) {fid : Φ} (hfid : b.fidExcl fid=none)
    {e : Nat → Excl F} (hc : Clears b.excl e) {fsys : F} {path : UInt64}
    (hfree : ∀ a ∈ L, (e a).fsys=some fsys → (e a).path≠path) (timeout : Nat) :
    Holds { b with
      excl := Function.update e b.fresh ⟨some fsys,path,timeout⟩
      links := pushBack b.links b.fresh
      fresh := b.fresh+1
      fidExcl := Function.update b.fidExcl fid (some b.fresh) } (L ++ [b.fresh]) := by
  have hnew : b.fresh ∉ L := fun hm => Nat.lt_irrefl _ (h.below _ hm)
  have hne : ∀ a ∈ L, a≠b.fresh := fun a ha he => hnew (he ▸ ha)
  have hL := holds_excl h hc.live
  refine ⟨linked_pushBack h.linked hnew,fun a ha => ?_,fun a => ?_,fun f g a hf hg => ?_,?_⟩
  · rcases List.mem_append.mp ha with ha | ha
    · exact Nat.lt_succ_of_lt (h.below a ha)
    · rw [List.mem_singleton.mp ha]
      exact Nat.lt_succ_self _
  · constructor
    · intro ha
      rcases List.mem_append.mp ha with ha | ha
      · obtain ⟨g,hg⟩ := (h.owned a).mp ha
        have hgf : g≠fid := fun he => by rw [he,hfid] at hg; cases hg
        exact ⟨g,by simp only [Function.update_of_ne hgf]; exact hg⟩
      · exact ⟨fid,by rw [List.mem_singleton.mp ha]; simp⟩
    · rintro ⟨g,hg⟩
      by_cases hgf : g=fid
      · subst hgf
        simp at hg
        simp [hg]
      · simp only [Function.update_of_ne hgf] at hg
        exact List.mem_append_left _ ((h.owned a).mpr ⟨g,hg⟩)
  · have hold : ∀ g, g≠fid → b.fidExcl g=some a → a≠b.fresh := fun g _ hg =>
      hne a ((h.owned a).mpr ⟨g,hg⟩)
    by_cases hff : f=fid <;> by_cases hgf : g=fid
    · rw [hff,hgf]
    · subst hff
      simp only [Function.update_of_ne hgf] at hg
      simp at hf
      exact absurd hf.symm (hold g hgf hg)
    · subst hgf
      simp only [Function.update_of_ne hff] at hf
      simp at hg
      exact absurd hg.symm (hold f hff hf)
    · simp only [Function.update_of_ne hff] at hf
      simp only [Function.update_of_ne hgf] at hg
      exact h.owner f g a hf hg
  · intro a ha c hc hl hf hp
    rcases List.mem_append.mp ha with ha | ha <;> rcases List.mem_append.mp hc with hc | hc
    · simp only [Function.update_of_ne (hne a ha),Function.update_of_ne (hne c hc)] at hl hf hp
      exact hL.single a ha c hc hl hf hp
    · rw [List.mem_singleton.mp hc] at hf hp ⊢
      simp only [Function.update_of_ne (hne a ha),Function.update_self] at hf hp
      exact absurd hp (hfree a ha hf)
    · rw [List.mem_singleton.mp ha] at hf hp ⊢
      simp only [Function.update_of_ne (hne c hc),Function.update_self] at hf hp
      exact absurd hp.symm (hfree c hc hf.symm)
    · rw [List.mem_singleton.mp ha,List.mem_singleton.mp hc]

omit [DecidableEq F] in
/-- A freed lease: the record leaves the list and the fid. -/
theorem holds_free {b : EBox Φ F} {L : List Nat} (h : Holds b L) {fid : Φ} {a : Nat} (ha : b.fidExcl fid=some a) :
    Holds { b with links := unlink b.links a, fidExcl := Function.update b.fidExcl fid none } (L.erase a) := by
  have haL : a ∈ L := (h.owned a).mpr ⟨fid,ha⟩
  have hmem : ∀ c, c ∈ L.erase a ↔ c≠a ∧ c ∈ L := fun c => h.linked.nodup.mem_erase_iff
  refine ⟨linked_unlink h.linked haL,fun c hc => h.below c ((hmem c).mp hc).2,fun c => ?_,
    fun f g c hf hg => ?_,fun c hc d hd => h.single c ((hmem c).mp hc).2 d ((hmem d).mp hd).2⟩
  · rw [hmem]
    constructor
    · rintro ⟨hca,hc⟩
      obtain ⟨g,hg⟩ := (h.owned c).mp hc
      have hgf : g≠fid := fun he => hca (by rw [he,ha] at hg; exact (Option.some.inj hg).symm)
      exact ⟨g,by simp only [Function.update_of_ne hgf]; exact hg⟩
    · rintro ⟨g,hg⟩
      by_cases hgf : g=fid
      · subst hgf
        simp at hg
      · simp only [Function.update_of_ne hgf] at hg
        refine ⟨fun he => hgf (h.owner g fid a (he ▸ hg) ha),(h.owned c).mpr ⟨g,hg⟩⟩
  · by_cases hff : f=fid
    · subst hff
      simp at hf
    · by_cases hgf : g=fid
      · subst hgf
        simp at hg
      · simp only [Function.update_of_ne hff] at hf
        simp only [Function.update_of_ne hgf] at hg
        exact h.owner f g c hf hg

theorem allocExcl_holds {b b' : EBox Φ F} {L : List Nat} (h : Holds b L) {fid : Φ} {fsys : F} {path : UInt64}
    {t : Nat} {r : Except String Unit} (hr : allocExcl fid fsys path t b=some (r,b')) : ∃ L', Holds b' L' := by
  unfold allocExcl at hr
  split_ifs at hr with hfid
  rw [h.chain_eq] at hr
  obtain ⟨hc,hf⟩ := scan_spec fsys path t b.excl L
  cases hs : scan fsys path t b.excl L with
  | mk e busy =>
    rw [hs] at hc hf hr
    cases busy with
    | true =>
      -- a live lease of the file: the records cleared so far stay cleared
      cases hr
      exact ⟨L,holds_excl h hc.live⟩
    | false =>
      cases hr
      exact ⟨L ++ [b.fresh],holds_grant h (Option.not_isSome_iff_eq_none.mp hfid) hc (hf rfl) _⟩

omit [DecidableEq Φ] in
theorem updateExcl_holds {b b' : EBox Φ F} {L : List Nat} (h : Holds b L) {fid : Φ} {fsys : F} {t : Nat}
    {r : Except String Unit} (hr : updateExcl fid fsys t b=some (r,b')) : Holds b' L := by
  unfold updateExcl at hr
  cases ha : b.fidExcl fid with
  | none => simp [ha] at hr
  | some a =>
    simp only [ha] at hr
    split_ifs at hr
    · cases hr
      exact h
    · cases hr
      refine holds_excl h fun c _ => ?_
      by_cases hca : c=a
      · subst hca
        simp
      · simp [hca]

omit [DecidableEq F] in
theorem freeExcl_holds {b : EBox Φ F} {L : List Nat} (h : Holds b L) (fid : Φ) : ∃ L', Holds (freeExcl fid b) L' := by
  unfold freeExcl
  cases ha : b.fidExcl fid with
  | none => exact ⟨L,h⟩
  | some a => exact ⟨L.erase a,holds_free h ha⟩

/-- With no live lease of the file ahead of `t`, the loop of `allocExcl` gets through. -/
theorem scan_free (fsys : F) (path : UInt64) (t : Nat) (excl : Nat → Excl F) (as : List Nat)
    (hfree : ∀ a ∈ as, (excl a).fsys=some fsys → (excl a).path=path → (excl a).timeout ≤ t) :
    (scan fsys path t excl as).2=false := by
  induction as generalizing excl with
  | nil => rfl
  | cons a as ih =>
    unfold scan
    have hrest := fun c (hc : c ∈ as) => hfree c (List.mem_cons_of_mem a hc)
    split_ifs with hm ht
    · exact ih excl hrest
    · push Not at hm
      exact absurd (hfree a List.mem_cons_self hm.1 hm.2) (Nat.not_le.mpr ht)
    · refine ih _ fun c hc hf hp => ?_
      by_cases hca : c=a
      · subst hca
        simp at hf
      · simp only [Function.update_of_ne hca] at hf hp ⊢
        exact hrest c hc hf hp

/-- `allocExcl` grants a lease when no live record of the file has a timeout ahead of `t`: the
fid gets a new record at the end of the list. -/
theorem allocExcl_grants {b : EBox Φ F} {L : List Nat} (h : Holds b L) (fid : Φ) (hfid : b.fidExcl fid=none)
    (fsys : F) (path : UInt64) (t : Nat)
    (hfree : ∀ a ∈ L, (b.excl a).fsys=some fsys → (b.excl a).path=path → (b.excl a).timeout ≤ t) :
    ∃ b', allocExcl fid fsys path t b=some (.ok (),b') ∧ Holds b' (L ++ [b.fresh]) ∧
      b'.fidExcl=Function.update b.fidExcl fid (some b.fresh) ∧ b'.excl b.fresh=⟨some fsys,path,t+exclLifeTime⟩ ∧
      b'.fresh=b.fresh+1 := by
  obtain ⟨hc,hf⟩ := scan_spec fsys path t b.excl L
  have hs := scan_free fsys path t b.excl L hfree
  refine ⟨_,?_,holds_grant h hfid hc (hf hs) (t+exclLifeTime),rfl,by simp,rfl⟩
  unfold allocExcl
  rw [if_neg (by simp [hfid]),h.chain_eq]
  rcases hsc : scan fsys path t b.excl L with ⟨e,busy⟩
  rw [hsc] at hs
  subst hs
  rfl

omit [DecidableEq Φ] in
/-- `updateExcl` renews a lease that has not run out and was not cleared: the timeout becomes
`t` plus the lifetime, whatever it was. -/
theorem updateExcl_renews {b : EBox Φ F} {L : List Nat} (h : Holds b L) {fid : Φ} {a : Nat}
    (ha : b.fidExcl fid=some a) (fsys : F) (t : Nat) (ht : t ≤ (b.excl a).timeout) (hf : (b.excl a).fsys=some fsys) :
    ∃ b', updateExcl fid fsys t b=some (.ok (),b') ∧ Holds b' L ∧ b'.fidExcl=b.fidExcl ∧
      b'.excl=Function.update b.excl a { b.excl a with timeout := t+exclLifeTime } := by
  have hr : updateExcl fid fsys t b=some (.ok (),{ b with excl := Function.update b.excl a { b.excl a with timeout := t+exclLifeTime } }) := by
    simp [updateExcl,ha,hf,Nat.not_lt.mpr ht]
  exact ⟨_,hr,updateExcl_holds h hr,rfl,rfl⟩

/-! ## Runs -/

/-- The lease table and the clock. -/
structure World (Φ F : Type) where
  box : EBox Φ F
  now : Nat

/-- A fresh server at time zero. -/
def World.init : World Φ F :=
  ⟨EBox.empty,0⟩

/-- The steps of a run: the clock moves on, or a call takes `ebox.lock` with the time it read
before it did, which is any time up to the present. -/
inductive Act (Φ F : Type) where
  | tick (t : Nat)
  | alloc (fid : Φ) (fsys : F) (path : UInt64) (t : Nat)
  | update (fid : Φ) (fsys : F) (t : Nat)
  | free (fid : Φ)

/-- One step and what the call returned; `none` when the step cannot happen (the clock would go
back, or the call would act on a time not yet read) or the call panics. -/
def step (w : World Φ F) : Act Φ F → Option (Except String Unit × World Φ F)
  | .tick t => if w.now ≤ t then some (.ok (),{ w with now := t }) else none
  | .alloc fid fsys path t =>
    if t ≤ w.now then (allocExcl fid fsys path t w.box).map fun r => (r.1,{ w with box := r.2 }) else none
  | .update fid fsys t =>
    if t ≤ w.now then (updateExcl fid fsys t w.box).map fun r => (r.1,{ w with box := r.2 }) else none
  | .free fid => some (.ok (),{ w with box := freeExcl fid w.box })

/-- A run of steps and what each returned. -/
def run (w : World Φ F) : List (Act Φ F) → Option (List (Except String Unit) × World Φ F)
  | [] => some ([],w)
  | a :: as => (step w a).bind fun r => (run r.2 as).map fun rs => (r.1 :: rs.1,rs.2)

theorem step_tick {b : EBox Φ F} {now t : Nat} (h : now ≤ t) : step ⟨b,now⟩ (.tick t)=some (.ok (),⟨b,t⟩) := by
  simp [step,h]

theorem step_alloc {b b' : EBox Φ F} {now : Nat} {fid : Φ} {fsys : F} {path : UInt64} {t : Nat}
    {r : Except String Unit} (ht : t ≤ now) (h : allocExcl fid fsys path t b=some (r,b')) :
    step ⟨b,now⟩ (.alloc fid fsys path t)=some (r,⟨b',now⟩) := by
  simp [step,ht,h]

theorem step_update {b b' : EBox Φ F} {now : Nat} {fid : Φ} {fsys : F} {t : Nat} {r : Except String Unit}
    (ht : t ≤ now) (h : updateExcl fid fsys t b=some (r,b')) : step ⟨b,now⟩ (.update fid fsys t)=some (r,⟨b',now⟩) := by
  simp [step,ht,h]

theorem run_cons_of_step {w w' : World Φ F} {a : Act Φ F} {r : Except String Unit} (h : step w a=some (r,w'))
    (as : List (Act Φ F)) : run w (a :: as)=(run w' as).map fun rs => (r :: rs.1,rs.2) := by
  simp [run,h]

/-- The list invariant, for some order of the records. -/
def Inv (w : World Φ F) : Prop :=
  ∃ L, Holds w.box L

omit [DecidableEq Φ] [DecidableEq F] in
theorem inv_init : Inv (World.init : World Φ F) :=
  ⟨[],holds_empty⟩

theorem step_inv {w w' : World Φ F} (hi : Inv w) {a : Act Φ F} {r : Except String Unit}
    (h : step w a=some (r,w')) : Inv w' := by
  obtain ⟨L,hL⟩ := hi
  cases a with
  | tick t =>
    simp only [step] at h
    split_ifs at h
    cases h
    exact ⟨L,hL⟩
  | alloc fid fsys path t =>
    simp only [step] at h
    split_ifs at h
    obtain ⟨⟨r',b'⟩,hb,he⟩ := Option.map_eq_some_iff.mp h
    cases he
    exact allocExcl_holds hL hb
  | update fid fsys t =>
    simp only [step] at h
    split_ifs at h
    obtain ⟨⟨r',b'⟩,hb,he⟩ := Option.map_eq_some_iff.mp h
    cases he
    exact ⟨L,updateExcl_holds hL hb⟩
  | free fid =>
    simp only [step] at h
    cases h
    exact freeExcl_holds hL fid

/-- Every run keeps `ebox` a well-formed list of exactly the fids' leases, one fid each, with at
most one live record per file. -/
theorem run_inv {w w' : World Φ F} (hi : Inv w) {as : List (Act Φ F)} {rs : List (Except String Unit)}
    (h : run w as=some (rs,w')) : Inv w' := by
  induction as generalizing w rs with
  | nil =>
    cases h
    exact hi
  | cons a as ih =>
    simp only [run,Option.bind_eq_some_iff,Option.map_eq_some_iff] at h
    obtain ⟨⟨r,w₁⟩,h₁,⟨rs',w₂⟩,h₂,he⟩ := h
    cases he
    exact ih (step_inv hi h₁) h₂

/-- Fid `f` opens an exclusive file at `t₀`; two of its reads run at once, the one that read the
clock at `t₁` taking `ebox.lock` after the one that read it at `t₂`. The later renewal grants a
lease until `t₂ + exclLifeTime`, but the earlier one then sets the timeout back to
`t₁ + exclLifeTime`, and at that time fid `g` opens the same file: both opens and both renewals
succeed, `f` never freed its lease, and `g` took the file before `f`'s lease ran out. -/
theorem stale_renewal_breaks_lease {f g : Φ} (hfg : f≠g) (fsys : F) (path : UInt64) {t₀ t₁ t₂ : Nat}
    (h₁ : t₀ ≤ t₁) (h₂ : t₁ < t₂) (h₃ : t₂ ≤ t₀+exclLifeTime) :
    ∃ w, run World.init [.tick t₀,.alloc f fsys path t₀,.tick t₂,.update f fsys t₂,.update f fsys t₁,
        .tick (t₁+exclLifeTime),.alloc g fsys path (t₁+exclLifeTime)]=
        some ([.ok (),.ok (),.ok (),.ok (),.ok (),.ok (),.ok ()],w) ∧
      (w.box.fidExcl f).isSome ∧ (w.box.fidExcl g).isSome ∧ t₁+exclLifeTime < t₂+exclLifeTime := by
  have h₀ : Holds (EBox.empty : EBox Φ F) [] := holds_empty
  obtain ⟨b₁,ha₁,hb₁,hf₁,he₁,-⟩ := allocExcl_grants h₀ f rfl fsys path t₀ (fun a ha => absurd ha List.not_mem_nil)
  have he0 : b₁.excl 0=⟨some fsys,path,t₀+exclLifeTime⟩ := he₁
  have hf0 : b₁.fidExcl f=some 0 := by rw [hf₁]; simp [EBox.empty]
  have hg0 : b₁.fidExcl g=none := by rw [hf₁]; simp [EBox.empty,Ne.symm hfg]
  obtain ⟨b₂,ha₂,hb₂,hf₂,he₂⟩ := updateExcl_renews hb₁ hf0 fsys t₂ (by rw [he0]; exact h₃) (by rw [he0])
  obtain ⟨b₃,ha₃,hb₃,hf₃,he₃⟩ := updateExcl_renews hb₂ (by rw [hf₂]; exact hf0) fsys t₁
    (by rw [he₂]; simp; omega) (by rw [he₂]; simp [he0])
  have hto : b₃.excl 0=⟨some fsys,path,t₁+exclLifeTime⟩ := by
    rw [he₃,he₂]
    simp [he0]
  obtain ⟨b₄,ha₄,-,hf₄,-⟩ := allocExcl_grants hb₃ g (by rw [hf₃,hf₂,hg0]) fsys path (t₁+exclLifeTime)
    (fun a ha _ _ => by
      simp [EBox.empty] at ha
      rw [ha,hto])
  refine ⟨⟨b₄,t₁+exclLifeTime⟩,?_,?_,?_,by omega⟩
  · rw [show (World.init : World Φ F)=⟨EBox.empty,0⟩ from rfl,run_cons_of_step (step_tick (Nat.zero_le t₀)),
      run_cons_of_step (step_alloc le_rfl ha₁),run_cons_of_step (step_tick (by omega)),
      run_cons_of_step (step_update le_rfl ha₂),run_cons_of_step (step_update h₂.le ha₃),
      run_cons_of_step (step_tick (by omega)),run_cons_of_step (step_alloc le_rfl ha₄)]
    rfl
  · rw [hf₄,Function.update_of_ne hfg,hf₃,hf₂,hf0]
    rfl
  · rw [hf₄]
    simp

theorem stale_renewal_breaks_lease_bool :
    (false≠true ∧ 0 ≤ 1 ∧ 1 < 2 ∧ 2 ≤ 0+exclLifeTime) ∧
      ∃ w, run (World.init : World Bool Unit) [.tick 0,.alloc false () 0 0,.tick 2,.update false () 2,
          .update false () 1,.tick (1+exclLifeTime),.alloc true () 0 (1+exclLifeTime)]=
          some ([.ok (),.ok (),.ok (),.ok (),.ok (),.ok (),.ok ()],w) ∧
        (w.box.fidExcl false).isSome ∧ (w.box.fidExcl true).isSome ∧ 1+exclLifeTime < 2+exclLifeTime :=
  ⟨⟨Bool.false_ne_true,by decide,by decide,by norm_num [exclLifeTime]⟩,
    stale_renewal_breaks_lease Bool.false_ne_true () 0 (by decide) (by decide) (by norm_num [exclLifeTime])⟩

end Fossil.Exclusive
