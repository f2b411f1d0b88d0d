import Fossil.Source.Entry

/-!
# Entry generations

A source is opened on an entry slot of its parent directory and remembers
the slot's generation; `(*Source).load` answers `ERemoved` as soon as the
slot carries another generation. `(*Source).kill` with `doremove` bumps the
generation (saturating at `0xFFFFFFFF`) and clears the entry,
`(*Source).create` reuses a cleared slot with the generation it finds there
and skips retired ones, and `setEntry`, the data-tree updates and the
copy-on-write of entry blocks keep the generation.

The state is one directory's slot table, across the blocks of its data tree;
copying an entry block on write leaves the table as it is. The data-tree
updates (`setSize`, `growDepth`, `shrinkDepth`, the top step of
`(*Block).walk`) are one operation that rewrites depth, size, score, tag and
the local bit after a successful `load`.
-/

namespace Fossil.Gen

open Fossil.Source Fossil.Venti

/-- The generation of a retired slot. -/
def MaxGen : UInt32 := 0xFFFFFFFF

/-- One directory's entry slots. -/
structure DirState where
  /-- Entry at each slot offset. -/
  slots : Nat → Entry
  /-- Entries in use (`getDirSize`). -/
  size : Nat
  /-- Entries per block of the directory (`r.dsize/EntrySize`). -/
  epb : Nat
  /-- Entries per block of the directory's own parent (`r.epb`). -/
  repb : Nat
  epb_pos : 0 < epb
  repb_pos : 0 < repb

/-- What a source remembers of its entry: slot and generation. -/
structure Handle where
  /-- Slot offset in the parent (`r.offset`). -/
  offset : Nat
  /-- Generation when opened (`r.gen`). -/
  gen : UInt32
  deriving DecidableEq, Repr

/-- Errors of the modelled operations. -/
inductive Err where
  | removed
  | badEntry
  | cannotHappen
  deriving DecidableEq, Repr

/-- `(*Source).load`: the entry, unless the slot's generation moved on. -/
def load (s : DirState) (r : Handle) : Except Err Entry :=
  if (s.slots r.offset).gen=r.gen then .ok (s.slots r.offset) else .error .removed

/-- The entry check of `sourceAlloc`: a source opens only on an active slot
and remembers the slot's generation. Its other checks (block sizes, depth, tag,
snapshot epoch) only refuse more entries. -/
def sourceAlloc (s : DirState) (offset : Nat) : Except Err Handle :=
  if (s.slots offset).isActive then .ok ⟨offset,(s.slots offset).gen⟩ else .error .badEntry

/-- A slot `create` may take: inactive and not retired. -/
def free (e : Entry) : Bool :=
  !e.isActive && e.gen≠MaxGen

/-- Write one slot. -/
def setSlot (s : DirState) (k : Nat) (e : Entry) : DirState :=
  { s with slots := Function.update s.slots k e }

/-- The inner loop of `create` over the block holding `offset`: slots
`offset%r.epb` to `epb-1` of that block, the first free one. -/
def scanBlock (s : DirState) (offset : Nat) : Option Nat :=
  let bn := offset/s.epb
  (((List.range s.epb).filter fun i => offset%s.repb ≤ i).find? fun i => free (s.slots (bn*s.epb+i))).map
    fun i => bn*s.epb+i

/-- The entry `create` packs into the slot it found: the slot's generation is
kept, everything else is set afresh. -/
def createdEntry (e : Entry) (dsize : Nat) (dir : Bool) : Entry :=
  { e with
    psize := (dsize/ScoreSize*ScoreSize).toUInt16
    dsize := dsize.toUInt16
    flags := if dir then EntryActive ||| EntryDir else EntryActive
    depth := 0
    size := 0
    score := zeroScore
    tag := 0
    snap := 0
    archive := false }

@[simp] theorem createdEntry_gen (e : Entry) (dsize : Nat) (dir : Bool) :
    (createdEntry e dsize dir).gen=e.gen := rfl

@[simp] theorem createdEntry_isActive (e : Entry) (dsize : Nat) (dir : Bool) :
    (createdEntry e dsize dir).isActive=true := by
  cases dir with
  | false => simp [createdEntry,Entry.isActive,EntryActive]
  | true =>
    simp only [createdEntry,Entry.isActive,EntryActive,EntryDir]
    decide

/-- Take slot `k`: pack the new entry, grow the directory to cover it, and
open a source on it with the slot's generation. -/
def activate (s : DirState) (k dsize : Nat) (dir : Bool) : DirState × Except Err Handle :=
  ({ setSlot s k (createdEntry (s.slots k) dsize dir) with size := if s.size < k+1 then k+1 else s.size },
    .ok ⟨k,(s.slots k).gen⟩)

/-- `(*Source).create` from `start` (the caller's offset or the random draw,
already rounded to a block): the block holding it, then the last block. -/
def create (s : DirState) (dsize : Nat) (dir : Bool) (start : Nat) : DirState × Except Err Handle :=
  match scanBlock s start with
  | some k => activate s k dsize dir
  | none =>
    if start=s.size then (s,.error .cannotHappen)
    else
      match scanBlock s s.size with
      | some k => activate s k dsize dir
      | none => (s,.error .cannotHappen)

/-- The entry `kill` packs: with `doremove` the generation moves on unless
retired and the entry is cleared; otherwise only the local bit goes. -/
def killed (e : Entry) (doremove : Bool) : Entry :=
  let e := if doremove then
      { e with gen := if e.gen≠MaxGen then e.gen+1 else e.gen, dsize := 0, psize := 0, flags := 0 }
    else { e with flags := e.flags &&& ~~~EntryLocal }
  { e with depth := 0, size := 0, tag := 0, score := zeroScore }

/-- `(*Source).kill`: after a successful `load`, nothing to do for a truncate
of an empty source, otherwise the killed entry is packed. -/
def kill (s : DirState) (r : Handle) (doremove : Bool) : DirState × Except Err Unit :=
  match load s r with
  | .error err => (s,.error err)
  | .ok e => if !doremove ∧ e.size=0 then (s,.ok ()) else (setSlot s r.offset (killed e doremove),.ok ())

/-- A data-tree update of the entry: new depth, size, root score and tag, and
the local bit set or cleared. -/
def retree (e : Entry) (depth : UInt8) (size : UInt64) (score : Score) (tag : UInt32)
    (isLocal : Bool) : Entry :=
  { e with
    depth := depth
    size := size
    score := score
    tag := tag
    flags := if isLocal then e.flags ||| EntryLocal else e.flags &&& ~~~EntryLocal }

/-- A data-tree update through a source, after a successful `load`. -/
def update (s : DirState) (r : Handle) (depth : UInt8) (size : UInt64) (score : Score) (tag : UInt32)
    (isLocal : Bool) : DirState × Except Err Unit :=
  match load s r with
  | .error err => (s,.error err)
  | .ok e => (setSlot s r.offset (retree e depth size score tag isLocal),.ok ())

/-- `setEntry` (snapshot): the given entry, with the slot's own generation. -/
def setEntry (s : DirState) (r : Handle) (e : Entry) : DirState :=
  setSlot s r.offset { e with gen := (s.slots r.offset).gen }

/-- `Fs.snapshot` as it reaches a directory: under the exclusive epoch lock
the destination is created, then `(*File).snapshot` sets its entry to a copy
of the live source's entry, which is active. -/
def snapshot (s : DirState) (dsize : Nat) (dir : Bool) (start : Nat) (e : Entry) : DirState :=
  match create s dsize dir start with
  | (s',.ok r) => setEntry s' r e
  | (s',.error _) => s'

/-- The operations on a directory's slots. -/
inductive Op where
  | create (dsize : Nat) (dir : Bool) (start : Nat)
  | kill (r : Handle) (doremove : Bool)
  | update (r : Handle) (depth : UInt8) (size : UInt64) (score : Score) (tag : UInt32) (isLocal : Bool)
  | snapshot (dsize : Nat) (dir : Bool) (start : Nat) (e : Entry) (active : e.isActive=true)

/-- One operation's effect on the slots. -/
def step (s : DirState) : Op → DirState
  | .create dsize dir start => (create s dsize dir start).1
  | .kill r doremove => (kill s r doremove).1
  | .update r depth size score tag isLocal => (update s r depth size score tag isLocal).1
  | .snapshot dsize dir start e _ => snapshot s dsize dir start e

/-- A run of operations. -/
def run (s : DirState) (ops : List Op) : DirState :=
  ops.foldl step s

/-- A directory nobody has written: every slot is all zero. -/
def initDir (epb repb : Nat) (h1 : 0 < epb) (h2 : 0 < repb) : DirState :=
  ⟨fun _ => zeroEntry,0,epb,repb,h1,h2⟩

/-- States some run from an empty directory reaches. -/
def Reachable (s : DirState) : Prop :=
  ∃ ops, run (initDir s.epb s.repb s.epb_pos s.repb_pos) ops=s

/-- No active slot is retired. -/
def Inv (s : DirState) : Prop :=
  ∀ k, (s.slots k).isActive=true → (s.slots k).gen≠MaxGen

@[simp] theorem run_nil (s : DirState) : run s []=s := rfl

@[simp] theorem run_cons (s : DirState) (op : Op) (ops : List Op) :
    run s (op::ops)=run (step s op) ops := rfl

theorem run_append (s : DirState) (ops₁ ops₂ : List Op) :
    run s (ops₁++ops₂)=run (run s ops₁) ops₂ := by
  simp [run,List.foldl_append]

@[simp] theorem setSlot_slots (s : DirState) (k : Nat) (e : Entry) (j : Nat) :
    (setSlot s k e).slots j=if j=k then e else s.slots j := by
  simp [setSlot,Function.update_apply]

/-! ## What each operation does to a slot -/

theorem scanBlock_free {s : DirState} {o k : Nat} (h : scanBlock s o=some k) :
    free (s.slots k)=true := by
  unfold scanBlock at h
  obtain ⟨i,hi,rfl⟩ := Option.map_eq_some_iff.mp h
  simpa using List.find?_some hi

/-- `create` either changes nothing and fails, or takes one free slot `k`,
keeping its generation, and opens a source on it. -/
theorem create_cases (s : DirState) (dsize : Nat) (dir : Bool) (start : Nat) :
    ((create s dsize dir start).1.slots=s.slots ∧ ∃ err, (create s dsize dir start).2=.error err) ∨
    ∃ k, free (s.slots k)=true ∧
      (create s dsize dir start).1.slots=Function.update s.slots k (createdEntry (s.slots k) dsize dir) ∧
      (create s dsize dir start).2=.ok ⟨k,(s.slots k).gen⟩ := by
  unfold create
  cases h₁ : scanBlock s start with
  | some k => exact Or.inr ⟨k,scanBlock_free h₁,rfl,rfl⟩
  | none =>
    by_cases hs : start=s.size
    · exact Or.inl ⟨by simp [hs],.cannotHappen,by simp [hs]⟩
    · cases h₂ : scanBlock s s.size with
      | some k => exact Or.inr ⟨k,scanBlock_free h₂,by simp [hs,activate,setSlot],by simp [hs,activate]⟩
      | none => exact Or.inl ⟨by simp [hs],.cannotHappen,by simp [hs]⟩

/-- `kill` changes at most the handle's slot, and only when the generations
agree. -/
theorem kill_cases (s : DirState) (r : Handle) (doremove : Bool) :
    (kill s r doremove).1.slots=s.slots ∨
    ((s.slots r.offset).gen=r.gen ∧
      (kill s r doremove).1.slots=Function.update s.slots r.offset (killed (s.slots r.offset) doremove)) := by
  unfold kill load
  by_cases hg : (s.slots r.offset).gen=r.gen
  · rw [if_pos hg]
    dsimp only
    split
    · exact Or.inl rfl
    · exact Or.inr ⟨hg,rfl⟩
  · rw [if_neg hg]
    exact Or.inl rfl

/-- An update changes at most the handle's slot, and only when the
generations agree. -/
theorem update_cases (s : DirState) (r : Handle) (depth : UInt8) (size : UInt64) (score : Score)
    (tag : UInt32) (isLocal : Bool) :
    (update s r depth size score tag isLocal).1.slots=s.slots ∨
    (update s r depth size score tag isLocal).1.slots=
      Function.update s.slots r.offset (retree (s.slots r.offset) depth size score tag isLocal) := by
  unfold update load
  by_cases hg : (s.slots r.offset).gen=r.gen
  · rw [if_pos hg]
    exact Or.inr rfl
  · rw [if_neg hg]
    exact Or.inl rfl

/-- A snapshot either changes nothing or takes one free slot `k` and writes
the copied entry there with the slot's generation. -/
theorem snapshot_cases (s : DirState) (dsize : Nat) (dir : Bool) (start : Nat) (e : Entry) :
    (snapshot s dsize dir start e).slots=s.slots ∨
    ∃ k, free (s.slots k)=true ∧
      (snapshot s dsize dir start e).slots=Function.update s.slots k { e with gen := (s.slots k).gen } := by
  unfold snapshot
  rcases hc : create s dsize dir start with ⟨s',r⟩
  rcases create_cases s dsize dir start with ⟨hsl,err,herr⟩ | ⟨k,hk,hsl,hok⟩
  · rw [hc] at herr hsl
    dsimp only at herr hsl
    subst herr
    exact Or.inl hsl
  · rw [hc] at hok hsl
    dsimp only at hok hsl
    subst hok
    refine Or.inr ⟨k,hk,?_⟩
    simp only [setEntry,setSlot,hsl,Function.update_self,createdEntry_gen,Function.update_idem]

/-! ## Generations -/

theorem gen_succ_toNat {g : UInt32} (h : g≠MaxGen) : (g+1).toNat=g.toNat+1 := by
  have hne : g.toNat≠4294967295 := fun he => h (UInt32.toNat_inj.mp (by simp [MaxGen,he]))
  have hlt := g.toNat_lt
  rw [UInt32.toNat_add]
  simp only [UInt32.toNat_one]
  omega

@[simp] theorem retree_gen (e : Entry) (depth : UInt8) (size : UInt64) (score : Score) (tag : UInt32)
    (isLocal : Bool) : (retree e depth size score tag isLocal).gen=e.gen := rfl

@[simp] theorem retree_isActive (e : Entry) (depth : UInt8) (size : UInt64) (score : Score) (tag : UInt32)
    (isLocal : Bool) : (retree e depth size score tag isLocal).isActive=e.isActive := by
  cases isLocal <;> simp [retree,Entry.isActive]

@[simp] theorem killed_false_gen (e : Entry) : (killed e false).gen=e.gen := rfl

@[simp] theorem killed_false_isActive (e : Entry) : (killed e false).isActive=e.isActive := by
  simp [killed,Entry.isActive]

@[simp] theorem killed_true_isActive (e : Entry) : (killed e true).isActive=false := by
  simp [killed,Entry.isActive]

/-- Removing moves the generation past every non-retired generation up to the
slot's own. -/
theorem killed_true_gen_gt (e : Entry) {g : UInt32} (hg : g≠MaxGen) (hle : g.toNat ≤ e.gen.toNat) :
    g.toNat < (killed e true).gen.toNat := by
  have hk : (killed e true).gen=if e.gen≠MaxGen then e.gen+1 else e.gen := rfl
  rw [hk]
  by_cases he : e.gen=MaxGen
  · have hgne : g.toNat≠MaxGen.toNat := fun h' => hg (UInt32.toNat_inj.mp h')
    have hmax : MaxGen.toNat=4294967295 := rfl
    rw [if_neg (not_not.mpr he),he]
    rw [he] at hle
    omega
  · rw [if_pos he,gen_succ_toNat he]
    omega

theorem killed_gen_le (e : Entry) (doremove : Bool) : e.gen.toNat ≤ (killed e doremove).gen.toNat := by
  cases doremove with
  | false => exact le_refl _
  | true =>
    have hk : (killed e true).gen=if e.gen≠MaxGen then e.gen+1 else e.gen := rfl
    rw [hk]
    by_cases he : e.gen=MaxGen
    · rw [if_neg (not_not.mpr he)]
    · rw [if_pos he,gen_succ_toNat he]
      omega

/-- Writing a slot with a generation at least its own lowers no slot's
generation. -/
theorem gen_mono_of_update {f : Nat → Entry} {k : Nat} {e' : Entry}
    (h : (f k).gen.toNat ≤ e'.gen.toNat) (j : Nat) :
    (f j).gen.toNat ≤ (Function.update f k e' j).gen.toNat := by
  rw [Function.update_apply]
  split
  · subst_vars
    exact h
  · exact le_refl _

/-- No operation lowers a slot's generation. -/
theorem step_gen_mono (s : DirState) (op : Op) (j : Nat) :
    (s.slots j).gen.toNat ≤ ((step s op).slots j).gen.toNat := by
  cases op with
  | create dsize dir start =>
    rcases create_cases s dsize dir start with ⟨h,-⟩ | ⟨k,-,h,-⟩
    · simp [step,h]
    · rw [step,h]
      exact gen_mono_of_update (by simp) j
  | kill r doremove =>
    rcases kill_cases s r doremove with h | ⟨-,h⟩
    · simp [step,h]
    · rw [step,h]
      exact gen_mono_of_update (killed_gen_le _ _) j
  | update r depth size score tag isLocal =>
    rcases update_cases s r depth size score tag isLocal with h | h
    · simp [step,h]
    · rw [step,h]
      exact gen_mono_of_update (by simp) j
  | snapshot dsize dir start e _ =>
    rcases snapshot_cases s dsize dir start e with h | ⟨k,-,h⟩
    · simp [step,h]
    · rw [step,h]
      exact gen_mono_of_update (by simp) j

theorem run_gen_mono (s : DirState) (ops : List Op) (j : Nat) :
    (s.slots j).gen.toNat ≤ ((run s ops).slots j).gen.toNat := by
  induction ops generalizing s with
  | nil => exact le_refl _
  | cons op ops ih => exact (step_gen_mono s op j).trans (ih (step s op))

/-! ## Retired slots stay inactive -/

theorem free_gen {e : Entry} (h : free e=true) : e.gen≠MaxGen := by
  simp only [free,Bool.and_eq_true,Bool.not_eq_true',decide_eq_true_eq] at h
  exact h.2

theorem inv_initDir (epb repb : Nat) (h1 : 0 < epb) (h2 : 0 < repb) : Inv (initDir epb repb h1 h2) := by
  intro k hk
  simp [initDir,zeroEntry,Entry.isActive,EntryActive] at hk

theorem inv_of_slots_eq {s t : DirState} (hs : Inv s) (h : t.slots=s.slots) : Inv t := by
  intro j
  rw [h]
  exact hs j

/-- Writing one slot keeps the invariant when the written entry is inactive
or not retired. -/
theorem inv_of_update {s t : DirState} (hs : Inv s) {k : Nat} {e : Entry}
    (h : t.slots=Function.update s.slots k e) (he : e.isActive=true → e.gen≠MaxGen) : Inv t := by
  intro j
  rw [h,Function.update_apply]
  split
  · exact he
  · exact hs j

theorem inv_step {s : DirState} (hs : Inv s) (op : Op) : Inv (step s op) := by
  cases op with
  | create dsize dir start =>
    rcases create_cases s dsize dir start with ⟨h,-⟩ | ⟨k,hk,h,-⟩
    · exact inv_of_slots_eq hs h
    · exact inv_of_update hs h (fun _ => by simpa using free_gen hk)
  | kill r doremove =>
    rcases kill_cases s r doremove with h | ⟨-,h⟩
    · exact inv_of_slots_eq hs h
    · refine inv_of_update hs h ?_
      cases doremove with
      | false =>
        intro ha
        rw [killed_false_isActive] at ha
        simpa using hs _ ha
      | true => simp
  | update r depth size score tag isLocal =>
    rcases update_cases s r depth size score tag isLocal with h | h
    · exact inv_of_slots_eq hs h
    · refine inv_of_update hs h ?_
      intro ha
      rw [retree_isActive] at ha
      simpa using hs _ ha
  | snapshot dsize dir start e _ =>
    rcases snapshot_cases s dsize dir start e with h | ⟨k,hk,h⟩
    · exact inv_of_slots_eq hs h
    · exact inv_of_update hs h (fun _ => (free_gen hk : (s.slots k).gen≠MaxGen))

theorem inv_run {s : DirState} (hs : Inv s) (ops : List Op) : Inv (run s ops) := by
  induction ops generalizing s with
  | nil => exact hs
  | cons op ops ih => exact ih (inv_step hs op)

theorem inv_reachable {s : DirState} (h : Reachable s) : Inv s := by
  obtain ⟨ops,hops⟩ := h
  rw [← hops]
  exact inv_run (inv_initDir _ _ _ _) ops

/-! ## Stale handles -/

theorem sourceAlloc_ok {s : DirState} {offset : Nat} {r : Handle} (h : sourceAlloc s offset=.ok r) :
    (s.slots offset).isActive=true ∧ r=⟨offset,(s.slots offset).gen⟩ := by
  unfold sourceAlloc at h
  split at h
  · rename_i ha
    cases h
    exact ⟨ha,rfl⟩
  · cases h

theorem load_of_gen_ne {s : DirState} {r : Handle} (h : (s.slots r.offset).gen≠r.gen) :
    load s r=.error .removed := by
  simp [load,h]

/-- A removal that goes through finds the handle's generation in the slot and
writes the killed entry there. -/
theorem kill_true_ok {s : DirState} {r : Handle} (h : (kill s r true).2=.ok ()) :
    (s.slots r.offset).gen=r.gen ∧
      (kill s r true).1.slots=Function.update s.slots r.offset (killed (s.slots r.offset) true) := by
  by_cases hg : (s.slots r.offset).gen=r.gen
  · refine ⟨hg,?_⟩
    simp [kill,load,hg,setSlot]
  · simp [kill,load,hg] at h

/-- A successful `create` hands out a free slot with that slot's generation. -/
theorem create_ok {s : DirState} {dsize : Nat} {dir : Bool} {start : Nat} {h : Handle}
    (hc : (create s dsize dir start).2=.ok h) :
    free (s.slots h.offset)=true ∧ h.gen=(s.slots h.offset).gen ∧
      (create s dsize dir start).1.slots=Function.update s.slots h.offset (createdEntry (s.slots h.offset) dsize dir) := by
  rcases create_cases s dsize dir start with ⟨-,err,herr⟩ | ⟨k,hk,hsl,hok⟩
  · rw [hc] at herr
    cases herr
  · rw [hc] at hok
    cases hok
    exact ⟨hk,rfl,hsl⟩

/-- Once a removal of the slot went through, the slot's generation stays
above every non-retired generation the slot had before, whatever follows. -/
theorem gen_gt_after_kill {s : DirState} {offset : Nat} {g : UInt32} (hg : g≠MaxGen)
    (hle : g.toNat ≤ (s.slots offset).gen.toNat) {r' : Handle} (hoff : r'.offset=offset)
    (hkill : (kill s r' true).2=.ok ()) (ops : List Op) :
    g.toNat < ((run (step s (.kill r' true)) ops).slots offset).gen.toNat := by
  obtain ⟨-,hsl⟩ := kill_true_ok hkill
  subst hoff
  have hkilled : ((step s (.kill r' true)).slots r'.offset)=killed (s.slots r'.offset) true := by
    simp [step,hsl]
  calc g.toNat < (killed (s.slots r'.offset) true).gen.toNat := killed_true_gen_gt _ hg hle
    _=((step s (.kill r' true)).slots r'.offset).gen.toNat := by rw [hkilled]
    _ ≤ ((run (step s (.kill r' true)) ops).slots r'.offset).gen.toNat := run_gen_mono _ ops _

/-- A source opened on a slot of a reachable directory is dead for good once
any removal of that slot goes through: every later `load` through it answers
`ERemoved`, and a `create` that reuses the slot hands out another generation.
Along the way `create` takes only slots that are not retired, keeps their
generation and activates them, and no operation lowers a generation. -/
theorem kill_retires_generation {s : DirState} (hs : Reachable s) {offset : Nat} {r : Handle}
    (hr : sourceAlloc s offset=.ok r) (ops₁ : List Op) {r' : Handle} (hoff : r'.offset=offset)
    (hkill : (kill (run s ops₁) r' true).2=.ok ()) (ops₂ : List Op) :
    load (run (step (run s ops₁) (.kill r' true)) ops₂) r=.error .removed ∧
    (∀ dsize dir start h, (create (run (step (run s ops₁) (.kill r' true)) ops₂) dsize dir start).2=.ok h →
      h.offset=offset → h.gen≠r.gen) ∧
    (∀ (t : DirState) dsize dir start h, (create t dsize dir start).2=.ok h →
      (t.slots h.offset).gen≠MaxGen ∧
      ((create t dsize dir start).1.slots h.offset).gen=(t.slots h.offset).gen ∧
      ((create t dsize dir start).1.slots h.offset).isActive=true) ∧
    ∀ (t : DirState) ops j, (t.slots j).gen.toNat ≤ ((run t ops).slots j).gen.toNat := by
  obtain ⟨hact,rfl⟩ := sourceAlloc_ok hr
  -- the handle's generation is not retired: the slot was active when it opened
  have hg : (s.slots offset).gen≠MaxGen := inv_reachable hs offset hact
  have hgt : ∀ ops₂, (s.slots offset).gen.toNat<
      ((run (step (run s ops₁) (.kill r' true)) ops₂).slots offset).gen.toNat :=
    gen_gt_after_kill hg (run_gen_mono s ops₁ offset) hoff hkill
  have hne : ∀ ops₂, ((run (step (run s ops₁) (.kill r' true)) ops₂).slots offset).gen≠(s.slots offset).gen :=
    fun ops₂ he => by
      have := hgt ops₂
      rw [he] at this
      exact lt_irrefl _ this
  refine ⟨load_of_gen_ne (hne ops₂),?_,?_,run_gen_mono⟩
  · intro dsize dir start h hc hoff'
    obtain ⟨-,hgen,-⟩ := create_ok hc
    rw [hgen,hoff']
    exact hne ops₂
  · intro t dsize dir start h hc
    obtain ⟨hfree,-,hsl⟩ := create_ok hc
    simp [hsl,free_gen hfree]

/-- A file created in an empty one-entry directory, removed, and its slot
created again: the old source answers `ERemoved` and the new one carries
generation 1. -/
theorem kill_retires_generation_reuse :
    load (run (step (run (run (initDir 1 1 Nat.one_pos Nat.one_pos) [.create 8192 false 0]) [])
      (.kill ⟨0,0⟩ true)) [.create 8192 false 0]) ⟨0,0⟩=.error .removed :=
  (@kill_retires_generation _ ⟨[.create 8192 false 0],rfl⟩ 0 _ rfl [] ⟨0,0⟩ rfl rfl
    [.create 8192 false 0]).1

end Fossil.Gen
