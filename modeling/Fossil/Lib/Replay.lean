import Mathlib

/-!
# Replaying slot writes

A buffer is a function from slots to values; a list of writes is replayed
left to right with `Function.update`. Each slot ends with the value of the
last write that names it, or keeps its value when none does. The lemmas are
stated for any slot type, any value type and any way of reading a slot and a
value off a list element.
-/

namespace Replay

variable {ι α β : Type*} [DecidableEq ι]

/-- Replay `xs` over `buf`: each element writes `val x` to slot `key x`. -/
def replay (key : β → ι) (val : β → α) (buf : ι → α) (xs : List β) : ι → α :=
  xs.foldl (fun f x => Function.update f (key x) (val x)) buf

/-- Value of slot `i` after the writes `xs`, starting from `cur`: the last
write to `i` wins. -/
def lastWrite (key : β → ι) (val : β → α) (i : ι) : α → List β → α
  | cur, [] => cur
  | cur, x :: xs => lastWrite key val i (if key x = i then val x else cur) xs

@[simp] theorem replay_nil (key : β → ι) (val : β → α) (buf : ι → α) :
    replay key val buf []=buf := rfl

@[simp] theorem replay_cons (key : β → ι) (val : β → α) (buf : ι → α) (x : β) (xs : List β) :
    replay key val buf (x::xs)=replay key val (Function.update buf (key x) (val x)) xs := rfl

@[simp] theorem lastWrite_nil (key : β → ι) (val : β → α) (i : ι) (cur : α) :
    lastWrite key val i cur []=cur := rfl

/-- Replaying writes leaves slot `i` with the last write to `i`. -/
theorem replay_apply (key : β → ι) (val : β → α) (buf : ι → α) (xs : List β) (i : ι) :
    replay key val buf xs i=lastWrite key val i (buf i) xs := by
  induction xs generalizing buf with
  | nil => rfl
  | cons x xs ih =>
    rw [replay_cons,ih,lastWrite]
    by_cases hx : key x=i
    · subst hx
      simp
    · simp [hx,Function.update_of_ne (Ne.symm hx)]

/-- A slot no write names keeps its starting value. -/
theorem lastWrite_of_forall_ne (key : β → ι) (val : β → α) (i : ι) (cur : α) (xs : List β)
    (h : ∀ x ∈ xs, key x≠i) : lastWrite key val i cur xs=cur := by
  induction xs generalizing cur with
  | nil => rfl
  | cons x xs ih =>
    have hx : key x≠i := h x (by simp)
    rw [lastWrite,if_neg hx]
    exact ih cur (fun y hy => h y (by simp [hy]))

/-- One write to a slot of a list without repeats, summed over the list: the written slot's term
changes and no other. -/
theorem sum_map_update_of_mem {l : List ι} (hl : l.Nodup) {i : ι} (hi : i ∈ l) (buf : ι → α) (a : α)
    (f : α → Nat) :
    (l.map fun j => f (Function.update buf i a j)).sum+f (buf i)=(l.map fun j => f (buf j)).sum+f a := by
  induction l with
  | nil => simp at hi
  | cons j l ih =>
    rw [List.nodup_cons] at hl
    rcases List.mem_cons.mp hi with rfl | hi
    · have hrest : (l.map fun k => f (Function.update buf i a k))=l.map fun k => f (buf k) :=
        List.map_congr_left fun k hk => by rw [Function.update_of_ne (fun e : k=i => hl.1 (e ▸ hk))]
      simp only [List.map_cons,List.sum_cons,Function.update_self,hrest]
      omega
    · have hj : j≠i := fun e => hl.1 (e ▸ hi)
      simp only [List.map_cons,List.sum_cons,Function.update_of_ne hj]
      have := ih hl.2 hi
      omega

end Replay
