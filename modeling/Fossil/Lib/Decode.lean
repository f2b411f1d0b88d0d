import Mathlib.Data.Option.Basic
import Mathlib.Data.List.Basic

/-!
# Decoders that read back what an encoder writes

A decoder takes a value off the front of a list and returns it with the rest, or fails; an
encoder writes a value, or fails. `Inverse enc dec` says that `dec` reads back, in front of
anything, exactly what `enc` writes, and that whatever `dec` accepts is such a writing followed by
the rest. The first half is the round trip; the second says the decoder accepts one spelling of
each value and nothing else.

Reading a fixed number of values one after another (`many`) keeps the property for the encoder
that writes exactly that many (`encN`).
-/

namespace Decode

variable {α β : Type*}

/-- `dec` reads back, in front of any suffix, what `enc` writes, and reads nothing else. -/
structure Inverse (enc : α → Option (List β)) (dec : List β → Option (α × List β)) : Prop where
  dec_enc : ∀ {x p} (r : List β), enc x=some p → dec (p++r)=some (x,r)
  enc_dec : ∀ {b x r}, dec b=some (x,r) → ∃ p, enc x=some p ∧ b=p++r

/-- What `dec` accepts is exactly what `enc` writes, followed by anything. -/
theorem Inverse.eq_some_iff {enc : α → Option (List β)} {dec : List β → Option (α × List β)} (h : Inverse enc dec)
    {b : List β} {x : α} {r : List β} : dec b=some (x,r) ↔ ∃ p, enc x=some p ∧ b=p++r := by
  constructor
  · exact h.enc_dec
  · rintro ⟨p,hp,rfl⟩
    exact h.dec_enc r hp

/-- A read followed by the rest of a decoder accepts exactly a value `enc` writes, in front of what
the rest accepts from the bytes after it. -/
theorem Inverse.bind_eq_some {enc : α → Option (List β)} {dec : List β → Option (α × List β)} (h : Inverse enc dec)
    {γ : Type*} {f : α × List β → Option γ} {b : List β} {c : γ} :
    (dec b).bind f=some c ↔ ∃ x p r, enc x=some p ∧ b=p++r ∧ f (x,r)=some c := by
  rw [Option.bind_eq_some_iff]
  constructor
  · rintro ⟨⟨x,r⟩,hd,hf⟩
    obtain ⟨p,hp,rfl⟩ := h.enc_dec hd
    exact ⟨x,p,r,hp,rfl,hf⟩
  · rintro ⟨x,p,r,hp,rfl,hf⟩
    exact ⟨(x,r),h.dec_enc r hp,hf⟩

/-- Reading `n` values one after another. -/
def many (dec : List β → Option (α × List β)) : Nat → List β → Option (List α × List β)
  | 0, b => some ([],b)
  | n+1, b => do
    let (x,b) ← dec b
    let (xs,b) ← many dec n b
    pure (x::xs,b)

/-- Writing values one after another. -/
def encAll (enc : α → Option (List β)) : List α → Option (List β)
  | [] => some []
  | x::xs => do
    let p ← enc x
    let q ← encAll enc xs
    pure (p++q)

/-- Writing exactly `n` values. -/
def encN (enc : α → Option (List β)) (n : Nat) (xs : List α) : Option (List β) :=
  if xs.length=n then encAll enc xs else none

section

variable {enc : α → Option (List β)} {dec : List β → Option (α × List β)}

@[simp] theorem many_zero (b : List β) : many dec 0 b=some ([],b) := rfl

theorem many_succ (n : Nat) (b : List β) :
    many dec (n+1) b=(dec b).bind fun p => (many dec n p.2).map fun q => (p.1::q.1,q.2) := by
  rcases hd : dec b with _ | ⟨x,b'⟩
  · simp [many,hd]
  · rcases hm : many dec n b' with _ | ⟨xs,b''⟩ <;> simp [many,hd,hm]

@[simp] theorem encAll_nil : encAll enc []=some [] := rfl

theorem encAll_cons (x : α) (xs : List α) :
    encAll enc (x::xs)=(enc x).bind fun p => (encAll enc xs).map fun q => p++q := by
  rcases hx : enc x with _ | p
  · simp [encAll,hx]
  · rcases hq : encAll enc xs with _ | q <;> simp [encAll,hx,hq]

/-- What `encN` writes is what `encAll` writes, for a list of the length asked for. -/
theorem encN_eq_some {n : Nat} {xs : List α} {p : List β} :
    encN enc n xs=some p ↔ xs.length=n ∧ encAll enc xs=some p := by
  unfold encN
  split_ifs with h <;> simp [h]

/-- Reading `n` values reads back `n` values written one after another, and accepts nothing
else: the induction is on `n`, one value peeled off the front at each step. -/
theorem Inverse.many (h : Inverse enc dec) (n : Nat) : Inverse (encN enc n) (many dec n) := by
  induction n with
  | zero =>
    refine ⟨fun r hp => ?_,fun hd => ?_⟩
    · obtain ⟨hl,he⟩ := encN_eq_some.mp hp
      obtain rfl := List.length_eq_zero_iff.mp hl
      cases he
      rfl
    · cases hd
      exact ⟨[],rfl,rfl⟩
  | succ n ih =>
    refine ⟨fun {xs p} r hp => ?_,fun {b xs r} hd => ?_⟩
    · obtain ⟨hl,he⟩ := encN_eq_some.mp hp
      obtain ⟨x,xs,rfl⟩ := List.exists_cons_of_length_eq_add_one hl
      rw [encAll_cons,Option.bind_eq_some_iff] at he
      obtain ⟨p1,hp1,he⟩ := he
      obtain ⟨q,hq,rfl⟩ := Option.map_eq_some_iff.mp he
      have hrest : Decode.many dec n (q++r)=some (xs,r) :=
        ih.dec_enc r (encN_eq_some.mpr ⟨by simpa using hl,hq⟩)
      rw [many_succ,List.append_assoc,h.dec_enc _ hp1,Option.bind_some,hrest]
      rfl
    · rw [many_succ,Option.bind_eq_some_iff] at hd
      obtain ⟨⟨x,b1⟩,hx,hd⟩ := hd
      obtain ⟨⟨xs',r'⟩,hxs,hd⟩ := Option.map_eq_some_iff.mp hd
      cases hd
      obtain ⟨p1,hp1,rfl⟩ := h.enc_dec hx
      obtain ⟨q,hq,rfl⟩ := ih.enc_dec hxs
      obtain ⟨hl,hq⟩ := encN_eq_some.mp hq
      refine ⟨p1++q,encN_eq_some.mpr ⟨by simp [hl],?_⟩,(List.append_assoc _ _ _).symm⟩
      rw [encAll_cons,hp1,Option.bind_some,hq]
      rfl

end

end Decode
