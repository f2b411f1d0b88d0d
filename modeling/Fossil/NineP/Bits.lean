import Fossil.NineP.DirRead
import Fossil.Lib.Decode

/-!
# Reading the fields of 9P messages

`internal/plan9` writes a message's fields little-endian (`pbit8` to `pbit64`), a string as its
16-bit length and its bytes (`pstring`), a qid as its type, version and path (`pqid`); those
writers are in `Fossil.NineP.DirRead`. Here are the readers of `bit.go` and `dir.go` (`gbit8` to
`gbit64`, `gstring`, `gqid`, `gperm`), which panic on a slice too short for what they read.

Each reader is the inverse of its writer (`Decode.Inverse`): it reads back, in front of anything,
what the writer wrote, and it accepts nothing else. For the words this is arithmetic on the
bytes' values (`word16_toNat` to `word64_toNat`).
-/

namespace Fossil.Plan9

open Decode

/-- `gbit8`. -/
def gbit8 : List UInt8 → Option (UInt8 × List UInt8)
  | x::b => some (x,b)
  | [] => none

/-- `gbit16`: 9P is little-endian. -/
def gbit16 : List UInt8 → Option (UInt16 × List UInt8)
  | x0::x1::b => some (x0.toUInt16 ||| x1.toUInt16 <<< 8,b)
  | _ => none

def gbit32 : List UInt8 → Option (UInt32 × List UInt8)
  | x0::x1::x2::x3::b => some (x0.toUInt32 ||| x1.toUInt32 <<< 8 ||| x2.toUInt32 <<< 16 ||| x3.toUInt32 <<< 24,b)
  | _ => none

/-- `gbit64`: the low word, then the high word. -/
def gbit64 (b : List UInt8) : Option (UInt64 × List UInt8) := do
  let (lo,b) ← gbit32 b
  let (hi,b) ← gbit32 b
  pure (hi.toUInt64 <<< 32 ||| lo.toUInt64,b)

/-- `gstring`: the length, then the bytes; `b[n:]` panics past the end of the slice. -/
def gstring (b : List UInt8) : Option (List UInt8 × List UInt8) := do
  let (n,b) ← gbit16 b
  if b.length < n.toNat then none else pure (b.take n.toNat,b.drop n.toNat)

/-- `gqid`: the type, the version, the path. -/
def gqid (b : List UInt8) : Option (Qid × List UInt8) := do
  let (type,b) ← gbit8 b
  let (vers,b) ← gbit32 b
  let (path,b) ← gbit64 b
  pure (⟨path,vers,type⟩,b)

/-- `gperm`: a `Perm` is a `uint32`. -/
def gperm (b : List UInt8) : Option (UInt32 × List UInt8) :=
  gbit32 b

/-- `pperm`. -/
def pperm (p : UInt32) : List UInt8 :=
  pbit32 p

/-! ## Words -/

theorem or_shiftLeft_eq_add {a b : Nat} (k : Nat) (ha : a < 2^k) : a ||| b <<< k=a+b*2^k := by
  rw [Nat.lor_comm,← Nat.shiftLeft_add_eq_or_of_lt ha,Nat.shiftLeft_eq]
  omega

/-- The word `gbit16` reads from two bytes. -/
theorem word16_toNat (x0 x1 : UInt8) : (x0.toUInt16 ||| x1.toUInt16 <<< 8).toNat=x0.toNat+x1.toNat*2^8 := by
  have h0 := x0.toNat_lt
  have h1 := x1.toNat_lt
  simp only [UInt16.toNat_or,UInt16.toNat_shiftLeft,UInt8.toNat_toUInt16]
  rw [show UInt16.toNat 8 % 16=8 from rfl,Nat.mod_eq_of_lt (by rw [Nat.shiftLeft_eq]; omega),
    or_shiftLeft_eq_add 8 (by omega)]

/-- The word `gbit32` reads from four bytes. -/
theorem word32_toNat (x0 x1 x2 x3 : UInt8) :
    (x0.toUInt32 ||| x1.toUInt32 <<< 8 ||| x2.toUInt32 <<< 16 ||| x3.toUInt32 <<< 24).toNat=
      x0.toNat+x1.toNat*2^8+x2.toNat*2^16+x3.toNat*2^24 := by
  have h0 := x0.toNat_lt
  have h1 := x1.toNat_lt
  have h2 := x2.toNat_lt
  have h3 := x3.toNat_lt
  simp only [UInt32.toNat_or,UInt32.toNat_shiftLeft,UInt8.toNat_toUInt32]
  rw [show UInt32.toNat 8 % 32=8 from rfl,show UInt32.toNat 16 % 32=16 from rfl,show UInt32.toNat 24 % 32=24 from rfl,
    Nat.mod_eq_of_lt (a := _ <<< 8) (by rw [Nat.shiftLeft_eq]; omega),
    Nat.mod_eq_of_lt (a := _ <<< 16) (by rw [Nat.shiftLeft_eq]; omega),
    Nat.mod_eq_of_lt (a := _ <<< 24) (by rw [Nat.shiftLeft_eq]; omega),
    or_shiftLeft_eq_add 8 (by omega),or_shiftLeft_eq_add 16 (by omega),or_shiftLeft_eq_add 24 (by omega)]

/-! ## Each reader inverts its writer -/

theorem inverse_gbit8 : Inverse (fun x => some (pbit8 x)) gbit8 := by
  refine ⟨fun {x p} r hp => ?_,fun {b x r} h => ?_⟩
  · cases hp
    rfl
  · rcases b with _ | ⟨x0,b⟩
    · cases h
    cases h
    exact ⟨_,rfl,rfl⟩

theorem inverse_gbit16 : Inverse (fun x => some (pbit16 x)) gbit16 := by
  refine ⟨fun {x p} r hp => ?_,fun {b x r} h => ?_⟩
  · cases hp
    have hx := x.toNat_lt
    have hw : x.toUInt8.toUInt16 ||| (x >>> 8).toUInt8.toUInt16 <<< 8=x := by
      apply UInt16.toNat_inj.mp
      rw [word16_toNat]
      simp [UInt16.toNat_shiftRight,Nat.shiftRight_eq_div_pow]
      omega
    simp only [pbit16,List.cons_append,List.nil_append,gbit16,hw]
  · rcases b with _ | ⟨x0,_ | ⟨x1,b⟩⟩
    · cases h
    · cases h
    cases h
    refine ⟨_,rfl,?_⟩
    have hw := word16_toNat x0 x1
    have h0 := x0.toNat_lt
    have h1 := x1.toNat_lt
    simp only [pbit16,List.cons_append,List.nil_append,List.cons.injEq,and_true]
    constructor <;> apply UInt8.toNat_inj.mp <;>
      simp only [UInt16.toNat_toUInt8,UInt16.toNat_shiftRight,hw,Nat.shiftRight_eq_div_pow,UInt16.reduceToNat,
        Nat.reduceMod,Nat.reducePow] <;> omega

theorem inverse_gbit32 : Inverse (fun x => some (pbit32 x)) gbit32 := by
  refine ⟨fun {x p} r hp => ?_,fun {b x r} h => ?_⟩
  · cases hp
    have hx := x.toNat_lt
    have hw : x.toUInt8.toUInt32 ||| (x >>> 8).toUInt8.toUInt32 <<< 8 ||| (x >>> 16).toUInt8.toUInt32 <<< 16 |||
        (x >>> 24).toUInt8.toUInt32 <<< 24=x := by
      apply UInt32.toNat_inj.mp
      rw [word32_toNat]
      simp [UInt32.toNat_shiftRight,Nat.shiftRight_eq_div_pow]
      omega
    simp only [pbit32,List.cons_append,List.nil_append,gbit32,hw]
  · rcases b with _ | ⟨x0,_ | ⟨x1,_ | ⟨x2,_ | ⟨x3,b⟩⟩⟩⟩
    · cases h
    · cases h
    · cases h
    · cases h
    cases h
    refine ⟨_,rfl,?_⟩
    have hw := word32_toNat x0 x1 x2 x3
    have h0 := x0.toNat_lt
    have h1 := x1.toNat_lt
    have h2 := x2.toNat_lt
    have h3 := x3.toNat_lt
    simp only [pbit32,List.cons_append,List.nil_append,List.cons.injEq,and_true]
    refine ⟨?_,?_,?_,?_⟩ <;> apply UInt8.toNat_inj.mp <;>
      simp only [UInt32.toNat_toUInt8,UInt32.toNat_shiftRight,hw,Nat.shiftRight_eq_div_pow,UInt32.reduceToNat,
        Nat.reduceMod,Nat.reducePow] <;> omega

theorem gbit32_pbit32 (x : UInt32) (r : List UInt8) : gbit32 (pbit32 x++r)=some (x,r) :=
  inverse_gbit32.dec_enc r rfl

theorem gbit16_pbit16 (x : UInt16) (r : List UInt8) : gbit16 (pbit16 x++r)=some (x,r) :=
  inverse_gbit16.dec_enc r rfl

theorem gbit8_pbit8 (x : UInt8) (r : List UInt8) : gbit8 (pbit8 x++r)=some (x,r) :=
  inverse_gbit8.dec_enc r rfl

end Fossil.Plan9
