import Fossil.NineP.Bits

/-!
# The readers of 64-bit words, strings and qids

`gbit64` reads a 64-bit word as its low and its high 32-bit words; `gstring` reads a 16-bit
length and that many bytes; `gqid` reads a qid's type, version and path. Each inverts its
writer of `Fossil.NineP.DirRead` (`Decode.Inverse`), by the inverses of the shorter words in
`Fossil.NineP.Bits`.
-/

namespace Fossil.Plan9

open Decode

/-- The word `gbit64` makes of its low and high words. -/
theorem word64_toNat (lo hi : UInt32) : (hi.toUInt64 <<< 32 ||| lo.toUInt64).toNat=lo.toNat+hi.toNat*2^32 := by
  have hl := lo.toNat_lt
  have hh := hi.toNat_lt
  simp only [UInt64.toNat_or,UInt64.toNat_shiftLeft,UInt32.toNat_toUInt64]
  rw [show UInt64.toNat 32 % 64=32 from rfl,Nat.mod_eq_of_lt (by rw [Nat.shiftLeft_eq]; omega),Nat.lor_comm,
    or_shiftLeft_eq_add 32 hl]

theorem inverse_gbit64 : Inverse (fun x => some (pbit64 x)) gbit64 := by
  refine ⟨fun {x p} r hp => ?_,fun {b x r} h => ?_⟩
  · cases hp
    have hx := x.toNat_lt
    have hw : (x >>> 32).toUInt32.toUInt64 <<< 32 ||| x.toUInt32.toUInt64=x := by
      apply UInt64.toNat_inj.mp
      rw [word64_toNat]
      simp [UInt64.toNat_shiftRight,Nat.shiftRight_eq_div_pow]
      omega
    simp only [gbit64,pbit64,List.append_assoc,Option.bind_eq_bind]
    rw [gbit32_pbit32,Option.bind_some]
    dsimp only
    rw [gbit32_pbit32,Option.bind_some]
    simp only [Option.pure_def,hw]
  · simp only [gbit64,Option.bind_eq_bind,Option.bind_eq_some_iff,inverse_gbit32.eq_some_iff] at h
    obtain ⟨⟨lo,b1⟩,⟨_,hlo,rfl⟩,⟨hi,b2⟩,⟨_,hhi,rfl⟩,h⟩ := h
    cases hlo
    cases hhi
    cases h
    refine ⟨_,rfl,?_⟩
    have hw := word64_toNat lo hi
    have hl := lo.toNat_lt
    have hh := hi.toNat_lt
    have hlo' : (hi.toUInt64 <<< 32 ||| lo.toUInt64).toUInt32=lo := by
      apply UInt32.toNat_inj.mp
      rw [UInt64.toNat_toUInt32,hw]
      omega
    have hhi' : ((hi.toUInt64 <<< 32 ||| lo.toUInt64) >>> 32).toUInt32=hi := by
      apply UInt32.toNat_inj.mp
      rw [UInt64.toNat_toUInt32,UInt64.toNat_shiftRight,hw]
      simp only [UInt64.reduceToNat,Nat.reduceMod,Nat.reducePow,Nat.shiftRight_eq_div_pow]
      omega
    simp [pbit64,hlo',hhi']

theorem gbit64_pbit64 (x : UInt64) (r : List UInt8) : gbit64 (pbit64 x++r)=some (x,r) :=
  inverse_gbit64.dec_enc r rfl

theorem inverse_gstring : Inverse pstring gstring := by
  refine ⟨fun {s p} r hp => ?_,fun {b s r} h => ?_⟩
  · unfold pstring at hp
    split_ifs at hp with hl
    cases hp
    have hn : s.length.toUInt16.toNat=s.length := by
      rw [Nat.toUInt16_eq,UInt16.toNat_ofNat']
      omega
    simp only [gstring,List.append_assoc,Option.bind_eq_bind]
    rw [gbit16_pbit16,Option.bind_some]
    simp only [hn]
    simp
  · simp only [gstring,Option.bind_eq_bind,Option.bind_eq_some_iff,inverse_gbit16.eq_some_iff] at h
    obtain ⟨⟨n,b1⟩,⟨_,hn,rfl⟩,h⟩ := h
    cases hn
    dsimp only at h
    split_ifs at h with hl
    cases h
    have hlen : (b1.take n.toNat).length=n.toNat := List.length_take_of_le (by omega)
    refine ⟨pbit16 n++b1.take n.toNat,?_,?_⟩
    · unfold pstring
      rw [if_neg (by have := n.toNat_lt; omega),hlen,Nat.toUInt16_eq,UInt16.ofNat_toNat]
    · dsimp only
      rw [List.append_assoc,List.take_append_drop]

theorem inverse_gqid : Inverse (fun q => some (pqid q)) gqid := by
  refine ⟨fun {q p} r hp => ?_,fun {b q r} h => ?_⟩
  · cases hp
    simp only [gqid,pqid,List.append_assoc,Option.bind_eq_bind]
    rw [gbit8_pbit8,Option.bind_some]
    dsimp only
    rw [gbit32_pbit32,Option.bind_some]
    dsimp only
    rw [gbit64_pbit64,Option.bind_some]
    rfl
  · simp only [gqid,Option.bind_eq_bind,Option.bind_eq_some_iff,inverse_gbit8.eq_some_iff,
      inverse_gbit32.eq_some_iff,inverse_gbit64.eq_some_iff] at h
    obtain ⟨⟨t,b1⟩,⟨_,ht,rfl⟩,⟨v,b2⟩,⟨_,hv,rfl⟩,⟨pth,b3⟩,⟨_,hp,rfl⟩,h⟩ := h
    cases ht
    cases hv
    cases hp
    cases h
    exact ⟨_,rfl,by simp [pqid]⟩

theorem gqid_pqid (q : Qid) (r : List UInt8) : gqid (pqid q++r)=some (q,r) :=
  inverse_gqid.dec_enc r rfl

end Fossil.Plan9
