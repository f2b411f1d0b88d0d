import Fossil.Lib.Bytes

/-!
# Reading a byte slice

A decoder walks a slice: it checks that enough bytes are left, reads a big-endian word at the
front (`GetUint16(p)`, `GetUint32(p[4:])`) and moves on (`p = p[n:]`). The slice is a list;
a word is read through the buffer the list spells, zero past its end. The lemmas say that a word
read in front of any suffix is the word that was encoded there, so that a decoder run on an
encoding followed by anything is computed field by field.
-/

namespace Bytes

/-- A byte slice as a buffer: its bytes, then zeros. -/
def ofList (p : List UInt8) : Buf := fun k => p.getD k 0

/-- `GetUint16(p)`. -/
def getUint16 (p : List UInt8) : UInt16 := get16 (ofList p) 0

/-- `GetUint32(p)`. -/
def getUint32 (p : List UInt8) : UInt32 := get32 (ofList p) 0

/-- `GetUint64(p)`: the word at `p`, then the one at `p[4:]`. -/
def getUint64 (p : List UInt8) : UInt64 :=
  (getUint32 p).toUInt64 <<< 32 ||| (getUint32 (p.drop 4)).toUInt64

theorem ofList_eq_write (p : List UInt8) : ofList p=write (fun _ => 0) 0 p := by
  funext k
  unfold ofList write
  split_ifs with h
  · rw [Nat.sub_zero]
  · exact List.getD_eq_default _ _ (by omega)

@[simp] theorem getUint16_be16_append (v : UInt16) (r : List UInt8) : getUint16 (be16 v++r)=v := by
  rw [getUint16,ofList_eq_write,← Nat.add_zero 0]
  exact get16_write_of_take (by simp) (List.take_left' (be16_length v))

@[simp] theorem getUint32_be32_append (v : UInt32) (r : List UInt8) : getUint32 (be32 v++r)=v := by
  rw [getUint32,ofList_eq_write,← Nat.add_zero 0]
  exact get32_write_of_take (by simp) (List.take_left' (be32_length v))

@[simp] theorem drop_be16_append (v : UInt16) (r : List UInt8) : (be16 v++r).drop 2=r :=
  List.drop_left' (be16_length v)

@[simp] theorem drop_be32_append (v : UInt32) (r : List UInt8) : (be32 v++r).drop 4=r :=
  List.drop_left' (be32_length v)

@[simp] theorem drop_be64_append (v : UInt64) (r : List UInt8) : (be64 v++r).drop 8=r :=
  List.drop_left' (be64_length v)

/-- Dropping past a word drops the rest from what follows it; with the offset form, `p[8:]` of
three words is the third. -/
@[simp] theorem drop_add_be16_append (v : UInt16) (r : List UInt8) (n : Nat) : (be16 v++r).drop (n+2)=r.drop n := by
  rw [List.drop_append,List.drop_eq_nil_of_le (by simp),be16_length,List.nil_append,Nat.add_sub_cancel]

@[simp] theorem drop_add_be32_append (v : UInt32) (r : List UInt8) (n : Nat) : (be32 v++r).drop (n+4)=r.drop n := by
  rw [List.drop_append,List.drop_eq_nil_of_le (by simp),be32_length,List.nil_append,Nat.add_sub_cancel]

@[simp] theorem drop_add_be64_append (v : UInt64) (r : List UInt8) (n : Nat) : (be64 v++r).drop (n+8)=r.drop n := by
  rw [List.drop_append,List.drop_eq_nil_of_le (by simp),be64_length,List.nil_append,Nat.add_sub_cancel]

@[simp] theorem getUint64_be64_append (v : UInt64) (r : List UInt8) : getUint64 (be64 v++r)=v := by
  apply UInt64.toNat_inj.mp
  have hv := v.toNat_lt
  have hlo := (v.toUInt32).toNat_lt
  rw [getUint64,be64,List.append_assoc,getUint32_be32_append,drop_be32_append,getUint32_be32_append]
  simp only [UInt64.toNat_or,UInt64.toNat_shiftLeft,UInt32.toNat_toUInt64]
  rw [show UInt64.toNat 32 % 64=32 from rfl,Nat.mod_eq_of_lt (by simp [UInt64.toNat_shiftRight,Nat.shiftLeft_eq]; omega),
    ← Nat.shiftLeft_add_eq_or_of_lt hlo,Nat.shiftLeft_eq]
  simp [UInt64.toNat_shiftRight,Nat.shiftRight_eq_div_pow]
  omega

@[simp] theorem getUint32_be32 (v : UInt32) : getUint32 (be32 v)=v := by
  simpa using getUint32_be32_append v []

@[simp] theorem getUint64_be64 (v : UInt64) : getUint64 (be64 v)=v := by
  simpa using getUint64_be64_append v []

end Bytes
