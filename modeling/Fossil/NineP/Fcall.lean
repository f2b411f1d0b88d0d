import Mathlib.Data.UInt
import Mathlib.Data.List.Basic

/-!
# 9P messages as the server receives them

The wire type byte of every 9P message, the request fields the version
negotiation reads, the set of types the vendored decoder
(`plan9.UnmarshalFcall`) has a case for, and `strtol` as `compat.go` builds it
on `strconv.ParseInt`. Go strings are byte sequences, so message strings are
lists of bytes.
-/

namespace Fossil.NineP

/-- Wire type of a message (`plan9.Fcall.Type`). -/
abbrev MsgType := UInt8

def Tversion : MsgType := 100
def Rversion : MsgType := 101
def Tauth : MsgType := 102
def Rauth : MsgType := 103
def Tattach : MsgType := 104
def Rattach : MsgType := 105
def Terror : MsgType := 106
def Rerror : MsgType := 107
def Tflush : MsgType := 108
def Rflush : MsgType := 109
def Twalk : MsgType := 110
def Rwalk : MsgType := 111
def Topen : MsgType := 112
def Ropen : MsgType := 113
def Tcreate : MsgType := 114
def Rcreate : MsgType := 115
def Tread : MsgType := 116
def Rread : MsgType := 117
def Twrite : MsgType := 118
def Rwrite : MsgType := 119
def Tclunk : MsgType := 120
def Rclunk : MsgType := 121
def Tremove : MsgType := 122
def Rremove : MsgType := 123
def Tstat : MsgType := 124
def Rstat : MsgType := 125
def Twstat : MsgType := 126
def Rwstat : MsgType := 127
def Tmax : MsgType := 128

/-- The tag a Tversion must carry. -/
def NOTAG : UInt16 := 0xFFFF

/-- The request fields the dispatcher and the version negotiation read. -/
structure Fcall where
  /-- Wire type. -/
  typ : MsgType
  /-- Request tag. -/
  tag : UInt16
  /-- Proposed message size (Tversion). -/
  msize : UInt32
  /-- Proposed protocol version (Tversion), as bytes. -/
  version : List UInt8
  deriving DecidableEq, Repr

/-- Types `UnmarshalFcall` has a case for: every T- and R-type but `Terror`.
Any other type byte makes it fail, so only these reach the server. -/
def decodable (t : MsgType) : Bool :=
  Tversion ≤ t && t < Tmax && t≠Terror

/-- Replies are the odd types. -/
def isRType (t : MsgType) : Bool :=
  t%2=1

/-- Bytes of an ASCII literal. -/
def ascii (s : String) : List UInt8 :=
  s.toList.map fun c => c.toNat.toUInt8

/-- Value of a non-empty run of decimal digits, as `strconv` reads base 10. -/
def decimalValue : List UInt8 → Option Nat
  | [] => none
  | d::ds => ds.foldl (fun acc c => acc.bind fun n =>
      if 48 ≤ c ∧ c ≤ 57 then some (10*n+(c.toNat-48)) else none)
      (if 48 ≤ d ∧ d ≤ 57 then some (d.toNat-48) else none)

/-- `strconv.ParseInt(s, 10, 32)`: an optional sign, then decimal digits
only, in the range of `int32`. -/
def parseInt32 (s : List UInt8) : Option Int :=
  let v : Option Int := match s with
    | 43::ds => (decimalValue ds).map Int.ofNat
    | 45::ds => (decimalValue ds).map fun n => -(n : Int)
    | ds => (decimalValue ds).map Int.ofNat
  v.bind fun n => if -2147483648 ≤ n ∧ n ≤ 2147483647 then some n else none

/-- `strtol(s, 10)` in `compat.go`: the parsed value, or 0 on any error. -/
def strtol (s : List UInt8) : Int :=
  (parseInt32 s).getD 0

/-- A fold that keeps `none`, and reaches `none` at `c`, ends in `none` once it has met `c`. -/
theorem foldl_eq_none {F : Option Nat → UInt8 → Option Nat} (hF : ∀ d, F none d=none) {c : UInt8}
    (hc : ∀ acc, F acc c=none) : ∀ (ds : List UInt8) (acc : Option Nat), (acc=none ∨ c ∈ ds) → ds.foldl F acc=none := by
  intro ds
  induction ds with
  | nil =>
    rintro acc (rfl | h)
    · rfl
    · simp at h
  | cons d ds ih =>
    intro acc h
    apply ih
    rcases h with rfl | h
    · exact .inl (hF d)
    · rcases List.mem_cons.mp h with rfl | h
      · exact .inl (hc acc)
      · exact .inr h

/-- A byte that is not a digit makes `decimalValue` fail, wherever it stands. -/
theorem decimalValue_eq_none {l : List UInt8} {c : UInt8} (hc : c ∈ l) (hd : ¬(48 ≤ c ∧ c ≤ 57)) :
    decimalValue l=none := by
  cases l with
  | nil => rfl
  | cons d ds =>
    unfold decimalValue
    apply foldl_eq_none (fun _ => rfl) (c := c) (fun acc => by cases acc <;> simp [hd])
    rcases List.mem_cons.mp hc with rfl | h
    · exact .inl (by simp [hd])
    · exact .inr h

/-- `strtol` answers 0 for a digit followed by bytes that are not all digits: `ParseInt` refuses
anything after the number. -/
theorem strtol_eq_zero {d c : UInt8} {ds : List UInt8} (hd : 48 ≤ d ∧ d ≤ 57) (hc : c ∈ ds)
    (hcd : ¬(48 ≤ c ∧ c ≤ 57)) : strtol (d::ds)=0 := by
  have hnone := decimalValue_eq_none (List.mem_cons_of_mem d hc) hcd
  unfold strtol parseInt32
  split
  · rename_i ds' h
    obtain ⟨rfl,-⟩ := List.cons.inj h
    exact absurd hd (by decide)
  · rename_i ds' h
    obtain ⟨rfl,-⟩ := List.cons.inj h
    exact absurd hd (by decide)
  · simp [hnone]

end Fossil.NineP
