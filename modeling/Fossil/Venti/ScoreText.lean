import Fossil.Venti.Score
import Fossil.Block
import Mathlib.Data.List.GetD
import Mathlib.Tactic.SplitIfs

/-!
# Scores as text

`(*Score).String` (`venti/score.go`) prints a score as 40 lower-case hex digits, or, when
`GlobalToLocal` finds a local address in it, as the address in 8 hex digits. `ParseScore` reads
exactly 40 hex digits of either case, two to a byte, and refuses any other text: a wrong length
as `bad score size`, a byte that is no hex digit as `invalid byte`.

Text is bytes, as Go's strings are. The loop of `ParseScore` fills the score one digit at a time;
`partialScore` is what it holds after `i` digits, and the run lemma carries that from the first
digit to the last. Off the local scores the two functions are inverse.
-/

namespace Fossil.Venti

open Fossil.Block (NilBlock)

theorem getD_score (s : Score) {k : Nat} (hk : k<20) : s.getD k 0=s[k] := by
  simp [Vector.getD,hk]

/-! ## Hex digits -/

/-- The lower-case digit `%x` prints for a value below 16. -/
def hexDigit (d : UInt8) : UInt8 :=
  if d<10 then '0'.toUInt8+d else 'a'.toUInt8+(d-10)

/-- `%2.2x` of a byte. -/
def hexByte (b : UInt8) : List UInt8 :=
  [hexDigit (b >>> 4),hexDigit (b &&& 0xF)]

/-- `%.8x` of a `uint32`: eight digits, zero-padded. -/
def hex8 (a : UInt32) : List UInt8 :=
  [7,6,5,4,3,2,1,0].map fun k : UInt32 => hexDigit ((a >>> (4*k)) &&& 0xF).toUInt8

/-- The digit test and value of `ParseScore`: `0-9`, `a-f` or `A-F`. -/
def hexValue (c : UInt8) : Option UInt8 :=
  if '0'.toUInt8 ≤ c ∧ c ≤ '9'.toUInt8 then some (c - '0'.toUInt8)
  else if 'a'.toUInt8 ≤ c ∧ c ≤ 'f'.toUInt8 then some (c - 'a'.toUInt8+10)
  else if 'A'.toUInt8 ≤ c ∧ c ≤ 'F'.toUInt8 then some (c - 'A'.toUInt8+10)
  else none

/-- A hexadecimal digit of either case. -/
def isHexDigit (c : UInt8) : Bool :=
  ('0'.toUInt8 ≤ c && c ≤ '9'.toUInt8) || ('a'.toUInt8 ≤ c && c ≤ 'f'.toUInt8) || ('A'.toUInt8 ≤ c && c ≤ 'F'.toUInt8)

/-- An ASCII letter in lower case. -/
def asciiLower (c : UInt8) : UInt8 :=
  if 'A'.toUInt8 ≤ c ∧ c ≤ 'Z'.toUInt8 then c+32 else c

theorem hexValue_isSome (c : UInt8) : (hexValue c).isSome=isHexDigit c := by
  unfold hexValue isHexDigit
  split_ifs <;> simp_all

/-- A digit's value is below 16, and printing it gives the digit in lower case. -/
theorem hexValue_spec (c : UInt8) : (hexValue c).all fun v => v<16 ∧ hexDigit v=asciiLower c := by
  unfold hexValue
  split_ifs with h0 ha hA <;> simp only [Option.all_some,Option.all_none,decide_eq_true_eq]
  -- one digit range each: the byte arithmetic is arithmetic below 256
  all_goals
    unfold hexDigit asciiLower
    split_ifs <;>
      simp_all [Char.toUInt8,UInt8.le_iff_toNat_le,UInt8.lt_iff_toNat_lt,← UInt8.toNat_inj,UInt8.toNat_add] <;> omega

theorem hexValue_some {c v : UInt8} (h : hexValue c=some v) : v<16 ∧ hexDigit v=asciiLower c := by
  have := hexValue_spec c
  rw [h] at this
  simpa using this

/-- A printed digit reads back as its value. -/
theorem hexValue_hexDigit {d : UInt8} (hd : d<16) : hexValue (hexDigit d)=some d := by
  rw [UInt8.lt_iff_toNat_lt] at hd
  unfold hexDigit hexValue
  split_ifs <;>
    simp_all [Char.toUInt8,UInt8.le_iff_toNat_le,UInt8.lt_iff_toNat_lt,← UInt8.toNat_inj,UInt8.toNat_add] <;> omega

/-- The two digits of a byte, as numbers. -/
theorem digits_toNat (b : UInt8) :
    ((b >>> 4) <<< 4).toNat=b.toNat/16*16 ∧ (b &&& 0xF).toNat=b.toNat%16 := by
  have hb := b.toNat_lt
  constructor
  · rw [UInt8.toNat_shiftLeft,UInt8.toNat_shiftRight]
    simp [Nat.shiftRight_eq_div_pow,Nat.shiftLeft_eq]
    omega
  · rw [UInt8.toNat_and]
    exact Nat.and_two_pow_sub_one_eq_mod _ 4

/-- Two digits side by side: the high one times 16 plus the low one. -/
theorem or_digits {hi lo : Nat} (hlo : lo<16) : 16*hi ||| lo=16*hi+lo :=
  (Nat.two_pow_add_eq_or_of_lt (i := 4) hlo hi).symm

theorem shiftRight_four_lt (b : UInt8) : b >>> 4<16 := by
  rw [UInt8.lt_iff_toNat_lt,UInt8.toNat_shiftRight]
  have := b.toNat_lt
  simp [Nat.shiftRight_eq_div_pow]
  omega

theorem and_fifteen_lt (b : UInt8) : b &&& 0xF<16 := by
  rw [UInt8.lt_iff_toNat_lt,(digits_toNat b).2]
  exact Nat.mod_lt _ (by decide)

/-- A byte is its two digits. -/
theorem hexByte_join (b : UInt8) : ((b >>> 4) <<< 4) ||| (b &&& 0xF)=b := by
  obtain ⟨hhi,hlo⟩ := digits_toNat b
  rw [← UInt8.toNat_inj,UInt8.toNat_or,hhi,hlo,Nat.mul_comm,or_digits (Nat.mod_lt _ (by decide))]
  omega

/-- Two digit values make a byte whose digits they are. -/
theorem join_digits {a b : UInt8} (ha : a<16) (hb : b<16) :
    ((a <<< 4) ||| b) >>> 4=a ∧ ((a <<< 4) ||| b) &&& 0xF=b := by
  rw [UInt8.lt_iff_toNat_lt] at ha hb
  simp only [UInt8.reduceToNat] at ha hb
  have hj : ((a <<< 4) ||| b).toNat=16*a.toNat+b.toNat := by
    simp only [UInt8.toNat_or,UInt8.toNat_shiftLeft,UInt8.reduceToNat,Nat.shiftLeft_eq,Nat.reduceMod,Nat.reducePow]
    rw [← or_digits hb]
    congr 1
    omega
  constructor
  · simp only [← UInt8.toNat_inj,UInt8.toNat_shiftRight,hj,UInt8.reduceToNat,Nat.shiftRight_eq_div_pow,
      Nat.reduceMod,Nat.reducePow]
    omega
  · simp only [← UInt8.toNat_inj,UInt8.toNat_and,hj,UInt8.reduceToNat]
    rw [show 15=2^4-1 from rfl,Nat.and_two_pow_sub_one_eq_mod]
    omega

/-! ## `String` and `ParseScore` -/

/-- `(*Score).String`. -/
def Score.string (sc : Score) : List UInt8 :=
  let addr := globalToLocal sc
  if addr≠NilBlock then hex8 addr else sc.toList.flatMap hexByte

/-- The loop of `ParseScore` from digit `i` on, into the score so far. -/
def parseScoreLoop (score : Score) (i : Nat) : List UInt8 → Except String Score
  | [] => .ok score
  | c :: s =>
    match hexValue c with
    | none => .error ("invalid byte: "++toString c.toNat)
    | some v =>
      -- the first digit of a byte is its high half
      let v := if i &&& 1=0 then v <<< 4 else v
      parseScoreLoop (score.setIfInBounds (i >>> 1) (score.getD (i >>> 1) 0 ||| v)) (i+1) s

/-- `ParseScore`. -/
def parseScore (s : List UInt8) : Except String Score :=
  if s.length≠ScoreSize*2 then .error ("bad score size: "++toString s.length)
  else parseScoreLoop (Vector.replicate 20 0) 0 s

/-! ## The loop of `ParseScore` -/

/-- A byte that is no digit stops the loop with an error. -/
theorem parseScoreLoop_invalid (score : Score) (i : Nat) {s : List UInt8} (h : ∃ c ∈ s, isHexDigit c=false) :
    ∃ msg, parseScoreLoop score i s=.error msg := by
  induction s generalizing score i with
  | nil => simp at h
  | cons c s ih =>
    cases hc : hexValue c with
    | none => exact ⟨_,by rw [parseScoreLoop,hc]⟩
    | some v =>
      have hs : ∃ c ∈ s, isHexDigit c=false := by
        obtain ⟨c',hc',hd⟩ := h
        rcases List.mem_cons.mp hc' with rfl | hm
        · rw [← hexValue_isSome,hc] at hd
          cases hd
        · exact ⟨c',hm,hd⟩
      rw [parseScoreLoop,hc]
      exact ih _ _ hs

section Digits

/-! Forty digits, `h`, and their values. -/

variable (h : List UInt8)

/-- The value of digit `j`. -/
def digitValue (j : Nat) : UInt8 :=
  (hexValue (h.getD j 0)).getD 0

/-- What the loop of `ParseScore` holds after the first `i` digits of `h`. -/
def partialScore (i : Nat) : Score :=
  Vector.ofFn fun k : Fin 20 =>
    (if 2*k.val < i then digitValue h (2*k.val) <<< 4 else 0) ||| (if 2*k.val+1 < i then digitValue h (2*k.val+1) else 0)

theorem partialScore_zero : partialScore h 0=Vector.replicate 20 0 := by
  apply Vector.ext
  intro k hk
  simp [partialScore]

/-- One digit of the loop: it sets its half of byte `i/2`. -/
theorem partialScore_succ {i : Nat} (hi : i<40) :
    partialScore h (i+1)=(partialScore h i).setIfInBounds (i >>> 1)
      ((partialScore h i).getD (i >>> 1) 0 ||| (if i &&& 1=0 then digitValue h i <<< 4 else digitValue h i)) := by
  rw [Nat.and_one_is_mod,Nat.shiftRight_one,getD_score _ (show i/2<20 by omega)]
  apply Vector.ext
  intro k hk
  rw [Vector.getElem_setIfInBounds hk]
  by_cases hki : i/2=k
  · subst hki
    simp only [if_true,partialScore,Vector.getElem_ofFn]
    rcases Nat.mod_two_eq_zero_or_one i with he | ho
    · have h2 : 2*(i/2)=i := by omega
      simp [he,h2,show ¬i+1 < i from by omega]
    · have h2 : 2*(i/2)+1=i := by omega
      simp [ho,h2,show 2*(i/2) < i from by omega,show 2*(i/2) < i+1 from by omega]
  · rw [if_neg hki]
    have h1 : (2*k < i+1 ↔ 2*k < i) := by omega
    have h2 : (2*k+1 < i+1 ↔ 2*k+1 < i) := by omega
    simp only [partialScore,Vector.getElem_ofFn,h1,h2]

/-- The run: from digit `i` on, the loop ends with all forty digits in. -/
theorem parseScoreLoop_partial (hl : h.length=40) (hd : ∀ c ∈ h, isHexDigit c) :
    ∀ n i, i+n=40 → parseScoreLoop (partialScore h i) i (h.drop i)=.ok (partialScore h 40) := by
  intro n
  induction n with
  | zero =>
    intro i hi
    rw [Nat.add_zero] at hi
    subst hi
    rw [List.drop_eq_nil_of_le (by omega),parseScoreLoop]
  | succ n ih =>
    intro i hi
    have hil : i<h.length := by omega
    have hv : hexValue h[i]=some (digitValue h i) := by
      have := hexValue_isSome h[i]
      rw [hd _ (List.getElem_mem hil)] at this
      obtain ⟨v,hv⟩ := Option.isSome_iff_exists.mp this
      rw [digitValue,List.getD_eq_getElem _ _ hil,hv]
      rfl
    rw [List.drop_eq_getElem_cons hil,parseScoreLoop,hv]
    simp only
    rw [← partialScore_succ h (by omega)]
    exact ih (i+1) (by omega)

/-- `ParseScore` of forty digits: each byte is two digit values. -/
theorem parseScore_digits (hl : h.length=40) (hd : ∀ c ∈ h, isHexDigit c) :
    parseScore h=.ok (partialScore h 40) := by
  have := parseScoreLoop_partial h hl hd 40 0 rfl
  rw [partialScore_zero,List.drop_zero] at this
  rw [parseScore,if_neg (by rw [hl]; decide),this]

theorem digitValue_lt (j : Nat) : digitValue h j<16 := by
  unfold digitValue
  cases hv : hexValue (h.getD j 0) with
  | none => decide
  | some v => exact (hexValue_some hv).1

end Digits

/-! ## Printing and reading back -/

@[simp] theorem hexBytes_length (l : List UInt8) : (l.flatMap hexByte).length=2*l.length := by
  induction l with
  | nil => rfl
  | cons b l ih => simp [hexByte,ih]; omega

/-- Digits `2k` and `2k+1` of printed bytes are the two digits of byte `k`. -/
theorem hexBytes_getD (l : List UInt8) {k : Nat} (hk : k<l.length) :
    (l.flatMap hexByte).getD (2*k) 0=hexDigit (l[k] >>> 4) ∧ (l.flatMap hexByte).getD (2*k+1) 0=hexDigit (l[k] &&& 0xF) := by
  induction l generalizing k with
  | nil => cases hk
  | cons x l ih =>
    cases k with
    | zero => simp [hexByte]
    | succ k =>
      have := ih (k := k) (by simpa using hk)
      simpa [hexByte,Nat.mul_succ] using this

/-- Printed digits are digits. -/
theorem isHexDigit_of_mem_hexBytes {l : List UInt8} {c : UInt8} (hc : c ∈ l.flatMap hexByte) : isHexDigit c := by
  obtain ⟨b,-,hb⟩ := List.mem_flatMap.mp hc
  rcases List.mem_pair.mp hb with rfl | rfl
  · rw [← hexValue_isSome,hexValue_hexDigit (shiftRight_four_lt b)]
    rfl
  · rw [← hexValue_isSome,hexValue_hexDigit (and_fifteen_lt b)]
    rfl

/-- The forty digits `String` prints for a score stored on Venti read back as the score. -/
theorem parseScore_hexBytes (s : Score) : parseScore (s.toList.flatMap hexByte)=.ok s := by
  have hl : (s.toList.flatMap hexByte).length=40 := by
    rw [hexBytes_length,Vector.length_toList]
  suffices hs : partialScore (s.toList.flatMap hexByte) 40=s by
    rw [parseScore_digits _ hl fun _ hc => isHexDigit_of_mem_hexBytes hc,hs]
  apply Vector.ext
  intro k hk
  have hk' : k<s.toList.length := by simpa using hk
  obtain ⟨h0,h1⟩ := hexBytes_getD s.toList hk'
  have e0 : digitValue (s.toList.flatMap hexByte) (2*k)=s[k] >>> 4 := by
    rw [digitValue,h0,hexValue_hexDigit (shiftRight_four_lt _),Option.getD_some,Vector.getElem_toList]
  have e1 : digitValue (s.toList.flatMap hexByte) (2*k+1)=s[k] &&& 0xF := by
    rw [digitValue,h1,hexValue_hexDigit (and_fifteen_lt _),Option.getD_some,Vector.getElem_toList]
  simp only [partialScore,Vector.getElem_ofFn,if_pos (show 2*k<40 by omega),if_pos (show 2*k+1<40 by omega),e0,e1,
    hexByte_join]

/-- Digit `m` of forty digits printed from its value is the digit in lower case. -/
theorem hexDigit_digitValue {h : List UInt8} (hd : ∀ c ∈ h, isHexDigit c) {m : Nat} (hm : m<h.length) :
    hexDigit (digitValue h m)=asciiLower h[m] := by
  have hh := hexValue_isSome h[m]
  rw [hd _ (List.getElem_mem hm)] at hh
  obtain ⟨v,hv⟩ := Option.isSome_iff_exists.mp hh
  rw [digitValue,List.getD_eq_getElem _ _ hm,hv,Option.getD_some]
  exact (hexValue_some hv).2

/-- Forty digits read and printed again give the digits in lower case, for a score stored on
Venti. -/
theorem string_partialScore {h : List UInt8} (hl : h.length=40) (hd : ∀ c ∈ h, isHexDigit c)
    (hg : globalToLocal (partialScore h 40)=NilBlock) : Score.string (partialScore h 40)=h.map asciiLower := by
  rw [Score.string]
  simp only [hg,ne_eq,not_true_eq_false,if_false]
  apply List.ext_getElem
  · rw [hexBytes_length,Vector.length_toList,List.length_map,hl]
  intro j h1 h2
  have hj : j<40 := by simpa [hl] using h2
  obtain ⟨m,hm⟩ : ∃ m, j=2*m ∨ j=2*m+1 := ⟨j/2,by omega⟩
  have hk : m<(partialScore h 40).toList.length := by simp; omega
  obtain ⟨e0,e1⟩ := hexBytes_getD (partialScore h 40).toList hk
  have hbyte : (partialScore h 40).toList[m]=(digitValue h (2*m) <<< 4) ||| digitValue h (2*m+1) := by
    simp only [Vector.getElem_toList,partialScore,Vector.getElem_ofFn,if_pos (show 2*m<40 by omega),
      if_pos (show 2*m+1<40 by omega)]
  obtain ⟨j0,j1⟩ := join_digits (digitValue_lt h (2*m)) (digitValue_lt h (2*m+1))
  rw [List.getElem_map,← List.getD_eq_getElem _ 0 h1]
  rcases hm with rfl | rfl
  · rw [e0,hbyte,j0]
    exact hexDigit_digitValue hd (by omega)
  · rw [e1,hbyte,j1]
    exact hexDigit_digitValue hd (by omega)

/-- A score whose first sixteen bytes are not all zero has no local address. -/
theorem globalToLocal_of_ne_zero {s : Score} (h : ∃ k<16, s.getD k 0≠0) : globalToLocal s=NilBlock := by
  obtain ⟨k,hk,hne⟩ := h
  unfold globalToLocal
  rw [if_neg]
  · rfl
  · intro hall
    have := List.all_eq_true.mp hall k (List.mem_range.mpr hk)
    exact hne (of_decide_eq_true this)

/-- The score text round trip: `ParseScore` reads back every Venti score `String` prints; it
accepts every forty hex digits of either case, and `String` prints them back in lower case unless
they spell a local address; and it refuses every other text. -/
theorem parseScore_string :
    (∀ s : Score, (∃ k<16, s.getD k 0≠0) → parseScore (Score.string s)=.ok s) ∧
    (∀ h : List UInt8, h.length=40 → (∀ c ∈ h, isHexDigit c) →
      ∃ s, parseScore h=.ok s ∧ (globalToLocal s=NilBlock → Score.string s=h.map asciiLower)) ∧
    (∀ h : List UInt8, (h.length≠40 ∨ ∃ c ∈ h, isHexDigit c=false) → ∃ msg, parseScore h=.error msg) := by
  refine ⟨fun s hs => ?_,fun h hl hd => ⟨_,parseScore_digits h hl hd,string_partialScore hl hd⟩,fun h hbad => ?_⟩
  · have hg := globalToLocal_of_ne_zero hs
    rw [Score.string]
    simp only [hg,ne_eq,not_true_eq_false,if_false]
    exact parseScore_hexBytes s
  · by_cases hl : h.length=40
    · obtain ⟨msg,hm⟩ := parseScoreLoop_invalid (Vector.replicate 20 0) 0 (hbad.resolve_left (not_not.mpr hl))
      exact ⟨msg,by rw [parseScore,if_neg (by rw [hl]; decide),hm]⟩
    · exact ⟨_,by rw [parseScore,if_pos (by simpa [ScoreSize] using hl)]⟩

/-- `ParseScoreTest`: the zero score's text. -/
theorem parseScore_string_zeroScore :
    (∃ k<16, zeroScore.getD k 0≠0) ∧ parseScore (Score.string zeroScore)=.ok zeroScore :=
  ⟨⟨0,by decide,by decide⟩,parseScore_string.1 zeroScore ⟨0,by decide,by decide⟩⟩

end Fossil.Venti
