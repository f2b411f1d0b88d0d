import Fossil.Console.Tokenize
import Fossil.NineP.Fcall

/-!
# The config partition

`readCmdPart` (`start.go`) reads the console commands a fossil disk carries in the 1024 bytes at
127 KB: after the magic `fossil config\n`, one command a line, `#` lines skipped, and a `*` that
stands alone as a word replaced by the disk's file name. The C original stopped at the first NUL;
the Go code splits all 1010 bytes at newlines with `FieldsFunc`, so the NUL padding after the last
newline comes back as one more command. The `*` test compares with `len(f[1])` where the C code
looked for the end of the line, and reads `f[i][j+1]` past a `*` at the end of a line: every
config whose one line ends in ` *` panics.
-/

namespace Fossil.Console

open Fossil.NineP (ascii)

/-- `isspace` of `start.go`: `unicode.IsSpace(rune(c))` of a byte. -/
def isspace (c : UInt8) : Bool :=
  isSpace (Char.ofNat c.toNat)

/-- `strings.FieldsFunc`: the maximal runs of bytes that are not separators. -/
def fieldsFunc (sep : UInt8 → Bool) (s : List UInt8) : List (List UInt8) :=
  (s.splitOnP sep).filter fun l => !l.isEmpty

/-- Why `readCmdPart` calls `fatalf`. -/
inductive ConfigError where
  /-- "short read of %s at 127kB": `Read` returned nothing. -/
  | shortRead
  /-- "bad config magic in %s". -/
  | badMagic
  deriving DecidableEq, Repr

/-- The magic the config partition starts with. -/
def configMagic : List UInt8 := ascii "fossil config\n"

/-- The `*` expansion of one line; `f1` is `len(f[1])`, `none` when there is no `f[1]`. A `none`
result is an index out of range. -/
def expandStar (file : List UInt8) (f1 : Option Nat) (fi : List UInt8) : Option (List UInt8) :=
  match fi.idxOf? '*'.toUInt8 with
  | none => some fi
  | some j =>
    let expanded := fi.take j++file++fi.drop (j+1)
    -- `(j == 0 || isspace(f[i][j-1])) && (j == len(f[1])-1 || isspace(f[i][j+1]))`
    if j=0 || isspace (fi.getD (j-1) 0) then
      match f1 with
      | none => none
      | some n1 =>
        if j=n1-1 then some expanded
        else match fi[j+1]? with
          | none => none
          | some c => if isspace c then some expanded else some fi
    else some fi

/-- The loop of `readCmdPart` over the fields; `f[i][0]` of an empty field would be out of range. -/
def cmdLines (file : List UInt8) (f1 : Option Nat) : List (List UInt8) → Option (List (List UInt8))
  | [] => some []
  | [] :: _ => none
  | (c :: l) :: rest =>
    if c = '#'.toUInt8 then cmdLines file f1 rest
    else do
      let line ← expandStar file f1 (c :: l)
      let lines ← cmdLines file f1 rest
      return line :: lines

/-- `readCmdPart(file, cmd)`, on the bytes `Read` returned at 127 KB; the rest of the 1024-byte
buffer stays zero. `none` is a panic. -/
def readCmdPart (file data : List UInt8) (cmd : List (List UInt8)) :
    Option (Except ConfigError (List (List UInt8))) :=
  if data=[] then some (.error .shortRead)
  else
    let buf := (data++List.replicate 1024 0).take 1024
    if buf.take 14≠configMagic then some (.error .badMagic)
    else
      let f := fieldsFunc (· = '\n'.toUInt8) (buf.drop 14)
      (cmdLines file (f[1]?.map List.length) f).map fun lines => .ok (cmd++lines)

/-! ## Fields -/

section Fields

variable {sep : UInt8 → Bool}

/-- Lines that each end in a separator, then a tail with none, split into the lines and the
tail when it is not empty. -/
theorem fieldsFunc_lines {s : UInt8} (hs : sep s=true) {ls : List (List UInt8)} (hne : ∀ l ∈ ls, l≠[])
    (hl : ∀ l ∈ ls, ∀ c ∈ l, sep c=false) {pad : List UInt8} (hp : ∀ c ∈ pad, sep c=false) :
    fieldsFunc sep (ls.flatMap (·++[s])++pad)=ls++(if pad=[] then [] else [pad]) := by
  induction ls with
  | nil =>
    rw [List.flatMap_nil,List.nil_append,List.nil_append,fieldsFunc,List.splitOnP_eq_singleton hp]
    cases pad <;> simp
  | cons l ls ih =>
    have hl0 : l≠[] := hne l (List.mem_cons_self ..)
    have ih' := ih (fun l' h => hne l' (List.mem_cons_of_mem _ h)) (fun l' h => hl l' (List.mem_cons_of_mem _ h))
    rw [List.flatMap_cons,List.append_assoc,List.append_assoc,List.singleton_append,fieldsFunc,
      List.splitOnP_append_cons_of_forall_mem (hl l (List.mem_cons_self ..)) s hs,List.filter_cons,
      if_pos (by simpa using hl0)]
    rw [fieldsFunc] at ih'
    rw [ih',List.cons_append]

end Fields

/-! ## Lines without a `*` -/

/-- A config line that is not a comment. -/
def isCommand (l : List UInt8) : Bool :=
  l.head?≠some '#'.toUInt8

theorem expandStar_of_not_mem {file : List UInt8} (f1 : Option Nat) {line : List UInt8} (h : '*'.toUInt8 ∉ line) :
    expandStar file f1 line=some line := by
  rw [expandStar,List.idxOf?_eq_none_iff.mpr h]

/-- Without a `*`, the loop keeps every line but the comments, as they are. -/
theorem cmdLines_of_no_star (file : List UInt8) (f1 : Option Nat) {ls : List (List UInt8)} (hne : ∀ l ∈ ls, l≠[])
    (hs : ∀ l ∈ ls, '*'.toUInt8 ∉ l) : cmdLines file f1 ls=some (ls.filter isCommand) := by
  induction ls with
  | nil => rfl
  | cons l ls ih =>
    have ih' := ih (fun l' h => hne l' (List.mem_cons_of_mem _ h)) (fun l' h => hs l' (List.mem_cons_of_mem _ h))
    obtain ⟨c,l',rfl⟩ := List.exists_cons_of_ne_nil (hne _ (List.mem_cons_self ..))
    rw [cmdLines,List.filter_cons]
    by_cases hc : c = '#'.toUInt8
    · rw [if_pos hc,ih',if_neg (by simp [isCommand,hc])]
    · rw [if_neg hc,if_pos (by simp [isCommand,hc]),expandStar_of_not_mem f1 (hs _ (List.mem_cons_self ..)),ih']
      rfl

/-! ## What `readCmdPart` returns -/

theorem configMagic_length : configMagic.length=14 := by decide

/-- The 1024-byte buffer of a short read: the bytes read, then zeros. -/
theorem buffer_of_short {data : List UInt8} (h : data.length ≤ 1024) :
    (data++List.replicate 1024 0).take 1024=data++List.replicate (1024-data.length) 0 := by
  rw [List.take_append,List.take_of_length_le (by omega),List.take_replicate,Nat.min_eq_left (by omega)]

/-- The buffer of a config text shorter than the partition: the magic, the text, then zeros. -/
theorem buffer_config {text : List UInt8} (h : text.length<1010) :
    ((configMagic++text)++List.replicate 1024 0).take 1024=configMagic++(text++List.replicate (1010-text.length) 0) := by
  have hl : (configMagic++text).length=14+text.length := by rw [List.length_append,configMagic_length]
  rw [buffer_of_short (by omega),hl,List.append_assoc]
  congr 3
  omega

/-- The fields of a config text: what `readCmdPart` splits after the magic. -/
theorem fields_config {text : List UInt8} :
    (configMagic++(text++List.replicate (1010-text.length) 0)).take 14=configMagic ∧
      (configMagic++(text++List.replicate (1010-text.length) 0)).drop 14=text++List.replicate (1010-text.length) 0 := by
  constructor
  · rw [List.take_append_of_le_length (by rw [configMagic_length]),List.take_of_length_le (by rw [configMagic_length])]
  · rw [List.drop_append_of_le_length (by rw [configMagic_length]),List.drop_of_length_le (by rw [configMagic_length]),
      List.nil_append]

/-- `readCmdPart` of a config text shorter than the partition: the loop over its fields. -/
theorem readCmdPart_config (file : List UInt8) (cmd : List (List UInt8)) {text : List UInt8} (h : text.length<1010) :
    readCmdPart file (configMagic++text) cmd=
      let f := fieldsFunc (· = '\n'.toUInt8) (text++List.replicate (1010-text.length) 0)
      (cmdLines file (f[1]?.map List.length) f).map fun lines => .ok (cmd++lines) := by
  have hne : configMagic++text≠[] := List.append_ne_nil_of_left_ne_nil (by decide) _
  obtain ⟨htake,hdrop⟩ := @fields_config text
  simp only [readCmdPart,if_neg hne,buffer_config h,htake,hdrop,ne_eq,not_true_eq_false,if_false]

/-- The padding is no command line. -/
theorem padding_isCommand {n : Nat} (h : 0<n) : isCommand (List.replicate n 0)=true := by
  obtain ⟨k,rfl⟩ : ∃ k, n=k+1 := ⟨n-1,by omega⟩
  rw [List.replicate_succ]
  rfl

/-- A config of command lines without `*`, each ending in a newline: `readCmdPart` returns the
commands, and the NUL padding after the last newline as one more command. -/
theorem readCmdPart_keeps_padding (file : List UInt8) (cmd : List (List UInt8)) {ls : List (List UInt8)}
    (hne : ∀ l ∈ ls, l≠[]) (hnl : ∀ l ∈ ls, '\n'.toUInt8 ∉ l) (hs : ∀ l ∈ ls, '*'.toUInt8 ∉ l)
    (hlen : (ls.flatMap (·++['\n'.toUInt8])).length<1010) :
    readCmdPart file (configMagic++ls.flatMap (·++['\n'.toUInt8])) cmd=
      some (.ok (cmd++(ls.filter isCommand++[List.replicate (1010-(ls.flatMap (·++['\n'.toUInt8])).length) 0]))) := by
  set text := ls.flatMap (·++['\n'.toUInt8]) with htext
  have hpad0 : List.replicate (1010-text.length) (0 : UInt8)≠[] := by simp; omega
  have hf : fieldsFunc (· = '\n'.toUInt8) (text++List.replicate (1010-text.length) 0)=
      ls++[List.replicate (1010-text.length) 0] := by
    rw [htext,fieldsFunc_lines (by simp) hne,if_neg hpad0]
    · intro l hl c hc
      simp only [decide_eq_false_iff_not]
      rintro rfl
      exact hnl l hl hc
    · intro c hc
      rw [List.eq_of_mem_replicate hc]
      decide
  have hlines : cmdLines file ((ls++[List.replicate (1010-text.length) 0])[1]?.map List.length)
      (ls++[List.replicate (1010-text.length) 0])=some ((ls++[List.replicate (1010-text.length) 0]).filter isCommand) := by
    apply cmdLines_of_no_star
    · intro l hl
      rcases List.mem_append.mp hl with hl | hl
      · exact hne l hl
      · rw [List.mem_singleton.mp hl]
        exact hpad0
    · intro l hl
      rcases List.mem_append.mp hl with hl | hl
      · exact hs l hl
      · rw [List.mem_singleton.mp hl]
        intro h
        have := List.eq_of_mem_replicate h
        revert this
        decide
  rw [readCmdPart_config file cmd hlen]
  simp only [hf,hlines,Option.map_some,List.filter_append,List.filter_singleton,
    padding_isCommand (by omega : 0<1010-text.length),cond_true]

/-! ## A `*` at the end of a line -/

theorem idxOf?_append_of_not_mem {a : UInt8} {l : List UInt8} (h : a ∉ l) (m : List UInt8) :
    (l++m).idxOf? a=(m.idxOf? a).map (·+l.length) := by
  induction l with
  | nil => simp
  | cons x l ih =>
    have hx : x≠a := fun hx => h (hx ▸ List.mem_cons_self ..)
    rw [List.cons_append,List.idxOf?_cons,ih fun h' => h (List.mem_cons_of_mem _ h')]
    simp [hx,Option.map_map]

/-- A `*` ending a line after a blank, on a line shorter than the second field: the test reads
the byte after the `*`, and panics. -/
theorem expandStar_end_panics (file : List UInt8) {l : List UInt8} (hs : '*'.toUInt8 ∉ l) {n1 : Nat}
    (hn : l.length+2≠n1) : expandStar file (some n1) (l++[' '.toUInt8,'*'.toUInt8])=none := by
  have hj : (l++[' '.toUInt8,'*'.toUInt8]).idxOf? '*'.toUInt8=some (l.length+1) := by
    have h1 : [' '.toUInt8,'*'.toUInt8].idxOf? '*'.toUInt8=some 1 := by decide
    rw [idxOf?_append_of_not_mem hs,h1,Option.map_some,Nat.add_comm]
  have hb : (l++[' '.toUInt8,'*'.toUInt8]).getD (l.length+1-1) 0 = ' '.toUInt8 := by
    rw [Nat.add_sub_cancel]
    simp [List.getD_eq_getElem?_getD]
  have hend : (l++[' '.toUInt8,'*'.toUInt8])[l.length+1+1]?=none := by
    rw [List.getElem?_eq_none_iff]
    simp
  rw [expandStar,hj]
  simp only [hb,show isspace ' '.toUInt8=true by decide,Bool.or_true,if_true,hend,
    if_neg (show l.length+1≠n1-1 by omega)]

/-- A config of one line ending in ` *`, as `fsys main config *`: `readCmdPart` panics, reading
`f[0][j+1]` past the `*`. The NUL padding is `f[1]`, and the line's length is never the
padding's less one, since the two add up to an odd number. -/
theorem readCmdPart_star_panics (file : List UInt8) (cmd : List (List UInt8)) {l : List UInt8}
    (hnl : '\n'.toUInt8 ∉ l) (hs : '*'.toUInt8 ∉ l) (hc : l.head?≠some '#'.toUInt8) (hlen : l.length+3<1010) :
    readCmdPart file (configMagic++(l++ascii " *\n")) cmd=none := by
  have htext : l++ascii " *\n"=[l++[' '.toUInt8,'*'.toUInt8]].flatMap (·++['\n'.toUInt8]) := by
    simp [ascii]
    decide
  have hlen' : (l++ascii " *\n").length=l.length+3 := by simp [ascii]
  have hf : fieldsFunc (· = '\n'.toUInt8) ((l++ascii " *\n")++List.replicate (1010-(l.length+3)) 0)=
      [l++[' '.toUInt8,'*'.toUInt8],List.replicate (1010-(l.length+3)) 0] := by
    rw [htext,fieldsFunc_lines (by simp),if_neg (by simp; omega)]
    · rfl
    · simp
    · intro m hm c hc'
      rw [List.mem_singleton.mp hm] at hc'
      simp only [decide_eq_false_iff_not]
      rintro rfl
      rcases List.mem_append.mp hc' with h | h
      · exact hnl h
      · revert h
        decide
    · intro c hc'
      rw [List.eq_of_mem_replicate hc']
      decide
  obtain ⟨c,l',hcl,hc'⟩ : ∃ c l', l++[' '.toUInt8,'*'.toUInt8]=c :: l' ∧ c ≠ '#'.toUInt8 := by
    cases l with
    | nil => exact ⟨_,_,rfl,by decide⟩
    | cons x l => exact ⟨x,_,rfl,fun h => hc (by rw [h]; rfl)⟩
  rw [readCmdPart_config file cmd (by rw [hlen']; exact hlen)]
  simp only [hlen',hf,List.getElem?_cons_succ,List.getElem?_cons_zero,Option.map_some,List.length_replicate]
  rw [hcl,cmdLines,if_neg hc',← hcl,expandStar_end_panics file hs (by omega)]
  rfl

/-- The one-line config `fsys main config *`. -/
theorem readCmdPart_star_panics_fsys :
    '\n'.toUInt8 ∉ ascii "fsys main config" ∧ '*'.toUInt8 ∉ ascii "fsys main config" ∧
      (ascii "fsys main config").head?≠some '#'.toUInt8 ∧ (ascii "fsys main config").length+3<1010 ∧
      readCmdPart (ascii "/dev/sdC0/fossil") (configMagic++(ascii "fsys main config"++ascii " *\n")) []=none :=
  ⟨by decide +kernel,by decide +kernel,by decide +kernel,by decide +kernel,
    readCmdPart_star_panics _ _ (by decide +kernel) (by decide +kernel) (by decide +kernel) (by decide +kernel)⟩

end Fossil.Console
