import Mathlib.Data.List.Basic

/-!
# The console's tokenizer

`tokenize` (`console/tokenize.go`) splits a console line into words at white space; a quote opens
or closes a quoted section, inside which white space is part of the word and a doubled quote
stands for one quote. `Exec` (`console/cli.go`) runs the command the first word names.

Strings are lists of characters, so every input is valid UTF-8. Writing each token in quotes,
with its quotes doubled, and joining them with single spaces gives a line `tokenize` reads back
as exactly those tokens. Among them is the empty token `''`, and `Exec` indexes the first byte of
the first token: a line that starts with `''` panics.
-/

namespace Fossil.Console

/-- `unicode.IsSpace`: the Latin-1 spaces, and Unicode's `White_Space` above Latin-1. -/
def isSpace (r : Char) : Bool :=
  if r.val ≤ 0xFF then
    r = '\t' || r = '\n' || r = '\x0b' || r = '\x0c' || r = '\r' || r = ' ' || r.val=0x85 || r.val=0xA0
  else
    r.val=0x1680 || (0x2000 ≤ r.val && r.val ≤ 0x200a) || r.val=0x2028 || r.val=0x2029 || r.val=0x202f ||
      r.val=0x205f || r.val=0x3000

/-! ## `getToken` and `tokenize` -/

/-- The loop of `getToken`, from whether a quoted section is open and the token so far. -/
def getTokenLoop (quoting : Bool) (token : List Char) : List Char → List Char×List Char
  | [] => (token,[])
  | r :: s =>
    if !quoting && isSpace r then (token,r :: s)
    else if r ≠ '\'' then getTokenLoop quoting (token++[r]) s
    else if !quoting then getTokenLoop true token s
    -- quoting and on a quote: a doubled quote is one quote, anything else ends the section
    else if s.head?=some '\'' then getTokenLoop quoting (token++['\'']) s.tail
    else getTokenLoop false token s
termination_by s => s.length
decreasing_by all_goals simp only [List.length_cons,List.length_tail]; omega

/-- `getToken`: the token at the front of `s`, and the rest of `s`. -/
def getToken (s : List Char) : List Char×List Char :=
  getTokenLoop false [] s

/-! One lemma for each branch of the loop. -/

@[simp] theorem getTokenLoop_nil (quoting : Bool) (token : List Char) : getTokenLoop quoting token []=(token,[]) := by
  rw [getTokenLoop]

/-- White space outside quotes ends the token. -/
theorem getTokenLoop_space {r : Char} (hr : isSpace r=true) (token s : List Char) :
    getTokenLoop false token (r :: s)=(token,r :: s) := by
  rw [getTokenLoop,if_pos (by simp [hr])]

/-- Any other character but a quote is copied. -/
theorem getTokenLoop_char {quoting : Bool} {r : Char} (hs : quoting=true ∨ isSpace r=false) (hq : r ≠ '\'')
    (token s : List Char) : getTokenLoop quoting token (r :: s)=getTokenLoop quoting (token++[r]) s := by
  rw [getTokenLoop,if_neg (by cases quoting <;> simp_all),if_pos hq]

theorem isSpace_quote : isSpace '\''=false := by decide

/-- A quote outside quotes opens a quoted section. -/
theorem getTokenLoop_open (token s : List Char) : getTokenLoop false token ('\'' :: s)=getTokenLoop true token s := by
  rw [getTokenLoop]
  simp [isSpace_quote]

/-- A doubled quote inside quotes is one quote. -/
theorem getTokenLoop_doubled (token s : List Char) :
    getTokenLoop true token ('\'' :: '\'' :: s)=getTokenLoop true (token++['\'']) s := by
  rw [getTokenLoop]
  simp

/-- Any other quote inside quotes closes the section. -/
theorem getTokenLoop_close {s : List Char} (hs : s.head?≠some '\'') (token : List Char) :
    getTokenLoop true token ('\'' :: s)=getTokenLoop false token s := by
  rw [getTokenLoop,if_neg (by simp),if_neg (by simp),if_neg (by simp),if_neg hs]

theorem getTokenLoop_length_le (quoting : Bool) (token s : List Char) :
    (getTokenLoop quoting token s).2.length ≤ s.length := by
  fun_induction getTokenLoop quoting token s <;> simp only [List.length_cons,List.length_tail,List.length_nil] at * <;>
    omega

/-- A token starts with a character that is not white space, so `getToken` eats it. -/
theorem getToken_length_lt {r : Char} {t : List Char} (hr : isSpace r=false) :
    (getToken (r :: t)).2.length<(r :: t).length := by
  unfold getToken
  by_cases hq : r = '\''
  · subst hq
    rw [getTokenLoop_open]
    exact Nat.lt_succ_of_le (getTokenLoop_length_le _ _ t)
  · rw [getTokenLoop_char (.inr hr) hq]
    exact Nat.lt_succ_of_le (getTokenLoop_length_le _ _ t)

theorem length_getToken_dropWhile_lt {s t : List Char} {r : Char} (h : s.dropWhile isSpace=r :: t) :
    (getToken (r :: t)).2.length<s.length := by
  have hr : isSpace r=false := by
    simpa [h] using List.head_dropWhile_not isSpace (l := s) (by simp [h])
  have hs : (r :: t).length ≤ s.length := h ▸ (List.dropWhile_suffix isSpace).length_le
  exact Nat.lt_of_lt_of_le (getToken_length_lt hr) hs

/-- `tokenize`: skip white space, take a token, and go on from what `getToken` leaves. -/
def tokenize (s : List Char) : List (List Char) :=
  match h : s.dropWhile isSpace with
  | [] => []
  | r :: t => (getToken (r :: t)).1 :: tokenize (getToken (r :: t)).2
termination_by s.length
decreasing_by exact length_getToken_dropWhile_lt h

theorem tokenize_of_dropWhile_nil {s : List Char} (h : s.dropWhile isSpace=[]) : tokenize s=[] := by
  rw [tokenize]
  split
  · rfl
  · next r t h' => rw [h] at h'; cases h'

theorem tokenize_of_dropWhile_cons {s t : List Char} {r : Char} (h : s.dropWhile isSpace=r :: t) :
    tokenize s=(getToken (r :: t)).1 :: tokenize (getToken (r :: t)).2 := by
  rw [tokenize]
  split
  · next h' => rw [h] at h'; cases h'
  · next r' t' h' => rw [h] at h'; cases h'; rfl

/-- White space in front of a line changes nothing. -/
theorem tokenize_space_cons {r : Char} (hr : isSpace r=true) (s : List Char) : tokenize (r :: s)=tokenize s := by
  have hd : (r :: s).dropWhile isSpace=s.dropWhile isSpace := by rw [List.dropWhile_cons,if_pos hr]
  cases h : s.dropWhile isSpace with
  | nil => rw [tokenize_of_dropWhile_nil (hd.trans h),tokenize_of_dropWhile_nil h]
  | cons r' t => rw [tokenize_of_dropWhile_cons (hd.trans h),tokenize_of_dropWhile_cons h]

/-! ## Writing tokens the console reads back -/

/-- A token in quotes, each of its quotes doubled. -/
def quoteToken (t : List Char) : List Char :=
  '\'' :: t.flatMap (fun c => if c = '\'' then ['\'', '\''] else [c])++['\'']

/-- Tokens quoted and joined by single spaces. -/
def quoteJoin (ts : List (List Char)) : List Char :=
  [' '].intercalate (ts.map quoteToken)

/-- What may follow a token: nothing, or white space. -/
def Sep (rest : List Char) : Prop := ∀ c ∈ rest.head?, isSpace c=true

/-- Inside a quoted section `getToken` copies the doubled quotes back as one, and stops after the
closing quote when white space or nothing follows. -/
theorem getTokenLoop_quoted (t : List Char) {rest : List Char} (hrest : Sep rest) (token : List Char) :
    getTokenLoop true token (t.flatMap (fun c => if c = '\'' then ['\'', '\''] else [c]) ++ '\'' :: rest)=
      (token++t,rest) := by
  induction t generalizing token with
  | nil =>
    have hq : rest.head?≠some '\'' := fun h => by
      have := hrest '\'' h
      rw [isSpace_quote] at this
      cases this
    rw [List.flatMap_nil,List.nil_append,getTokenLoop_close hq,List.append_nil]
    cases rest with
    | nil => exact getTokenLoop_nil _ _
    | cons r s => exact getTokenLoop_space (hrest r rfl) _ _
  | cons c t ih =>
    by_cases hc : c = '\''
    · subst hc
      simp only [List.flatMap_cons,if_pos,List.cons_append,List.nil_append]
      rw [getTokenLoop_doubled,ih,List.append_assoc,List.singleton_append]
    · simp only [List.flatMap_cons,if_neg hc,List.cons_append,List.nil_append]
      rw [getTokenLoop_char (.inl rfl) hc,ih,List.append_assoc,List.singleton_append]

theorem getToken_quoteToken (t : List Char) {rest : List Char} (hrest : Sep rest) :
    getToken (quoteToken t++rest)=(t,rest) := by
  simp only [getToken,quoteToken,List.cons_append,List.append_assoc,List.nil_append]
  rw [getTokenLoop_open,getTokenLoop_quoted t hrest,List.nil_append]

theorem tokenize_quoteToken_append (t : List Char) {rest : List Char} (hrest : Sep rest) :
    tokenize (quoteToken t++rest)=t :: tokenize rest := by
  have hd : (quoteToken t++rest).dropWhile isSpace=quoteToken t++rest := by
    simp only [quoteToken,List.cons_append,List.dropWhile_cons,isSpace_quote,Bool.false_eq_true,if_false]
  obtain ⟨r,s,hrs⟩ : ∃ r s, quoteToken t++rest=r :: s := ⟨_,_,rfl⟩
  rw [hrs] at hd
  rw [hrs,tokenize_of_dropWhile_cons hd,← hrs,getToken_quoteToken t hrest]

/-- Quoted tokens joined by spaces read back as the tokens, the empty token and tokens with white
space or quotes among them. -/
theorem tokenize_quoteJoin (ts : List (List Char)) : tokenize (quoteJoin ts)=ts := by
  induction ts with
  | nil => exact tokenize_of_dropWhile_nil rfl
  | cons t ts ih =>
    cases ts with
    | nil =>
      have hsep : Sep ([] : List Char) := by simp [Sep]
      have := tokenize_quoteToken_append t hsep
      rw [List.append_nil,tokenize_of_dropWhile_nil (s := []) rfl] at this
      simpa only [quoteJoin,List.map_cons,List.map_nil,List.intercalate_singleton] using this
    | cons t' ts =>
      have hj : quoteJoin (t :: t' :: ts)=quoteToken t ++ ' ' :: quoteJoin (t' :: ts) := by
        simp [quoteJoin,List.intercalate_cons_cons]
      rw [hj,tokenize_quoteToken_append t (by simp [Sep]; decide),tokenize_space_cons (by decide),ih]

/-! ## `Exec` -/

/-- A console command: its name and what it does with the words of its line; `none` is a panic. -/
structure Cmd where
  argv0 : List Char
  cmd : List (List Char) → Option (Except String Unit)

/-- `Exec`: a blank line or a comment does nothing; the command the first word names runs, and an
unknown one is `eh?`. `argv[0][0]` on an empty first word is an index out of range. -/
def exec (cmds : List Cmd) (buf : List Char) : Option (Except String Unit) :=
  match tokenize buf with
  | [] => some (.ok ())
  | argv0 :: rest =>
    match argv0.head? with
    | none => none
    | some c =>
      if c = '#' then some (.ok ())
      else match cmds.find? (·.argv0=argv0) with
        | some cmd => cmd.cmd (argv0 :: rest)
        | none => some (.error (String.ofList argv0++": - eh?"))

/-- `Exec` panics only on a line whose first word is empty, or in the command it runs. -/
theorem exec_ne_none {cmds : List Cmd} {buf : List Char} (hne : [] ∉ (tokenize buf).head?)
    (hcmd : ∀ c ∈ cmds, ∀ argv, c.cmd argv≠none) : exec cmds buf≠none := by
  unfold exec
  split
  · simp
  · next argv0 rest h =>
    rw [h] at hne
    cases ha : argv0.head? with
    | none => simp_all
    | some c =>
      simp only
      split_ifs
      · simp
      · split
        · next cmd hf => exact hcmd cmd (List.mem_of_find?_eq_some hf) _
        · simp

/-- Every line whose first word is `''` panics in `Exec`, whatever the commands and the words after. -/
theorem exec_empty_token_panics (cmds : List Cmd) (ts : List (List Char)) : exec cmds (quoteJoin ([] :: ts))=none := by
  rw [exec,tokenize_quoteJoin]
  rfl

end Fossil.Console
