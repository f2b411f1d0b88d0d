import Fossil.NineP.Wire

/-!
# Stat records on the wire

`(*Dir).Bytes` (`pdir`, in `Fossil.NineP.DirRead`) writes a stat record as its size and its
fields; `UnmarshalDir` checks the size against the rest, reads the fields (`gdir`) and refuses
bytes left over.

Since each field reader inverts its writer, `UnmarshalDir` reads back every record `pdir` writes
whose size fits the 16-bit size field, and every record it accepts is the one `pdir` writes for
what it read (`unmarshalDir_pdir`, `pdir_of_unmarshalDir`). A record whose size is right but
which is shorter than its fixed fields makes a reader, and so `UnmarshalDir`, panic.
-/

namespace Fossil.Plan9

open Decode

/-- The fields of a stat record, as `UnmarshalDir` reads them after the size. -/
def gdir (b : List UInt8) : Option (Dir × List UInt8) := do
  let (type,b) ← gbit16 b
  let (dev,b) ← gbit32 b
  let (qid,b) ← gqid b
  let (mode,b) ← gperm b
  let (atime,b) ← gbit32 b
  let (mtime,b) ← gbit32 b
  let (length,b) ← gbit64 b
  let (name,b) ← gstring b
  let (uid,b) ← gstring b
  let (gid,b) ← gstring b
  let (muid,b) ← gstring b
  pure (⟨type,dev,qid,mode,atime,mtime,length,name,uid,gid,muid⟩,b)

/-- `UnmarshalDir`: the size must be that of the rest, and the fields (`gdir`) must fill it
exactly; `none` is a panic of a reader. -/
def unmarshalDir (b : List UInt8) : Option (Except String Dir) := do
  let (n,b) ← gbit16 b
  if n.toNat≠b.length then
    pure (.error ("malformed Dir: reported size is " ++ toString n.toNat ++ ", actual size is " ++ toString b.length))
  else
    let (d,b) ← gdir b
    if b.length≠0 then pure (.error ("malformed Dir: " ++ toString b.length ++ " bytes remaining after unmarshalling"))
    else pure (.ok d)

/-- The fields of a stat record as `pdir` writes them after the size. -/
def pdirFields (d : Dir) : Option (List UInt8) := do
  let name ← pstring d.name
  let uid ← pstring d.uid
  let gid ← pstring d.gid
  let muid ← pstring d.muid
  pure (pbit16 d.type++pbit32 d.dev++pqid d.qid++pperm d.mode++pbit32 d.atime++pbit32 d.mtime++pbit64 d.length++
    name++uid++gid++muid)

/-! ## Stat records -/

@[simp] theorem length_pbit8 (x : UInt8) : (pbit8 x).length=1 := rfl

@[simp] theorem length_pbit16 (x : UInt16) : (pbit16 x).length=2 := rfl

@[simp] theorem length_pbit32 (x : UInt32) : (pbit32 x).length=4 := rfl

@[simp] theorem length_pbit64 (x : UInt64) : (pbit64 x).length=8 := rfl

@[simp] theorem length_pqid (q : Qid) : (pqid q).length=13 := rfl

@[simp] theorem length_pperm (p : UInt32) : (pperm p).length=4 := rfl

/-- `pdir` is the size, then the fields. -/
theorem pdir_eq (d : Dir) : pdir d=(pdirFields d).map fun body => pbit16 body.length.toUInt16++body := by
  unfold pdir pdirFields pperm
  simp only [Option.bind_eq_bind]
  rcases pstring d.name with _ | name <;> rcases pstring d.uid with _ | uid <;>
    rcases pstring d.gid with _ | gid <;> rcases pstring d.muid with _ | muid <;> rfl

/-- What `pdirFields` writes: the fixed fields, then the four strings, when each fits. -/
theorem pdirFields_eq_some {d : Dir} {p : List UInt8} : pdirFields d=some p ↔
    ∃ name uid gid muid, pstring d.name=some name ∧ pstring d.uid=some uid ∧ pstring d.gid=some gid ∧
      pstring d.muid=some muid ∧ p=pbit16 d.type++pbit32 d.dev++pqid d.qid++pperm d.mode++pbit32 d.atime++
        pbit32 d.mtime++pbit64 d.length++name++uid++gid++muid := by
  unfold pdirFields
  simp only [Option.bind_eq_bind,Option.bind_eq_some_iff,Option.pure_def,Option.some.injEq]
  constructor
  · rintro ⟨name,hn,uid,hu,gid,hg,muid,hm,rfl⟩
    exact ⟨name,uid,gid,muid,hn,hu,hg,hm,rfl⟩
  · rintro ⟨name,uid,gid,muid,hn,hu,hg,hm,rfl⟩
    exact ⟨name,hn,uid,hu,gid,hg,muid,hm,rfl⟩


/-- The fields of a stat record are read back by `gdir`, which accepts nothing else. -/
theorem inverse_gdir : Inverse pdirFields gdir := by
  refine ⟨fun {d p} r hp => ?_,fun {b d r} h => ?_⟩
  · obtain ⟨name,uid,gid,muid,hn,hu,hg,hm,rfl⟩ := pdirFields_eq_some.mp hp
    simp only [pperm,List.append_assoc]
    unfold gdir gperm
    refine inverse_gbit16.bind_eq_some.mpr ⟨_,_,_,rfl,rfl,?_⟩
    refine inverse_gbit32.bind_eq_some.mpr ⟨_,_,_,rfl,rfl,?_⟩
    refine inverse_gqid.bind_eq_some.mpr ⟨_,_,_,rfl,rfl,?_⟩
    refine inverse_gbit32.bind_eq_some.mpr ⟨_,_,_,rfl,rfl,?_⟩
    refine inverse_gbit32.bind_eq_some.mpr ⟨_,_,_,rfl,rfl,?_⟩
    refine inverse_gbit32.bind_eq_some.mpr ⟨_,_,_,rfl,rfl,?_⟩
    refine inverse_gbit64.bind_eq_some.mpr ⟨_,_,_,rfl,rfl,?_⟩
    refine inverse_gstring.bind_eq_some.mpr ⟨_,_,_,hn,rfl,?_⟩
    refine inverse_gstring.bind_eq_some.mpr ⟨_,_,_,hu,rfl,?_⟩
    refine inverse_gstring.bind_eq_some.mpr ⟨_,_,_,hg,rfl,?_⟩
    refine inverse_gstring.bind_eq_some.mpr ⟨_,_,_,hm,rfl,?_⟩
    rfl
  · unfold gdir gperm at h
    obtain ⟨type,_,b,⟨⟩,rfl,h1⟩ := inverse_gbit16.bind_eq_some.mp h
    obtain ⟨dev,_,b,⟨⟩,rfl,h2⟩ := inverse_gbit32.bind_eq_some.mp h1
    obtain ⟨qid,_,b,⟨⟩,rfl,h3⟩ := inverse_gqid.bind_eq_some.mp h2
    obtain ⟨mode,_,b,⟨⟩,rfl,h4⟩ := inverse_gbit32.bind_eq_some.mp h3
    obtain ⟨atime,_,b,⟨⟩,rfl,h5⟩ := inverse_gbit32.bind_eq_some.mp h4
    obtain ⟨mtime,_,b,⟨⟩,rfl,h6⟩ := inverse_gbit32.bind_eq_some.mp h5
    obtain ⟨length,_,b,⟨⟩,rfl,h7⟩ := inverse_gbit64.bind_eq_some.mp h6
    obtain ⟨name,pn,b,hn,rfl,h8⟩ := inverse_gstring.bind_eq_some.mp h7
    obtain ⟨uid,pu,b,hu,rfl,h9⟩ := inverse_gstring.bind_eq_some.mp h8
    obtain ⟨gid,pg,b,hg,rfl,h10⟩ := inverse_gstring.bind_eq_some.mp h9
    obtain ⟨muid,pm,b,hm,rfl,h11⟩ := inverse_gstring.bind_eq_some.mp h10
    cases h11
    refine ⟨pbit16 type++pbit32 dev++pqid qid++pbit32 mode++pbit32 atime++pbit32 mtime++pbit64 length++pn++pu++pg++pm,
      pdirFields_eq_some.mpr ⟨pn,pu,pg,pm,hn,hu,hg,hm,rfl⟩,by simp only [List.append_assoc]⟩

/-- The fields are 47 bytes and the four strings. -/
theorem pdirFields_length {d : Dir} {p : List UInt8} (h : pdirFields d=some p) :
    p.length=47+d.name.length+d.uid.length+d.gid.length+d.muid.length := by
  obtain ⟨name,uid,gid,muid,hn,hu,hg,hm,rfl⟩ := pdirFields_eq_some.mp h
  simp only [List.length_append,length_pbit16,length_pbit32,length_pqid,length_pperm,length_pbit64,pstring_length hn,
    pstring_length hu,pstring_length hg,pstring_length hm]
  omega

/-- What `UnmarshalDir` does with a size and what follows it. -/
theorem unmarshalDir_pbit16 (n : UInt16) (b : List UInt8) :
    unmarshalDir (pbit16 n++b)=
      if n.toNat≠b.length then
        some (.error ("malformed Dir: reported size is " ++ toString n.toNat ++ ", actual size is " ++ toString b.length))
      else
        (gdir b).map fun q =>
          if q.2.length≠0 then .error ("malformed Dir: " ++ toString q.2.length ++ " bytes remaining after unmarshalling")
          else .ok q.1 := by
  unfold unmarshalDir
  rw [gbit16_pbit16]
  simp only [Option.bind_eq_bind,Option.bind_some]
  split_ifs
  · rfl
  · rcases gdir b with _ | ⟨d,r⟩
    · rfl
    · simp only [Option.bind_some,Option.map_some]
      split_ifs <;> rfl

/-- `UnmarshalDir` reads back every stat record `pdir` writes whose size fits its 16-bit field. -/
theorem unmarshalDir_pdir {d : Dir} {p : List UInt8} (h : pdir d=some p) (hs : p.length < 2^16+2) :
    unmarshalDir p=some (.ok d) := by
  rw [pdir_eq] at h
  obtain ⟨body,hb,rfl⟩ := Option.map_eq_some_iff.mp h
  have hlen : body.length.toUInt16.toNat=body.length := by
    rw [List.length_append,length_pbit16] at hs
    rw [Nat.toUInt16_eq,UInt16.toNat_ofNat']
    omega
  have hd : gdir body=some (d,[]) := by simpa using inverse_gdir.dec_enc [] hb
  rw [unmarshalDir_pbit16,if_neg (not_not.mpr hlen),hd]
  rfl

/-- The stat record of an empty file `a`, mode `0644`. -/
def fileDir : Dir := ⟨0,0,⟨1,0,0⟩,0o644,0,0,0,[97],[],[],[]⟩

theorem unmarshalDir_pdir_fileDir : unmarshalDir ((pdir fileDir).getD [])=some (.ok fileDir) :=
  unmarshalDir_pdir (d := fileDir) rfl (by decide)

/-- Every record `UnmarshalDir` accepts is the one `pdir` writes for what it read: there is one
spelling of each stat record. -/
theorem pdir_of_unmarshalDir {b : List UInt8} {d : Dir} (h : unmarshalDir b=some (.ok d)) : pdir d=some b := by
  rcases hb : gbit16 b with _ | ⟨n,b1⟩
  · unfold unmarshalDir at h
    rw [hb] at h
    cases h
  obtain ⟨_,hn,rfl⟩ := inverse_gbit16.enc_dec hb
  cases hn
  rw [unmarshalDir_pbit16] at h
  split_ifs at h with hsz
  · simp at h
  obtain ⟨⟨d',b2⟩,hd,h⟩ := Option.map_eq_some_iff.mp h
  dsimp only at h
  split_ifs at h with hrest
  simp only [Except.ok.injEq] at h
  subst h
  obtain ⟨p,hp,rfl⟩ := inverse_gdir.enc_dec hd
  obtain rfl : b2=[] := List.length_eq_zero_iff.mp (not_not.mp hrest)
  rw [List.append_nil] at hsz
  have hsz' : p.length.toUInt16=n := by
    rw [← not_not.mp hsz,Nat.toUInt16_eq,UInt16.ofNat_toNat]
  rw [pdir_eq,hp,List.append_nil,Option.map_some,hsz']

theorem pdir_of_unmarshalDir_fileDir : pdir fileDir=some ((pdir fileDir).getD []) :=
  pdir_of_unmarshalDir (d := fileDir) rfl

/-- What `gdir` reads takes 47 bytes at least. -/
theorem gdir_length {b r : List UInt8} {d : Dir} (h : gdir b=some (d,r)) : r.length+47 ≤ b.length := by
  obtain ⟨p,hp,rfl⟩ := inverse_gdir.enc_dec h
  rw [List.length_append,pdirFields_length hp]
  omega

/-- A record whose size is right but which is shorter than the 47 bytes of fixed fields and
string lengths makes `UnmarshalDir` panic: a reader runs off its end. -/
theorem unmarshalDir_short {b : List UInt8} {n : UInt16} (hn : n.toNat=b.length) (hs : b.length < 47) :
    unmarshalDir (pbit16 n++b)=none := by
  have hd : gdir b=none := by
    rcases hg : gdir b with _ | ⟨d,r⟩
    · rfl
    · have := gdir_length hg
      omega
  rw [unmarshalDir_pbit16,if_neg (not_not.mpr hn),hd]
  rfl

end Fossil.Plan9
