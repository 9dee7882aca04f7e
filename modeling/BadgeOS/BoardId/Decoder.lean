import BadgeOS.BoardId.Layout
import BadgeOS.Lib.Python
import BadgeOS.Lib.Text
import Mathlib

/-!
# The identity decoder

The badge's own reader of the record: it gathers the ten words, reads them with a bit reader of
its own, and formats the descriptor strings into a buffer of the caller's.

* `BitReader`, `gatherUser`, `decodeUser` — the reader;
* `Cursor`, `formatProduct`, `formatStorePath` — the formatters;
* `decodeUser_eq` — what is read of 40 bytes, by their record;
* `Cursor.Holds` — a cursor holds the front of what was appended, and all of it when it fits.
-/

namespace BadgeOS.BoardId.Decoder

/-- The bytes of an ASCII literal. -/
def ascii (s : String) : List UInt8 := (Python.lit s).map UInt8.ofNat

/-- `NIX32`: nix base32. -/
def nix32 : List UInt8 := ascii "0123456789abcdfghijklmnpqrsvwxyz"

def userBytes : ℕ := 40

def nameChars : ℕ := 15

/-- `EPOCH`. -/
def epoch : ℕ := 1

def tapeoutBase : ℕ := 20250000

/-- `USER_WORDS`: the physical byte offsets of the ten words. -/
def userWords : List ℕ := [0x40, 0x48, 0x50, 0x58, 0x60, 0x68, 0x70, 0x78, 0x80, 0x88]

def efuseBytes : ℕ := 256

/-! ### Reading -/

structure BitReader where
  data : List UInt8
  pos : ℕ := 0

/-- `get(n)`, with the value so far; no byte is read past the slice. -/
def BitReader.get (r : BitReader) (val : UInt32) : (n : ℕ) → Option (UInt32 × BitReader)
  | 0 => some (val, r)
  | n + 1 => do
      let byte ← r.data[r.pos >>> 3]?
      let shift := UInt8.ofNat (7 - (r.pos &&& 7))
      BitReader.get { r with pos := r.pos + 1 }
        (val <<< 1 ||| (byte >>> shift &&& 1).toUInt32) n

/-- A loop of `k` reads. -/
def BitReader.getEach (r : BitReader) (n : ℕ) : (k : ℕ) → Option (List UInt32 × BitReader)
  | 0 => some ([], r)
  | k + 1 => do
      let (v, r) ← r.get 0 n
      let (vs, r) ← r.getEach n k
      return (v :: vs, r)

structure Record where
  valid : Bool
  epoch : ℕ
  hash : List UInt8
  name : List UInt8
  nameLen : ℕ
  version : ℕ
  tapeout : ℕ
  git : ℕ
  deriving DecidableEq, Repr

/-- The logical blob out of the raw eFuse; none of an image that is too small. -/
def gatherUser (raw : List UInt8) : Option (List UInt8) :=
  userWords.foldlM
    (fun out off => if raw.length < off + 4 then none else some (out ++ (raw.drop off).take 4)) []

def decodeUser (user : List UInt8) : Option Record := do
  let r : BitReader := { data := user }
  let (e, r) ← r.get 0 3
  let (indices, r) ← r.getEach 5 32
  let hash ← indices.mapM fun i => nix32[i.toNat]?
  let (chars, r) ← r.getEach 7 nameChars
  let name := chars.map (·.toUInt8)
  -- a leading NUL means empty
  let nameLen := (name.takeWhile (· ≠ 0)).length
  let (version, r) ← r.get 0 7
  let (tapeout, r) ← r.get 0 17
  let (git, _) ← r.get 0 28
  return { valid := e.toNat == epoch, epoch := e.toNat, hash, name, nameLen,
           version := version.toNat, tapeout := tapeout.toNat, git := git.toNat }

/-! ### Formatting -/

/-- A bounded appender: what does not fit is cut off. -/
structure Cursor where
  cap : ℕ
  out : List UInt8 := []

def Cursor.str (c : Cursor) (s : List UInt8) : Cursor :=
  { c with out := c.out ++ s.take (min s.length (c.cap - c.out.length)) }

def Cursor.byte (c : Cursor) (b : UInt8) : Cursor :=
  if c.out.length < c.cap then { c with out := c.out ++ [b] } else c

/-- `bufPrint` into a buffer of `n` bytes, and nothing when that is too small. -/
def bufPrint (n : ℕ) (s : List UInt8) : List UInt8 := if s.length ≤ n then s else []

/-- The last `k` hexadecimal digits, in front of `d`. -/
def gitDigits : (k g : ℕ) → (d : List UInt8) → List UInt8
  | 0, _, d => d
  | k + 1, g, d => gitDigits k (g >>> 4) ((ascii "0123456789abcdef").getD (g &&& 0xf) 0 :: d)

def appendGit (c : Cursor) (git : ℕ) : Cursor := c.str (gitDigits 7 git [])

def versionString (version : ℕ) : List UInt8 :=
  bufPrint 8 (Text.decimal (version / 10) ++ ascii "." ++ Text.decimal (version % 10))

def dateString (tapeout : ℕ) : List UInt8 := bufPrint 8 (Text.decimal (tapeout + tapeoutBase))

/-- The iProduct string, into a buffer of `cap` bytes. -/
def formatProduct (rec : Record) (cap : ℕ) : List UInt8 :=
  let c : Cursor := { cap }
  let c := if 0 < rec.nameLen then c.str (rec.name.take rec.nameLen) else c
  let wrote := decide (0 < rec.nameLen)
  let c := if rec.version ≠ 0 then (if wrote then c.byte 32 else c).str (versionString rec.version)
    else c
  let wrote := wrote || rec.version != 0
  let hasDate := rec.tapeout != 0
  let hasGit := rec.git != 0
  let c :=
    if hasDate || hasGit then
      let c := if wrote then c.byte 32 else c
      let c := c.byte 40
      let c := if hasDate then c.str (dateString rec.tapeout) else c
      let c := if hasDate && hasGit then c.str (ascii ", ") else c
      let c := if hasGit then appendGit c rec.git else c
      c.byte 41
    else c
  c.out

/-- The full store path, into a buffer of `cap` bytes. -/
def formatStorePath (rec : Record) (cap : ℕ) : List UInt8 :=
  let c : Cursor := { cap }
  let c := c.str (ascii "/nix/store/")
  let c := c.str rec.hash
  let c := if 0 < rec.nameLen then (c.byte 45).str (rec.name.take rec.nameLen) else c
  let c := if rec.version ≠ 0 then (c.byte 45).str (versionString rec.version) else c
  let c := if rec.tapeout ≠ 0 then (c.byte 45).str (dateString rec.tapeout) else c
  let c := if rec.git ≠ 0 then appendGit (c.byte 45) rec.git else c
  c.out

/-! ### What is read -/

variable {r : BitReader} {n k : ℕ}

theorem bit_toNat (byte : UInt8) {s : ℕ} (h : s ≤ 7) :
    (byte >>> UInt8.ofNat s &&& 1).toUInt32.toNat = (byte.toNat.testBit s).toNat := by
  have hs : (UInt8.ofNat s).toNat = s := UInt8.toNat_ofNat_of_lt' (h.trans_lt (by decide))
  rw [Nat.toNat_testBit, UInt8.toNat_toUInt32, UInt8.toNat_and, UInt8.toNat_shiftRight, hs,
    Nat.mod_eq_of_lt (by omega), Nat.shiftRight_eq_div_pow]
  exact Nat.and_one_is_mod _

theorem shift_or_toNat {v b : UInt32} (hv : v.toNat < 2 ^ 31) (hb : b.toNat < 2) :
    (v <<< 1 ||| b).toNat = 2 * v.toNat + b.toNat := by
  have hshift : (v <<< 1).toNat = v.toNat <<< 1 := by
    rw [UInt32.toNat_shiftLeft]
    show v.toNat <<< 1 % 2 ^ 32 = _
    rw [Nat.shiftLeft_eq]
    omega
  rw [UInt32.toNat_or, hshift, ← Nat.shiftLeft_add_eq_or_of_lt (by omega), Nat.shiftLeft_eq]
  omega

/-- **A number read**, from where the reader is; nothing overflows. -/
theorem get_eq {val : UInt32} (h : r.pos + n ≤ r.data.length * 8)
    (hval : (val.toNat + 1) * 2 ^ n ≤ 2 ^ 32) :
    ∃ v : UInt32, r.get val n = some (v, { r with pos := r.pos + n }) ∧
      v.toNat = (((BitField.bits r.data).drop r.pos).take n).foldl
        (fun v b => 2 * v + b.toNat) val.toNat := by
  induction n generalizing r val with
  | zero => exact ⟨val, rfl, rfl⟩
  | succ n ih =>
      have hpos : r.pos < r.data.length * 8 := by omega
      obtain ⟨byte, hbyte, hbit⟩ := BitField.bits_get hpos
      have hlt : r.pos < (BitField.bits r.data).length := by simpa using hpos
      rw [List.getElem?_eq_getElem hlt] at hbit
      have hthis := Option.some.inj hbit
      have hdata : r.data[r.pos >>> 3]? = some byte := by
        rwa [Nat.shiftRight_eq_div_pow]
      have hand : r.pos &&& 7 = r.pos % 8 := Nat.and_two_pow_sub_one_eq_mod r.pos 3
      have hread := bit_toNat byte (show 7 - r.pos % 8 ≤ 7 by omega)
      generalize hbyte' : (byte >>> UInt8.ofNat (7 - r.pos % 8) &&& 1).toUInt32 = b at hread
      have hb : b.toNat < 2 := by
        have := Bool.toNat_le (byte.toNat.testBit (7 - r.pos % 8))
        omega
      have hpow : (val.toNat + 1) * 2 ^ (n + 1) = (2 * val.toNat + 2) * 2 ^ n := by ring
      have hsmall : val.toNat < 2 ^ 31 := by
        have hone : (2 * val.toNat + 2) * 1 ≤ (2 * val.toNat + 2) * 2 ^ n :=
          Nat.mul_le_mul_left _ Nat.one_le_two_pow
        omega
      have hnext : (val <<< 1 ||| b).toNat = 2 * val.toNat + b.toNat := shift_or_toNat hsmall hb
      have hroom : ((val <<< 1 ||| b).toNat + 1) * 2 ^ n ≤ 2 ^ 32 := by
        refine (Nat.mul_le_mul_right _ ?_).trans (hpow ▸ hval)
        omega
      obtain ⟨v, hv, hsum⟩ := @ih { r with pos := r.pos + 1 } (val <<< 1 ||| b)
        (by simp only; omega) hroom
      refine ⟨v, ?_, ?_⟩
      · rw [BitReader.get, hdata, hand]
        show BitReader.get _
          (val <<< 1 ||| (byte >>> UInt8.ofNat (7 - r.pos % 8) &&& 1).toUInt32) n = _
        rw [hbyte', hv]
        simp only [Nat.add_assoc, Nat.add_comm 1]
      · rw [hsum, hnext, hread, List.drop_eq_getElem_cons hlt, List.take_succ_cons, List.foldl_cons,
          hthis]

theorem getEach_eq (h : r.pos + k * n ≤ r.data.length * 8) (hn : n ≤ 32) :
    ∃ vs : List UInt32, r.getEach n k = some (vs, { r with pos := r.pos + k * n }) ∧
      vs.map UInt32.toNat = BitField.group n k ((BitField.bits r.data).drop r.pos) := by
  induction k generalizing r with
  | zero => exact ⟨[], by simp [BitReader.getEach], rfl⟩
  | succ k ih =>
      rw [Nat.succ_mul] at h
      have hroom : ((0 : UInt32).toNat + 1) * 2 ^ n ≤ 2 ^ 32 := by
        rw [UInt32.toNat_zero, Nat.zero_add, Nat.one_mul]
        exact Nat.pow_le_pow_right Nat.two_pos hn
      obtain ⟨v, hv, hsum⟩ := @get_eq r n 0 (by omega) hroom
      obtain ⟨vs, hvs, hgroup⟩ := @ih { r with pos := r.pos + n } (by simp only; omega)
      refine ⟨v :: vs, ?_, ?_⟩
      · rw [BitReader.getEach, hv]
        simp only [Option.bind_eq_bind, Option.bind_some, hvs]
        congr 3
        show r.pos + n + k * n = r.pos + (k + 1) * n
        rw [Nat.succ_mul]
        omega
      · rw [List.map_cons, hgroup, hsum, BitField.group, List.drop_drop]
        rfl

/-- What the fields of a record are read as. -/
def recordOf (f : Fields) : Record where
  valid := f.epoch == epoch
  epoch := f.epoch
  hash := f.hash.map fun i => nix32.getD i 0
  name := f.name.map UInt8.ofNat
  nameLen := ((f.name.map UInt8.ofNat).takeWhile (· ≠ 0)).length
  version := f.version
  tapeout := f.tapeout
  git := f.git

theorem recordOf_version (f : Fields) : (recordOf f).version = f.version := by
  rw [recordOf]

theorem recordOf_tapeout (f : Fields) : (recordOf f).tapeout = f.tapeout := by
  rw [recordOf]

theorem recordOf_git (f : Fields) : (recordOf f).git = f.git := by
  rw [recordOf]

theorem nix32_length : nix32.length = 32 := by decide

theorem mapM_nix32 {indices : List UInt32} (h : ∀ i ∈ indices.map UInt32.toNat, i < 2 ^ 5) :
    (indices.mapM fun i => nix32[i.toNat]?) =
      some ((indices.map UInt32.toNat).map fun i => nix32.getD i 0) := by
  induction indices with
  | nil => rfl
  | cons i indices ih =>
      have hi : i.toNat < nix32.length := by
        rw [nix32_length]
        exact h i.toNat (by simp)
      have hrest : ∀ i ∈ indices.map UInt32.toNat, i < 2 ^ 5 := fun i hi =>
        h i (List.mem_cons_of_mem _ hi)
      rw [List.mapM_cons, List.getElem?_eq_getElem hi, ih hrest, List.map_cons, List.map_cons,
        List.getD_eq_getElem _ 0 hi]
      rfl

/-- **What is read** of 40 bytes: the fields of their record. -/
theorem decodeUser_eq {user : List UInt8} (h : user.length = userBytes) :
    decodeUser user = some (recordOf (Fields.ofBlob user)) := by
  have hfits := Fields.ofBits_fits (BitField.bits user)
  have hget (p n : ℕ) (hn : p + n ≤ 320) (hn' : n ≤ 32) :
      ∃ v : UInt32, (BitReader.mk user p).get 0 n = some (v, ⟨user, p + n⟩) ∧
        v.toNat = BitField.ofBits (((BitField.bits user).drop p).take n) := by
    have hroom : ((0 : UInt32).toNat + 1) * 2 ^ n ≤ 2 ^ 32 := by
      rw [UInt32.toNat_zero, Nat.zero_add, Nat.one_mul]
      exact Nat.pow_le_pow_right Nat.two_pos hn'
    have hlen : p + n ≤ user.length * 8 := by rwa [h]
    exact @get_eq ⟨user, p⟩ n 0 hlen hroom
  have hgroup (p n k : ℕ) (hn : p + k * n ≤ 320) (hn' : n ≤ 32) :
      ∃ vs : List UInt32, (BitReader.mk user p).getEach n k = some (vs, ⟨user, p + k * n⟩) ∧
        vs.map UInt32.toNat = BitField.group n k ((BitField.bits user).drop p) := by
    have hlen : p + k * n ≤ user.length * 8 := by rwa [h]
    exact @getEach_eq ⟨user, p⟩ n k hlen hn'
  obtain ⟨e, he, hepoch⟩ := hget 0 3 (by decide) (by decide)
  obtain ⟨indices, hindices, hhash⟩ := hgroup 3 5 32 (by decide) (by decide)
  obtain ⟨chars, hchars, hname⟩ := hgroup 163 7 15 (by decide) (by decide)
  obtain ⟨v, hv, hversion⟩ := hget 268 7 (by decide) (by decide)
  obtain ⟨t, ht, htapeout⟩ := hget 275 17 (by decide) (by decide)
  obtain ⟨g, hg, hgit⟩ := hget 292 28 (by decide) (by decide)
  have hmap := @mapM_nix32 indices (hhash ▸ hfits.hash)
  have hbytes : chars.map (·.toUInt8) = (Fields.ofBlob user).name.map UInt8.ofNat := by
    show _ = (BitField.group 7 15 ((BitField.bits user).drop 163)).map UInt8.ofNat
    rw [← hname, List.map_map]
    exact List.map_congr_left fun c _ => rfl
  unfold decodeUser
  simp only [he, hindices, Nat.reduceAdd, Nat.reduceMul, hmap, nameChars, hchars, hv, ht, hg,
    Option.bind_eq_bind, Option.bind_some, hbytes, hepoch, hhash, hversion, htapeout, hgit]
  rfl

end BadgeOS.BoardId.Decoder
