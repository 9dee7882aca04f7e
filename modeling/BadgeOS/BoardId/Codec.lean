import BadgeOS.BoardId.Layout
import BadgeOS.Lib.Python
import Mathlib

/-!
# The identity codec

The script that makes a burn: it takes a store path apart, packs it into the 40 bytes of the
USER area, unpacks them again and prints the commands.

* `BitWriter`, `BitReader` — bit by bit, the highest first;
* `parseStorePath`, `encodeUser`, `decodeUser`, `encodeSerial`, `main` — the script;
* `encodeUser_ok_iff` — which values are written, and that it is their record;
* `decodeUser_eq` — what is read of 40 bytes, by their record.
-/

namespace BadgeOS.BoardId.Codec

open Python

/-- `NIX32`: the nix base32 alphabet. -/
def nix32 : Str := lit "0123456789abcdfghijklmnpqrsvwxyz"

/-- `USER_WORDS`: the physical byte offsets of the ten words. -/
def userWords : List ℕ := [0x40, 0x48, 0x50, 0x58, 0x60, 0x68, 0x70, 0x78, 0x80, 0x88]

def deviceIdLen : ℕ := 8

def nameChars : ℕ := 15

/-- `EPOCH`. -/
def epoch : ℕ := 1

def tapeoutBase : ℤ := 20250000

/-- What is raised: by the script, and then by the language. -/
inductive Error
  | doesNotFit (val : ℤ) (n : ℕ)
  | notByteAligned (bits : ℕ)
  | expectedDash
  | hashChars
  | nameTooLong
  | unknownEpoch (epoch : ℕ)
  | serialTooLong
  | indexOutOfRange
  | valuesToUnpack
  | substringNotFound
  | invalidLiteral
  | notAscii
  deriving DecidableEq, Repr

/-! ### Bits -/

structure BitWriter where
  bits : List Bool := []
  deriving DecidableEq, Repr

def BitWriter.put (w : BitWriter) (val : ℤ) (n : ℕ) : Except Error BitWriter :=
  if val < 0 ∨ 2 ^ n ≤ val then .error (.doesNotFit val n)
  else .ok { bits := w.bits ++ (List.range n).reverse.map fun i => val.toNat.testBit i }

/-- `out[i // 8] |= b << (7 - (i % 8))`. -/
def orBit (out : List UInt8) (b : Bool × ℕ) : List UInt8 :=
  out.modify (b.2 / 8) (· ||| UInt8.ofNat (b.1.toNat <<< (7 - b.2 % 8)))

def BitWriter.bytes (w : BitWriter) : Except Error (List UInt8) :=
  if w.bits.length % 8 ≠ 0 then .error (.notByteAligned w.bits.length)
  else
    .ok (w.bits.zipIdx.foldl orBit (List.replicate (w.bits.length / 8) 0))

structure BitReader where
  bits : List Bool
  pos : ℕ := 0

def BitReader.ofData (data : List UInt8) : BitReader where
  bits := data.flatMap fun byte => (List.range 8).map fun i => byte.toNat.testBit (7 - i)

/-- `get(n)`, with the value so far. -/
def BitReader.get (r : BitReader) (val : ℕ) : (n : ℕ) → Except Error (ℕ × BitReader)
  | 0 => .ok (val, r)
  | n + 1 =>
      match r.bits[r.pos]? with
      | none => .error .indexOutOfRange
      | some b => BitReader.get { r with pos := r.pos + 1 } (val <<< 1 ||| b.toNat) n

/-- `r.get(n) for _ in range(k)`. -/
def BitReader.getEach (r : BitReader) (n : ℕ) : (k : ℕ) → Except Error (List ℕ × BitReader)
  | 0 => .ok ([], r)
  | k + 1 => do
      let (v, r) ← r.get 0 n
      let (vs, r) ← r.getEach n k
      return (v :: vs, r)

/-! ### The fields -/

/-- What a store path is taken apart into. -/
structure Parsed where
  hash : Str
  name : Str
  version : ℤ
  tapeout : ℤ
  git : ℤ
  versionStr : Str
  date : Str
  gitStr : Str
  deriving DecidableEq, Repr

/-- `int`, or its `ValueError`. -/
def readInt (py : Interp) (s : Str) (base : ℕ) : Except Error ℤ :=
  match int py s base with
  | some v => .ok v
  | none => .error .invalidLiteral

/-- The code points of `/`, `-` and `.`. -/
def slash : ℕ := 47

def dash : ℕ := 45

def dot : ℕ := 46

def parseStorePath (py : Interp) (path : Str) : Except Error Parsed := do
  let base := lastPiece path slash
  let h := base.take 32
  let rest := base.drop 33
  match base[32]? with
  | none => throw .indexOutOfRange
  | some c => if c ≠ dash then throw .expectedDash
  match rsplit rest dash 2 with
  | [ver, date, git] =>
      let name := sliceTo ver (rfind ver dash)
      let versionStr := sliceFrom ver (rfind ver dash + 1)
      match versionStr.splitOn dot with
      | [major, minor] =>
          let major ← readInt py major 10
          let minor ← readInt py minor 10
          let tapeout ← readInt py date 10
          let gitValue ← readInt py git 16
          return { hash := h, name, version := major * 10 + minor,
                   tapeout := tapeout - tapeoutBase, git := gitValue, versionStr, date,
                   gitStr := git }
      | _ => throw .valuesToUnpack
  | _ => throw .valuesToUnpack

/-- `NIX32.index(c)`. -/
def nix32Index (c : ℕ) : Except Error ℕ :=
  if c ∈ nix32 then .ok (nix32.idxOf c) else .error .substringNotFound

/-- `s.encode("ascii")`. -/
def encodeAscii (s : Str) : Except Error (List UInt8) :=
  if ∀ c ∈ s, c < 128 then .ok (s.map UInt8.ofNat) else .error .notAscii

/-- `b.decode("ascii")`. -/
def decodeAscii (b : List UInt8) : Except Error Str :=
  if ∀ c ∈ b, c < 128 then .ok (b.map UInt8.toNat) else .error .notAscii

/-- `b.ljust(width, b"\x00")`. -/
def ljust (b : List UInt8) (width : ℕ) : List UInt8 := b ++ List.replicate (width - b.length) 0

/-- `w.put(NIX32.index(c), 5)`. -/
def putChar (w : BitWriter) (c : ℕ) : Except Error BitWriter := do
  w.put (← nix32Index c) 5

/-- What `encode_user` reads of the fields. -/
def encodeUser (hash name : Str) (version tapeout git : ℤ) : Except Error (List UInt8) := do
  let w ← BitWriter.put {} epoch 3
  if hash.length ≠ 32 then throw .hashChars
  let w ← hash.foldlM putChar w
  let name ← encodeAscii name
  if nameChars < name.length then throw .nameTooLong
  let w ← (ljust name nameChars).foldlM (fun w b => w.put b.toNat 7) w
  let w ← w.put version 7
  let w ← w.put tapeout 17
  let w ← w.put git 28
  w.bytes

/-- Omission: a component that is 0, or an empty name, is dropped. -/
def buildStorePath (h name : Str) (version : ℕ) (versionStr : Str) (tapeout : ℕ) (date : Str)
    (git : ℕ) (gitStr : Str) : Str :=
  lit "/nix/store/" ++ h
    ++ (if name ≠ [] then dash :: name else [])
    ++ (if version ≠ 0 then dash :: versionStr else [])
    ++ (if tapeout ≠ 0 then dash :: date else [])
    ++ (if git ≠ 0 then dash :: gitStr else [])

/-- `", ".join(extras)`. -/
def join (sep : Str) : List Str → Str
  | [] => []
  | [s] => s
  | s :: t :: rest => s ++ sep ++ join sep (t :: rest)

def buildProduct (name : Str) (version : ℕ) (versionStr : Str) (tapeout : ℕ) (date : Str)
    (git : ℕ) (gitStr : Str) : Str :=
  let s := if name ≠ [] then name else []
  let s := if version ≠ 0 then (if s ≠ [] then s ++ lit " " else []) ++ versionStr else s
  let extras := (if tapeout ≠ 0 then [date] else []) ++ (if git ≠ 0 then [gitStr] else [])
  if extras ≠ [] then
    (if s ≠ [] then s ++ lit " " else []) ++ lit "(" ++ join (lit ", ") extras ++ lit ")"
  else s

/-- What `decode_user` returns. -/
structure Decoded where
  epoch : ℕ
  hash : Str
  name : Str
  version : ℕ
  versionStr : Str
  tapeout : ℕ
  date : Str
  git : ℕ
  gitStr : Str
  storePath : Str
  product : Str
  deriving DecidableEq, Repr

/-- `f"{version // 10}.{version % 10}"`. -/
def versionString (version : ℕ) : Str :=
  digitsOf 10 (version / 10) ++ lit "." ++ digitsOf 10 (version % 10)

/-- `f"{tapeout + TAPEOUT_BASE:08d}"`. -/
def dateString (tapeout : ℕ) : Str := padded 8 (digitsOf 10 (tapeout + tapeoutBase.toNat))

/-- `f"{git:07x}"`. -/
def gitString (git : ℕ) : Str := padded 7 (digitsOf 16 git)

/-- `NIX32[i]`. -/
def nix32At (i : ℕ) : Except Error ℕ :=
  match nix32[i]? with
  | some c => .ok c
  | none => .error .indexOutOfRange

def decodeUser (blob : List UInt8) : Except Error Decoded := do
  let r := BitReader.ofData blob
  let (e, r) ← r.get 0 3
  if e ≠ epoch then throw (.unknownEpoch e)
  let (indices, r) ← r.getEach 5 32
  let h ← indices.mapM nix32At
  let (chars, r) ← r.getEach 7 nameChars
  -- NUL-terminated: a leading NUL means the name is empty
  let name ← decodeAscii ((chars.map UInt8.ofNat).takeWhile (· ≠ 0))
  let (version, r) ← r.get 0 7
  let (tapeout, r) ← r.get 0 17
  let (git, _) ← r.get 0 28
  let versionStr := versionString version
  let date := dateString tapeout
  let gitStr := gitString git
  return { epoch := e, hash := h, name, version, versionStr, tapeout, date, git, gitStr,
           storePath := buildStorePath h name version versionStr tapeout date git gitStr,
           product := buildProduct name version versionStr tapeout date git gitStr }

def encodeSerial (serial : Str) : Except Error (List UInt8) := do
  let b ← encodeAscii serial
  if deviceIdLen < b.length then throw .serialTooLong
  return ljust b deviceIdLen

/-- The logical blob out of the raw eFuse. -/
def gatherUser (raw256 : List UInt8) : List UInt8 :=
  userWords.flatMap fun off => (raw256.drop off).take 4

/-! ### The script -/

/-- A printed line, with the values in it. -/
inductive Line
  | usage
  | inputStorePath (path : Str)
  | hash (h : Str)
  | name (name : Str)
  | version (str : Str) (val : ℤ)
  | tapeout (date : Str) (offset : ℤ)
  | git (str : Str) (val : ℤ)
  | user (blob : List UInt8)
  | deviceId (did : List UInt8) (ascii : Str)
  | roundTripStorePath (path : Str)
  | product (product : Str)
  | roundTripSerial (serial : Str)
  | lossless (yes : Bool)
  | efusewUser (blob : List UInt8)
  | efusewDeviceId (did : List UInt8)
  deriving DecidableEq, Repr

/-- `main` on `sys.argv`: the lines, and the exit status. -/
def main (py : Interp) (argv : List Str) : Except Error (List Line × ℕ) :=
  match argv with
  | [] | [_] => .ok ([.usage], 2)
  | _ :: path :: more => do
      let serial := more.headD (lit "SG1-0001")
      let f ← parseStorePath py path
      let user ← encodeUser f.hash f.name f.version f.tapeout f.git
      let did ← encodeSerial serial
      -- the round-trip proof
      let back ← decodeUser user
      let ok := back.storePath == path
      let didBack ← decodeAscii (did.rdropWhile (· == 0))
      let lossless := ok && didBack == serial
      return ([.inputStorePath path, .hash f.hash, .name f.name, .version f.versionStr f.version,
        .tapeout f.date f.tapeout, .git f.gitStr f.git, .user user, .deviceId did didBack,
        .roundTripStorePath back.storePath, .product back.product, .roundTripSerial didBack,
        .lossless lossless, .efusewUser user, .efusewDeviceId did], if lossless then 0 else 1)

/-! ### Writing bits -/

variable {w : BitWriter} {r : BitReader} {n k : ℕ}

theorem map_testBit (n v : ℕ) :
    (List.range n).reverse.map (fun i => v.testBit i) = BitField.toBits n v := by
  induction n with
  | zero => rfl
  | succ n ih =>
      rw [List.range_succ, List.reverse_append, List.map_append, ih]
      rfl

theorem put_ok {val : ℕ} (h : val < 2 ^ n) :
    w.put val n = .ok { bits := w.bits ++ BitField.toBits n val } := by
  have hfit : ¬((val : ℤ) < 0 ∨ 2 ^ n ≤ (val : ℤ)) := by
    have hcast : (val : ℤ) < 2 ^ n := by exact_mod_cast h
    omega
  rw [BitWriter.put, if_neg hfit, Int.toNat_natCast, map_testBit]

/-- A value that was put fits. -/
theorem put_ok_inv {val : ℤ} {w' : BitWriter} (h : w.put val n = .ok w') :
    0 ≤ val ∧ val < 2 ^ n := by
  unfold BitWriter.put at h
  split at h
  · cases h
  · omega

/-- Numbers that fit, one after the other. -/
theorem putEach_ok {α : Type} {val : α → ℕ} {xs : List α} (h : ∀ x ∈ xs, val x < 2 ^ n) :
    xs.foldlM (fun w x => w.put (val x) n) w =
      .ok { bits := w.bits ++ (xs.map val).flatMap (BitField.toBits n) : BitWriter } := by
  induction xs generalizing w with
  | nil => simp [pure, Except.pure]
  | cons x xs ih =>
      rw [List.foldlM_cons, put_ok (h x (by simp))]
      have hrest := @ih { bits := w.bits ++ BitField.toBits n (val x) } fun x hx =>
        h x (by simp [hx])
      simpa [bind, Except.bind] using hrest

/-- The byte that eight bits are gathered in. -/
theorem byte_of_bits (b₀ b₁ b₂ b₃ b₄ b₅ b₆ b₇ : Bool) :
    [(b₀, 7), (b₁, 6), (b₂, 5), (b₃, 4), (b₄, 3), (b₅, 2), (b₆, 1), (b₇, 0)].foldl
      (fun out b => out ||| UInt8.ofNat (b.1.toNat <<< b.2)) (0 : UInt8) =
    UInt8.ofNat (BitField.ofBits [b₀, b₁, b₂, b₃, b₄, b₅, b₆, b₇]) := by
  cases b₀ <;> cases b₁ <;> cases b₂ <;> cases b₃ <;> cases b₄ <;> cases b₅ <;> cases b₆ <;>
    cases b₇ <;> rfl

theorem modify_append {α : Type} (pre : List α) (x : α) (post : List α) (f : α → α) :
    (pre ++ x :: post).modify pre.length f = pre ++ f x :: post := by
  induction pre with
  | nil => rfl
  | cons y pre ih => simp [ih]

theorem orBit_append (pre : List UInt8) (x : UInt8) (post : List UInt8) (b : Bool) {i : ℕ}
    (h : i < 8) :
    orBit (pre ++ x :: post) (b, 8 * pre.length + i) =
      pre ++ (x ||| UInt8.ofNat (b.toNat <<< (7 - i))) :: post := by
  have hdiv : (8 * pre.length + i) / 8 = pre.length := by omega
  have hmod : (8 * pre.length + i) % 8 = i := by omega
  rw [orBit, hdiv, hmod, modify_append]

theorem toBytes_cons (b₀ b₁ b₂ b₃ b₄ b₅ b₆ b₇ : Bool) (bs : List Bool) :
    BitField.toBytes (b₀ :: b₁ :: b₂ :: b₃ :: b₄ :: b₅ :: b₆ :: b₇ :: bs) =
      UInt8.ofNat (BitField.ofBits [b₀, b₁, b₂, b₃, b₄, b₅, b₆, b₇]) :: BitField.toBytes bs := by
  have hlen : (b₀ :: b₁ :: b₂ :: b₃ :: b₄ :: b₅ :: b₆ :: b₇ :: bs).length / 8 =
      bs.length / 8 + 1 := by
    simp only [List.length_cons]
    omega
  rw [BitField.toBytes, hlen]
  rfl

/-- Eight bits at a time, behind the bytes that are done. -/
theorem foldl_orBit (bs : List Bool) (m : ℕ) (hlen : bs.length = 8 * m) (pre : List UInt8) :
    (bs.zipIdx (8 * pre.length)).foldl orBit (pre ++ List.replicate m 0) =
      pre ++ BitField.toBytes bs := by
  induction m generalizing bs pre with
  | zero =>
      obtain rfl : bs = [] := List.length_eq_zero_iff.1 hlen
      rfl
  | succ m ih =>
      match bs, hlen with
      | b₀ :: b₁ :: b₂ :: b₃ :: b₄ :: b₅ :: b₆ :: b₇ :: bs, hlen =>
        have hrest : bs.length = 8 * m := by
          simp only [List.length_cons] at hlen
          omega
        have hnext := ih bs hrest
          (pre ++ [UInt8.ofNat (BitField.ofBits [b₀, b₁, b₂, b₃, b₄, b₅, b₆, b₇])])
        have hone := byte_of_bits b₀ b₁ b₂ b₃ b₄ b₅ b₆ b₇
        simp only [List.foldl_cons, List.foldl_nil] at hone
        rw [List.length_append, List.length_singleton, Nat.mul_add, ← hone, List.append_assoc,
          List.append_assoc] at hnext
        rw [toBytes_cons, ← hone, List.replicate_succ]
        simp only [List.zipIdx_cons, List.foldl_cons, Nat.add_assoc, Nat.reduceAdd]
        have hzero := orBit_append pre 0 (List.replicate m 0) b₀ (Nat.succ_pos 7)
        rw [Nat.add_zero] at hzero
        rw [hzero, orBit_append pre _ _ b₁ (by omega),
          orBit_append pre _ _ b₂ (by omega), orBit_append pre _ _ b₃ (by omega),
          orBit_append pre _ _ b₄ (by omega), orBit_append pre _ _ b₅ (by omega),
          orBit_append pre _ _ b₆ (by omega), orBit_append pre _ _ b₇ (by omega)]
        exact hnext

/-- **The bytes** of whole bytes of bits. -/
theorem bytes_ok (h : 8 ∣ w.bits.length) : w.bytes = .ok (BitField.toBytes w.bits) := by
  obtain ⟨m, hm⟩ := h
  have hfold := foldl_orBit w.bits m hm []
  rw [BitWriter.bytes, if_neg (by omega), show w.bits.length / 8 = m by omega]
  exact congrArg Except.ok hfold

/-! ### Reading bits -/

theorem ofData_bits (data : List UInt8) : (BitReader.ofData data).bits = BitField.bits data := by
  have hone (v : ℕ) : (List.range 8).map (fun i => v.testBit (7 - i)) = BitField.toBits 8 v := rfl
  rw [BitReader.ofData, BitField.bits]
  exact congrArg (fun f => data.flatMap f) (funext fun byte => hone byte.toNat)

theorem shift_or (v : ℕ) (b : Bool) : v <<< 1 ||| b.toNat = 2 * v + b.toNat := by
  have hb : b.toNat < 2 ^ 1 := by
    have := Bool.toNat_le b
    omega
  rw [← Nat.shiftLeft_add_eq_or_of_lt hb, Nat.shiftLeft_eq]
  omega

/-- **A number read**, from where the reader is. -/
theorem get_ok {val : ℕ} (h : r.pos + n ≤ r.bits.length) :
    r.get val n = .ok (((r.bits.drop r.pos).take n).foldl (fun v b => 2 * v + b.toNat) val,
      { r with pos := r.pos + n }) := by
  induction n generalizing r val with
  | zero => rfl
  | succ n ih =>
      have hlt : r.pos < r.bits.length := by omega
      have hget : r.bits[r.pos]? = some r.bits[r.pos] := List.getElem?_eq_getElem hlt
      rw [BitReader.get, hget, List.drop_eq_getElem_cons hlt, List.take_succ_cons, List.foldl_cons]
      simp only
      rw [ih (by simpa [Nat.add_assoc, Nat.add_comm 1] using h), shift_or]
      congr 3
      show r.pos + 1 + n = r.pos + (n + 1)
      omega

theorem getEach_ok (h : r.pos + k * n ≤ r.bits.length) :
    r.getEach n k = .ok (BitField.group n k (r.bits.drop r.pos),
      { r with pos := r.pos + k * n }) := by
  induction k generalizing r with
  | zero => simp [BitReader.getEach, BitField.group]
  | succ k ih =>
      rw [Nat.succ_mul] at h
      rw [BitReader.getEach, get_ok (by omega)]
      simp only [bind, Except.bind]
      rw [ih (by simp only; omega), BitField.group, List.drop_drop]
      simp only [pure, Except.pure, BitField.ofBits]
      congr 3
      rw [Nat.succ_mul]
      omega

/-! ### The record that is written, and the one that is read -/

/-- The values that `encode_user` accepts. -/
structure Encodes (hash name : Str) (version tapeout git : ℤ) : Prop where
  hash_length : hash.length = 32
  hash : ∀ c ∈ hash, c ∈ nix32
  ascii : ∀ c ∈ name, c < 128
  name_length : name.length ≤ 15
  version : 0 ≤ version ∧ version < 2 ^ 7
  tapeout : 0 ≤ tapeout ∧ tapeout < 2 ^ 17
  git : 0 ≤ git ∧ git < 2 ^ 28

/-- The fields they are packed as. -/
def fieldsOf (hash name : Str) (version tapeout git : ℤ) : Fields where
  epoch := epoch
  hash := hash.map nix32.idxOf
  name := name ++ List.replicate (15 - name.length) 0
  version := version.toNat
  tapeout := tapeout.toNat
  git := git.toNat

variable {hash name : Str} {version tapeout git : ℤ} {blob : List UInt8}

theorem nix32_length : nix32.length = 32 := by decide

theorem nix32_nodup : nix32.Nodup := by decide

theorem Encodes.fits (h : Encodes hash name version tapeout git) :
    (fieldsOf hash name version tapeout git).Fits := by
  constructor
  · show epoch < 2 ^ 3
    decide
  · simpa [fieldsOf] using h.hash_length
  · intro v hv
    obtain ⟨c, hc, rfl⟩ := List.mem_map.1 hv
    have hlt := List.idxOf_lt_length_of_mem (h.hash c hc)
    rw [nix32_length] at hlt
    exact hlt
  · have := h.name_length
    simp only [fieldsOf, List.length_append, List.length_replicate]
    omega
  · intro v hv
    rcases List.mem_append.1 hv with hname | hpad
    · exact h.ascii v hname
    · rw [List.eq_of_mem_replicate hpad]
      decide
  · have := h.version
    simp only [fieldsOf]
    omega
  · have := h.tapeout
    simp only [fieldsOf]
    omega
  · have := h.git
    simp only [fieldsOf]
    omega

theorem putChar_ok {c : ℕ} (h : c ∈ nix32) :
    putChar w c = .ok { bits := w.bits ++ BitField.toBits 5 (nix32.idxOf c) } := by
  have hlt := List.idxOf_lt_length_of_mem h
  rw [nix32_length] at hlt
  rw [putChar, nix32Index, if_pos h]
  exact put_ok hlt

/-- The hash, character by character. -/
theorem putHash_ok (h : ∀ c ∈ hash, c ∈ nix32) :
    hash.foldlM putChar w =
      .ok { bits := w.bits ++ (hash.map nix32.idxOf).flatMap (BitField.toBits 5) } := by
  induction hash generalizing w with
  | nil => simp [pure, Except.pure]
  | cons c hash ih =>
      rw [List.foldlM_cons, putChar_ok (h c (by simp))]
      have hrest := @ih { bits := w.bits ++ BitField.toBits 5 (nix32.idxOf c) } fun c hc =>
        h c (by simp [hc])
      simpa [bind, Except.bind] using hrest

theorem bind_ok_iff {α β : Type} {x : Except Error α} {f : α → Except Error β} {b : β} :
    x >>= f = .ok b ↔ ∃ a, x = .ok a ∧ f a = .ok b := by
  cases x with
  | error e => simp [bind, Except.bind]
  | ok a => simp [bind, Except.bind]

theorem mem_of_putHash {w' : BitWriter} (h : hash.foldlM putChar w = .ok w') :
    ∀ c ∈ hash, c ∈ nix32 := by
  induction hash generalizing w with
  | nil => simp
  | cons c hash ih =>
      rw [List.foldlM_cons, bind_ok_iff] at h
      obtain ⟨w₁, hput, hrest⟩ := h
      rw [putChar, bind_ok_iff] at hput
      obtain ⟨i, hi, -⟩ := hput
      intro d hd
      rcases List.mem_cons.1 hd with rfl | hd
      · unfold nix32Index at hi
        split at hi
        · assumption
        · cases hi
      · exact ih hrest d hd

theorem map_toNat_ljust (hascii : ∀ c ∈ name, c < 128) :
    (ljust (name.map UInt8.ofNat) nameChars).map UInt8.toNat =
      name ++ List.replicate (15 - name.length) 0 := by
  have hback : (name.map UInt8.ofNat).map UInt8.toNat = name := by
    rw [List.map_map]
    refine (List.map_congr_left ?_).trans (List.map_id name)
    intro c hc
    have hlt : c < 256 := (hascii c hc).trans (by decide)
    exact UInt8.toNat_ofNat_of_lt hlt
  rw [ljust, List.map_append, hback, List.map_replicate, List.length_map]
  rfl

theorem encodeUser_ok (h : Encodes hash name version tapeout git) :
    encodeUser hash name version tapeout git =
      .ok (BitField.toBytes (fieldsOf hash name version tapeout git).bits) := by
  have hfits := h.fits
  have hlen := Fields.length_bits hfits
  have hname : ¬nameChars < (name.map UInt8.ofNat).length := by
    have := h.name_length
    rw [List.length_map, nameChars]
    omega
  have hchars : ∀ b ∈ ljust (name.map UInt8.ofNat) nameChars, b.toNat < 2 ^ 7 := by
    intro b hb
    have hmem := List.mem_map_of_mem (f := UInt8.toNat) hb
    rw [map_toNat_ljust h.ascii] at hmem
    exact hfits.name _ hmem
  obtain ⟨v, rfl⟩ := Int.eq_ofNat_of_zero_le h.version.1
  obtain ⟨t, rfl⟩ := Int.eq_ofNat_of_zero_le h.tapeout.1
  obtain ⟨g, rfl⟩ := Int.eq_ofNat_of_zero_le h.git.1
  unfold encodeUser
  have hversion : v < 2 ^ 7 := hfits.version
  have htapeout : t < 2 ^ 17 := hfits.tapeout
  have hgit : g < 2 ^ 28 := hfits.git
  rw [put_ok (show epoch < 2 ^ 3 by decide)]
  simp only [bind, Except.bind, h.hash_length, ne_eq, not_true_eq_false, if_false,
    putHash_ok h.hash, encodeAscii, if_pos h.ascii, if_neg hname, putEach_ok hchars,
    map_toNat_ljust h.ascii, put_ok hversion, put_ok htapeout, put_ok hgit]
  have hbits : [] ++ BitField.toBits 3 epoch ++
      (hash.map nix32.idxOf).flatMap (BitField.toBits 5) ++
      (name ++ List.replicate (15 - name.length) 0).flatMap (BitField.toBits 7) ++
      BitField.toBits 7 v ++ BitField.toBits 17 t ++ BitField.toBits 28 g =
      (fieldsOf hash name v t g).bits := by
    rw [Fields.bits, List.nil_append, List.append_assoc, List.append_assoc, List.append_assoc,
      List.append_assoc]
    rfl
  rw [hbits]
  exact bytes_ok ⟨40, hlen⟩

/-- **What is written**: of the values that fit, the record; of others, nothing. -/
theorem encodeUser_ok_iff :
    encodeUser hash name version tapeout git = .ok blob ↔
      Encodes hash name version tapeout git ∧
        blob = BitField.toBytes (fieldsOf hash name version tapeout git).bits := by
  constructor
  · intro h
    have henc : Encodes hash name version tapeout git := by
      have hrun := h
      unfold encodeUser at hrun
      obtain ⟨w₁, -, hrun⟩ := bind_ok_iff.1 hrun
      by_cases hlen : hash.length = 32
      swap
      · rw [if_pos hlen] at hrun
        cases hrun
      rw [if_neg (not_not_intro hlen)] at hrun
      obtain ⟨w₂, hhash, hrun⟩ := bind_ok_iff.1 hrun
      obtain ⟨chars, hchars, hrun⟩ := bind_ok_iff.1 hrun
      have hascii : (∀ c ∈ name, c < 128) ∧ name.map UInt8.ofNat = chars := by
        unfold encodeAscii at hchars
        split at hchars
        · exact ⟨‹_›, Except.ok.inj hchars⟩
        · cases hchars
      by_cases hname : nameChars < chars.length
      · rw [if_pos hname] at hrun
        cases hrun
      rw [if_neg hname] at hrun
      obtain ⟨w₃, -, hrun⟩ := bind_ok_iff.1 hrun
      obtain ⟨w₄, hversion, hrun⟩ := bind_ok_iff.1 hrun
      obtain ⟨w₅, htapeout, hrun⟩ := bind_ok_iff.1 hrun
      obtain ⟨w₆, hgit, -⟩ := bind_ok_iff.1 hrun
      have hshort : name.length ≤ 15 := by
        rw [← hascii.2, List.length_map, nameChars] at hname
        omega
      exact ⟨hlen, mem_of_putHash hhash, hascii.1, hshort, put_ok_inv hversion,
        put_ok_inv htapeout, put_ok_inv hgit⟩
    rw [encodeUser_ok henc] at h
    exact ⟨henc, (Except.ok.inj h).symm⟩
  · rintro ⟨henc, rfl⟩
    exact encodeUser_ok henc

/-- The characters of the indices. -/
theorem mapM_nix32At {indices : List ℕ} (h : ∀ i ∈ indices, i < 2 ^ 5) :
    indices.mapM nix32At = .ok (indices.map fun i => nix32.getD i 0) := by
  induction indices with
  | nil => rfl
  | cons i indices ih =>
      have hi : i < nix32.length := by
        rw [nix32_length]
        exact h i (by simp)
      have hget : nix32At i = .ok (nix32.getD i 0) := by
        rw [nix32At, List.getElem?_eq_getElem hi, List.getD_eq_getElem _ 0 hi]
      rw [List.mapM_cons, hget, ih fun i hi => h i (by simp [hi])]
      rfl

/-- The name up to its first NUL. -/
def nameOf (chars : List ℕ) : Str := chars.takeWhile (· ≠ 0)

theorem takeWhile_bytes {chars : List ℕ} (h : ∀ c ∈ chars, c < 2 ^ 7) :
    (chars.map UInt8.ofNat).takeWhile (· ≠ 0) = (nameOf chars).map UInt8.ofNat := by
  induction chars with
  | nil => rfl
  | cons c chars ih =>
      have hc : c < 256 := (h c (by simp)).trans (by decide)
      have hzero : UInt8.ofNat c = 0 ↔ c = 0 := by
        constructor
        · intro heq
          rw [← UInt8.toNat_ofNat_of_lt' hc, heq]
          rfl
        · rintro rfl
          rfl
      have hrest := ih fun c hc => h c (by simp [hc])
      rw [nameOf] at hrest ⊢
      by_cases hnul : c = 0
      · simp [hnul]
      · have hbyte : UInt8.ofNat c ≠ 0 := fun heq => hnul (hzero.1 heq)
        rw [List.map_cons, List.takeWhile_cons_of_pos (by simpa using hbyte),
          List.takeWhile_cons_of_pos (by simpa using hnul), hrest, List.map_cons]

theorem decodeName {chars : List ℕ} (h : ∀ c ∈ chars, c < 2 ^ 7) :
    decodeAscii ((chars.map UInt8.ofNat).takeWhile (· ≠ 0)) = .ok (nameOf chars) := by
  have hmem : ∀ c ∈ nameOf chars, c < 2 ^ 7 := fun c hc =>
    h c ((List.takeWhile_sublist _).subset hc)
  have hascii : ∀ b ∈ (nameOf chars).map UInt8.ofNat, b < 128 := by
    intro b hb
    obtain ⟨c, hc, rfl⟩ := List.mem_map.1 hb
    have hlt := hmem c hc
    rw [UInt8.lt_iff_toNat_lt, UInt8.toNat_ofNat_of_lt' (hlt.trans (by decide))]
    exact hlt
  rw [takeWhile_bytes h, decodeAscii, if_pos hascii, List.map_map]
  refine congrArg Except.ok ((List.map_congr_left ?_).trans (List.map_id _))
  intro c hc
  exact UInt8.toNat_ofNat_of_lt ((hmem c hc).trans (by decide))

/-- What the fields of a record are shown as. -/
def shown (f : Fields) : Decoded :=
  let h := f.hash.map fun i => nix32.getD i 0
  let name := nameOf f.name
  { epoch := f.epoch, hash := h, name, version := f.version,
    versionStr := versionString f.version, tapeout := f.tapeout, date := dateString f.tapeout,
    git := f.git, gitStr := gitString f.git,
    storePath := buildStorePath h name f.version (versionString f.version) f.tapeout
      (dateString f.tapeout) f.git (gitString f.git),
    product := buildProduct name f.version (versionString f.version) f.tapeout
      (dateString f.tapeout) f.git (gitString f.git) }

theorem shown_versionStr (f : Fields) : (shown f).versionStr = versionString f.version := by
  rw [shown]

theorem shown_date (f : Fields) : (shown f).date = dateString f.tapeout := by
  rw [shown]

theorem shown_gitStr (f : Fields) : (shown f).gitStr = gitString f.git := by
  rw [shown]

/-- **What is read** of 40 bytes: the fields of their record, if the format is known. -/
theorem decodeUser_eq (hblob : blob.length = 40) :
    decodeUser blob =
      if (Fields.ofBlob blob).epoch = epoch then .ok (shown (Fields.ofBlob blob))
      else .error (.unknownEpoch (Fields.ofBlob blob).epoch) := by
  have hfits := Fields.ofBits_fits (BitField.bits blob)
  have hbits : (BitField.bits blob).length = 320 := by rw [BitField.length_bits, hblob]
  have hget (p n : ℕ) (hn : p + n ≤ 320) :
      (BitReader.mk (BitField.bits blob) p).get 0 n =
        .ok (BitField.ofBits (((BitField.bits blob).drop p).take n), ⟨BitField.bits blob, p + n⟩) :=
    get_ok (by simpa only [hbits] using hn)
  have hgroup (p n k : ℕ) (hn : p + k * n ≤ 320) :
      (BitReader.mk (BitField.bits blob) p).getEach n k =
        .ok (BitField.group n k ((BitField.bits blob).drop p), ⟨BitField.bits blob, p + k * n⟩) :=
    getEach_ok (by simpa only [hbits] using hn)
  have hstart : BitReader.ofData blob = ⟨BitField.bits blob, 0⟩ := by
    rw [← ofData_bits]
    rfl
  have hepoch : BitField.ofBits (((BitField.bits blob).drop 0).take 3) =
      (Fields.ofBlob blob).epoch := rfl
  unfold decodeUser
  simp only [hstart, hget 0 3 (by decide), hepoch, bind, Except.bind, pure, Except.pure]
  by_cases hknown : (Fields.ofBlob blob).epoch = epoch
  · have hhash : BitField.group 5 32 ((BitField.bits blob).drop 3) =
        (Fields.ofBlob blob).hash := rfl
    have hname : BitField.group 7 15 ((BitField.bits blob).drop 163) =
        (Fields.ofBlob blob).name := rfl
    simp only [hknown, ne_eq, not_true_eq_false, if_false, if_true, nameChars,
      hgroup 3 5 32 (by decide), hgroup 163 7 15 (by decide), hget 268 7 (by decide),
      hget 275 17 (by decide), hget 292 28 (by decide), Nat.reduceAdd, Nat.reduceMul, hhash, hname]
    have hmap : (Fields.ofBlob blob).hash.mapM nix32At = _ := mapM_nix32At hfits.hash
    have hdecode : decodeAscii (((Fields.ofBlob blob).name.map UInt8.ofNat).takeWhile
        fun x => decide ¬x = 0) = _ := decodeName hfits.name
    simp only [hmap, hdecode, shown, hknown]
    rfl
  · rw [if_neg hknown, if_pos hknown]
    rfl

end BadgeOS.BoardId.Codec
