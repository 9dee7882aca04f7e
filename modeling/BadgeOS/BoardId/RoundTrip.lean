import BadgeOS.BoardId.Agreement
import Mathlib

/-!
# Through the fuses and back

A store path is taken apart, packed, burned into ten words scattered over the eFuse image,
gathered, decoded and formatted, by two programs.  What comes out is what went in.

* `StorePath` — the paths that a badge has, with what makes them fit;
* `scatter`, `gatherUser_scatter` — the words in an image that is otherwise anything;
* `StorePath.parse`, `StorePath.encodes` — such a path is taken apart into what was put
  together, and packed;
* `identity_survives`.
-/

namespace BadgeOS.BoardId

open Python Codec

/-- The components of `/nix/store/<hash>-<name>-<major>.<minor>-<date>-<git>`. -/
structure StorePath where
  hash : Str
  name : Str
  major : ℕ
  minor : ℕ
  date : ℕ
  git : Str
  hash_length : hash.length = 32
  hash_mem : ∀ c ∈ hash, c ∈ nix32
  name_length : 1 ≤ name.length ∧ name.length ≤ 15
  name_mem : ∀ c ∈ name, 0 < c ∧ c < 128 ∧ c ≠ slash
  minor_lt : minor < 10
  version : 1 ≤ 10 * major + minor ∧ 10 * major + minor ≤ 127
  date_mem : 20250001 ≤ date ∧ date ≤ 20381071
  git_length : git.length = 7
  git_mem : ∀ c ∈ git, ∃ d < 16, c = digitChar d
  git_ne : git ≠ List.replicate 7 48

namespace StorePath

/-- `<major>.<minor>`. -/
def versionStr (p : StorePath) : Str := digitsOf 10 p.major ++ dot :: digitsOf 10 p.minor

/-- What stands behind the hash and its dash. -/
def rest (p : StorePath) : Str :=
  ((p.name ++ dash :: p.versionStr) ++ dash :: digitsOf 10 p.date) ++ dash :: p.git

def base (p : StorePath) : Str := p.hash ++ dash :: p.rest

def path (p : StorePath) : Str := lit "/nix/store/" ++ p.base

variable (p : StorePath)

/-! ### Taking it apart -/

/-- No separator is a digit. -/
theorem not_mem_digitsOf {sep : ℕ} (hsep : sep < 48) (n : ℕ) : sep ∉ digitsOf 10 n := by
  intro h
  have hdigit := digit_plain ((digitValue_digitsOf (by decide) (by decide) n sep h).trans
    (show 10 < 16 by decide))
  omega

theorem not_mem_git {sep : ℕ} (hsep : sep < 48) : sep ∉ p.git := by
  intro h
  obtain ⟨d, hd, rfl⟩ := p.git_mem sep h
  have hdigit := digit_plain (by rwa [digitValue_digitChar hd])
  omega

theorem not_mem_versionStr : dash ∉ p.versionStr := by
  rw [versionStr, List.mem_append, List.mem_cons]
  rintro (h | h | h)
  · exact not_mem_digitsOf (by decide) _ h
  · exact absurd h (by decide)
  · exact not_mem_digitsOf (by decide) _ h

theorem slash_not_mem_base : slash ∉ p.base := by
  have hdash : slash ≠ dash := by decide
  have hdot : slash ≠ dot := by decide
  have hhash : slash ∉ p.hash := fun h => absurd (p.hash_mem slash h) (by decide)
  have hname : slash ∉ p.name := fun h => (p.name_mem slash h).2.2 rfl
  have hdigits (n : ℕ) : slash ∉ digitsOf 10 n := not_mem_digitsOf (by decide) n
  have hgit : slash ∉ p.git := p.not_mem_git (by decide)
  simp [base, rest, versionStr, hdash, hdot, hhash, hname, hdigits, hgit]

theorem lastPiece_path : lastPiece p.path slash = p.base := by
  have hsplit : p.path = lit "/nix/store" ++ slash :: p.base := by
    have hroot : lit "/nix/store/" = lit "/nix/store" ++ [slash] := by decide
    rw [path, hroot, List.append_assoc]
    rfl
  rw [hsplit, lastPiece_append p.slash_not_mem_base]

theorem splitOn_versionStr :
    p.versionStr.splitOn dot = [digitsOf 10 p.major, digitsOf 10 p.minor] := by
  rw [versionStr, List.splitOn_append_cons_self_of_not_mem (not_mem_digitsOf (by decide) _),
    List.splitOn_eq_singleton (not_mem_digitsOf (by decide) _)]

theorem rsplit_rest :
    rsplit p.rest dash 2 =
      [p.name ++ dash :: p.versionStr, digitsOf 10 p.date, p.git] := by
  rw [rest, rsplit_append (p.not_mem_git (by decide)),
    rsplit_append (not_mem_digitsOf (by decide) _), rsplit]
  rfl

theorem readInt_digitsOf (py : Interp) {n : ℕ} (h : n < 10 ^ 8) :
    readInt py (digitsOf 10 n) 10 = .ok (n : ℤ) := by
  have hlen := (length_digitsOf_le_iff (by decide) (by decide)).2 h
  rw [readInt, int_digitsOf (hlen.trans (by decide))]

/-- The number of a commit. -/
theorem digitValue_git : ∀ c ∈ p.git, digitValue c < 16 := by
  intro c hc
  obtain ⟨d, hd, rfl⟩ := p.git_mem c hc
  rwa [digitValue_digitChar hd]

theorem readInt_git (py : Interp) : readInt py p.git 16 = .ok (value 16 p.git : ℤ) := by
  have hlen : p.git.length ≤ 640 := by
    rw [p.git_length]
    decide
  have hne : p.git ≠ [] := List.ne_nil_of_length_pos (by rw [p.git_length]; decide)
  rw [readInt, int_digits hne p.digitValue_git (by decide) hlen]

/-- What such a path is taken apart into. -/
def parsed : Parsed where
  hash := p.hash
  name := p.name
  version := p.major * 10 + p.minor
  tapeout := p.date - tapeoutBase
  git := value 16 p.git
  versionStr := p.versionStr
  date := digitsOf 10 p.date
  gitStr := p.git

theorem parsed_hash : p.parsed.hash = p.hash := rfl

theorem parsed_name : p.parsed.name = p.name := rfl

/-- **Taking it apart** gives what it was put together from, for every interpreter. -/
theorem parse (py : Interp) : parseStorePath py p.path = .ok p.parsed := by
  have hbase : p.base[32]? = some dash := by
    rw [base, List.getElem?_append_right p.hash_length.le, p.hash_length]
    rfl
  have htake : p.base.take 32 = p.hash := List.take_left' p.hash_length
  have hdrop : p.base.drop 33 = p.rest := by
    rw [← List.drop_drop (i := 1) (j := 32), base, List.drop_left' p.hash_length]
    rfl
  have hrfind : rfind (p.name ++ dash :: p.versionStr) dash = p.name.length :=
    rfind_append p.not_mem_versionStr
  have hversion := p.version
  have hminor := p.minor_lt
  have hdate := p.date_mem
  have hmajor : p.major < 10 ^ 8 := by omega
  have hminor' : p.minor < 10 ^ 8 := by omega
  have hdate' : p.date < 10 ^ 8 := by omega
  unfold parseStorePath
  simp only [p.lastPiece_path, hbase, htake, hdrop, p.rsplit_rest, hrfind, sliceTo_length,
    sliceFrom_length, p.splitOn_versionStr, readInt_digitsOf py hmajor,
    readInt_digitsOf py hminor', readInt_digitsOf py hdate', p.readInt_git py, bind, Except.bind,
    ne_eq, not_true_eq_false, if_false]
  rfl

theorem value_git_lt : value 16 p.git < 2 ^ 28 := by
  have hlt := value_lt p.digitValue_git
  rwa [p.git_length] at hlt

theorem value_git_ne : value 16 p.git ≠ 0 := by
  intro hzero
  have hback := fixed_value (by decide) p.git_mem (by decide)
  rw [hzero, fixed_zero, p.git_length] at hback
  exact p.git_ne hback.symm

/-- **It fits** the record. -/
theorem encodes :
    Encodes p.parsed.hash p.parsed.name p.parsed.version p.parsed.tapeout p.parsed.git := by
  have hversion := p.version
  have hdate := p.date_mem
  have hgit := p.value_git_lt
  have hbase : tapeoutBase = 20250000 := rfl
  constructor
  · exact p.hash_length
  · exact p.hash_mem
  · intro c hc
    exact (p.name_mem c hc).2.1
  · exact p.name_length.2
  · simp only [parsed]
    omega
  · simp only [parsed, hbase]
    omega
  · simp only [parsed]
    omega

/-- The characters of the indices of characters. -/
theorem getD_idxOf {hash : Str} (h : ∀ c ∈ hash, c ∈ nix32) :
    (hash.map nix32.idxOf).map (fun i => nix32.getD i 0) = hash := by
  rw [List.map_map]
  refine (List.map_congr_left ?_).trans (List.map_id _)
  intro c hc
  have hlt := List.idxOf_lt_length_of_mem (h c hc)
  rw [Function.comp_apply, List.getD_eq_getElem _ 0 hlt]
  exact List.getElem_idxOf hlt

/-- **Formatting it** gives the path back. -/
theorem shown_storePath_eq :
    (shown (fieldsOf p.parsed.hash p.parsed.name p.parsed.version p.parsed.tapeout
      p.parsed.git)).storePath = p.path := by
  have hversion := p.version
  have hminor := p.minor_lt
  have hdate := p.date_mem
  have hhash := getD_idxOf p.hash_mem
  have hname : nameOf (p.name ++ List.replicate (15 - p.name.length) 0) = p.name := by
    have hall : ∀ c ∈ p.name, decide (c ≠ 0) = true := by
      intro c hc
      have := p.name_mem c hc
      simp only [decide_eq_true_eq]
      omega
    rw [nameOf, List.takeWhile_append_of_pos hall, List.takeWhile_replicate]
    simp
  have hnumber : p.parsed.version.toNat = 10 * p.major + p.minor := by
    simp only [parsed]
    omega
  have hversionStr : versionString (10 * p.major + p.minor) = p.versionStr := by
    have hdot : lit "." = [dot] := by decide
    rw [versionString, hdot, show (10 * p.major + p.minor) / 10 = p.major by omega,
      show (10 * p.major + p.minor) % 10 = p.minor by omega, List.append_assoc]
    rfl
  have hoffset : p.parsed.tapeout.toNat + tapeoutBase.toNat = p.date := by
    simp only [parsed, tapeoutBase]
    omega
  have hdateStr : dateString p.parsed.tapeout.toNat = digitsOf 10 p.date := by
    have hlong : ¬(digitsOf 10 p.date).length ≤ 7 := by
      rw [length_digitsOf_le_iff (by decide) (by decide)]
      omega
    rw [dateString, hoffset, padded_of_le (by omega)]
  have hgitStr : gitString p.parsed.git.toNat = p.git := by
    have hback := fixed_value (by decide) p.git_mem (by decide)
    have hlt : value 16 p.git < 16 ^ 7 := p.value_git_lt.trans_le (by decide)
    rw [p.git_length] at hback
    rw [gitString, show p.parsed.git.toNat = value 16 p.git from Int.toNat_natCast _,
      padded_digitsOf (by decide) (by decide) hlt, hback]
  have hgit : p.parsed.git.toNat ≠ 0 := p.value_git_ne
  have htapeout : p.parsed.tapeout.toNat ≠ 0 := by
    simp only [parsed, tapeoutBase]
    omega
  have hlong : p.name ≠ [] := List.ne_nil_of_length_pos p.name_length.1
  simp only [shown, fieldsOf, parsed_hash, parsed_name, hhash, hname, hnumber, hversionStr,
    hdateStr, hgitStr]
  rw [buildStorePath, if_pos hlong, if_pos (by omega), if_pos htapeout, if_pos hgit, path, base,
    rest]
  simp only [List.append_assoc, List.cons_append]

end StorePath

/-! ### The image -/

/-- Bytes written into an image. -/
def overwrite (raw : List UInt8) (w : ℕ × List UInt8) : List UInt8 :=
  raw.take w.1 ++ w.2 ++ raw.drop (w.1 + w.2.length)

/-- The ten words of a blob, each at its place in the image. -/
def scatter (blob raw : List UInt8) : List UInt8 :=
  (userWords.zipIdx.map fun w => (w.1, (blob.drop (4 * w.2)).take 4)).foldl overwrite raw

variable {raw : List UInt8} {w : ℕ × List UInt8}

theorem length_overwrite (h : w.1 + w.2.length ≤ raw.length) :
    (overwrite raw w).length = raw.length := by
  simp [overwrite]
  omega

theorem overwrite_read (h : w.1 ≤ raw.length) :
    ((overwrite raw w).drop w.1).take w.2.length = w.2 := by
  have hlen : (raw.take w.1).length = w.1 := List.length_take_of_le h
  rw [overwrite, List.append_assoc, List.drop_left' hlen, List.take_left' rfl]

/-- A word elsewhere is not touched. -/
theorem overwrite_keep {off n : ℕ} (h : w.1 + w.2.length ≤ raw.length)
    (happart : off + n ≤ w.1 ∨ w.1 + w.2.length ≤ off) :
    ((overwrite raw w).drop off).take n = (raw.drop off).take n := by
  apply List.ext_getElem?
  intro i
  rw [List.getElem?_take, List.getElem?_take, List.getElem?_drop, List.getElem?_drop]
  split
  · have hlen : (raw.take w.1).length = w.1 := List.length_take_of_le (by omega)
    rcases happart with hbefore | hbehind
    · rw [overwrite, List.append_assoc, List.getElem?_append_left (by omega),
        List.getElem?_take_of_lt (by omega)]
    · have hjoin : (raw.take w.1 ++ w.2).length = w.1 + w.2.length := by
        rw [List.length_append, hlen]
      rw [overwrite, List.getElem?_append_right (by omega), hjoin, List.getElem?_drop]
      congr 1
      omega
  · rfl

/-- **Words apart from each other** are all there, whatever the image was. -/
theorem foldl_overwrite_read {words : List (ℕ × List UInt8)}
    (hapart : words.Pairwise fun a b => a.1 + a.2.length ≤ b.1 ∨ b.1 + b.2.length ≤ a.1)
    (hroom : ∀ w ∈ words, w.1 + w.2.length ≤ raw.length) :
    (words.foldl overwrite raw).length = raw.length ∧
      (∀ w ∈ words, ((words.foldl overwrite raw).drop w.1).take w.2.length = w.2) ∧
      ∀ off n, (∀ w ∈ words, off + n ≤ w.1 ∨ w.1 + w.2.length ≤ off) →
        ((words.foldl overwrite raw).drop off).take n = (raw.drop off).take n := by
  induction words generalizing raw with
  | nil => simp
  | cons w words ih =>
      obtain ⟨hfirst, hrest⟩ := List.pairwise_cons.1 hapart
      have hw := hroom w (by simp)
      have hlen := length_overwrite hw
      have hroom' : ∀ v ∈ words, v.1 + v.2.length ≤ (overwrite raw w).length := by
        intro v hv
        rw [hlen]
        exact hroom v (by simp [hv])
      obtain ⟨hsame, hread, hkeep⟩ := ih hrest hroom'
      rw [List.foldl_cons]
      refine ⟨hsame.trans hlen, ?_, ?_⟩
      · intro v hv
        rcases List.mem_cons.1 hv with rfl | hv
        · rw [hkeep v.1 v.2.length hfirst, overwrite_read (by omega)]
        · exact hread v hv
      · intro off n happart
        rw [hkeep off n fun v hv => happart v (by simp [hv]),
          overwrite_keep hw (happart w (by simp))]

/-- Gathering from an image that is large enough. -/
theorem gatherUser_eq (h : Decoder.efuseBytes ≤ raw.length) :
    Decoder.gatherUser raw = some (Decoder.userWords.flatMap fun off => (raw.drop off).take 4) := by
  have hgen (words : List ℕ) (out : List UInt8) (hwords : ∀ off ∈ words, off + 4 ≤ raw.length) :
      words.foldlM (fun out off =>
        if raw.length < off + 4 then none else some (out ++ (raw.drop off).take 4)) out =
        some (out ++ words.flatMap fun off => (raw.drop off).take 4) := by
    induction words generalizing out with
    | nil => simp
    | cons off words ih =>
        have hoff := hwords off (by simp)
        rw [List.foldlM_cons, if_neg (by omega)]
        have hrest := ih (out ++ (raw.drop off).take 4) fun o ho => hwords o (by simp [ho])
        rw [List.flatMap_cons, ← List.append_assoc]
        exact hrest
  have hroom : ∀ off ∈ Decoder.userWords, off + 4 ≤ raw.length := by
    have hall : ∀ off ∈ Decoder.userWords, off + 4 ≤ Decoder.efuseBytes := by decide
    exact fun off hoff => (hall off hoff).trans h
  exact hgen Decoder.userWords [] hroom

/-- The words of a blob, one behind the other. -/
theorem flatMap_words (blob : List UInt8) (k : ℕ) :
    (List.range k).flatMap (fun i => (blob.drop (4 * i)).take 4) = blob.take (4 * k) := by
  induction k with
  | zero => rfl
  | succ k ih =>
      rw [List.range_succ, List.flatMap_append, ih, Nat.mul_succ, List.take_add]
      simp

/-- **Gathering** the words that were scattered. -/
theorem gatherUser_scatter {blob : List UInt8} (hblob : blob.length = 40)
    (hraw : raw.length = Decoder.efuseBytes) :
    Decoder.gatherUser (scatter blob raw) = some blob := by
  have hword : ∀ w ∈ userWords.zipIdx, ((blob.drop (4 * w.2)).take 4).length = 4 := by
    intro w hw
    have hten : ∀ w ∈ userWords.zipIdx, w.2 < 10 := by decide
    have := hten w hw
    rw [List.length_take, List.length_drop]
    omega
  have hapart : (userWords.zipIdx.map fun w => (w.1, (blob.drop (4 * w.2)).take 4)).Pairwise
      fun a b => a.1 + a.2.length ≤ b.1 ∨ b.1 + b.2.length ≤ a.1 := by
    have hplaces : userWords.zipIdx.Pairwise fun a b => a.1 + 4 ≤ b.1 ∨ b.1 + 4 ≤ a.1 := by decide
    rw [List.pairwise_map]
    refine hplaces.imp_of_mem ?_
    intro a b ha hb h
    rwa [hword a ha, hword b hb]
  have hroom : ∀ w ∈ userWords.zipIdx.map fun w => (w.1, (blob.drop (4 * w.2)).take 4),
      w.1 + w.2.length ≤ raw.length := by
    intro w hw
    obtain ⟨v, hv, rfl⟩ := List.mem_map.1 hw
    have hall : ∀ v ∈ userWords.zipIdx, v.1 + 4 ≤ Decoder.efuseBytes := by decide
    rw [hword v hv, hraw]
    exact hall v hv
  obtain ⟨hlen, hread, -⟩ := foldl_overwrite_read hapart hroom
  have hlarge : Decoder.efuseBytes ≤ (scatter blob raw).length := (hlen.trans hraw).ge
  have hwords : Decoder.userWords = userWords.zipIdx.map Prod.fst := by decide
  have hslice : ∀ v ∈ userWords.zipIdx,
      ((scatter blob raw).drop v.1).take 4 = (blob.drop (4 * v.2)).take 4 := by
    intro v hv
    have hone := hread _ (List.mem_map_of_mem hv)
    rwa [hword v hv] at hone
  have hrange : userWords.zipIdx.map Prod.snd = List.range 10 := by decide
  rw [gatherUser_eq hlarge, hwords, List.flatMap_map]
  calc some (userWords.zipIdx.flatMap fun v => ((scatter blob raw).drop v.1).take 4)
      = some (userWords.zipIdx.flatMap fun v => (blob.drop (4 * v.2)).take 4) :=
        congrArg some (List.flatMap_congr hslice)
    _ = some ((List.range 10).flatMap fun i => (blob.drop (4 * i)).take 4) := by
        rw [← hrange, List.flatMap_map]
    _ = some blob := by
        rw [flatMap_words, List.take_of_length_le (by omega)]

/-! ### There and back -/

/-- Only NULs behind the first NUL. -/
def NulPadded (chars : List ℕ) : Prop := ∀ c ∈ chars.dropWhile (· ≠ 0), c = 0

theorem nulPadded_eq {chars : List ℕ} (h : NulPadded chars) :
    nameOf chars ++ List.replicate (chars.length - (nameOf chars).length) 0 = chars := by
  have hzeros : chars.dropWhile (· ≠ 0) = List.replicate (chars.dropWhile (· ≠ 0)).length 0 :=
    List.eq_replicate_of_mem h
  have hsplit : nameOf chars ++ chars.dropWhile (· ≠ 0) = chars := List.takeWhile_append_dropWhile
  have hlen : chars.length - (nameOf chars).length = (chars.dropWhile (· ≠ 0)).length := by
    have hsum := congrArg List.length hsplit
    rw [List.length_append] at hsum
    omega
  rw [hlen, ← hzeros, hsplit]

theorem getD_mem_nix32 {i : ℕ} (h : i < 2 ^ 5) : nix32.getD i 0 ∈ nix32 := by
  have hlt : i < nix32.length := by rwa [nix32_length]
  rw [List.getD_eq_getElem _ 0 hlt]
  exact List.getElem_mem hlt

theorem idxOf_getD {i : ℕ} (h : i < 2 ^ 5) : nix32.idxOf (nix32.getD i 0) = i := by
  have hlt : i < nix32.length := by rwa [nix32_length]
  rw [List.getD_eq_getElem _ 0 hlt]
  exact nix32_nodup.idxOf_getElem i hlt

/-- The fields that were read fit, and are those of the record. -/
theorem encodes_shown {f : Fields} (hfits : f.Fits) :
    Encodes (shown f).hash (shown f).name (shown f).version (shown f).tapeout (shown f).git := by
  have hname : (shown f).name = nameOf f.name := by rw [shown]
  have hhash : (shown f).hash = f.hash.map fun i => nix32.getD i 0 := by rw [shown]
  have hversion : (shown f).version = f.version := by rw [shown]
  have htapeout : (shown f).tapeout = f.tapeout := by rw [shown]
  have hgit : (shown f).git = f.git := by rw [shown]
  rw [hname, hhash, hversion, htapeout, hgit]
  constructor
  · rw [List.length_map, hfits.hash_length]
  · intro c hc
    obtain ⟨i, hi, rfl⟩ := List.mem_map.1 hc
    exact getD_mem_nix32 (hfits.hash i hi)
  · intro c hc
    exact hfits.name c ((List.takeWhile_sublist _).subset hc)
  · exact length_nameOf_le hfits
  · have := hfits.version
    omega
  · have := hfits.tapeout
    omega
  · have := hfits.git
    omega

theorem fieldsOf_shown {f : Fields} (hfits : f.Fits) (hepoch : f.epoch = epoch)
    (hpad : NulPadded f.name) :
    fieldsOf (shown f).hash (shown f).name (shown f).version (shown f).tapeout (shown f).git =
      f := by
  have hhash : (f.hash.map fun i => nix32.getD i 0).map nix32.idxOf = f.hash := by
    rw [List.map_map]
    refine (List.map_congr_left ?_).trans (List.map_id _)
    intro i hi
    exact idxOf_getD (hfits.hash i hi)
  have hname := nulPadded_eq hpad
  rw [hfits.name_length] at hname
  simp only [fieldsOf, shown, hhash, hname, Int.toNat_natCast, ← hepoch]

/-- **A record read and written again.** -/
theorem encodeUser_shown {blob : List UInt8} (hblob : blob.length = 40)
    (hepoch : (Fields.ofBlob blob).epoch = epoch) (hpad : NulPadded (Fields.ofBlob blob).name) :
    encodeUser (shown (Fields.ofBlob blob)).hash (shown (Fields.ofBlob blob)).name
      (shown (Fields.ofBlob blob)).version (shown (Fields.ofBlob blob)).tapeout
      (shown (Fields.ofBlob blob)).git = .ok blob := by
  have hfits : (Fields.ofBlob blob).Fits := Fields.ofBits_fits _
  rw [encodeUser_ok_iff, fieldsOf_shown hfits hepoch hpad, Fields.bits_ofBlob hblob,
    BitField.toBytes_bits]
  exact ⟨encodes_shown hfits, rfl⟩

/-- **The board identity survives the fuses.**  A store path, taken apart by any interpreter,
packed, scattered over an image that is otherwise anything, gathered, decoded and formatted on
the badge is that path; and a record with the known format, and only NULs behind its name,
decoded and packed again is that record. -/
theorem identity_survives (py : Interp) :
    (∀ (p : StorePath) (raw : List UInt8), raw.length = Decoder.efuseBytes →
      ∃ f blob gathered rec, parseStorePath py p.path = .ok f ∧
        encodeUser f.hash f.name f.version f.tapeout f.git = .ok blob ∧
        Decoder.gatherUser (scatter blob raw) = some gathered ∧
        Decoder.decodeUser gathered = some rec ∧
        (Decoder.formatStorePath rec 128).map UInt8.toNat = p.path) ∧
    ∀ blob : List UInt8, blob.length = 40 → (Fields.ofBlob blob).epoch = epoch →
      NulPadded (Fields.ofBlob blob).name →
      ∃ d, decodeUser blob = .ok d ∧
        encodeUser d.hash d.name d.version d.tapeout d.git = .ok blob := by
  constructor
  · intro p raw hraw
    have henc := p.encodes
    have hfits := henc.fits
    have hblob : (BitField.toBytes (fieldsOf p.parsed.hash p.parsed.name p.parsed.version
        p.parsed.tapeout p.parsed.git).bits).length = 40 := by
      rw [BitField.length_toBytes, Fields.length_bits hfits]
    refine ⟨p.parsed, _, _, _, p.parse py, encodeUser_ok henc, gatherUser_scatter hblob hraw,
      Decoder.decodeUser_eq hblob, ?_⟩
    rw [Fields.ofBlob_toBytes hfits, (pieces hfits).storePath, ← shown_storePath,
      p.shown_storePath_eq]
  · intro blob hblob hepoch hpad
    exact ⟨_, (decodeUser_eq hblob).trans (if_pos hepoch), encodeUser_shown hblob hepoch hpad⟩

/-- The path of one badge. -/
def thisPath : StorePath where
  hash := lit "dchav4nca8fzz7lcc9zadjxjcrvs920p"
  name := lit "nix-badge-board"
  major := 2
  minor := 0
  date := 20260706
  git := lit "07f6efc"
  hash_length := by decide
  hash_mem := by decide
  name_length := by decide
  name_mem := by decide
  minor_lt := by decide
  version := by decide
  date_mem := by decide
  git_length := by decide
  git_mem := by decide
  git_ne := by decide

/-- An interpreter that knows ASCII alone. -/
def asciiInterp : Interp where
  isSpace _ := false
  decimal _ := none
  maxStrDigits := 4300
  limit := .inr (by decide)

/-- One badge's path through a blank image, and its record. -/
theorem identity_survives_this :
    (∃ f blob gathered rec, parseStorePath asciiInterp thisPath.path = .ok f ∧
      encodeUser f.hash f.name f.version f.tapeout f.git = .ok blob ∧
      Decoder.gatherUser (scatter blob (List.replicate 256 0)) = some gathered ∧
      Decoder.decodeUser gathered = some rec ∧
      (Decoder.formatStorePath rec 128).map UInt8.toNat = thisPath.path) ∧
    ∃ d, decodeUser thisUser = .ok d ∧
      encodeUser d.hash d.name d.version d.tapeout d.git = .ok thisUser := by
  have hpad : NulPadded (Fields.ofBlob thisUser).name := by
    rw [NulPadded]
    decide
  exact ⟨(identity_survives asciiInterp).1 thisPath _ (List.length_replicate ..),
    (identity_survives asciiInterp).2 thisUser (by decide) (by decide) hpad⟩

end BadgeOS.BoardId
