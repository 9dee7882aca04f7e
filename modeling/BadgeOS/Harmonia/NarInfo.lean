import BadgeOS.Lib.Lines
import Mathlib

/-!
# The rewritten narinfo

`upstream_narinfo.rs`: an upstream's narinfo is a text of lines `key: value`.  The last line of a
key counts, and every `Sig` does.  What clients get is a text with the fields that were signed, and
harmonia's own URL.  A `&str` is its `Char`s, and a `BTreeSet` a `Finset`.

`StoreDir::parse`, `Hash`, `NarHash`, `ContentAddress` and `Signature` are of harmonia's store
library, and stand as `Formats`.

* `parseUpstreamNarinfo` — the function, over `scan`, the loop of its lines;
* `scan_clientLines` — the fields of the rewritten text;
* `client_narinfo_parses` — it says what the upstream's did.
-/

namespace BadgeOS.Harmonia

open Text

namespace NarInfo

abbrev Str := List Char

/-- `char::is_whitespace` -/
def isWhitespace (c : Char) : Bool :=
  let n := c.toNat
  decide (9 ≤ n ∧ n ≤ 13) || n == 32 || n == 133 || n == 160 || n == 5760 ||
    decide (8192 ≤ n ∧ n ≤ 8202) || n == 8232 || n == 8233 || n == 8239 || n == 8287 || n == 12288

/-- `str::trim` -/
def trim (s : Str) : Str := Text.trim isWhitespace s

/-- The digits of `str::parse::<u64>`, from the value so far. -/
def parseDigits (value : ℕ) : Str → Except Str ℕ
  | [] => .ok value
  | c :: rest =>
      if c.isDigit then
        let next := value * 10 + (c.toNat - 48)
        if 2 ^ 64 ≤ next then .error "number too large to fit in target type".toList
        else parseDigits next rest
      else .error "invalid digit found in string".toList

/-- `str::parse::<u64>` -/
def parseU64 : Str → Except Str ℕ
  | [] => .error "cannot parse integer from empty string".toList
  | ['+'] => .error "invalid digit found in string".toList
  | '+' :: digits => parseDigits 0 digits
  | digits => parseDigits 0 digits

/-- What harmonia's store library parses and prints. -/
structure Formats where
  StorePath : Type
  Hash : Type
  NarHash : Type
  ContentAddress : Type
  Signature : Type
  parseStorePath : Str → Except Str StorePath
  hashString : StorePath → Str
  fromBasePath : Str → Except Str StorePath
  parseHash : Str → Except Str Hash
  bareBase32 : Hash → Str
  toNarHash : Hash → Except Str NarHash
  parseContentAddress : Str → Except Str ContentAddress
  parseSignature : Str → Except Str Signature
  decStorePath : DecidableEq StorePath
  decSignature : DecidableEq Signature

instance (F : Formats) : DecidableEq F.StorePath := F.decStorePath

instance (F : Formats) : DecidableEq F.Signature := F.decSignature

/-- The variables of `parse_upstream_narinfo`'s loop. -/
structure Fields where
  storePath : Option Str := none
  url : Option Str := none
  compression : Option Str := none
  narHash : Option Str := none
  narSize : Option Str := none
  references : List Str := []
  deriver : Option Str := none
  ca : Option Str := none
  sigs : List Str := []
  deriving DecidableEq

/-- The `match` of the loop. -/
def Fields.set (f : Fields) (k v : Str) : Fields :=
  if k = "StorePath".toList then { f with storePath := some (trim v) }
  else if k = "URL".toList then { f with url := some (trim v) }
  else if k = "Compression".toList then { f with compression := some (trim v) }
  else if k = "NarHash".toList then { f with narHash := some (trim v) }
  else if k = "NarSize".toList then { f with narSize := some (trim v) }
  else if k = "References".toList then { f with references := words isWhitespace v }
  else if k = "Deriver".toList then { f with deriver := some (trim v) }
  else if k = "CA".toList then { f with ca := some (trim v) }
  else if k = "Sig".toList then { f with sigs := f.sigs ++ [trim v] }
  else f

/-- One line. -/
def Fields.scanLine (f : Fields) (line : Str) : Fields :=
  match splitOnce ':' ' ' line with
  | none => f
  | some (k, v) => f.set k v

/-- The loop over `text.lines()`. -/
def scan (text : Str) : Fields := (lines '\n' '\r' text).foldl Fields.scanLine {}

/-- `infer_compression_from_url` -/
def inferCompressionFromUrl (url : Str) : Str :=
  if ".nar.zst".toList.isSuffixOf url then "zstd".toList
  else if ".nar.xz".toList.isSuffixOf url then "xz".toList
  else if ".nar.bz2".toList.isSuffixOf url then "bzip2".toList
  else if ".nar".toList.isSuffixOf url then "none".toList
  -- Unknown extension: assume xz
  else "xz".toList

/-- `UnkeyedValidPathInfo` with its path, without the fields that are constant. -/
structure ValidPathInfo (F : Formats) where
  path : F.StorePath
  deriver : Option F.StorePath
  narHash : F.NarHash
  references : Finset F.StorePath
  narSize : ℕ
  signatures : Finset F.Signature
  ca : Option F.ContentAddress

structure UpstreamNarInfo (F : Formats) where
  storePath : Str
  storePathHash : Str
  narHashBare : Str
  narUrl : Str
  upstreamCompression : Str
  clientNarinfo : Str
  info : ValidPathInfo F

/-- `map_err` with a text before the error's. -/
def context {α : Type} (text : Str) (r : Except Str α) : Except Str α :=
  r.mapError (text ++ ·)

/-- `ok_or` -/
def okOr {α : Type} (text : Str) (v : Option α) : Except Str α :=
  match v with
  | some a => .ok a
  | none => .error text

/-- Parse each string into a set. -/
def parseSet {α : Type} [DecidableEq α] (parse : Str → Except Str α) : List Str → Except Str (Finset α)
  | [] => .ok ∅
  | s :: rest => do
      let a ← parse s
      let set ← parseSet parse rest
      .ok (insert a set)

variable (F : Formats)

/-- `normalize_nar_hash_bare` -/
def normalizeNarHashBare (raw : Str) : Except Str Str := do
  let h ← F.parseHash raw
  .ok (F.bareBase32 h)

/-- `build_valid_path_info` -/
def buildValidPathInfo (sp : F.StorePath) (narHashRaw : Str) (narSize : ℕ) (references : List Str)
    (deriver ca : Option Str) (sigs : List Str) : Except Str (ValidPathInfo F) := do
  let h ← F.parseHash narHashRaw
  let narHash ← context "NarHash type error: ".toList (F.toNarHash h)
  let refs ← parseSet (fun r =>
    context ("invalid reference '".toList ++ r ++ "': ".toList) (F.fromBasePath r)) references
  let deriverSp ← deriver.mapM fun d =>
    context ("invalid deriver '".toList ++ d ++ "': ".toList) (F.fromBasePath d)
  let contentAddress ← ca.mapM fun c =>
    context ("invalid CA '".toList ++ c ++ "': ".toList) (F.parseContentAddress c)
  let signatures ← parseSet (fun s =>
    context ("invalid Sig '".toList ++ s ++ "': ".toList) (F.parseSignature s)) sigs
  .ok { path := sp, deriver := deriverSp, narHash, references := refs, narSize, signatures,
        ca := contentAddress }

/-- A line of the rewritten narinfo. -/
def field (key : String) (value : Str) : Str := key.toList ++ ':' :: ' ' :: value

/-- The lines of the rewritten narinfo. -/
def clientLines (storePath url narHash narSize : Str) (references : List Str)
    (deriver ca : Option Str) (sigs : List Str) : List Str :=
  [field "StorePath" storePath, field "URL" url, field "Compression" "none".toList,
    field "FileHash" narHash, field "FileSize" narSize, field "NarHash" narHash,
    field "NarSize" narSize] ++
  (if references.isEmpty then [] else [field "References" (joined ' ' references)]) ++
  deriver.toList.map (field "Deriver") ++ ca.toList.map (field "CA") ++ sigs.map (field "Sig")

/-- The upstream's compression, from its URL where the field is absent or empty. -/
def upstreamCompression (compression : Option Str) (url : Str) : Str :=
  match compression.map trim with
  | some c => if c = [] then inferCompressionFromUrl url else c
  | none => inferCompressionFromUrl url

/-- The URL of harmonia's own route. -/
def clientUrl (storePathHash narHashBare : Str) : Str :=
  "nar/".toList ++ storePathHash ++ '-' :: narHashBare ++ ".nar".toList

/-- `parse_upstream_narinfo` -/
def parseUpstreamNarinfo (text : Str) : Except Str (UpstreamNarInfo F) := do
  let f := scan text
  let storePath ← okOr "upstream narinfo: no StorePath".toList f.storePath
  let url ← okOr "upstream narinfo: no URL".toList f.url
  let narHashRaw ← okOr "upstream narinfo: no NarHash".toList f.narHash
  let narSizeStr ← okOr "upstream narinfo: no NarSize".toList f.narSize
  let narSize ← context "bad NarSize: ".toList (parseU64 narSizeStr)
  let sp ← context "parse StorePath: ".toList (F.parseStorePath storePath)
  let storePathHash := F.hashString sp
  let narHashBare ← normalizeNarHashBare F narHashRaw
  let info ← buildValidPathInfo F sp narHashRaw narSize f.references f.deriver f.ca f.sigs
  let out := unlines '\n' (clientLines storePath (clientUrl storePathHash narHashBare) narHashRaw
    (Nat.toDigits 10 narSize) f.references f.deriver f.ca f.sigs)
  .ok { storePath, storePathHash, narHashBare, narUrl := url
        upstreamCompression := upstreamCompression f.compression url
        clientNarinfo := out, info }

variable {F}

/-! ### Clean values -/

/-- A value as the loop keeps it: trimmed, and of one line. -/
def Clean (v : Str) : Prop := trim v = v ∧ '\n' ∉ v

/-- A word: not empty, and without blanks. -/
def Word (w : Str) : Prop := w ≠ [] ∧ ∀ c ∈ w, isWhitespace c = false

theorem clean_of_no_blank {v : Str} (h : ∀ c ∈ v, isWhitespace c = false) : Clean v := by
  refine ⟨trim_eq_self h, fun hmem => ?_⟩
  have hnl := h '\n' hmem
  have hblank : isWhitespace '\n' = true := rfl
  rw [hblank] at hnl
  cases hnl

theorem clean_none : Clean "none".toList := by
  have hletters : "none".toList = ['n', 'o', 'n', 'e'] := rfl
  rw [hletters]
  refine clean_of_no_blank fun c hc => ?_
  simp only [List.mem_cons, List.not_mem_nil, or_false] at hc
  rcases hc with rfl | rfl | rfl | rfl
  all_goals rfl

theorem clean_trim {v : Str} (h : '\n' ∉ v) : Clean (trim v) :=
  ⟨trim_trim _ v, fun hmem => h (trim_sublist.mem hmem)⟩

theorem Clean.last_ne_cr {v : Str} (h : Clean v) : v.getLast? ≠ some '\r' := by
  intro hlast
  rcases trim_cases isWhitespace v with hnil | ⟨init, last, hconcat, hblank⟩
  · rw [← h.1, trim, hnil] at hlast
    cases hlast
  · rw [← h.1, trim, hconcat, List.getLast?_concat] at hlast
    cases hlast
    cases hblank

/-- What the loop has at its end is clean. -/
structure Fields.Clean (f : Fields) : Prop where
  storePath : ∀ v ∈ f.storePath, NarInfo.Clean v
  narHash : ∀ v ∈ f.narHash, NarInfo.Clean v
  references : ∀ w ∈ f.references, Word w
  deriver : ∀ v ∈ f.deriver, NarInfo.Clean v
  ca : ∀ v ∈ f.ca, NarInfo.Clean v
  sigs : ∀ v ∈ f.sigs, NarInfo.Clean v

theorem Fields.Clean.set {f : Fields} (h : f.Clean) (k : Str) {v : Str} (hv : '\n' ∉ v) :
    (f.set k v).Clean := by
  have hsome : ∀ u ∈ some (trim v), NarInfo.Clean u := by
    intro u hu
    cases hu
    exact clean_trim hv
  rw [Fields.set]
  split
  · exact { h with storePath := hsome }
  split
  · exact { h with }
  split
  · exact { h with }
  split
  · exact { h with narHash := hsome }
  split
  · exact { h with }
  split
  · exact { h with references := fun w hw => words_mem hw }
  split
  · exact { h with deriver := hsome }
  split
  · exact { h with ca := hsome }
  split
  · refine { h with sigs := fun u hu => ?_ }
    rcases List.mem_append.mp hu with hu | hu
    · exact h.sigs u hu
    · rw [List.mem_singleton.mp hu]
      exact clean_trim hv
  · exact h

theorem Fields.Clean.scanLine {f : Fields} (h : f.Clean) {line : Str} (hline : '\n' ∉ line) :
    (f.scanLine line).Clean := by
  rw [Fields.scanLine]
  cases hsplit : splitOnce ':' ' ' line with
  | none => exact h
  | some r => exact h.set r.1 fun hmem => hline (mem_of_splitOnce hsplit hmem)

/-- **The loop** keeps clean values only. -/
theorem scan_clean (text : Str) : (scan text).Clean := by
  have hrun (ls : List Str) (f : Fields) (hf : f.Clean) (hls : ∀ l ∈ ls, '\n' ∉ l) :
      (ls.foldl Fields.scanLine f).Clean := by
    induction ls generalizing f with
    | nil => exact hf
    | cons l ls ih =>
        exact ih _ (hf.scanLine (hls l List.mem_cons_self))
          fun m hm => hls m (List.mem_cons_of_mem l hm)
  refine hrun _ {} ?_ fun l hl => not_mem_of_mem_lines hl
  constructor <;> simp

/-! ### The rewritten lines -/

theorem scanLine_field (f : Fields) {key : String} (hkey : ':' ∉ key.toList) (v : Str) :
    f.scanLine (field key v) = f.set key.toList v := by
  rw [Fields.scanLine, field, splitOnce_append hkey]

/-- A line that is read back as it is. -/
def Line (l : Str) : Prop := '\n' ∉ l ∧ l.getLast? ≠ some '\r'

theorem field_line {key : String} (hkey : '\n' ∉ key.toList) {v : Str} (hv : '\n' ∉ v)
    (hlast : v.getLast? ≠ some '\r') : Line (field key v) := by
  rw [Line, field]
  constructor
  · simp [hkey, hv]
  · rcases List.eq_nil_or_concat v with rfl | ⟨init, last, rfl⟩
    · simp
    · rw [List.concat_eq_append] at hlast ⊢
      rw [List.getLast?_concat] at hlast
      have hsplit : key.toList ++ ':' :: ' ' :: (init ++ [last]) =
          (key.toList ++ ':' :: ' ' :: init) ++ [last] := by simp
      rw [hsplit, List.getLast?_concat]
      exact hlast

theorem joined_mem {ws : List Str} {c : Char} (hc : c ∈ joined ' ' ws) :
    c = ' ' ∨ ∃ w ∈ ws, c ∈ w := by
  induction ws with
  | nil => exact absurd hc (by simp [joined])
  | cons w ws ih =>
      cases ws with
      | nil =>
          rw [joined, List.intercalate_singleton] at hc
          exact Or.inr ⟨w, List.mem_cons_self, hc⟩
      | cons v ws =>
          rw [joined, List.intercalate_cons_cons] at hc
          rcases List.mem_append.mp hc with hc | hc
          · rcases List.mem_append.mp hc with hw | hsp
            · exact Or.inr ⟨w, List.mem_cons_self, hw⟩
            · exact Or.inl (List.mem_singleton.mp hsp)
          · rcases ih hc with hsp | ⟨u, hu, hcu⟩
            · exact Or.inl hsp
            · exact Or.inr ⟨u, List.mem_cons_of_mem w hu, hcu⟩

/-- No blank but the spaces is in a list of words. -/
theorem not_mem_joined {ws : List Str} (hws : ∀ w ∈ ws, Word w) {c : Char}
    (hblank : isWhitespace c = true) (hc : c ≠ ' ') : c ∉ joined ' ' ws := by
  intro hmem
  rcases joined_mem hmem with hsp | ⟨w, hw, hcw⟩
  · exact hc hsp
  · have hword := (hws w hw).2 c hcw
    rw [hblank] at hword
    cases hword

section

variable {storePath url narHash narSize : Str} {references : List Str} {deriver ca : Option Str}
  {sigs : List Str}

/-- What a rewritten narinfo is made of. -/
structure Written (storePath url narHash narSize : Str) (references : List Str)
    (deriver ca : Option Str) (sigs : List Str) : Prop where
  storePath : Clean storePath
  url : Clean url
  narHash : Clean narHash
  narSize : Clean narSize
  references : ∀ w ∈ references, Word w
  deriver : ∀ v ∈ deriver, Clean v
  ca : ∀ v ∈ ca, Clean v
  sigs : ∀ v ∈ sigs, Clean v

theorem Clean.line {v : Str} (hv : Clean v) {key : String} (hkey : '\n' ∉ key.toList) :
    Line (field key v) := field_line hkey hv.2 hv.last_ne_cr

theorem Written.lines
    (h : Written storePath url narHash narSize references deriver ca sigs) :
    ∀ l ∈ clientLines storePath url narHash narSize references deriver ca sigs, Line l := by
  intro l hl
  simp only [clientLines, List.mem_append] at hl
  rcases hl with (((hl | hl) | hl) | hl) | hl
  · simp only [List.mem_cons, List.not_mem_nil, or_false] at hl
    rcases hl with rfl | rfl | rfl | rfl | rfl | rfl | rfl
    · exact h.storePath.line (by decide)
    · exact h.url.line (by decide)
    · exact clean_none.line (by decide)
    · exact h.narHash.line (by decide)
    · exact h.narSize.line (by decide)
    · exact h.narHash.line (by decide)
    · exact h.narSize.line (by decide)
  · split at hl
    · cases hl
    · have hnl : '\n' ∉ joined ' ' references := not_mem_joined h.references rfl (by decide)
      have hcr : '\r' ∉ joined ' ' references := not_mem_joined h.references rfl (by decide)
      rw [List.mem_singleton.mp hl]
      exact field_line (by decide) hnl fun hlast => hcr (List.mem_of_getLast? hlast)
  · obtain ⟨v, hv, rfl⟩ := List.mem_map.mp hl
    exact (h.deriver v (Option.mem_toList.mp hv)).line (by decide)
  · obtain ⟨v, hv, rfl⟩ := List.mem_map.mp hl
    exact (h.ca v (Option.mem_toList.mp hv)).line (by decide)
  · obtain ⟨v, hv, rfl⟩ := List.mem_map.mp hl
    exact (h.sigs v hv).line (by decide)

theorem foldl_sigs (f : Fields) {sigs : List Str} (hsigs : ∀ v ∈ sigs, Clean v) :
    (sigs.map (field "Sig")).foldl Fields.scanLine f = { f with sigs := f.sigs ++ sigs } := by
  induction sigs generalizing f with
  | nil => rw [List.append_nil]; rfl
  | cons v sigs ih =>
      have hset : f.set "Sig".toList v = { f with sigs := f.sigs ++ [v] } := by
        have htrim := (hsigs v List.mem_cons_self).1
        simp [Fields.set, htrim]
      rw [List.map_cons, List.foldl_cons, scanLine_field f (by decide), hset,
        ih _ fun u hu => hsigs u (List.mem_cons_of_mem v hu)]
      simp

/-- **The fields of the rewritten text.** -/
theorem scan_clientLines
    (h : Written storePath url narHash narSize references deriver ca sigs) :
    scan (unlines '\n' (clientLines storePath url narHash narSize references deriver ca sigs)) =
      { storePath := some storePath, url := some url, compression := some "none".toList,
        narHash := some narHash, narSize := some narSize, references, deriver, ca, sigs } := by
  have hlines := h.lines
  rw [scan, lines_unlines (fun l hl => (hlines l hl).1) (fun l hl => (hlines l hl).2), clientLines]
  have hnone : trim ['n', 'o', 'n', 'e'] = ['n', 'o', 'n', 'e'] := clean_none.1
  have hsp : isWhitespace ' ' = true := rfl
  have hhead : [field "StorePath" storePath, field "URL" url, field "Compression" "none".toList,
      field "FileHash" narHash, field "FileSize" narSize, field "NarHash" narHash,
      field "NarSize" narSize].foldl Fields.scanLine {} =
      { storePath := some storePath, url := some url, compression := some "none".toList,
        narHash := some narHash, narSize := some narSize } := by
    simp only [List.foldl_cons, List.foldl_nil]
    rw [scanLine_field _ (by decide), scanLine_field _ (by decide), scanLine_field _ (by decide),
      scanLine_field _ (by decide), scanLine_field _ (by decide), scanLine_field _ (by decide),
      scanLine_field _ (by decide)]
    simp [Fields.set, h.storePath.1, h.url.1, h.narHash.1, h.narSize.1, hnone]
  have hreferences (f : Fields) (hf : f.references = []) :
      (if references.isEmpty then [] else [field "References" (joined ' ' references)]).foldl
        Fields.scanLine f = { f with references } := by
    split
    · rename_i hempty
      rw [List.isEmpty_iff.mp hempty]
      cases f
      cases hf
      rfl
    · rw [List.foldl_cons, List.foldl_nil, scanLine_field f (by decide)]
      simp [Fields.set, words_joined hsp h.references]
  have hderiver (f : Fields) (hf : f.deriver = none) :
      (deriver.toList.map (field "Deriver")).foldl Fields.scanLine f = { f with deriver } := by
    cases hd : deriver with
    | none =>
        cases f
        cases hf
        rfl
    | some v =>
        show f.scanLine (field "Deriver" v) = { f with deriver := some v }
        rw [scanLine_field f (by decide)]
        simp [Fields.set, (h.deriver v hd).1]
  have hca (f : Fields) (hf : f.ca = none) :
      (ca.toList.map (field "CA")).foldl Fields.scanLine f = { f with ca } := by
    cases hc : ca with
    | none =>
        cases f
        cases hf
        rfl
    | some v =>
        show f.scanLine (field "CA" v) = { f with ca := some v }
        rw [scanLine_field f (by decide)]
        simp [Fields.set, (h.ca v hc).1]
  rw [List.foldl_append, List.foldl_append, List.foldl_append, List.foldl_append, hhead,
    hreferences _ rfl, hderiver _ rfl, hca _ rfl, foldl_sigs _ h.sigs]
  rfl

end

/-! ### Sizes -/

theorem digitChar_digit {d : ℕ} (hd : d < 10) :
    d.digitChar.isDigit = true ∧ d.digitChar.toNat - 48 = d ∧ isWhitespace d.digitChar = false := by
  interval_cases d <;> exact ⟨rfl, rfl, rfl⟩

theorem mem_toDigits {n : ℕ} {c : Char} (hc : c ∈ Nat.toDigits 10 n) : ∃ d < 10, c = d.digitChar := by
  induction n using Nat.strong_induction_on with
  | _ n ih =>
      by_cases hlt : n < 10
      · rw [Nat.toDigits_of_lt_base hlt] at hc
        exact ⟨n, hlt, List.mem_singleton.mp hc⟩
      · rw [Nat.toDigits_of_base_le (by decide) (not_lt.mp hlt)] at hc
        rcases List.mem_append.mp hc with hinit | hlast
        · exact ih (n / 10) (by omega) hinit
        · exact ⟨n % 10, Nat.mod_lt n (by decide), List.mem_singleton.mp hlast⟩

theorem clean_toDigits (n : ℕ) : Clean (Nat.toDigits 10 n) := by
  refine clean_of_no_blank fun c hc => ?_
  obtain ⟨d, hd, rfl⟩ := mem_toDigits hc
  exact (digitChar_digit hd).2.2

theorem parseDigits_concat {value next : ℕ} {s : Str} (h : parseDigits value s = .ok next) {d : ℕ}
    (hd : d < 10) (hsmall : next * 10 + d < 2 ^ 64) :
    parseDigits value (s ++ [d.digitChar]) = .ok (next * 10 + d) := by
  obtain ⟨hdigit, hvalue, -⟩ := digitChar_digit hd
  induction s generalizing value with
  | nil =>
      cases h
      rw [List.nil_append, parseDigits, if_pos hdigit, hvalue]
      dsimp only
      rw [if_neg (Nat.not_le.mpr hsmall), parseDigits]
  | cons c s ih =>
      rw [parseDigits] at h
      rw [List.cons_append, parseDigits]
      split at h
      · rename_i hc
        rw [if_pos hc]
        dsimp only at h ⊢
        split at h
        · cases h
        · rename_i hlarge
          rw [if_neg hlarge]
          exact ih h
      · cases h

/-- **A size is read back.** -/
theorem parseU64_toDigits {n : ℕ} (hn : n < 2 ^ 64) : parseU64 (Nat.toDigits 10 n) = .ok n := by
  have hdigits : parseDigits 0 (Nat.toDigits 10 n) = .ok n := by
    induction n using Nat.strong_induction_on with
    | _ n ih =>
        by_cases hlt : n < 10
        · have hone := parseDigits_concat (s := []) rfl hlt (show 0 * 10 + n < 2 ^ 64 by omega)
          rw [Nat.toDigits_of_lt_base hlt]
          rw [Nat.zero_mul, Nat.zero_add] at hone
          exact hone
        · have hinit := ih (n / 10) (by omega) (by omega)
          have hconcat := parseDigits_concat hinit (Nat.mod_lt n (by decide)) (by omega)
          rw [Nat.toDigits_of_base_le (by decide) (not_lt.mp hlt), hconcat, Nat.div_add_mod']
  obtain ⟨c, rest, hcons⟩ := List.exists_cons_of_ne_nil (@Nat.toDigits_ne_nil n 10)
  obtain ⟨d, hd, hc⟩ := mem_toDigits (hcons ▸ List.mem_cons_self : c ∈ Nat.toDigits 10 n)
  have hplus : c ≠ '+' := by
    intro heq
    have hdigit := (digitChar_digit hd).1
    rw [← hc, heq] at hdigit
    cases hdigit
  rw [hcons] at hdigits ⊢
  rw [← hdigits]
  unfold parseU64
  split
  · rename_i heq
    cases heq
  · rename_i heq
    exact absurd (List.cons.inj heq).1 hplus
  · rename_i heq
    exact absurd (List.cons.inj heq).1 hplus
  · rfl

theorem parseDigits_lt {value n : ℕ} {s : Str} (hvalue : value < 2 ^ 64)
    (h : parseDigits value s = .ok n) : n < 2 ^ 64 := by
  induction s generalizing value with
  | nil =>
      cases h
      exact hvalue
  | cons c s ih =>
      rw [parseDigits] at h
      split at h
      · dsimp only at h
        split at h
        · cases h
        · rename_i hsmall
          exact ih (Nat.lt_of_not_le hsmall) h
      · cases h

theorem parseU64_lt {n : ℕ} {s : Str} (h : parseU64 s = .ok n) : n < 2 ^ 64 := by
  unfold parseU64 at h
  split at h
  · cases h
  · cases h
  · exact parseDigits_lt (by decide) h
  · exact parseDigits_lt (by decide) h

/-! ### Parsing again -/

theorem bind_ok_iff {α β : Type} {x : Except Str α} {f : α → Except Str β} {b : β} :
    x >>= f = .ok b ↔ ∃ a, x = .ok a ∧ f a = .ok b := by
  cases x with
  | error e => exact ⟨fun h => (by cases h), fun ⟨_, h, _⟩ => (by cases h)⟩
  | ok a =>
      refine ⟨fun h => ⟨a, rfl, h⟩, fun ⟨_, h, hf⟩ => ?_⟩
      cases h
      exact hf

theorem context_ok_iff {α : Type} {text : Str} {r : Except Str α} {a : α} :
    context text r = .ok a ↔ r = .ok a := by
  cases r with
  | error e => exact ⟨fun h => (by cases h), fun h => by cases h⟩
  | ok b => exact Iff.rfl

theorem okOr_ok_iff {α : Type} {text : Str} {v : Option α} {a : α} :
    okOr text v = .ok a ↔ v = some a := by
  cases v with
  | none => exact ⟨fun h => (by cases h), fun h => by cases h⟩
  | some b => exact ⟨fun h => (by cases h; rfl), fun h => by cases h; rfl⟩

theorem parseSet_ok {α : Type} [DecidableEq α] {parse : Str → Except Str α} {l : List Str}
    {set : Finset α} (h : parseSet parse l = .ok set) :
    (∀ s ∈ l, ∃ a, parse s = .ok a) ∧ ∀ a, a ∈ set ↔ ∃ s ∈ l, parse s = .ok a := by
  induction l generalizing set with
  | nil =>
      cases h
      exact ⟨fun s hs => absurd hs List.not_mem_nil, fun a => by simp⟩
  | cons s l ih =>
      rw [parseSet] at h
      obtain ⟨a, ha, h⟩ := bind_ok_iff.mp h
      obtain ⟨rest, hrest, h⟩ := bind_ok_iff.mp h
      cases h
      obtain ⟨hall, hmem⟩ := ih hrest
      constructor
      · intro t ht
        rcases List.mem_cons.mp ht with rfl | ht
        · exact ⟨a, ha⟩
        · exact hall t ht
      · intro b
        rw [Finset.mem_insert, hmem b, List.exists_mem_cons_iff, ha, Except.ok.injEq]
        exact or_congr_left eq_comm

/-- What `build_valid_path_info` makes of the fields. -/
structure Holds (F : Formats) (f : Fields) (info : ValidPathInfo F) : Prop where
  path : f.storePath.map F.parseStorePath = some (.ok info.path)
  narHash : ∃ h, f.narHash.map F.parseHash = some (.ok h) ∧ F.toNarHash h = .ok info.narHash
  narSize : f.narSize.map parseU64 = some (.ok info.narSize)
  references : (∀ r ∈ f.references, ∃ sp, F.fromBasePath r = .ok sp) ∧
    ∀ sp, sp ∈ info.references ↔ ∃ r ∈ f.references, F.fromBasePath r = .ok sp
  signatures : (∀ s ∈ f.sigs, ∃ sig, F.parseSignature s = .ok sig) ∧
    ∀ sig, sig ∈ info.signatures ↔ ∃ s ∈ f.sigs, F.parseSignature s = .ok sig

/-- Fields that say the same. -/
structure Agrees (f f' : Fields) : Prop where
  storePath : f'.storePath = f.storePath
  narHash : f'.narHash = f.narHash
  narSize : f'.narSize.map parseU64 = f.narSize.map parseU64
  references : f'.references = f.references
  deriver : f'.deriver = f.deriver
  ca : f'.ca = f.ca
  sigs : f'.sigs = f.sigs

/-- The value of a line, if it has the key. -/
def valueOf (key : String) (line : Str) : Option Str :=
  match splitOnce ':' ' ' line with
  | none => none
  | some (k, v) => if k = key.toList then some (trim v) else none

/-- The values of a key, in their order. -/
def values (key : String) (text : Str) : List Str := (lines '\n' '\r' text).filterMap (valueOf key)

theorem valueOf_field (key : String) {k : String} (hk : ':' ∉ k.toList) (v : Str) :
    valueOf key (field k v) = if k.toList = key.toList then some (trim v) else none := by
  rw [valueOf, field, splitOnce_append hk]

theorem valueOf_map {key k : String} (hk : ':' ∉ k.toList) (hne : k.toList ≠ key.toList)
    (vs : List Str) : (vs.map (field k)).filterMap (valueOf key) = [] := by
  rw [List.filterMap_map, List.filterMap_eq_nil_iff]
  intro v _
  rw [Function.comp_apply, valueOf_field key hk, if_neg hne]

/-- `FileHash` and `FileSize` are those of the NAR. -/
theorem values_clientLines {storePath url narHash narSize : Str} {references : List Str}
    {deriver ca : Option Str} {sigs : List Str}
    (h : Written storePath url narHash narSize references deriver ca sigs) :
    values "FileHash" (unlines '\n'
        (clientLines storePath url narHash narSize references deriver ca sigs)) = [narHash] ∧
      values "FileSize" (unlines '\n'
        (clientLines storePath url narHash narSize references deriver ca sigs)) = [narSize] := by
  have hlines := h.lines
  have hrest (key : String) (hR : "References".toList ≠ key.toList)
      (hD : "Deriver".toList ≠ key.toList) (hC : "CA".toList ≠ key.toList)
      (hS : "Sig".toList ≠ key.toList) :
      values key (unlines '\n'
        (clientLines storePath url narHash narSize references deriver ca sigs)) =
      [field "StorePath" storePath, field "URL" url, field "Compression" "none".toList,
        field "FileHash" narHash, field "FileSize" narSize, field "NarHash" narHash,
        field "NarSize" narSize].filterMap (valueOf key) := by
    have hreferences : (if references.isEmpty then []
        else [field "References" (joined ' ' references)]).filterMap (valueOf key) = [] := by
      split
      · rfl
      · exact valueOf_map (by decide) hR [joined ' ' references]
    rw [values, lines_unlines (fun l hl => (hlines l hl).1) (fun l hl => (hlines l hl).2),
      clientLines, List.filterMap_append, List.filterMap_append, List.filterMap_append,
      List.filterMap_append, hreferences, valueOf_map (by decide) hD, valueOf_map (by decide) hC,
      valueOf_map (by decide) hS, List.append_nil, List.append_nil, List.append_nil,
      List.append_nil]
  constructor
  · rw [hrest "FileHash" (by decide) (by decide) (by decide) (by decide)]
    simp [valueOf_field, h.narHash.1]
  · rw [hrest "FileSize" (by decide) (by decide) (by decide) (by decide)]
    simp [valueOf_field, h.narSize.1]

theorem clean_clientUrl {hash bare : Str} (hhash : ∀ c ∈ hash, isWhitespace c = false)
    (hbare : ∀ c ∈ bare, isWhitespace c = false) : Clean (clientUrl hash bare) := by
  have hnar : "nar/".toList = ['n', 'a', 'r', '/'] := rfl
  have hdot : ".nar".toList = ['.', 'n', 'a', 'r'] := rfl
  refine clean_of_no_blank fun c hc => ?_
  simp only [clientUrl, hnar, hdot, List.mem_append, List.mem_cons, List.not_mem_nil,
    or_false] at hc
  rcases hc with (((hc | hc | hc | hc) | hc) | hc | hc) | hc | hc | hc | hc
  case inl.inl.inr => exact hhash c hc
  case inl.inr.inr => exact hbare c hc
  all_goals
    rw [hc]
    rfl

theorem parseUpstreamNarinfo_ok_iff {text : Str} {up : UpstreamNarInfo F} :
    parseUpstreamNarinfo F text = .ok up ↔
      ∃ storePath, (scan text).storePath = some storePath ∧
      ∃ url, (scan text).url = some url ∧
      ∃ raw, (scan text).narHash = some raw ∧
      ∃ sizeStr, (scan text).narSize = some sizeStr ∧
      ∃ size, parseU64 sizeStr = .ok size ∧
      ∃ sp, F.parseStorePath storePath = .ok sp ∧
      ∃ bare, normalizeNarHashBare F raw = .ok bare ∧
      ∃ info, buildValidPathInfo F sp raw size (scan text).references (scan text).deriver
          (scan text).ca (scan text).sigs = .ok info ∧
        up = { storePath, storePathHash := F.hashString sp, narHashBare := bare, narUrl := url
               upstreamCompression := upstreamCompression (scan text).compression url
               clientNarinfo := unlines '\n' (clientLines storePath
                 (clientUrl (F.hashString sp) bare) raw (Nat.toDigits 10 size)
                 (scan text).references (scan text).deriver (scan text).ca (scan text).sigs)
               info } := by
  simp only [parseUpstreamNarinfo, bind_ok_iff, okOr_ok_iff, context_ok_iff, Except.ok.injEq,
    eq_comm (b := up)]

theorem buildValidPathInfo_ok {sp : F.StorePath} {raw : Str} {size : ℕ} {references : List Str}
    {deriver ca : Option Str} {sigs : List Str} {info : ValidPathInfo F}
    (h : buildValidPathInfo F sp raw size references deriver ca sigs = .ok info) :
    info.path = sp ∧ info.narSize = size ∧
      (∃ hash, F.parseHash raw = .ok hash ∧ F.toNarHash hash = .ok info.narHash) ∧
      ((∀ r ∈ references, ∃ sp, F.fromBasePath r = .ok sp) ∧
        ∀ sp, sp ∈ info.references ↔ ∃ r ∈ references, F.fromBasePath r = .ok sp) ∧
      ((∀ s ∈ sigs, ∃ sig, F.parseSignature s = .ok sig) ∧
        ∀ sig, sig ∈ info.signatures ↔ ∃ s ∈ sigs, F.parseSignature s = .ok sig) := by
  rw [buildValidPathInfo] at h
  obtain ⟨hash, hhash, h⟩ := bind_ok_iff.mp h
  obtain ⟨narHash, hnarHash, h⟩ := bind_ok_iff.mp h
  obtain ⟨refs, hrefs, h⟩ := bind_ok_iff.mp h
  obtain ⟨deriverSp, -, h⟩ := bind_ok_iff.mp h
  obtain ⟨contentAddress, -, h⟩ := bind_ok_iff.mp h
  obtain ⟨signatures, hsignatures, h⟩ := bind_ok_iff.mp h
  cases h
  have hreferences := parseSet_ok hrefs
  have hsigs := parseSet_ok hsignatures
  simp only [context_ok_iff] at hreferences hsigs
  exact ⟨rfl, rfl, ⟨hash, hhash, context_ok_iff.mp hnarHash⟩, hreferences, hsigs⟩

/-- **The rewritten narinfo says what was signed.** -/
theorem client_narinfo_parses (F : Formats)
    (hhash : ∀ sp, ∀ c ∈ F.hashString sp, isWhitespace c = false)
    (hbare : ∀ h, ∀ c ∈ F.bareBase32 h, isWhitespace c = false) {text : Str}
    {up : UpstreamNarInfo F} (h : parseUpstreamNarinfo F text = .ok up) :
    (∃ up', parseUpstreamNarinfo F up.clientNarinfo = .ok up' ∧ up'.info = up.info ∧
      up'.clientNarinfo = up.clientNarinfo) ∧
    Agrees (scan text) (scan up.clientNarinfo) ∧ Holds F (scan text) up.info ∧
    (scan up.clientNarinfo).url = some (clientUrl (F.hashString up.info.path) up.narHashBare) ∧
    (∃ raw, (scan text).narHash = some raw ∧ normalizeNarHashBare F raw = .ok up.narHashBare ∧
      values "FileHash" up.clientNarinfo = [raw]) ∧
    (scan up.clientNarinfo).compression = some "none".toList ∧
    (values "FileSize" up.clientNarinfo).map some = [(scan up.clientNarinfo).narSize] := by
  obtain ⟨storePath, hstorePath, url, -, raw, hraw, sizeStr, hsizeStr, size, hsize, sp, hsp, bare,
    hbare', info, hinfo, rfl⟩ := parseUpstreamNarinfo_ok_iff.mp h
  obtain ⟨hpath, hnarSize, hnarHash, hreferences, hsignatures⟩ := buildValidPathInfo_ok hinfo
  have hclean := scan_clean text
  have hurl : Clean (clientUrl (F.hashString sp) bare) := by
    obtain ⟨hash, -, hbare''⟩ := bind_ok_iff.mp hbare'
    cases hbare''
    exact clean_clientUrl (hhash sp) (hbare hash)
  have hwritten : Written storePath (clientUrl (F.hashString sp) bare) raw (Nat.toDigits 10 size)
      (scan text).references (scan text).deriver (scan text).ca (scan text).sigs :=
    { storePath := hclean.storePath storePath hstorePath, url := hurl
      narHash := hclean.narHash raw hraw, narSize := clean_toDigits size
      references := hclean.references, deriver := hclean.deriver, ca := hclean.ca
      sigs := hclean.sigs }
  have hscan := scan_clientLines hwritten
  obtain ⟨hfileHash, hfileSize⟩ := values_clientLines hwritten
  have hsize' := parseU64_toDigits (parseU64_lt hsize)
  dsimp only
  generalize hclient : unlines '\n' (clientLines storePath (clientUrl (F.hashString sp) bare) raw
    (Nat.toDigits 10 size) (scan text).references (scan text).deriver (scan text).ca
    (scan text).sigs) = client at hscan hfileHash hfileSize ⊢
  refine ⟨?_, ?_, ?_, ?_, ⟨raw, hraw, hbare', hfileHash⟩, ?_, ?_⟩
  · refine ⟨{ storePath, storePathHash := F.hashString sp, narHashBare := bare
              narUrl := clientUrl (F.hashString sp) bare
              upstreamCompression := upstreamCompression (some "none".toList)
                (clientUrl (F.hashString sp) bare)
              clientNarinfo := client, info }, parseUpstreamNarinfo_ok_iff.mpr ?_, rfl, rfl⟩
    rw [hscan]
    refine ⟨storePath, rfl, clientUrl (F.hashString sp) bare, rfl, raw, rfl, Nat.toDigits 10 size,
      rfl, size, hsize', sp, hsp, bare, hbare', info, hinfo, ?_⟩
    dsimp only
    rw [hclient]
  · rw [hscan]
    exact { storePath := hstorePath.symm, narHash := hraw.symm
            narSize := by rw [hsizeStr, Option.map_some, Option.map_some, hsize, hsize']
            references := rfl, deriver := rfl, ca := rfl, sigs := rfl }
  · obtain ⟨hash, hhash', hnarHash'⟩ := hnarHash
    exact { path := by rw [hstorePath, Option.map_some, hsp, hpath]
            narHash := ⟨hash, by rw [hraw, Option.map_some, hhash'], hnarHash'⟩
            narSize := by rw [hsizeStr, Option.map_some, hsize, hnarSize]
            references := hreferences, signatures := hsignatures }
  · rw [hscan, hpath]
  · rw [hscan]
  · rw [hscan, hfileSize]
    rfl

/-! ### A narinfo -/

/-- Store paths and hashes as far as one narinfo needs them: a path is its base name, a hash its
base32 digits, and a signature its text. -/
def plainFormats : Formats where
  StorePath := Str
  Hash := Str
  NarHash := Str
  ContentAddress := Str
  Signature := Str
  parseStorePath s :=
    if "/nix/store/".toList.isPrefixOf s then .ok (s.drop 11) else .error "not in store".toList
  hashString sp := sp.takeWhile fun c => c ≠ '-' && !isWhitespace c
  fromBasePath s := .ok s
  parseHash s := if "sha256:".toList.isPrefixOf s then .ok (s.drop 7) else .error "no hash".toList
  bareBase32 h := h.takeWhile fun c => !isWhitespace c
  toNarHash h := .ok h
  parseContentAddress s := .ok s
  parseSignature s := .ok s
  decStorePath := inferInstance
  decSignature := inferInstance

theorem not_blank_of_mem_takeWhile {p : Char → Bool} (hp : ∀ c, p c = true → isWhitespace c = false)
    (s : Str) : ∀ c ∈ s.takeWhile p, isWhitespace c = false :=
  fun _ hc => hp _ (List.mem_takeWhile_imp hc)

def plainPath : Str := "55xkmqns51sw7nrgykp5vnz36w4fr3cw-nix-2.1.3".toList

def plainHash : Str := "1b8m03r63zqhnjf7l5wnldhh7c134ap5vpj0850ymkq1iyzicy5s".toList

def plainSig : Str :=
  "cache.nixos.org-1:".toList ++ List.replicate 86 'A' ++ "==".toList

/-- A narinfo with a blank too many, both line ends, and its fields in another order. -/
def plainText : Str :=
  "NarSize: +20\nStorePath:  /nix/store/".toList ++ plainPath ++
    "\r\nURL: nar/1abc.nar.xz\nNarHash: sha256:".toList ++ plainHash ++
      "\nFileSize: 10\nReferences: ".toList ++ plainPath ++ "\nSig: ".toList ++ plainSig

theorem exists_of_isOk {α : Type} {x : Except Str α} (h : x.isOk = true) : ∃ a, x = .ok a := by
  cases x with
  | error e => cases h
  | ok a => exact ⟨a, rfl⟩

/-- It is accepted, and what clients get says the same. -/
theorem client_narinfo_parses_plain :
    ∃ up, parseUpstreamNarinfo plainFormats plainText = .ok up ∧
      (∃ up', parseUpstreamNarinfo plainFormats up.clientNarinfo = .ok up' ∧ up'.info = up.info ∧
        up'.clientNarinfo = up.clientNarinfo) ∧
      Agrees (scan plainText) (scan up.clientNarinfo) ∧
        Holds plainFormats (scan plainText) up.info := by
  have hok : (parseUpstreamNarinfo plainFormats plainText).isOk = true := by decide +kernel
  obtain ⟨up, hup⟩ := exists_of_isOk hok
  have hhash : ∀ sp, ∀ c ∈ plainFormats.hashString sp, isWhitespace c = false :=
    not_blank_of_mem_takeWhile fun c hc => (Bool.not_eq_true' _).mp (Bool.and_eq_true_iff.mp hc).2
  have hbare : ∀ h, ∀ c ∈ plainFormats.bareBase32 h, isWhitespace c = false :=
    not_blank_of_mem_takeWhile fun c hc => (Bool.not_eq_true' _).mp hc
  obtain ⟨hagain, hagrees, hholds, -⟩ := client_narinfo_parses plainFormats hhash hbare hup
  exact ⟨up, hup, hagain, hagrees, hholds⟩

end NarInfo

end BadgeOS.Harmonia
