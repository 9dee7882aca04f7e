import BadgeOS.BoardId.Codec
import BadgeOS.BoardId.Decoder
import Mathlib

/-!
# Both decoders

The script that burns a record and the badge that reads it decode and format it each on its own.
They read the same fields of every record, and give the same strings, which the badge's buffers
never cut off.

* `Decoder.Cursor.Holds` — a cursor holds the front of all that was appended;
* `Decoder.storePath`, `Decoder.product` — what is appended in all;
* `decoders_agree`.
-/

namespace BadgeOS.BoardId

open Python

namespace Decoder

/-! ### What a buffer holds -/

/-- The cursor holds as much of `full` as there is room for. -/
structure Cursor.Holds (c : Cursor) (cap : ℕ) (full : List UInt8) : Prop where
  room : c.cap = cap
  held : c.out = full.take cap

variable {c c' : Cursor} {cap : ℕ} {full s : List UInt8}

theorem Cursor.holds_nil (cap : ℕ) : Cursor.Holds { cap } cap [] := ⟨rfl, by simp⟩

theorem Cursor.Holds.str (h : c.Holds cap full) (s : List UInt8) :
    (c.str s).Holds cap (full ++ s) := by
  refine ⟨h.room, ?_⟩
  rw [Cursor.str, h.room, h.held, List.take_append, List.length_take]
  rcases Nat.le_total full.length cap with hfull | hfull
  · rw [Nat.min_eq_right hfull]
    rcases Nat.le_total s.length (cap - full.length) with hs | hs
    · rw [Nat.min_eq_left hs, List.take_length, List.take_of_length_le hs]
    · rw [Nat.min_eq_right hs]
  · rw [Nat.min_eq_left hfull, Nat.sub_self, Nat.min_zero, Nat.sub_eq_zero_of_le hfull]

theorem Cursor.Holds.byte (h : c.Holds cap full) (b : UInt8) :
    (c.byte b).Holds cap (full ++ [b]) := by
  unfold Cursor.byte
  have hlen : c.out.length = min cap full.length := by rw [h.held, List.length_take]
  split
  · rename_i hroom
    rw [hlen, h.room] at hroom
    refine ⟨h.room, ?_⟩
    rw [h.held, List.take_append, List.take_of_length_le (by simp; omega) (l := [b])]
  · rename_i hroom
    rw [hlen, h.room] at hroom
    refine ⟨h.room, ?_⟩
    rw [h.held, List.take_append, Nat.sub_eq_zero_of_le (by omega), List.take_zero, List.append_nil]

/-- A component that is there is appended, one that is not is not. -/
theorem Cursor.Holds.component {p : Prop} [Decidable p] (h : c.Holds cap full)
    (h' : c'.Holds cap (full ++ s)) :
    (if p then c' else c).Holds cap (full ++ if p then s else []) := by
  split
  · exact h'
  · rwa [List.append_nil]

theorem Cursor.Holds.out_eq (h : c.Holds cap full) (hlen : full.length ≤ cap) : c.out = full := by
  rw [h.held, List.take_of_length_le hlen]

/-- All of a store path. -/
def storePath (rec : Record) : List UInt8 :=
  ascii "/nix/store/" ++ rec.hash
    ++ (if 0 < rec.nameLen then 45 :: rec.name.take rec.nameLen else [])
    ++ (if rec.version ≠ 0 then 45 :: versionString rec.version else [])
    ++ (if rec.tapeout ≠ 0 then 45 :: dateString rec.tapeout else [])
    ++ (if rec.git ≠ 0 then 45 :: gitDigits 7 rec.git [] else [])

theorem formatStorePath_eq (rec : Record) (h : (storePath rec).length ≤ cap) :
    formatStorePath rec cap = storePath rec := by
  have hdash {c : Cursor} {full : List UInt8} (h : c.Holds cap full) (s : List UInt8) :
      ((c.byte 45).str s).Holds cap (full ++ 45 :: s) := by
    have := (h.byte 45).str s
    rwa [List.append_assoc, List.singleton_append] at this
  have h₀ := ((Cursor.holds_nil cap).str (ascii "/nix/store/")).str rec.hash
  have h₁ := h₀.component (p := 0 < rec.nameLen) (hdash h₀ (rec.name.take rec.nameLen))
  have h₂ := h₁.component (p := rec.version ≠ 0) (hdash h₁ (versionString rec.version))
  have h₃ := h₂.component (p := rec.tapeout ≠ 0) (hdash h₂ (dateString rec.tapeout))
  have h₄ := h₃.component (p := rec.git ≠ 0) (hdash h₃ (gitDigits 7 rec.git []))
  exact h₄.out_eq h

/-- A product string of its components, and of the numbers that say which there are. -/
def productOf (named : Bool) (name versionStr date gitStr : List UInt8)
    (version tapeout git : ℕ) : List UInt8 :=
  (if named then name else [])
    ++ (if version ≠ 0 then (if named then [32] else []) ++ versionStr else [])
    ++ (if tapeout != 0 || git != 0 then
        (if named || version != 0 then [32] else []) ++ [40]
          ++ (if tapeout != 0 then date else [])
          ++ (if tapeout != 0 && git != 0 then ascii ", " else [])
          ++ (if git != 0 then gitStr else []) ++ [41]
      else [])

/-- All of a product string. -/
def product (rec : Record) : List UInt8 :=
  productOf (decide (0 < rec.nameLen)) (rec.name.take rec.nameLen) (versionString rec.version)
    (dateString rec.tapeout) (gitDigits 7 rec.git []) rec.version rec.tapeout rec.git

theorem formatProduct_eq (rec : Record) (h : (product rec).length ≤ cap) :
    formatProduct rec cap = product rec := by
  have h₀ := Cursor.holds_nil cap
  have h₁ := h₀.component (p := decide (0 < rec.nameLen) = true)
    (h₀.str (rec.name.take rec.nameLen))
  rw [List.nil_append] at h₁
  have hspace := h₁.component (p := decide (0 < rec.nameLen) = true) (h₁.byte 32)
  have hversion := hspace.str (versionString rec.version)
  rw [List.append_assoc] at hversion
  have h₂ := h₁.component (p := rec.version ≠ 0) hversion
  have hgap := h₂.component (p := (decide (0 < rec.nameLen) || rec.version != 0) = true)
    (h₂.byte 32)
  have hopen := hgap.byte 40
  have hdate := hopen.component (p := (rec.tapeout != 0) = true)
    (hopen.str (dateString rec.tapeout))
  have hcomma := hdate.component (p := ((rec.tapeout != 0) && (rec.git != 0)) = true)
    (hdate.str (ascii ", "))
  have hgit := hcomma.component (p := (rec.git != 0) = true)
    (hcomma.str (gitDigits 7 rec.git []))
  have hclose := hgit.byte 41
  have h₃ := h₂.component (p := ((rec.tapeout != 0) || (rec.git != 0)) = true)
    (s := (if (decide (0 < rec.nameLen) || rec.version != 0) = true then [32] else []) ++ [40]
      ++ (if (rec.tapeout != 0) = true then dateString rec.tapeout else [])
      ++ (if ((rec.tapeout != 0) && (rec.git != 0)) = true then ascii ", " else [])
      ++ (if (rec.git != 0) = true then gitDigits 7 rec.git [] else []) ++ [41])
    (by simpa only [List.append_assoc] using hclose)
  have hfirst : (if 0 < rec.nameLen then
      (Cursor.mk cap []).str (rec.name.take rec.nameLen) else Cursor.mk cap []) =
      if decide (0 < rec.nameLen) = true then
        (Cursor.mk cap []).str (rec.name.take rec.nameLen) else Cursor.mk cap [] :=
    if_congr (decide_eq_true_iff).symm rfl rfl
  rw [formatProduct]
  simp only [hfirst]
  exact h₃.out_eq h

end Decoder

/-! ### Piece by piece -/

variable {f : Fields} {s : String}

theorem toNat_ascii (h : ∀ c ∈ lit s, c < 256) : (Decoder.ascii s).map UInt8.toNat = lit s := by
  rw [Decoder.ascii, List.map_map]
  refine (List.map_congr_left ?_).trans (List.map_id _)
  intro c hc
  exact UInt8.toNat_ofNat_of_lt' (h c hc)

theorem toNat_decimal (n : ℕ) : (Text.decimal n).map UInt8.toNat = digitsOf 10 n := by
  have hdigit : ∀ d : Fin 10, (Text.digit d).toNat = digitChar d := by decide
  induction n using Nat.strong_induction_on with
  | _ n ih =>
      by_cases hlt : n < 10
      · rw [Text.decimal_of_lt hlt, digitsOf_of_lt hlt, List.map_singleton, hdigit ⟨n, hlt⟩]
      · have hmod := hdigit ⟨n % 10, Nat.mod_lt n (by decide)⟩
        rw [Text.decimal_of_le (by omega), List.map_append, ih (n / 10) (by omega),
          List.map_singleton, hmod, digitsOf_of_le (by decide) (Nat.le_of_not_lt hlt)]

theorem toNat_versionString {v : ℕ} (h : v < 2 ^ 7) :
    (Decoder.versionString v).map UInt8.toNat = Codec.versionString v ∧
      (Decoder.versionString v).length ≤ 8 := by
  have hmajor : (Text.decimal (v / 10)).length ≤ 2 := Text.length_decimal_le (by decide) (by omega)
  have hminor : (Text.decimal (v % 10)).length ≤ 1 := Text.length_decimal_le (by decide) (by omega)
  have hlen : (Text.decimal (v / 10) ++ Decoder.ascii "." ++ Text.decimal (v % 10)).length ≤ 8 := by
    have hdot : (Decoder.ascii ".").length = 1 := rfl
    rw [List.length_append, List.length_append, hdot]
    omega
  rw [Decoder.versionString, Decoder.bufPrint, if_pos hlen]
  refine ⟨?_, hlen⟩
  rw [List.map_append, List.map_append, toNat_decimal, toNat_decimal, toNat_ascii (by decide)]
  rfl

theorem toNat_tapeoutBase : Codec.tapeoutBase.toNat = Decoder.tapeoutBase := by
  rw [Codec.tapeoutBase, Decoder.tapeoutBase]
  omega

theorem toNat_dateString {t : ℕ} (h : t < 2 ^ 17) :
    (Decoder.dateString t).map UInt8.toNat = Codec.dateString t ∧
      (Decoder.dateString t).length ≤ 8 := by
  have hlen : (Text.decimal (t + Decoder.tapeoutBase)).length ≤ 8 :=
    Text.length_decimal_le (by decide) (by rw [Decoder.tapeoutBase]; omega)
  rw [Decoder.dateString, Decoder.bufPrint, if_pos hlen]
  refine ⟨?_, hlen⟩
  -- eight digits without a zero in front
  have hlong : ¬(digitsOf 10 (t + Decoder.tapeoutBase)).length ≤ 7 := by
    rw [length_digitsOf_le_iff (by decide) (by decide), Decoder.tapeoutBase]
    omega
  rw [toNat_decimal, Codec.dateString, toNat_tapeoutBase, padded_of_le (by omega)]

theorem toNat_gitDigits (k g : ℕ) (d : List UInt8) :
    (Decoder.gitDigits k g d).map UInt8.toNat = fixed 16 k g ++ d.map UInt8.toNat ∧
      (Decoder.gitDigits k g d).length = k + d.length := by
  have hdigit : ∀ d : Fin 16, ((Decoder.ascii "0123456789abcdef").getD d 0).toNat = digitChar d := by
    decide
  induction k generalizing g d with
  | zero => simp [Decoder.gitDigits, fixed]
  | succ k ih =>
      have hand : g &&& 0xf = g % 16 := Nat.and_two_pow_sub_one_eq_mod g 4
      have hshift : g >>> 4 = g / 16 := Nat.shiftRight_eq_div_pow g 4
      have hlast := hdigit ⟨g % 16, Nat.mod_lt g (by decide)⟩
      obtain ⟨hmap, hlen⟩ :=
        ih (g / 16) ((Decoder.ascii "0123456789abcdef").getD (g % 16) 0 :: d)
      rw [Decoder.gitDigits, hand, hshift, hmap, hlen]
      constructor
      · rw [List.map_cons, hlast, fixed, List.append_assoc]
        rfl
      · rw [List.length_cons]
        omega

theorem toNat_git {g : ℕ} (h : g < 2 ^ 28) :
    (Decoder.gitDigits 7 g []).map UInt8.toNat = Codec.gitString g ∧
      (Decoder.gitDigits 7 g []).length = 7 := by
  have hgit := toNat_gitDigits 7 g []
  rw [List.map_nil, List.append_nil] at hgit
  refine ⟨?_, hgit.2⟩
  rw [hgit.1, Codec.gitString, padded_digitsOf (by decide) (by decide) (by omega)]

theorem toNat_hash (f : Fields) :
    (Decoder.recordOf f).hash.map UInt8.toNat = (Codec.shown f).hash := by
  have hsame : Decoder.nix32.map UInt8.toNat = Codec.nix32 := by decide
  show (f.hash.map fun i => Decoder.nix32.getD i 0).map UInt8.toNat =
    f.hash.map fun i => Codec.nix32.getD i 0
  rw [List.map_map, ← hsame]
  refine List.map_congr_left fun i _ => ?_
  rw [Function.comp_apply, List.getD_eq_getElem?_getD, List.getD_eq_getElem?_getD,
    List.getElem?_map]
  cases Decoder.nix32[i]? <;> rfl

theorem toNat_name (hfits : f.Fits) :
    (Decoder.recordOf f).name.take (Decoder.recordOf f).nameLen =
      (Codec.nameOf f.name).map UInt8.ofNat ∧
    ((Codec.nameOf f.name).map UInt8.ofNat).map UInt8.toNat = (Codec.shown f).name ∧
    (Codec.nameOf f.name).length = (Decoder.recordOf f).nameLen := by
  have htake := Codec.takeWhile_bytes hfits.name
  have hprefix : (f.name.map UInt8.ofNat).takeWhile (· ≠ 0) <+: f.name.map UInt8.ofNat :=
    List.takeWhile_prefix _
  refine ⟨?_, ?_, ?_⟩
  · show (f.name.map UInt8.ofNat).take ((f.name.map UInt8.ofNat).takeWhile (· ≠ 0)).length = _
    rw [← List.prefix_iff_eq_take.1 hprefix, htake]
  · rw [List.map_map]
    refine (List.map_congr_left ?_).trans (List.map_id _)
    intro c hc
    have hlt := hfits.name c ((List.takeWhile_sublist _).subset hc)
    exact UInt8.toNat_ofNat_of_lt' (hlt.trans (by decide))
  · show _ = ((f.name.map UInt8.ofNat).takeWhile (· ≠ 0)).length
    rw [htake, List.length_map]

/-! ### String by string -/

theorem map_component {p q : Prop} [Decidable p] [Decidable q] (hpq : p ↔ q) {s : List UInt8}
    {s' : Str} (h : s.map UInt8.toNat = s') :
    (if p then s else []).map UInt8.toNat = if q then s' else [] := by
  by_cases hp : p
  · rw [if_pos hp, if_pos (hpq.1 hp), h]
  · rw [if_neg hp, if_neg fun hq => hp (hpq.2 hq), List.map_nil]

theorem length_component {p : Prop} [Decidable p] {s : List UInt8} {n : ℕ} (h : s.length ≤ n) :
    (if p then s else []).length ≤ n := by
  split
  · exact h
  · exact Nat.zero_le n

theorem length_nameOf_le (hfits : f.Fits) : (Codec.nameOf f.name).length ≤ 15 := by
  rw [← hfits.name_length]
  exact (List.takeWhile_sublist _).length_le

/-- The components of a record, as the badge writes them and as the script does. -/
structure Pieces (r : Decoder.Record) (d : Codec.Decoded) : Prop where
  hash : r.hash.map UInt8.toNat = d.hash
  hash_length : r.hash.length = 32
  named : 0 < r.nameLen ↔ d.name ≠ []
  name : (r.name.take r.nameLen).map UInt8.toNat = d.name
  name_length : (r.name.take r.nameLen).length ≤ 15
  version : r.version = d.version
  versionString : (Decoder.versionString r.version).map UInt8.toNat = d.versionStr
  version_length : (Decoder.versionString r.version).length ≤ 8
  version_ne : d.versionStr ≠ []
  tapeout : r.tapeout = d.tapeout
  dateString : (Decoder.dateString r.tapeout).map UInt8.toNat = d.date
  date_length : (Decoder.dateString r.tapeout).length ≤ 8
  git : r.git = d.git
  gitString : (Decoder.gitDigits 7 r.git []).map UInt8.toNat = d.gitStr
  git_length : (Decoder.gitDigits 7 r.git []).length = 7

theorem pieces (hfits : f.Fits) : Pieces (Decoder.recordOf f) (Codec.shown f) := by
  obtain ⟨htake, hname, hnamelen⟩ := toNat_name hfits
  have hshort := length_nameOf_le hfits
  obtain ⟨hversion, hversionlen⟩ := toNat_versionString hfits.version
  obtain ⟨hdate, hdatelen⟩ := toNat_dateString hfits.tapeout
  obtain ⟨hgit, hgitlen⟩ := toNat_git hfits.git
  constructor
  · exact toNat_hash f
  · rw [← hfits.hash_length]
    exact List.length_map _
  · rw [← hnamelen]
    exact List.length_pos_iff
  · rw [htake, hname]
  · rw [htake, List.length_map]
    exact hshort
  · rw [Decoder.recordOf, Codec.shown]
  · rwa [Decoder.recordOf_version, Codec.shown_versionStr]
  · rwa [Decoder.recordOf_version]
  · rw [Codec.shown_versionStr]
    simp [Codec.versionString, lit]
  · rw [Decoder.recordOf, Codec.shown]
  · rwa [Decoder.recordOf_tapeout, Codec.shown_date]
  · rwa [Decoder.recordOf_tapeout]
  · rw [Decoder.recordOf, Codec.shown]
  · rwa [Decoder.recordOf_git, Codec.shown_gitStr]
  · rwa [Decoder.recordOf_git]

variable {r : Decoder.Record} {d : Codec.Decoded}

theorem length_dashed {p : Prop} [Decidable p] {s : List UInt8} {n : ℕ} (h : s.length ≤ n) :
    (if p then (45 : UInt8) :: s else []).length ≤ n + 1 := by
  refine length_component ?_
  rw [List.length_cons]
  omega

/-- A store path fits the callers' buffers. -/
theorem Pieces.length_storePath_le (h : Pieces r d) : (Decoder.storePath r).length ≤ 128 := by
  have h₁ := length_dashed (p := 0 < r.nameLen) h.name_length
  have h₂ := length_dashed (p := r.version ≠ 0) h.version_length
  have h₃ := length_dashed (p := r.tapeout ≠ 0) h.date_length
  have h₄ := length_dashed (p := r.git ≠ 0) h.git_length.le
  have hroot : (Decoder.ascii "/nix/store/").length = 11 := by decide
  rw [Decoder.storePath]
  simp only [List.length_append, h.hash_length, hroot]
  omega

/-- **The store path** of a record, from both. -/
theorem Pieces.storePath (h : Pieces r d) :
    (Decoder.formatStorePath r 128).map UInt8.toNat =
      Codec.buildStorePath d.hash d.name d.version d.versionStr d.tapeout d.date d.git
        d.gitStr := by
  have hdash {s : List UInt8} {s' : Str} (h : s.map UInt8.toNat = s') :
      ((45 : UInt8) :: s).map UInt8.toNat = Codec.dash :: s' := by
    rw [List.map_cons, h]
    rfl
  have hroot : (Decoder.ascii "/nix/store/").map UInt8.toNat = lit "/nix/store/" :=
    toNat_ascii (by decide)
  have hversion : r.version ≠ 0 ↔ d.version ≠ 0 := by rw [h.version]
  have htapeout : r.tapeout ≠ 0 ↔ d.tapeout ≠ 0 := by rw [h.tapeout]
  have hgit : r.git ≠ 0 ↔ d.git ≠ 0 := by rw [h.git]
  rw [Decoder.formatStorePath_eq _ h.length_storePath_le, Decoder.storePath, Codec.buildStorePath]
  simp only [List.map_append, hroot, h.hash]
  rw [map_component h.named (hdash h.name), map_component hversion (hdash h.versionString),
    map_component htapeout (hdash h.dateString), map_component hgit (hdash h.gitString)]

theorem length_productOf_le (named : Bool) {name versionStr date gitStr : List UInt8}
    (hname : name.length ≤ 15) (hversion : versionStr.length ≤ 8) (hdate : date.length ≤ 8)
    (hgit : gitStr.length = 7) (version tapeout git : ℕ) :
    (Decoder.productOf named name versionStr date gitStr version tapeout git).length ≤ 128 := by
  have hcomma : (Decoder.ascii ", ").length = 2 := by decide
  rw [Decoder.productOf]
  simp only [List.length_append, apply_ite List.length, List.length_nil, List.length_singleton,
    hcomma]
  split_ifs <;> omega

/-- The same components make the same product string. -/
theorem productOf_agrees {name versionStr date gitStr : List UInt8} {n vs ds gs : Str}
    (hname : name.map UInt8.toNat = n) (hversion : versionStr.map UInt8.toNat = vs)
    (hne : vs ≠ []) (hdate : date.map UInt8.toNat = ds) (hgit : gitStr.map UInt8.toNat = gs)
    (v t g : ℕ) :
    (Decoder.productOf (decide (n ≠ [])) name versionStr date gitStr v t g).map UInt8.toNat =
      Codec.buildProduct n v vs t ds g gs := by
  have hcomma : (Decoder.ascii ", ").map UInt8.toNat = lit ", " := toNat_ascii (by decide)
  have hspace : lit " " = [32] := by decide
  have hopen : lit "(" = [40] := by decide
  have hclose : lit ")" = [41] := by decide
  rw [Decoder.productOf, Codec.buildProduct, hspace, hopen, hclose]
  by_cases ht : t = 0 <;> by_cases hv : v = 0 <;> by_cases hn : n = [] <;> by_cases hg : g = 0 <;>
    simp [ht, hv, hn, hg, hne, hname, hversion, hgit, hdate, hcomma, Codec.join]

/-- **The product string** of a record, from both. -/
theorem Pieces.product (h : Pieces r d) :
    (Decoder.formatProduct r 128).map UInt8.toNat =
      Codec.buildProduct d.name d.version d.versionStr d.tapeout d.date d.git d.gitStr := by
  have hroom : (Decoder.product r).length ≤ 128 :=
    length_productOf_le _ h.name_length h.version_length h.date_length h.git_length _ _ _
  have hnamed : decide (0 < r.nameLen) = decide (d.name ≠ []) := decide_eq_decide.2 h.named
  rw [Decoder.formatProduct_eq _ hroom, Decoder.product, hnamed,
    productOf_agrees h.name h.versionString h.version_ne h.dateString h.gitString, h.version,
    h.tapeout, h.git]

theorem shown_storePath (f : Fields) :
    (Codec.shown f).storePath =
      Codec.buildStorePath (Codec.shown f).hash (Codec.shown f).name (Codec.shown f).version
        (Codec.shown f).versionStr (Codec.shown f).tapeout (Codec.shown f).date
        (Codec.shown f).git (Codec.shown f).gitStr := by
  simp only [Codec.shown]

theorem shown_product (f : Fields) :
    (Codec.shown f).product =
      Codec.buildProduct (Codec.shown f).name (Codec.shown f).version
        (Codec.shown f).versionStr (Codec.shown f).tapeout (Codec.shown f).date
        (Codec.shown f).git (Codec.shown f).gitStr := by
  simp only [Codec.shown]

/-- **Both decoders tell the same story** of every 40-byte blob: the badge reports it valid
exactly when the script does not raise, and then hash, name, version, tapeout and git are the
same, and the strings formatted into the callers' 128 bytes are the script's, with nothing cut
off. -/
theorem decoders_agree {blob : List UInt8} (hblob : blob.length = 40) :
    ∃ rec, Decoder.decodeUser blob = some rec ∧
      (rec.valid = true ↔ ∃ d, Codec.decodeUser blob = .ok d) ∧
      ∀ d, Codec.decodeUser blob = .ok d →
        rec.hash.map UInt8.toNat = d.hash ∧
        (rec.name.take rec.nameLen).map UInt8.toNat = d.name ∧
        rec.version = d.version ∧ rec.tapeout = d.tapeout ∧ rec.git = d.git ∧
        (Decoder.formatStorePath rec 128).map UInt8.toNat = d.storePath ∧
        (Decoder.formatProduct rec 128).map UInt8.toNat = d.product := by
  have hfits : (Fields.ofBlob blob).Fits := Fields.ofBits_fits _
  have hcodec := Codec.decodeUser_eq hblob
  have hpieces := pieces hfits
  refine ⟨Decoder.recordOf (Fields.ofBlob blob), Decoder.decodeUser_eq hblob, ?_, ?_⟩
  · rw [hcodec, Decoder.recordOf]
    by_cases hknown : (Fields.ofBlob blob).epoch = Codec.epoch
    · rw [if_pos hknown]
      exact ⟨fun _ => ⟨_, rfl⟩, fun _ => beq_iff_eq.2 hknown⟩
    · rw [if_neg hknown]
      constructor
      · intro hvalid
        exact absurd (beq_iff_eq.1 hvalid) hknown
      · intro hok
        obtain ⟨d, hd⟩ := hok
        cases hd
  · intro d hd
    rw [hcodec] at hd
    split at hd
    · obtain rfl := Except.ok.inj hd
      rw [shown_storePath, shown_product]
      exact ⟨hpieces.hash, hpieces.name, hpieces.version, hpieces.tapeout, hpieces.git,
        hpieces.storePath, hpieces.product⟩
    · cases hd

/-- The USER area of one badge. -/
def thisUser : List UInt8 :=
  [0x2d, 0x64, 0x15, 0xb2, 0x59, 0x8a, 0x43, 0xbf, 0xf3, 0xd1, 0x8c, 0x4f, 0xd4,
    0xd9, 0x76, 0x4c, 0xce, 0xf4, 0x91, 0x02, 0xfb, 0xb4, 0xf8, 0x5b, 0x8b, 0x0e,
    0x4c, 0xf9, 0x56, 0xe2, 0xdf, 0x87, 0x96, 0x42, 0x82, 0x9d, 0x20, 0x7f, 0x6e,
    0xfc]

/-- One badge's record, which both find valid. -/
theorem decoders_agree_this :
    ∃ rec, Decoder.decodeUser thisUser = some rec ∧ rec.valid = true ∧
      ∀ d, Codec.decodeUser thisUser = .ok d →
        (Decoder.formatStorePath rec 128).map UInt8.toNat = d.storePath := by
  have hlen : thisUser.length = 40 := by decide
  have hknown : (Fields.ofBlob thisUser).epoch = Codec.epoch := by decide
  obtain ⟨rec, hrec, hvalid, hsame⟩ := decoders_agree hlen
  refine ⟨rec, hrec, hvalid.2 ⟨_, (Codec.decodeUser_eq hlen).trans (if_pos hknown)⟩, ?_⟩
  intro d hd
  exact (hsame d hd).2.2.2.2.2.1

end BadgeOS.BoardId
