import BadgeOS.BoardId.RoundTrip
import Mathlib

/-!
# What is offered for burning

The script prints the burn commands for whatever it could pack, and says before them whether
what it packed reads back.  Its parser takes more paths than read back: signs and blanks around
a number, numbers of another length, and values that the omission rule drops.

* `parseStorePath_ok` — what a path was cut into, whenever it was;
* `Reads` — what was printed for burning reads back as what was given;
* `storePath_of_rebuilt` — only a path that is put together like a badge's does;
* `burn_lossless_iff`, `burn_of_short_commit`.
-/

namespace BadgeOS.BoardId

open Python Codec

/-! ### Taking a path apart, in reverse -/

/-- How a path was cut. -/
structure Cut (py : Interp) (path : Str) (f : Parsed) (ver : Str) : Prop where
  base : lastPiece path slash = f.hash ++ dash :: ((ver ++ dash :: f.date) ++ dash :: f.gitStr)
  date_plain : dash ∉ f.date
  git_plain : dash ∉ f.gitStr
  name : f.name = sliceTo ver (rfind ver dash)
  versionStr : f.versionStr = sliceFrom ver (rfind ver dash + 1)
  version_ne : f.versionStr ≠ []
  date : int py f.date 10 = some (f.tapeout + tapeoutBase)
  git : int py f.gitStr 16 = some f.git

theorem readInt_ok {py : Interp} {s : Str} {b : ℕ} {v : ℤ} (h : readInt py s b = .ok v) :
    int py s b = some v := by
  unfold readInt at h
  cases hint : int py s b with
  | none => simp [hint] at h
  | some w =>
      rw [hint] at h
      exact congrArg some (Except.ok.inj h)

theorem parseStorePath_ok {py : Interp} {path : Str} {f : Parsed}
    (h : parseStorePath py path = .ok f) : ∃ ver, Cut py path f ver := by
  unfold parseStorePath at h
  simp only at h
  cases hdash : (lastPiece path slash)[32]? with
  | none => simp [hdash, bind, Except.bind, throw, throwThe, MonadExceptOf.throw] at h
  | some c =>
      rw [hdash] at h
      by_cases hc : c = dash
      swap
      · simp [hc, bind, Except.bind, throw, throwThe, MonadExceptOf.throw] at h
      subst hc
      simp only [ne_eq, not_true_eq_false, if_false] at h
      split at h
      · rename_i ver date git hsplit
        split at h
        · rename_i major minor hversion
          obtain ⟨_, -, h⟩ := bind_ok_iff.1 h
          obtain ⟨_, -, h⟩ := bind_ok_iff.1 h
          obtain ⟨tapeout, hdate, h⟩ := bind_ok_iff.1 h
          obtain ⟨g, hgit, h⟩ := bind_ok_iff.1 h
          obtain rfl := Except.ok.inj h
          obtain ⟨hrest, hdateplain, hgitplain⟩ := rsplit_three hsplit
          refine ⟨ver, ?_, hdateplain, hgitplain, rfl, rfl, ?_, ?_, readInt_ok hgit⟩
          · rw [← hrest]
            obtain ⟨hlt, hget⟩ := List.getElem?_eq_some_iff.1 hdash
            have hdrop := List.drop_eq_getElem_cons hlt
            rw [hget] at hdrop
            show lastPiece path slash = (lastPiece path slash).take 32 ++
              dash :: (lastPiece path slash).drop 33
            rw [← hdrop, List.take_append_drop]
          · show sliceFrom ver (rfind ver dash + 1) ≠ []
            intro hnil
            rw [hnil] at hversion
            cases hversion
          · rw [readInt_ok hdate]
            show some tapeout = some (tapeout - tapeoutBase + tapeoutBase)
            rw [sub_add_cancel]
        · cases h
      · cases h

variable {py : Interp} {path ver : Str} {f : Parsed}

theorem slice_of_not_mem {sep : ℕ} (h : sep ∉ ver) :
    sliceTo ver (rfind ver sep) = ver.dropLast ∧ sliceFrom ver (rfind ver sep + 1) = ver := by
  rw [rfind, if_neg h]
  constructor
  · rw [sliceTo, if_pos (by decide), List.dropLast_eq_take]
    congr 1
    omega
  · rw [sliceFrom, if_neg (by decide)]
    rfl

/-- The name is short of the last dash. -/
theorem Cut.name_length (h : Cut py path f ver) : f.name.length < ver.length := by
  by_cases hdash : dash ∈ ver
  · obtain ⟨pre, rest, rfl, hrest⟩ := exists_lastPiece hdash
    rw [h.name, rfind_append hrest, sliceTo_length, List.length_append, List.length_cons]
    omega
  · obtain ⟨hto, hfrom⟩ := slice_of_not_mem hdash
    have hne := h.version_ne
    rw [h.versionStr, hfrom] at hne
    have hpos := List.length_pos_iff.2 hne
    rw [h.name, hto, List.length_dropLast]
    omega

/-! ### Reading back -/

/-- What was printed for burning reads back as what was given. -/
def Reads (user did : List UInt8) (path serial : Str) : Prop :=
  (∃ back, decodeUser user = .ok back ∧ back.storePath = path) ∧
    decodeAscii (did.rdropWhile (· == 0)) = .ok serial

theorem not_mem_versionString {sep : ℕ} (hsep : sep < 48) (hne : sep ≠ dot) (v : ℕ) :
    sep ∉ versionString v := by
  have hdot : lit "." = [dot] := by decide
  rw [versionString, hdot, List.append_assoc]
  simp only [List.mem_append, List.mem_singleton, not_or]
  exact ⟨StorePath.not_mem_digitsOf hsep _, hne, StorePath.not_mem_digitsOf hsep _⟩

theorem dash_not_mem_versionString (v : ℕ) : dash ∉ versionString v :=
  not_mem_versionString (by decide) (by decide) v

theorem dot_mem_versionString (v : ℕ) : dot ∈ versionString v := by
  have hdot : lit "." = [dot] := by decide
  rw [versionString, hdot]
  simp

/-- The date of a record has eight digits. -/
theorem dateString_eq {t : ℕ} (h : t < 2 ^ 17) :
    dateString t = digitsOf 10 (t + 20250000) ∧ (digitsOf 10 (t + 20250000)).length = 8 := by
  have hshort : (digitsOf 10 (t + 20250000)).length ≤ 8 :=
    (length_digitsOf_le_iff (by decide) (by decide)).2 (by omega)
  have hlong : ¬(digitsOf 10 (t + 20250000)).length ≤ 7 := by
    rw [length_digitsOf_le_iff (by decide) (by decide)]
    omega
  have hbase : tapeoutBase.toNat = 20250000 := by
    rw [tapeoutBase]
    omega
  rw [dateString, hbase, padded_of_le (by omega)]
  exact ⟨rfl, by omega⟩

theorem gitString_eq {g : ℕ} (h : g < 2 ^ 28) : gitString g = fixed 16 7 g :=
  padded_digitsOf (by decide) (by decide) (h.trans_le (by decide))

/-- **The last component** of a rebuilt string, against a string cut at its last dash: either it
is there and is what stands behind that dash, or the cut falls into what stands in front. -/
theorem component_last {p : Prop} [Decidable p] {x s pre last : Str} (hs : dash ∉ s)
    (hlast : dash ∉ last) (h : x ++ (if p then dash :: s else []) = pre ++ dash :: last) :
    (p ∧ x = pre ∧ s = last) ∨ (¬p ∧ x = pre ++ dash :: last) := by
  by_cases hp : p
  · rw [if_pos hp] at h
    exact .inl ⟨hp, append_sep_inj hs hlast h⟩
  · rw [if_neg hp, List.append_nil] at h
    exact .inr ⟨hp, h⟩

/-- A name alone is not as long as what it was cut from. -/
theorem Cut.name_ne (h : Cut py path f ver) {n rest : Str} (hn : n.length ≤ f.name.length)
    (heq : (if n ≠ [] then dash :: n else []) = dash :: ver ++ rest) : False := by
  have hshort := h.name_length
  have hlen := congrArg List.length heq
  split at hlen
  · simp only [List.length_cons, List.length_append] at hlen
    omega
  · simp at hlen

/-- A number with a digit that is not 0 is not read as 0, in base 16 neither. -/
theorem int_date_ne_zero {t : ℕ} (ht : t < 2 ^ 17) : int py (dateString t) 16 ≠ some 0 := by
  obtain ⟨heq, hlen⟩ := dateString_eq ht
  have hvalue := value_mono (show 10 ≤ 16 by decide) (digitsOf 10 (t + 20250000))
  rw [value_digitsOf (by decide) (by decide)] at hvalue
  have hdigits : ∀ c ∈ digitsOf 10 (t + 20250000), digitValue c < 16 := fun c hc =>
    (digitValue_digitsOf (by decide) (by decide) _ c hc).trans (by decide)
  rw [heq, int_digits (digitsOf_ne_nil _ _) hdigits le_rfl (by rw [hlen]; decide)]
  intro h
  have hzero := Option.some.inj h
  omega

theorem not_mem_dateString {sep t : ℕ} (hsep : sep < 48) (ht : t < 2 ^ 17) :
    sep ∉ dateString t := by
  rw [(dateString_eq ht).1]
  exact StorePath.not_mem_digitsOf hsep _

theorem not_mem_gitString {sep g : ℕ} (hsep : sep < 48) (hg : g < 2 ^ 28) :
    sep ∉ gitString g := by
  rw [gitString_eq hg]
  intro h
  have hdigit := digit_plain (digitValue_fixed (by decide) (by decide) sep h)
  omega

/-- The values of a record, by what they were cut from. -/
structure Fit (f : Parsed) (n : Str) (v t g : ℕ) : Prop where
  name : n = nameOf f.name
  version : f.version = v
  tapeout : f.tapeout = t
  git : f.git = g
  tapeout_lt : t < 2 ^ 17
  git_lt : g < 2 ^ 28

theorem Fit.name_length {n : Str} {v t g : ℕ} (h : Fit f n v t g) :
    n.length ≤ f.name.length := by
  rw [h.name]
  exact (List.takeWhile_sublist _).length_le

variable {n : Str} {v t g : ℕ}

/-- The commit is there, and is what was given. -/
theorem Cut.git_eq (h : Cut py path f ver) (hfit : Fit f n v t g)
    (heq : (if n ≠ [] then dash :: n else []) ++ (if v ≠ 0 then dash :: versionString v else [])
      ++ (if t ≠ 0 then dash :: dateString t else [])
      ++ (if g ≠ 0 then dash :: gitString g else []) =
        dash :: (ver ++ dash :: f.date) ++ dash :: f.gitStr) :
    g ≠ 0 ∧ gitString g = f.gitStr ∧
      (if n ≠ [] then dash :: n else []) ++ (if v ≠ 0 then dash :: versionString v else [])
        ++ (if t ≠ 0 then dash :: dateString t else []) = dash :: ver ++ dash :: f.date := by
  rcases component_last (not_mem_gitString (by decide) hfit.git_lt) h.git_plain heq with
    ⟨hg, hfront, hlast⟩ | ⟨hg, hdate⟩
  · exact ⟨hg, hlast, hfront⟩
  have hzero : int py f.gitStr 16 = some 0 := by
    rw [h.git, hfit.git, not_not.1 hg]
    rfl
  rcases component_last (not_mem_dateString (by decide) hfit.tapeout_lt) h.git_plain hdate with
    ⟨-, -, hlast⟩ | ⟨-, hversion⟩
  · rw [← hlast] at hzero
    exact absurd hzero (int_date_ne_zero hfit.tapeout_lt)
  rcases component_last (dash_not_mem_versionString v) h.git_plain hversion with
    ⟨-, -, hlast⟩ | ⟨-, hname⟩
  · rw [← hlast, int_eq_none_of_dot (by decide) (dot_mem_versionString v)] at hzero
    cases hzero
  · rw [← List.cons_append, List.append_assoc] at hname
    exact (h.name_ne hfit.name_length hname).elim

/-- The date is there, and is what was given. -/
theorem Cut.date_eq (h : Cut py path f ver) (hfit : Fit f n v t g)
    (heq : (if n ≠ [] then dash :: n else []) ++ (if v ≠ 0 then dash :: versionString v else [])
      ++ (if t ≠ 0 then dash :: dateString t else []) = dash :: ver ++ dash :: f.date) :
    t ≠ 0 ∧ dateString t = f.date ∧
      (if n ≠ [] then dash :: n else []) ++ (if v ≠ 0 then dash :: versionString v else []) =
        dash :: ver := by
  rcases component_last (not_mem_dateString (by decide) hfit.tapeout_lt) h.date_plain heq with
    ⟨ht, hfront, hlast⟩ | ⟨-, hversion⟩
  · exact ⟨ht, hlast, hfront⟩
  rcases component_last (dash_not_mem_versionString v) h.date_plain hversion with
    ⟨-, -, hlast⟩ | ⟨-, hname⟩
  · have hint := h.date
    rw [← hlast, int_eq_none_of_dot (by decide) (dot_mem_versionString v)] at hint
    cases hint
  · exact (h.name_ne hfit.name_length hname).elim

/-- A version does not begin with a NUL, nor is it one character. -/
theorem nameOf_version_ne (v : ℕ) : nameOf (versionString v).dropLast ≠ [] := by
  have hdot : lit "." = [dot] := by decide
  obtain ⟨c, cs, hcs⟩ := List.exists_cons_of_ne_nil (digitsOf_ne_nil 10 (v / 10))
  obtain ⟨d, ds, hds⟩ := List.exists_cons_of_ne_nil (digitsOf_ne_nil 10 (v % 10))
  have hc : c ≠ 0 := by
    rintro rfl
    have hmem : 0 ∈ digitsOf 10 (v / 10) := by simp [hcs]
    exact absurd (digitValue_digitsOf (by decide) (by decide) (v / 10) 0 hmem) (by decide)
  rw [versionString, hdot, hcs, hds, nameOf]
  simp [hc]

/-- The name and the version are there, and are what was given. -/
theorem Cut.name_eq (h : Cut py path f ver) (hfit : Fit f n v t g)
    (heq : (if n ≠ [] then dash :: n else []) ++ (if v ≠ 0 then dash :: versionString v else []) =
      dash :: ver) :
    v ≠ 0 ∧ n ≠ [] ∧ n = f.name ∧ ver = n ++ dash :: versionString v := by
  have hplain := dash_not_mem_versionString v
  by_cases hn : n = []
  · -- the version alone: it has no dash, and the name would be the version less a digit
    rw [if_neg (not_not_intro hn), List.nil_append] at heq
    split at heq
    · obtain rfl : versionString v = ver := (List.cons.inj heq).2
      have hname := hfit.name
      rw [h.name, (slice_of_not_mem hplain).1, hn] at hname
      exact absurd hname.symm (nameOf_version_ne v)
    · cases heq
  rw [if_pos hn] at heq
  by_cases hv : v = 0
  · have hshort := h.name_length
    have hlen := congrArg List.length heq
    have hle := hfit.name_length
    rw [if_neg (not_not_intro hv), List.append_nil, List.length_cons, List.length_cons] at hlen
    omega
  rw [if_pos hv, List.cons_append] at heq
  have hver := (List.cons.inj heq).2
  refine ⟨hv, hn, ?_, hver.symm⟩
  rw [h.name, ← hver, rfind_append hplain, sliceTo_length]

theorem not_mem_component {p : Prop} [Decidable p] {sep : ℕ} {s : Str} (hne : sep ≠ dash)
    (h : sep ∉ s) : sep ∉ if p then dash :: s else [] := by
  split
  · rw [List.mem_cons]
    exact not_or_intro hne h
  · exact List.not_mem_nil

/-- The name was cut from the last piece. -/
theorem Cut.slash_not_mem (h : Cut py path f ver) (hfit : Fit f n v t g) : slash ∉ n := by
  intro hn
  have hmem : slash ∈ f.name := by
    rw [hfit.name] at hn
    exact (List.takeWhile_sublist _).subset hn
  have hver : slash ∈ ver := by
    rw [h.name, sliceTo] at hmem
    split at hmem <;> exact List.mem_of_mem_take hmem
  apply not_mem_lastPiece path slash
  rw [h.base]
  simp [hver]

/-- Behind the hash, a rebuilt path goes on as it was given. -/
theorem Cut.rest_eq (h : Cut py path f ver) (hfit : Fit f n v t g)
    (henc : Encodes f.hash f.name f.version f.tapeout f.git)
    (heq : buildStorePath f.hash n v (versionString v) t (dateString t) g (gitString g) = path) :
    (if n ≠ [] then dash :: n else []) ++ (if v ≠ 0 then dash :: versionString v else [])
      ++ (if t ≠ 0 then dash :: dateString t else [])
      ++ (if g ≠ 0 then dash :: gitString g else []) =
        dash :: (ver ++ dash :: f.date) ++ dash :: f.gitStr := by
  have hroot : lit "/nix/store/" = lit "/nix/store" ++ [slash] := by decide
  have hname := h.slash_not_mem hfit
  have hhash : slash ∉ f.hash := fun hmem => absurd (henc.hash slash hmem) (by decide)
  have hdash : slash ≠ dash := by decide
  have hdigit : slash < 48 := by decide
  have hversion := not_mem_versionString hdigit (by decide) v
  have hdate := not_mem_dateString hdigit hfit.tapeout_lt
  have hgit := not_mem_gitString hdigit hfit.git_lt
  rw [buildStorePath, hroot] at heq
  simp only [List.append_assoc, List.singleton_append] at heq
  have hlast := h.base
  rw [← heq, List.cons_append, lastPiece_append] at hlast
  · simpa only [List.append_assoc, List.cons_append] using List.append_cancel_left hlast
  · simp only [List.mem_append, not_or]
    exact ⟨hhash, not_mem_component hdash hname, not_mem_component hdash hversion,
      not_mem_component hdash hdate, not_mem_component hdash hgit⟩

/-- **A path that is rebuilt** out of its record is one that a badge has. -/
theorem storePath_of_rebuilt (h : Cut py path f ver) (hfit : Fit f n v t g)
    (henc : Encodes f.hash f.name f.version f.tapeout f.git)
    (heq : buildStorePath f.hash n v (versionString v) t (dateString t) g (gitString g) = path) :
    ∃ p : StorePath, p.path = path := by
  obtain ⟨hg, -, hrest⟩ := h.git_eq hfit (h.rest_eq hfit henc heq)
  obtain ⟨ht, -, hrest⟩ := h.date_eq hfit hrest
  obtain ⟨hv, hn, hname, -⟩ := h.name_eq hfit hrest
  have hversion := henc.version
  rw [hfit.version] at hversion
  have htapeout := hfit.tapeout_lt
  have hchars : ∀ c ∈ n, 0 < c ∧ c < 128 ∧ c ≠ slash := by
    intro c hc
    have hmem := hc
    rw [hfit.name, nameOf] at hmem
    have hnul : c ≠ 0 := by simpa using List.mem_takeWhile_imp hmem
    have hascii : c < 128 := henc.ascii c (hname ▸ hc)
    refine ⟨Nat.pos_of_ne_zero hnul, hascii, ?_⟩
    rintro rfl
    exact h.slash_not_mem hfit hc
  have hcommit : fixed 16 7 g ≠ List.replicate 7 48 := by
    intro hzeros
    rw [← fixed_zero 16 7] at hzeros
    have hvalue := value_fixed (k := 7) (by decide) le_rfl (hfit.git_lt.trans_le (by decide))
    rw [hzeros, value_fixed (by decide) le_rfl (by decide)] at hvalue
    exact hg hvalue.symm
  let p : StorePath :=
    { hash := f.hash, name := n, major := v / 10, minor := v % 10, date := t + 20250000
      git := fixed 16 7 g, hash_length := henc.hash_length, hash_mem := henc.hash
      name_length := ⟨List.length_pos_iff.2 hn, hname ▸ henc.name_length⟩
      name_mem := hchars, minor_lt := Nat.mod_lt v (by decide), version := by omega
      date_mem := by omega, git_length := length_fixed 16 7 g, git_mem := mem_fixed (by decide)
      git_ne := hcommit }
  have hdot : lit "." = [dot] := by decide
  have hpath (r : StorePath) : r.path = lit "/nix/store/" ++ r.hash ++ (dash :: r.name) ++
      (dash :: (digitsOf 10 r.major ++ dot :: digitsOf 10 r.minor)) ++
      (dash :: digitsOf 10 r.date) ++ (dash :: r.git) := by
    simp only [StorePath.path, StorePath.base, StorePath.rest, StorePath.versionStr,
      List.append_assoc, List.cons_append]
  have hnumbers : digitsOf 10 p.major ++ dot :: digitsOf 10 p.minor = versionString v := by
    rw [versionString, hdot, List.append_assoc]
    rfl
  have hdate : digitsOf 10 p.date = dateString t := (dateString_eq htapeout).1.symm
  have hgit : p.git = gitString g := (gitString_eq hfit.git_lt).symm
  have hsame : p.hash = f.hash ∧ p.name = n := ⟨rfl, rfl⟩
  refine ⟨p, (hpath p).trans (Eq.trans ?_ heq)⟩
  rw [buildStorePath, if_pos hn, if_pos hv, if_pos ht, if_pos hg, hnumbers, hdate, hgit, hsame.1,
    hsame.2]

/-! ### The serial -/

variable {serial : Str}

theorem rdropWhile_bytes (hascii : ∀ c ∈ serial, c < 128) :
    (serial.map UInt8.ofNat).rdropWhile (· == 0) =
      (serial.rdropWhile (· == 0)).map UInt8.ofNat := by
  induction serial using List.reverseRecOn with
  | nil => rfl
  | append_singleton s c ih =>
      have hlt : c < 256 := (hascii c (by simp)).trans (by decide)
      have hnul : UInt8.ofNat c = 0 ↔ c = 0 := by
        constructor
        · intro heq
          rw [← UInt8.toNat_ofNat_of_lt' hlt, heq]
          rfl
        · rintro rfl
          rfl
      have hs := ih fun c hc => hascii c (by simp [hc])
      rw [List.map_append, List.map_singleton, List.rdropWhile_concat, List.rdropWhile_concat, hs]
      simp only [beq_iff_eq, hnul]
      split
      · rfl
      · rw [List.map_append, List.map_singleton]

/-- A serial that was padded reads back without the NULs that it ended in. -/
theorem decode_serial (hascii : ∀ c ∈ serial, c < 128) :
    decodeAscii ((ljust (serial.map UInt8.ofNat) deviceIdLen).rdropWhile (· == 0)) =
      .ok (serial.rdropWhile (· == 0)) := by
  have hpad (bs : List UInt8) (k : ℕ) :
      (bs ++ List.replicate k 0).rdropWhile (· == 0) = bs.rdropWhile (· == 0) := by
    induction k with
    | zero => rw [List.replicate_zero, List.append_nil]
    | succ k ih =>
        rw [List.replicate_succ', ← List.append_assoc, List.rdropWhile_concat_pos _ _ _ rfl, ih]
  have hkeep : ∀ c ∈ serial.rdropWhile (· == 0), c < 128 := fun c hc =>
    hascii c ((List.rdropWhile_prefix (· == 0) serial).subset hc)
  rw [ljust, hpad, rdropWhile_bytes hascii]
  generalize serial.rdropWhile (· == 0) = s at hkeep ⊢
  have hbytes : ∀ b ∈ s.map UInt8.ofNat, b < 128 := by
    intro b hb
    obtain ⟨c, hc, rfl⟩ := List.mem_map.1 hb
    have hlt := hkeep c hc
    rw [UInt8.lt_iff_toNat_lt, UInt8.toNat_ofNat_of_lt' (hlt.trans (by decide))]
    exact hlt
  rw [decodeAscii, if_pos hbytes, List.map_map]
  refine congrArg Except.ok ((List.map_congr_left ?_).trans (List.map_id s))
  intro c hc
  exact UInt8.toNat_ofNat_of_lt ((hkeep c hc).trans (by decide))

/-- It reads back whole if there were none. -/
theorem serial_kept : serial.rdropWhile (· == 0) = serial ↔ serial.getLast? ≠ some 0 := by
  rw [List.rdropWhile_eq_self_iff]
  induction serial using List.reverseRecOn with
  | nil => simp
  | append_singleton s c _ => simp

theorem encodeSerial_ok_iff {did : List UInt8} :
    encodeSerial serial = .ok did ↔
      (∀ c ∈ serial, c < 128) ∧ serial.length ≤ 8 ∧
        did = ljust (serial.map UInt8.ofNat) deviceIdLen := by
  by_cases hascii : ∀ c ∈ serial, c < 128
  · have hencode : encodeAscii serial = .ok (serial.map UInt8.ofNat) := if_pos hascii
    rw [encodeSerial, hencode]
    by_cases hlen : serial.length ≤ 8
    · have hfits : ¬deviceIdLen < (serial.map UInt8.ofNat).length := by
        rw [List.length_map, deviceIdLen]
        omega
      simp only [bind, Except.bind, if_neg hfits, pure, Except.pure, Except.ok.injEq]
      exact ⟨fun h => ⟨hascii, hlen, h.symm⟩, fun h => h.2.2.symm⟩
    · have hlong : deviceIdLen < (serial.map UInt8.ofNat).length := by
        rw [List.length_map, deviceIdLen]
        omega
      simp only [bind, Except.bind, if_pos hlong, hlen, false_and, and_false, iff_false]
      intro h
      cases h
  · have hencode : encodeAscii serial = .error .notAscii := if_neg hascii
    rw [encodeSerial, hencode]
    simp only [bind, Except.bind, hascii, false_and, iff_false]
    intro h
    cases h

/-! ### The script -/

/-- What stands in the lines that the script prints, and its status. -/
structure Printed (py : Interp) (path serial : Str) (lines : List Line) (status : ℕ)
    (user did : List UInt8) (f : Parsed) : Prop where
  parse : parseStorePath py path = .ok f
  encodes : Encodes f.hash f.name f.version f.tapeout f.git
  user_eq : user = BitField.toBytes (fieldsOf f.hash f.name f.version f.tapeout f.git).bits
  ascii : ∀ c ∈ serial, c < 128
  did_eq : did = ljust (serial.map UInt8.ofNat) deviceIdLen
  efusewUser : ∀ u, Line.efusewUser u ∈ lines ↔ u = user
  efusewDeviceId : ∀ d, Line.efusewDeviceId d ∈ lines ↔ d = did
  lossless : Line.lossless true ∈ lines ↔ Reads user did path serial
  status_eq : status = 0 ↔ Reads user did path serial

variable {arg0 : Str} {more : List Str} {lines : List Line} {status : ℕ}

/-- The record of what was packed reads back as it is shown. -/
theorem decodeUser_packed (henc : Encodes f.hash f.name f.version f.tapeout f.git) :
    decodeUser (BitField.toBytes (fieldsOf f.hash f.name f.version f.tapeout f.git).bits) =
      .ok (shown (fieldsOf f.hash f.name f.version f.tapeout f.git)) := by
  have hfits := henc.fits
  have hlen : (BitField.toBytes (fieldsOf f.hash f.name f.version f.tapeout f.git).bits).length =
      40 := by
    rw [BitField.length_toBytes, Fields.length_bits hfits]
  rw [decodeUser_eq hlen, Fields.ofBlob_toBytes hfits]
  exact if_pos rfl

theorem main_ok (h : main py (arg0 :: path :: more) = .ok (lines, status)) :
    ∃ user did f, Printed py path (more.headD (lit "SG1-0001")) lines status user did f := by
  unfold main at h
  obtain ⟨f, hparse, h⟩ := bind_ok_iff.1 h
  obtain ⟨user, huser, h⟩ := bind_ok_iff.1 h
  obtain ⟨did, hdid, h⟩ := bind_ok_iff.1 h
  obtain ⟨back, hback, h⟩ := bind_ok_iff.1 h
  obtain ⟨didBack, hdidBack, h⟩ := bind_ok_iff.1 h
  have hout := Except.ok.inj h
  obtain ⟨henc, huserEq⟩ := encodeUser_ok_iff.1 huser
  obtain ⟨hascii, -, hdidEq⟩ := encodeSerial_ok_iff.1 hdid
  have hreads : (back.storePath == path && didBack == more.headD (lit "SG1-0001")) = true ↔
      Reads user did path (more.headD (lit "SG1-0001")) := by
    rw [Bool.and_eq_true, beq_iff_eq, beq_iff_eq, Reads, hback, hdidBack]
    constructor
    · intro hsame
      exact ⟨⟨back, rfl, hsame.1⟩, congrArg Except.ok hsame.2⟩
    · rintro ⟨⟨d, hd, hpath⟩, hserial⟩
      obtain rfl := Except.ok.inj hd
      exact ⟨hpath, Except.ok.inj hserial⟩
  generalize (back.storePath == path && didBack == more.headD (lit "SG1-0001")) = ok at hout hreads
  obtain ⟨rfl, rfl⟩ := Prod.mk.inj hout
  refine ⟨user, did, f, hparse, henc, huserEq, hascii, hdidEq, ?_, ?_, ?_, ?_⟩
  · intro u
    simp
  · intro d
    simp
  · rw [← hreads]
    simp [eq_comm]
  · rw [← hreads]
    cases ok <;> simp

/-- The path that is rebuilt out of what was packed. -/
theorem shown_packed (henc : Encodes f.hash f.name f.version f.tapeout f.git) :
    (shown (fieldsOf f.hash f.name f.version f.tapeout f.git)).storePath =
      buildStorePath f.hash (nameOf f.name) f.version.toNat (versionString f.version.toNat)
        f.tapeout.toNat (dateString f.tapeout.toNat) f.git.toNat (gitString f.git.toNat) := by
  have hhash := StorePath.getD_idxOf henc.hash
  have hname : nameOf (f.name ++ List.replicate (15 - f.name.length) 0) = nameOf f.name := by
    generalize 15 - f.name.length = k
    induction f.name with
    | nil => cases k <;> rfl
    | cons c s ih =>
        rw [nameOf, nameOf] at ih ⊢
        rw [List.cons_append, List.takeWhile_cons, ih, List.takeWhile_cons]
  simp only [shown, fieldsOf, hhash, hname]

theorem fit_packed (henc : Encodes f.hash f.name f.version f.tapeout f.git) :
    Fit f (nameOf f.name) f.version.toNat f.tapeout.toNat f.git.toNat := by
  have hversion := henc.version
  have htapeout := henc.tapeout
  have hgit := henc.git
  exact ⟨rfl, by omega, by omega, by omega, by omega, by omega⟩

/-- **Which inputs read back**: a badge's store path, and a serial with no NUL at its end. -/
theorem Printed.reads_iff {user did : List UInt8}
    (h : Printed py path serial lines status user did f) :
    Reads user did path serial ↔
      (∃ p : StorePath, p.path = path) ∧ serial.getLast? ≠ some 0 := by
  have hserial : decodeAscii (did.rdropWhile (· == 0)) = .ok serial ↔
      serial.getLast? ≠ some 0 := by
    rw [h.did_eq, decode_serial h.ascii, Except.ok.injEq, serial_kept]
  rw [Reads, hserial, h.user_eq, decodeUser_packed h.encodes]
  refine and_congr_left fun _ => ?_
  constructor
  · rintro ⟨back, hback, hpath⟩
    obtain rfl := Except.ok.inj hback
    obtain ⟨ver, hcut⟩ := parseStorePath_ok h.parse
    rw [shown_packed h.encodes] at hpath
    exact storePath_of_rebuilt hcut (fit_packed h.encodes) h.encodes hpath
  · rintro ⟨p, rfl⟩
    have hparse := h.parse
    rw [p.parse] at hparse
    obtain rfl := Except.ok.inj hparse
    exact ⟨_, rfl, p.shown_storePath_eq⟩

/-- **What is printed for burning comes with the verdict on it.**  For every path and serial
that the script prints the burn commands for, its status is 0, and it says so, exactly when the
USER blob it printed is decoded to that path and the DEVICE_ID it printed to that serial; and
they are exactly for a path that is put together as a badge's is, and a serial that does not end
in a NUL. -/
theorem burn_lossless_iff {py : Interp} {arg0 path : Str} {more : List Str} {lines : List Line}
    {status : ℕ} (h : main py (arg0 :: path :: more) = .ok (lines, status)) :
    ∃ user did, (∀ u, Line.efusewUser u ∈ lines ↔ u = user) ∧
      (∀ d, Line.efusewDeviceId d ∈ lines ↔ d = did) ∧
      (status = 0 ↔ Reads user did path (more.headD (lit "SG1-0001"))) ∧
      (Line.lossless true ∈ lines ↔ Reads user did path (more.headD (lit "SG1-0001"))) ∧
      (Reads user did path (more.headD (lit "SG1-0001")) ↔
        (∃ p : StorePath, p.path = path) ∧
          (more.headD (lit "SG1-0001")).getLast? ≠ some 0) := by
  obtain ⟨user, did, f, hprinted⟩ := main_ok h
  exact ⟨user, did, hprinted.efusewUser, hprinted.efusewDeviceId, hprinted.status_eq,
    hprinted.lossless, hprinted.reads_iff⟩

/-- What the script goes through with. -/
theorem main_of (arg0 : Str) (hparse : parseStorePath py path = .ok f)
    (henc : Encodes f.hash f.name f.version f.tapeout f.git) :
    ∃ lines status, main py [arg0, path] = .ok (lines, status) := by
  have hascii : ∀ c ∈ lit "SG1-0001", c < 128 := by decide
  have hserial := encodeSerial_ok_iff.2 ⟨hascii, by decide, rfl⟩
  unfold main
  simp only [hparse, encodeUser_ok henc, decodeUser_packed henc, List.headD_nil, hserial,
    decode_serial hascii, bind, Except.bind, pure, Except.pure]
  exact ⟨_, _, rfl⟩

/-- A badge's path comes out clean. -/
theorem burn_lossless_iff_this :
    ∃ lines, main asciiInterp [lit "board_id.py", thisPath.path] = .ok (lines, 0) := by
  obtain ⟨lines, status, hmain⟩ :=
    main_of (lit "board_id.py") (thisPath.parse asciiInterp) thisPath.encodes
  obtain ⟨user, did, -, -, hstatus, -, hreads⟩ := burn_lossless_iff hmain
  have hzero : status = 0 := hstatus.2 (hreads.2 ⟨⟨thisPath, rfl⟩, by decide⟩)
  rw [hzero] at hmain
  exact ⟨lines, hmain⟩

/-- A badge's path, but for a commit of six digits. -/
def shortCommit : Str :=
  lit "/nix/store/dchav4nca8fzz7lcc9zadjxjcrvs920p-nix-badge-board-2.0-20260706-7f6efc"

/-- What it is cut into. -/
def shortParsed : Parsed where
  hash := lit "dchav4nca8fzz7lcc9zadjxjcrvs920p"
  name := lit "nix-badge-board"
  version := 20
  tapeout := 10706
  git := 0x7f6efc
  versionStr := lit "2.0"
  date := lit "20260706"
  gitStr := lit "7f6efc"

theorem parse_shortCommit : parseStorePath asciiInterp shortCommit = .ok shortParsed := by
  decide +kernel

/-- **Burn commands are printed for what does not read back**: of a commit of six digits, which
comes back with a zero in front. -/
theorem burn_of_short_commit :
    ∃ lines status user did, main asciiInterp [lit "board_id.py", shortCommit] =
        .ok (lines, status) ∧
      Line.efusewUser user ∈ lines ∧ Line.efusewDeviceId did ∈ lines ∧
      ¬Reads user did shortCommit (lit "SG1-0001") := by
  have henc : Encodes shortParsed.hash shortParsed.name shortParsed.version shortParsed.tapeout
      shortParsed.git := ⟨by decide, by decide, by decide, by decide, by decide, by decide,
        by decide⟩
  obtain ⟨lines, status, hmain⟩ := main_of (lit "board_id.py") parse_shortCommit henc
  obtain ⟨user, did, f, hprinted⟩ := main_ok hmain
  refine ⟨lines, status, user, did, hmain, (hprinted.efusewUser user).2 rfl,
    (hprinted.efusewDeviceId did).2 rfl, ?_⟩
  intro hreads
  obtain ⟨⟨p, hp⟩, -⟩ := hprinted.reads_iff.1 hreads
  have hparse := p.parse asciiInterp
  rw [hp, parse_shortCommit] at hparse
  have hgit := congrArg (fun f : Parsed => f.gitStr.length) (Except.ok.inj hparse)
  have hlen : (lit "7f6efc").length = p.git.length := hgit
  rw [p.git_length] at hlen
  exact absurd hlen (by decide)

end BadgeOS.BoardId
