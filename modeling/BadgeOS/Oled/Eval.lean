import BadgeOS.Lib.Packing
import Mathlib

/-!
# Decoding an evaluated OLED frame

`eval.zig`: a screen answers a list of integers, which is a whole frame (four page-major
bytes per integer) or a delta (two `offset * 256 + byte` entries per integer) into a
framebuffer that persists.  An `i64` is an `ℤ` here: `v >> k` is `v >>> k`, which floors as an
arithmetic shift does, and `v & (2^k - 1)` is `v % 2^k`.

* `decodeOled`, `applyOverlay`, `decodeOledFrame` — the functions;
* `decodeOled_words` — what four bytes to an integer decode to;
* `applyOverlay_pairs` — a packed list of entries is a patch of the framebuffer, and marks the
  column of every entry.
-/

namespace BadgeOS.Oled

open Function Packing

/-- One evaluated frame, as far as it is decoded. -/
structure Frame where
  bitmap : List ℤ
  nextMs : ℤ
  delta : Bool := false
  n : ℕ := 0
  deriving DecidableEq, Repr

/-- `Dirty.max_pages`. -/
def Dirty.maxPages : ℕ := 8

/-- The panel region a frame touched: all of it, or the changed columns of each page. -/
structure Dirty where
  full : Bool := true
  changed : Fin Dirty.maxPages → BitVec 128 := fun _ => 0#128

/-- `v & 0xff`, as a byte. -/
def byte (v : ℤ) : UInt8 := UInt8.ofNat (v % 256).toNat

/-- The four bytes of an integer, low byte first. -/
def wordBytes (v : ℤ) : List UInt8 :=
  [byte v, byte (v >>> (8 : ℕ)), byte (v >>> (16 : ℕ)), byte (v >>> (24 : ℕ))]

/-- Decode a full frame into `out`, zero-filling its tail. -/
def decodeOled (bitmap : List ℤ) (out : List UInt8) : Dirty × List UInt8 :=
  let words := out.length / 4
  let n := min bitmap.length words
  ({ full := true },
    (bitmap.take n).flatMap wordBytes ++ List.replicate (out.length - n * 4) 0)

/-- `dirty.changed[page] |= 1 << col`, where there are such a page and column. -/
def Dirty.mark (dirty : Dirty) (page col : ℕ) : Dirty :=
  if h : page < Dirty.maxPages ∧ col < 128 then
    { dirty with
      changed := update dirty.changed ⟨page, h.1⟩ (dirty.changed ⟨page, h.1⟩ ||| 1#128 <<< col) }
  else dirty

/-- One entry of `applyOverlay`'s loop: entry `i`, in the integer `v`. -/
def overlayEntry (v : ℤ) (i width : ℕ) (dirty : Dirty) (out : List UInt8) : Dirty × List UInt8 :=
  let e := if i % 2 = 0 then (v >>> (18 : ℕ)) % 2 ^ 18 else v % 2 ^ 18
  let offset := (e >>> (8 : ℕ)).toNat
  if out.length ≤ offset then (dirty, out)
  else (dirty.mark (offset / width) (offset % width), out.set offset (byte e))

/-- The loop of `applyOverlay` from entry `i` on, with `count` entries to go. -/
def overlayLoop (packedInts : List ℤ) (width : ℕ) :
    (count i : ℕ) → Dirty → List UInt8 → Dirty × List UInt8
  | 0, _, dirty, out => (dirty, out)
  | count + 1, i, dirty, out =>
      match packedInts[i / 2]? with
      -- `n` claims more entries than the list holds
      | none => (dirty, out)
      | some v =>
          let r := overlayEntry v i width dirty out
          overlayLoop packedInts width count (i + 1) r.1 r.2

/-- Apply `n` packed entries to `out`, adding every touched column to `dirty`. -/
def applyOverlay (packedInts : List ℤ) (n : ℕ) (out : List UInt8) (width : ℕ) (dirty : Dirty) :
    Dirty × List UInt8 :=
  if width = 0 then (dirty, out) else overlayLoop packedInts width n 0 dirty out

/-- Decode a frame into the framebuffer `out`, which persists across frames. -/
def decodeOledFrame (frame : Frame) (out : List UInt8) (width : ℕ) : Dirty × List UInt8 :=
  if !frame.delta then decodeOled frame.bitmap out
  else applyOverlay frame.bitmap frame.n out width { full := false }

/-! ### Dirty regions -/

/-- The flush of `dirty` writes column `col` of page `page`. -/
def Dirty.Covers (dirty : Dirty) (page col : ℕ) : Prop :=
  dirty.full = true ∨ ∃ h : page < Dirty.maxPages, (dirty.changed ⟨page, h⟩).getLsbD col = true

instance (dirty : Dirty) (page col : ℕ) : Decidable (dirty.Covers page col) :=
  inferInstanceAs (Decidable (_ ∨ _))

theorem Dirty.Covers.mark {dirty : Dirty} {page col : ℕ} (h : dirty.Covers page col)
    (page' col' : ℕ) : (dirty.mark page' col').Covers page col := by
  unfold Dirty.mark
  split
  · rename_i hnew
    rcases h with hfull | ⟨hp, hbit⟩
    · exact .inl hfull
    · refine .inr ⟨hp, ?_⟩
      by_cases heq : (⟨page, hp⟩ : Fin Dirty.maxPages) = ⟨page', hnew.1⟩
      · rw [heq] at hbit
        simp only [heq, update_self, BitVec.getLsbD_or, hbit, Bool.true_or]
      · simp only [update_of_ne heq]
        exact hbit
  · exact h

theorem Dirty.mark_covers (dirty : Dirty) {page col : ℕ} (hp : page < Dirty.maxPages)
    (hc : col < 128) : (dirty.mark page col).Covers page col := by
  unfold Dirty.mark
  rw [dif_pos ⟨hp, hc⟩]
  refine .inr ⟨hp, ?_⟩
  simp only [update_self, BitVec.getLsbD_or, Bool.or_eq_true]
  right
  simp [hc]

/-! ### Bytes -/

theorem byte_natCast (m : ℕ) : byte (m : ℤ) = UInt8.ofNat m := by
  have hmod : ((m : ℤ) % 256).toNat = m % 256 := by omega
  rw [byte, hmod]
  exact UInt8.toNat_inj.1 (by simp)

theorem ofNat_eq {m : ℕ} {b : UInt8} (h : m % 256 = b.toNat) : UInt8.ofNat m = b :=
  UInt8.toNat_inj.1 (by simpa using h)

/-- Four bytes to an integer, low byte first, decode to themselves. -/
theorem wordBytes_le (b0 b1 b2 b3 : UInt8) :
    wordBytes ((b0.toNat + 2 ^ 8 * b1.toNat + 2 ^ 16 * b2.toNat + 2 ^ 24 * b3.toNat : ℕ) : ℤ) =
      [b0, b1, b2, b3] := by
  have h0 := b0.toNat_lt
  have h1 := b1.toNat_lt
  have h2 := b2.toNat_lt
  have h3 := b3.toNat_lt
  have hshift (m k : ℕ) : (m : ℤ) >>> k = ((m >>> k : ℕ) : ℤ) := rfl
  simp only [wordBytes, hshift, byte_natCast, Nat.shiftRight_eq_div_pow]
  rw [ofNat_eq (b := b0) (by omega), ofNat_eq (b := b1) (by omega), ofNat_eq (b := b2) (by omega),
    ofNat_eq (b := b3) (by omega)]

/-! ### Entries -/

/-- A change entry as a number. -/
def entryCode (e : ℕ × UInt8) : ℕ := e.1 * 256 + e.2.toNat

/-- What an entry inside the framebuffer does. -/
def stamp (width : ℕ) (r : Dirty × List UInt8) (e : ℕ × UInt8) : Dirty × List UInt8 :=
  (r.1.mark (e.1 / width) (e.1 % width), r.2.set e.1 e.2)

theorem entryCode_lt {e : ℕ × UInt8} (h : e.1 < 1024) : entryCode e < 2 ^ 18 := by
  have := e.2.toNat_lt
  unfold entryCode
  omega

theorem overlayEntry_eq {w i width : ℕ} {e : ℕ × UInt8} {dirty : Dirty} {out : List UInt8}
    (hw : digit (2 ^ 18) w i = entryCode e) (he : e.1 < out.length) :
    overlayEntry (w : ℤ) i width dirty out = stamp width (dirty, out) e := by
  have hb := e.2.toNat_lt
  have hcode : (if i % 2 = 0 then ((w : ℤ) >>> (18 : ℕ)) % 2 ^ 18 else (w : ℤ) % 2 ^ 18) =
      (entryCode e : ℤ) := by
    rw [← hw, digit]
    split
    · rw [show (w : ℤ) >>> (18 : ℕ) = ((w >>> 18 : ℕ) : ℤ) from rfl, Nat.shiftRight_eq_div_pow]
      norm_cast
    · norm_cast
  have hoff : ((entryCode e : ℤ) >>> (8 : ℕ)).toNat = e.1 := by
    rw [show (entryCode e : ℤ) >>> (8 : ℕ) = ((entryCode e >>> 8 : ℕ) : ℤ) from rfl, Int.toNat_natCast,
      Nat.shiftRight_eq_div_pow, entryCode]
    omega
  have hbyte : byte (entryCode e : ℤ) = e.2 := by
    rw [byte_natCast]
    exact ofNat_eq (by unfold entryCode; omega)
  simp only [overlayEntry, hcode, hoff, hbyte, if_neg (Nat.not_le.2 he)]
  rfl

/-- The integers a list of entries is packed into. -/
def packEntries (es : List (ℕ × UInt8)) : List ℤ :=
  (pairs (2 ^ 18) (es.map entryCode)).map Int.ofNat

theorem overlayLoop_eq {es : List (ℕ × UInt8)} {width : ℕ}
    (hcode : ∀ e ∈ es, e.1 < 1024) {count i : ℕ} (hi : count + i = es.length) (dirty : Dirty)
    {out : List UInt8} (hlen : ∀ e ∈ es, e.1 < out.length) :
    overlayLoop (packEntries es) width count i dirty out =
      (es.drop i).foldl (stamp width) (dirty, out) := by
  induction count generalizing i dirty out with
  | zero =>
      rw [List.drop_eq_nil_of_le (by omega)]
      rfl
  | succ count ih =>
      have hlt : i < es.length := by omega
      obtain ⟨e, he⟩ : ∃ e, es[i]? = some e := ⟨_, List.getElem?_eq_getElem hlt⟩
      have hmem : e ∈ es := List.mem_of_getElem? he
      have hall : ∀ c ∈ es.map entryCode, c < 2 ^ 18 := by
        intro c hc
        obtain ⟨d, hd, rfl⟩ := List.mem_map.1 hc
        exact entryCode_lt (hcode d hd)
      obtain ⟨w, hw, hdigit⟩ := digit_pairs hall (i := i) (e := entryCode e) (by simp [he])
      have hpacked : (packEntries es)[i / 2]? = some (w : ℤ) := by
        rw [packEntries, List.getElem?_map, hw]
        rfl
      have hdrop : es.drop i = e :: es.drop (i + 1) := by
        rw [List.drop_eq_getElem_cons hlt]
        congr 1
        rw [List.getElem?_eq_getElem hlt] at he
        exact Option.some.inj he
      rw [hdrop, List.foldl_cons, overlayLoop]
      simp only [hpacked]
      rw [overlayEntry_eq hdigit (hlen e hmem)]
      exact ih (by omega) _ (by simpa [stamp] using hlen)

theorem foldl_stamp (width : ℕ) (es : List (ℕ × UInt8)) (r : Dirty × List UInt8) :
    (es.foldl (stamp width) r).2 = patch r.2 es := by
  induction es generalizing r with
  | nil => rfl
  | cons e es ih => exact ih (stamp width r e)

theorem foldl_stamp_covers {width page col : ℕ} {es : List (ℕ × UInt8)} {r : Dirty × List UInt8}
    (h : r.1.Covers page col) : (es.foldl (stamp width) r).1.Covers page col := by
  induction es generalizing r with
  | nil => exact h
  | cons e es ih => exact ih (h.mark _ _)

theorem foldl_stamp_marks {width : ℕ} {es : List (ℕ × UInt8)} {r : Dirty × List UInt8}
    {e : ℕ × UInt8} (he : e ∈ es) (hp : e.1 / width < Dirty.maxPages) (hc : e.1 % width < 128) :
    (es.foldl (stamp width) r).1.Covers (e.1 / width) (e.1 % width) := by
  induction es generalizing r with
  | nil => simp at he
  | cons d es ih =>
      rcases List.mem_cons.1 he with rfl | he
      · have hmark : (stamp width r e).1.Covers (e.1 / width) (e.1 % width) :=
          r.1.mark_covers hp hc
        rw [List.foldl_cons]
        exact foldl_stamp_covers hmark
      · exact ih he

/-- The loop writes the entries one after the other. -/
theorem applyOverlay_eq {es : List (ℕ × UInt8)} {width : ℕ} (hw : 0 < width) (dirty : Dirty)
    {out : List UInt8} (hcode : ∀ e ∈ es, e.1 < 1024) (hlen : ∀ e ∈ es, e.1 < out.length) :
    applyOverlay (packEntries es) es.length out width dirty =
      es.foldl (stamp width) (dirty, out) := by
  have hloop : overlayLoop (packEntries es) width es.length 0 dirty out =
      (es.drop 0).foldl (stamp width) (dirty, out) := overlayLoop_eq hcode rfl dirty hlen
  rw [List.drop_zero] at hloop
  rw [applyOverlay, if_neg (by omega), hloop]

/-- **Packed entries.**  A packed list of entries inside the framebuffer is written into it,
and every entry's column is marked. -/
theorem applyOverlay_pack {es : List (ℕ × UInt8)} {width : ℕ} (hw : 0 < width) (dirty : Dirty)
    {out : List UInt8} (hlen : ∀ e ∈ es, e.1 < out.length) (hout : out.length ≤ 1024) :
    (applyOverlay (packEntries es) es.length out width dirty).2 = patch out es ∧
    ∀ e ∈ es, e.1 / width < Dirty.maxPages → e.1 % width < 128 →
      (applyOverlay (packEntries es) es.length out width dirty).1.Covers (e.1 / width)
        (e.1 % width) := by
  have hcode : ∀ e ∈ es, e.1 < 1024 := fun e he => (hlen e he).trans_le hout
  rw [applyOverlay_eq hw dirty hcode hlen]
  exact ⟨foldl_stamp width es _, fun e he hp hc => foldl_stamp_marks he hp hc⟩

/-- **A whole frame.**  Integers enough for the framebuffer replace all of it. -/
theorem decodeOled_full {bitmap : List ℤ} {out : List UInt8}
    (h : bitmap.length * 4 = out.length) :
    (decodeOled bitmap out).2 = bitmap.flatMap wordBytes := by
  have hwords : min bitmap.length (out.length / 4) = bitmap.length := by omega
  simp only [decodeOled, hwords, List.take_length, h, Nat.sub_self, List.replicate_zero,
    List.append_nil]

end BadgeOS.Oled
