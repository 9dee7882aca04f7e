import BadgeOS.Oled.Panel

/-!
# What reaches the glass

A span or a whole flush that gets through to the controller that is fitted shows its bytes, and
leaves every other column as it was.  A probe that is answered finds an SH1106 unless the first
try of its magic bytes that stored any stored one of them alone.

* `span_shows`, `flushSpans_shows`, `flush_shows` — the bytes on the glass;
* `ProbeFaults.Right`, `redetect_right` — the probe.
-/

namespace BadgeOS.Oled

open Cursor

variable {g : Geometry} {p : Panel g} {chip : Chip}

/-- The framebuffer's byte for a column of a page. -/
def Panel.byte (p : Panel g) (page col : ℕ) : UInt8 := p.fb.getD (page * g.width + col) 0

/-- The glass shows the framebuffer. -/
def Shows (chip : Chip) (p : Panel g) : Prop :=
  ∀ page < g.pages, ∀ col < g.width, chip.visible page col = p.byte page col

instance (chip : Chip) (p : Panel g) : Decidable (Shows chip p) :=
  inferInstanceAs (Decidable (∀ page < _, ∀ col < _, _))

/-- A column of the panel is a byte of the framebuffer. -/
theorem offset_lt {page col : ℕ} (hpage : page < g.pages) (hcol : col < g.width) :
    page * g.width + col < g.fbLen := by
  calc page * g.width + col < page * g.width + g.width := Nat.add_lt_add_left hcol _
    _ = g.width * (page + 1) := by ring
    _ ≤ g.width * g.pages := Nat.mul_le_mul_left _ hpage

/-! ### One span -/

theorem length_spanBytes {span : Span} (h : span.Fits g) :
    (p.spanBytes span).length = span.2.2 - span.2.1 + 1 := by
  have hstop := offset_lt h.page h.stop
  have hstart := h.start
  rw [Panel.spanBytes, List.length_take, List.length_drop, p.fb_length]
  omega

theorem spanBytes_get {span : Span} {j : ℕ} (hj : j < (p.spanBytes span).length) :
    (p.spanBytes span)[j] = p.byte span.1 (span.2.1 + j) := by
  have hget : (p.spanBytes span)[j]? = p.fb[span.1 * g.width + span.2.1 + j]? := by
    have hlt : j < span.2.2 - span.2.1 + 1 := by
      rw [Panel.spanBytes, List.length_take] at hj
      omega
    rw [Panel.spanBytes, List.getElem?_take_of_lt hlt, List.getElem?_drop]
  rw [Panel.byte, List.getD_eq_getElem?_getD, ← Nat.add_assoc, ← hget,
    List.getElem?_eq_getElem hj, Option.getD_some]

theorem toNat_ofNat {n : ℕ} (h : n < 256) : (UInt8.ofNat n).toNat = n := by
  rw [UInt8.toNat_ofNat']
  exact Nat.mod_eq_of_lt h

/-- The window of a span, on an SSD1306. -/
theorem exec_window (s : Ssd1306) {c0 c1 p0 p1 : ℕ} (hc0 : c0 < 256) (hc1 : c1 < 256)
    (hp0 : p0 < 256) (hp1 : p1 < 256) :
    s.exec [0x21, UInt8.ofNat c0, UInt8.ofNat c1, 0x22, UInt8.ofNat p0, UInt8.ofNat p1] =
      { mem := { s.mem with cursor := (p0, c0) }, columns := (c0, c1), pages := (p0, p1),
        horizontal := s.horizontal } := by
  have hexec : s.exec [0x21, UInt8.ofNat c0, UInt8.ofNat c1, 0x22, UInt8.ofNat p0,
      UInt8.ofNat p1] =
      { mem := { s.mem with cursor := ((UInt8.ofNat p0).toNat, (UInt8.ofNat c0).toNat) },
        columns := ((UInt8.ofNat c0).toNat, (UInt8.ofNat c1).toNat),
        pages := ((UInt8.ofNat p0).toNat, (UInt8.ofNat p1).toNat),
        horizontal := s.horizontal } := rfl
  rw [hexec, toNat_ofNat hc0, toNat_ofNat hc1, toNat_ofNat hp0, toNat_ofNat hp1]

/-- The digits in the bytes that select a page and a column. -/
theorem select_digits :
    (∀ page : Fin 8, sh1106Arity ((0xb0 : UInt8) ||| UInt8.ofNat page) = 0 ∧
      ((0xb0 : UInt8) ||| UInt8.ofNat page) &&& 0xf0 = 0xb0 ∧
      (((0xb0 : UInt8) ||| UInt8.ofNat page) &&& 0x0f).toNat = page) ∧
    ∀ col : Fin 130,
      (sh1106Arity ((0x00 : UInt8) ||| (UInt8.ofNat col &&& 0x0f)) = 0 ∧
        ((0x00 : UInt8) ||| (UInt8.ofNat col &&& 0x0f)) &&& 0xf0 = 0x00 ∧
        (((0x00 : UInt8) ||| (UInt8.ofNat col &&& 0x0f)) &&& 0x0f).toNat = col % 16) ∧
      sh1106Arity ((0x10 : UInt8) ||| (UInt8.ofNat col >>> 4)) = 0 ∧
        ((0x10 : UInt8) ||| (UInt8.ofNat col >>> 4)) &&& 0xf0 = 0x10 ∧
        (((0x10 : UInt8) ||| (UInt8.ofNat col >>> 4)) &&& 0x0f).toNat = col / 16 := by
  decide +kernel

theorem Sh1106.exec_cons {op : UInt8} (h : sh1106Arity op = 0) (cmds : List UInt8) (s : Sh1106) :
    s.exec (op :: cmds) = (s.select op).exec cmds := by
  rw [Sh1106.exec]
  exact h

/-- The page and the column of a span, on an SH1106. -/
theorem exec_select (s : Sh1106) {page col : ℕ} (hpage : page < 8) (hcol : col < 130) :
    s.exec [(0xb0 : UInt8) ||| UInt8.ofNat page, (0x00 : UInt8) ||| (UInt8.ofNat col &&& 0x0f),
      (0x10 : UInt8) ||| (UInt8.ofNat col >>> 4)] =
      { mem := { s.mem with cursor := (page, col) } } := by
  obtain ⟨hop, hkind, hdigit⟩ := select_digits.1 ⟨page, hpage⟩
  obtain ⟨⟨hlow, hlowKind, hlowDigit⟩, hhigh, hhighKind, hhighDigit⟩ := select_digits.2 ⟨col, hcol⟩
  generalize (0xb0 : UInt8) ||| UInt8.ofNat page = op at *
  generalize (0x00 : UInt8) ||| (UInt8.ofNat col &&& 0x0f) = low at *
  generalize (0x10 : UInt8) ||| (UInt8.ofNat col >>> 4) = high at *
  rw [Sh1106.exec_cons hop, Sh1106.exec_cons hlow, Sh1106.exec_cons hhigh, Sh1106.exec]
  have hzero : (0x00 : UInt8) ≠ 0xb0 := by decide
  have hten : (0x10 : UInt8) ≠ 0xb0 ∧ (0x10 : UInt8) ≠ 0x00 := by decide
  simp only [Sh1106.select, hkind, hlowKind, hhighKind, hdigit, hlowDigit, hhighDigit, if_true,
    if_neg hzero, if_neg hten.1, if_neg hten.2]
  have hcolumn : col / 16 * 16 + (s.mem.cursor.2 / 16 * 16 + col % 16) % 16 = col := by omega
  rw [hcolumn]

/-- An SH1106's cursor along a page, short of its end. -/
theorem Sh1106.iterate_next {row col j : ℕ} (h : col + j < 132) :
    Sh1106.next^[j] (row, col) = (row, col + j) := by
  induction j with
  | zero => rfl
  | succ j ih =>
      rw [Function.iterate_succ_apply', ih (by omega), Sh1106.next]
      dsimp only
      rw [Nat.mod_eq_of_lt (by omega), Nat.add_assoc]

/-- A span's bytes behind a cursor that passes its columns in order, `shift` cells further. -/
theorem storeAll_span {mem : Mem (ℕ × ℕ) UInt8} {next : ℕ × ℕ → ℕ × ℕ} {span : Span}
    (h : span.Fits g) (shift : ℕ)
    (hpos : ∀ j < (p.spanBytes span).length,
      next^[j] mem.cursor = (span.1, span.2.1 + shift + j)) (page col : ℕ) :
    (mem.storeAll next (p.spanBytes span)).cells (page, col + shift) =
      if page = span.1 ∧ span.2.1 ≤ col ∧ col ≤ span.2.2 then p.byte page col
      else mem.cells (page, col + shift) := by
  have hlen := length_spanBytes (p := p) h
  have hstart := h.start
  by_cases hin : page = span.1 ∧ span.2.1 ≤ col ∧ col ≤ span.2.2
  · obtain ⟨rfl, hle, hge⟩ := hin
    have hj : col - span.2.1 < (p.spanBytes span).length := by omega
    have hget := Mem.storeAll_row_get hpos hj
    rw [spanBytes_get hj, show span.2.1 + (col - span.2.1) = col by omega,
      show span.2.1 + shift + (col - span.2.1) = col + shift by omega] at hget
    rw [if_pos ⟨rfl, hle, hge⟩, hget]
  · rw [if_neg hin]
    refine Mem.storeAll_row_keep hpos fun hcell => hin ?_
    obtain ⟨hpage, hle, hlt⟩ := hcell
    exact ⟨hpage, by omega, by omega⟩

/-- A span on an SSD1306: a window of one row. -/
theorem span_ssd1306 {s : Ssd1306} (hctl : p.controller = .ssd1306) (hmode : s.horizontal = true)
    {span : Span} (h : span.Fits g) (page col : ℕ) :
    (((Chip.ssd1306 s).command (p.select span)).data (p.spanBytes span)).visible page col =
      if page = span.1 ∧ span.2.1 ≤ col ∧ col ≤ span.2.2 then p.byte page col
      else (Chip.ssd1306 s).visible page col := by
  have hlen := length_spanBytes (p := p) h
  have hpages := g.pages_le
  have hwidth := g.width_le
  have hrow := h.page
  have hstart := h.start
  have hstop := h.stop
  have hexec : s.exec (p.select span) =
      { mem := { s.mem with cursor := (span.1, span.2.1) }, columns := (span.2.1, span.2.2),
        pages := (span.1, span.1), horizontal := s.horizontal } := by
    rw [Panel.select, hctl]
    dsimp only
    exact exec_window s (by omega) (by omega) (by omega) (by omega)
  rw [Chip.command, hexec, Chip.data, Chip.visible]
  apply storeAll_span h 0
  intro j hj
  rw [Ssd1306.next, if_pos hmode]
  dsimp only
  have hraster : (raster span.1 span.1 span.2.1 span.2.2)^[j] (span.1, span.2.1) =
      (span.1 + j / (span.2.2 - span.2.1 + 1), span.2.1 + j % (span.2.2 - span.2.1 + 1)) :=
    iterate_raster (h := 1) (by omega) (by omega) (by omega) (by omega)
  rw [hraster, Nat.div_eq_of_lt (by omega), Nat.mod_eq_of_lt (by omega)]
  rfl

/-- A span on an SH1106: its page and its column, and two columns further the bytes. -/
theorem span_sh1106 {s : Sh1106} (hctl : p.controller = .sh1106) {span : Span}
    (h : span.Fits g) (page col : ℕ) :
    (((Chip.sh1106 s).command (p.select span)).data (p.spanBytes span)).visible page col =
      if page = span.1 ∧ span.2.1 ≤ col ∧ col ≤ span.2.2 then p.byte page col
      else (Chip.sh1106 s).visible page col := by
  have hlen := length_spanBytes (p := p) h
  have hpages := g.pages_le
  have hwidth := g.width_le
  have hrow := h.page
  have hstart := h.start
  have hstop := h.stop
  have hoffset : sh1106ColOffset = 2 := rfl
  have hexec : s.exec (p.select span) =
      { mem := { s.mem with cursor := (span.1, span.2.1 + sh1106ColOffset) } } := by
    rw [Panel.select, hctl]
    dsimp only
    exact exec_select s (by omega) (by omega)
  rw [Chip.command, hexec, Chip.data, Chip.visible]
  apply storeAll_span h sh1106ColOffset
  intro j hj
  exact Sh1106.iterate_next (by omega)

/-- **One span** that gets through to the controller that is fitted: its bytes are on the glass,
and every other column is as it was. -/
theorem span_shows (hkind : chip.kind = p.controller) (hready : chip.Ready) {span : Span}
    (h : span.Fits g) (page col : ℕ) :
    ((chip.command (p.select span)).data (p.spanBytes span)).visible page col =
      if page = span.1 ∧ span.2.1 ≤ col ∧ col ≤ span.2.2 then p.byte page col
      else chip.visible page col := by
  cases chip with
  | ssd1306 s => exact span_ssd1306 hkind.symm hready h page col
  | sh1106 s => exact span_sh1106 hkind.symm h page col

/-! ### A flush -/

/-- The span has a column of a page. -/
def Span.Covers (span : Span) (page col : ℕ) : Prop :=
  page = span.1 ∧ span.2.1 ≤ col ∧ col ≤ span.2.2

instance Span.decidableCovers (span : Span) (page col : ℕ) : Decidable (span.Covers page col) :=
  inferInstanceAs (Decidable (_ ∧ _))

/-- **Span after span.** -/
theorem flushSpans_shows (hkind : chip.kind = p.controller) (hready : chip.Ready)
    {spans : List Span} (hfits : ∀ span ∈ spans, span.Fits g) {f : ℕ → SpanFaults}
    (hthrough : ∀ n < spans.length, (f n).Through) (page col : ℕ) :
    (p.flushSpans spans f chip).2.visible page col =
      if ∃ span ∈ spans, span.Covers page col then p.byte page col
      else chip.visible page col := by
  induction spans generalizing f chip with
  | nil => simp [Panel.flushSpans]
  | cons span spans ih =>
      have hzero : (f 0).Through := hthrough 0 (Nat.succ_pos _)
      have hfit := hfits span List.mem_cons_self
      obtain ⟨hok, hchip⟩ := flushPageSpan_eq p chip span (f 0)
      have hkept := kept_flushPageSpan p chip hfit (f 0)
      have hrest := ih (hkept.kind.trans hkind) (hkept.ready hready)
        (fun s hs => hfits s (List.mem_cons_of_mem _ hs))
        (fun n hn => hthrough (n + 1) (Nat.succ_lt_succ hn))
      have hstep : p.flushSpans (span :: spans) f chip =
          p.flushSpans spans (fun n => f (n + 1)) (p.flushPageSpan chip span (f 0)).2 := by
        rw [Panel.flushSpans]
        simp [hok, hzero]
      have hone := span_shows hkind hready hfit page col
      rw [← hchip hzero] at hone
      rw [hstep, hrest, hone]
      by_cases hlater : ∃ s ∈ spans, Span.Covers s page col
      · rw [if_pos hlater, if_pos]
        obtain ⟨s, hs, hcovers⟩ := hlater
        exact ⟨s, List.mem_cons_of_mem _ hs, hcovers⟩
      · rw [if_neg hlater]
        have hiff : (∃ s ∈ span :: spans, Span.Covers s page col) ↔
            page = span.1 ∧ span.2.1 ≤ col ∧ col ≤ span.2.2 := by
          constructor
          · intro hspan
            obtain ⟨s, hs, hcovers⟩ := hspan
            rcases List.mem_cons.1 hs with rfl | hs
            · exact hcovers
            · exact absurd ⟨s, hs, hcovers⟩ hlater
          · exact fun hcovers => ⟨span, List.mem_cons_self, hcovers⟩
        simp only [hiff]

/-- Every write of a whole flush gets through. -/
def Panel.FlushThrough (p : Panel g) (f : ℕ → SpanFaults) : Prop :=
  match p.controller with
  | .ssd1306 => (f 0).Through
  | .sh1106 => ∀ n < g.pages, (f n).Through

instance (p : Panel g) (f : ℕ → SpanFaults) : Decidable (p.FlushThrough f) := by
  unfold Panel.FlushThrough
  cases p.controller <;> infer_instance

/-- The window of the whole panel, and its bytes. -/
def Panel.wholeWindow (g : Geometry) : List UInt8 :=
  [0x21, 0, UInt8.ofNat (g.width - 1), 0x22, 0, UInt8.ofNat (g.pages - 1)]

/-- A bulk flush that gets through, and one that does not. -/
theorem flush_ssd1306 (hctl : p.controller = .ssd1306) (chip : Chip) (f : ℕ → SpanFaults) :
    (p.flush chip f).1 = decide (f 0).Through ∧
    ((f 0).Through → (p.flush chip f).2 =
      (chip.command (Panel.wholeWindow g)).data p.fb) := by
  unfold Panel.flush
  rw [hctl]
  exact commandsThenData_eq chip (Panel.wholeWindow g) p.fb (f 0)

theorem flush_ok (p : Panel g) (chip : Chip) (f : ℕ → SpanFaults) :
    (p.flush chip f).1 = true ↔ p.FlushThrough f := by
  cases hctl : p.controller with
  | ssd1306 =>
      rw [(flush_ssd1306 hctl chip f).1, Panel.FlushThrough, hctl]
      exact decide_eq_true_iff
  | sh1106 =>
      have hspans := flushSpans_through p ((List.range g.pages).map fun page =>
        (page, 0, g.width - 1)) f chip
      rw [List.length_map, List.length_range] at hspans
      rw [Panel.flush, Panel.FlushThrough, hctl]
      dsimp only
      rw [hspans]
      exact decide_eq_true_iff

theorem Geometry.pages_pos (g : Geometry) : 0 < g.pages := by
  unfold Geometry.pages
  rcases g.height_ok with h | h <;> omega

/-- The whole window on an SSD1306: row by row, every byte of the framebuffer. -/
theorem window_shows {s : Ssd1306} (hmode : s.horizontal = true) :
    Shows (((Chip.ssd1306 s).command (Panel.wholeWindow g)).data p.fb) p := by
  intro page hpage col hcol
  have hwidth := g.width_pos
  have hwidth_le := g.width_le
  have hpages := g.pages_pos
  have hpages_le := g.pages_le
  have hexec : s.exec (Panel.wholeWindow g) =
      { mem := { s.mem with cursor := (0, 0) }, columns := (0, g.width - 1),
        pages := (0, g.pages - 1), horizontal := s.horizontal } :=
    exec_window s (by decide : 0 < 256) (by omega) (by decide : 0 < 256) (by omega)
  have hnext : (Ssd1306.next
      { mem := { s.mem with cursor := (0, 0) }, columns := (0, g.width - 1),
        pages := (0, g.pages - 1), horizontal := s.horizontal }) =
      raster 0 (g.pages - 1) 0 (g.width - 1) := if_pos hmode
  rw [Chip.command, hexec, Chip.data, Chip.visible, hnext]
  have hlen : p.fb.length = g.width * g.pages := p.fb_length
  -- the cursor passes the columns in the order of the framebuffer, and none twice
  have hpos (j : ℕ) (hj : j < p.fb.length) :
      (raster 0 (g.pages - 1) 0 (g.width - 1))^[j] (0, 0) = (j / g.width, j % g.width) := by
    have hraster := iterate_raster (by omega : 0 + g.width = g.width - 1 + 1)
      (by omega : 0 + g.pages = g.pages - 1 + 1) hwidth (hlen ▸ hj)
    rwa [Nat.zero_add, Nat.zero_add] at hraster
  have honce (i j : ℕ) (hi : i < p.fb.length) (hj : j < p.fb.length)
      (heq : (raster 0 (g.pages - 1) 0 (g.width - 1))^[i] (0, 0) =
        (raster 0 (g.pages - 1) 0 (g.width - 1))^[j] (0, 0)) : i = j := by
    rw [hpos i hi, hpos j hj] at heq
    obtain ⟨hdiv, hmod⟩ := Prod.mk.inj heq
    rw [← Nat.div_add_mod i g.width, ← Nat.div_add_mod j g.width, hdiv, hmod]
  have hoff : page * g.width + col < p.fb.length := by
    rw [p.fb_length]
    exact offset_lt hpage hcol
  have hcell : (raster 0 (g.pages - 1) 0 (g.width - 1))^[page * g.width + col] (0, 0) =
      (page, col) := by
    rw [hpos _ hoff, Nat.mul_comm page, Nat.mul_add_div hwidth, Nat.div_eq_of_lt hcol,
      Nat.mul_add_mod, Nat.mod_eq_of_lt hcol, Nat.add_zero]
  have hget := Mem.storeAll_get (m := { s.mem with cursor := (0, 0) }) honce hoff
  rw [hcell] at hget
  rw [hget, Panel.byte, List.getD_eq_getElem?_getD, List.getElem?_eq_getElem hoff,
    Option.getD_some]

/-- **A whole flush** that gets through to the controller that is fitted shows the
framebuffer, whatever was on the glass. -/
theorem flush_shows (hkind : chip.kind = p.controller) (hready : chip.Ready)
    {f : ℕ → SpanFaults} (h : p.FlushThrough f) : Shows (p.flush chip f).2 p := by
  cases chip with
  | ssd1306 s =>
      have hctl : p.controller = .ssd1306 := hkind.symm
      have hzero : (f 0).Through := by
        rw [Panel.FlushThrough, hctl] at h
        exact h
      rw [(flush_ssd1306 hctl _ f).2 hzero]
      exact window_shows hready
  | sh1106 s =>
      have hctl : p.controller = .sh1106 := hkind.symm
      have hwidth := g.width_pos
      have hthrough : ∀ n < ((List.range g.pages).map fun page => (page, 0, g.width - 1)).length,
          (f n).Through := by
        rw [Panel.FlushThrough, hctl] at h
        simpa using h
      intro page hpage col hcol
      rw [Panel.flush, hctl]
      dsimp only
      rw [flushSpans_shows hkind hready fits_rows hthrough, if_pos]
      exact ⟨(page, 0, g.width - 1), List.mem_map.2 ⟨page, List.mem_range.2 hpage, rfl⟩, rfl,
        Nat.zero_le col, by dsimp only; omega⟩

/-! ### The probe -/

/-- A try of the magic frame that stores both of its bytes. -/
def Outcome.Both : Outcome → Prop
  | .acked => True
  | .failed stored => 2 ≤ stored

instance : DecidablePred Outcome.Both
  | .acked => inferInstanceAs (Decidable True)
  | .failed stored => inferInstanceAs (Decidable (2 ≤ stored))

/-- The first try of the magic frame that stores anything stores both of its bytes. -/
def StoresWhole (outcome : ℕ → Outcome) : Prop :=
  ∃ i < cmdRetries + 1, (outcome i).Both ∧ ∀ j < i, outcome j = .failed 0

instance (outcome : ℕ → Outcome) : Decidable (StoresWhole outcome) :=
  inferInstanceAs (Decidable (∃ i < _, _ ∧ ∀ j < _, _))

/-- A probe that comes to an answer. -/
def ProbeFaults.Answered (f : ProbeFaults) : Prop :=
  Through f.setcol ∧ Through f.magic ∧ Through f.setcolBack ∧ f.read.isSome = true

instance (f : ProbeFaults) : Decidable f.Answered := inferInstanceAs (Decidable (_ ∧ _))

/-- The answer, if there is one, is right, and else the driver knows the controller already: an
SSD1306 does not answer the magic bytes by chance, and an SH1106 was sent them whole. -/
def ProbeFaults.Right (f : ProbeFaults) (fitted controller : Controller) : Prop :=
  (f.Answered → match fitted with
    | .ssd1306 => f.read ≠ some Oled.magic
    | .sh1106 => StoresWhole f.magic) ∧
  (¬ f.Answered → controller = fitted)

instance (f : ProbeFaults) (fitted controller : Controller) :
    Decidable (f.Right fitted controller) := by
  unfold ProbeFaults.Right
  cases fitted <;> infer_instance

/-- The magic bytes are where the probe reads. -/
def Sh1106.HasMagic (s : Sh1106) : Prop :=
  s.mem.cells (0, 2) = magic.1 ∧ s.mem.cells (0, 3) = magic.2

/-- The magic frame at a column, or the part of it that was stored. -/
def Sh1106.storeMagic (s : Sh1106) (stored : ℕ) : Sh1106 :=
  { mem := s.mem.storeAll Sh1106.next ([magic.1, magic.2].take stored) }

theorem storeMagic_cells {s : Sh1106} {col : ℕ} (hcur : s.mem.cursor = (0, col))
    (hcol : col + 2 < 132) :
    (∀ stored k, (k ≠ (0, col) ∧ k ≠ (0, col + 1)) →
      (s.storeMagic stored).mem.cells k = s.mem.cells k) ∧
    (s.storeMagic 0).mem = s.mem ∧
    (∀ stored, ∃ n ≤ 2, (s.storeMagic stored).mem.cursor = (0, col + n)) ∧
    ∀ stored, 2 ≤ stored → (s.storeMagic stored).mem.cells (0, col) = magic.1 ∧
      (s.storeMagic stored).mem.cells (0, col + 1) = magic.2 ∧
      (s.storeMagic stored).mem.cursor = (0, col + 2) := by
  have hlen (stored : ℕ) : ([magic.1, magic.2].take stored).length = min stored 2 :=
    List.length_take
  have hpos : ∀ j ≤ 2, Sh1106.next^[j] s.mem.cursor = (0, col + j) := by
    intro j hj
    rw [hcur]
    exact Sh1106.iterate_next (by omega)
  have hcursor (stored : ℕ) :
      (s.storeMagic stored).mem.cursor = (0, col + min stored 2) := by
    rw [Sh1106.storeMagic, Mem.storeAll_cursor, hlen]
    exact hpos _ (Nat.min_le_right _ _)
  refine ⟨fun stored k hk => ?_, rfl,
    fun stored => ⟨min stored 2, Nat.min_le_right _ _, hcursor stored⟩,
    fun stored hstored => ?_⟩
  · apply Mem.storeAll_keep
    intro j hj heq
    rw [hlen] at hj
    rw [hpos j (by omega)] at heq
    subst heq
    rcases (by omega : j = 0 ∨ j = 1) with rfl | rfl
    · exact hk.1 rfl
    · exact hk.2 rfl
  · have hwhole : [magic.1, magic.2].take stored = [magic.1, magic.2] :=
      List.take_of_length_le hstored
    have hrow : ∀ j < [magic.1, magic.2].length, Sh1106.next^[j] s.mem.cursor = (0, col + j) :=
      fun j hj => hpos j (Nat.le_of_lt hj)
    have hmin : min stored 2 = 2 := by omega
    refine ⟨?_, ?_, by rw [hcursor, hmin]⟩
    · rw [Sh1106.storeMagic, hwhole]
      exact Mem.storeAll_row_get hrow (by decide : 0 < [magic.1, magic.2].length)
    · rw [Sh1106.storeMagic, hwhole]
      exact Mem.storeAll_row_get hrow (by decide : 1 < [magic.1, magic.2].length)

/-- Any try of the magic frame stores some of it. -/
theorem writeOnce_magic (s : Sh1106) (o : Outcome) :
    ∃ stored,
      (writeOnce (.sh1106 s) (.data [magic.1, magic.2]) o).2 = .sh1106 (s.storeMagic stored) ∧
      (o = .failed 0 → stored = 0) ∧ (o.Both → 2 ≤ stored) := by
  cases o with
  | acked => exact ⟨2, rfl, by simp, fun _ => le_rfl⟩
  | failed stored => exact ⟨stored, rfl, fun h => by simpa using h, id⟩

/-- Once they are stored, the tries that follow go on behind them. -/
theorem magic_stays (outcome : ℕ → Outcome) (left attempt : ℕ) {s : Sh1106} {col : ℕ}
    (hcur : s.mem.cursor = (0, col)) (hlow : 4 ≤ col) (hroom : col + 2 * left < 132)
    (h : s.HasMagic) :
    ∃ s', (tryFrame (.data [magic.1, magic.2]) outcome left attempt (.sh1106 s)).2 = .sh1106 s' ∧
      s'.HasMagic := by
  induction left generalizing attempt s col with
  | zero => exact ⟨s, rfl, h⟩
  | succ left ih =>
      obtain ⟨stored, hwrite, -⟩ := writeOnce_magic s (outcome attempt)
      obtain ⟨hkeep, -, hcursor, -⟩ := storeMagic_cells hcur (by omega)
      have hmagic : (s.storeMagic stored).HasMagic := by
        constructor
        · rw [hkeep stored (0, 2) ⟨by simp; omega, by simp; omega⟩]
          exact h.1
        · rw [hkeep stored (0, 3) ⟨by simp; omega, by simp; omega⟩]
          exact h.2
      obtain ⟨n, hn, hcur'⟩ := hcursor stored
      rw [tryFrame]
      split
      · exact ⟨_, hwrite, hmagic⟩
      · rw [hwrite]
        exact ih (attempt + 1) hcur' (by omega) (by omega) hmagic

/-- **The magic bytes** are in place when the first try that stores any stores both. -/
theorem magic_stored (outcome : ℕ → Outcome) (left attempt : ℕ) {s : Sh1106}
    (hcur : s.mem.cursor = (0, 2)) (hroom : left ≤ 5)
    (h : ∃ i < left, (outcome (attempt + i)).Both ∧
      ∀ j < i, outcome (attempt + j) = .failed 0) :
    ∃ s', (tryFrame (.data [magic.1, magic.2]) outcome left attempt (.sh1106 s)).2 = .sh1106 s' ∧
      s'.HasMagic := by
  induction left generalizing attempt s with
  | zero =>
      obtain ⟨i, hi, -⟩ := h
      omega
  | succ left ih =>
      obtain ⟨i, hi, hwhole, hbefore⟩ := h
      obtain ⟨stored, hwrite, hnone, hboth⟩ := writeOnce_magic s (outcome attempt)
      obtain ⟨-, hsame, -, hcells⟩ := storeMagic_cells hcur (by decide)
      rw [tryFrame]
      cases i with
      | zero =>
          obtain ⟨hfirst, hsecond, hcur'⟩ := hcells stored (hboth hwhole)
          have hmagic : (s.storeMagic stored).HasMagic := ⟨hfirst, hsecond⟩
          split
          · exact ⟨_, hwrite, hmagic⟩
          · rw [hwrite]
            exact magic_stays outcome left (attempt + 1) hcur' le_rfl (by omega) hmagic
      | succ i =>
          have hzero : outcome attempt = .failed 0 := hbefore 0 (Nat.succ_pos i)
          obtain rfl := hnone hzero
          have hfail : (writeOnce (.sh1106 s) (.data [magic.1, magic.2]) (outcome attempt)).1 =
              false := by
            rw [writeOnce_ok, hzero]
            rfl
          have hshift (j : ℕ) : attempt + 1 + j = attempt + (j + 1) := by omega
          rw [hfail, if_neg Bool.false_ne_true, hwrite]
          refine ih (attempt + 1) (by rw [hsame]; exact hcur) (by omega) ⟨i, by omega, ?_, ?_⟩
          · rw [hshift]
            exact hwhole
          · intro j hj
            rw [hshift]
            exact hbefore (j + 1) (Nat.succ_lt_succ hj)

theorem exec_setcol (s : Sh1106) : s.exec setcol = { mem := { s.mem with cursor := (0, 2) } } :=
  exec_select s (by decide : 0 < 8) (by decide : 2 < 130)

/-- The chip once the magic bytes were sent and the cursor put back on them. -/
def Chip.probed (chip : Chip) (outcome : ℕ → Outcome) : Chip :=
  (writeCmdFrame (chip.command setcol) (.data [Oled.magic.1, Oled.magic.2]) outcome).2.command
    setcol

theorem detectController_answered (chip : Chip) {f : ProbeFaults} (h : f.Answered)
    {other : UInt8 × UInt8} (hread : f.read = some other) :
    (detectController chip f).1 =
      some (some (if (chip.probed f.magic).readBack other = magic then .sh1106 else .ssd1306)) := by
  obtain ⟨hsetcol, hmagic, hback, -⟩ := h
  unfold detectController Chip.probed
  simp only [writeCmdFrame_commands, writeCmdFrame_ok, hsetcol, hmagic, hback, hread, if_true,
    decide_true, Bool.not_true, Bool.false_eq_true, if_false]

/-- A probe without an answer names no controller. -/
theorem detectController_unanswered (chip : Chip) {f : ProbeFaults} (h : ¬ f.Answered) :
    (detectController chip f).1 = none ∨ (detectController chip f).1 = some none := by
  unfold detectController
  simp only [writeCmdFrame_commands, writeCmdFrame_ok]
  by_cases hsetcol : Through f.setcol
  · by_cases hmagic : Through f.magic
    · by_cases hback : Through f.setcolBack
      · have hread : f.read = none := by
          rw [← Option.not_isSome_iff_eq_none]
          exact fun hsome => h ⟨hsetcol, hmagic, hback, hsome⟩
        right
        simp [hsetcol, hmagic, hback, hread]
      · left
        simp [hsetcol, hmagic, hback]
    · left
      simp [hsetcol, hmagic]
  · left
    simp [hsetcol]

/-- An SSD1306 answers what it answers. -/
theorem readBack_ssd1306 (h : chip.kind = .ssd1306) (other : UInt8 × UInt8) :
    chip.readBack other = other := by
  cases chip with
  | ssd1306 s => rfl
  | sh1106 s => cases h

/-- An SH1106 that stored the magic bytes whole gives them back. -/
theorem probed_sh1106 (s : Sh1106) {outcome : ℕ → Outcome} (h : StoresWhole outcome)
    (other : UInt8 × UInt8) : ((Chip.sh1106 s).probed outcome).readBack other = magic := by
  have hcur : (s.exec setcol).mem.cursor = (0, 2) := by rw [exec_setcol]
  obtain ⟨s', hs', hfirst, hsecond⟩ := magic_stored outcome (cmdRetries + 1) 0 hcur le_rfl (by
    simpa [StoresWhole] using h)
  have hback : (Chip.sh1106 s).probed outcome = .sh1106 (s'.exec setcol) := by
    rw [Chip.probed, writeCmdFrame, Chip.command, hs']
    rfl
  rw [hback, exec_setcol]
  exact Prod.ext hfirst hsecond

/-- **A probe that is right** leaves the driver with the controller that is fitted. -/
theorem redetect_right {f : ProbeFaults} (h : f.Right chip.kind p.controller) :
    (p.redetect chip f).1.controller = chip.kind := by
  obtain ⟨hanswer, hknown⟩ := h
  by_cases hyes : f.Answered
  · have hright := hanswer hyes
    obtain ⟨other, hread⟩ := Option.isSome_iff_exists.1 hyes.2.2.2
    have hdetect := detectController_answered chip hyes hread
    have hkind : (chip.probed f.magic).kind = chip.kind := by
      have hsetcol (c : Chip) : Kept c (c.command setcol) := kept_command (by decide) c
      exact (((hsetcol chip).trans (kept_writeCmdFrame (.data _) trivial _ _)).trans
        (hsetcol _)).kind
    have hcontroller : (if (chip.probed f.magic).readBack other = magic then Controller.sh1106
        else .ssd1306) = chip.kind := by
      cases chip with
      | ssd1306 s =>
          rw [readBack_ssd1306 hkind, if_neg fun heq => hright (by rw [hread, heq])]
          rfl
      | sh1106 s =>
          rw [probed_sh1106 s hright, if_pos rfl]
          rfl
    rw [hcontroller] at hdetect
    unfold Panel.redetect
    generalize detectController chip f = r at hdetect ⊢
    obtain ⟨answer, chip'⟩ := r
    obtain rfl : answer = some (some chip.kind) := hdetect
    rfl
  · have hdetect := detectController_unanswered chip hyes
    have hcontroller := hknown hyes
    unfold Panel.redetect
    generalize detectController chip f = r at hdetect ⊢
    obtain ⟨answer, chip'⟩ := r
    rcases hdetect with hnone | hnone
    · obtain rfl : answer = none := hnone
      exact hcontroller
    · obtain rfl : answer = some none := hnone
      exact hcontroller

end BadgeOS.Oled
