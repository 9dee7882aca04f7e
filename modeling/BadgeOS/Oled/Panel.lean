import BadgeOS.Lib.Cursor
import Mathlib

/-!
# The panel on its bus

`oled.zig`: a framebuffer goes to the display memory of an SSD1306 or an SH1106 in I2C writes.
A write carries commands or data, and any of them may fail: a command frame that is not
acknowledged is not latched, and of a data frame any first bytes may have been stored.

* `Ssd1306`, `Sh1106`, `Chip` — the memories, as the commands sent here move them;
* `Panel` and its functions — the driver, with what becomes of every write;
* `Through` — a frame that is acknowledged in one of its tries, and what it takes for a span;
* `Kept` — no write changes the chip's kind, or takes it out of the horizontal mode.
-/

namespace BadgeOS.Oled

open Cursor

/-- Which controller drives the panel. -/
inductive Controller
  | ssd1306
  | sh1106
  deriving DecidableEq, Repr

/-! ### The chips -/

/-- 128 columns of memory, by page and column, and the window that the cursor walks in the
horizontal mode. -/
structure Ssd1306 where
  mem : Mem (ℕ × ℕ) UInt8
  columns : ℕ × ℕ
  pages : ℕ × ℕ
  horizontal : Bool

/-- How many argument bytes a command has. -/
def ssd1306Arity (op : UInt8) : ℕ :=
  if op = 0x21 ∨ op = 0x22 then 2
  else if op ∈ [0x20, 0x81, 0x8d, 0xa8, 0xd3, 0xd5, 0xd9, 0xda, 0xdb] then 1
  else 0

/-- `0x21` and `0x22` set one side of the window, and the cursor to its start. -/
def Ssd1306.window (s : Ssd1306) (op a b : UInt8) : Ssd1306 :=
  if op = 0x21 then
    { s with columns := (a.toNat, b.toNat),
             mem := { s.mem with cursor := (s.mem.cursor.1, a.toNat) } }
  else
    { s with pages := (a.toNat, b.toNat),
             mem := { s.mem with cursor := (a.toNat, s.mem.cursor.2) } }

/-- A command list.  The page mode's own commands do nothing in the horizontal mode. -/
def Ssd1306.exec : List UInt8 → Ssd1306 → Ssd1306
  | [], s => s
  | op :: args, s =>
      match ssd1306Arity op, args with
      | 0, args => Ssd1306.exec args s
      | 1, a :: args => Ssd1306.exec args (if op = 0x20 then { s with horizontal := a == 0 } else s)
      | 2, a :: b :: args => Ssd1306.exec args (s.window op a b)
      | _, _ => s

/-- The cell after this one. -/
def Ssd1306.next (s : Ssd1306) : ℕ × ℕ → ℕ × ℕ :=
  if s.horizontal then raster s.pages.1 s.pages.2 s.columns.1 s.columns.2
  else fun k => (k.1, (k.2 + 1) % 128)

/-- 132 columns of memory, walked along one page. -/
structure Sh1106 where
  mem : Mem (ℕ × ℕ) UInt8

def sh1106Arity (op : UInt8) : ℕ :=
  if op ∈ [0x81, 0xa8, 0xad, 0xd3, 0xd5, 0xd9, 0xda, 0xdb] then 1 else 0

/-- `0xb0` picks the page, `0x00` and `0x10` the low and the high digit of the column. -/
def Sh1106.select (s : Sh1106) (op : UInt8) : Sh1106 :=
  let page := s.mem.cursor.1
  let col := s.mem.cursor.2
  let digit := (op &&& 0x0f).toNat
  if op &&& 0xf0 = 0xb0 then { mem := { s.mem with cursor := (digit, col) } }
  else if op &&& 0xf0 = 0x00 then { mem := { s.mem with cursor := (page, col / 16 * 16 + digit) } }
  else if op &&& 0xf0 = 0x10 then { mem := { s.mem with cursor := (page, digit * 16 + col % 16) } }
  else s

def Sh1106.exec : List UInt8 → Sh1106 → Sh1106
  | [], s => s
  | op :: args, s =>
      match sh1106Arity op, args with
      | 0, args => Sh1106.exec args (s.select op)
      | _, _ :: args => Sh1106.exec args s
      | _, [] => s

def Sh1106.next (k : ℕ × ℕ) : ℕ × ℕ := (k.1, (k.2 + 1) % 132)

/-- The chip behind the address. -/
inductive Chip
  | ssd1306 (s : Ssd1306)
  | sh1106 (s : Sh1106)

def Chip.kind : Chip → Controller
  | .ssd1306 _ => .ssd1306
  | .sh1106 _ => .sh1106

def Chip.command (cmds : List UInt8) : Chip → Chip
  | .ssd1306 s => .ssd1306 (s.exec cmds)
  | .sh1106 s => .sh1106 (s.exec cmds)

def Chip.data (bytes : List UInt8) : Chip → Chip
  | .ssd1306 s => .ssd1306 { s with mem := s.mem.storeAll s.next bytes }
  | .sh1106 s => .sh1106 { mem := s.mem.storeAll Sh1106.next bytes }

/-- The 128 visible columns of an SH1106 begin at column 2. -/
def sh1106ColOffset : ℕ := 2

/-- What the glass shows. -/
def Chip.visible : Chip → ℕ → ℕ → UInt8
  | .ssd1306 s, page, col => s.mem.cells (page, col)
  | .sh1106 s, page, col => s.mem.cells (page, col + sh1106ColOffset)

/-- The two bytes that a read at the cursor gives; an SSD1306's may be anything. -/
def Chip.readBack (other : UInt8 × UInt8) : Chip → UInt8 × UInt8
  | .ssd1306 _ => other
  | .sh1106 s => (s.mem.cells s.mem.cursor, s.mem.cells (Sh1106.next s.mem.cursor))

/-! ### The driver -/

/-- One I2C write, after its control byte. -/
inductive I2cFrame
  | commands (cmds : List UInt8)
  | data (bytes : List UInt8)

/-- What becomes of a write. -/
inductive Outcome
  | acked
  | failed (stored : ℕ)
  deriving DecidableEq, Repr

def writeOnce (chip : Chip) : I2cFrame → Outcome → Bool × Chip
  | .commands cmds, .acked => (true, chip.command cmds)
  | .data bytes, .acked => (true, chip.data bytes)
  | .commands _, .failed _ => (false, chip)
  | .data bytes, .failed stored => (false, chip.data (bytes.take stored))

def cmdRetries : ℕ := 4

/-- The tries of a frame from `attempt` on, with `left` to go. -/
def tryFrame (frame : I2cFrame) (outcome : ℕ → Outcome) : (left attempt : ℕ) → Chip → Bool × Chip
  | 0, _, chip => (false, chip)
  | left + 1, attempt, chip =>
      let r := writeOnce chip frame (outcome attempt)
      if r.1 then r else tryFrame frame outcome left (attempt + 1) r.2

/-- A frame, sent again while it is not acknowledged. -/
def writeCmdFrame (chip : Chip) (frame : I2cFrame) (outcome : ℕ → Outcome) : Bool × Chip :=
  tryFrame frame outcome (cmdRetries + 1) 0 chip

/-- A panel's size, as it opens. -/
structure Geometry where
  width : ℕ
  height : ℕ
  width_pos : 0 < width
  width_le : width ≤ 128
  height_ok : height = 32 ∨ height = 64

def Geometry.pages (g : Geometry) : ℕ := g.height / 8

def Geometry.fbLen (g : Geometry) : ℕ := g.width * g.pages

/-- The driver's side of a panel: the controller it takes it for, and the framebuffer. -/
structure Panel (g : Geometry) where
  controller : Controller
  fb : List UInt8
  fb_length : fb.length = g.fbLen

/-- What becomes of the writes of a span: the tries of its address frame, and its data. -/
structure SpanFaults where
  select : ℕ → Outcome
  data : Outcome

/-- What becomes of a probe; `read` is none when the read fails, and else what an SSD1306
answers. -/
structure ProbeFaults where
  setcol : ℕ → Outcome
  magic : ℕ → Outcome
  setcolBack : ℕ → Outcome
  read : Option (UInt8 × UInt8)

/-- A page and its first and last column. -/
abbrev Span := ℕ × ℕ × ℕ

variable {g : Geometry}

/-- The address frame of a span. -/
def Panel.select (p : Panel g) (span : Span) : List UInt8 :=
  match p.controller with
  | .ssd1306 =>
      [0x21, UInt8.ofNat span.2.1, UInt8.ofNat span.2.2,
        0x22, UInt8.ofNat span.1, UInt8.ofNat span.1]
  | .sh1106 =>
      let col := UInt8.ofNat (span.2.1 + sh1106ColOffset)
      [(0xb0 : UInt8) ||| UInt8.ofNat span.1, (0x00 : UInt8) ||| (col &&& 0x0f),
        (0x10 : UInt8) ||| (col >>> 4)]

/-- The bytes of a span. -/
def Panel.spanBytes (p : Panel g) (span : Span) : List UInt8 :=
  (p.fb.drop (span.1 * g.width + span.2.1)).take (span.2.2 - span.2.1 + 1)

/-- Flush one page's inclusive column span. -/
def Panel.flushPageSpan (p : Panel g) (chip : Chip) (span : Span) (f : SpanFaults) : Bool × Chip :=
  let r := writeCmdFrame chip (.commands (p.select span)) f.select
  if !r.1 then r else writeOnce r.2 (.data (p.spanBytes span)) f.data

/-- Span after span, until one fails. -/
def Panel.flushSpans (p : Panel g) : List Span → (ℕ → SpanFaults) → Chip → Bool × Chip
  | [], _, chip => (true, chip)
  | span :: spans, f, chip =>
      let r := p.flushPageSpan chip span (f 0)
      if !r.1 then r else p.flushSpans spans (fun n => f (n + 1)) r.2

/-- Push the whole framebuffer: one window and one data frame, or page after page. -/
def Panel.flush (p : Panel g) (chip : Chip) (f : ℕ → SpanFaults) : Bool × Chip :=
  match p.controller with
  | .ssd1306 =>
      let r := writeCmdFrame chip (.commands [0x21, 0, UInt8.ofNat (g.width - 1),
        0x22, 0, UInt8.ofNat (g.pages - 1)]) (f 0).select
      if !r.1 then r else writeOnce r.2 (.data p.fb) (f 0).data
  | .sh1106 =>
      p.flushSpans ((List.range g.pages).map fun page => (page, 0, g.width - 1)) f chip

/-- The power-on sequence. -/
def initSeq (controller : Controller) (height : ℕ) : List UInt8 :=
  let mux := UInt8.ofNat (height - 1)
  let comPins : UInt8 := if height = 32 then 0x02 else 0x12
  match controller with
  | .sh1106 =>
      [0xae, 0xd5, 0x80, 0xa8, mux, 0xd3, 0x00, 0x40, 0xad, 0x8b, 0xa1, 0xc8, 0xda, comPins,
        0x81, 0x8f, 0xd9, 0x22, 0xdb, 0x35, 0xa4, 0xa6, 0xaf]
  | .ssd1306 =>
      [0xae, 0xd5, 0x80, 0xa8, mux, 0xd3, 0x00, 0x40, 0x8d, 0x14, 0x20, 0x00, 0xa1, 0xc8, 0xda,
        comPins, 0x81, 0x8f, 0xd9, 0xf1, 0xdb, 0x40, 0xa4, 0xa6, 0xaf]

/-- Command frames, until one fails; `outcome` is by frame and by try. -/
def sendChunks : List (List UInt8) → (outcome : ℕ → ℕ → Outcome) → Chip → Bool × Chip
  | [], _, chip => (true, chip)
  | cmds :: chunks, outcome, chip =>
      let r := writeCmdFrame chip (.commands cmds) (outcome 0)
      if !r.1 then r else sendChunks chunks (fun n => outcome (n + 1)) r.2

/-- `init`, in chunks of 8. -/
def Panel.init (p : Panel g) (chip : Chip) (outcome : ℕ → ℕ → Outcome) : Bool × Chip :=
  sendChunks ((initSeq p.controller g.height).toChunks 8) outcome chip

def magic : UInt8 × UInt8 := (0xa5, 0x5a)

/-- Page 0, column 2. -/
def setcol : List UInt8 := [0xb0, 0x02, 0x10]

/-- Probe which controller answers: none when the bus faults, and no controller when the read
does. -/
def detectController (chip : Chip) (f : ProbeFaults) : Option (Option Controller) × Chip :=
  let r1 := writeCmdFrame chip (.commands setcol) f.setcol
  if !r1.1 then (none, r1.2)
  else
    let r2 := writeCmdFrame r1.2 (.data [magic.1, magic.2]) f.magic
    if !r2.1 then (none, r2.2)
    else
      let r3 := writeCmdFrame r2.2 (.commands setcol) f.setcolBack
      if !r3.1 then (none, r3.2)
      else
        match f.read with
        | none => (some none, r3.2)
        | some other =>
            (some (some (if r3.2.readBack other = magic then .sh1106 else .ssd1306)), r3.2)

/-- Probe again: only a controller that answers changes the driver's mind. -/
def Panel.redetect (p : Panel g) (chip : Chip) (f : ProbeFaults) : Panel g × Chip :=
  match detectController chip f with
  | (some (some controller), chip) => ({ p with controller }, chip)
  | (_, chip) => (p, chip)

/-! ### Writes that get through -/

/-- One of the tries of a frame is acknowledged. -/
def Through (outcome : ℕ → Outcome) : Prop := ∃ i < cmdRetries + 1, outcome i = .acked

instance (outcome : ℕ → Outcome) : Decidable (Through outcome) :=
  inferInstanceAs (Decidable (∃ i < _, _))

/-- Both writes of a span get through. -/
def SpanFaults.Through (f : SpanFaults) : Prop := Oled.Through f.select ∧ f.data = .acked

instance (f : SpanFaults) : Decidable f.Through := inferInstanceAs (Decidable (_ ∧ _))

/-- The first of the tries that are left, or a later one. -/
theorem exists_try_succ (outcome : ℕ → Outcome) (left attempt : ℕ) :
    (∃ i < left + 1, outcome (attempt + i) = .acked) ↔
      outcome attempt = .acked ∨ ∃ i < left, outcome (attempt + 1 + i) = .acked := by
  have hshift (i : ℕ) : attempt + 1 + i = attempt + (i + 1) := by omega
  constructor
  · intro htry
    obtain ⟨i, hi, hacked⟩ := htry
    cases i with
    | zero => exact .inl hacked
    | succ i => exact .inr ⟨i, by omega, by rw [hshift]; exact hacked⟩
  · intro htry
    rcases htry with hacked | ⟨i, hi, hacked⟩
    · exact ⟨0, Nat.succ_pos left, hacked⟩
    · exact ⟨i + 1, by omega, by rw [← hshift]; exact hacked⟩

theorem writeOnce_ok (chip : Chip) (frame : I2cFrame) (o : Outcome) :
    (writeOnce chip frame o).1 = decide (o = .acked) := by
  cases frame <;> cases o <;> rfl

theorem tryFrame_ok (frame : I2cFrame) (outcome : ℕ → Outcome) (left attempt : ℕ) (chip : Chip) :
    (tryFrame frame outcome left attempt chip).1 =
      decide (∃ i < left, outcome (attempt + i) = .acked) := by
  induction left generalizing attempt chip with
  | zero => simp [tryFrame]
  | succ left ih =>
      have hone := writeOnce_ok chip frame (outcome attempt)
      simp only [exists_try_succ]
      rw [tryFrame]
      by_cases hacked : outcome attempt = .acked
      · rw [decide_eq_true hacked] at hone
        rw [if_pos hone, hone]
        simp [hacked]
      · rw [decide_eq_false hacked] at hone
        rw [hone, if_neg Bool.false_ne_true, ih]
        simp [hacked]

theorem tryFrame_commands (cmds : List UInt8) (outcome : ℕ → Outcome) (left attempt : ℕ)
    (chip : Chip) :
    tryFrame (.commands cmds) outcome left attempt chip =
      if ∃ i < left, outcome (attempt + i) = .acked then (true, chip.command cmds)
      else (false, chip) := by
  induction left generalizing attempt with
  | zero => simp [tryFrame]
  | succ left ih =>
      simp only [exists_try_succ]
      rw [tryFrame]
      cases hout : outcome attempt with
      | acked => simp [writeOnce]
      | failed stored => simp [writeOnce, ih]

/-- A frame is acknowledged when one of its tries is. -/
theorem writeCmdFrame_ok (chip : Chip) (frame : I2cFrame) (outcome : ℕ → Outcome) :
    (writeCmdFrame chip frame outcome).1 = decide (Through outcome) := by
  rw [writeCmdFrame, tryFrame_ok]
  simp only [Nat.zero_add]
  rfl

/-- A command frame is latched once it is acknowledged, and not before. -/
theorem writeCmdFrame_commands (chip : Chip) (cmds : List UInt8) (outcome : ℕ → Outcome) :
    writeCmdFrame chip (.commands cmds) outcome =
      if Through outcome then (true, chip.command cmds) else (false, chip) := by
  rw [writeCmdFrame, tryFrame_commands]
  simp only [Nat.zero_add]
  rfl

/-- A command frame, and behind it a data frame, which is not sent again. -/
def commandsThenData (chip : Chip) (cmds bytes : List UInt8) (f : SpanFaults) : Bool × Chip :=
  let r := writeCmdFrame chip (.commands cmds) f.select
  if !r.1 then r else writeOnce r.2 (.data bytes) f.data

/-- The two frames get through together, or not. -/
theorem commandsThenData_eq (chip : Chip) (cmds bytes : List UInt8) (f : SpanFaults) :
    (commandsThenData chip cmds bytes f).1 = decide f.Through ∧
    (f.Through → (commandsThenData chip cmds bytes f).2 = (chip.command cmds).data bytes) := by
  obtain ⟨select, data⟩ := f
  unfold commandsThenData SpanFaults.Through
  rw [writeCmdFrame_commands]
  by_cases hselect : Through select
  · cases data with
    | acked => simp [hselect, writeOnce]
    | failed stored => simp [hselect, writeOnce]
  · simp [hselect]

/-- A span that gets through, and one that does not. -/
theorem flushPageSpan_eq (p : Panel g) (chip : Chip) (span : Span) (f : SpanFaults) :
    (p.flushPageSpan chip span f).1 = decide f.Through ∧
    (f.Through → (p.flushPageSpan chip span f).2 =
      (chip.command (p.select span)).data (p.spanBytes span)) :=
  commandsThenData_eq chip (p.select span) (p.spanBytes span) f

theorem flushSpans_through (p : Panel g) (spans : List Span) (f : ℕ → SpanFaults) (chip : Chip) :
    (p.flushSpans spans f chip).1 = decide (∀ n < spans.length, (f n).Through) := by
  induction spans generalizing f chip with
  | nil => simp [Panel.flushSpans]
  | cons span spans ih =>
      have hone := (flushPageSpan_eq p chip span (f 0)).1
      have hsplit : (∀ n < (span :: spans).length, (f n).Through) ↔
          (f 0).Through ∧ ∀ n < spans.length, (f (n + 1)).Through := by
        constructor
        · intro h
          exact ⟨h 0 (Nat.succ_pos _), fun n hn => h (n + 1) (Nat.succ_lt_succ hn)⟩
        · intro hall n hn
          obtain ⟨hzero, hrest⟩ := hall
          cases n with
          | zero => exact hzero
          | succ n => exact hrest n (Nat.lt_of_succ_lt_succ hn)
      simp only [hsplit]
      rw [Panel.flushSpans]
      by_cases hthrough : (f 0).Through
      · simp only [hone, hthrough, decide_true, Bool.not_true, Bool.false_eq_true, if_false,
          true_and]
        exact ih (fun n => f (n + 1)) _
      · simp [hone, hthrough]

/-- Chunks that all get through are all latched. -/
theorem sendChunks_all {chunks : List (List UInt8)} {outcome : ℕ → ℕ → Outcome} {chip : Chip}
    (h : (sendChunks chunks outcome chip).1 = true) :
    (sendChunks chunks outcome chip).2 = chunks.foldl (fun c cmds => c.command cmds) chip := by
  induction chunks generalizing outcome chip with
  | nil => rfl
  | cons cmds chunks ih =>
      rw [sendChunks, writeCmdFrame_commands] at h ⊢
      by_cases hthrough : Through (outcome 0)
      · simp only [hthrough, if_true, Bool.not_true, Bool.false_eq_true, if_false] at h ⊢
        exact ih h
      · simp [hthrough] at h

/-! ### What no write changes -/

/-- An SSD1306 is in the horizontal mode, where its `init` puts it. -/
def Chip.Ready : Chip → Prop
  | .ssd1306 s => s.horizontal = true
  | .sh1106 _ => True

/-- The chip stays what it is, and in its mode. -/
structure Kept (chip chip' : Chip) : Prop where
  kind : chip'.kind = chip.kind
  ready : chip.Ready → chip'.Ready

theorem Kept.refl (chip : Chip) : Kept chip chip := ⟨rfl, id⟩

theorem Kept.trans {a b c : Chip} (h : Kept a b) (h' : Kept b c) : Kept a c :=
  ⟨h'.kind.trans h.kind, fun ha => h'.ready (h.ready ha)⟩

/-- An SSD1306 that takes `cmds` is not told to leave the horizontal mode. -/
def keepsMode : List UInt8 → Bool
  | [] => true
  | op :: args =>
      match ssd1306Arity op, args with
      | 0, args => keepsMode args
      | 1, a :: args => (op != 0x20 || a == 0) && keepsMode args
      | 2, _ :: _ :: args => keepsMode args
      | _, _ => true

theorem Ssd1306.window_horizontal (s : Ssd1306) (op a b : UInt8) :
    (s.window op a b).horizontal = s.horizontal := by
  unfold Ssd1306.window
  split <;> rfl

theorem Ssd1306.exec_horizontal {cmds : List UInt8} {s : Ssd1306} (hk : keepsMode cmds = true)
    (h : s.horizontal = true) : (s.exec cmds).horizontal = true := by
  fun_induction Ssd1306.exec cmds s with
  | case1 s => exact h
  | case2 op s args harity ih =>
      unfold keepsMode at hk
      rw [harity] at hk
      exact ih hk h
  | case3 op s a args harity ih =>
      unfold keepsMode at hk
      rw [harity] at hk
      simp only [Bool.and_eq_true, Bool.or_eq_true, bne_iff_ne, beq_iff_eq] at hk
      refine ih hk.2 ?_
      split
      · rename_i hop
        exact beq_iff_eq.2 (hk.1.resolve_left fun hne => hne hop)
      · exact h
  | case4 op s a b args harity ih =>
      unfold keepsMode at hk
      rw [harity] at hk
      exact ih hk ((s.window_horizontal op a b).trans h)
  | case5 => exact h

theorem kept_command {cmds : List UInt8} (hk : keepsMode cmds = true) (chip : Chip) :
    Kept chip (chip.command cmds) := by
  cases chip with
  | ssd1306 s => exact ⟨rfl, fun h => Ssd1306.exec_horizontal hk h⟩
  | sh1106 s => exact ⟨rfl, id⟩

theorem kept_data (bytes : List UInt8) (chip : Chip) : Kept chip (chip.data bytes) := by
  cases chip with
  | ssd1306 s => exact ⟨rfl, id⟩
  | sh1106 s => exact ⟨rfl, id⟩

/-- A frame that leaves the mode alone. -/
def I2cFrame.Safe : I2cFrame → Prop
  | .commands cmds => keepsMode cmds = true
  | .data _ => True

theorem kept_writeOnce (frame : I2cFrame) (hsafe : frame.Safe) (chip : Chip) (o : Outcome) :
    Kept chip (writeOnce chip frame o).2 := by
  cases frame with
  | commands cmds =>
      cases o with
      | acked => exact kept_command hsafe chip
      | failed stored => exact .refl chip
  | data bytes =>
      cases o with
      | acked => exact kept_data bytes chip
      | failed stored => exact kept_data _ chip

theorem kept_tryFrame (frame : I2cFrame) (hsafe : frame.Safe) (outcome : ℕ → Outcome)
    (left attempt : ℕ) (chip : Chip) : Kept chip (tryFrame frame outcome left attempt chip).2 := by
  induction left generalizing attempt chip with
  | zero => exact .refl chip
  | succ left ih =>
      have hone := kept_writeOnce frame hsafe chip (outcome attempt)
      rw [tryFrame]
      split
      · exact hone
      · exact hone.trans (ih (attempt + 1) _)

theorem kept_writeCmdFrame (frame : I2cFrame) (hsafe : frame.Safe) (chip : Chip)
    (outcome : ℕ → Outcome) : Kept chip (writeCmdFrame chip frame outcome).2 :=
  kept_tryFrame frame hsafe outcome _ _ chip

/-- A span of the panel. -/
structure Span.Fits (g : Geometry) (span : Span) : Prop where
  page : span.1 < g.pages
  start : span.2.1 ≤ span.2.2
  stop : span.2.2 < g.width

theorem Geometry.pages_le (g : Geometry) : g.pages ≤ 8 := by
  unfold Geometry.pages
  rcases g.height_ok with h | h <;> omega

/-- The page and column commands of an SH1106, as an SSD1306 takes them. -/
theorem keepsMode_select_sh1106 {page col : ℕ} (hpage : page < 8) (hcol : col < 130) :
    keepsMode [(0xb0 : UInt8) ||| UInt8.ofNat page, (0x00 : UInt8) ||| (UInt8.ofNat col &&& 0x0f),
      (0x10 : UInt8) ||| (UInt8.ofNat col >>> 4)] = true := by
  have hall : ∀ page : Fin 8, ∀ col : Fin 130,
      keepsMode [(0xb0 : UInt8) ||| UInt8.ofNat page,
        (0x00 : UInt8) ||| (UInt8.ofNat col &&& 0x0f),
        (0x10 : UInt8) ||| (UInt8.ofNat col >>> 4)] = true := by decide +kernel
  exact hall ⟨page, hpage⟩ ⟨col, hcol⟩

theorem safe_select (p : Panel g) {span : Span} (h : span.Fits g) :
    (I2cFrame.commands (p.select span)).Safe := by
  have hpages := g.pages_le
  have hwidth := g.width_le
  have hpage := h.page
  have hstart := h.start
  have hstop := h.stop
  show keepsMode (p.select span) = true
  unfold Panel.select
  cases p.controller with
  | ssd1306 => rfl
  | sh1106 => exact keepsMode_select_sh1106 (by omega) (by unfold sh1106ColOffset; omega)

theorem kept_commandsThenData {cmds : List UInt8} (hsafe : (I2cFrame.commands cmds).Safe)
    (chip : Chip) (bytes : List UInt8) (f : SpanFaults) :
    Kept chip (commandsThenData chip cmds bytes f).2 := by
  have hselect := kept_writeCmdFrame _ hsafe chip f.select
  unfold commandsThenData
  dsimp only
  split
  · exact hselect
  · exact hselect.trans (kept_writeOnce (.data _) trivial _ f.data)

theorem kept_flushPageSpan (p : Panel g) (chip : Chip) {span : Span} (h : span.Fits g)
    (f : SpanFaults) : Kept chip (p.flushPageSpan chip span f).2 :=
  kept_commandsThenData (safe_select p h) chip (p.spanBytes span) f

theorem kept_flushSpans (p : Panel g) {spans : List Span} (h : ∀ span ∈ spans, span.Fits g)
    (f : ℕ → SpanFaults) (chip : Chip) : Kept chip (p.flushSpans spans f chip).2 := by
  induction spans generalizing f chip with
  | nil => exact .refl chip
  | cons span spans ih =>
      have hone := kept_flushPageSpan p chip (h span List.mem_cons_self) (f 0)
      rw [Panel.flushSpans]
      split
      · exact hone
      · exact hone.trans (ih (fun s hs => h s (List.mem_cons_of_mem _ hs)) _ _)

/-- The spans of a whole panel. -/
theorem fits_rows : ∀ span ∈ (List.range g.pages).map fun page => (page, 0, g.width - 1),
    Span.Fits g span := by
  intro span hspan
  obtain ⟨page, hpage, rfl⟩ := List.mem_map.1 hspan
  have hwidth := g.width_pos
  exact ⟨List.mem_range.1 hpage, Nat.zero_le _, by dsimp only; omega⟩

theorem kept_flush (p : Panel g) (chip : Chip) (f : ℕ → SpanFaults) :
    Kept chip (p.flush chip f).2 := by
  unfold Panel.flush
  cases p.controller with
  | ssd1306 =>
      have hsafe : (I2cFrame.commands [0x21, 0, UInt8.ofNat (g.width - 1),
          0x22, 0, UInt8.ofNat (g.pages - 1)]).Safe := rfl
      exact kept_commandsThenData hsafe chip p.fb (f 0)
  | sh1106 => exact kept_flushSpans p fits_rows f chip

theorem kept_sendChunks {chunks : List (List UInt8)} (h : ∀ cmds ∈ chunks, keepsMode cmds = true)
    (outcome : ℕ → ℕ → Outcome) (chip : Chip) :
    Kept chip (sendChunks chunks outcome chip).2 := by
  induction chunks generalizing outcome chip with
  | nil => exact .refl chip
  | cons cmds chunks ih =>
      have hone := kept_writeCmdFrame (.commands cmds) (h cmds List.mem_cons_self) chip
        (outcome 0)
      rw [sendChunks]
      split
      · exact hone
      · exact hone.trans (ih (fun c hc => h c (List.mem_cons_of_mem _ hc)) _ _)

/-- `init` sends no chunk that cuts a command in two or leaves the horizontal mode. -/
theorem kept_init (p : Panel g) (chip : Chip) (outcome : ℕ → ℕ → Outcome) :
    Kept chip (p.init chip outcome).2 := by
  refine kept_sendChunks ?_ outcome chip
  rcases g.height_ok with h | h
  · rw [h]
    cases p.controller with
    | ssd1306 => decide
    | sh1106 => decide
  · rw [h]
    cases p.controller with
    | ssd1306 => decide
    | sh1106 => decide

theorem kept_detectController (chip : Chip) (f : ProbeFaults) :
    Kept chip (detectController chip f).2 := by
  have hsetcol : (I2cFrame.commands setcol).Safe := by
    show keepsMode setcol = true
    decide
  have h1 := kept_writeCmdFrame _ hsetcol chip f.setcol
  have h2 (c : Chip) := kept_writeCmdFrame (.data [magic.1, magic.2]) trivial c f.magic
  have h3 (c : Chip) := kept_writeCmdFrame _ hsetcol c f.setcolBack
  unfold detectController
  dsimp only
  split
  · exact h1
  · split
    · exact h1.trans (h2 _)
    · split
      · exact (h1.trans (h2 _)).trans (h3 _)
      · split <;> exact (h1.trans (h2 _)).trans (h3 _)

theorem kept_redetect (p : Panel g) (chip : Chip) (f : ProbeFaults) :
    Kept chip (p.redetect chip f).2 := by
  have h := kept_detectController chip f
  unfold Panel.redetect
  split
  · rename_i heq
    rwa [heq] at h
  · rename_i heq
    rwa [heq] at h

end BadgeOS.Oled
