import BadgeOS.Lib.Transition
import BadgeOS.Oled.Flush
import Mathlib

/-!
# Panels of any width

`Panel.open` takes any width, and a height of 32 or 64.  The commands narrow columns to bytes,
the page mode adds an offset to them, and a span goes through a buffer of 129 bytes.  Here the
panel functions are the checks they make and the frames they write, in order.

* `Step`, `exec` — checks and writes, up to a write that is not acknowledged;
* `Driver` and its functions — the panel of any size that opens;
* `exec_isSome_iff` — no bus makes a check fail exactly when all of them hold;
* `Op.run`, `drives_iff` — the panels that no run of operations faults.
-/

namespace BadgeOS.Oled.Panels

open Transition

/-- A check, which stops the process when it fails, or a frame on the bus. -/
inductive Step
  | check (ok : Bool)
  | write (frame : I2cFrame)

def Step.Holds : Step → Prop
  | .check ok => ok = true
  | .write _ => True

/-- The steps on a bus that acknowledges the frames that `acked` says: `none` for a check that
fails, `false` for a frame that was not acknowledged. -/
def exec : List Step → (acked : ℕ → Bool) → Option Bool
  | [], _ => some true
  | .check ok :: steps, acked => if ok then exec steps acked else none
  | .write _ :: steps, acked => if acked 0 then exec steps fun n => acked (n + 1) else some false

/-- The frames that a bus without errors sees. -/
def frames : List Step → List I2cFrame
  | [] => []
  | .check _ :: steps => frames steps
  | .write frame :: steps => frame :: frames steps

theorem exec_isSome {steps : List Step} (h : ∀ step ∈ steps, step.Holds) (acked : ℕ → Bool) :
    (exec steps acked).isSome := by
  induction steps generalizing acked with
  | nil => rfl
  | cons step steps ih =>
      have hrest : ∀ step ∈ steps, step.Holds := fun s hs => h s (List.mem_cons_of_mem _ hs)
      cases step with
      | check ok =>
          have hok : ok = true := h _ List.mem_cons_self
          rw [exec, if_pos hok]
          exact ih hrest acked
      | write frame =>
          rw [exec]
          split
          · exact ih hrest _
          · rfl

/-- **The checks.**  No bus makes one fail exactly when all of them hold. -/
theorem exec_isSome_iff (steps : List Step) :
    (∀ acked, (exec steps acked).isSome) ↔ ∀ step ∈ steps, step.Holds := by
  refine ⟨fun h => ?_, exec_isSome⟩
  have hacked := h fun _ => true
  clear h
  induction steps with
  | nil => exact fun step hstep => absurd hstep List.not_mem_nil
  | cons step steps ih =>
      cases step with
      | check ok =>
          rw [exec] at hacked
          split at hacked
          · rename_i hok
            exact List.forall_mem_cons.mpr ⟨hok, ih hacked⟩
          · cases hacked
      | write frame =>
          rw [exec, if_pos rfl] at hacked
          exact List.forall_mem_cons.mpr ⟨trivial, ih hacked⟩

/-! ### The driver -/

def heightSupported (height : UInt16) : Bool := height = 32 || height = 64

/-- The size of a panel that opens. -/
structure Size where
  width : UInt16
  height : UInt16
  height_ok : heightSupported height = true

def Size.pages (s : Size) : ℕ := s.height.toNat / 8

def Size.fbLen (s : Size) : ℕ := s.width.toNat * s.pages

/-- A panel that is open. -/
structure Driver (s : Size) where
  controller : Controller
  fb : List UInt8
  fb_length : fb.length = s.fbLen

/-- What `--oled-controller` names. -/
inductive ControllerChoice
  | auto
  | ssd1306
  | sh1106

/-- What `open` comes upon: memory, the bus and its address, and what a probe finds. -/
structure Opening where
  choice : ControllerChoice
  allocated : Bool
  bus : Bool
  selected : Bool
  detected : Option (Option Controller)

/-- `Panel.open` -/
def Driver.open (width height : UInt16) (o : Opening) : Option ((s : Size) × Driver s) :=
  if h : heightSupported height = true then
    if !o.allocated || !o.bus || !o.selected then none
    else
      let controller : Option Controller :=
        match o.choice with
        | .ssd1306 => some .ssd1306
        | .sh1106 => some .sh1106
        -- a probe that nothing acknowledges means that there is no panel
        | .auto => o.detected.map fun det => det.getD .ssd1306
      controller.map fun controller =>
        ⟨⟨width, height, h⟩, controller, List.replicate (Size.fbLen ⟨width, height, h⟩) 0,
          List.length_replicate⟩
  else none

variable {s : Size}

/-- A command frame of at most 63 commands. -/
def sendCommands (cmds : List UInt8) : List Step :=
  [.check (cmds.length + 1 ≤ 64), .write (.commands cmds)]

/-- `@intCast` to a byte. -/
def fitsByte (n : ℕ) : Step := .check (n < 256)

def Driver.select (d : Driver s) (page c0 c1 : ℕ) : List Step :=
  match d.controller with
  | .ssd1306 =>
      [fitsByte c0, fitsByte c1, fitsByte page, fitsByte page] ++
        sendCommands [0x21, UInt8.ofNat c0, UInt8.ofNat c1, 0x22, UInt8.ofNat page,
          UInt8.ofNat page]
  | .sh1106 =>
      let col := UInt8.ofNat (c0 + sh1106ColOffset)
      [fitsByte c0, fitsByte (c0 + sh1106ColOffset), fitsByte page] ++
        sendCommands [(0xb0 : UInt8) ||| UInt8.ofNat page, (0x00 : UInt8) ||| (col &&& 0x0f),
          (0x10 : UInt8) ||| (col >>> 4)]

def Driver.flushPageSpan (d : Driver s) (page c0 c1 : ℕ) : List Step :=
  let span := c1 - c0 + 1
  let start := page * s.width.toNat + c0
  [.check (page < s.pages), .check (c0 ≤ c1 ∧ c1 < s.width.toNat)] ++
  d.select page c0 c1 ++
  -- the subtraction, the buffer, and the slice of the framebuffer
  [.check (c0 ≤ c1), .check (1 + span ≤ 129), .check (start + span ≤ d.fb.length),
    .write (.data ((d.fb.drop start).take span))]

def Driver.flush (d : Driver s) : List Step :=
  match d.controller with
  | .ssd1306 =>
      [.check (1 ≤ s.width.toNat), fitsByte (s.width.toNat - 1), .check (1 ≤ s.pages),
        fitsByte (s.pages - 1)] ++
      sendCommands [0x21, 0, UInt8.ofNat (s.width.toNat - 1), 0x22, 0,
        UInt8.ofNat (s.pages - 1)] ++
      [.write (.data d.fb)]
  | .sh1106 =>
      (List.range s.pages).flatMap fun page =>
        .check (1 ≤ s.width.toNat) :: d.flushPageSpan page 0 (s.width.toNat - 1)

def Driver.init (d : Driver s) : List Step :=
  [.check (heightSupported s.height), .check (1 ≤ s.height.toNat),
    fitsByte (s.height.toNat - 1)] ++
  ((initSeq d.controller s.height.toNat).toChunks 8).flatMap sendCommands

/-- The mask of a column, which is shifted by a `u7`. -/
def colBit (c : ℕ) : Step := .check (c < 128)

/-- `flushDirty` from column `col` of a page on, with a run open. -/
def Driver.walkRuns (d : Driver s) (bits : BitVec 128) (page : ℕ) :
    (left col runStart runEnd : ℕ) → List Step
  | 0, _, runStart, runEnd => d.flushPageSpan page runStart runEnd
  | left + 1, col, runStart, runEnd =>
      colBit col ::
      if bits.getLsbD col = false then d.walkRuns bits page left (col + 1) runStart runEnd
      else .check (runEnd ≤ col) ::
        if col - runEnd ≤ gapMerge then d.walkRuns bits page left (col + 1) runStart col
        else d.flushPageSpan page runStart runEnd ++ d.walkRuns bits page left (col + 1) col col

def Driver.pageSpans (d : Driver s) (bits : BitVec 128) (page : ℕ) : (left col : ℕ) → List Step
  | 0, _ => []
  | left + 1, col =>
      colBit col ::
      if bits.getLsbD col = false then d.pageSpans bits page left (col + 1)
      else d.walkRuns bits page left (col + 1) col col

def Driver.flushDirty (d : Driver s) (dirty : Dirty) : List Step :=
  if dirty.full then d.flush
  else (List.range (min s.pages Dirty.maxPages)).flatMap fun page =>
    if dirty.bits page = 0#128 then []
    else d.pageSpans (dirty.bits page) page (min s.width.toNat 128) 0

/-! ### Runs -/

/-- What is done with an open panel.  A frame to blit has the framebuffer's length. -/
inductive Op (s : Size)
  | init
  | flush
  | flushDirty (dirty : Dirty)
  | clear
  | blit (frame : { frame : List UInt8 // frame.length = s.fbLen })
  | redetect (detected : Option (Option Controller))

/-- The checks and frames of an operation.  Those of a probe are constants. -/
def Op.steps (d : Driver s) : Op s → List Step
  | .init => d.init
  | .flush => d.flush
  | .flushDirty dirty => d.flushDirty dirty
  | .clear => []
  | .blit _ => []
  | .redetect _ => []

/-- The panel after an operation. -/
def Op.after (d : Driver s) : Op s → Driver s
  | .clear => { d with fb := List.replicate s.fbLen 0, fb_length := List.length_replicate }
  | .blit frame => { d with fb := frame.val, fb_length := frame.property }
  | .redetect (some (some controller)) => { d with controller }
  | _ => d

/-- An operation, on what the bus does; `none` when a check fails. -/
def Op.run (d : Driver s) (op : Op s × (ℕ → Bool)) : Option (Driver s) :=
  (exec (op.1.steps d) op.2).map fun _ => op.1.after d

/-! ### The panels that are safe -/

variable {d : Driver s}

theorem Size.height_eq (s : Size) : s.height.toNat = 32 ∨ s.height.toNat = 64 := by
  have h := s.height_ok
  rw [heightSupported, Bool.or_eq_true, decide_eq_true_eq, decide_eq_true_eq] at h
  rcases h with h | h <;> rw [h] <;> decide

theorem Size.pages_bounds (s : Size) : 4 ≤ s.pages ∧ s.pages ≤ 8 := by
  rw [Size.pages]
  rcases s.height_eq with h | h <;> omega

theorem holds_check {p : Prop} [Decidable p] : (Step.check (decide p)).Holds ↔ p :=
  decide_eq_true_iff

theorem holds_fitsByte {n : ℕ} : (fitsByte n).Holds ↔ n < 256 := holds_check

theorem sendCommands_holds {cmds : List UInt8} (h : cmds.length ≤ 63) :
    ∀ step ∈ sendCommands cmds, step.Holds := by
  refine List.forall_mem_cons.mpr ⟨holds_check.mpr (by omega), ?_⟩
  exact List.forall_mem_singleton.mpr trivial

theorem select_holds {page c0 c1 : ℕ} (hpage : page < 256) (h0 : c0 + sh1106ColOffset < 256)
    (h1 : c1 < 256) : ∀ step ∈ d.select page c0 c1, step.Holds := by
  have h0' : c0 < 256 := by omega
  rw [Driver.select]
  cases d.controller with
  | ssd1306 =>
      refine List.forall_mem_append.mpr ⟨?_, sendCommands_holds (by simp)⟩
      simp only [List.forall_mem_cons, holds_fitsByte]
      exact ⟨h0', h1, hpage, hpage, fun step hstep => absurd hstep List.not_mem_nil⟩
  | sh1106 =>
      refine List.forall_mem_append.mpr ⟨?_, sendCommands_holds (by simp)⟩
      simp only [List.forall_mem_cons, holds_fitsByte]
      exact ⟨h0', h0, hpage, fun step hstep => absurd hstep List.not_mem_nil⟩

/-- The bytes of a span are in the framebuffer. -/
theorem span_le {page c0 c1 : ℕ} (hpage : page < s.pages) (hle : c0 ≤ c1)
    (hlt : c1 < s.width.toNat) : page * s.width.toNat + c0 + (c1 - c0 + 1) ≤ d.fb.length := by
  have hrow : (page + 1) * s.width.toNat ≤ s.pages * s.width.toNat :=
    Nat.mul_le_mul_right _ hpage
  rw [Nat.add_mul, Nat.one_mul] at hrow
  rw [d.fb_length, Size.fbLen, Nat.mul_comm s.width.toNat]
  omega

theorem flushPageSpan_holds (hw : s.width.toNat ≤ 128) {page c0 c1 : ℕ} (hpage : page < s.pages)
    (hle : c0 ≤ c1) (hlt : c1 < s.width.toNat) :
    ∀ step ∈ d.flushPageSpan page c0 c1, step.Holds := by
  have hpages := s.pages_bounds.2
  have hselect : ∀ step ∈ d.select page c0 c1, step.Holds :=
    select_holds (by omega) (by rw [sh1106ColOffset]; omega) (by omega)
  refine List.forall_mem_append.mpr ⟨List.forall_mem_append.mpr ⟨?_, hselect⟩, ?_⟩
  · simp only [List.forall_mem_cons, holds_check]
    exact ⟨hpage, ⟨hle, hlt⟩, fun step hstep => absurd hstep List.not_mem_nil⟩
  · simp only [List.forall_mem_cons, holds_check]
    exact ⟨hle, by omega, span_le hpage hle hlt, trivial,
      fun step hstep => absurd hstep List.not_mem_nil⟩

theorem flush_holds (hpos : 1 ≤ s.width.toNat) (hw : s.width.toNat ≤ 128) :
    ∀ step ∈ d.flush, step.Holds := by
  have hpages := s.pages_bounds
  rw [Driver.flush]
  cases d.controller with
  | ssd1306 =>
      refine List.forall_mem_append.mpr ⟨List.forall_mem_append.mpr ⟨?_,
        sendCommands_holds (by simp)⟩, List.forall_mem_singleton.mpr trivial⟩
      simp only [List.forall_mem_cons, holds_fitsByte, holds_check]
      exact ⟨hpos, by omega, by omega, by omega, fun step hstep => absurd hstep List.not_mem_nil⟩
  | sh1106 =>
      refine List.forall_mem_flatMap.mpr fun page hpage => List.forall_mem_cons.mpr
        ⟨holds_check.mpr hpos, ?_⟩
      exact flushPageSpan_holds hw (List.mem_range.mp hpage) (Nat.zero_le _) (by omega)

/-- `init` sends chunks of 8. -/
theorem length_chunk (controller : Controller) {height : ℕ} (h : height = 32 ∨ height = 64) :
    ∀ cmds ∈ (initSeq controller height).toChunks 8, cmds.length ≤ 8 := by
  rcases h with rfl | rfl
  · cases controller with
    | ssd1306 => decide
    | sh1106 => decide
  · cases controller with
    | ssd1306 => decide
    | sh1106 => decide

theorem init_holds : ∀ step ∈ d.init, step.Holds := by
  refine List.forall_mem_append.mpr ⟨?_, List.forall_mem_flatMap.mpr fun cmds hcmds => ?_⟩
  · have hheight := s.height_eq
    simp only [List.forall_mem_cons, holds_fitsByte, holds_check]
    exact ⟨s.height_ok, by omega, by omega, fun step hstep => absurd hstep List.not_mem_nil⟩
  · exact sendCommands_holds ((length_chunk _ s.height_eq cmds hcmds).trans (by decide))

theorem walkRuns_holds (hw : s.width.toNat ≤ 128) {bits : BitVec 128} {page : ℕ}
    (hpage : page < s.pages) {left col runStart runEnd : ℕ} (hrun : runStart ≤ runEnd)
    (hend : runEnd < col) (hleft : col + left ≤ s.width.toNat) :
    ∀ step ∈ d.walkRuns bits page left col runStart runEnd, step.Holds := by
  induction left generalizing col runStart runEnd with
  | zero => exact flushPageSpan_holds hw hpage hrun (by omega)
  | succ left ih =>
      rw [Driver.walkRuns]
      refine List.forall_mem_cons.mpr ⟨holds_check.mpr (by omega), ?_⟩
      split
      · exact ih hrun (by omega) (by omega)
      · refine List.forall_mem_cons.mpr ⟨holds_check.mpr hend.le, ?_⟩
        split
        · exact ih (by omega) (by omega) (by omega)
        · exact List.forall_mem_append.mpr ⟨flushPageSpan_holds hw hpage hrun (by omega),
            ih le_rfl (by omega) (by omega)⟩

theorem pageSpans_holds (hw : s.width.toNat ≤ 128) {bits : BitVec 128} {page : ℕ}
    (hpage : page < s.pages) {left col : ℕ} (hleft : col + left ≤ s.width.toNat) :
    ∀ step ∈ d.pageSpans bits page left col, step.Holds := by
  induction left generalizing col with
  | zero => exact fun step hstep => absurd hstep List.not_mem_nil
  | succ left ih =>
      rw [Driver.pageSpans]
      refine List.forall_mem_cons.mpr ⟨holds_check.mpr (by omega), ?_⟩
      split
      · exact ih (by omega)
      · exact walkRuns_holds hw hpage le_rfl (Nat.lt_succ_self col) (by omega)

theorem flushDirty_holds (hpos : 1 ≤ s.width.toNat) (hw : s.width.toNat ≤ 128) (dirty : Dirty) :
    ∀ step ∈ d.flushDirty dirty, step.Holds := by
  rw [Driver.flushDirty]
  split
  · exact flush_holds hpos hw
  · refine List.forall_mem_flatMap.mpr fun page hpage => ?_
    have hlt := List.mem_range.mp hpage
    split
    · exact fun step hstep => absurd hstep List.not_mem_nil
    · exact pageSpans_holds hw (by omega) (by omega)

/-- **One operation** of a panel of 1 to 128 columns fails no check. -/
theorem steps_hold (hpos : 1 ≤ s.width.toNat) (hw : s.width.toNat ≤ 128) (op : Op s) :
    ∀ step ∈ op.steps d, step.Holds := by
  cases op with
  | init => exact init_holds
  | flush => exact flush_holds hpos hw
  | flushDirty dirty => exact flushDirty_holds hpos hw dirty
  | clear => exact fun step hstep => absurd hstep List.not_mem_nil
  | blit frame => exact fun step hstep => absurd hstep List.not_mem_nil
  | redetect detected => exact fun step hstep => absurd hstep List.not_mem_nil

theorem run_isSome (hpos : 1 ≤ s.width.toNat) (hw : s.width.toNat ≤ 128)
    (ops : List (Op s × (ℕ → Bool))) : (runFrom Op.run d ops).isSome := by
  induction ops generalizing d with
  | nil => rfl
  | cons op ops ih =>
      obtain ⟨done, hdone⟩ := Option.isSome_iff_exists.mp
        (exec_isSome (steps_hold (d := d) hpos hw op.1) op.2)
      rw [runFrom, Op.run, hdone, Option.map_some, Option.bind_some]
      exact ih

/-- A flush for an SH1106 checks the width. -/
theorem width_of_flush_holds (hsh : d.controller = .sh1106) (h : ∀ step ∈ d.flush, step.Holds) :
    1 ≤ s.width.toNat ∧ s.width.toNat ≤ 128 := by
  have hpages := s.pages_bounds.1
  rw [Driver.flush, hsh] at h
  have hfirst := List.forall_mem_flatMap.mp h 0 (List.mem_range.mpr (by omega))
  obtain ⟨hpos, hspan⟩ := List.forall_mem_cons.mp hfirst
  have hpos := holds_check.mp hpos
  have htail := (List.forall_mem_append.mp hspan).2
  simp only [List.forall_mem_cons, holds_check] at htail
  omega

/-! ### The frames of a panel that is safe -/

theorem frames_append (steps rest : List Step) :
    frames (steps ++ rest) = frames steps ++ frames rest := by
  induction steps with
  | nil => rfl
  | cons step steps ih =>
      cases step with
      | check ok => exact ih
      | write frame => exact congrArg (frame :: ·) ih

theorem frames_flatMap {α : Type} (xs : List α) (f : α → List Step) :
    frames (xs.flatMap f) = xs.flatMap fun x => frames (f x) := by
  induction xs with
  | nil => rfl
  | cons x xs ih => rw [List.flatMap_cons, frames_append, ih, List.flatMap_cons]

/-- The geometry of a panel of 1 to 128 columns. -/
def Size.geometry (s : Size) (hw : 1 ≤ s.width.toNat ∧ s.width.toNat ≤ 128) : Geometry :=
  ⟨s.width.toNat, s.height.toNat, hw.1, hw.2, s.height_eq⟩

def Driver.panel (d : Driver s) (hw : 1 ≤ s.width.toNat ∧ s.width.toNat ≤ 128) :
    Panel (s.geometry hw) := ⟨d.controller, d.fb, d.fb_length⟩

/-- The frames of a span. -/
def spanFrames {g : Geometry} (p : Panel g) (span : Span) : List I2cFrame :=
  [.commands (p.select span), .data (p.spanBytes span)]

variable (hw : 1 ≤ s.width.toNat ∧ s.width.toNat ≤ 128)

theorem frames_flushPageSpan (d : Driver s) (page c0 c1 : ℕ) :
    frames (d.flushPageSpan page c0 c1) = spanFrames (d.panel hw) (page, c0, c1) := by
  rw [Driver.flushPageSpan, frames_append, frames_append, Driver.select, spanFrames, Panel.select]
  show _ ++ frames (match d.controller with | .ssd1306 => _ | .sh1106 => _) ++ _ =
    [.commands (match d.controller with | .ssd1306 => _ | .sh1106 => _), _]
  cases d.controller with
  | ssd1306 => rfl
  | sh1106 => rfl

theorem frames_walkRuns (d : Driver s) (bits : BitVec 128)
    (page left col runStart runEnd : ℕ) :
    frames (d.walkRuns bits page left col runStart runEnd) =
      (Oled.walkRuns bits page left col runStart runEnd).flatMap (spanFrames (d.panel hw)) := by
  induction left generalizing col runStart runEnd with
  | zero => exact (frames_flushPageSpan hw d page runStart runEnd).trans (List.append_nil _).symm
  | succ left ih =>
      rw [Driver.walkRuns, Oled.walkRuns]
      show frames (ite _ _ _) = _
      split
      · exact ih _ _ _
      · show frames (ite _ _ _) = _
        split
        · exact ih _ _ _
        · rw [frames_append, ih, frames_flushPageSpan hw]
          rfl

theorem frames_pageSpans (d : Driver s) (bits : BitVec 128) (page left col : ℕ) :
    frames (d.pageSpans bits page left col) =
      (Oled.pageSpans bits page left col).flatMap (spanFrames (d.panel hw)) := by
  induction left generalizing col with
  | zero => rfl
  | succ left ih =>
      rw [Driver.pageSpans, Oled.pageSpans]
      show frames (ite _ _ _) = _
      split
      · exact ih _
      · exact frames_walkRuns hw d _ _ _ _ _ _

/-- **A partial flush** writes the spans that `Panel.flushDirty` does. -/
theorem frames_flushDirty (d : Driver s) {dirty : Dirty} (hpart : dirty.full = false) :
    frames (d.flushDirty dirty) =
      (dirtySpans (s.geometry hw) dirty).flatMap (spanFrames (d.panel hw)) := by
  rw [Driver.flushDirty, hpart, if_neg Bool.false_ne_true, frames_flatMap, dirtySpans,
    List.flatMap_assoc]
  refine List.flatMap_congr fun page _ => ?_
  split
  · rfl
  · exact frames_pageSpans hw d _ _ _ _

/-! ### Every run -/

/-- **Any panel.**  No run of operations on it fails a check exactly when it has 1 to 128
columns: the other controller may come to be fitted. -/
theorem run_isSome_iff (d : Driver s) :
    (∀ ops : List (Op s × (ℕ → Bool)), (runFrom Op.run d ops).isSome) ↔
      1 ≤ s.width.toNat ∧ s.width.toNat ≤ 128 := by
  refine ⟨fun h => ?_, fun h => run_isSome h.1 h.2⟩
  refine width_of_flush_holds (d := { d with controller := .sh1106 }) rfl ?_
  refine (exec_isSome_iff _).mp fun acked => ?_
  have hrun := h [(.redetect (some (some .sh1106)), acked), (.flush, acked)]
  simpa [runFrom, Op.run, Op.steps, Op.after, exec] using hrun

/-- What `open` returns has the size it was asked for. -/
theorem open_size {width height : UInt16} {o : Opening} {p : (s : Size) × Driver s}
    (h : Driver.open width height o = some p) : p.1.width = width ∧ p.1.height = height := by
  rw [Driver.open] at h
  split at h
  · split at h
    · cases h
    · obtain ⟨controller, -, rfl⟩ := Option.map_eq_some_iff.mp h
      exact ⟨rfl, rfl⟩
  · cases h

/-- **The geometries that are safe to drive**, of those that open. -/
theorem drives_iff (width height : UInt16) (o : Opening) (p : (s : Size) × Driver s)
    (h : Driver.open width height o = some p) :
    (∀ ops : List (Op p.1 × (ℕ → Bool)), (runFrom Op.run p.2 ops).isSome) ↔
      1 ≤ width.toNat ∧ width.toNat ≤ 128 := by
  rw [run_isSome_iff, (open_size h).1]

/-- An SH1106 of 132 columns, which is how many its memory has. -/
def wide : Opening where
  choice := .sh1106
  allocated := true
  bus := true
  selected := true
  detected := none

/-- It opens, and the first flush fails the assertion on the span's buffer. -/
theorem drives_wide :
    ¬ ∀ (width height : UInt16) (o : Opening) (p : (s : Size) × Driver s),
      Driver.open width height o = some p →
        ∀ ops : List (Op p.1 × (ℕ → Bool)), (runFrom Op.run p.2 ops).isSome := by
  intro hall
  obtain ⟨p, hp⟩ : ∃ p, Driver.open 132 64 wide = some p := ⟨_, rfl⟩
  have hwidth := ((run_isSome_iff p.2).mp (hall 132 64 wide p hp)).2
  rw [(open_size hp).1] at hwidth
  exact absurd hwidth (by decide)

/-- The panel that is fitted. -/
theorem drives_fitted : ∃ p, Driver.open 128 32 wide = some p ∧
    ∀ ops : List (Op p.1 × (ℕ → Bool)), (runFrom Op.run p.2 ops).isSome :=
  ⟨_, rfl, (drives_iff 128 32 wide _ rfl).mpr (by decide)⟩

end BadgeOS.Oled.Panels
