import BadgeOS.Lib.Transition
import Mathlib

/-!
# Switching the mode of an output

`SDL_waylandoutputmanagement.c`, and what the end of a `wl_output` report does with it.  A request
asks the compositor through the output manager, whose events are at hand when its answer is; the
reports of the output come in a queue of their own, later.  The rest of SDL that builds a display
from a report is a parameter.

* `Mode`, `Head`, `DisplayMode`, `Display` — the modes of an output, and what SDL shows of them;
* `findMode`, `applyMode`, `setDisplayMode` — a request;
* `isOutputModeSwitched`, `handleOutputDone` — a report;
* `step` — a request with the compositor's answers, a report that is sent, and one that is handled.
-/

namespace BadgeOS.Sdl.Output

/-- `SDL_WaylandOutputMode`: a size in hardware units and a refresh rate in mHz. -/
structure Mode where
  width : ℤ
  height : ℤ
  refresh : ℤ
  deriving DecidableEq, Repr

/-- `SDL_WaylandOutputHead`: its modes, and which of them is the current one. -/
structure Head where
  modes : List Mode
  currentMode : Option ℕ
  deriving DecidableEq, Repr

/-- The mode of the head as it is now. -/
def Head.current (head : Head) : Option Mode := head.currentMode.bind fun i => head.modes[i]?

/-- `SDL_DisplayMode`; `rounded` is `SDL_lroundf` of 1000 times `refresh_rate`. -/
structure DisplayMode where
  w : ℤ
  h : ℤ
  numerator : ℤ
  denominator : ℤ
  rounded : ℤ
  deriving DecidableEq, Repr

/-- A display: its desktop mode, its fullscreen modes, and the mode it is said to be in. -/
structure Display where
  desktopMode : DisplayMode
  fullscreenModes : List DisplayMode
  currentMode : DisplayMode
  deriving DecidableEq, Repr

/-- The rest of SDL: the display mode that a report is, and the display that `handle_wl_output_done`
builds of a report and the display modes of the head. -/
structure Video where
  nativeMode : Mode → DisplayMode
  rebuild : Mode → List DisplayMode → Display

/-- A display is built with its desktop mode as the current one. -/
def Video.Lawful (V : Video) : Prop :=
  ∀ report modes, (V.rebuild report modes).currentMode = (V.rebuild report modes).desktopMode

/-- What a client asks for: `&display->desktop_mode`, or a mode of its list. -/
inductive Request
  | desktop
  | fullscreen (mode : DisplayMode)
  deriving DecidableEq, Repr

/-- `Wayland_OutputConfigurationResult`, of a configuration that was answered. -/
inductive Answer
  | succeeded
  | failed
  | cancelled
  deriving DecidableEq, Repr

structure State where
  /-- The transform swaps width and height. -/
  transform90 : Bool
  head : Head
  /-- `pixel_width`, `pixel_height` and `refresh`: the last report. -/
  pixel : Mode
  /-- `mode_switch.active`. -/
  active : Bool
  /-- `mode_switch.width`, `height` and `refresh`. -/
  record : Mode
  display : Display
  /-- The reports of the output that were sent and not handled. -/
  pending : List Mode
  /-- The last request was for the desktop mode, and it succeeded. -/
  restored : Bool
  deriving DecidableEq, Repr

/-- What `SetDisplayMode` returns: the mode was set, the window emulates it, or an error. -/
inductive Outcome
  | set
  | emulated
  | error
  deriving DecidableEq, Repr

inductive Act
  /-- A request, and the compositor's answers to its first and its second attempt. -/
  | request (request : Request) (first second : Answer)
  /-- The compositor sends a report of the output as it is. -/
  | report
  /-- `wl_output.mode` and `wl_output.done` of the next report. -/
  | handle
  deriving DecidableEq, Repr

/-! ### Modes -/

/-- `GetModeRefresh`. -/
def getModeRefresh (mode : DisplayMode) : ℤ :=
  if mode.numerator > 0 ∧ mode.denominator > 0 then mode.numerator * 1000 / mode.denominator
  else mode.rounded

/-- The first of the elements that fit which is closest. -/
def closest {α : Type*} (fits : α → Bool) (distance : α → ℕ) (l : List α) : Option α :=
  (l.filter fits).argmin distance

/-- `FindMode`: the place of the mode of a size with the closest refresh rate. -/
def findMode (head : Head) (m : Mode) : Option ℕ :=
  (closest (fun p : Mode × ℕ => p.1.width = m.width ∧ p.1.height = m.height)
    (fun p => (p.1.refresh - m.refresh).natAbs) head.modes.zipIdx).map Prod.snd

/-- `FindSwitchableHead`. -/
def findSwitchableHead (head : Head) : Option Head :=
  if 2 ≤ head.modes.length then some head else none

/-- What `Wayland_AddHeadDisplayModes` adds. -/
def headDisplayModes (s : State) : List DisplayMode :=
  match findSwitchableHead s.head with
  | none => []
  | some head =>
      (head.modes.filter fun m => 0 < m.width ∧ 0 < m.height).map fun m =>
        if s.transform90 then ⟨m.height, m.width, m.refresh, 1000, 0⟩
        else ⟨m.width, m.height, m.refresh, 1000, 0⟩

/-! ### A request -/

/-- One attempt of `ApplyMode`: a configuration with mode `i`, and the answer to it. -/
def attempt (s : State) (i : ℕ) : Answer → State
  | .succeeded =>
      { s with
        head := { s.head with currentMode := some i }
        pending := s.pending ++ s.head.modes[i]?.toList }
  | _ => s

/-- `ApplyMode`: a second attempt when the first one was cancelled. -/
def applyMode (s : State) (m : Mode) (first second : Answer) : State × Answer :=
  match findMode s.head m with
  | none => (s, .failed)
  | some i =>
      match first with
      | .cancelled => (attempt s i second, second)
      | answer => (attempt s i answer, answer)

/-- The mode that a request means, in hardware units. -/
def hardwareMode (s : State) : Request → Mode
  | .desktop => s.record
  | .fullscreen mode =>
      if s.transform90 then ⟨mode.h, mode.w, getModeRefresh mode⟩
      else ⟨mode.w, mode.h, getModeRefresh mode⟩

/-- `Wayland_SetDisplayMode` once it has a target that is not the current mode. -/
def switchMode (s : State) (request : Request) (current : Option Mode) (m : Mode)
    (first second : Answer) : State × Outcome :=
  let refused : Outcome := if request = .desktop then .error else .emulated
  if s.active then
    match applyMode s m first second with
    | (t, .succeeded) => (t, .set)
    | (t, _) => (t, refused)
  else
    match current with
    | none => (s, .emulated)
    | some record =>
        match applyMode { s with record := record, active := true } m first second with
        | (t, .succeeded) => (t, .set)
        | (t, _) => ({ t with active := false }, refused)

/-- `Wayland_SetDisplayMode`. -/
def setDisplayMode (s : State) (request : Request) (first second : Answer) : State × Outcome :=
  if request = .desktop ∧ !s.active then (s, .set)
  else
    let m := hardwareMode s request
    match findSwitchableHead s.head with
    | none => (s, if request = .desktop then .error else .emulated)
    | some head =>
        match findMode head m with
        | none => (s, if request = .desktop then .error else .emulated)
        | some target =>
            if head.currentMode = some target then (s, .set)
            else switchMode s request head.current m first second

/-- `SDL_SetDisplayModeForDisplay` from the call of `SetDisplayMode` on. -/
def setDisplayModeForDisplay (s : State) (request : Request) (first second : Answer) : State :=
  match setDisplayMode s request first second with
  | (t, .set) =>
      let mode :=
        match request with
        | .desktop => t.display.desktopMode
        | .fullscreen mode => mode
      { t with
        display := { t.display with currentMode := mode }
        restored := request = .desktop }
  | (t, _) => { t with restored := false }

/-! ### A report -/

/-- `Wayland_IsOutputModeSwitched`, with what it leaves of `mode_switch.active`. -/
def isOutputModeSwitched (s : State) : Bool × Bool :=
  if !s.active then (false, s.active)
  else if s.pixel ≠ s.record then (true, s.active)
  else
    match s.head.current with
    | some m => if m ≠ s.record then (true, s.active) else (false, false)
    | none => (false, false)

/-- `Wayland_SetSwitchedDisplayMode`. -/
def setSwitchedDisplayMode (display : Display) (reported : DisplayMode) : Display :=
  match closest (fun m => m.w = reported.w ∧ m.h = reported.h)
      (fun m => (getModeRefresh m - getModeRefresh reported).natAbs) display.fullscreenModes with
  | some mode => { display with currentMode := mode }
  | none => display

/-- `handle_wl_output_done`, after the report's mode was taken in. -/
def handleOutputDone (V : Video) (s : State) : State :=
  match isOutputModeSwitched s with
  | (true, active) =>
      { s with
        active := active
        display := setSwitchedDisplayMode s.display (V.nativeMode s.pixel) }
  | (false, active) =>
      { s with active := active, display := V.rebuild s.pixel (headDisplayModes s) }

/-- **A step** of the client or the compositor. -/
def step (V : Video) (s : State) : Act → Option State
  | .request request first second => some (setDisplayModeForDisplay s request first second)
  | .report => some { s with pending := s.pending ++ s.head.current.toList }
  | .handle =>
      match s.pending with
      | [] => none
      | report :: pending =>
          some (handleOutputDone V { s with pixel := report, pending := pending })

end BadgeOS.Sdl.Output
