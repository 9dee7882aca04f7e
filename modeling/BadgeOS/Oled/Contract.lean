import BadgeOS.Oled.ScreenSet
import Mathlib

/-!
# The contract of a screen

`eval.zig`: a screen is a function of a scope, and its result is a set of attributes.  What
stands in the scope, and which frame a result is read as, does not depend on the evaluator.

* `Value` — what an expression of the language evaluates to, with members not yet evaluated;
* `Fields`, `scopeOf` — the inputs of a frame, and the scope that they make;
* `Documented` — a result whose attributes have the types that the contract gives them;
* `frameOf` — the frame that it is read as;
* `Buffers`, `ensureInts`, `fill` — the integers read out of a list, into a buffer that is kept
  from frame to frame, and `fill_run`: what is in front of it then is the list.
-/

namespace BadgeOS.Oled.Contract

/-- What an expression evaluates to.  A member of a list or of a set is `none` where its own
evaluation fails. -/
inductive Value
  | int (n : ℤ)
  | float (bits : UInt64)
  | bool (b : Bool)
  | string (s : List UInt8)
  | list (elems : List (Option Value))
  | attrs (members : List (String × Option Value))
  | other

/-- The types that are told apart. -/
inductive Kind
  | attrs
  | list
  | other
  deriving DecidableEq, Repr

def Value.kind : Value → Kind
  | .attrs _ => .attrs
  | .list _ => .list
  | _ => .other

/-- A member, evaluated only when it is needed. -/
abbrev Thunk := Option Value

abbrev Members := List (String × Thunk)

/-- The inputs of a frame.  A string is its bytes, without the NUL behind them. -/
structure Fields where
  tMs : UInt64 := 0
  width : UInt32 := 0
  height : UInt32 := 0
  batteryMv : UInt32 := 0
  batteryPct : UInt8 := 0
  onUsb : Bool := false
  load1 : UInt64 := 0
  cpuPct : UInt8 := 0
  memPct : UInt8 := 0
  uptimeS : UInt32 := 0
  frameIndex : UInt64 := 0
  backendId : UInt8 := 0
  fps : UInt32 := 0
  strap : UInt8 := 0
  vselMv : UInt32 := 0
  nixosVersion : List UInt8 := []
  kernelVersion : List UInt8 := []
  ethIp : List UInt8 := []
  wlanIp : List UInt8 := []
  storage : List UInt8 := []
  ethName : List UInt8 := [0x65, 0x74, 0x68, 0x30]
  wlanName : List UInt8 := [0x77, 0x6c, 0x61, 0x6e, 0x30]

/-- The strings among them. -/
def Fields.strings (fields : Fields) : List (List UInt8) :=
  [fields.nixosVersion, fields.kernelVersion, fields.ethIp, fields.wlanIp, fields.storage,
    fields.ethName, fields.wlanName]

/-- Fields that both evaluators can hold. -/
structure Fields.Holdable (fields : Fields) : Prop where
  tMs : fields.tMs.toNat < 2 ^ 63
  frameIndex : fields.frameIndex.toNat < 2 ^ 63
  strings : ∀ s ∈ fields.strings, 0 ∉ s

/-- What a scope binds. -/
def scopeOf (fields : Fields) : Members :=
  [("t", some (.int fields.tMs.toNat)),
    ("frameIndex", some (.int fields.frameIndex.toNat)),
    ("width", some (.int fields.width.toNat)),
    ("height", some (.int fields.height.toNat)),
    ("batteryMv", some (.int fields.batteryMv.toNat)),
    ("batteryPct", some (.int fields.batteryPct.toNat)),
    ("onUsb", some (.bool fields.onUsb)),
    ("load1", some (.float fields.load1)),
    ("cpuPct", some (.int fields.cpuPct.toNat)),
    ("memPct", some (.int fields.memPct.toNat)),
    ("uptimeS", some (.int fields.uptimeS.toNat)),
    ("backend", some (.int fields.backendId.toNat)),
    ("fps", some (.int fields.fps.toNat)),
    ("strap", some (.int fields.strap.toNat)),
    ("vselMv", some (.int fields.vselMv.toNat)),
    ("nixosVersion", some (.string fields.nixosVersion)),
    ("kernelVersion", some (.string fields.kernelVersion)),
    ("ethIp", some (.string fields.ethIp)),
    ("wlanIp", some (.string fields.wlanIp)),
    ("storage", some (.string fields.storage)),
    ("ethName", some (.string fields.ethName)),
    ("wlanName", some (.string fields.wlanName))]

theorem scopeOf_nodup (fields : Fields) : ((scopeOf fields).map Prod.fst).Nodup := by
  show ["t", "frameIndex", "width", "height", "batteryMv", "batteryPct", "onUsb", "load1", "cpuPct",
    "memPct", "uptimeS", "backend", "fps", "strap", "vselMv", "nixosVersion", "kernelVersion",
    "ethIp", "wlanIp", "storage", "ethName", "wlanName"].Nodup
  decide

/-! ### Results -/

/-- A count, clamped into 32 bits. -/
def clampCount (raw : ℤ) : ℕ := if raw ≤ 0 then 0 else min raw.toNat (2 ^ 32 - 1)

/-- A boolean attribute, false where it is left out. -/
def boolOf (ms : Members) (name : String) : Bool :=
  match ms.lookup name with
  | some (some (.bool b)) => b
  | _ => false

/-- A count, 0 where it is left out. -/
def countOf (ms : Members) (name : String) : ℕ :=
  match ms.lookup name with
  | some (some (.int n)) => clampCount n
  | _ => 0

/-- An element as an integer. -/
def intOf : Thunk → ℤ
  | some (.int n) => n
  | _ => 0

/-- The entries of an overlay and how many there are: two in each integer where that is left
out. -/
def overlayOf (ms : Members) : List ℤ × ℕ :=
  match ms.lookup "overlay" with
  | some (some (.list ts)) =>
      (ts.map intOf,
        match ms.lookup "overlayN" with
        | none => min (ts.length * 2) (2 ^ 32 - 1)
        | some _ => countOf ms "overlayN")
  | _ => ([], 0)

theorem Value.list_of_kind {w : Value} (h : w.kind = .list) : ∃ ts, w = .list ts := by
  cases w with
  | list ts => exact ⟨ts, rfl⟩
  | _ => cases h

theorem Value.attrs_of_kind {w : Value} (h : w.kind = .attrs) : ∃ ms, w = .attrs ms := by
  cases w with
  | attrs ms => exact ⟨ms, rfl⟩
  | _ => cases h

theorem overlayOf_list {ms : Members} {ts : List Thunk}
    (h : ms.lookup "overlay" = some (some (.list ts))) :
    overlayOf ms = (ts.map intOf,
      match ms.lookup "overlayN" with
      | none => min (ts.length * 2) (2 ^ 32 - 1)
      | some _ => countOf ms "overlayN") := by
  rw [overlayOf, h]

/-- An overlay that is no list is none. -/
theorem overlayOf_other {ms : Members} {w : Value} (h : ms.lookup "overlay" = some (some w))
    (hkind : w.kind ≠ .list) : overlayOf ms = ([], 0) := by
  rw [overlayOf, h]
  cases w with
  | list ts => exact absurd rfl hkind
  | _ => rfl

/-- The frame of a result with its bitmap and its period. -/
def frameOfList (ms : Members) (bitmap : List Thunk) (nextMs : ℤ) : ScreenFrame where
  bitmap := bitmap.map intOf
  nextMs := nextMs
  delta := boolOf ms "delta"
  n := if boolOf ms "delta" then countOf ms "n" else 0
  overlay := (overlayOf ms).1
  overlayN := (overlayOf ms).2
  hidden := boolOf ms "hidden"
  pause := boolOf ms "pause"
  autoReturnMs := countOf ms "autoReturnMs"
  wantsScan := boolOf ms "wantsScan"

/-- The frame of a result, if it has one. -/
def frameOf : Thunk → Option ScreenFrame
  | some (.attrs ms) =>
      match ms.lookup "bitmap", ms.lookup "nextMs" with
      | some (some (.list ts)), some next => some (frameOfList ms ts (intOf next))
      | _, _ => none
  | _ => none

theorem frameOf_other {w : Value} (h : w.kind ≠ .attrs) : frameOf (some w) = none := by
  cases w with
  | attrs ms => exact absurd rfl h
  | _ => rfl

section FrameOf

variable {ms : Members}

theorem frameOf_no_bitmap (h : ms.lookup "bitmap" = none) : frameOf (some (.attrs ms)) = none := by
  rw [frameOf, h]

theorem frameOf_no_next (h : ms.lookup "nextMs" = none) : frameOf (some (.attrs ms)) = none := by
  rw [frameOf, h]
  split
  · rename_i hnext
    cases hnext
  · rfl

theorem frameOf_no_list {w : Value} (h : ms.lookup "bitmap" = some (some w))
    (hkind : w.kind ≠ .list) : frameOf (some (.attrs ms)) = none := by
  rw [frameOf, h]
  cases w with
  | list ts => exact absurd rfl hkind
  | _ => rfl

theorem frameOf_list {ts : List Thunk} {nextMs : ℤ}
    (h : ms.lookup "bitmap" = some (some (.list ts)))
    (hnext : ms.lookup "nextMs" = some (some (.int nextMs))) :
    frameOf (some (.attrs ms)) = some (frameOfList ms ts nextMs) := by
  rw [frameOf, h, hnext]
  rfl

end FrameOf

/-- An attribute that is a boolean, if it is there. -/
def IsBool (ms : Members) (name : String) : Prop :=
  ∀ t, ms.lookup name = some t → ∃ b, t = some (.bool b)

/-- An attribute that is an integer, if it is there. -/
def IsInt (ms : Members) (name : String) : Prop :=
  ∀ t, ms.lookup name = some t → ∃ n, t = some (.int n)

/-- An attribute that is a list of integers, if it is there and is a list. -/
def IsInts (ms : Members) (name : String) : Prop :=
  ∀ t, ms.lookup name = some t →
    ∃ w, t = some w ∧ ∀ ts, w = .list ts → ∀ e ∈ ts, ∃ n, e = some (.int n)

/-- The attributes that the contract names have its types. -/
structure Documented (ms : Members) : Prop where
  bitmap : IsInts ms "bitmap"
  nextMs : IsInt ms "nextMs"
  delta : IsBool ms "delta"
  n : IsInt ms "n"
  overlay : IsInts ms "overlay"
  overlayN : IsInt ms "overlayN"
  hidden : IsBool ms "hidden"
  pause : IsBool ms "pause"
  autoReturnMs : IsInt ms "autoReturnMs"
  wantsScan : IsBool ms "wantsScan"

/-! ### Buffers -/

/-- What fails a frame. -/
inductive Error
  | patternNotAttrs
  | missingBitmap
  | missingNextMs
  | bitmapNotList
  | nixCall
  | callFailed
  | listElemNull
  | outOfMemory
  | intOutOfRange
  | indexOutOfBounds
  | evaluation
  deriving DecidableEq, Repr

/-- `ints` and `overlay_ints`. -/
inductive Buf
  | ints
  | overlayInts
  deriving DecidableEq, Repr

/-- The buffers of a backend. -/
abbrev Buffers := Buf → List ℤ

/-- A step of a backend: it may fail, and what it wrote into its buffers stays. -/
abbrev M := EStateM Error Buffers

/-- What does not touch the buffers. -/
def liftExcept {α : Type} : Except Error α → M α
  | .ok a => pure a
  | .error e => throw e

instance : MonadLift (Except Error) M := ⟨liftExcept⟩

/-- The allocator.  New room holds anything. -/
structure Allocator where
  alloc : ℕ → Option (List ℤ)
  realloc : List ℤ → ℕ → Option (List ℤ)

/-- There is memory: what is asked for is given. -/
structure Allocator.Grants (gpa : Allocator) : Prop where
  alloc : ∀ n, ∃ new, gpa.alloc n = some new ∧ new.length = n
  realloc : ∀ old n, ∃ new, gpa.realloc old n = some new ∧ new.length = n

/-- Grow a buffer to hold at least `need` integers. -/
def ensureInts (gpa : Allocator) (dst : Buf) (need : ℕ) : M Unit := do
  let ints := (← get) dst
  if need ≤ ints.length then return
  match if ints.length = 0 then gpa.alloc need else gpa.realloc ints need with
  | none => throw .outOfMemory
  | some new => modify fun s => Function.update s dst new

/-- Read one integer after the other, into a buffer from place `i` on. -/
def fill {α : Type} (dst : Buf) (read : α → Except Error ℤ) : (i : ℕ) → List α → M Unit
  | _, [] => return
  | i, x :: xs => do
      let v ← read x
      modify fun s => Function.update s dst ((s dst).set i v)
      fill dst read (i + 1) xs

/-- `@intCast` into a 64-bit signed integer. -/
def intCast (n : UInt64) : Except Error ℤ :=
  if n.toNat < 2 ^ 63 then .ok n.toNat else .error .intOutOfRange

section Runs

variable {α β : Type} {m : M α} {f : α → M β} {a : α} {e : Error} {s s' : Buffers}

theorem run_bind_ok (h : m.run s = .ok a s') : (m >>= f).run s = (f a).run s' := by
  show EStateM.bind m f s = f a s'
  rw [EStateM.bind, show m s = .ok a s' from h]

theorem run_lift_ok {x : Except Error α} (h : x = .ok a) :
    ((x : M α) >>= f).run s = (f a).run s := by
  rw [h]
  rfl

theorem run_lift_error {x : Except Error α} (h : x = .error e) :
    ((x : M α) >>= f).run s = .error e s := by
  rw [h]
  rfl

theorem run_get {f : Buffers → M β} : ((get : M Buffers) >>= f).run s = (f s).run s := rfl

end Runs

variable {gpa : Allocator} {dst : Buf}

/-- A buffer has room afterwards, and the other one is as it was. -/
theorem ensureInts_run (h : gpa.Grants) (dst : Buf) (need : ℕ) (s : Buffers) :
    ∃ s', (ensureInts gpa dst need).run s = .ok () s' ∧ need ≤ (s' dst).length ∧
      ∀ other, other ≠ dst → s' other = s other := by
  by_cases hroom : need ≤ (s dst).length
  · refine ⟨s, ?_, hroom, fun _ _ => rfl⟩
    show (if need ≤ (s dst).length then pure () else _ : M Unit) s = _
    rw [if_pos hroom]
    rfl
  · have hnew : ∃ new, (if (s dst).length = 0 then gpa.alloc need else gpa.realloc (s dst) need) =
        some new ∧ new.length = need := by
      split
      · exact h.alloc need
      · exact h.realloc (s dst) need
    obtain ⟨new, hnew, hlen⟩ := hnew
    refine ⟨Function.update s dst new, ?_, ?_, fun other hne => Function.update_of_ne hne _ _⟩
    · show (if need ≤ (s dst).length then pure () else _ : M Unit) s = _
      rw [if_neg hroom, hnew]
      rfl
    · rw [Function.update_self, hlen]

/-- **What is read** stands in front of the buffer. -/
theorem fill_run {α : Type} {read : α → Except Error ℤ} {xs : List α} {vs : List ℤ}
    (hread : List.Forall₂ (fun x v => read x = .ok v) xs vs) (i : ℕ) (s : Buffers)
    (hroom : i + xs.length ≤ (s dst).length) :
    ∃ s', (fill dst read i xs).run s = .ok () s' ∧
      (s' dst).take (i + xs.length) = (s dst).take i ++ vs ∧
      ∀ other, other ≠ dst → s' other = s other := by
  induction hread generalizing i s with
  | nil => exact ⟨s, rfl, by simp, fun _ _ => rfl⟩
  | @cons x v xs vs hx hxs ih =>
      have hlt : i < (s dst).length := by
        rw [List.length_cons] at hroom
        omega
      let s₁ := Function.update s dst ((s dst).set i v)
      have hset : s₁ dst = (s dst).set i v := Function.update_self ..
      obtain ⟨s', hrun, htake, hother⟩ := ih (i + 1) s₁ (by
        rw [hset, List.length_set]
        rw [List.length_cons] at hroom
        omega)
      refine ⟨s', ?_, ?_, ?_⟩
      · rw [fill, run_lift_ok hx]
        exact hrun
      · rw [hset, List.take_succ_eq_append_getElem (by rw [List.length_set]; exact hlt),
          List.take_set_of_le le_rfl, List.getElem_set_self, List.append_assoc] at htake
        rw [List.length_cons, Nat.add_comm xs.length 1, ← Nat.add_assoc]
        exact htake
      · intro other hne
        rw [hother other hne]
        exact Function.update_of_ne hne _ _

/-- **A whole list**, from the front of the buffer on. -/
theorem extract_run {α : Type} {read : α → Except Error ℤ} {xs : List α} {vs : List ℤ}
    (dst : Buf) (h : gpa.Grants) (hread : List.Forall₂ (fun x v => read x = .ok v) xs vs) (s : Buffers) :
    ∃ s₁ s', (ensureInts gpa dst xs.length).run s = .ok () s₁ ∧
      (fill dst read 0 xs).run s₁ = .ok () s' ∧ (s' dst).take xs.length = vs ∧
      ∀ other, other ≠ dst → s' other = s other := by
  obtain ⟨s₁, hensure, hroom, hkeep⟩ := ensureInts_run h dst xs.length s
  obtain ⟨s', hfill, htake, hother⟩ := fill_run hread 0 s₁ (by rwa [Nat.zero_add])
  refine ⟨s₁, s', hensure, hfill, ?_, fun other hne => (hother other hne).trans (hkeep other hne)⟩
  rw [Nat.zero_add, List.take_zero, List.nil_append] at htake
  exact htake

/-- A backend's step answers a frame, or fails where there is none, whatever the buffers held. -/
def Answers (m : M ScreenFrame) : Option ScreenFrame → Prop
  | none => ∀ s, ∃ e s', m.run s = .error e s'
  | some frame => ∀ s, ∃ s', m.run s = .ok frame s'

theorem Answers.congr {m m' : M ScreenFrame} {o : Option ScreenFrame} (h : Answers m o)
    (hrun : ∀ s, m'.run s = m.run s) : Answers m' o := by
  cases o with
  | none =>
      intro s
      rw [hrun]
      exact h s
  | some frame =>
      intro s
      rw [hrun]
      exact h s

end BadgeOS.Oled.Contract
