import BadgeOS.Oled.Contract
import Mathlib

/-!
# The fix backend

`fixeval.zig`: the scope of a frame goes to a compiled lambda, and its result is read out, over
the engine's own entry points.

* `Engine`, `Engine.Faithful` — the engine, and that it does what it is used for;
* `FixBackend.applyFrame` — the frame;
* `FixBackend.applyFrame_run` — it is the one that the contract reads.
-/

namespace BadgeOS.Oled.Contract

/-- The entry points of `expr.Engine`, and the accessors of its values. -/
structure Engine where
  Val : Type
  Name : Type
  int : ℤ → Val
  boolVal : Bool → Val
  float : UInt64 → Val
  string : Name → Val
  intern : List UInt8 → Except Error Name
  makeAttrs : List (String × Val) → Except Error Val
  applyValue : Val → Val → Except Error Val
  kind : Val → Kind
  getAttr : Val → String → Except Error (Option Val)
  forceValue : Val → Except Error Val
  asInt : Val → ℤ
  asBool : Val → Bool
  heapListOf : Val → Except Error (List Val)

/-- What the values of an engine stand for: `denotes` of one that may not be evaluated yet, and
`forced` of one that is. -/
structure Engine.Faithful (E : Engine) (denotes : E.Val → Thunk → Prop)
    (forced : E.Val → Value → Prop) : Prop where
  int : ∀ n, denotes (E.int n) (some (.int n))
  boolVal : ∀ b, denotes (E.boolVal b) (some (.bool b))
  float : ∀ x, denotes (E.float x) (some (.float x))
  string : ∀ s, ∃ name, E.intern s = .ok name ∧ denotes (E.string name) (some (.string s))
  makeAttrs : ∀ {pairs : List (String × E.Val)} {ms : Members},
    List.Forall₂ (fun p m => p.1 = m.1 ∧ denotes p.2 m.2) pairs ms → (ms.map Prod.fst).Nodup →
      ∃ v, E.makeAttrs pairs = .ok v ∧ denotes v (some (.attrs ms))
  forceValue : ∀ {v w}, denotes v (some w) → ∃ v', E.forceValue v = .ok v' ∧ forced v' w
  kind : ∀ {v w}, forced v w → E.kind v = w.kind
  asInt : ∀ {v n}, forced v (.int n) → E.asInt v = n
  asBool : ∀ {v b}, forced v (.bool b) → E.asBool v = b
  absent : ∀ {v ms name}, forced v (.attrs ms) → ms.lookup name = none →
    E.getAttr v name = .ok none
  present : ∀ {v ms name t}, forced v (.attrs ms) → ms.lookup name = some t →
    ∃ v', E.getAttr v name = .ok (some v') ∧ denotes v' t
  heapListOf : ∀ {v ts}, forced v (.list ts) → ∃ vs, E.heapListOf v = .ok vs ∧
    List.Forall₂ denotes vs ts

/-- A compiled lambda computes a function of its scope, whose evaluation may fail. -/
def Engine.Computes (E : Engine) (denotes : E.Val → Thunk → Prop)
    (forced : E.Val → Value → Prop) (lambda : E.Val) (apply : Value → Thunk) : Prop :=
  ∀ {v w}, denotes v (some w) →
    match apply w with
    | none => ∃ e, E.applyValue lambda v = .error e
    | some r => ∃ r', E.applyValue lambda v = .ok r' ∧ forced r' r

variable (E : Engine)

/-- The bindings of a scope, in the order of the table. -/
def FixBackend.pairs (fields : Fields) : Except Error (List (String × E.Val)) := do
  return [("t", E.int (← intCast fields.tMs)),
    ("frameIndex", E.int (← intCast fields.frameIndex)),
    ("width", E.int fields.width.toNat),
    ("height", E.int fields.height.toNat),
    ("batteryMv", E.int fields.batteryMv.toNat),
    ("batteryPct", E.int fields.batteryPct.toNat),
    ("onUsb", E.boolVal fields.onUsb),
    ("load1", E.float fields.load1),
    ("cpuPct", E.int fields.cpuPct.toNat),
    ("memPct", E.int fields.memPct.toNat),
    ("uptimeS", E.int fields.uptimeS.toNat),
    ("backend", E.int fields.backendId.toNat),
    ("fps", E.int fields.fps.toNat),
    ("strap", E.int fields.strap.toNat),
    ("vselMv", E.int fields.vselMv.toNat),
    ("nixosVersion", E.string (← E.intern fields.nixosVersion)),
    ("kernelVersion", E.string (← E.intern fields.kernelVersion)),
    ("ethIp", E.string (← E.intern fields.ethIp)),
    ("wlanIp", E.string (← E.intern fields.wlanIp)),
    ("storage", E.string (← E.intern fields.storage)),
    ("ethName", E.string (← E.intern fields.ethName)),
    ("wlanName", E.string (← E.intern fields.wlanName))]

/-- The scope that `applyFrame` builds. -/
def FixBackend.scope (fields : Fields) : Except Error E.Val := do
  E.makeAttrs (← pairs E fields)

/-- `if (try ev.getAttr(result, name)) |v| ... = (try ev.forceValue(v)).asBool()`. -/
def FixBackend.readBool (result : E.Val) (name : String) : Except Error Bool := do
  match ← E.getAttr result name with
  | none => return false
  | some v => return E.asBool (← E.forceValue v)

/-- A count: what is not positive stays 0. -/
def FixBackend.readCount (result : E.Val) (name : String) : Except Error ℕ := do
  match ← E.getAttr result name with
  | none => return 0
  | some v =>
      let raw := E.asInt (← E.forceValue v)
      return if raw > 0 then min raw.toNat (2 ^ 32 - 1) else 0

/-- `(try ev.forceValue(p)).asInt()`. -/
def FixBackend.readInt (p : E.Val) : Except Error ℤ := do
  return E.asInt (← E.forceValue p)

/-- The overlay of a result: its length in the buffer, and its entries. -/
def FixBackend.readOverlay (gpa : Allocator) (result : E.Val) : M (ℕ × ℕ) := do
  match ← E.getAttr result "overlay" with
  | none => return (0, 0)
  | some ov =>
      let ovf ← E.forceValue ov
      if E.kind ovf = .list then
        let ol ← E.heapListOf ovf
        ensureInts gpa .overlayInts ol.length
        fill .overlayInts (readInt E) 0 ol
        match ← E.getAttr result "overlayN" with
        | some ovn =>
            let raw := E.asInt (← E.forceValue ovn)
            return (ol.length, if raw > 0 then min raw.toNat (2 ^ 32 - 1) else 0)
        | none => return (ol.length, min (ol.length * 2) (2 ^ 32 - 1))
      else return (0, 0)

/-- The changes of a delta. -/
def FixBackend.readChanges (result : E.Val) (isDelta : Bool) : Except Error ℕ :=
  if isDelta then readCount E result "n" else .ok 0

/-- The frame of a result, whose `bitmap` is a list and whose `nextMs` was evaluated. -/
def FixBackend.readFrame (gpa : Allocator) (result bitmap next : E.Val) : M ScreenFrame := do
  let isDelta ← readBool E result "delta"
  let nChanges ← readChanges E result isDelta
  let pix ← E.heapListOf bitmap
  ensureInts gpa .ints pix.length
  fill .ints (readInt E) 0 pix
  let (overlayLen, overlayEntries) ← readOverlay E gpa result
  let hidden ← readBool E result "hidden"
  let pause ← readBool E result "pause"
  let wantsScan ← readBool E result "wantsScan"
  let autoReturnMs ← readCount E result "autoReturnMs"
  let bufs ← get
  return { bitmap := (bufs .ints).take pix.length, nextMs := E.asInt next, delta := isDelta,
           n := nChanges, overlay := (bufs .overlayInts).take overlayLen,
           overlayN := overlayEntries, hidden, pause, autoReturnMs, wantsScan }

/-- The checks on a result, and its frame. -/
def FixBackend.readResult (gpa : Allocator) (result : E.Val) : M ScreenFrame := do
  if E.kind result ≠ .attrs then throw .patternNotAttrs else
  let some bitmapAttr ← E.getAttr result "bitmap" | throw .missingBitmap
  let bitmap ← E.forceValue bitmapAttr
  let some nextAttr ← E.getAttr result "nextMs" | throw .missingNextMs
  let next ← E.forceValue nextAttr
  if E.kind bitmap ≠ .list then throw .bitmapNotList else
  readFrame E gpa result bitmap next

/-- Apply lambda `idx` to a fresh scope and read the result out. -/
def FixBackend.applyFrame (gpa : Allocator) (lambdas : List E.Val) (idx : ℕ) (fields : Fields) :
    M ScreenFrame := do
  let scope ← FixBackend.scope E fields
  let some lambda := lambdas[idx]? | throw .indexOutOfBounds
  let result ← E.applyValue lambda scope
  readResult E gpa result

/-! ### What it reads -/

variable {E} {denotes : E.Val → Thunk → Prop} {forced : E.Val → Value → Prop} {r : E.Val}
  {ms : Members} {name : String} {gpa : Allocator}

namespace FixBackend

theorem readBool_ok (hE : E.Faithful denotes forced) (hr : forced r (.attrs ms))
    (htype : IsBool ms name) : readBool E r name = .ok (boolOf ms name) := by
  rw [readBool, boolOf]
  cases hlookup : ms.lookup name with
  | none =>
      rw [hE.absent hr hlookup]
      rfl
  | some t =>
      obtain ⟨b, rfl⟩ := htype t hlookup
      obtain ⟨v, hget, hv⟩ := hE.present hr hlookup
      obtain ⟨v', hforce, hv'⟩ := hE.forceValue hv
      rw [hget]
      show (E.forceValue v >>= fun v => pure (E.asBool v)) = _
      rw [hforce]
      exact congrArg Except.ok (hE.asBool hv')

/-- The two ways to write the clamp. -/
theorem count_eq (raw : ℤ) :
    (if raw > 0 then min raw.toNat (2 ^ 32 - 1) else 0) = clampCount raw := by
  rw [clampCount]
  by_cases hpos : raw > 0
  · rw [if_pos hpos, if_neg (by omega)]
  · rw [if_neg hpos, if_pos (by omega)]

theorem readCount_ok (hE : E.Faithful denotes forced) (hr : forced r (.attrs ms))
    (htype : IsInt ms name) : readCount E r name = .ok (countOf ms name) := by
  rw [readCount, countOf]
  cases hlookup : ms.lookup name with
  | none =>
      rw [hE.absent hr hlookup]
      rfl
  | some t =>
      obtain ⟨n, rfl⟩ := htype t hlookup
      obtain ⟨v, hget, hv⟩ := hE.present hr hlookup
      obtain ⟨v', hforce, hv'⟩ := hE.forceValue hv
      simp only [hget, hforce, bind, Except.bind, pure, Except.pure, hE.asInt hv', count_eq]

theorem readInt_ok (hE : E.Faithful denotes forced) {v : E.Val} {n : ℤ}
    (hv : denotes v (some (.int n))) : readInt E v = .ok n := by
  obtain ⟨v', hforce, hv'⟩ := hE.forceValue hv
  rw [readInt, hforce]
  exact congrArg Except.ok (hE.asInt hv')

/-- The elements of a list of integers. -/
theorem readInts_ok (hE : E.Faithful denotes forced) {vs : List E.Val} {ts : List Thunk}
    (hvs : List.Forall₂ denotes vs ts) (hints : ∀ e ∈ ts, ∃ n, e = some (.int n)) :
    List.Forall₂ (fun v n => readInt E v = .ok n) vs (ts.map intOf) := by
  induction hvs with
  | nil => exact .nil
  | @cons v t vs ts hv _ ih =>
      obtain ⟨n, rfl⟩ := hints t (by simp)
      exact .cons (readInt_ok hE hv) (ih fun e he => hints e (by simp [he]))

/-- **The scope** is the contract's. -/
theorem scope_ok (hE : E.Faithful denotes forced) {fields : Fields} (hfields : fields.Holdable) :
    ∃ v, scope E fields = .ok v ∧ denotes v (some (.attrs (scopeOf fields))) := by
  obtain ⟨_, h₁, d₁⟩ := hE.string fields.nixosVersion
  obtain ⟨_, h₂, d₂⟩ := hE.string fields.kernelVersion
  obtain ⟨_, h₃, d₃⟩ := hE.string fields.ethIp
  obtain ⟨_, h₄, d₄⟩ := hE.string fields.wlanIp
  obtain ⟨_, h₅, d₅⟩ := hE.string fields.storage
  obtain ⟨_, h₆, d₆⟩ := hE.string fields.ethName
  obtain ⟨_, h₇, d₇⟩ := hE.string fields.wlanName
  rw [scope, pairs, intCast, intCast, if_pos hfields.tMs, if_pos hfields.frameIndex, h₁, h₂, h₃,
    h₄, h₅, h₆, h₇]
  refine hE.makeAttrs ?_ (scopeOf_nodup fields)
  simp only [scopeOf, List.forall₂_cons, List.forall₂_nil_left_iff, and_true, hE.int,
    hE.boolVal, hE.float, d₁, d₂, d₃, d₄, d₅, d₆, d₇]

/-- **The overlay** is the contract's, and the bitmap's buffer is left alone. -/
theorem readOverlay_run (hE : E.Faithful denotes forced) (hgpa : gpa.Grants)
    (hr : forced r (.attrs ms)) (hms : Documented ms) (s : Buffers) :
    ∃ len s', (readOverlay E gpa r).run s = .ok (len, (overlayOf ms).2) s' ∧
      (s' .overlayInts).take len = (overlayOf ms).1 ∧ s' .ints = s .ints := by
  cases hlookup : ms.lookup "overlay" with
  | none =>
      have hnone : overlayOf ms = ([], 0) := by rw [overlayOf, hlookup]
      refine ⟨0, s, ?_, ?_, rfl⟩
      · rw [readOverlay, run_lift_ok (hE.absent hr hlookup), hnone]
        rfl
      · rw [hnone, List.take_zero]
  | some t =>
      obtain ⟨w, rfl, hints⟩ := hms.overlay t hlookup
      obtain ⟨v, hget, hv⟩ := hE.present hr hlookup
      obtain ⟨v', hforce, hv'⟩ := hE.forceValue hv
      have hkind := hE.kind hv'
      by_cases hlist : w.kind = .list
      · obtain ⟨ts, rfl⟩ := Value.list_of_kind hlist
        obtain ⟨vs, hheap, hvs⟩ := hE.heapListOf hv'
        obtain ⟨s₁, s', hensure, hfill, htake, hkeep⟩ :=
          extract_run .overlayInts hgpa (readInts_ok hE hvs (hints ts rfl)) s
        have hlen : vs.length = ts.length := hvs.length_eq
        refine ⟨vs.length, s', ?_, ?_, hkeep .ints (by decide)⟩
        · rw [readOverlay, run_lift_ok hget]
          simp only
          rw [run_lift_ok hforce, if_pos (hkind.trans hlist), run_lift_ok hheap,
            run_bind_ok hensure, run_bind_ok hfill, overlayOf_list hlookup]
          cases hn : ms.lookup "overlayN" with
          | none =>
              rw [run_lift_ok (hE.absent hr hn), hlen]
              rfl
          | some t =>
              have hcount := hms.overlayN t hn
              obtain ⟨n, rfl⟩ := hcount
              obtain ⟨k, hgetN, hk⟩ := hE.present hr hn
              obtain ⟨k', hforceN, hk'⟩ := hE.forceValue hk
              rw [run_lift_ok hgetN]
              simp only
              rw [run_lift_ok hforceN, hE.asInt hk', count_eq, countOf, hn]
              rfl
        · rw [overlayOf_list hlookup]
          exact htake
      · have hnone := overlayOf_other hlookup hlist
        have hne : E.kind v' ≠ .list := fun h => hlist (hkind.symm.trans h)
        refine ⟨0, s, ?_, ?_, rfl⟩
        · rw [readOverlay, run_lift_ok hget]
          simp only
          rw [run_lift_ok hforce, if_neg hne, hnone]
          rfl
        · rw [hnone, List.take_zero]

/-- Past the checks, the frame is read whole. -/
theorem readFrame_run (hE : E.Faithful denotes forced) (hgpa : gpa.Grants)
    (hr : forced r (.attrs ms)) (hms : Documented ms) {ts : List Thunk} {bitmap next : E.Val}
    {nextMs : ℤ} (hints : ∀ e ∈ ts, ∃ n, e = some (.int n)) (hbitmap : forced bitmap (.list ts))
    (hnext : forced next (.int nextMs)) (s : Buffers) :
    ∃ s', (readFrame E gpa r bitmap next).run s = .ok (frameOfList ms ts nextMs) s' := by
  obtain ⟨pix, hheap, hpix⟩ := hE.heapListOf hbitmap
  obtain ⟨s₁, s₂, hensure, hfill, hbits, -⟩ :=
    extract_run .ints hgpa (readInts_ok hE hpix hints) s
  obtain ⟨len, s', hoverlay, hentries, hkeep⟩ := readOverlay_run hE hgpa hr hms s₂
  have hchanges : readChanges E r (boolOf ms "delta") =
      .ok (if boolOf ms "delta" then countOf ms "n" else 0) := by
    rw [readChanges, readCount_ok hE hr hms.n]
    split <;> rfl
  refine ⟨s', ?_⟩
  rw [readFrame, run_lift_ok (readBool_ok hE hr hms.delta), run_lift_ok hchanges,
    run_lift_ok hheap, run_bind_ok hensure, run_bind_ok hfill, run_bind_ok hoverlay]
  simp only
  rw [run_lift_ok (readBool_ok hE hr hms.hidden), run_lift_ok (readBool_ok hE hr hms.pause),
    run_lift_ok (readBool_ok hE hr hms.wantsScan),
    run_lift_ok (readCount_ok hE hr hms.autoReturnMs), run_get, hkeep, hbits, hentries,
    hE.asInt hnext]
  rfl

theorem readResult_answers (hE : E.Faithful denotes forced) (hgpa : gpa.Grants)
    (hr : forced r (.attrs ms)) (hms : Documented ms) :
    Answers (readResult E gpa r) (frameOf (some (.attrs ms))) := by
  have hset : ¬E.kind r ≠ .attrs := not_not_intro (hE.kind hr)
  cases hbitmap : ms.lookup "bitmap" with
  | none =>
      rw [frameOf_no_bitmap hbitmap]
      intro s
      refine ⟨.missingBitmap, s, ?_⟩
      rw [readResult, if_neg hset, run_lift_ok (hE.absent hr hbitmap)]
      rfl
  | some t =>
      obtain ⟨w, rfl, hints⟩ := hms.bitmap t hbitmap
      obtain ⟨v, hget, hv⟩ := hE.present hr hbitmap
      obtain ⟨bitmap, hforce, hv'⟩ := hE.forceValue hv
      cases hnext : ms.lookup "nextMs" with
      | none =>
          rw [frameOf_no_next hnext]
          intro s
          refine ⟨.missingNextMs, s, ?_⟩
          rw [readResult, if_neg hset, run_lift_ok hget]
          simp only
          rw [run_lift_ok hforce, run_lift_ok (hE.absent hr hnext)]
          rfl
      | some t =>
          obtain ⟨nextMs, rfl⟩ := hms.nextMs t hnext
          obtain ⟨k, hgetNext, hk⟩ := hE.present hr hnext
          obtain ⟨next, hforceNext, hk'⟩ := hE.forceValue hk
          have hrun (s : Buffers) : (readResult E gpa r).run s =
              (if E.kind bitmap ≠ .list then throw .bitmapNotList
                else readFrame E gpa r bitmap next).run s := by
            rw [readResult, if_neg hset, run_lift_ok hget]
            simp only
            rw [run_lift_ok hforce, run_lift_ok hgetNext]
            simp only
            rw [run_lift_ok hforceNext]
          have hkind := hE.kind hv'
          by_cases hlist : w.kind = .list
          · obtain ⟨ts, rfl⟩ := Value.list_of_kind hlist
            rw [frameOf_list hbitmap hnext]
            intro s
            obtain ⟨s', hframe⟩ := readFrame_run hE hgpa hr hms (hints ts rfl) hv' hk' s
            refine ⟨s', ?_⟩
            rw [hrun, if_neg (not_not_intro (hkind.trans hlist)), hframe]
          · rw [frameOf_no_list hbitmap hlist]
            intro s
            refine ⟨.bitmapNotList, s, ?_⟩
            rw [hrun, if_pos (by rwa [hkind])]
            rfl

/-- **The frame** is the one that the contract reads of the result. -/
theorem applyFrame_answers (hE : E.Faithful denotes forced) (hgpa : gpa.Grants)
    {lambdas : List E.Val} {idx : ℕ} {lambda : E.Val} {apply : Value → Thunk}
    (hidx : lambdas[idx]? = some lambda) (happly : E.Computes denotes forced lambda apply)
    {fields : Fields} (hfields : fields.Holdable)
    (htypes : ∀ ms, apply (.attrs (scopeOf fields)) = some (.attrs ms) → Documented ms) :
    Answers (applyFrame E gpa lambdas idx fields)
      (frameOf (apply (.attrs (scopeOf fields)))) := by
  obtain ⟨scope, hscope, hdenotes⟩ := scope_ok hE hfields
  have hcall := happly hdenotes
  cases hresult : apply (.attrs (scopeOf fields)) with
  | none =>
      rw [hresult] at hcall
      obtain ⟨e, herror⟩ := hcall
      intro s
      refine ⟨e, s, ?_⟩
      rw [applyFrame, run_lift_ok hscope, hidx]
      exact run_lift_error herror
  | some w =>
      rw [hresult] at hcall
      obtain ⟨r, hcall, hr⟩ := hcall
      have hrun (s : Buffers) : (applyFrame E gpa lambdas idx fields).run s =
          (readResult E gpa r).run s := by
        rw [applyFrame, run_lift_ok hscope, hidx]
        simp only
        rw [run_lift_ok hcall]
      by_cases hattrs : w.kind = .attrs
      · obtain ⟨ms, rfl⟩ := Value.attrs_of_kind hattrs
        exact (readResult_answers hE hgpa hr (htypes ms hresult)).congr hrun
      · rw [frameOf_other hattrs]
        intro s
        refine ⟨.patternNotAttrs, s, ?_⟩
        rw [hrun, readResult, if_pos (by rwa [hE.kind hr])]
        rfl

end FixBackend

end BadgeOS.Oled.Contract
