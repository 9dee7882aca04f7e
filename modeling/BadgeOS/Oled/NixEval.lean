import BadgeOS.Oled.Contract
import Mathlib

/-!
# The nix backend

`nixeval.zig`: the same frame over the C API of upstream Nix, which returns a code or a null
for what fails.

* `Api`, `Api.Faithful` — the C API, and that it does what it is used for;
* `NixBackend.applyFrame` — the frame;
* `NixBackend.applyFrame_answers` — it is the one that the contract reads.
-/

namespace BadgeOS.Oled.Contract

/-- The calls of the C API.  `none` is a code other than `NIX_OK`, or a null. -/
structure Api where
  Val : Type
  Builder : Type
  initBool : Bool → Option Val
  initInt : ℤ → Option Val
  initFloat : UInt64 → Option Val
  initString : List UInt8 → Option Val
  makeBindingsBuilder : ℕ → Builder
  bindingsBuilderInsert : Builder → String → Val → Option Builder
  makeAttrs : Builder → Option Val
  valueCall : Val → Val → Option Val
  valueForce : Val → Option Val
  getType : Val → Kind
  hasAttrByname : Val → String → Bool
  getAttrByname : Val → String → Option Val
  getBool : Val → Bool
  getInt : Val → ℤ
  getListSize : Val → UInt32
  getListByidx : Val → UInt32 → Option Val

/-- What the values stand for, and what has been put into a builder of some capacity. -/
structure Api.Faithful (N : Api) (denotes : N.Val → Thunk → Prop) (forced : N.Val → Value → Prop)
    (holds : N.Builder → ℕ → Members → Prop) : Prop where
  initBool : ∀ b, ∃ v, N.initBool b = some v ∧ denotes v (some (.bool b))
  initInt : ∀ n, ∃ v, N.initInt n = some v ∧ denotes v (some (.int n))
  initFloat : ∀ x, ∃ v, N.initFloat x = some v ∧ denotes v (some (.float x))
  initString : ∀ s, ∃ v, N.initString s = some v ∧ denotes v (some (.string s))
  makeBindingsBuilder : ∀ capacity, holds (N.makeBindingsBuilder capacity) capacity []
  bindingsBuilderInsert : ∀ {b capacity ms v t} (name : String), holds b capacity ms →
    ms.length < capacity → denotes v t →
      ∃ b', N.bindingsBuilderInsert b name v = some b' ∧ holds b' capacity (ms ++ [(name, t)])
  makeAttrs : ∀ {b capacity ms}, holds b capacity ms → (ms.map Prod.fst).Nodup →
    ∃ v, N.makeAttrs b = some v ∧ denotes v (some (.attrs ms))
  valueForce : ∀ {v w}, denotes v (some w) → ∃ v', N.valueForce v = some v' ∧ forced v' w
  getType : ∀ {v w}, forced v w → N.getType v = w.kind
  getBool : ∀ {v b}, forced v (.bool b) → N.getBool v = b
  getInt : ∀ {v n}, forced v (.int n) → N.getInt v = n
  hasAttrByname : ∀ {v ms name}, forced v (.attrs ms) →
    N.hasAttrByname v name = (ms.lookup name).isSome
  absent : ∀ {v ms name}, forced v (.attrs ms) → ms.lookup name = none →
    N.getAttrByname v name = none
  present : ∀ {v ms name w}, forced v (.attrs ms) → ms.lookup name = some (some w) →
    ∃ v', N.getAttrByname v name = some v' ∧ denotes v' (some w)
  getListSize : ∀ {v ts}, forced v (.list ts) → (N.getListSize v).toNat = ts.length
  getListByidx : ∀ {v ts i w}, forced v (.list ts) → ts[i]? = some (some w) →
    ∃ v', N.getListByidx v (UInt32.ofNat i) = some v' ∧ denotes v' (some w)

/-- A compiled lambda computes a function of its scope, whose evaluation may fail: in the call,
or when the result is forced. -/
def Api.Computes (N : Api) (denotes : N.Val → Thunk → Prop) (lambda : N.Val)
    (apply : Value → Thunk) : Prop :=
  ∀ {v w}, denotes v (some w) →
    match apply w with
    | none => ∀ r, N.valueCall lambda v = some r → N.valueForce r = none
    | some r => ∃ r', N.valueCall lambda v = some r' ∧ denotes r' (some r)

/-- An entry of the scope's table. -/
inductive Entry
  | int (n : ℤ)
  | bool (b : Bool)
  | float (bits : UInt64)
  | pointer (s : List UInt8)

/-- What a pointer to a string with a NUL behind it is read as. -/
def cString (s : List UInt8) : List UInt8 := (s ++ [0]).takeWhile (· ≠ 0)

variable (N : Api)

/-- `check`. -/
def NixBackend.check {α : Type} : Option α → Except Error α
  | none => .error .nixCall
  | some a => .ok a

/-- One nix value, by the type of what it holds. -/
def NixBackend.newValue : Entry → Except Error N.Val
  | .int n => check (N.initInt n)
  | .bool b => check (N.initBool b)
  | .float x => check (N.initFloat x)
  | .pointer s => check (N.initString (cString s))

/-- The table of entries, after its casts. -/
def NixBackend.table (fields : Fields) (tMs frameIndex : ℤ) : List (String × Entry) :=
  [("t", .int tMs),
    ("frameIndex", .int frameIndex),
    ("width", .int fields.width.toNat),
    ("height", .int fields.height.toNat),
    ("batteryMv", .int fields.batteryMv.toNat),
    ("batteryPct", .int fields.batteryPct.toNat),
    ("onUsb", .bool fields.onUsb),
    ("load1", .float fields.load1),
    ("cpuPct", .int fields.cpuPct.toNat),
    ("memPct", .int fields.memPct.toNat),
    ("uptimeS", .int fields.uptimeS.toNat),
    ("backend", .int fields.backendId.toNat),
    ("fps", .int fields.fps.toNat),
    ("strap", .int fields.strap.toNat),
    ("vselMv", .int fields.vselMv.toNat),
    ("nixosVersion", .pointer fields.nixosVersion),
    ("kernelVersion", .pointer fields.kernelVersion),
    ("ethIp", .pointer fields.ethIp),
    ("wlanIp", .pointer fields.wlanIp),
    ("storage", .pointer fields.storage),
    ("ethName", .pointer fields.ethName),
    ("wlanName", .pointer fields.wlanName)]

def NixBackend.entries (fields : Fields) : Except Error (List (String × Entry)) := do
  return table fields (← intCast fields.tMs) (← intCast fields.frameIndex)

/-- One entry, inserted. -/
def NixBackend.insert (b : N.Builder) (entry : String × Entry) : Except Error N.Builder := do
  let val ← newValue N entry.2
  check (N.bindingsBuilderInsert b entry.1 val)

def NixBackend.buildScope (fields : Fields) : Except Error N.Val := do
  let entries ← NixBackend.entries fields
  let b ← entries.foldlM (insert N) (N.makeBindingsBuilder entries.length)
  check (N.makeAttrs b)

/-- An optional attribute, or the fallback. -/
def NixBackend.optAttr {α : Type} (read : N.Val → α) (res : N.Val) (attr : String) (fallback : α) :
    Except Error α :=
  if N.hasAttrByname res attr = false then .ok fallback
  else
    match N.getAttrByname res attr with
    | none => .ok fallback
    | some v => do
        return read (← check (N.valueForce v))

/-- `clampCount(try self.optAttr(i64, res, attr, 0))`. -/
def NixBackend.optCount (res : N.Val) (attr : String) : Except Error ℕ := do
  return clampCount (← optAttr N N.getInt res attr 0)

def NixBackend.readElem (list : N.Val) (i : ℕ) : Except Error ℤ :=
  match N.getListByidx list (UInt32.ofNat i) with
  | none => .error .listElemNull
  | some el => do
      return N.getInt (← check (N.valueForce el))

/-- Every element of a list into a buffer; its length. -/
def NixBackend.extractList (gpa : Allocator) (list : N.Val) (dst : Buf) : M ℕ := do
  let len := (N.getListSize list).toNat
  ensureInts gpa dst len
  fill dst (readElem N list) 0 (List.range len)
  return len

/-- The changes of a delta. -/
def NixBackend.readChanges (res : N.Val) (isDelta : Bool) : Except Error ℕ :=
  if isDelta then optCount N res "n" else .ok 0

/-- How many entries an overlay has. -/
def NixBackend.overlayEntries (res : N.Val) (overlayLen : ℕ) : Except Error ℕ :=
  if N.hasAttrByname res "overlayN" then optCount N res "overlayN"
  else .ok (min (overlayLen * 2) (2 ^ 32 - 1))

/-- The overlay of a result: its length in the buffer, and its entries. -/
def NixBackend.readOverlay (gpa : Allocator) (res : N.Val) : M (ℕ × ℕ) :=
  if N.hasAttrByname res "overlay" = false then return (0, 0)
  else
    match N.getAttrByname res "overlay" with
    | none => return (0, 0)
    | some ov => do
        let ov ← check (N.valueForce ov)
        if N.getType ov = .list then
          let overlayLen ← extractList N gpa ov .overlayInts
          let overlayEntries ← NixBackend.overlayEntries N res overlayLen
          return (overlayLen, overlayEntries)
        else return (0, 0)

/-- The frame of a result, whose `bitmap` is a list and whose `nextMs` was read. -/
def NixBackend.readFrame (gpa : Allocator) (res bitmap : N.Val) (nextMs : ℤ) : M ScreenFrame := do
  let isDelta ← optAttr N N.getBool res "delta" false
  let nChanges ← readChanges N res isDelta
  let bitmapLen ← extractList N gpa bitmap .ints
  let (overlayLen, overlayEntries) ← readOverlay N gpa res
  let bufs ← get
  return { bitmap := (bufs .ints).take bitmapLen, nextMs, delta := isDelta, n := nChanges,
           overlay := (bufs .overlayInts).take overlayLen, overlayN := overlayEntries,
           hidden := ← optAttr N N.getBool res "hidden" false,
           pause := ← optAttr N N.getBool res "pause" false,
           autoReturnMs := ← optCount N res "autoReturnMs",
           wantsScan := ← optAttr N N.getBool res "wantsScan" false }

/-- The period of a result whose `bitmap` is a list, and its frame. -/
def NixBackend.readNext (gpa : Allocator) (res bitmap : N.Val) : M ScreenFrame := do
  let some next := N.getAttrByname res "nextMs" | throw .missingNextMs
  let next ← check (N.valueForce next)
  readFrame N gpa res bitmap (N.getInt next)

/-- The checks on a result, and its frame. -/
def NixBackend.readResult (gpa : Allocator) (res : N.Val) : M ScreenFrame := do
  if N.getType res ≠ .attrs then throw .patternNotAttrs else
  let some bitmap := N.getAttrByname res "bitmap" | throw .missingBitmap
  let bitmap ← check (N.valueForce bitmap)
  if N.getType bitmap ≠ .list then throw .bitmapNotList else
  readNext N gpa res bitmap

/-- Apply lambda `idx` to a fresh scope and read the result out. -/
def NixBackend.applyFrame (gpa : Allocator) (lambdas : List N.Val) (idx : ℕ) (fields : Fields) :
    M ScreenFrame := do
  let scope ← buildScope N fields
  let some lambda := lambdas[idx]? | throw .indexOutOfBounds
  let some res := N.valueCall lambda scope | throw .callFailed
  let res ← check (N.valueForce res)
  readResult N gpa res

/-! ### What it reads -/

variable {N} {denotes : N.Val → Thunk → Prop} {forced : N.Val → Value → Prop}
  {holds : N.Builder → ℕ → Members → Prop} {r : N.Val} {ms : Members} {name : String}
  {gpa : Allocator}

namespace NixBackend

/-- A string without a NUL is read whole. -/
theorem cString_eq {s : List UInt8} (h : 0 ∉ s) : cString s = s := by
  have hall : ∀ c ∈ s, decide (c ≠ 0) = true := by
    intro c hc
    have hne : c ≠ 0 := by
      rintro rfl
      exact h hc
    exact decide_eq_true hne
  rw [cString, List.takeWhile_append_of_pos hall]
  exact List.append_nil s

/-- What an entry stands for. -/
def Entry.value : Entry → Value
  | .int n => .int n
  | .bool b => .bool b
  | .float x => .float x
  | .pointer s => .string s

/-- An entry that C reads whole. -/
def Entry.Plain : Entry → Prop
  | .pointer s => 0 ∉ s
  | _ => True

theorem newValue_ok (hN : N.Faithful denotes forced holds) {e : Entry} (h : Entry.Plain e) :
    ∃ v, newValue N e = .ok v ∧ denotes v (some (Entry.value e)) := by
  have hcheck {o : Option N.Val} {w : Value} (ho : ∃ v, o = some v ∧ denotes v (some w)) :
      ∃ v, check o = .ok v ∧ denotes v (some w) := by
    obtain ⟨v, rfl, hv⟩ := ho
    exact ⟨v, rfl, hv⟩
  cases e with
  | int n => exact hcheck (hN.initInt n)
  | bool b => exact hcheck (hN.initBool b)
  | float x => exact hcheck (hN.initFloat x)
  | pointer s =>
      show ∃ v, check (N.initString (cString s)) = .ok v ∧ _
      rw [cString_eq h]
      exact hcheck (hN.initString s)

/-- Entries inserted into a builder with room for them. -/
theorem insert_all (hN : N.Faithful denotes forced holds) {entries : List (String × Entry)}
    (hplain : ∀ e ∈ entries, Entry.Plain e.2) {capacity : ℕ}
    (hroom : ms.length + entries.length ≤ capacity) {b : N.Builder} (hb : holds b capacity ms) :
    ∃ b', entries.foldlM (insert N) b = .ok b' ∧
      holds b' capacity (ms ++ entries.map fun e => (e.1, some (Entry.value e.2))) := by
  induction entries generalizing b ms with
  | nil => exact ⟨b, rfl, by simpa using hb⟩
  | cons e entries ih =>
      obtain ⟨v, hnew, hv⟩ := newValue_ok hN (hplain e (by simp))
      rw [List.length_cons] at hroom
      obtain ⟨b₁, hinsert, hb₁⟩ := hN.bindingsBuilderInsert e.1 hb (by omega) hv
      have hone : insert N b e = .ok b₁ := by
        rw [insert, hnew]
        show check (N.bindingsBuilderInsert b e.1 v) = _
        rw [hinsert]
        rfl
      obtain ⟨b', hrest, hb'⟩ := ih (fun e he => hplain e (by simp [he]))
        (by rw [List.length_append, List.length_singleton]; omega) hb₁
      refine ⟨b', ?_, ?_⟩
      · rw [List.foldlM_cons, hone]
        exact hrest
      · rw [List.map_cons]
        simpa using hb'

/-- **The scope** is the contract's. -/
theorem buildScope_ok (hN : N.Faithful denotes forced holds) {fields : Fields}
    (hfields : fields.Holdable) :
    ∃ v, buildScope N fields = .ok v ∧ denotes v (some (.attrs (scopeOf fields))) := by
  have hentries : entries fields =
      .ok (table fields fields.tMs.toNat fields.frameIndex.toNat) := by
    rw [entries, intCast, intCast, if_pos hfields.tMs, if_pos hfields.frameIndex]
    rfl
  have hplain : ∀ e ∈ table fields fields.tMs.toNat fields.frameIndex.toNat,
      Entry.Plain e.2 := by
    have hstrings := hfields.strings
    simp only [Fields.strings, List.forall_mem_cons, List.not_mem_nil, false_imp_iff,
      implies_true, and_true] at hstrings
    simp only [table, List.forall_mem_cons, Entry.Plain, true_and, List.not_mem_nil,
      false_imp_iff, implies_true, and_true]
    exact hstrings
  obtain ⟨b, hinsert, hb⟩ := insert_all hN hplain (by rw [List.length_nil, Nat.zero_add])
    (hN.makeBindingsBuilder (table fields fields.tMs.toNat fields.frameIndex.toNat).length)
  have hscope : [] ++ (table fields fields.tMs.toNat fields.frameIndex.toNat).map
      (fun e => (e.1, some (Entry.value e.2))) = scopeOf fields := rfl
  rw [hscope] at hb
  obtain ⟨v, hmake, hv⟩ := hN.makeAttrs hb (scopeOf_nodup fields)
  refine ⟨v, ?_, hv⟩
  rw [buildScope, hentries]
  simp only [bind, Except.bind]
  rw [hinsert]
  simp only [hmake]
  rfl

theorem check_force (hN : N.Faithful denotes forced holds) {v : N.Val} {w : Value}
    (hv : denotes v (some w)) : ∃ v', check (N.valueForce v) = .ok v' ∧ forced v' w := by
  obtain ⟨v', hforce, hv'⟩ := hN.valueForce hv
  exact ⟨v', by rw [hforce]; rfl, hv'⟩

/-- An optional boolean. -/
theorem optBool_ok (hN : N.Faithful denotes forced holds) (hr : forced r (.attrs ms))
    (htype : IsBool ms name) : optAttr N N.getBool r name false = .ok (boolOf ms name) := by
  rw [optAttr, hN.hasAttrByname hr, boolOf]
  cases hlookup : ms.lookup name with
  | none => rfl
  | some t =>
      obtain ⟨b, rfl⟩ := htype t hlookup
      obtain ⟨v, hget, hv⟩ := hN.present hr hlookup
      obtain ⟨v', hforce, hv'⟩ := check_force hN hv
      rw [hget]
      show (check (N.valueForce v) >>= fun v => pure (N.getBool v)) = _
      rw [hforce]
      exact congrArg Except.ok (hN.getBool hv')

/-- An optional count, clamped. -/
theorem optCount_ok (hN : N.Faithful denotes forced holds) (hr : forced r (.attrs ms))
    (htype : IsInt ms name) : optCount N r name = .ok (countOf ms name) := by
  rw [optCount, optAttr, hN.hasAttrByname hr, countOf]
  cases hlookup : ms.lookup name with
  | none => rfl
  | some t =>
      obtain ⟨n, rfl⟩ := htype t hlookup
      obtain ⟨v, hget, hv⟩ := hN.present hr hlookup
      obtain ⟨v', hforce, hv'⟩ := check_force hN hv
      rw [hget]
      show ((check (N.valueForce v) >>= fun v => pure (N.getInt v)) >>=
        fun raw => pure (clampCount raw)) = _
      rw [hforce]
      exact congrArg (fun n => Except.ok (clampCount n)) (hN.getInt hv')

/-- The elements of a list of integers. -/
theorem readElems_ok (hN : N.Faithful denotes forced holds) {list : N.Val} {ts : List Thunk}
    (hlist : forced list (.list ts)) (hints : ∀ e ∈ ts, ∃ n, e = some (.int n)) :
    List.Forall₂ (fun i n => readElem N list i = .ok n) (List.range ts.length) (ts.map intOf) := by
  rw [List.forall₂_iff_get]
  refine ⟨by rw [List.length_range, List.length_map], ?_⟩
  intro i hi hi'
  rw [List.length_range] at hi
  obtain ⟨n, hn⟩ := hints ts[i] (List.getElem_mem hi)
  have hget : ts[i]? = some (some (.int n)) := by rw [List.getElem?_eq_getElem hi, hn]
  obtain ⟨el, hel, hv⟩ := hN.getListByidx hlist hget
  obtain ⟨v, hforce, hv'⟩ := check_force hN hv
  simp only [List.get_eq_getElem, List.getElem_range, List.getElem_map, hn, intOf]
  rw [readElem, hel]
  show (check (N.valueForce el) >>= fun v => pure (N.getInt v)) = _
  rw [hforce]
  exact congrArg Except.ok (hN.getInt hv')

/-- **A list** is in front of its buffer, and the other buffer is left alone. -/
theorem extractList_run (hN : N.Faithful denotes forced holds) (hgpa : gpa.Grants)
    {list : N.Val} {ts : List Thunk} (hlist : forced list (.list ts))
    (hints : ∀ e ∈ ts, ∃ n, e = some (.int n)) (dst : Buf) (s : Buffers) :
    ∃ s', (extractList N gpa list dst).run s = .ok ts.length s' ∧
      (s' dst).take ts.length = ts.map intOf ∧ ∀ other, other ≠ dst → s' other = s other := by
  obtain ⟨s₁, s', hensure, hfill, htake, hkeep⟩ :=
    extract_run dst hgpa (readElems_ok hN hlist hints) s
  rw [List.length_range] at hensure htake
  refine ⟨s', ?_, htake, hkeep⟩
  rw [extractList, hN.getListSize hlist, run_bind_ok hensure, run_bind_ok hfill]
  rfl

theorem overlayEntries_ok (hN : N.Faithful denotes forced holds) (hr : forced r (.attrs ms))
    (hms : Documented ms) (overlayLen : ℕ) :
    overlayEntries N r overlayLen = .ok
      (match ms.lookup "overlayN" with
      | none => min (overlayLen * 2) (2 ^ 32 - 1)
      | some _ => countOf ms "overlayN") := by
  rw [overlayEntries, hN.hasAttrByname hr, optCount_ok hN hr hms.overlayN]
  cases ms.lookup "overlayN" <;> rfl

/-- **The overlay** is the contract's, and the bitmap's buffer is left alone. -/
theorem readOverlay_run (hN : N.Faithful denotes forced holds) (hgpa : gpa.Grants)
    (hr : forced r (.attrs ms)) (hms : Documented ms) (s : Buffers) :
    ∃ len s', (readOverlay N gpa r).run s = .ok (len, (overlayOf ms).2) s' ∧
      (s' .overlayInts).take len = (overlayOf ms).1 ∧ s' .ints = s .ints := by
  have hhas : N.hasAttrByname r "overlay" = (ms.lookup "overlay").isSome := hN.hasAttrByname hr
  cases hlookup : ms.lookup "overlay" with
  | none =>
      have hnone : overlayOf ms = ([], 0) := by rw [overlayOf, hlookup]
      refine ⟨0, s, ?_, ?_, rfl⟩
      · rw [readOverlay, hhas, hlookup, hnone]
        rfl
      · rw [hnone, List.take_zero]
  | some t =>
      obtain ⟨w, rfl, hints⟩ := hms.overlay t hlookup
      obtain ⟨v, hget, hv⟩ := hN.present hr hlookup
      obtain ⟨ov, hforce, hov⟩ := check_force hN hv
      have hkind := hN.getType hov
      have hthere : ¬N.hasAttrByname r "overlay" = false := by
        rw [hhas, hlookup, Option.isSome_some]
        decide
      by_cases hlist : w.kind = .list
      · obtain ⟨ts, rfl⟩ := Value.list_of_kind hlist
        obtain ⟨s', hextract, htake, hkeep⟩ :=
          extractList_run hN hgpa hov (hints ts rfl) .overlayInts s
        refine ⟨ts.length, s', ?_, ?_, hkeep .ints (by decide)⟩
        · rw [readOverlay, if_neg hthere, hget]
          simp only
          rw [run_lift_ok hforce, if_pos (hkind.trans hlist), run_bind_ok hextract,
            run_lift_ok (overlayEntries_ok hN hr hms ts.length), overlayOf_list hlookup]
          rfl
        · rw [overlayOf_list hlookup]
          exact htake
      · have hnone := overlayOf_other hlookup hlist
        have hne : N.getType ov ≠ .list := fun h => hlist (hkind.symm.trans h)
        refine ⟨0, s, ?_, ?_, rfl⟩
        · rw [readOverlay, if_neg hthere, hget]
          simp only
          rw [run_lift_ok hforce, if_neg hne, hnone]
          rfl
        · rw [hnone, List.take_zero]

/-- Past the checks, the frame is read whole. -/
theorem readFrame_run (hN : N.Faithful denotes forced holds) (hgpa : gpa.Grants)
    (hr : forced r (.attrs ms)) (hms : Documented ms) {ts : List Thunk} {bitmap : N.Val}
    {nextMs : ℤ} (hints : ∀ e ∈ ts, ∃ n, e = some (.int n)) (hbitmap : forced bitmap (.list ts))
    (s : Buffers) :
    ∃ s', (readFrame N gpa r bitmap nextMs).run s = .ok (frameOfList ms ts nextMs) s' := by
  obtain ⟨s₂, hextract, hbits, -⟩ := extractList_run hN hgpa hbitmap hints .ints s
  obtain ⟨len, s', hoverlay, hentries, hkeep⟩ := readOverlay_run hN hgpa hr hms s₂
  have hchanges : readChanges N r (boolOf ms "delta") =
      .ok (if boolOf ms "delta" then countOf ms "n" else 0) := by
    rw [readChanges, optCount_ok hN hr hms.n]
    split <;> rfl
  refine ⟨s', ?_⟩
  rw [readFrame, run_lift_ok (optBool_ok hN hr hms.delta), run_lift_ok hchanges,
    run_bind_ok hextract, run_bind_ok hoverlay]
  simp only
  rw [run_get, run_lift_ok (optBool_ok hN hr hms.hidden),
    run_lift_ok (optBool_ok hN hr hms.pause), run_lift_ok (optCount_ok hN hr hms.autoReturnMs),
    run_lift_ok (optBool_ok hN hr hms.wantsScan), hkeep, hbits, hentries]
  rfl

theorem readResult_answers (hN : N.Faithful denotes forced holds) (hgpa : gpa.Grants)
    (hr : forced r (.attrs ms)) (hms : Documented ms) :
    Answers (readResult N gpa r) (frameOf (some (.attrs ms))) := by
  have hset : ¬N.getType r ≠ .attrs := not_not_intro (hN.getType hr)
  cases hbitmap : ms.lookup "bitmap" with
  | none =>
      rw [frameOf_no_bitmap hbitmap]
      intro s
      refine ⟨.missingBitmap, s, ?_⟩
      rw [readResult, if_neg hset, hN.absent hr hbitmap]
      rfl
  | some t =>
      obtain ⟨w, rfl, hints⟩ := hms.bitmap t hbitmap
      obtain ⟨v, hget, hv⟩ := hN.present hr hbitmap
      obtain ⟨bitmap, hforce, hv'⟩ := check_force hN hv
      have hkind := hN.getType hv'
      have hrun (s : Buffers) : (readResult N gpa r).run s =
          (if N.getType bitmap ≠ .list then throw .bitmapNotList
            else readNext N gpa r bitmap).run s := by
        rw [readResult, if_neg hset, hget]
        simp only
        rw [run_lift_ok hforce]
      by_cases hlist : w.kind = .list
      swap
      · rw [frameOf_no_list hbitmap hlist]
        intro s
        refine ⟨.bitmapNotList, s, ?_⟩
        rw [hrun, if_pos (by rwa [hkind])]
        rfl
      obtain ⟨ts, rfl⟩ := Value.list_of_kind hlist
      rw [if_neg (not_not_intro (hkind.trans hlist))] at hrun
      cases hnext : ms.lookup "nextMs" with
      | none =>
          rw [frameOf_no_next hnext]
          intro s
          refine ⟨.missingNextMs, s, ?_⟩
          rw [hrun, readNext, hN.absent hr hnext]
          rfl
      | some t =>
          obtain ⟨nextMs, rfl⟩ := hms.nextMs t hnext
          obtain ⟨k, hgetNext, hk⟩ := hN.present hr hnext
          obtain ⟨next, hforceNext, hk'⟩ := check_force hN hk
          rw [frameOf_list hbitmap hnext]
          intro s
          obtain ⟨s', hframe⟩ := readFrame_run hN hgpa hr hms (hints ts rfl) hv' s
          refine ⟨s', ?_⟩
          rw [hrun, readNext, hgetNext]
          simp only
          rw [run_lift_ok hforceNext, hN.getInt hk', hframe]

/-- **The frame** is the one that the contract reads of the result. -/
theorem applyFrame_answers (hN : N.Faithful denotes forced holds) (hgpa : gpa.Grants)
    {lambdas : List N.Val} {idx : ℕ} {lambda : N.Val} {apply : Value → Thunk}
    (hidx : lambdas[idx]? = some lambda) (happly : N.Computes denotes lambda apply)
    {fields : Fields} (hfields : fields.Holdable)
    (htypes : ∀ ms, apply (.attrs (scopeOf fields)) = some (.attrs ms) → Documented ms) :
    Answers (applyFrame N gpa lambdas idx fields)
      (frameOf (apply (.attrs (scopeOf fields)))) := by
  obtain ⟨scope, hscope, hdenotes⟩ := buildScope_ok hN hfields
  have hcall := happly hdenotes
  cases hresult : apply (.attrs (scopeOf fields)) with
  | none =>
      rw [hresult] at hcall
      intro s
      cases hres : N.valueCall lambda scope with
      | none =>
          refine ⟨.callFailed, s, ?_⟩
          rw [applyFrame, run_lift_ok hscope, hidx]
          simp only
          rw [hres]
          rfl
      | some r =>
          refine ⟨.nixCall, s, ?_⟩
          have hforce : check (N.valueForce r) = .error .nixCall := by
            rw [hcall r hres]
            rfl
          rw [applyFrame, run_lift_ok hscope, hidx]
          simp only
          rw [hres]
          exact run_lift_error hforce
  | some w =>
      rw [hresult] at hcall
      obtain ⟨res, hcall, hres⟩ := hcall
      obtain ⟨r, hforce, hr⟩ := check_force hN hres
      have hrun (s : Buffers) : (applyFrame N gpa lambdas idx fields).run s =
          (readResult N gpa r).run s := by
        rw [applyFrame, run_lift_ok hscope, hidx]
        simp only
        rw [hcall]
        simp only
        rw [run_lift_ok hforce]
      by_cases hattrs : w.kind = .attrs
      · obtain ⟨ms, rfl⟩ := Value.attrs_of_kind hattrs
        exact (readResult_answers hN hgpa hr (htypes ms hresult)).congr hrun
      · rw [frameOf_other hattrs]
        intro s
        refine ⟨.patternNotAttrs, s, ?_⟩
        rw [hrun, readResult, if_pos (by rwa [hN.getType hr])]
        rfl

end NixBackend

end BadgeOS.Oled.Contract
