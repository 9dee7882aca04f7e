import BadgeOS.Oled.FixEval
import BadgeOS.Oled.NixEval
import Mathlib

/-!
# One backend for the other

Both backends read a result as the contract does, so a screen cannot tell which one runs it.

* `SameAnswer` — both fail, or both answer one frame;
* `evaluators_interchangeable`.
-/

namespace BadgeOS.Oled.Contract

/-- Both fail, or both answer the same frame. -/
def SameAnswer : EStateM.Result Error Buffers ScreenFrame →
    EStateM.Result Error Buffers ScreenFrame → Prop
  | .ok frame _, .ok frame' _ => frame = frame'
  | .error _ _, .error _ _ => True
  | _, _ => False

theorem Answers.same {m m' : M ScreenFrame} {o : Option ScreenFrame} (h : Answers m o)
    (h' : Answers m' o) (s s' : Buffers) : SameAnswer (m.run s) (m'.run s') := by
  cases o with
  | none =>
      obtain ⟨_, _, hrun⟩ := h s
      obtain ⟨_, _, hrun'⟩ := h' s'
      rw [hrun, hrun']
      trivial
  | some frame =>
      obtain ⟨_, hrun⟩ := h s
      obtain ⟨_, hrun'⟩ := h' s'
      rw [hrun, hrun']
      rfl

/-- **The evaluators are interchangeable.**  Both scopes bind the contract's names to its values,
and of whatever the lambda answers to them, whatever is in the buffers of either backend, both
fail or both read the same frame. -/
theorem evaluators_interchangeable {E : Engine} {N : Api} {denotesE : E.Val → Thunk → Prop}
    {forcedE : E.Val → Value → Prop} {denotesN : N.Val → Thunk → Prop}
    {forcedN : N.Val → Value → Prop} {holds : N.Builder → ℕ → Members → Prop}
    (hE : E.Faithful denotesE forcedE) (hN : N.Faithful denotesN forcedN holds)
    {fixGpa nixGpa : Allocator} (hfix : fixGpa.Grants) (hnix : nixGpa.Grants) {fields : Fields}
    (hfields : fields.Holdable) :
    (∃ scope scope', FixBackend.scope E fields = .ok scope ∧
      NixBackend.buildScope N fields = .ok scope' ∧
      denotesE scope (some (.attrs (scopeOf fields))) ∧
      denotesN scope' (some (.attrs (scopeOf fields)))) ∧
    ∀ (fixLambdas : List E.Val) (nixLambdas : List N.Val) (idx : ℕ) (f : E.Val) (g : N.Val)
      (apply : Value → Thunk), fixLambdas[idx]? = some f → nixLambdas[idx]? = some g →
      E.Computes denotesE forcedE f apply → N.Computes denotesN g apply →
      (∀ ms, apply (.attrs (scopeOf fields)) = some (.attrs ms) → Documented ms) →
      ∀ s s', SameAnswer ((FixBackend.applyFrame E fixGpa fixLambdas idx fields).run s)
        ((NixBackend.applyFrame N nixGpa nixLambdas idx fields).run s') := by
  constructor
  · obtain ⟨scope, hscope, hdenotes⟩ := FixBackend.scope_ok hE hfields
    obtain ⟨scope', hscope', hdenotes'⟩ := NixBackend.buildScope_ok hN hfields
    exact ⟨scope, scope', hscope, hscope', hdenotes, hdenotes'⟩
  · intro fixLambdas nixLambdas idx f g apply hf hg happlyE happlyN htypes
    exact (FixBackend.applyFrame_answers hE hfix hf happlyE hfields htypes).same
      (NixBackend.applyFrame_answers hN hnix hg happlyN hfields htypes)

/-! ### Two evaluators -/

/-- A screen that shows the time and asks for a scan. -/
def scanScreen : Value → Thunk
  | .attrs ms =>
      some (.attrs [("bitmap", some (.list [(ms.lookup "t").join])), ("nextMs", some (.int 33)),
        ("wantsScan", some (.bool true))])
  | _ => none

def forceThunk : Thunk → Except Error Thunk
  | none => .error .evaluation
  | some w => .ok (some w)

/-- An engine that keeps its values as they are, and has one lambda. -/
def plainEngine : Engine where
  Val := Thunk
  Name := List UInt8
  int n := some (.int n)
  boolVal b := some (.bool b)
  float x := some (.float x)
  string s := some (.string s)
  intern s := .ok s
  makeAttrs ms := .ok (some (.attrs ms))
  applyValue _ v := forceThunk (v.bind scanScreen)
  kind v := v.elim .other Value.kind
  getAttr
    | some (.attrs ms), name => .ok (ms.lookup name)
    | _, _ => .error .evaluation
  forceValue := forceThunk
  asInt := intOf
  asBool
    | some (.bool b) => b
    | _ => false
  heapListOf
    | some (.list ts) => .ok ts
    | _ => .error .evaluation

/-- The same behind the C API. -/
def plainApi : Api where
  Val := Thunk
  Builder := ℕ × Members
  initBool b := some (some (.bool b))
  initInt n := some (some (.int n))
  initFloat x := some (some (.float x))
  initString s := some (some (.string s))
  makeBindingsBuilder capacity := (capacity, [])
  bindingsBuilderInsert b name v :=
    if b.2.length < b.1 then some (b.1, b.2 ++ [(name, v)]) else none
  makeAttrs b := some (some (.attrs b.2))
  valueCall _ v := (v.bind scanScreen).map some
  valueForce v := v.map some
  getType v := v.elim .other Value.kind
  hasAttrByname
    | some (.attrs ms), name => (ms.lookup name).isSome
    | _, _ => false
  getAttrByname
    | some (.attrs ms), name => ms.lookup name
    | _, _ => none
  getBool
    | some (.bool b) => b
    | _ => false
  getInt := intOf
  getListSize
    | some (.list ts) => UInt32.ofNat ts.length
    | _ => 0
  getListByidx
    | some (.list ts), i => ts[i.toNat]?
    | _, _ => none

def plainAllocator : Allocator where
  alloc n := some (List.replicate n 0)
  realloc _ n := some (List.replicate n 0)

/-- What fits behind a 32-bit list size. -/
inductive Small : Thunk → Prop
  | failed : Small none
  | int (n : ℤ) : Small (some (.int n))
  | bool (b : Bool) : Small (some (.bool b))
  | float (x : UInt64) : Small (some (.float x))
  | string (s : List UInt8) : Small (some (.string s))
  | list {ts : List Thunk} (hlen : ts.length < 2 ^ 32) (hts : ∀ t ∈ ts, Small t) :
      Small (some (.list ts))
  | attrs {ms : Members} (hms : ∀ m ∈ ms, Small m.2) : Small (some (.attrs ms))

theorem plainEngine_faithful :
    plainEngine.Faithful (fun v t => v = t) (fun v w => v = some w) := by
  constructor
  · exact fun n => rfl
  · exact fun b => rfl
  · exact fun x => rfl
  · exact fun s => ⟨s, rfl, rfl⟩
  · intro pairs ms hpairs _
    have hsame : pairs = ms := by
      rw [← List.forall₂_eq_eq_eq]
      exact hpairs.imp fun _ _ h => Prod.ext h.1 h.2
    exact ⟨_, rfl, congrArg (fun ms => some (Value.attrs ms)) hsame⟩
  · rintro v w rfl
    exact ⟨some w, rfl, rfl⟩
  · rintro v w rfl
    rfl
  · rintro v n rfl
    rfl
  · rintro v b rfl
    rfl
  · rintro v ms name rfl hlookup
    exact congrArg Except.ok hlookup
  · rintro v ms name t rfl hlookup
    exact ⟨t, congrArg Except.ok hlookup, rfl⟩
  · rintro v ts rfl
    exact ⟨ts, rfl, List.forall₂_same.2 fun _ _ => rfl⟩

theorem Small.member {ms : Members} (h : Small (some (.attrs ms))) {name : String} {t : Thunk}
    (hlookup : ms.lookup name = some t) : Small t := by
  cases h with
  | attrs hms =>
      obtain ⟨before, behind, hsplit, -⟩ := List.lookup_eq_some_iff.1 hlookup
      exact hms (name, t) (by rw [hsplit]; simp)

theorem Small.elem {ts : List Thunk} (h : Small (some (.list ts))) {i : ℕ} {t : Thunk}
    (hget : ts[i]? = some t) : i < 2 ^ 32 ∧ Small t := by
  cases h with
  | list hlen hts =>
      obtain ⟨hi, rfl⟩ := List.getElem?_eq_some_iff.1 hget
      exact ⟨hi.trans hlen, hts _ (List.getElem_mem hi)⟩

theorem plainApi_faithful :
    plainApi.Faithful (fun v t => v = t ∧ Small t) (fun v w => v = some w ∧ Small (some w))
      (fun b capacity ms => b = (capacity, ms) ∧ ∀ m ∈ ms, Small m.2) := by
  constructor
  · exact fun b => ⟨_, rfl, rfl, .bool b⟩
  · exact fun n => ⟨_, rfl, rfl, .int n⟩
  · exact fun x => ⟨_, rfl, rfl, .float x⟩
  · exact fun s => ⟨_, rfl, rfl, .string s⟩
  · intro capacity
    exact ⟨rfl, fun m hm => absurd hm List.not_mem_nil⟩
  · rintro b capacity ms v t name ⟨rfl, hms⟩ hroom ⟨rfl, hv⟩
    refine ⟨_, if_pos hroom, rfl, ?_⟩
    intro m hm
    rcases List.mem_append.1 hm with hm | hm
    · exact hms m hm
    · rw [List.mem_singleton.1 hm]
      exact hv
  · rintro b capacity ms ⟨rfl, hms⟩ _
    exact ⟨_, rfl, rfl, .attrs hms⟩
  · rintro v w ⟨rfl, hw⟩
    exact ⟨some w, rfl, rfl, hw⟩
  · rintro v w ⟨rfl, _⟩
    rfl
  · rintro v b ⟨rfl, _⟩
    rfl
  · rintro v n ⟨rfl, _⟩
    rfl
  · rintro v ms name ⟨rfl, _⟩
    rfl
  · rintro v ms name ⟨rfl, _⟩ hlookup
    exact hlookup
  · rintro v ms name w ⟨rfl, hsmall⟩ hlookup
    exact ⟨some w, hlookup, rfl, hsmall.member hlookup⟩
  · rintro v ts ⟨rfl, hsmall⟩
    cases hsmall with
    | list hlen _ => exact UInt32.toNat_ofNat_of_lt' hlen
  · rintro v ts i w ⟨rfl, hsmall⟩ hget
    obtain ⟨hi, hw⟩ := hsmall.elem hget
    refine ⟨some w, ?_, rfl, hw⟩
    show ts[(UInt32.ofNat i).toNat]? = _
    rw [UInt32.toNat_ofNat_of_lt' hi, hget]
    rfl

theorem plainEngine_computes :
    plainEngine.Computes (fun v t => v = t) (fun v w => v = some w) none scanScreen := by
  rintro v w rfl
  show match scanScreen w with
    | none => ∃ e, forceThunk (scanScreen w) = .error e
    | some r => ∃ r', forceThunk (scanScreen w) = .ok r' ∧ r' = some r
  cases scanScreen w with
  | none => exact ⟨_, rfl⟩
  | some r => exact ⟨_, rfl, rfl⟩

theorem scanScreen_small {w r : Value} (hw : Small (some w)) (hr : scanScreen w = some r) :
    Small (some r) := by
  cases w with
  | attrs ms =>
      obtain rfl := Option.some.inj hr
      have htime : Small (ms.lookup "t").join := by
        cases hlookup : ms.lookup "t" with
        | none => exact .failed
        | some t => exact hw.member hlookup
      have hbitmap : Small (some (.list [(ms.lookup "t").join])) :=
        .list (by rw [List.length_singleton]; decide) fun t ht => by
          rw [List.mem_singleton.1 ht]
          exact htime
      refine .attrs ?_
      simp only [List.forall_mem_cons, List.not_mem_nil, false_imp_iff, implies_true, and_true]
      exact ⟨hbitmap, .int 33, .bool true⟩
  | _ => cases hr

theorem plainApi_computes :
    plainApi.Computes (fun v t => v = t ∧ Small t) none scanScreen := by
  rintro v w ⟨rfl, hw⟩
  have hcall : plainApi.valueCall none (some w) = (scanScreen w).map some := rfl
  rw [hcall]
  cases hr : scanScreen w with
  | none =>
      intro r hsome
      cases hsome
  | some r => exact ⟨some r, rfl, rfl, scanScreen_small hw hr⟩

section Absent

variable {ms : Members} {name : String} (h : ms.lookup name = none)
include h

theorem isBool_of_absent : IsBool ms name := by
  intro t ht
  rw [h] at ht
  cases ht

theorem isInt_of_absent : IsInt ms name := by
  intro t ht
  rw [h] at ht
  cases ht

theorem isInts_of_absent : IsInts ms name := by
  intro t ht
  rw [h] at ht
  cases ht

end Absent

/-- What the screen answers to a badge that was just started. -/
theorem scanScreen_documented {ms : Members}
    (h : scanScreen (.attrs (scopeOf {})) = some (.attrs ms)) : Documented ms := by
  obtain rfl : [("bitmap", some (.list [some (.int 0)])), ("nextMs", some (.int 33)),
    ("wantsScan", some (.bool true))] = ms := Value.attrs.inj (Option.some.inj h)
  constructor
  · intro t ht
    obtain rfl := Option.some.inj ht
    refine ⟨_, rfl, ?_⟩
    intro ts hts e he
    obtain rfl := Value.list.inj hts
    exact ⟨0, List.mem_singleton.1 he⟩
  · intro t ht
    obtain rfl := Option.some.inj ht
    exact ⟨33, rfl⟩
  · exact isBool_of_absent rfl
  · exact isInt_of_absent rfl
  · exact isInts_of_absent rfl
  · exact isInt_of_absent rfl
  · exact isBool_of_absent rfl
  · exact isBool_of_absent rfl
  · exact isInt_of_absent rfl
  · intro t ht
    obtain rfl := Option.some.inj ht
    exact ⟨true, rfl⟩

/-- Both run the screen that asks for a scan, on the fields of a badge that was just started, the
second one with a list of an earlier frame in its buffers. -/
theorem evaluators_interchangeable_scan :
    SameAnswer
      ((FixBackend.applyFrame plainEngine plainAllocator [none] 0 {}).run fun _ => [])
      ((NixBackend.applyFrame plainApi plainAllocator [none] 0 {}).run fun _ => [7]) := by
  have hgrants : plainAllocator.Grants :=
    ⟨fun n => ⟨_, rfl, List.length_replicate⟩, fun _ n => ⟨_, rfl, List.length_replicate⟩⟩
  have hfields : ({} : Fields).Holdable := ⟨by decide, by decide, by decide⟩
  exact (evaluators_interchangeable plainEngine_faithful plainApi_faithful hgrants hgrants
    hfields).2 [none] [none] 0 none none scanScreen rfl rfl plainEngine_computes plainApi_computes
    (fun ms => scanScreen_documented) _ _

end BadgeOS.Oled.Contract
