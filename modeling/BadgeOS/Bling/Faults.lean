import BadgeOS.Bling.Run

/-!
# Faults in the configuration files

The parser changes the configuration line by line, so a file that ends in a fault has done what
the lines before it say; and a reload starts from the defaults, so a base file that can't be read
leaves those, not what was there before.  What a file does to a field is what its last line for it
says.

* `lastOf`, `get_foldl` — the last setting of a field;
* `bad_runtime_ignored_iff` — when a runtime file with a fault changes nothing;
* `reload_keeps_iff` — when a reload keeps a setting that the runtime file does not name.
-/

namespace BadgeOS.Bling

variable {c : Config} {f : Field} {ss : List Setting}

/-! ### The last setting of a field -/

/-- The last setting of a field. -/
def lastOf (f : Field) (ss : List Setting) : Option Setting :=
  ss.reverse.find? fun s => s.field = some f

theorem lastOf_concat (f : Field) (ss : List Setting) (s : Setting) :
    lastOf f (ss ++ [s]) = if s.field = some f then some s else lastOf f ss := by
  rw [lastOf, List.reverse_append, List.reverse_singleton, List.singleton_append, List.find?_cons]
  by_cases hs : s.field = some f
  · simp [hs]
  · simp [hs, lastOf]

theorem field_of_lastOf {s : Setting} (h : lastOf f ss = some s) : s.field = some f := by
  have hfield := List.find?_some h
  simpa using hfield

/-- **A field after some settings** is as the last of them for it says. -/
theorem get_foldl (c : Config) (ss : List Setting) (f : Field) :
    (ss.foldl Config.set c).get f = ((lastOf f ss).elim c c.set).get f := by
  induction ss using List.reverseRecOn with
  | nil => rfl
  | append_singleton ss s ih =>
      rw [List.foldl_append, List.foldl_cons, List.foldl_nil, lastOf_concat]
      by_cases hs : s.field = some f
      · rw [if_pos hs]
        exact Config.get_set_of_eq hs _ _
      · rw [if_neg hs, Config.get_set_of_ne hs, ih]

/-- A setting that sets its field to what it is. -/
theorem set_eq_self_iff {s : Setting} (hs : s.field = some f) :
    c.set s = c ↔ (c.set s).get f = c.get f := by
  constructor
  · intro h
    rw [h]
  · intro h
    apply Config.ext_get
    intro g
    by_cases hg : g = f
    · rw [hg, h]
    · refine Config.get_set_of_ne (fun heq => hg ?_) c
      exact Option.some.inj (heq.symm.trans hs)

/-- Each field that some settings name is set, by the last of them, to what it is. -/
def Idle (c : Config) (ss : List Setting) : Prop :=
  ∀ f s, lastOf f ss = some s → c.set s = c

theorem foldl_eq_self_iff : ss.foldl Config.set c = c ↔ Idle c ss := by
  constructor
  · intro h f s hs
    have hget := get_foldl c ss f
    rw [h, hs] at hget
    exact (set_eq_self_iff (field_of_lastOf hs)).2 hget.symm
  · intro h
    apply Config.ext_get
    intro f
    rw [get_foldl]
    cases hs : lastOf f ss with
    | none => rfl
    | some s => exact congrArg (fun d => Config.get d f) (h f s hs)

/-! ### A runtime file with a fault -/

/-- **A bad runtime file** changes nothing just when each field that its lines before the fault
name is set, by the last of them, to what it is. -/
theorem bad_runtime_ignored_iff {text : Bytes} {e : ConfigError}
    (hlen : text.length ≤ configMaxBytes) (hfault : (parseBuffer c text).2 = some e) :
    layerRuntime c (some text) = c ↔ Idle c (settings text).1 := by
  have hread : readFile text = text := List.take_of_length_le hlen
  have hlayer : layerRuntime c (some text) = (parseBuffer c text).1 := by
    rw [layerRuntime, layer, hread]
  have hparse : parseBuffer c text = ((settings text).1.foldl Config.set c, some e) :=
    Prod.ext (by rw [parseBuffer_eq]) hfault
  rw [hlayer, hparse]
  exact foldl_eq_self_iff

/-- The fault is in the second line, and the first sets the brightness to what it is. -/
theorem bad_runtime_ignored_iff_idle :
    layerRuntime .default (some (ascii "brightness = 64\ncount = 0")) = .default := by
  have hfault : (parseBuffer .default (ascii "brightness = 64\ncount = 0")).2 =
      some .countOutOfRange := by decide +kernel
  have hone : (settings (ascii "brightness = 64\ncount = 0")).1 =
      [.brightness ⟨64, by decide⟩] := by decide +kernel
  refine (bad_runtime_ignored_iff (by decide +kernel) hfault).2 fun f s hs => ?_
  rw [hone] at hs
  have hmem : s ∈ [Setting.brightness ⟨64, by decide⟩].reverse := List.mem_of_find?_eq_some hs
  obtain rfl : s = .brightness ⟨64, by decide⟩ := by simpa using hmem
  rfl

/-- The line before the fault is in force. -/
theorem bad_runtime_applied :
    ¬ ∀ (c : Config) (text : Bytes) (e : ConfigError), text.length ≤ configMaxBytes →
      (parseBuffer c text).2 = some e → layerRuntime c (some text) = c := by
  intro hall
  have hsame := hall .default (ascii "brightness = 10\ncount = 0") .countOutOfRange
    (by decide +kernel) (by decide +kernel)
  exact absurd hsame (by decide +kernel)

/-! ### A reload without its base file -/

/-- What the last line for a field says, or else the default. -/
def valueIn (ss : List Setting) (f : Field) : f.Value :=
  ((lastOf f ss).elim Config.default Config.default.set).get f

/-- A setting is as it was, the count up to the transfer clamp. -/
def Kept (maxCount : MaxCount) (old new : Config) : Field → Prop
  | .count => new.count.1 = min old.count.1 maxCount.1
  | f => new.get f = old.get f

/-- What the base file's lines before its fault say, or else the default, is what was there. -/
def Recalled (maxCount : MaxCount) (old : Config) (ss : List Setting) : Field → Prop
  | .count => min (valueIn ss .count).1 maxCount.1 = min old.count.1 maxCount.1
  | f => valueIn ss f = old.get f

/-- The runtime file names the field. -/
def Names (runtime : Option Bytes) (f : Field) : Prop :=
  ∃ s ∈ layerSettings runtime, s.field = some f

/-- What a reload adopts for a field that the runtime file does not name. -/
theorem get_fresh (base : Option Bytes) {runtime : Option Bytes} (h : ¬ Names runtime f) :
    (layerRuntime (layerBase .default base) runtime).get f = valueIn (layerSettings base) f := by
  have hruntime : ∀ s ∈ layerSettings runtime, s.field ≠ some f := fun s hs hf => h ⟨s, hs, hf⟩
  rw [layerRuntime, layer_eq, Config.get_foldl_of_ne hruntime, layerBase, layer_eq, get_foldl]
  rfl

theorem get_clampCount {maxCount : MaxCount} (hf : f ≠ .count) :
    (clampCount c maxCount).get f = c.get f := by
  rw [clampCount]
  split
  · rfl
  · cases f with
    | count => exact absurd rfl hf
    | _ => rfl

/-- **A reload keeps a setting** that the runtime file does not name just when the base file's
last line for it before its fault, or else the default, says what was there before. -/
theorem reload_keeps_iff {bufsiz : ℕ} {cfg cfg' : Config} {base runtime : Option Bytes}
    {maxCount : MaxCount} (h : reloadInto bufsiz cfg base runtime = some (cfg', maxCount))
    (hf : f ∈ cliFields) (hnamed : ¬ Names runtime f) :
    Kept maxCount cfg cfg' f ↔ Recalled maxCount cfg (layerSettings base) f := by
  obtain ⟨_, -, hcfg⟩ := Option.map_eq_some_iff.1 h
  obtain ⟨rfl, rfl⟩ := Prod.mk.inj hcfg
  have hfresh := get_fresh base hnamed
  cases f with
  | count =>
      have hcount : (layerRuntime (layerBase .default base) runtime).count =
          valueIn (layerSettings base) .count := hfresh
      simp only [Kept, Recalled, clampCount_le, hcount]
  | device => exact absurd hf (by decide)
  | csHigh => exact absurd hf (by decide)
  | _ =>
      simp only [Kept, Recalled]
      rw [get_clampCount (by decide), ← hfresh]
      rfl

/-- The default brightness is kept without a base file. -/
theorem reload_keeps_iff_default :
    ∃ cfg' maxCount, reloadInto 4096 .default none none = some (cfg', maxCount) ∧
      Kept maxCount .default cfg' .brightness := by
  obtain ⟨⟨cfg', maxCount⟩, h⟩ :=
    Option.isSome_iff_exists.1 (show (reloadInto 4096 .default none none).isSome = true by decide)
  have hnamed : ¬ Names none .brightness := by
    intro hnamed
    obtain ⟨s, hs, -⟩ := hnamed
    cases hs
  exact ⟨cfg', maxCount, h, (reload_keeps_iff h (by decide) hnamed).2 rfl⟩

/-- A brightness of the base file is back at the default when the file can't be read. -/
theorem reload_forgets :
    ¬ ∀ (bufsiz : ℕ) (cfg cfg' : Config) (base runtime : Option Bytes) (maxCount : MaxCount)
      (f : Field),
      (∀ text, base = some text → (parseBuffer .default (readFile text)).2 ≠ none) →
      (∀ text, runtime = some text → (parseBuffer .default (readFile text)).2 = none) →
      reloadInto bufsiz cfg base runtime = some (cfg', maxCount) → f ∈ cliFields →
      ¬ Names runtime f → Kept maxCount cfg cfg' f := by
  intro hall
  let cfg : Config := { Config.default with brightness := ⟨200, by decide⟩ }
  have hbrightness : (reloadInto 4096 cfg none none).map (fun p => p.1.brightness) =
      some ⟨64, by decide⟩ := by decide
  obtain ⟨⟨cfg', maxCount⟩, h, hafter⟩ := Option.map_eq_some_iff.1 hbrightness
  have hnamed : ¬ Names none .brightness := by
    intro hnamed
    obtain ⟨s, hs, -⟩ := hnamed
    cases hs
  have hkept : cfg'.brightness = cfg.brightness :=
    hall _ _ _ none none _ .brightness (fun text htext => by cases htext)
      (fun text htext => by cases htext) h (by decide) hnamed
  exact absurd (hafter.symm.trans hkept) (by decide)

end BadgeOS.Bling
