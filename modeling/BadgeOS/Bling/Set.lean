import BadgeOS.Bling.RuntimeFile

/-!
# `bling set`

The service reads the base config and then the runtime file; `bling set` starts from the
runtime file alone and writes seven fields of what it has then.  So it changes only what it is
given just when the fields it fills in from the defaults are the base's too, the runtime file
has nothing that it leaves out, and the two paths survive being written.

* `loadConfig`, `layerBase`, `layerRuntime` — the layers;
* `cmdBlingSet` — the command, up to the text it writes;
* `KeepsRest`, `blingSet_iff` — the exact condition.
-/

namespace BadgeOS.Bling

/-! ### The layers -/

inductive CmdError
  | usage
  | failed
  deriving DecidableEq, Repr

/-- `config_max_bytes` -/
def configMaxBytes : ℕ := 8192

/-- `readFile`, which fills its buffer and no more. -/
def readFile (text : Bytes) : Bytes := text.take configMaxBytes

/-- `layerBase`, and `layerRuntime`: the file over `c`, when there is one.  A fault is logged,
and the settings before it stay. -/
def layer (c : Config) : Option Bytes → Config
  | none => c
  | some text => (parseBuffer c (readFile text)).1

def layerBase (c : Config) (base : Option Bytes) : Config := layer c base

def layerRuntime (c : Config) (runtime : Option Bytes) : Config := layer c runtime

/-- `loadConfig` -/
def loadConfig (base runtime : Option Bytes) : Except CmdError Config :=
  match base with
  | none => .ok (layerRuntime .default runtime)
  | some text =>
      match parseBuffer .default (readFile text) with
      | (c, none) => .ok (layerRuntime c runtime)
      | (_, some _) => .error .failed

/-! ### The command -/

/-- `set_flags` -/
def setFlags : List (Bytes × Bytes) :=
  [(ascii "--brightness", ascii "brightness"), (ascii "--speed-hz", ascii "speed_hz"),
    (ascii "--bits", ascii "bits"), (ascii "--fps", ascii "fps"), (ascii "--count", ascii "count"),
    (ascii "--blob", ascii "blob"), (ascii "--eval", ascii "eval")]

/-- The key of a flag. -/
def flagKey (arg : Bytes) : Option Bytes :=
  (setFlags.find? fun flagAndKey => flagAndKey.1 = arg).map Prod.snd

/-- The loop of `cmdBlingSet` over its arguments: each flag takes the next one as its value. -/
def applyFlags (c : Config) : List Bytes → Except CmdError Config
  | [] => .ok c
  | [_] => .error .usage
  | arg :: value :: args =>
      match flagKey arg with
      | none => .error .usage
      | some key =>
          match applyKeyValue c key value with
          | .ok c => applyFlags c args
          | .error _ => .error .failed

/-- `writeRuntimeConfig`: what is written, if it fits the buffer. -/
def writeRuntimeConfig (c : Config) : Except CmdError Bytes :=
  if (writeRuntime c).length ≤ 2048 then .ok (writeRuntime c) else .error .failed

/-- `cmdBlingSet`: the runtime file it writes. -/
def cmdBlingSet (runtime : Option Bytes) (args : List Bytes) : Except CmdError Bytes :=
  match applyFlags (layerRuntime .default runtime) args with
  | .ok c => writeRuntimeConfig c
  | .error e => .error e

theorem writeRuntimeConfig_eq (c : Config) : writeRuntimeConfig c = .ok (writeRuntime c) :=
  if_pos (length_writeRuntime_le c)

/-! ### Settings of the layers -/

/-- The settings of a file, if there is one. -/
def layerSettings : Option Bytes → List Setting
  | none => []
  | some text => (settings (readFile text)).1

theorem layer_eq (c : Config) (file : Option Bytes) :
    layer c file = (layerSettings file).foldl Config.set c := by
  cases file with
  | none => rfl
  | some text =>
      rw [layer, parseBuffer_eq]
      rfl

theorem loadConfig_ok {base runtime : Option Bytes} {c : Config}
    (h : loadConfig base runtime = .ok c) :
    ∀ file, loadConfig base file = .ok (layer (layer .default base) file) := by
  intro file
  cases base with
  | none => rfl
  | some text =>
      simp only [loadConfig] at h ⊢
      generalize hp : parseBuffer .default (readFile text) = p at h
      obtain ⟨d, e⟩ := p
      cases e with
      | some e => cases h
      | none => simp only [layer, layerRuntime, hp]

/-- What is written is read back whole. -/
theorem readFile_writeRuntime (c : Config) : readFile (writeRuntime c) = writeRuntime c := by
  have hle := length_writeRuntime_le c
  exact List.take_of_length_le (by rw [configMaxBytes]; omega)

/-- The settings some flags make. -/
def flagSettings : List Bytes → List Setting
  | arg :: value :: args =>
      match (flagKey arg).map fun key => readSetting key value with
      | some (.ok s) => s :: flagSettings args
      | _ => []
  | _ => []

/-- Flags that are accepted once set the same whatever they are applied to. -/
theorem applyFlags_ok {c c' : Config} {args : List Bytes} (h : applyFlags c args = .ok c') :
    ∀ d, applyFlags d args = .ok ((flagSettings args).foldl Config.set d) := by
  induction args using flagSettings.induct generalizing c with
  | case1 arg value args s hs ih =>
      intro d
      obtain ⟨key, hkey, hread⟩ := Option.map_eq_some_iff.mp hs
      simp only [applyFlags, hkey, applyKeyValue, hread, Except.map] at h ⊢
      rw [ih h, flagSettings, hs]
      rfl
  | case2 arg value args hs =>
      exfalso
      simp only [applyFlags] at h
      split at h
      · cases h
      · rename_i key hkey
        simp only [applyKeyValue] at h
        cases hread : readSetting key value with
        | ok s => exact hs s (by rw [hkey, Option.map_some, hread])
        | error e => simp [hread, Except.map] at h
  | case3 args hargs =>
      intro d
      cases args with
      | nil => rfl
      | cons arg args =>
          cases args with
          | nil => cases h
          | cons value args => exact absurd rfl (hargs arg value args)

/-! ### What a setting comes from -/

/-- Only their own keys set the device and its chip select, and a path is the value cut. -/
theorem readSetting_cases {key val : Bytes} {s : Setting} (h : readSetting key val = .ok s) :
    (s.field = some .device → key = ascii "device") ∧
      (s.field = some .csHigh → key = ascii "cs_high") ∧
      ∀ p, s = .blob p ∨ s = .eval p → p = setPath val := by
  unfold readSetting at h
  repeat' split at h
  all_goals cases h
  all_goals simp [Setting.field, *]

/-- A flag sets neither the device nor its chip select. -/
theorem field_of_mem_flagSettings {args : List Bytes} {s : Setting} (h : s ∈ flagSettings args) :
    s.field ≠ some .device ∧ s.field ≠ some .csHigh := by
  induction args using flagSettings.induct with
  | case1 arg value args t ht ih =>
      rw [flagSettings, ht] at h
      rcases List.mem_cons.mp h with rfl | h
      · obtain ⟨key, hkey, hread⟩ := Option.map_eq_some_iff.mp ht
        obtain ⟨hdevice, hcs, _⟩ := readSetting_cases hread
        obtain ⟨flag, hfind, rfl⟩ := Option.map_eq_some_iff.mp hkey
        have hkeys : flag.2 ≠ ascii "device" ∧ flag.2 ≠ ascii "cs_high" := by
          have hall : ∀ f ∈ setFlags, f.2 ≠ ascii "device" ∧ f.2 ≠ ascii "cs_high" := by decide
          exact hall flag (List.mem_of_find?_eq_some hfind)
        exact ⟨fun hs => hkeys.1 (hdevice hs), fun hs => hkeys.2 (hcs hs)⟩
      · exact ih h
  | case2 arg value args hnone =>
      rw [flagSettings] at h
      split at h
      · rename_i t ht
        exact absurd ht (hnone t)
      · cases h
  | case3 args hargs =>
      cases args with
      | nil => cases h
      | cons arg args =>
          cases args with
          | nil => cases h
          | cons value args => exact absurd rfl (hargs arg value args)

/-- The two paths of a configuration have no newline. -/
def Config.OneLine (c : Config) : Prop := 10 ∉ c.blob.1 ∧ 10 ∉ c.eval.1

theorem keyValue_sublist {raw key val : Bytes} (h : keyValue raw = some (key, val)) :
    val.Sublist raw := by
  unfold keyValue at h
  simp only at h
  split at h
  · cases h
  · split at h
    · cases h
      exact Text.trim_sublist.trans ((List.tail_sublist _).trans
        ((List.dropWhile_sublist _).trans (List.dropWhile_sublist _)))
    · cases h

/-- The settings of lines put no newline into a path. -/
theorem oneLine_readLines {lines : List Bytes} (h : ∀ l ∈ lines, 10 ∉ l) {c : Config}
    (hc : c.OneLine) : ((readLines lines).1.foldl Config.set c).OneLine := by
  induction lines generalizing c with
  | nil => exact hc
  | cons raw lines ih =>
      have hrest : ∀ l ∈ lines, 10 ∉ l := fun l hl => h l (List.mem_cons_of_mem _ hl)
      rw [readLines]
      cases hkv : keyValue raw with
      | none => exact ih hrest hc
      | some kv =>
          obtain ⟨key, val⟩ := kv
          have hval : 10 ∉ (setPath val).1 := by
            intro hmem
            have hsub := (List.take_sublist pathCapacity val).trans (keyValue_sublist hkv)
            exact h raw List.mem_cons_self (hsub.subset hmem)
          simp only
          cases hread : readSetting key val with
          | error e => exact hc
          | ok s =>
              refine ih hrest ?_
              obtain ⟨_, _, hpath⟩ := readSetting_cases hread
              cases s with
              | blob p =>
                  obtain rfl := hpath p (.inl rfl)
                  exact ⟨hval, hc.2⟩
              | eval p =>
                  obtain rfl := hpath p (.inr rfl)
                  exact ⟨hc.1, hval⟩
              | _ => exact hc

theorem oneLine_layer {c : Config} (hc : c.OneLine) (file : Option Bytes) :
    (layer c file).OneLine := by
  rw [layer_eq]
  cases file with
  | none => exact hc
  | some text => exact oneLine_readLines (fun l hl => Text.not_mem_of_mem_splitOn hl) hc

theorem oneLine_default : Config.default.OneLine := ⟨by decide, by decide⟩

/-! ### The condition -/

instance (f : Field) : DecidableEq f.Value :=
  match f with
  | .device | .blob | .eval => inferInstanceAs (DecidableEq Path)
  | .count => inferInstanceAs (DecidableEq Count)
  | .speedHz => inferInstanceAs (DecidableEq Speed)
  | .csHigh => inferInstanceAs (DecidableEq Bool)
  | .encoding => inferInstanceAs (DecidableEq Encoding)
  | .brightness => inferInstanceAs (DecidableEq Brightness)
  | .fps => inferInstanceAs (DecidableEq Fps)

/-- The fields the CLI writes. -/
def cliFields : List Field := [.brightness, .count, .fps, .speedHz, .encoding, .blob, .eval]

/-- The fields some flags name. -/
def named (args : List Bytes) : List Field := (flagSettings args).filterMap Setting.field

/-- A path that is read back as it was written. -/
def cleanPath (p : Path) : Bool := 10 ∉ p.1 && Text.trim blankOrCr p.1 == p.1

/-- The two paths that are in force once the flags are applied: a flag's, or else the runtime
file's. -/
def ownPaths (runtime : Option Bytes) (args : List Bytes) : Path × Path :=
  let c := (flagSettings args).foldl Config.set (layerRuntime .default runtime)
  (c.blob, c.eval)

/-- The condition for `bling set` to change only what it is given: every field the CLI writes
and no flag names is the same with the base as without it, the runtime file changes neither the
device nor its chip select, and both paths are clean. -/
def KeepsRest (base runtime : Option Bytes) (args : List Bytes) : Prop :=
  (∀ f ∈ cliFields, f ∈ named args ∨ (layerRuntime .default runtime).get f =
      (layerRuntime (layerBase .default base) runtime).get f) ∧
  (∀ f ∈ [Field.device, Field.csHigh], (layerBase .default base).get f =
      (layerRuntime (layerBase .default base) runtime).get f) ∧
  cleanPath (ownPaths runtime args).1 = true ∧ cleanPath (ownPaths runtime args).2 = true

instance (base runtime : Option Bytes) (args : List Bytes) :
    Decidable (KeepsRest base runtime args) :=
  inferInstanceAs (Decidable (_ ∧ _ ∧ _ ∧ _))

/-! ### What the written file does -/

/-- A flag's field takes the flag's value, whatever it is applied to. -/
theorem get_flags_of_named {args : List Bytes} {f : Field} (h : f ∈ named args) (c d : Config) :
    ((flagSettings args).foldl Config.set c).get f =
      ((flagSettings args).foldl Config.set d).get f := by
  obtain ⟨s, hs, hf⟩ := List.mem_filterMap.mp h
  exact Config.get_foldl_of_mem ⟨s, hs, hf⟩ c d

/-- The other fields stay. -/
theorem get_flags_of_not_named {args : List Bytes} {f : Field} (h : f ∉ named args) (c : Config) :
    ((flagSettings args).foldl Config.set c).get f = c.get f := by
  refine Config.get_foldl_of_ne (fun s hs hf => ?_) c
  exact h (List.mem_filterMap.mpr ⟨s, hs, hf⟩)

theorem hardware_not_named {args : List Bytes} {f : Field}
    (hf : f ∈ [Field.device, Field.csHigh]) : f ∉ named args := by
  intro h
  obtain ⟨s, hs, hsf⟩ := List.mem_filterMap.mp h
  obtain ⟨hdevice, hcs⟩ := field_of_mem_flagSettings hs
  rcases List.mem_cons.mp hf with rfl | hf
  · exact hdevice hsf
  · obtain rfl := List.mem_singleton.mp hf
    exact hcs hsf

/-- A path is what it is cut to. -/
theorem setPath_coe (p : Path) : setPath p = p := Subtype.ext (List.take_of_length_le p.2)

theorem setPath_trim_eq_iff {p : Path} :
    setPath (Text.trim blankOrCr p) = p ↔ Text.trim blankOrCr p.1 = p.1 := by
  have hle : (Text.trim blankOrCr p.1).length ≤ pathCapacity :=
    Text.trim_sublist.length_le.trans p.2
  constructor
  · intro h
    have hbytes : (Text.trim blankOrCr p.1).take pathCapacity = p.1 := congrArg Subtype.val h
    rwa [List.take_of_length_le hle] at hbytes
  · intro h
    rw [h]
    exact setPath_coe p

/-- The written file over another configuration: its seven fields, trimmed paths included, and
nothing else. -/
theorem layer_writeRuntime {new : Config} (h : new.OneLine) (under : Config) :
    layer under (some (writeRuntime new)) =
      { new with device := under.device, csHigh := under.csHigh
                 blob := setPath (Text.trim blankOrCr new.blob)
                 eval := setPath (Text.trim blankOrCr new.eval) } := by
  rw [layer, readFile_writeRuntime, parseBuffer_eq, settings_writeRuntime h.1 h.2]
  rfl

/-- With clean paths it is the configuration it was written from, but for the hardware. -/
theorem get_layer_writeRuntime {new : Config} (h : new.OneLine)
    (hblob : Text.trim blankOrCr new.blob.1 = new.blob.1)
    (heval : Text.trim blankOrCr new.eval.1 = new.eval.1) (under : Config) :
    (∀ f ∈ cliFields, (layer under (some (writeRuntime new))).get f = new.get f) ∧
    ∀ f ∈ [Field.device, Field.csHigh],
      (layer under (some (writeRuntime new))).get f = under.get f := by
  rw [layer_writeRuntime h, setPath_trim_eq_iff.mpr hblob, setPath_trim_eq_iff.mpr heval]
  constructor
  · intro f hf
    cases f with
    | device => exact absurd hf (by decide)
    | csHigh => exact absurd hf (by decide)
    | _ => rfl
  · intro f hf
    cases f with
    | device => rfl
    | csHigh => rfl
    | _ => exact absurd hf (by decide)

/-- A field that no flag names and that differs from the default's was set by the runtime
file, so the base does not matter for it. -/
theorem get_layer_eq_or (under : Config) (runtime : Option Bytes) (f : Field) :
    (layer .default runtime).get f = (layer under runtime).get f ∨
      (layer .default runtime).get f = Config.default.get f := by
  rw [layer_eq, layer_eq]
  by_cases h : ∃ s ∈ layerSettings runtime, s.field = some f
  · exact .inl (Config.get_foldl_of_mem h _ _)
  · refine .inr (Config.get_foldl_of_ne (fun s hs hf => ?_) _)
    exact h ⟨s, hs, hf⟩

/-- A path that the written file gives back as the flags' target has it is trimmed. -/
theorem trim_of_get_eq {runtime : Option Bytes} {args : List Bytes} {under : Config} {f : Field}
    {π : Config → Path} (hπ : ∀ c d : Config, c.get f = d.get f ↔ π c = π d)
    (hdefault : (π .default).1 = [])
    (h : setPath (Text.trim blankOrCr
        (π ((flagSettings args).foldl Config.set (layer .default runtime)))) =
      π ((flagSettings args).foldl Config.set (layer under runtime))) :
    Text.trim blankOrCr
        (π ((flagSettings args).foldl Config.set (layer .default runtime))).1 =
      (π ((flagSettings args).foldl Config.set (layer .default runtime))).1 := by
  by_cases hnamed : f ∈ named args
  · have hsame := (hπ _ _).mp (get_flags_of_named hnamed (layer .default runtime)
      (layer under runtime))
    rw [← hsame] at h
    exact setPath_trim_eq_iff.mp h
  · have hown := (hπ _ _).mp (get_flags_of_not_named hnamed (layer .default runtime))
    have htarget := (hπ _ _).mp (get_flags_of_not_named hnamed (layer under runtime))
    rw [hown, htarget] at h
    rw [hown]
    rcases get_layer_eq_or under runtime f with hset | hunset
    · rw [← (hπ _ _).mp hset] at h
      exact setPath_trim_eq_iff.mp h
    · rw [(hπ _ _).mp hunset, hdefault]
      rfl

/-- A newline in a path after the flags is in it already, or comes from a flag. -/
theorem oneLine_flags {args : List Bytes} {own before : Config} (hown : own.OneLine)
    (htarget : ((flagSettings args).foldl Config.set before).OneLine) :
    ((flagSettings args).foldl Config.set own).OneLine := by
  constructor
  · by_cases hnamed : Field.blob ∈ named args
    · have hsame : ((flagSettings args).foldl Config.set own).blob =
          ((flagSettings args).foldl Config.set before).blob := get_flags_of_named hnamed _ _
      rw [hsame]
      exact htarget.1
    · have hkept : ((flagSettings args).foldl Config.set own).blob = own.blob :=
        get_flags_of_not_named hnamed own
      rw [hkept]
      exact hown.1
  · by_cases hnamed : Field.eval ∈ named args
    · have hsame : ((flagSettings args).foldl Config.set own).eval =
          ((flagSettings args).foldl Config.set before).eval := get_flags_of_named hnamed _ _
      rw [hsame]
      exact htarget.2
    · have hkept : ((flagSettings args).foldl Config.set own).eval = own.eval :=
        get_flags_of_not_named hnamed own
      rw [hkept]
      exact hown.2

theorem cleanPath_iff {p : Path} :
    cleanPath p = true ↔ 10 ∉ p.1 ∧ Text.trim blankOrCr p.1 = p.1 := by
  simp [cleanPath]

/-! ### The exact condition -/

/-- **`bling set` changes only what it is given** just when `KeepsRest` holds.  With the file
it writes, the service loads what it loaded before with the flags applied to it. -/
theorem blingSet_iff {base runtime : Option Bytes} {args : List Bytes} {before : Config}
    {written : Bytes} (hload : loadConfig base runtime = .ok before)
    (hset : cmdBlingSet runtime args = .ok written) :
    loadConfig base (some written) = applyFlags before args ↔ KeepsRest base runtime args := by
  -- both sides as settings over the layers
  have hall := loadConfig_ok hload
  obtain rfl : layer (layer .default base) runtime = before :=
    Except.ok.inj ((hall runtime).symm.trans hload)
  unfold cmdBlingSet at hset
  split at hset
  · rename_i new hflags
    have happly := applyFlags_ok hflags
    obtain rfl : (flagSettings args).foldl Config.set (layer .default runtime) = new :=
      Except.ok.inj ((happly _).symm.trans hflags)
    obtain rfl : writeRuntime _ = written :=
      Except.ok.inj ((writeRuntimeConfig_eq _).symm.trans hset)
    rw [hall, happly, Except.ok.injEq]
    clear hall happly hload hset hflags
    have hunder : (layer .default base).OneLine := oneLine_layer oneLine_default base
    constructor
    · intro heq
      -- no newline gets through a file, so the paths written have none
      have hline := oneLine_flags (oneLine_layer oneLine_default runtime)
        (heq ▸ oneLine_layer hunder _)
      have hafter := layer_writeRuntime hline (layer .default base)
      have hblob := trim_of_get_eq (f := .blob) (π := Config.blob) (fun _ _ => Iff.rfl) rfl
        ((congrArg Config.blob hafter).symm.trans (congrArg Config.blob heq))
      have heval := trim_of_get_eq (f := .eval) (π := Config.eval) (fun _ _ => Iff.rfl) rfl
        ((congrArg Config.eval hafter).symm.trans (congrArg Config.eval heq))
      obtain ⟨hcli, hhardware⟩ := get_layer_writeRuntime hline hblob heval (layer .default base)
      rw [heq] at hcli hhardware
      refine ⟨fun f hf => ?_, fun f hf => ?_, cleanPath_iff.mpr ⟨hline.1, hblob⟩,
        cleanPath_iff.mpr ⟨hline.2, heval⟩⟩
      · by_cases hnamed : f ∈ named args
        · exact .inl hnamed
        · have hown := hcli f hf
          rw [get_flags_of_not_named hnamed, get_flags_of_not_named hnamed] at hown
          exact .inr hown.symm
      · have hkept := hhardware f hf
        rw [get_flags_of_not_named (hardware_not_named hf)] at hkept
        exact hkept.symm
    · intro hsame
      obtain ⟨hrest, hhardware, hblob, heval⟩ := hsame
      obtain ⟨hblobLine, hblob⟩ := cleanPath_iff.mp hblob
      obtain ⟨hevalLine, heval⟩ := cleanPath_iff.mp heval
      obtain ⟨hcli, hother⟩ := get_layer_writeRuntime ⟨hblobLine, hevalLine⟩ hblob heval
        (layer .default base)
      apply Config.ext_get
      intro f
      by_cases hf : f ∈ cliFields
      · refine (hcli f hf).trans ?_
        by_cases hnamed : f ∈ named args
        · exact get_flags_of_named hnamed _ _
        · rw [get_flags_of_not_named hnamed]
          refine Eq.trans ?_ (get_flags_of_not_named hnamed _).symm
          exact (hrest f hf).resolve_left hnamed
      · have hhw : f ∈ [Field.device, Field.csHigh] := by
          cases f with
          | device => decide
          | csHigh => decide
          | _ => exact absurd (by decide) hf
        refine (hother f hhw).trans ?_
        rw [get_flags_of_not_named (hardware_not_named hhw)]
        exact hhardware f hhw
  · cases hset

/-- A runtime file that has all the base has: `--count` changes the count and nothing else. -/
theorem blingSet_iff_count :
    let fps25 : Config := { Config.default with fps := ⟨25, by decide⟩ }
    let written := writeRuntime { fps25 with count := ⟨30, by decide⟩ }
    loadConfig (some (ascii "fps = 25")) (some (ascii "fps = 25")) = .ok fps25 ∧
    cmdBlingSet (some (ascii "fps = 25")) [ascii "--count", ascii "30"] = .ok written ∧
    loadConfig (some (ascii "fps = 25")) (some written) =
      applyFlags fps25 [ascii "--count", ascii "30"] := by
  have hload : loadConfig (some (ascii "fps = 25")) (some (ascii "fps = 25")) =
      .ok { Config.default with fps := ⟨25, by decide⟩ } := by decide +kernel
  have hset : cmdBlingSet (some (ascii "fps = 25")) [ascii "--count", ascii "30"] =
      .ok (writeRuntime { Config.default with fps := ⟨25, by decide⟩
                                              count := ⟨30, by decide⟩ }) := by decide +kernel
  exact ⟨hload, hset, (blingSet_iff hload hset).2 (by decide +kernel)⟩

/-- `bling set --brightness 80` on a badge whose base config has 30 LEDs and that has no runtime
file yet sets the count back to the default. -/
theorem blingSet_resets_count :
    ¬ ∀ (base : Bytes) (args : List Bytes) (before : Config) (written : Bytes),
      loadConfig (some base) none = .ok before → cmdBlingSet none args = .ok written →
      loadConfig (some base) (some written) = applyFlags before args := by
  intro hclaim
  have hload : loadConfig (some (ascii "count = 30")) none =
      .ok { Config.default with count := ⟨30, by decide⟩ } := by decide +kernel
  have hset : cmdBlingSet none [ascii "--brightness", ascii "80"] =
      .ok (writeRuntime { Config.default with brightness := ⟨80, by decide⟩ }) := by
    decide +kernel
  exact absurd (hclaim _ _ _ _ hload hset) (by decide +kernel)

end BadgeOS.Bling
