import BadgeOS.Bling.Set

/-!
# The runtime file's round trip

A path comes from the command line as it is and goes into one line of the file, so it comes back
when it has no newline and no blank at its ends, and only then.

* `Reachable` — the configurations that accepted settings lead to;
* `RoundTrips` — the seven fields come back, over any configuration;
* `runtime_round_trips_iff` — the exact condition.
-/

namespace BadgeOS.Bling

variable {c : Config}

/-- What accepted `applyKeyValue` calls make of the default; an argument has no NUL. -/
inductive Reachable : Config → Prop
  | default : Reachable .default
  | set {c d : Config} {key val : Bytes} : Reachable c → 0 ∉ val →
      applyKeyValue c key val = .ok d → Reachable d

/-- The written file parses over any configuration, sets the fields that the CLI writes to what
they were, and leaves the other two alone. -/
def RoundTrips (c : Config) : Prop :=
  ∀ start, (parseBuffer start (writeRuntime c)).2 = none ∧
    (∀ f ∈ cliFields, (parseBuffer start (writeRuntime c)).1.get f = c.get f) ∧
    ∀ f ∉ cliFields, (parseBuffer start (writeRuntime c)).1.get f = start.get f

/-- What a file gives for a path has no newline. -/
theorem RoundTrips.oneLine (h : RoundTrips c) : c.OneLine := by
  obtain ⟨-, hset, -⟩ := h .default
  have hline : (parseBuffer .default (writeRuntime c)).1.OneLine := by
    rw [parseBuffer_eq]
    exact oneLine_readLines (fun l hl => Text.not_mem_of_mem_splitOn hl) oneLine_default
  have hblob : (parseBuffer .default (writeRuntime c)).1.blob = c.blob := hset .blob (by decide)
  have heval : (parseBuffer .default (writeRuntime c)).1.eval = c.eval := hset .eval (by decide)
  rw [Config.OneLine, hblob, heval] at hline
  exact hline

/-- The file as it is read, without a newline in a path. -/
theorem parseBuffer_writeRuntime (h : c.OneLine) (start : Config) :
    parseBuffer start (writeRuntime c) =
      ({ c with
          device := start.device, csHigh := start.csHigh
          blob := setPath (Text.trim blankOrCr c.blob)
          eval := setPath (Text.trim blankOrCr c.eval) }, none) := by
  rw [parseBuffer_eq, settings_writeRuntime h.1 h.2]
  rfl

/-- **The round trip.**  Every configuration fits the buffer it is written in, and comes back just
when neither path has a newline, or a blank or a carriage return at an end. -/
theorem runtime_round_trips_iff (c : Config) :
    writeRuntimeConfig c = .ok (writeRuntime c) ∧
      (RoundTrips c ↔ cleanPath c.blob = true ∧ cleanPath c.eval = true) := by
  refine ⟨writeRuntimeConfig_eq c, ?_⟩
  rw [cleanPath_iff, cleanPath_iff]
  constructor
  · intro h
    have hline := h.oneLine
    obtain ⟨-, hset, -⟩ := h .default
    rw [parseBuffer_writeRuntime hline] at hset
    have hblob : setPath (Text.trim blankOrCr c.blob) = c.blob := hset .blob (by decide)
    have heval : setPath (Text.trim blankOrCr c.eval) = c.eval := hset .eval (by decide)
    exact ⟨⟨hline.1, setPath_trim_eq_iff.1 hblob⟩, ⟨hline.2, setPath_trim_eq_iff.1 heval⟩⟩
  · intro hclean start
    obtain ⟨⟨hblobLine, hblob⟩, hevalLine, heval⟩ := hclean
    rw [parseBuffer_writeRuntime ⟨hblobLine, hevalLine⟩, setPath_trim_eq_iff.2 hblob,
      setPath_trim_eq_iff.2 heval]
    refine ⟨rfl, fun f hf => ?_, fun f hf => ?_⟩
    · cases f with
      | device => exact absurd hf (by decide)
      | csHigh => exact absurd hf (by decide)
      | _ => rfl
    · cases f with
      | device => rfl
      | csHigh => rfl
      | _ => exact absurd (by decide) hf

/-- A blank at the end of a path is gone when it comes back. -/
theorem runtime_drops_blank : ¬ ∀ c, Reachable c → RoundTrips c := by
  intro hall
  have hset : applyKeyValue .default (ascii "blob") (ascii "/a ") =
      .ok { Config.default with blob := setPath (ascii "/a ") } := by decide +kernel
  obtain ⟨-, hget, -⟩ := hall _ (.set .default (by decide) hset) .default
  exact absurd (hget .blob (by decide)) (by decide +kernel)

end BadgeOS.Bling
