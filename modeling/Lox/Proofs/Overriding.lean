import Lox.Proofs.Commands
import Lox.Proofs.Layering

/-!
# The log level on the command line

A log level on the command line overrides the one of the layers. It does so after
the layers have been checked, so a level that is about to be replaced must be a
level all the same. Apart from that the option does what the variable behind the
field does, which hides the levels below it unseen.
-/
namespace Lox

namespace Settings

theorem withLevel_eq_ok_iff {s t : Settings} {v : String} :
    s.withLevel v = .ok t ↔ t.prompt = s.prompt ∧ TakesLevel (some (.string v)) t.logLevel ∧
      t.color = s.color := by
  have hlookup (k : String) : (Fields.put "log_level" (.string v) s.toFields).lookup k =
      if k == "log_level" then some (.string v) else s.toFields.lookup k :=
    Fields.lookup_put _ _ _ _
  have hprompt : TakesPrompt (some (.string s.prompt)) t.prompt ↔ t.prompt = s.prompt := by
    rw [← field_string_iff]
    exact ⟨fun h => (Except.ok.inj h).symm, fun h => congrArg Except.ok h.symm⟩
  have hcolor : TakesColor (some (.bool s.color)) t.color ↔ t.color = s.color := by
    rw [← field_boolean_iff]
    exact ⟨fun h => (Except.ok.inj h).symm, fun h => congrArg Except.ok h.symm⟩
  rw [withLevel, ofFields_eq_ok_iff, hlookup, hlookup, hlookup, ← hprompt, ← hcolor]
  rfl

/-- Two ways to settings have the same effect: the same settings, or a complaint about
what the settings say. -/
inductive SameEffect : Except LoadError Settings → Except LoadError Settings → Prop
  | loaded (s : Settings) : SameEffect (.ok s) (.ok s)
  | refused {x y : LoadError} : x.concernsSettings = true → y.concernsSettings = true →
      SameEffect (.error x) (.error y)

theorem SameEffect.isOk_eq {x y : Except LoadError Settings} (h : SameEffect x y) :
    x.isOk = y.isOk := by
  cases h <;> rfl

/-- An environment in which one variable is set, and all others are as before. -/
structure Sets (env env' : List (String × String)) (name value : String) : Prop where
  here : env'.lookup name = some value
  others : ∀ other, other ≠ name → env'.lookup other = env.lookup other

/-- The environment is no matter of the files. -/
theorem Holds.withEnv {project own : Option (List UInt8)} {L : Layers} (h : Holds project own L)
    (env' : List (String × String)) : Holds project own ⟨env', L.own, L.low⟩ :=
  ⟨h.project, h.own⟩

theorem concerns_of_mapError {x : Except (List Issue) Settings} {e : LoadError}
    (h : x.mapError .invalid = .error e) : e.concernsSettings = true := by
  cases x with
  | ok s => cases h
  | error issues =>
      cases h
      rfl

theorem Holds.load_concerns {project own : Option (List UInt8)} {L : Layers}
    (h : Holds project own L) {x : LoadError} (hx : load project own L.env = .error x) :
    x.concernsSettings = true := by
  rw [h.load_eq] at hx
  exact concerns_of_mapError hx

section
variable {L : Layers} {env' : List (String × String)} {v : String}
  (hsets : Sets L.env env' "PYLOX_LOG_LEVEL" v)
include hsets

theorem Sets.logLevel_eq : (Layers.mk env' L.own L.low).logLevel = some (.string v) := by
  rw [Layers.logLevel, Layers.winner, hsets.here]

theorem Sets.winner_eq {field name : String} (hname : name ≠ "PYLOX_LOG_LEVEL") :
    (Layers.mk env' L.own L.low).winner field name = L.winner field name := by
  rw [Layers.winner, hsets.others name hname]
  rfl

/-- Loaded with the variable set, the settings are as before but for the level. -/
theorem Sets.load_eq_ok_iff {project own : Option (List UInt8)} (h : Holds project own L)
    {s : Settings} : load project own env' = .ok s ↔ TakesPrompt L.prompt s.prompt ∧
      TakesLevel (some (.string v)) s.logLevel ∧ TakesColor L.color s.color := by
  have hprompt : (Layers.mk env' L.own L.low).prompt = L.prompt := hsets.winner_eq (by decide)
  have hcolor : (Layers.mk env' L.own L.low).color = L.color := hsets.winner_eq (by decide)
  rw [(h.withEnv env').load_eq_ok_iff, hprompt, hcolor, hsets.logLevel_eq]

end

end Settings

namespace Cli
open Settings

/-- The two files of settings in a workspace. -/
def projectIn (w : Workspace) : Option (List UInt8) := w.file? (Path.ofText projectFile)

def ownIn (w : Workspace) : Option (List UInt8) := w.file? (Path.ofText ownFile)

theorem settings_some (w : Workspace) (env : List (String × String)) (v : String) :
    settings w env (some v) =
      (load (projectIn w) (ownIn w) env).bind fun s => (s.withLevel v).mapError .invalid :=
  rfl

theorem settings_eq_ok_iff {w : Workspace} {env : List (String × String)} {v : String}
    {t : Settings} : settings w env (some v) = .ok t ↔
      ∃ s, load (projectIn w) (ownIn w) env = .ok s ∧ s.withLevel v = .ok t := by
  rw [settings_some]
  cases load (projectIn w) (ownIn w) env with
  | error x => simp [Except.bind]
  | ok s => simp [Except.bind, mapError_eq_ok_iff]

section
variable {w : Workspace} {L : Layers} (h : Holds (projectIn w) (ownIn w) L)
include h

/-- The option takes effect on settings that load without it. -/
theorem settings_eq_ok_iff_of_holds {env' : List (String × String)} {v : String}
    (hsets : Sets L.env env' "PYLOX_LOG_LEVEL" v) {t : Settings} :
    settings w L.env (some v) = .ok t ↔
      (∃ l, TakesLevel L.logLevel l) ∧ load (projectIn w) (ownIn w) env' = .ok t := by
  rw [settings_eq_ok_iff, hsets.load_eq_ok_iff h]
  constructor
  · rintro ⟨s, hs, ht⟩
    obtain ⟨hprompt, hlevel, hcolor⟩ := h.load_eq_ok_iff.mp hs
    obtain ⟨hprompt', hlevel', hcolor'⟩ := withLevel_eq_ok_iff.mp ht
    rw [← hprompt'] at hprompt
    rw [← hcolor'] at hcolor
    exact ⟨⟨_, hlevel⟩, hprompt, hlevel', hcolor⟩
  · rintro ⟨⟨l, hl⟩, hprompt, hlevel, hcolor⟩
    refine ⟨⟨t.prompt, l, t.color⟩, h.load_eq_ok_iff.mpr ⟨hprompt, hl, hcolor⟩, ?_⟩
    exact withLevel_eq_ok_iff.mpr ⟨rfl, hlevel, rfl⟩

theorem settings_concerns {v : String} {x : LoadError}
    (hx : settings w L.env (some v) = .error x) : x.concernsSettings = true := by
  rw [settings_some] at hx
  cases hload : load (projectIn w) (ownIn w) L.env with
  | error y =>
      rw [hload] at hx
      cases hx
      exact h.load_concerns hload
  | ok s =>
      rw [hload] at hx
      exact concerns_of_mapError hx

/-- A command line whose settings are at fault ends with a status of its own. -/
theorem execute_of_no_settings {host : Host} {args rest : List String} {v name stdin : String}
    (hnames : Names args (some v) name rest) (hno : ∀ s, settings w L.env (some v) ≠ .ok s) :
    ∃ chunks, execute host w L.env args stdin = .exited 64 chunks := by
  cases hsettings : settings w L.env (some v) with
  | ok s => exact absurd hsettings (hno s)
  | error x =>
      rw [execute, launch_of_names hnames, dispatch, hsettings]
      simp only [settings_concerns h hsettings, if_true]
      exact ⟨_, rfl⟩

end

/-- The option has the effect of the variable if and only if the level that the layers
name is a level, or there are no settings with the variable either. Where there are no
settings with the option, a command ends with status 64. -/
theorem option_acts_as_variable_iff (w : Workspace) (L : Layers) (env' : List (String × String))
    (v : String) (h : Holds (projectIn w) (ownIn w) L)
    (hsets : Sets L.env env' "PYLOX_LOG_LEVEL" v) :
    (SameEffect (settings w L.env (some v)) (load (projectIn w) (ownIn w) env') ↔
        ((∃ s, load (projectIn w) (ownIn w) env' = .ok s) → ∃ l, TakesLevel L.logLevel l)) ∧
      ∀ host args name rest stdin, Names args (some v) name rest →
        (∀ s, settings w L.env (some v) ≠ .ok s) →
        ∃ chunks, execute host w L.env args stdin = .exited 64 chunks := by
  refine ⟨⟨?_, ?_⟩, fun _ _ _ _ _ hnames hno => execute_of_no_settings h hnames hno⟩
  · rintro hsame ⟨s, hs⟩
    rw [hs] at hsame
    cases hsettings : settings w L.env (some v) with
    | error x =>
        rw [hsettings] at hsame
        cases hsame
    | ok t => exact ((settings_eq_ok_iff_of_holds h hsets).mp hsettings).1
  · intro hlevel
    cases hload : load (projectIn w) (ownIn w) env' with
    | ok s =>
        rw [(settings_eq_ok_iff_of_holds h hsets).mpr ⟨hlevel ⟨s, hload⟩, hload⟩]
        exact .loaded s
    | error y =>
        cases hsettings : settings w L.env (some v) with
        | ok t =>
            have hload' := ((settings_eq_ok_iff_of_holds h hsets).mp hsettings).2
            rw [hload] at hload'
            cases hload'
        | error x =>
            apply SameEffect.refused
            · exact settings_concerns h hsettings
            · exact (h.withEnv env').load_concerns hload

/-- The variable holds a level, which the option replaces. -/
theorem option_acts_as_variable_iff_level :
    Holds (projectIn ⟨[]⟩) (ownIn ⟨[]⟩) ⟨[("PYLOX_LOG_LEVEL", "debug")], [], []⟩ ∧
      Sets [("PYLOX_LOG_LEVEL", "debug")] [("PYLOX_LOG_LEVEL", "error")] "PYLOX_LOG_LEVEL" "error" ∧
      SameEffect (settings ⟨[]⟩ [("PYLOX_LOG_LEVEL", "debug")] (some "error"))
        (load (projectIn ⟨[]⟩) (ownIn ⟨[]⟩) [("PYLOX_LOG_LEVEL", "error")]) := by
  have h : Holds (projectIn ⟨[]⟩) (ownIn ⟨[]⟩) ⟨[("PYLOX_LOG_LEVEL", "debug")], [], []⟩ :=
    ⟨⟨[], rfl, .noTools (by simp)⟩, rfl⟩
  have hsets : Sets [("PYLOX_LOG_LEVEL", "debug")] [("PYLOX_LOG_LEVEL", "error")]
      "PYLOX_LOG_LEVEL" "error" := by
    refine ⟨rfl, fun other hother => ?_⟩
    rw [List.lookup_cons, List.lookup_cons, beq_eq_false_iff_ne.mpr hother]
  refine ⟨h, hsets, (option_acts_as_variable_iff _ _ _ _ h hsets).1.mpr fun _ => ?_⟩
  exact ⟨.debug, .given (by decide)⟩

/-- A script beside a file that names something which is no level. -/
def misconfigured : Workspace :=
  Workspace.ofList [("m", .file "print 1;".toUTF8.toList),
    ("pylox.toml", .file "log_level = \"nope\"\n".toUTF8.toList)]

/-- The variable hides what the file says, and the option does not. -/
theorem option_lets_level_show :
    ¬ SameEffect (settings misconfigured [] (some "info"))
        (load (projectIn misconfigured) (ownIn misconfigured) [("PYLOX_LOG_LEVEL", "info")]) ∧
      (execute ⟨"", "", ""⟩ misconfigured [] ["--log-level", "info", "run", "m"] "").seen?.map
        Seen.status = some 64 ∧
      (execute ⟨"", "", ""⟩ misconfigured [("PYLOX_LOG_LEVEL", "info")] ["run", "m"] "").seen? =
        some ⟨0, "1\n", ""⟩ := by
  refine ⟨?_, by decide +kernel, by decide +kernel⟩
  intro hsame
  have hloads := hsame.isOk_eq
  revert hloads
  decide +kernel

end Cli

end Lox
