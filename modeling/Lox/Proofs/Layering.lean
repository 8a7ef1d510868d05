import Lox.Settings

/-!
# Layers of settings

Settings come from three layers that are entered over one another and checked
once. What comes of a field is decided by one datum, that of the highest layer
which names the field. It has to suit the field, and everything else may be as it
likes: data that a higher layer hides are never looked at, suitable or not, and
neither are data under names that belong to no field.
-/
namespace Lox.Settings

theorem lookup_merged (layers : List Fields) (k : String) :
    (merged layers).lookup k = layers.findSome? (·.lookup k) := by
  induction layers with
  | nil => rfl
  | cons layer below ih =>
      rw [merged, Fields.lookup_update, ih, List.findSome?_cons]
      cases layer.lookup k <;> rfl

/-- Of variables that stand for different fields, each decides about its own. -/
theorem lookup_variables (env : List (String × String)) {names : List (String × String)}
    (hnames : (names.map Prod.fst).Nodup) {field name : String} (h : (field, name) ∈ names) :
    (names.filterMap fun (f, n) => (env.lookup n).map fun value =>
      (f, Datum.string value)).lookup field = (env.lookup name).map .string := by
  induction names with
  | nil => cases h
  | cons pair names ih =>
      obtain ⟨f, n⟩ := pair
      rw [List.map_cons, List.nodup_cons] at hnames
      rcases List.mem_cons.mp h with heq | hmem
      · cases heq
        cases hvalue : env.lookup name with
        | some value => simp [hvalue]
        | none =>
            simp only [List.filterMap_cons, hvalue, Option.map_none]
            rw [List.lookup_eq_none_iff]
            intro p hp
            obtain ⟨q, hq, hqp⟩ := List.mem_filterMap.mp hp
            obtain ⟨value, _, rfl⟩ := Option.map_eq_some_iff.mp hqp
            have hne : field ≠ q.1 := fun hsame =>
              hnames.1 (List.mem_map.mpr ⟨q, hq, hsame.symm⟩)
            simpa using hne
      · have hne : (field == f) = false := by
          rw [beq_eq_false_iff_ne]
          exact fun hsame => hnames.1 (List.mem_map.mpr ⟨_, hmem, hsame⟩)
        rw [← ih hnames.2 hmem]
        cases hvalue : env.lookup n with
        | none => simp [hvalue]
        | some value => simp [hvalue, List.lookup_cons, hne]

theorem lookup_ofEnvironment (env : List (String × String)) {field name : String}
    (h : (field, name) ∈ environmentNames) :
    (ofEnvironment env).lookup field = (env.lookup name).map .string :=
  lookup_variables env (by decide) h

/-! ## Checks -/

/-- The prompt that a datum, or the lack of one, gives. -/
inductive TakesPrompt : Option Datum → String → Prop
  | default : TakesPrompt none "> "
  | given (s : String) : TakesPrompt (some (.string s)) s

/-- The log level that a datum, or the lack of one, gives. It is named in upper case. -/
inductive TakesLevel : Option Datum → LogLevel → Prop
  | default : TakesLevel none .warning
  | given {s : String} {l : LogLevel} : l.name = Text.Upper.upper s →
      TakesLevel (some (.string s)) l

/-- The choice of colors that a datum, or the lack of one, gives. -/
inductive TakesColor : Option Datum → Bool → Prop
  | default : TakesColor none true
  | given {d : Datum} {b : Bool} : Field.boolean d = .ok b → TakesColor (some d) b

theorem field_string_iff {d : Option Datum} {p : String} :
    field Field.string defaults.prompt d = .ok p ↔ TakesPrompt d p := by
  constructor
  · intro h
    cases d with
    | none =>
        cases h
        exact .default
    | some d =>
        cases d with
        | string s =>
            cases h
            exact .given _
        | _ => cases h
  · intro h
    cases h <;> rfl

theorem ofName?_eq_some_iff {s : String} {l : LogLevel} :
    LogLevel.ofName? s = some l ↔ l.name = Text.Upper.upper s := by
  constructor
  · intro h
    unfold LogLevel.ofName? at h
    simpa using List.find?_some h
  · intro h
    unfold LogLevel.ofName?
    rw [← h]
    cases l <;> rfl

theorem levelField_iff {d : Datum} {l : LogLevel} :
    levelField d = .ok l ↔ TakesLevel (some d) l := by
  constructor
  · intro h
    cases d with
    | string s =>
        rw [levelField] at h
        cases hname : LogLevel.ofName? s with
        | none =>
            rw [hname] at h
            cases h
        | some l' =>
            rw [hname] at h
            cases h
            exact .given (ofName?_eq_some_iff.mp hname)
    | _ => cases h
  · intro h
    cases h with
    | given hname => rw [levelField, ofName?_eq_some_iff.mpr hname]

theorem field_level_iff {d : Option Datum} {l : LogLevel} :
    field levelField defaults.logLevel d = .ok l ↔ TakesLevel d l := by
  cases d with
  | some d => exact levelField_iff
  | none =>
      constructor
      · intro h
        cases h
        exact .default
      · intro h
        cases h
        rfl

theorem field_boolean_iff {d : Option Datum} {b : Bool} :
    field Field.boolean defaults.color d = .ok b ↔ TakesColor d b := by
  constructor
  · intro h
    cases d with
    | none =>
        cases h
        exact .default
    | some d => exact .given h
  · intro h
    cases h with
    | default => rfl
    | given h => exact h

theorem ofFields_eq_ok_iff {data : Fields} {s : Settings} :
    ofFields data = .ok s ↔ TakesPrompt (data.lookup "prompt") s.prompt ∧
      TakesLevel (data.lookup "log_level") s.logLevel ∧
      TakesColor (data.lookup "color") s.color := by
  rw [← field_string_iff, ← field_level_iff, ← field_boolean_iff]
  obtain ⟨p, l, c⟩ := s
  unfold ofFields
  cases field Field.string defaults.prompt (data.lookup "prompt") <;>
    cases field levelField defaults.logLevel (data.lookup "log_level") <;>
    cases field Field.boolean defaults.color (data.lookup "color") <;> simp

/-- The issue that a check finds in the datum of a field. There is none where there
is no datum. -/
def issuesOf {α : Type} (name : String) (check : Datum → Field.Checked α) :
    Option Datum → List Issue
  | none => []
  | some d =>
      match check d with
      | .ok _ => []
      | .error x => [⟨[name], x⟩]

theorem issues_field {α : Type} (name : String) (check : Datum → Field.Checked α) (default : α)
    (d : Option Datum) : Field.issues name (field check default d) = issuesOf name check d := by
  cases d with
  | none => rfl
  | some d =>
      rw [field, issuesOf]
      cases check d <;> rfl

theorem ofFields_of_ne_ok {data : Fields} (h : ∀ s, ofFields data ≠ .ok s) :
    ofFields data = .error (issuesOf "prompt" Field.string (data.lookup "prompt") ++
      issuesOf "log_level" levelField (data.lookup "log_level") ++
      issuesOf "color" Field.boolean (data.lookup "color")) := by
  rw [← issues_field _ _ defaults.prompt, ← issues_field _ _ defaults.logLevel,
    ← issues_field _ _ defaults.color]
  unfold ofFields at h ⊢
  generalize field Field.string defaults.prompt (data.lookup "prompt") = p at h ⊢
  generalize field levelField defaults.logLevel (data.lookup "log_level") = l at h ⊢
  generalize field Field.boolean defaults.color (data.lookup "color") = c at h ⊢
  cases p with
  | error x => rfl
  | ok p =>
      cases l with
      | error x => rfl
      | ok l =>
          cases c with
          | error x => rfl
          | ok c => exact absurd rfl (h ⟨p, l, c⟩)

/-! ## Layers -/

/-- What the three layers say: the environment, the file of this tool, and its
section in the project file. -/
structure Layers where
  env : List (String × String)
  own : Fields
  low : Fields

namespace Layers

/-- The datum that decides about a field, `name` being the variable behind it. -/
def winner (L : Layers) (field name : String) : Option Datum :=
  match L.env.lookup name with
  | some value => some (.string value)
  | none =>
      match L.own.lookup field with
      | some d => some d
      | none => L.low.lookup field

def prompt (L : Layers) : Option Datum := L.winner "prompt" "PYLOX_PROMPT"

def logLevel (L : Layers) : Option Datum := L.winner "log_level" "PYLOX_LOG_LEVEL"

def color (L : Layers) : Option Datum := L.winner "color" "PYLOX_COLOR"

/-- All layers in one. -/
def data (L : Layers) : Fields := merged [ofEnvironment L.env, L.own, L.low]

theorem lookup_data (L : Layers) {field name : String} (h : (field, name) ∈ environmentNames) :
    L.data.lookup field = L.winner field name := by
  rw [data, lookup_merged, winner, List.findSome?_cons, lookup_ofEnvironment L.env h]
  cases L.env.lookup name with
  | some value => rfl
  | none =>
      rw [Option.map_none, List.findSome?_cons]
      cases L.own.lookup field with
      | some d => rfl
      | none =>
          rw [List.findSome?_cons, List.findSome?_nil]
          cases L.low.lookup field <;> rfl

theorem lookup_prompt (L : Layers) : L.data.lookup "prompt" = L.prompt :=
  L.lookup_data (by decide)

theorem lookup_logLevel (L : Layers) : L.data.lookup "log_level" = L.logLevel :=
  L.lookup_data (by decide)

theorem lookup_color (L : Layers) : L.data.lookup "color" = L.color :=
  L.lookup_data (by decide)

/-- Layers that differ in entries of no account only: entries hidden by a higher
layer, and entries under names that belong to no field. -/
structure SameOnTop (L L' : Layers) : Prop where
  env : ∀ field name, (field, name) ∈ environmentNames → L'.env.lookup name = L.env.lookup name
  own : ∀ field name, (field, name) ∈ environmentNames → L.env.lookup name = none →
    L'.own.lookup field = L.own.lookup field
  low : ∀ field name, (field, name) ∈ environmentNames → L.env.lookup name = none →
    L.own.lookup field = none → L'.low.lookup field = L.low.lookup field

theorem SameOnTop.winner_eq {L L' : Layers} (h : SameOnTop L L') {field name : String}
    (hname : (field, name) ∈ environmentNames) : L'.winner field name = L.winner field name := by
  unfold winner
  rw [h.env field name hname]
  cases henv : L.env.lookup name with
  | some value => rfl
  | none =>
      simp only
      rw [h.own field name hname henv]
      cases hown : L.own.lookup field with
      | some d => rfl
      | none => exact h.low field name hname henv hown

end Layers

/-- The section of this tool in a project description. There need be none, but what
stands in its place is a table. -/
inductive HasSection (described : Fields) : Fields → Prop
  | noTools : (∀ tools, described.lookup "tool" ≠ some (.table tools)) → HasSection described []
  | notNamed {tools : Fields} : described.lookup "tool" = some (.table tools) →
      tools.lookup "pylox" = none → HasSection described []
  | named {tools entries : Fields} : described.lookup "tool" = some (.table tools) →
      tools.lookup "pylox" = some (.table entries) → HasSection described entries

theorem HasSection.projectSection_eq {described low : Fields} (h : HasSection described low) :
    projectSection described = .ok low := by
  unfold projectSection
  cases h with
  | noTools hnone =>
      split
      · rename_i tools htools
        exact absurd htools (hnone tools)
      · rfl
  | notNamed htools hname =>
      rw [htools]
      simp only [hname]
  | named htools hname =>
      rw [htools]
      simp only [hname]

/-- The two files of a directory hold tables, and these are the lower layers. A file
that is not there holds an empty one. -/
structure Holds (project own : Option (List UInt8)) (L : Layers) : Prop where
  project : ∃ described, readTable projectFile project = .ok described ∧
    HasSection described L.low
  own : readTable ownFile own = .ok L.own

/-- Issues are wrapped up as a complaint, and settings are passed on. -/
theorem mapError_eq_ok_iff {x : Except (List Issue) Settings} {s : Settings} :
    x.mapError LoadError.invalid = .ok s ↔ x = .ok s := by
  constructor
  · intro h
    cases x <;> cases h
    rfl
  · intro h
    rw [h]
    rfl

section
variable {project own : Option (List UInt8)} {L : Layers}

theorem Holds.load_eq (h : Holds project own L) :
    load project own L.env = (ofFields L.data).mapError .invalid := by
  obtain ⟨described, hdescribed, hsection⟩ := h.project
  unfold load
  rw [hdescribed, h.own]
  simp only [bind, Except.bind, hsection.projectSection_eq]
  rfl

theorem Holds.load_eq_ok_iff (h : Holds project own L) {s : Settings} :
    load project own L.env = .ok s ↔ TakesPrompt L.prompt s.prompt ∧
      TakesLevel L.logLevel s.logLevel ∧ TakesColor L.color s.color := by
  rw [h.load_eq, mapError_eq_ok_iff, ofFields_eq_ok_iff, L.lookup_prompt, L.lookup_logLevel,
    L.lookup_color]

theorem Holds.load_of_ne_ok (h : Holds project own L)
    (hfails : ∀ s, load project own L.env ≠ .ok s) :
    load project own L.env = .error (.invalid (issuesOf "prompt" Field.string L.prompt ++
      issuesOf "log_level" levelField L.logLevel ++ issuesOf "color" Field.boolean L.color)) := by
  rw [h.load_eq] at hfails ⊢
  rw [← L.lookup_prompt, ← L.lookup_logLevel, ← L.lookup_color, ofFields_of_ne_ok]
  · rfl
  · intro s hs
    exact hfails s (mapError_eq_ok_iff.mpr hs)

/-- Layers with the same data on top load alike. -/
theorem Holds.load_congr (h : Holds project own L) {project' own' : Option (List UInt8)}
    {L' : Layers} (h' : Holds project' own' L') (hsame : L.SameOnTop L') :
    load project' own' L'.env = load project own L.env := by
  have hlookup (field name : String) (hname : (field, name) ∈ environmentNames) :
      L'.data.lookup field = L.data.lookup field := by
    rw [L'.lookup_data hname, L.lookup_data hname, hsame.winner_eq hname]
  rw [h'.load_eq, h.load_eq, ofFields, ofFields, hlookup "prompt" "PYLOX_PROMPT" (by decide),
    hlookup "log_level" "PYLOX_LOG_LEVEL" (by decide), hlookup "color" "PYLOX_COLOR" (by decide)]

end

/-- The settings are those of the winning data, field by field. They load if and only
if each of these suits its field; otherwise the issues are those of the data that do
not, in field order. Entries of no account may be changed or left out at will. -/
theorem load_decided_by_winners (project own : Option (List UInt8)) (L : Layers)
    (h : Holds project own L) :
    ((∃ s, load project own L.env = .ok s) ↔ (∃ p, TakesPrompt L.prompt p) ∧
        (∃ l, TakesLevel L.logLevel l) ∧ ∃ c, TakesColor L.color c) ∧
      (∀ s, load project own L.env = .ok s → TakesPrompt L.prompt s.prompt ∧
        TakesLevel L.logLevel s.logLevel ∧ TakesColor L.color s.color) ∧
      ((∀ s, load project own L.env ≠ .ok s) → load project own L.env =
        .error (.invalid (issuesOf "prompt" Field.string L.prompt ++
          issuesOf "log_level" levelField L.logLevel ++
          issuesOf "color" Field.boolean L.color))) ∧
      ∀ project' own' L', Holds project' own' L' → L.SameOnTop L' →
        load project' own' L'.env = load project own L.env := by
  refine ⟨⟨?_, ?_⟩, fun s => h.load_eq_ok_iff.mp, h.load_of_ne_ok, ?_⟩
  · rintro ⟨s, hs⟩
    obtain ⟨hp, hl, hc⟩ := h.load_eq_ok_iff.mp hs
    exact ⟨⟨_, hp⟩, ⟨_, hl⟩, _, hc⟩
  · rintro ⟨⟨p, hp⟩, ⟨l, hl⟩, c, hc⟩
    exact ⟨⟨p, l, c⟩, h.load_eq_ok_iff.mpr ⟨hp, hl, hc⟩⟩
  · intro project' own' L' h' hsame
    exact h.load_congr h' hsame

/-- A section with a number for a prompt. -/
def numberedPrompt : List UInt8 := "[tool.pylox]\nprompt=5".toUTF8.toList

/-- A file with a prompt, and a number for a level. -/
def numberedLevel : List UInt8 := "prompt=\"p\"\nlog_level=3".toUTF8.toList

/-- What the two hold, below a variable for the level. -/
def numberedLayers : Layers :=
  ⟨[("PYLOX_LOG_LEVEL", "debug")], [("prompt", .string "p"), ("log_level", .int 3)],
    [("prompt", .int 5)]⟩

/-- A number in the section is hidden by the file, and a number in the file by the
environment. -/
theorem load_decided_by_winners_hidden :
    Holds (some numberedPrompt) (some numberedLevel) numberedLayers ∧
      load (some numberedPrompt) (some numberedLevel) [("PYLOX_LOG_LEVEL", "debug")] =
        .ok ⟨"p", .debug, true⟩ := by
  have hproject : readTable projectFile (some numberedPrompt) =
      .ok [("tool", .table [("pylox", .table [("prompt", .int 5)])])] := by
    with_unfolding_all rfl
  have hown : readTable ownFile (some numberedLevel) =
      .ok [("prompt", .string "p"), ("log_level", .int 3)] := by
    with_unfolding_all rfl
  have h : Holds (some numberedPrompt) (some numberedLevel) numberedLayers :=
    ⟨⟨_, hproject, .named rfl rfl⟩, hown⟩
  refine ⟨h, ?_⟩
  obtain ⟨hloads, htakes, _⟩ := load_decided_by_winners _ _ _ h
  obtain ⟨⟨p, l, c⟩, hs⟩ := hloads.mpr
    ⟨⟨_, .given "p"⟩, ⟨.debug, .given (by decide)⟩, ⟨_, .default⟩⟩
  obtain ⟨hp, hl, hc⟩ := htakes _ hs
  change TakesPrompt (some (.string "p")) p at hp
  change TakesLevel (some (.string "debug")) l at hl
  change TakesColor none c at hc
  obtain rfl : l = .debug := by
    cases hl with
    | given hname =>
        revert hname
        cases l <;> decide
  cases hp
  cases hc
  exact hs

end Lox.Settings
