import DetectorCache.CommandLine
/-!
What a command line comes to. The options of a replay are a row of parts, each an option with its
value or a path, and reading them succeeds exactly if the row is in order. From that and from the
files at hand follows the exit code, and a command that fails has nothing on standard output.
-/
set_option autoImplicit false

namespace DetectorCache

namespace Document

variable {π α : Type} {ofJson : Json → Except π α} {files : Files} {path : Octets}

/-- The file of a path is at hand and is accepted with this meaning. -/
def Accepted (ofJson : Json → Except π α) (files : Files) (path : Octets) (value : α) : Prop :=
  ∃ text, files path = some text ∧ ofText ofJson text = .ok value

/-- The file of a path is missing, or it is at hand and rejected. -/
def Unusable (ofJson : Json → Except π α) (files : Files) (path : Octets) : Prop :=
  files path = none ∨
    ∃ text refusal, files path = some text ∧ ofText ofJson text = .error refusal

theorem ofFile_eq_ok_iff {value : α} :
    ofFile ofJson files path = .ok value ↔ Accepted ofJson files path value := by
  rw [ofFile, Accepted]
  cases files path with
  | none => simp
  | some text => cases h : ofText ofJson text <;> simp [h]

theorem unusable_iff :
    Unusable ofJson files path ↔ ∃ refusal, ofFile ofJson files path = .error refusal := by
  rw [Unusable, ofFile]
  cases files path with
  | none => simp
  | some text => cases h : ofText ofJson text <;> simp [h]

end Document

namespace CommandLine

open Octets (ascii)
open Document (Files Accepted Unusable)

inductive Part where
  | config (file : Octets)
  | level (name : Octets) (level : Journal.Level)
  | path (file : Octets)

namespace Part

def args : Part → List Octets
  | .config file => [configOption, file]
  | .level name _ => [levelOption, name]
  | .path file => [file]

/-- A level is named as levels are, and no path looks like an option. -/
def Proper : Part → Prop
  | .config _ => True
  | .level name value => Journal.Level.ofText name = .ok value
  | .path file => file.head? ≠ some Octets.hyphen

def config? : Part → Option Octets
  | .config file => some file
  | _ => none

def level? : Part → Option Journal.Level
  | .level _ value => some value
  | _ => none

def path? : Part → Option Octets
  | .path file => some file
  | _ => none

end Part

/-- What parts say on top of the options known before: of each option the last value counts, and
of the paths, known ones included, some may be empty and a single one comes behind these. -/
structure Says (known : ReplayOptions) (parts : List Part) (options : ReplayOptions) : Prop where
  plan : (known.plan :: parts.filterMap Part.path?).dropWhile List.isEmpty = [options.plan]
  config : options.config = (parts.filterMap Part.config?).getLast?.getD known.config
  threshold : options.threshold = (parts.filterMap Part.level?).getLast?.or known.threshold

/-- Arguments that are a row of proper parts, and the options that these say. -/
def Written (args : List Octets) (options : ReplayOptions) : Prop :=
  ∃ parts : List Part, args = parts.flatMap Part.args ∧ (∀ part ∈ parts, part.Proper) ∧
    Says {} parts options

variable {known options : ReplayOptions} {parts : List Part}

namespace Says

theorem nil_iff : Says known [] options ↔ known.plan ≠ [] ∧ options = known := by
  constructor
  · rintro ⟨hplan, hconfig, hthreshold⟩
    cases hknown : known.plan with
    | nil => simp [hknown] at hplan
    | cons b rest =>
      refine ⟨List.cons_ne_nil b rest, ?_⟩
      have hplan : known.plan = options.plan := by simpa [hknown] using hplan
      cases known
      cases options
      simp_all
  · rintro ⟨hknown, rfl⟩
    have hfull : options.plan.isEmpty = false := by simpa using hknown
    exact ⟨by simp [hfull], rfl, by simp⟩

theorem config_iff {file : Octets} :
    Says known (.config file :: parts) options ↔
      Says { known with config := file } parts options := by
  constructor <;> rintro ⟨hplan, hconfig, hthreshold⟩ <;>
    exact ⟨hplan, by simpa [Part.config?, List.getLast?_cons] using hconfig, hthreshold⟩

theorem level_iff {name : Octets} {value : Journal.Level} :
    Says known (.level name value :: parts) options ↔
      Says { known with threshold := some value } parts options := by
  constructor <;> rintro ⟨hplan, hconfig, hthreshold⟩ <;>
    refine ⟨hplan, hconfig, ?_⟩ <;>
    cases hlast : (parts.filterMap Part.level?).getLast? <;>
    simpa [Part.level?, List.getLast?_cons, hlast] using hthreshold

theorem path_iff {file : Octets} :
    Says known (.path file :: parts) options ↔
      known.plan = [] ∧ Says { known with plan := file } parts options := by
  cases hknown : known.plan with
  | nil =>
    constructor
    · rintro ⟨hplan, hconfig, hthreshold⟩
      exact ⟨rfl, by simpa [hknown, Part.path?] using hplan, hconfig, hthreshold⟩
    · rintro ⟨-, hplan, hconfig, hthreshold⟩
      exact ⟨by simpa [hknown, Part.path?] using hplan, hconfig, hthreshold⟩
  | cons b rest =>
    simp only [reduceCtorEq, false_and, iff_false]
    rintro ⟨hplan, -, -⟩
    simp [hknown, Part.path?] at hplan

end Says

theorem readOptions_of_says (hproper : ∀ part ∈ parts, part.Proper)
    (h : Says known parts options) : readOptions known (parts.flatMap Part.args) = .ok options := by
  induction parts generalizing known with
  | nil =>
    obtain ⟨hplan, rfl⟩ := Says.nil_iff.mp h
    rw [List.flatMap_nil, readOptions, if_neg hplan]
  | cons part parts ih =>
    obtain ⟨hpart, hrest⟩ := List.forall_mem_cons.mp hproper
    rw [List.flatMap_cons]
    cases part with
    | config file => exact ih hrest (Says.config_iff.mp h)
    | level name value =>
      have hlevel : Journal.Level.ofText name = .ok value := hpart
      rw [Part.args, List.cons_append, List.cons_append, readOptions, if_neg (by decide),
        if_pos rfl, hlevel]
      exact ih hrest (Says.level_iff.mp h)
    | path file =>
      obtain ⟨hplan, h⟩ := Says.path_iff.mp h
      have hhyphen : file.head? ≠ some Octets.hyphen := hpart
      have hconfig : file ≠ configOption := fun heq => hhyphen (heq ▸ rfl)
      have hlevel : file ≠ levelOption := fun heq => hhyphen (heq ▸ rfl)
      rw [Part.args, List.cons_append, List.nil_append, readOptions.eq_def]
      simp only [if_neg hconfig, if_neg hlevel, if_neg hhyphen, if_neg (not_not_intro hplan)]
      exact ih hrest h

theorem says_of_readOptions {args : List Octets} (h : readOptions known args = .ok options) :
    ∃ parts : List Part, args = parts.flatMap Part.args ∧ (∀ part ∈ parts, part.Proper) ∧
      Says known parts options := by
  -- each turn of the reading that goes on has read one part
  fun_induction readOptions known args with
  | case2 known hplan =>
    exact ⟨[], rfl, List.forall_mem_nil _, Says.nil_iff.mpr ⟨hplan, (Except.ok.inj h).symm⟩⟩
  | case4 known file args ih =>
    obtain ⟨parts, rfl, hproper, hsays⟩ := ih h
    exact ⟨.config file :: parts, rfl, List.forall_mem_cons.mpr ⟨trivial, hproper⟩,
      Says.config_iff.mpr hsays⟩
  | case7 known name args value hlevel _ ih =>
    obtain ⟨parts, rfl, hproper, hsays⟩ := ih h
    exact ⟨.level name value :: parts, rfl, List.forall_mem_cons.mpr ⟨hlevel, hproper⟩,
      Says.level_iff.mpr hsays⟩
  | case10 known file args _ _ hhyphen hplan ih =>
    obtain ⟨parts, rfl, hproper, hsays⟩ := ih h
    exact ⟨.path file :: parts, rfl, List.forall_mem_cons.mpr ⟨hhyphen, hproper⟩,
      Says.path_iff.mpr ⟨Decidable.not_not.mp hplan, hsays⟩⟩
  | case1 | case3 | case5 | case6 | case8 | case9 => cases h

theorem readOptions_eq_ok_iff {args : List Octets} :
    readOptions {} args = .ok options ↔ Written args options :=
  ⟨says_of_readOptions, fun ⟨_, hargs, hproper, hsays⟩ =>
    hargs ▸ readOptions_of_says hproper hsays⟩

/-- The configuration of a replay: the default one without a path, else that of the file. -/
def Configured (files : Files) (path : Octets) (config : Config) : Prop :=
  path = [] ∧ config = {} ∨ path ≠ [] ∧ Accepted Config.ofJson files path config

theorem loadConfig_eq_ok_iff {files : Files} {path : Octets} {config : Config} :
    loadConfig files path = .ok config ↔ Configured files path config := by
  rw [loadConfig, Configured]
  split
  · next hpath => simp [hpath, eq_comm]
  · next hpath => simp [hpath, Document.ofFile_eq_ok_iff]

theorem unusable_of_loadConfig {files : Files} {path : Octets}
    {refusal : Document.FileRefusal Config.Problem} (h : loadConfig files path = .error refusal) :
    path ≠ [] ∧ Unusable Config.ofJson files path := by
  rw [loadConfig] at h
  split at h
  · cases h
  · next hpath => exact ⟨hpath, Document.unusable_iff.mpr ⟨refusal, h⟩⟩

variable {files : Files} {clock : Clock} {hash : Octets → Nat} {args : List Octets}

/-- Why a replay ends with an exit code: the first thing that is not in order, if any. -/
def Cause (files : Files) (args : List Octets) : ExitCode → Prop
  | .usage => ¬ ∃ options, Written args options
  | .configInvalid => ∃ options, Written args options ∧ options.config ≠ [] ∧
      Unusable Config.ofJson files options.config
  | .replayInvalid => ∃ options config, Written args options ∧
      Configured files options.config config ∧ Unusable Replay.Plan.ofJson files options.plan
  | .success => ∃ options config plan, Written args options ∧
      Configured files options.config config ∧
      Accepted Replay.Plan.ofJson files options.plan plan

theorem cause_of_replay : Cause files args (replay files clock hash args).exit := by
  rw [replay]
  cases hargs : readOptions {} args with
  | error problem =>
    rintro ⟨options, hwritten⟩
    rw [readOptions_eq_ok_iff.mpr hwritten] at hargs
    cases hargs
  | ok options =>
    have hwritten : Written args options := readOptions_eq_ok_iff.mp hargs
    dsimp only
    cases hconfig : loadConfig files options.config with
    | error refusal => exact ⟨options, hwritten, unusable_of_loadConfig hconfig⟩
    | ok config =>
      have hconfigured := loadConfig_eq_ok_iff.mp hconfig
      dsimp only
      cases hplan : Document.ofFile Replay.Plan.ofJson files options.plan with
      | error refusal =>
        exact ⟨options, config, hwritten, hconfigured, Document.unusable_iff.mpr ⟨refusal, hplan⟩⟩
      | ok plan =>
        exact ⟨options, config, plan, hwritten, hconfigured, Document.ofFile_eq_ok_iff.mp hplan⟩

theorem replay_of_accepted {config : Config} {plan : Replay.Plan} (hargs : Written args options)
    (hconfig : Configured files options.config config)
    (hplan : Accepted Replay.Plan.ofJson files options.plan plan) :
    replay files clock hash args =
      playPlan plan { config with threshold := options.threshold.getD config.threshold } clock
        hash := by
  simp only [replay, readOptions_eq_ok_iff.mpr hargs, loadConfig_eq_ok_iff.mpr hconfig,
    Document.ofFile_eq_ok_iff.mpr hplan]

theorem exit_replay_of_cause {exit : ExitCode} (h : Cause files args exit) :
    (replay files clock hash args).exit = exit := by
  cases exit with
  | usage =>
    cases hread : readOptions {} args with
    | error problem => rw [replay, hread]; rfl
    | ok options => exact absurd ⟨options, readOptions_eq_ok_iff.mp hread⟩ h
  | configInvalid =>
    obtain ⟨options, hargs, hpath, hconfig⟩ := h
    obtain ⟨refusal, hrefused⟩ := Document.unusable_iff.mp hconfig
    simp only [replay, readOptions_eq_ok_iff.mpr hargs, loadConfig, if_neg hpath, hrefused]
    rfl
  | replayInvalid =>
    obtain ⟨options, config, hargs, hconfig, hplan⟩ := h
    obtain ⟨refusal, hrefused⟩ := Document.unusable_iff.mp hplan
    simp only [replay, readOptions_eq_ok_iff.mpr hargs, loadConfig_eq_ok_iff.mpr hconfig, hrefused]
    rfl
  | success =>
    obtain ⟨options, config, plan, hargs, hconfig, hplan⟩ := h
    rw [replay_of_accepted hargs hconfig hplan]
    rfl

theorem ExitCode.code_injective {exit other : ExitCode} (h : exit.code = other.code) :
    exit = other := by
  cases exit <;> cases other <;> first | rfl | cases h

theorem exit_replay_iff (exit : ExitCode) :
    (replay files clock hash args).exit.code = exit.code ↔ Cause files args exit :=
  ⟨fun h => ExitCode.code_injective h ▸ cause_of_replay,
    fun h => congrArg ExitCode.code (exit_replay_of_cause h)⟩

/-- A failure tells of itself on standard error, and standard output stays empty. -/
def Outcome.Clean (outcome : Outcome) : Prop :=
  outcome.exit.code ≠ 0 →
    outcome.output = [] ∧ ∀ stamp, outcome.diagnostic.shown stamp ≠ []

theorem clean_failure (exit : ExitCode) (message : Octets) : (failure exit message).Clean :=
  fun _ => ⟨rfl, fun _ => List.append_ne_nil_of_left_ne_nil
    (List.append_ne_nil_of_left_ne_nil (by decide) _) _⟩

theorem clean_of_success {outcome : Outcome} (h : outcome.exit = .success) : outcome.Clean :=
  fun hfailed => absurd (congrArg ExitCode.code h) hfailed

theorem clean_replay (files : Files) (clock : Clock) (hash : Octets → Nat) (args : List Octets) :
    (replay files clock hash args).Clean := by
  rw [replay]
  split
  · exact clean_failure _ _
  · split
    · exact clean_failure _ _
    · split
      · exact clean_failure _ _
      · exact clean_of_success rfl

theorem clean_validateConfig (files : Files) (args : List Octets) :
    (validateConfig files args).Clean := by
  rw [validateConfig.eq_def]
  split
  · split
    · exact clean_failure _ _
    · exact clean_of_success rfl
  · exact clean_failure _ _

theorem clean_version (args : List Octets) : (version args).Clean := by
  cases args with
  | nil => exact clean_of_success rfl
  | cons => exact clean_failure _ _

theorem clean_run (files : Files) (clock : Clock) (hash : Octets → Nat) (args : List Octets) :
    (run files clock args hash).Clean := by
  have husage : usage ≠ [] := by decide
  cases args with
  | nil => exact fun _ => ⟨rfl, fun _ => husage⟩
  | cons command args =>
    rw [run]
    split
    · exact clean_replay files clock hash args
    · split
      · exact clean_validateConfig files args
      · split
        · exact clean_version args
        · split
          · exact clean_of_success rfl
          · exact fun _ => ⟨rfl, fun _ => List.append_ne_nil_of_right_ne_nil _ husage⟩

theorem ExitCode.code_mem (exit : ExitCode) : exit.code ∈ [0, 2, 10, 20] := by
  cases exit <;> decide

/-- Whatever the arguments, the files and the spreading of keys over shards, the exit code is one of
four, and a failure writes to standard error and nothing else. A replay fails on its options if they
are not a row of proper parts; then on its configuration, if a file is named for it and is missing
or rejected; then on its plan; and otherwise it is played, with the last values given and with the
records that its last level keeps, or else the level of the configuration. -/
theorem outcome_classified (files : Files) (clock : Clock) (hash : Octets → Nat) :
    (∀ args, (run files clock args hash).exit.code ∈ [0, 2, 10, 20] ∧
      ((run files clock args hash).exit.code ≠ 0 → (run files clock args hash).output = [] ∧
        ∀ stamp, (run files clock args hash).diagnostic.shown stamp ≠ [])) ∧
    ∀ args, let outcome := run files clock (ascii "replay" :: args) hash
      (outcome.exit.code = 2 ↔ ¬ ∃ options, Written args options) ∧
      (outcome.exit.code = 10 ↔ ∃ options, Written args options ∧ options.config ≠ [] ∧
        Unusable Config.ofJson files options.config) ∧
      (outcome.exit.code = 20 ↔ ∃ options config, Written args options ∧
        Configured files options.config config ∧
        Unusable Replay.Plan.ofJson files options.plan) ∧
      (outcome.exit.code = 0 ↔ ∃ options config plan, Written args options ∧
        Configured files options.config config ∧
        Accepted Replay.Plan.ofJson files options.plan plan) ∧
      ∀ options config plan, Written args options → Configured files options.config config →
        Accepted Replay.Plan.ofJson files options.plan plan →
        let level := options.threshold.getD config.threshold
        let played := Replay.run plan { config with threshold := level } clock
          { threshold := level, component := ascii "replay" } hash
        outcome.output = Replay.transcript played.1 ∧
          outcome.diagnostic = .records played.2.cache.journal.drain.1 := by
  refine ⟨fun args => ⟨ExitCode.code_mem _, clean_run files clock hash args⟩, fun args => ?_⟩
  refine ⟨exit_replay_iff .usage, exit_replay_iff .configInvalid, exit_replay_iff .replayInvalid,
    exit_replay_iff .success, fun options config plan hargs hconfig hplan => ?_⟩
  have hreplay : run files clock (ascii "replay" :: args) hash = replay files clock hash args := rfl
  rw [hreplay, replay_of_accepted hargs hconfig hplan]
  exact ⟨rfl, rfl⟩

theorem outcome_classified_of_repeated_options :
    let files : Files := fun path => [(ascii "c", ascii "\x7b\x7d"),
      (ascii "p", ascii "\x7b\"steps\":[]\x7d")].lookup path
    let found := ["--config", "missing", "", "--log-level", "trace", "p", "--config", "c",
      "--log-level", "ERROR"].map ascii
    let lost := ["--config", "c", "p", "--config", "missing"].map ascii
    Written found ⟨ascii "p", ascii "c", some .error⟩ ∧
      (run files {} (ascii "replay" :: found)).exit.code = 0 ∧
      (run files {} (ascii "replay" :: lost)).exit.code = 10 ∧
      (run files {} (ascii "replay" :: lost)).output = [] := by
  intro files found lost
  have hfound : Written found ⟨ascii "p", ascii "c", some .error⟩ :=
    readOptions_eq_ok_iff.mp (Document.eq_ok_of_toOption (by decide +kernel))
  have hlost : Written lost ⟨ascii "p", ascii "missing", none⟩ :=
    readOptions_eq_ok_iff.mp (Document.eq_ok_of_toOption (by decide +kernel))
  have hconfig : Configured files (ascii "c") {} :=
    .inr ⟨by decide, _, rfl, Document.eq_ok_of_toOption (by decide +kernel)⟩
  have hplan : Accepted Replay.Plan.ofJson files (ascii "p") ⟨[], []⟩ :=
    ⟨_, rfl, Document.eq_ok_of_toOption (by decide +kernel)⟩
  obtain ⟨hclean, hreplay⟩ := outcome_classified files {} fnv1a
  have hcode := (hreplay lost).2.1.mpr ⟨_, hlost, by decide, .inl rfl⟩
  refine ⟨hfound, (hreplay found).2.2.2.1.mpr ⟨_, _, _, hfound, hconfig, hplan⟩, hcode, ?_⟩
  exact ((hclean _).2 (by rw [hcode]; decide)).1

end CommandLine

end DetectorCache
