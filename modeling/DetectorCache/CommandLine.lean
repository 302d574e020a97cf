import DetectorCache.Replay.Transcript

set_option autoImplicit false

namespace DetectorCache.CommandLine

open Octets (ascii)
open Document (Files)

inductive ExitCode where
  | success
  | usage
  | configInvalid
  | replayInvalid
  deriving DecidableEq

def ExitCode.code : ExitCode → Nat
  | .success => 0
  | .usage => 2
  | .configInvalid => 10
  | .replayInvalid => 20

/-- What goes to standard error: plain text, or records that get their time when they are shown. -/
inductive Diagnostic where
  | text (plain : Octets)
  | records (written : List Journal.Record)

def Diagnostic.shown (stamp : Octets) : Diagnostic → Octets
  | .text plain => plain
  | .records written => written.flatMap (·.line stamp)

structure Outcome where
  exit : ExitCode
  output : Octets := []
  diagnostic : Diagnostic := .text []

def failure (exit : ExitCode) (message : Octets) : Outcome :=
  { exit, diagnostic := .text (ascii "error: " ++ message ++ ascii "\n") }

def usage : Octets :=
  ascii "usage:\n" ++
  ascii "  admapper replay <replay.json> [--config <config.json>] " ++
  ascii "[--log-level <debug|info|warn|error>]\n" ++
  ascii "  admapper validate-config <config.json>\n" ++
  ascii "  admapper version\n"

/-- The options of `replay`. An empty path is the same as none. -/
structure ReplayOptions where
  plan : Octets := []
  config : Octets := []
  threshold : Option Journal.Level := none
  deriving DecidableEq

inductive OptionProblem where
  | missingValue (option : Octets)
  | level (cause : Journal.Level.Unknown)
  | unknownOption (option : Octets)
  | severalPlans
  | noPlan
  deriving DecidableEq

def OptionProblem.message : OptionProblem → Octets
  | .missingValue option => ascii "missing value for " ++ option
  | .level cause => cause.message
  | .unknownOption option => ascii "unknown option: " ++ option
  | .severalPlans => ascii "replay accepts exactly 1 replay path"
  | .noPlan => ascii "replay requires exactly 1 argument: <replay.json>"

def configOption : Octets := ascii "--config"

def levelOption : Octets := ascii "--log-level"

/-- Reads the options one after the other; of a repeated one the last value counts. -/
def readOptions (options : ReplayOptions) : List Octets → Except OptionProblem ReplayOptions
  | [] => if options.plan = [] then .error .noPlan else .ok options
  | arg :: args =>
    if arg = configOption then
      match args with
      | [] => .error (.missingValue configOption)
      | config :: args => readOptions { options with config } args
    else if arg = levelOption then
      match args with
      | [] => .error (.missingValue levelOption)
      | level :: args =>
        match Journal.Level.ofText level with
        | .error cause => .error (.level cause)
        | .ok threshold => readOptions { options with threshold := some threshold } args
    else if arg.head? = some Octets.hyphen then .error (.unknownOption arg)
    else if options.plan ≠ [] then .error .severalPlans
    else readOptions { options with plan := arg } args

def loadConfig (files : Files) (path : Octets) :
    Except (Document.FileRefusal Config.Problem) Config :=
  if path = [] then .ok {} else Document.ofFile Config.ofJson files path

def playPlan (plan : Replay.Plan) (config : Config) (clock : Clock) (hash : Octets → Nat) :
    Outcome :=
  let journal : Journal := { threshold := config.threshold, component := ascii "replay" }
  let played := Replay.run plan config clock journal hash
  { exit := .success
    output := Replay.transcript played.1
    diagnostic := .records played.2.cache.journal.drain.1 }

def replay (files : Files) (clock : Clock) (hash : Octets → Nat) (args : List Octets) : Outcome :=
  match readOptions {} args with
  | .error problem => failure .usage problem.message
  | .ok options =>
    match loadConfig files options.config with
    | .error refusal =>
      failure .configInvalid (ascii "invalid config: " ++ refusal.message Config.Problem.message)
    | .ok config =>
      match Document.ofFile Replay.Plan.ofJson files options.plan with
      | .error refusal =>
        failure .replayInvalid
          (ascii "invalid replay input: " ++ refusal.message Replay.Plan.Problem.message)
      | .ok plan =>
        let threshold := options.threshold.getD config.threshold
        playPlan plan { config with threshold } clock hash

def validateConfig (files : Files) : List Octets → Outcome
  | [path] =>
    match Document.ofFile Config.ofJson files path with
    | .error refusal =>
      failure .configInvalid (ascii "invalid config: " ++ refusal.message Config.Problem.message)
    | .ok config =>
      { exit := .success, output := ascii "config ok: " ++ config.summary ++ ascii "\n" }
  | _ => failure .usage (ascii "validate-config requires exactly 1 argument: <config.json>")

def version : List Octets → Outcome
  | [] => { exit := .success, output := ascii "admapper 0.1.0\n" }
  | _ => failure .usage (ascii "version does not accept arguments")

def run (files : Files) (clock : Clock) (args : List Octets) (hash : Octets → Nat := fnv1a) :
    Outcome :=
  match args with
  | [] => { exit := .usage, diagnostic := .text usage }
  | command :: args =>
    if command = ascii "replay" then replay files clock hash args
    else if command = ascii "validate-config" then validateConfig files args
    else if command = ascii "version" then version args
    else if command = ascii "help" ∨ command = ascii "--help" ∨ command = ascii "-h" then
      { exit := .success, output := usage }
    else
      { exit := .usage
        diagnostic :=
          .text (ascii "error: unknown subcommand: " ++ command ++ ascii "\n" ++ usage) }

end DetectorCache.CommandLine
