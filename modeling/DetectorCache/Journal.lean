import DetectorCache.Octets
/-!
The journal: records of what happened, one line each. A record has a level, the component that
wrote it, a message and named fields; all texts but the field names are quoted, so no text can end
a line or pretend to be another field. Records below the journal's threshold are not kept.
-/
set_option autoImplicit false

namespace DetectorCache

open Octets (ascii inApostrophes)

namespace Journal

inductive Level where
  | debug
  | info
  | warn
  | error
  deriving DecidableEq

namespace Level

def rank : Level → Nat
  | .debug => 0
  | .info => 1
  | .warn => 2
  | .error => 3

def name : Level → Octets
  | .debug => ascii "DEBUG"
  | .info => ascii "INFO"
  | .warn => ascii "WARN"
  | .error => ascii "ERROR"

def expected : Octets := ascii "debug|info|warn|error"

inductive Unknown where
  | missing
  | invalid (text : Octets)
  deriving DecidableEq

def Unknown.message : Unknown → Octets
  | .missing => ascii "missing log level (expected " ++ expected ++ ascii ")"
  | .invalid text =>
    ascii "invalid log level " ++ inApostrophes text ++ ascii " (expected " ++ expected ++ ascii ")"

/-- Reads a level in any letter case; `trace` and `warning` are other names of levels. -/
def ofText (text : Octets) : Except Unknown Level :=
  let lowered := text.toLower
  if text = [] then .error .missing
  else if lowered = ascii "debug" ∨ lowered = ascii "trace" then .ok .debug
  else if lowered = ascii "info" then .ok .info
  else if lowered = ascii "warn" ∨ lowered = ascii "warning" then .ok .warn
  else if lowered = ascii "error" then .ok .error
  else .error (.invalid text)

end Level

structure Record where
  level : Level
  component : Octets
  message : Octets
  fields : List (Octets × Octets)
  deriving DecidableEq

def escapeOctet (b : UInt8) : Octets :=
  if b = 92 then ascii "\\\\"
  else if b = 34 then ascii "\\\""
  else if b = 10 then ascii "\\n"
  else if b = 13 then ascii "\\r"
  else if b = 9 then ascii "\\t"
  else [b]

def quote (text : Octets) : Octets :=
  Octets.quotationMark :: (text.flatMap escapeOctet ++ [Octets.quotationMark])

def fieldText (field : Octets × Octets) : Octets :=
  ascii " " ++ field.1 ++ ascii "=" ++ quote field.2

def Record.line (record : Record) (stamp : Octets) : Octets :=
  ascii "ts_utc=" ++ stamp ++ ascii " level=" ++ record.level.name ++ ascii " component=" ++
    quote record.component ++ ascii " msg=" ++ quote record.message ++
    record.fields.flatMap fieldText ++ [Octets.lineFeed]

end Journal

open Journal (Level Record)

/-- A journal with the records kept so far, the latest first. -/
structure Journal where
  threshold : Level
  component : Octets := ascii "admapper"
  records : List Record := []

namespace Journal

def keeps (journal : Journal) (level : Level) : Bool := journal.threshold.rank ≤ level.rank

def write (journal : Journal) (level : Level) (message : Octets)
    (fields : List (Octets × Octets)) : Journal :=
  if journal.keeps level then
    { journal with records := ⟨level, journal.component, message, fields⟩ :: journal.records }
  else journal

/-- Writes a record whose message and field names are literals. -/
def note (journal : Journal) (level : Level) (message : String)
    (fields : List (String × Octets)) : Journal :=
  journal.write level (ascii message) (fields.map fun field => (ascii field.1, field.2))

def drain (journal : Journal) : List Record × Journal :=
  (journal.records.reverse, { journal with records := [] })

end Journal

end DetectorCache
