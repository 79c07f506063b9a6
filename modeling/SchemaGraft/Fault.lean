import SchemaGraft.Json.Reader
import SchemaGraft.LogLevel
import SchemaGraft.Run.State
import SchemaGraft.Table.Basic
import SchemaGraft.Text.Quoted
import SchemaGraft.Validation.Issue
import SchemaGraft.Value.Plain
import SchemaGraft.World.FileTree
import SchemaGraft.Yaml.Token

/-!
# Faults

Everything that can stop an operation of the library.

## Architecture

- `PipelineFault` is what the library foresees: the command line reports it and a run records it.
- `Fault` adds what it does not foresee and lets through.
- `Fault.message` is the wording; `Fault.issues?` are the findings of a check, when one failed.
-/

namespace SchemaGraft

/-! ## Foreseen faults -/

inductive DocumentKind where
  | config
  | table
deriving DecidableEq, Repr

inductive DocumentFault where
  | absent
  | malformed
  | notMapping
  -- the content is not what the document has to hold
  | invalid (issues : List Issue)
deriving DecidableEq, Repr

inductive SchemaFault where
  | absent
  | unreadable (error : SystemError)
  | notText (fault : Utf8.DecodeFault)
  | notJson (fault : Json.SyntaxFault)
  | notObject
  | lacking (members : List String)
  -- the content is not what a schema has to hold
  | invalid (issues : List Issue)
deriving DecidableEq, Repr

inductive GeneratorFault where
  | unknown (available : List Text)
  | noExecutable (name : Text)
  | status (code : Int)
  | noProgramId
  | notInstalled
  -- the library that renders the client does not accept the schema
  | rejected (reason : Text)
  | broken (reason : Text)
deriving DecidableEq, Repr

inductive StartFault where
  | notFound
  | denied
deriving DecidableEq, Repr

inductive PipelineFault where
  -- a fault of the pipeline that comes with its own wording
  | general (text : Text)
  -- a fault of the configuration that comes with its own wording
  | badConfig (text : Text)
  | document (kind : DocumentKind) (path : Text) (fault : DocumentFault)
  | toolNotFound (tool : Text) (hint : Option Text) (fault : StartFault)
  | toolFailed (tool : Text) (status : Int)
  | malformedSchema (source : Text) (fault : SchemaFault)
  | unwrittenSchema (path : Text) (error : SystemError)
  | generatorFailed (generator : Text) (fault : GeneratorFault)
  | ambiguousRule (ambiguity : Ambiguity)
  | drift (missing : List Text)
deriving DecidableEq, Repr

/-! ## All faults -/

/-- The kinds of faults that tools and generators may raise with a wording of their own. -/
inductive ForeignKind where
  -- a fault of the operation as such
  | runtime
  -- a fault of a value
  | value
deriving DecidableEq, Repr

/-- Why text with style tags cannot be rendered. -/
inductive MarkupFault where
  -- a closing tag names a style that is not open
  | unmatched (tag : Text)
  -- a closing tag stands where no style is open
  | nothingOpen
deriving DecidableEq, Repr

inductive Fault where
  -- a fault that the pipeline foresees
  | pipeline (fault : PipelineFault)
  -- a value is no record of the named kind
  | invalid (record : String) (issues : List Issue)
  | illegalStep (source target : RunState)
  | unknownState (name : Text)
  | access (fault : AccessFault)
  | unencodable (fault : Utf8.EncodeFault)
  | undecodable (fault : Utf8.DecodeFault)
  -- an integer in a JSON text has too many digits
  | longInteger (digits : Nat)
  -- a value is nested too deeply to be read or to be copied
  | tooDeep
  | yaml (fault : Yaml.Fault)
  | plain (fault : PlainFault)
  -- a notice shows an integer with too many digits
  | unprintable
  | nonTextKey
  | emptyCommand
  -- the metadata of a schema are no mapping, but of the given kind
  | metadata (kind : String)
  | markup (fault : MarkupFault)
  | level (fault : ThresholdFault)
  -- a tool or a generator raised a fault of its own
  | foreign (kind : ForeignKind) (text : Text)
deriving DecidableEq, Repr

/-! ## Wording -/

def issueCount (record : String) (issues : List Issue) : Text :=
  Text.ofNat issues.length ++ " validation error" ++ (if issues.length = 1 then "" else "s") ++
    " for " ++ record

namespace DocumentKind

/-- How a sentence starts that speaks of the document. -/
def subject : DocumentKind → String
  | .config => "Config"
  | .table => "Patch table"

def noun : DocumentKind → String
  | .config => "config"
  | .table => "patch table"

/-- The name of the record that the document holds. -/
def record : DocumentKind → String
  | .config => "PipelineConfig"
  | .table => "PatchTable"

end DocumentKind

def DocumentFault.message (kind : DocumentKind) (path : Text) : DocumentFault → Text
  | .absent => kind.subject ++ " not found at " ++ path
  | .malformed => kind.subject ++ " at " ++ path ++ " is not valid YAML"
  | .notMapping => kind.subject ++ " at " ++ path ++ " must be a mapping"
  | .invalid issues => "Invalid " ++ kind.noun ++ " at " ++ path ++ ":\n" ++ issueCount kind.record issues

def SchemaFault.message : SchemaFault → Text
  | .absent => "file does not exist"
  | .unreadable e => "cannot be read (" ++ Text.ofString e.message ++ ")"
  | .notText f => "not valid JSON (" ++ f.message ++ ")"
  | .notJson f => "not valid JSON (" ++ f.message ++ ")"
  | .notObject => "top-level value must be an object"
  | .lacking members => "missing required field(s): " ++ Text.join ", " (members.map Text.ofString)
  | .invalid issues => issueCount "Schema" issues

def GeneratorFault.message : GeneratorFault → Text
  | .unknown available => "unknown generator. Available: " ++ Text.join ", " available
  | .noExecutable name => "executable '" ++ name ++ "' not found"
  | .status code => "exited with status " ++ Text.ofInt code
  | .noProgramId => "no program id: set metadata.address in the schema"
  | .notInstalled => "anchorpy is not installed (No module named 'anchorpy')"
  | .rejected reason => "schema rejected: " ++ reason
  | .broken reason => reason

def StartFault.message : StartFault → String
  | .notFound => "executable not found"
  | .denied => "permission denied (is it executable?)"

namespace PipelineFault

/-- The sentence for a tool that could not be started; a hint that is not empty follows on a line of its
own. -/
def notStarted (tool : Text) (hint : Option Text) (reason : Text) : Text :=
  let sentence := "'" ++ tool ++ "' could not be started: " ++ reason
  match hint with
  | none | some [] => sentence
  | some hint => sentence ++ "\n" ++ hint

/-- The sentence for a tool that reported failure. -/
def exited (tool status : Text) : Text :=
  "'" ++ tool ++ "' exited with status " ++ status

/-- The sentence for a schema that cannot be used. -/
def malformed (source reason : Text) : Text :=
  "Malformed schema at " ++ source ++ ": " ++ reason

/-- The sentence for a schema that could not be written. -/
def unwritten (path reason : Text) : Text :=
  "Could not write schema to " ++ path ++ ": " ++ reason

/-- The sentence for a client that was not generated. -/
def notGenerated (generator reason : Text) : Text :=
  "Client generator '" ++ generator ++ "' failed: " ++ reason

/-- The sentence for an instruction that several rules match. -/
def ambiguous (name : Text) (places : List Text) : Text :=
  "Instruction '" ++ name ++ "' is matched by multiple patch rules: " ++
    Text.join ", " (places.map ("#" ++ ·))

/-- The sentence for instructions that a schema lacks. -/
def absent (missing : List Text) : Text :=
  "Patch table references instructions absent from the schema: " ++ Text.join ", " missing

def message : PipelineFault → Text
  | .general t => t
  | .badConfig t => t
  | .document kind path f => f.message kind path
  | .toolNotFound tool hint f => notStarted tool hint f.message
  | .toolFailed tool status => exited tool (Text.ofInt status)
  | .malformedSchema source f => malformed source f.message
  | .unwrittenSchema path e => unwritten path e.message
  | .generatorFailed generator f => notGenerated generator f.message
  | .ambiguousRule a => ambiguous a.name (a.rules.map Text.ofNat)
  | .drift missing => absent missing

/-- The findings of the check that failed, if one did. -/
def issues? : PipelineFault → Option (List Issue)
  | .document _ _ (.invalid issues) => some issues
  | .malformedSchema _ (.invalid issues) => some issues
  | _ => none

end PipelineFault

def AccessFault.message : AccessFault → Text
  | .system e path =>
    "[Errno " ++ Text.ofNat e.number ++ "] " ++ Text.ofString e.message ++
      if e.namesPath then ": " ++ path.quoted else ""
  | .nullByte => "embedded null byte"
  | .unencodable f => f.message

/-- How to raise the limit on the digits of integers. -/
def digitLimitAdvice : Text :=
  "; use sys.set_int_max_str_digits() to increase the limit"

/-- The wording for an integer with too many digits. -/
def longIntegerMessage (digits : Nat) : Text :=
  "Exceeds the limit (4300 digits) for integer string conversion: value has " ++ Text.ofNat digits ++
    " digits" ++ digitLimitAdvice

/-- The wording for an integer with too many digits that is to be written. -/
def unprintableMessage : Text :=
  "Exceeds the limit (4300 digits) for integer string conversion" ++ digitLimitAdvice

/-- The wording for a document that is nested too deeply. -/
def tooDeepMessage : Text :=
  "maximum recursion depth exceeded"

def Yaml.Fault.message : Yaml.Fault → Text
  | .malformed => "malformed document"
  | .calendar f => f.message
  | .longInteger digits => longIntegerMessage digits
  | .badInteger base t =>
    "invalid literal for int() with base " ++ Text.ofNat base ++ ": " ++ t.quoted.take 200
  | .badNumber t => "could not convert string to float: " ++ t.quoted
  | .hugeWeight => "int too large to convert to float"
  | .badCodepoint => "chr() arg not in range(0x110000)"
  | .hugeCodepoint => "Python int too large to convert to C int"
  | .badBool => "no truth value"
  | .emptyNumber => "string index out of range"
  | .badTimestamp => "'NoneType' object has no attribute 'groupdict'"
  | .mappingAsTime => "expected string or bytes-like object"
  | .tooDeep => tooDeepMessage

/-- The wording of a fault on writing a value as JSON. -/
def PlainFault.message : PlainFault → Text
  | .bytes f => f.message
  | .name f => f.message
  | .tooDeep => "Circular reference detected (depth exceeded)"
  | .cyclic => "Circular reference detected (id repeated)"
  | .longInteger => unprintableMessage

/-- The wording of a fault of a text with style tags. -/
def MarkupFault.message : MarkupFault → Text
  | .unmatched tag => "closing tag '[" ++ tag ++ "]' doesn't match any open tag"
  | .nothingOpen => "closing tag '[/]' has nothing to close"

namespace Fault

def message : Fault → Text
  | .pipeline f => f.message
  | .invalid record issues => issueCount record issues
  | .illegalStep source target =>
    "illegal pipeline transition " ++ Text.ofString source.name ++ " -> " ++ target.name
  | .unknownState name => name.quoted ++ " is not a valid PipelineState"
  | .access f => f.message
  | .unencodable f => f.message
  | .undecodable f => f.message
  | .longInteger digits => longIntegerMessage digits
  | .tooDeep => tooDeepMessage
  | .yaml f => f.message
  | .plain f => f.message
  | .unprintable => unprintableMessage
  | .nonTextKey => "keywords must be strings"
  | .emptyCommand => "generator command must not be empty"
  | .metadata kind => "'" ++ Text.ofString kind ++ "' object has no attribute 'get'"
  | .markup f => f.message
  | .level f => f.message
  | .foreign _ t => t

/-- The findings of the check that failed, if one did. -/
def issues? : Fault → Option (List Issue)
  | .pipeline f => f.issues?
  | .invalid _ issues => some issues
  | _ => none

def isForeseen : Fault → Bool
  | .pipeline _ => true
  | _ => false

end Fault

end SchemaGraft
