import TestWatch.Command.Terminal
import TestWatch.Text.Hex
import TestWatch.Number.Decimal
import TestWatch.Text.Sequence

/-!
# The log

Messages for the user, apart from what a session shows. Each has a level and belongs to a topic; a
filter passes on those whose topic it lists at a level that is high enough.
-/

namespace TestWatch

inductive Level where
  | error
  | warning
  | info
  | debug
  | trace
  deriving DecidableEq, Repr

namespace Level

/-- The more urgent, the lower; zero is left for a filter that passes nothing. -/
def rank : Level → Nat
  | error => 1
  | warning => 2
  | info => 3
  | debug => 4
  | trace => 5

def heading : Level → String
  | error => "error"
  | warning => "warning"
  | info => "info"
  | debug => "debug"
  | trace => "trace"

def codes : Level → String
  | error => "31;1"
  | warning => "33;1"
  | info | debug => "1"
  | trace => "2"

end Level

inductive Topic where
  | command
  | fault
  | log
  | settingsFile
  | settingsValue
  deriving DecidableEq, Repr

/-- The name of a topic in filters; names are nested. -/
def Topic.name : Topic → String
  | command => "livetest::dispatch"
  | fault => "livetest::errors"
  | log => "livetest::output"
  | settingsFile => "livetest_runner::user_config::imp"
  | settingsValue => "livetest_runner::user_config::elements"

structure Message where
  level : Level
  topic : Topic
  text : String
  deriving DecidableEq, Repr

def highlight (color : Bool) (codes text : String) : String :=
  if color then String.ofList (Text.switchOn codes.toList ++ text.toList ++ Text.reset) else text

def Message.line (color : Bool) (m : Message) : String :=
  highlight color m.level.codes m.level.heading ++ ": " ++ m.text ++ "\n"

/-- One rule of a filter: topics whose names begin with `topic`, or all, pass up to `limit`. -/
structure FilterRule where
  topic : Option String
  fields : List String
  limit : Nat
  deriving DecidableEq, Repr

/-- A filter: of the rules for a message the one with the longest topic decides. -/
abbrev Filter := List FilterRule

inductive FilterFault where
  | level
  | equalsSigns
  | fieldLists
  | openFieldList
  deriving DecidableEq, Repr

namespace FilterFault

def message : FilterFault → String
  | level => "error parsing level filter: expected one of \"off\", \"error\", \"warn\", \"info\", \"debug\", \"trace\", or a number 0-5"
  | equalsSigns => "invalid filter directive: too many '=' in filter directive, expected 0 or 1"
  | fieldLists => "invalid filter directive: too many '[\x7b' in filter directive, expected 0 or 1"
  | openFieldList => "invalid filter directive: expected fields list to end with '\x7d]'"

end FilterFault

namespace FilterRule

def limitNames : List String := ["off", "error", "warn", "info", "debug", "trace"]

def number? (s : String) : Option Nat :=
  let ds := match s.toList with
    | '+' :: ds => ds
    | ds => ds
  if ds = [] ∨ !ds.all Char.isDigit then none else some (digitsValue ds)

/-- A limit by number or by name; nothing at all stands for errors only. -/
def limit? (s : String) : Option Nat :=
  match number? s with
  | some n => if n ≤ 5 then some n else none
  | none =>
    if s == "" then some Level.error.rank else limitNames.findIdx? (· == s.toLower)

/-- The text without every copy of `tail` at its end. -/
def dropTails (tail : List Char) : Nat → List Char → List Char
  | 0, cs => cs
  | n + 1, cs =>
    if tail ≠ [] ∧ tail.isSuffixOf cs then dropTails tail n (cs.take (cs.length - tail.length))
    else cs

def openFields : String := "[\x7b"
def closeFields : String := "\x7d]"

def fields? (s : String) : Except FilterFault (List String) :=
  if s.endsWith closeFields then
    let cs := s.toList
    let field := dropTails closeFields.toList cs.length cs
    .ok (if field = [] then [] else [String.ofList field])
  else .error .openFieldList

def ofParts? (topic limit : String) : Except FilterFault FilterRule := do
  let (topic, fields) ← match topic.splitOn openFields with
    | [topic] => .ok (topic, [])
    | [topic, fields] => do .ok (topic, ← fields? fields)
    | _ => .error .fieldLists
  match limit? limit with
  | some n => .ok ⟨some topic, fields, n⟩
  | none => .error .level

/-- A rule: a limit, a topic, or both with an equals sign between them. A topic alone passes
everything. -/
def ofText? (s : String) : Except FilterFault FilterRule :=
  match s.splitOn "=" with
  | [topic, limit] => ofParts? topic limit
  | [part] =>
    match limit? part with
    | some n => .ok ⟨none, [], n⟩
    | none => .ok ⟨some part, [], Level.trace.rank⟩
  | _ => .error .equalsSigns

def messageField : String := "message"

def covers (r : FilterRule) (t : Topic) : Bool :=
  (r.topic.all fun topic => t.name.startsWith topic) && r.fields.all (· == messageField)

/-- Rules with longer topics are more specific, then those that ask for more fields. -/
def specificity (r : FilterRule) : Nat × Nat :=
  (match r.topic with
    | some topic => topic.length + 1
    | none => 0,
    r.fields.length)

/-- The rule that goes before another; of equals the later one. -/
def prefer (best : Option FilterRule) (r : FilterRule) : Option FilterRule :=
  match best with
  | some b =>
    if r.specificity.1 < b.specificity.1 ∨
        (r.specificity.1 = b.specificity.1 ∧ r.specificity.2 < b.specificity.2) then some b
    else some r
  | none => some r

end FilterRule

namespace Filter

def upTo (l : Level) : Filter := [⟨none, [], l.rank⟩]

def ofText? (s : String) : Except FilterFault Filter := (s.splitOn ",").mapM FilterRule.ofText?

/-- Whether a message passes; one that no rule is about does not. -/
def passes (f : Filter) (m : Message) : Bool :=
  match (f.filter (·.covers m.topic)).foldl FilterRule.prefer none with
  | some r => m.level.rank ≤ r.limit
  | none => false

def text (f : Filter) (color : Bool) (ms : List Message) : String :=
  String.join ((ms.filter f.passes).map (Message.line color))

def variableName : String := "LIVETEST_LOG"

/-- The filter that the environment asks for, and a warning if that is not a filter. -/
def ofEnvironment (env : Environment) (verbose : Bool) : Filter × List Message :=
  let standard := upTo (if verbose then .debug else .info)
  match env variableName with
  | none => (standard, [])
  | some s =>
    if s == "" then (standard, [])
    else
      match ofText? s with
      | .ok f => (f, [])
      | .error e =>
        (standard,
          [⟨.warning, .log, "ignoring invalid " ++ variableName ++ " value: " ++ e.message⟩])

end Filter

end TestWatch
