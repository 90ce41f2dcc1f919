import TestWatch.Command.Options

/-!
# Usage

What is written about the command line: the help that is asked for, and a line for each reason why
a command line is not carried out.
-/

namespace TestWatch

def programName : String := "livetest"
def programVersion : String := "0.1.0"

def usageLine : String := "Usage: " ++ programName ++ " [OPTIONS] [INPUT]\n"

/-- An option as it is written, and what it does. -/
def optionLines : List (String × String) := [
  ("--replay", "Wait between events as long as when they were recorded"),
  ("--replay-rate <RATE>", "Multiply the delays of a replay (0 = no delay, 0.5 = twice as fast)"),
  ("--slow-threshold <DURATION>", "List tests at least this slow in the report"),
  ("--max-output-lines <N>", "Show this many lines of output under each running test"),
  ("--raw-output <PATH>", "Write lines that are not test events to this file"),
  ("--user-config-file <PATH>", "Read settings from this file, or from none with the word none"),
  ("-v, --verbose", "Log more"),
  ("--color <WHEN>", "Use color: auto, always or never"),
  ("-h, --help", "Print help"),
  ("-V, --version", "Print version")]

/-- One line of the list of options; what an option does begins in the same column for all. -/
def optionLine (o : String × String) : String :=
  "  " ++ o.1 ++ String.ofList (List.replicate (30 - o.1.length) ' ') ++ o.2 ++ "\n"

def helpText : String :=
  "A live view of `go test -json` output that fits on the screen\n\n" ++ usageLine ++
    "\nArguments:\n" ++
    optionLine ("[INPUT]", "Read events from this file instead of standard input") ++
    "\nOptions:\n" ++ String.join (optionLines.map optionLine)

namespace Refusal

def reason : Refusal → String
  | help | version => ""
  | unknownArgument => "unexpected argument"
  | invalidValue => "an option has no value, or not one of its words"
  | valueValidation => "an option has a value that makes no sense"
  | argumentConflict => "an option is given twice"
  | tooManyValues => "a flag is given a value"
  | missingArgument => "--replay-rate is of use only with --replay"

def text : Refusal → String
  | help => helpText
  | version => programName ++ " " ++ programVersion ++ "\n"
  | r => "error: " ++ r.reason ++ "\n\n" ++ usageLine ++ "\nFor more information, try --help.\n"

end Refusal

end TestWatch
