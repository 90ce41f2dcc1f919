/-!
# What a terminal can show

Whether frames are redrawn, colours used and characters beyond ASCII written depends on whether the
output is a terminal and on the environment.
-/

namespace TestWatch

abbrev Environment := String → Option String

namespace Environment

def isSet (env : Environment) (name : String) : Bool := (env name).isSome

def isOn (env : Environment) (name : String) : Bool := (env name).any (· != "0")

def buildServiceNames : List String :=
  ["CI_NAME", "GITHUB_ACTION", "GITLAB_CI", "NETLIFY", "TRAVIS", "CODEBUILD_SRC_DIR",
    "BUILDER_OUTPUT", "GITLAB_DEPLOYMENT", "NOW_GITHUB_DEPLOYMENT", "NOW_BUILDER",
    "BITBUCKET_DEPLOYMENT", "GERRIT_PROJECT", "SYSTEM_TEAMFOUNDATIONCOLLECTIONURI", "BITRISE_IO",
    "BUDDY_WORKSPACE_ID", "BUILDKITE", "CIRRUS_CI", "APPVEYOR", "CIRCLECI", "SEMAPHORE", "DRONE",
    "DSARI", "TDDIUM", "STRIDER", "TASKCLUSTER_ROOT_URL", "JENKINS_URL", "bamboo.buildKey",
    "GO_PIPELINE_NAME", "HUDSON_URL", "WERCKER", "MAGNUM", "NEVERCODE", "RENDER", "SAIL_CI",
    "SHIPPABLE"]

/-- A build service keeps every byte that is written, even on a terminal. It says so in `CI` or in
a variable of its own; one is known by where its interpreter lies. -/
def isBuildService (env : Environment) : Bool :=
  (env "CI").any (fun v => v == "true" || v == "1" || v == "woodpecker") ||
    buildServiceNames.any env.isSet ||
    (env "NODE").any (·.endsWith "//heroku/node/bin/node")

def redraws (env : Environment) (terminal : Bool) : Bool := terminal && !env.isBuildService

def isZero (text : String) : Bool :=
  let digits := match text.toList with
    | '+' :: ds => ds
    | ds => ds
  !digits.isEmpty && digits.all (· == '0')

/-- The environment asks for colour wherever the output goes. `FORCE_COLOR` states a level, and
asks for none by `false` or zero; the other variable counts only where this one is not set. -/
def forcesColor (env : Environment) : Bool :=
  match env "FORCE_COLOR" with
  | some v => v != "false" && !isZero v
  | none => env.isOn "CLICOLOR_FORCE"

def forbidsColor (env : Environment) : Bool :=
  env.isOn "NO_COLOR" || env "TERM" == some "dumb"

def knowsColor (env : Environment) : Bool :=
  env.isSet "TERM" || env.isSet "COLORTERM" || env "TERM_PROGRAM" == some "iTerm.app" ||
    env "TERM_PROGRAM" == some "Apple_Terminal" || env.isOn "CLICOLOR" || env.isBuildService

def showsColor (env : Environment) (terminal : Bool) : Bool :=
  env.forcesColor ||
    (!env.forbidsColor && (terminal || env.isOn "IGNORE_IS_TERMINAL") && env.knowsColor)

def characterSet (env : Environment) : String :=
  ((env "LC_ALL" <|> env "LC_CTYPE" <|> env "LANG").getD "").toUpper

def displayNames : List String :=
  ["CI", "NODE", "FORCE_COLOR", "CLICOLOR_FORCE", "NO_COLOR", "TERM", "COLORTERM", "TERM_PROGRAM",
    "CLICOLOR", "IGNORE_IS_TERMINAL", "LC_ALL", "LC_CTYPE", "LANG"] ++ buildServiceNames

/-- Characters beyond ASCII go to files always, and to terminals that use UTF-8. -/
def showsUnicode (env : Environment) (terminal : Bool) : Bool :=
  !terminal ||
    (env "TERM" != some "linux" &&
      (env.characterSet.endsWith "UTF8" || env.characterSet.endsWith "UTF-8"))

end Environment

def standardSize : Nat × Nat := (80, 24)

/-- A size with no columns or no rows is not known. -/
def knownSize : Option (Nat × Nat) → Nat × Nat
  | some (columns, rows) => if columns = 0 ∨ rows = 0 then standardSize else (columns, rows)
  | none => standardSize

end TestWatch
