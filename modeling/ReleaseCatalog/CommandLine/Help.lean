import ReleaseCatalog.CommandLine.Arguments

namespace ReleaseCatalog.CommandLine

/-- An argument as an explanation shows it, and what is said about it. -/
structure Explained where
  label : String
  remark : String := ""

/-- What is explained about a command, or about the program as a whole. -/
structure Explanation where
  summary : String
  usage : String
  commands : List Explained := []
  operands : List Explained := []
  options : List Explained := []

namespace Explanation

def widest (xs : List Explained) : Nat := (xs.map (·.label.length)).foldl max 0

def spaces (n : Nat) : String := String.ofList (List.replicate n ' ')

/-- The lines of a section, its remarks in one column. No section is shown for an empty list. -/
def table (title : String) (width : Nat) : List Explained → List String
  | [] => []
  | xs => "" :: (title ++ ":") :: xs.map fun x =>
    "  " ++ x.label ++ spaces (width - x.label.length + 2) ++ x.remark

/-- The lines of options whose remarks stand below them. -/
def tallTable (title : String) (xs : List Explained) : List String :=
  "" :: (title ++ ":") :: xs.flatMap fun x => ["  " ++ x.label, spaces 10 ++ x.remark]

/-- Whether the remarks are moved below the options: where the options take more than two fifths of
a line of a hundred characters and some remark does not fit beside them. -/
def isTall (e : Explanation) : Bool :=
  let taken := widest e.options + 4
  40 < taken && e.options.any fun x => 100 - taken < x.remark.length

def lines (e : Explanation) : List String :=
  [e.summary, "", "Usage: " ++ e.usage] ++ table "Commands" (widest e.commands) e.commands ++
    table "Arguments" (widest e.operands) e.operands ++
    if e.isTall then tallTable "Options" e.options
    else table "Options" (widest e.options) e.options

end Explanation

def configOption : Explained :=
  ⟨"    --config <CONFIG>", "JSON configuration file (defaults to config.json in the data directory)"⟩

def databaseOption : Explained :=
  ⟨"    --database <DATABASE>", "Release database (defaults to releases.db in the data directory)"⟩

def helpOption : Explained := ⟨"-h, --help", "Print help"⟩

/-- An option with a value, named by the option in capitals. -/
def valued (name remark : String) : Explained :=
  ⟨"    --" ++ name ++ " <" ++ name.map (fun c => if c = '-' then '_' else c.toUpper) ++ ">", remark⟩

def loadSummary : String := "Load a JSON array of releases into the database"

def querySummary : String := "Print matching releases as JSON lines"

def availableSummary : String := "Print the available release lines"

def latestSummary : String := "Print the newest GA binary per platform of a feature version"

def watchSummary : String := "Keep refreshing the snapshot from the database until interrupted"

def helpSummary : String := "Print this message or the help of the given subcommand(s)"

def summaries : List Explained :=
  [⟨"import", loadSummary⟩, ⟨"query", querySummary⟩, ⟨"available", availableSummary⟩,
    ⟨"latest", latestSummary⟩, ⟨"watch", watchSummary⟩, ⟨"help", helpSummary⟩]

def binaryExplained : List Explained :=
  [valued "os" "", valued "architecture" "", valued "image-type" "", valued "jvm-impl" "",
    valued "heap-size" "", valued "project" "",
    valued "before" "Keep only binaries updated before this RFC 3339 instant"]

def programExplanation : Explanation where
  summary := "Index of published release artifacts"
  usage := "release-index [OPTIONS] <COMMAND>"
  commands := summaries
  options := [configOption, databaseOption, helpOption, ⟨"-V, --version", "Print version"⟩]

def explanationOf (command : String) : Explanation :=
  match command with
  | "import" =>
    { summary := loadSummary
      usage := "release-index import [OPTIONS] <FILE>"
      operands := [⟨"<FILE>", ""⟩]
      options := [configOption,
        ⟨"    --prune",
          "Delete stored releases of the imported feature versions missing from the file"⟩,
        databaseOption, helpOption] }
  | "query" =>
    { summary := querySummary
      usage := "release-index query [OPTIONS]"
      options := [configOption, valued "release-type" "", databaseOption,
        valued "feature-version" "", valued "release-name" "", valued "vendor" "",
        valued "lts"
          "Keep only LTS (true) or non-LTS (false) release lines [possible values: true, false]",
        valued "version"
          "Maven-style range such as `[11.0.4,17)`; a bare version matches exactly"] ++
        binaryExplained ++
        [valued "sort-order" "[default: desc]", valued "sort-method" "[default: version]",
          valued "page" "[default: 0]", valued "page-size" "[default: 10]", helpOption] }
  | "available" =>
    { summary := availableSummary
      usage := "release-index available [OPTIONS]"
      options := [configOption, databaseOption, helpOption] }
  | "latest" =>
    { summary := latestSummary
      usage := "release-index latest [OPTIONS] <FEATURE_VERSION>"
      operands := [⟨"<FEATURE_VERSION>", ""⟩]
      options := match binaryExplained with
        | first :: second :: others =>
          [configOption, first, second, databaseOption] ++ others ++ [helpOption]
        | others => configOption :: databaseOption :: others ++ [helpOption] }
  | "watch" =>
    { summary := watchSummary
      usage := "release-index watch [OPTIONS]"
      options := [configOption, databaseOption, helpOption] }
  | _ =>
    { summary := helpSummary
      usage := "release-index help [COMMAND]..."
      operands := [⟨"[COMMAND]...", "Print help for the subcommand(s)"⟩] }

def help (command : Option String) : List String :=
  (command.elim programExplanation explanationOf).lines

def versionLine : String := "release-index 0.1.0"

end ReleaseCatalog.CommandLine
