import SemanticMarkup.Settings.Basic
import SemanticMarkup.Value.Basic

/-!
# The configuration of logging

Messages go to the console, from the level of the settings on: as lines for
people, or as JSON where the program is in use.
-/

namespace SemanticMarkup.Settings

/-- Named values as a mapping. -/
def group (fields : Fields) : Value :=
  .dict (Entries.ofFields fields)

/-- The form of the lines for people. -/
def lineForm : Value :=
  group [("format", .text "%(asctime)s [%(levelname)s] %(name)s: %(message)s"),
    ("datefmt", .text "%Y-%m-%d %H:%M:%S")]

/-- The form of the lines in JSON. -/
def jsonForm : Value :=
  group [("()", .text "pythonjsonlogger.jsonlogger.JsonFormatter"),
    ("format", .text "%(asctime)s %(name)s %(levelname)s %(message)s")]

/-- The configuration of logging under some settings. -/
def loggingConfig (s : Settings) : Value :=
  let level : Value := .text s.logLevel.name
  let form := if s.environment = .production then "json" else "standard"
  group [("version", .int 1), ("disable_existing_loggers", .bool false),
    ("formatters", group [("standard", lineForm), ("json", jsonForm)]),
    ("handlers", group [("console", group [("class", .text "logging.StreamHandler"),
      ("level", level), ("formatter", .text form), ("stream", .text "stderr")])]),
    ("loggers", group [("microformats", group [("level", level),
      ("handlers", .list [.text "console"]), ("propagate", .bool false)])])]

end SemanticMarkup.Settings
