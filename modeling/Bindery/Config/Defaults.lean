import Bindery.Config.Overlay
import Bindery.Digest
import Bindery.Value.Canonical

/-!
# Configurations

A run is configured by a mapping: the user's settings over the defaults. Its fingerprint is the
hash of its canonical text, so settings that are equal up to the order of their keys have equal
fingerprints.
-/

namespace Bindery.Config

/-- A list of texts. -/
def texts (ss : List String) : Value := .list (ss.map Value.text)

/-- The default settings. -/
def defaults : Entries :=
  [("module", .mapping
      [("library", .text ""), ("include_path", .text ""), ("library_path", .text ""),
        ("target", .text ""), ("system_include_dirs", .list []), ("framework_dirs", .list []),
        ("docs", .text ""), ("qmake", .text "qmake"), ("make", .text "make"),
        ("platform", .null)]),
    ("visibility", .mapping
      [("private_prefix", .text "Private"), ("private_suffix", .text "Private")]),
    ("rename", .mapping
      [("pattern", .text "upper_camel_case"),
        ("targets", texts
          ["function", "method", "property", "delegate", "field", "variable", "event"])]),
    ("events", .mapping
      [("signal_sections", texts ["Q_SIGNALS", "signals"]), ("signal_suffix", .text "Event"),
        ("event_base_class", .text "QEvent"), ("collision_prefix", .text "On")]),
    ("value_types", .list []),
    ("output", .mapping
      [("tree_file", .text "\x7bmodule\x7d.tree.yml"),
        ("report_file", .text "pipeline_report.json")])]

/-- The configuration with the user's settings, if there are any, over the defaults. -/
def load (user : Option Value) : Except Fault Value :=
  match user with
  | none => .ok (.mapping defaults)
  | some v => overlay defaults (v.orElse (.mapping []))

/-- Replaces a setting of the module. -/
def override (config : Value) (key value : String) : Except Fault Value := do
  let es := config.entries?.getD []
  match es.lookup "module" with
  | some (.mapping settings) =>
    return .mapping (Entries.put "module" (.mapping (Entries.put key (.text value) settings)) es)
  | _ => throw .wrongKind

/-- The fingerprint of a configuration. -/
def fingerprint (config : Value) : String := Digest.sha256 config.canonical

end Bindery.Config
