import LayeredMachines.Config
import LayeredMachines.Document.Record

/-!
# Configuration documents

The document form of an engine's configuration. A missing field has its default value.
-/

namespace LayeredMachines

open Json (Value)
open Document

/-- The fields of a configuration. -/
def Config.fields : List String := ["max_follow_on", "history_limit", "timer_thread_name"]

/-- A configuration from its document form. -/
def Config.ofValue? (value : Value) : Option Config := do
  let fields ← Fields.ofValue? Config.fields value
  let maxFollowOn ← fields.optional "max_follow_on" Config.default.maxFollowOn natural?
  let historyLimit ← fields.optional "history_limit" Config.default.historyLimit natural?
  let threadName ← fields.optional "timer_thread_name" Config.default.timerThreadName string?
  some ⟨maxFollowOn, historyLimit, threadName⟩

/-- The document form of a configuration. -/
def Config.toValue (config : Config) : Value :=
  ofFields [("max_follow_on", ofNatural config.maxFollowOn),
    ("history_limit", ofNatural config.historyLimit),
    ("timer_thread_name", ofString config.timerThreadName)]

/-- The text of a configuration document. -/
def Config.render (config : Config) : String :=
  Document.render config.toValue

/-- The configuration in the text of a document. -/
def Config.read? (text : String) : Option Config :=
  (Value.read? text).bind Config.ofValue?

end LayeredMachines
