import WebToken.Config
import WebToken.Text.Quoted

/-!
# Log settings

How a service writes its log: under which name, from which level on, and whether as JSON.
-/

namespace WebToken

/-- How a service writes its log. -/
structure LogSettings where
  serviceName : String
  level : String
  json : Bool
  deriving Repr, DecidableEq

namespace LogSettings

/-- The usual settings. -/
def standard : LogSettings := ⟨"jose-engine", "info", false⟩

def withServiceName (s : LogSettings) (name : String) : LogSettings := { s with serviceName := name }
def withLevel (s : LogSettings) (level : String) : LogSettings := { s with level := level }
def withJson (s : LogSettings) : LogSettings := { s with json := true }

/-- The settings that a configuration asks for. -/
def ofConfig (c : Config) : LogSettings :=
  let s := standard.withLevel c.logLevel
  if c.logJson then s.withJson else s

/-- The description of log settings. -/
def describe (s : LogSettings) : String :=
  s!"TracingConfig \x7b service_name: {Text.quoted s.serviceName}, " ++
  s!"log_level: {Text.quoted s.level}, json_output: {s.json} \x7d"

end LogSettings

end WebToken
