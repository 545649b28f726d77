import VolumeFs.Json.Fields
import VolumeFs.Store.Error
import VolumeFs.Text.Blank
import VolumeFs.Text.Described

/-!
# Connection settings

Which volume to connect to, where, and with which keys. The secret key is never shown.
-/

namespace VolumeFs

/-- What is needed to connect to a volume. -/
structure Settings where
  volumeName : String := ""
  masterAddr : String := ""
  accessKey : String := ""
  secretKey : String := ""
  logDir : Option String := none
  logLevel : Option String := none
  deriving DecidableEq

namespace Settings

/-- The fields that must not be blank, each with the complaint about it, in the order in which
they are looked at. -/
def required (s : Settings) : List (String × String) :=
  [(s.volumeName, "volume name is required"), (s.masterAddr, "master address is required"),
    (s.accessKey, "access key is required"), (s.secretKey, "secret key is required")]

/-- Refuses settings with a blank field; the first one is reported. -/
def validate (s : Settings) : Except StoreError Unit :=
  match s.required.find? fun field => Text.isBlank field.1 with
  | some (_, reason) => .error (.invalidConfig reason)
  | none => .ok ()

def described (s : Settings) : String :=
  Text.describedRecord "StoreSettings"
    [("volume_name", Text.quoted s.volumeName), ("master_addr", Text.quoted s.masterAddr),
      ("access_key", Text.quoted s.accessKey), ("secret_key", Text.quoted "<redacted>"),
      ("log_dir", Text.describedOption (s.logDir.map Text.quoted)),
      ("log_level", Text.describedOption (s.logLevel.map Text.quoted))]

def fieldNames : List String :=
  ["volume_name", "master_addr", "access_key", "secret_key", "log_dir", "log_level"]

open Json in
/-- The settings read from a JSON object. What is missing is empty. -/
def ofJson? (value : Json.Value) : Option Settings := do
  let fields ← value.record? fieldNames
  some {
    volumeName := ← field? fields "volume_name" "" Value.text?
    masterAddr := ← field? fields "master_addr" "" Value.text?
    accessKey := ← field? fields "access_key" "" Value.text?
    secretKey := ← field? fields "secret_key" "" Value.text?
    logDir := ← field? fields "log_dir" none (·.nullable? Value.text?)
    logLevel := ← field? fields "log_level" none (·.nullable? Value.text?) }

def read? (text : String) : Option Settings := do ofJson? (← Json.read? text)

end Settings
end VolumeFs
