import VolumeFs.Errno

/-!
# Failures of the store connection

What can go wrong outside a single call: the settings, the connection, and the layout of what
the store sends.
-/

namespace VolumeFs

/-- Why the store could not be reached or understood. -/
inductive StoreError where
  | invalidConfig (reason : String)
  | connectFailed (volume : String) (code : Errno)
  | sessionClosed
  | malformedRecord (record reason : String)
  deriving DecidableEq

namespace StoreError

def message : StoreError → String
  | invalidConfig reason => "Invalid configuration: " ++ reason
  | connectFailed volume code =>
    "CubeFS initialize failed for cubefs://" ++ volume ++ ", code=" ++ code.message
  | sessionClosed => "Store session is closed"
  | malformedRecord record reason => "Malformed " ++ record ++ " record: " ++ reason

end StoreError
end VolumeFs
