/-!
# Storage

The two forms in which a store keeps the documents of a model.
-/

set_option autoImplicit false

namespace DocumentSchema

/-- The form of stored documents. -/
inductive Storage where
  | hash
  | json
deriving DecidableEq

def Storage.label : Storage → String
  | .hash => "HASH"
  | .json => "JSON"

end DocumentSchema
