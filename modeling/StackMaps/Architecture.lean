/-!
# Target architectures

The supported instruction sets, their canonical names, the further spellings a
user may write, and their word sizes.
-/

namespace StackMaps

/-- The supported targets. -/
inductive Architecture where
  | amd64
  | aarch64
  | ia32
  | sparcv9
  deriving DecidableEq

/-- A spelling that names no supported target. -/
structure UnknownArchitecture where
  name : String
  deriving DecidableEq

namespace UnknownArchitecture

/-- The refusal shown to the user, quoting the spelling as it was written. -/
def message (unknown : UnknownArchitecture) : String :=
  "unknown architecture `" ++ unknown.name ++ "`"

end UnknownArchitecture

namespace Architecture

/-- Every target, in the order that numbers them in stored methods. -/
def all : List Architecture := [.amd64, .aarch64, .ia32, .sparcv9]

/-- The canonical name. -/
def name : Architecture → String
  | .amd64 => "amd64"
  | .aarch64 => "aarch64"
  | .ia32 => "ia32"
  | .sparcv9 => "sparcv9"

/-- Bytes in a machine word. -/
def wordSize : Architecture → UInt32
  | .ia32 => 4
  | .amd64 | .aarch64 | .sparcv9 => 8

/-- Read a target name. Common other spellings are accepted; case matters. -/
def parse (spelling : String) : Except UnknownArchitecture Architecture :=
  if ["amd64", "x86_64", "x86-64"].contains spelling then .ok .amd64
  else if ["aarch64", "arm64"].contains spelling then .ok .aarch64
  else if ["ia32", "x86", "i686"].contains spelling then .ok .ia32
  else if ["sparcv9", "sparc64", "sparc"].contains spelling then .ok .sparcv9
  else .error ⟨spelling⟩

end Architecture

end StackMaps
