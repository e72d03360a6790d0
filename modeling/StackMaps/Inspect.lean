import StackMaps.Wire

/-!
# Inspecting a stored method

What the command line shows for the bytes of a stored method: its own listing
when asked for, the listing of its reference maps, and the packed bytes of its
table when asked for. What was written before a failure stays written.
-/

namespace StackMaps

namespace Inspect

/-- What to show beside the reference maps. -/
structure Options where
  /-- Show the stored method before compiling it. -/
  method : Bool
  /-- Show the packed bytes of every entry. -/
  bytes : Bool

/-- What was written, and the message of the failure that ended the run. -/
structure Report where
  output : String
  failure : Option String

/-- The compiled method, or why there is none. -/
def compiled (snapshot : Snapshot) : Except String CompiledMethod :=
  match snapshot.compile with
  | .ok (.ok method) => .ok method
  | .ok (.error failure) => .error ("Reference map construction failed: " ++ failure.message)
  | .error fault => .error fault.message

/-- The listings of a compiled method. -/
def listings (options : Options) (method : CompiledMethod) : Checked String := do
  let maps ← method.listing
  if options.bytes then
    let bytes ← method.bytesListing
    return maps ++ bytes
  else return maps

/-- Show a stored method. -/
def ofSnapshot (options : Options) (snapshot : Snapshot) : Report :=
  let before := if options.method then snapshot.listing ++ "\n" else ""
  match compiled snapshot with
  | .error message => ⟨before, some message⟩
  | .ok method =>
    match listings options method with
    | .ok text => ⟨before ++ text, none⟩
    | .error fault => ⟨before, some fault.message⟩

/-- Show the stored method that the bytes spell. -/
def run (options : Options) (bytes : List Byte) : Report :=
  match Wire.decodeSnapshot bytes with
  | .ok snapshot => ofSnapshot options snapshot
  | .error _ => ⟨"", some "could not deserialize input file"⟩

end Inspect

end StackMaps
