/-!
A directory with files in it, and what reading a file by its path gives.  Of the system around it
no more is known than its usual directories and two devices: the empty one, and the input of the
program.
-/

set_option autoImplicit false
set_option relaxedAutoImplicit false

namespace LoxLang

/-- Why the system refuses to open or read a file. -/
inductive SystemFault where
  | notFound
  | notDirectory
  | isDirectory
  | nameTooLong
  deriving DecidableEq

def SystemFault.message : SystemFault → String
  | .notFound => "No such file or directory (os error 2)"
  | .notDirectory => "Not a directory (os error 20)"
  | .isDirectory => "Is a directory (os error 21)"
  | .nameTooLong => "File name too long (os error 36)"

/-- Why a file could not be read, in the system's words. -/
inductive ReadFault where
  | cannotOpen (cause : String)
  | cannotRead (cause : String)
  deriving DecidableEq

/-- The files of a directory without directories in it. -/
structure Directory where
  files : List (String × List UInt8)

namespace Directory

/-- What a path has led to. -/
inductive Node where
  /-- The directory itself. -/
  | here
  /-- Another directory, of which nothing is known but those around it. -/
  | elsewhere
  /-- The root of the system. -/
  | root
  /-- The directory of the system's devices. -/
  | devices
  | file (bytes : List UInt8)

def maxName : Nat := 255

def maxPath : Nat := 4095

def systemDirectories : List String := ["bin", "etc", "lib", "proc", "sbin", "tmp", "usr", "var"]

def entry? (d : Directory) (input : List UInt8) (node : Node) (name : String) : Option Node :=
  match node with
  | .here => (d.files.lookup name).map .file
  | .root =>
    if name = "dev" then some .devices
    else if name ∈ systemDirectories then some .elsewhere
    else none
  | .devices =>
    if name = "null" then some (.file [])
    else if name = "stdin" then some (.file input)
    else none
  | .elsewhere | .file _ => none

def parent : Node → Node
  | .root | .devices => .root
  | .here | .elsewhere | .file _ => .elsewhere

def step (d : Directory) (input : List UInt8) (node : Node) (component : String) :
    Except SystemFault Node :=
  match node with
  | .file _ => .error .notDirectory
  | _ =>
    if component = "" ∨ component = "." then .ok node
    else if component = ".." then .ok (parent node)
    else if maxName < component.utf8ByteSize then .error .nameTooLong
    else
      match d.entry? input node component with
      | some found => .ok found
      | none => .error .notFound

def follow (d : Directory) (input : List UInt8) (node : Node) :
    List String → Except SystemFault Node
  | [] => .ok node
  | component :: components => do
    d.follow input (← d.step input node component) components

def read (d : Directory) (input : List UInt8) (path : String) : Except ReadFault (List UInt8) :=
  let start := if path.startsWith "/" then Node.root else .here
  let found :=
    if path = "" then .error .notFound
    else if maxPath < path.utf8ByteSize then .error .nameTooLong
    else d.follow input start (path.splitOn "/")
  match found with
  | .ok (.file bytes) => .ok bytes
  | .ok _ => .error (.cannotRead SystemFault.isDirectory.message)
  | .error fault => .error (.cannotOpen fault.message)

end Directory

end LoxLang
