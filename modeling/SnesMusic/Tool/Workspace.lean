import SnesMusic.Text.Cut
import SnesMusic.Tool.Script

/-!
# Workspaces

A folder with all that is in it, and what scripts do to it. Nothing outside of the folder can be
reached.
-/
namespace SnesMusic.Tool

/-- Names from the outermost folder inwards. -/
abbrev Path := List String

/-- Files with their contents, and folders besides those that the files are in. -/
structure Workspace where
  files : List (Path × Content) := []
  folders : List Path := []

namespace Workspace

def file? (w : Workspace) (path : Path) : Option Content :=
  (w.files.find? (·.1 == path)).map (·.2)

/-- Whether there is a folder at `path`:
the whole, one that was made, or one with something in it. -/
def isFolder (w : Workspace) (path : Path) : Bool :=
  path.isEmpty || w.folders.any path.isPrefixOf ||
    w.files.any fun (file, _) => file != path && path.isPrefixOf file

/-- The parts of a name; those that stay in the same folder are dropped. -/
def parts (name : String) : List String :=
  ((Text.pieces '/' name.toList).map String.ofList).filter fun part => part != "" && part != "."

/-- Goes one part further; nothing when that leaves the workspace. -/
def enter? (here : Path) (part : String) : Option Path :=
  if part ≠ ".." then some (here ++ [part])
  else if here.isEmpty then none
  else some here.dropLast

/-- The fault of a path that should be a folder, if any. -/
def folderFault? (w : Workspace) (path : Path) : Option HostFault :=
  if w.isFolder path then none
  else if (w.file? path).isSome then some .notDirectory
  else some .notFound

/-- Follows the parts of a name; all but the last have to lead to folders. -/
def follow (w : Workspace) (here : Path) : List String → Except HostFault Path
  | [] => .ok here
  | part :: rest =>
    match enter? here part with
    | none => .error .notFound
    | some next =>
      match if rest.isEmpty then none else w.folderFault? next with
      | some fault => .error fault
      | none => follow w next rest

/-- The path that a name leads to. -/
def locate (w : Workspace) (name : String) : Except HostFault Path :=
  match name.toList with
  | [] => .error .notFound
  | '/' :: _ => .error .notFound
  | _ => w.follow [] (parts name)

/-- A name that ends in a slash is that of a folder. -/
def namesFolder (name : String) : Bool := name.toList.getLast? == some '/'

def read (w : Workspace) (name : String) : Except HostFault Content := do
  let path ← w.locate name
  if w.isFolder path then throw .isDirectory
  match w.file? path with
  | none => throw .notFound
  | some content => if namesFolder name then throw .notDirectory else return content

/-- Puts content at a path. -/
def put (w : Workspace) (path : Path) (content : Content) : Workspace :=
  if (w.file? path).isSome then
    { w with files := w.files.map fun file => if file.1 = path then (path, content) else file }
  else { w with files := w.files ++ [(path, content)] }

def write (w : Workspace) (name : String) (content : Content) : Except HostFault Workspace := do
  let path ← w.locate name
  if w.isFolder path || namesFolder name then throw .isDirectory
  return w.put path content

/-- Makes the folders that the parts of a name lead through. -/
def makeFolders (w : Workspace) (here : Path) : List String → Except HostFault Workspace
  | [] => .ok w
  | part :: rest =>
    match enter? here part with
    | none => .error .notFound
    | some next =>
      if (w.file? next).isSome then .error (if rest.isEmpty then .exists else .notDirectory)
      else ({ w with folders := next :: w.folders }).makeFolders next rest

def makeFolder (w : Workspace) (name : String) : Except HostFault Workspace :=
  match name.toList with
  | '/' :: _ => .error .notFound
  | _ => w.makeFolders [] (parts name)

/-- What is left of a step: the workspace after it, if it was successful, and its outcome. -/
def settle (w : Workspace) : Except HostFault Workspace → Workspace × Except HostFault Unit
  | .ok after => (after, .ok ())
  | .error fault => (w, .error fault)

/-- What a script comes to. -/
structure Result (α : Type) where
  log : List LogLine
  workspace : Workspace
  outcome : Except MusicError α

/-- Runs a script; `log` holds the lines so far, newest first. -/
def runFrom {α : Type} (w : Workspace) (log : List LogLine) : Script α → Result α
  | .done outcome => { log := log.reverse, workspace := w, outcome }
  | .log line next => w.runFrom (line :: log) next
  | .read name next => w.runFrom log (next (w.read name))
  | .write name content next =>
    let (after, outcome) := w.settle (w.write name content)
    after.runFrom log (next outcome)
  | .makeFolder name next =>
    let (after, outcome) := w.settle (w.makeFolder name)
    after.runFrom log (next outcome)

def run {α : Type} (w : Workspace) (script : Script α) : Result α := w.runFrom [] script

end Workspace
end SnesMusic.Tool
