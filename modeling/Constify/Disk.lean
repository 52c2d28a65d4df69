import Constify.Storage

/-!
# The disk as a storage

`Disk.storage` gives the file operations on the disk. Links below a directory are neither listed nor
entered, and entries that cannot be looked at are left out. Only paths that are UTF-8 can be reached.
-/

namespace Constify.Disk

open IO.FS (DirEntry FileType)

def fault : IO.Error → ReadFault
  | .noFileOrDirectory .. => .notFound
  | .inappropriateType none .. => .isDirectory
  | .inappropriateType .. => .notDirectory
  | e => .other (toString e).toList

def entry (path : String) : DirEntry := ⟨path, ""⟩

/-- The result of an action, or the fault that it ends with. -/
def guarded {α : Type} (act : IO α) : IO (Except ReadFault α) := do
  try
    return .ok (← act)
  catch e =>
    return .error (fault e)

/-- The action on a path, or the fault that the path cannot be reached or the action ends with. -/
def onPath {α : Type} (path : Bytes) (act : String → IO α) : IO (Except ReadFault α) :=
  match path.text? with
  | some text => guarded (act (String.ofList text))
  | none => return .error (.other "path is not valid UTF-8".toList)

def readText (path : Bytes) : IO (Except ReadFault Text) := do
  match ← onPath path (IO.FS.readBinFile ·) with
  | .error fault => return .error fault
  | .ok bytes =>
    match Text.decode? bytes with
    | some text => return .ok text
    | none => return .error .notUtf8

/-- Whether a path leads to something of a type, links followed. -/
def isOfType (type : FileType) (path : Bytes) : IO Bool := do
  match ← onPath path fun p => (entry p).root.metadata with
  | .ok metadata => return metadata.type == type
  | .error _ => return false

/-- The files below a directory, as paths relative to it that start with the names in `front`. -/
partial def filesIn (directory : String) (front : List Bytes) : IO (List Bytes) := do
  match ← guarded (entry directory).root.readDir with
  | .error _ => return []
  | .ok entries =>
    let below ← entries.toList.mapM fun e => do
      let names := front ++ [Text.bytes e.fileName.toList]
      match ← guarded e.path.symlinkMetadata with
      | .error _ => return []
      | .ok metadata =>
        match metadata.type with
        | .file => return [Path.through names]
        | .dir => filesIn (directory ++ "/" ++ e.fileName) names
        | _ => return []
    return below.flatten

/-- The file operations on the disk. -/
def storage : Storage IO where
  readText := readText
  writeText path text := onPath path fun p => IO.FS.writeBinFile p text.encode
  isFile := isOfType .file
  filesBelow path := do
    if ← isOfType .dir path then
      match ← onPath path fun p => filesIn p [] with
      | .ok files => return some files
      | .error _ => return none
    else return none

end Constify.Disk
