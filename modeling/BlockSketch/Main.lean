import BlockSketch.Command.Run

namespace BlockSketch

/-- A path from the current folder. -/
def entryAt (path : String) : IO.FS.DirEntry := ⟨".", path⟩

def diskError : IO.Error → DiskError
  | .noFileOrDirectory .. => .notFound
  | .inappropriateType _ code _ => if code = 20 then .notFolder else .isFolder
  | .invalidArgument _ 36 _ => .nameTooLong
  | e => .other (toString e)

def isFileOnDisk (path : String) : IO Bool := do
  let p := (entryAt path).path
  return (← p.pathExists) && !(← p.isDir)

def readFromDisk (path : String) : IO (Except DiskError String) := do
  if let some e := pathError? path then return .error e
  if ← (entryAt path).path.isDir then return .error .isFolder
  try
    match String.fromUTF8? (← IO.FS.readBinFile path) with
    | some s => return .ok s
    | none => return .error .notText
  catch e => return .error (diskError e)

def writeToDisk (path content : String) : IO (Except DiskError Unit) := do
  if let some e := pathError? path then return .error e
  if ← (entryAt path).path.isDir then return .error .isFolder
  try
    IO.FS.writeFile path content
    return .ok ()
  catch e => return .error (diskError e)

partial def listDisk (path : String) : IO (List (List String)) := do
  try
    let entries ← (entryAt path).path.readDir
    let below ← entries.toList.mapM fun e => do
      if ← e.path.isDir then
        return (← listDisk (path ++ "/" ++ e.fileName)).map (e.fileName :: ·)
      else return [[e.fileName]]
    return below.flatten
  catch _ => return []

def machineDisk : Disk IO where
  isFile := isFileOnDisk
  read := readFromDisk
  write := writeToDisk
  filesBelow := listDisk

end BlockSketch

def main (args : List String) : IO UInt32 := do
  let result ← BlockSketch.runArguments BlockSketch.machineDisk args
  IO.print result.out
  IO.eprint result.err
  return result.exit.toUInt32
