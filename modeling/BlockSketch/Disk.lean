namespace BlockSketch

inductive DiskError where
  | notFound
  | notFolder
  | isFolder
  | nameTooLong
  | nulInPath
  | notText
  | other (message : String)
  deriving DecidableEq, Repr

def DiskError.message : DiskError → String
  | .notFound => "No such file or directory (os error 2)"
  | .notFolder => "Not a directory (os error 20)"
  | .isFolder => "Is a directory (os error 21)"
  | .nameTooLong => "File name too long (os error 36)"
  | .nulInPath => "file name contained an unexpected NUL byte"
  | .notText => "stream did not contain valid UTF-8"
  | .other message => message

def nameLimit : Nat := 255

def pathLimit : Nat := 4095

/-- Why a path is refused whatever is on the disk. -/
def pathError? (path : String) : Option DiskError :=
  if path.toList.contains (Char.ofNat 0) then some .nulInPath
  else if pathLimit < path.utf8ByteSize then some .nameTooLong
  else none

structure Disk (m : Type → Type) where
  isFile : String → m Bool
  read : String → m (Except DiskError String)
  write : String → String → m (Except DiskError Unit)
  /-- The files in a folder and in the folders below it, each by the names that lead to it. There are
  none if the folder cannot be listed. -/
  filesBelow : String → m (List (List String))

end BlockSketch
