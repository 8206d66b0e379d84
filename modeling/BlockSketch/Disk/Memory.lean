import BlockSketch.Disk
import BlockSketch.Text.Part

namespace BlockSketch

/-- A file, of which the content may not be a text, or a folder. -/
inductive DiskTree where
  | file (content : Option String)
  | folder (entries : List (String × DiskTree))

namespace DiskTree

def empty : DiskTree := .folder []

def entry? (name : String) : DiskTree → Except DiskError DiskTree
  | .file _ => .error .notFolder
  | .folder entries =>
    match entries.find? fun e => e.1 == name with
    | some e => .ok e.2
    | none => .error (if nameLimit < name.utf8ByteSize then .nameTooLong else .notFound)

def find? (root : DiskTree) (names : List String) : Except DiskError DiskTree :=
  names.foldlM (fun n name => n.entry? name) root

/-- Replaces the entry of a name, or adds it at the end. -/
def putEntry (name : String) (n : DiskTree) : List (String × DiskTree) → List (String × DiskTree)
  | [] => [(name, n)]
  | e :: r => if e.1 = name then (name, n) :: r else e :: putEntry name n r

/-- Puts a node at the end of a path of names. Folders on the way are made, and a file that stands in
the way is replaced. -/
def put (n : DiskTree) : List String → DiskTree → DiskTree
  | [], _ => n
  | name :: names, .folder entries =>
    let inner := match entries.find? fun e => e.1 == name with
      | some e => e.2
      | none => empty
    .folder (putEntry name (put n names inner) entries)
  | name :: names, .file _ => .folder [(name, put n names empty)]

def makeFolder (names : List String) (root : DiskTree) : DiskTree :=
  match root.find? names with
  | .ok (.folder _) => root
  | _ => put empty names root

mutual

def files : DiskTree → List (List String × Option String)
  | .file content => [([], content)]
  | .folder entries => filesOf entries

def filesOf : List (String × DiskTree) → List (List String × Option String)
  | [] => []
  | (name, n) :: r => (files n).map (fun f => (name :: f.1, f.2)) ++ filesOf r

end

def segments (path : String) : List String :=
  (Text.splitAtEach '/' path.toList).map String.ofList

/-- A folder that a path leads to: one of the tree, given by the names that lead to it in reverse, or
one around it. -/
inductive Location where
  | inside (done : List String)
  | outside

def atLocation (root : DiskTree) : Location → Except DiskError DiskTree
  | .inside done => root.find? done.reverse
  | .outside => .ok empty

def Location.parent : Location → Location
  | .inside (_ :: outer) => .inside outer
  | _ => .outside

/-- The location of an entry that is there. -/
def Location.child (name : String) : Location → Location
  | .inside done => .inside (name :: done)
  | .outside => .outside

/-- Follows the segments of a path. A segment after a file is an error even if it is empty. -/
def follow (root : DiskTree) (l : Location) : List String → Except DiskError Location
  | [] => .ok l
  | s :: r =>
    match root.atLocation l with
    | .error e => .error e
    | .ok (.file _) => .error .notFolder
    | .ok here =>
      if s = "" ∨ s = "." then follow root l r
      else if s = ".." then follow root l.parent r
      else
        match here.entry? s with
        | .error e => .error e
        | .ok _ => follow root (l.child s) r

def origin (path : String) : Location := if path.front = '/' then .outside else .inside []

def at? (root : DiskTree) (path : String) : Except DiskError DiskTree :=
  match pathError? path with
  | some e => .error e
  | none =>
    if path.isEmpty then .error .notFound
    else (follow root (origin path) (segments path)).bind root.atLocation

def isFile (root : DiskTree) (path : String) : Bool :=
  match root.at? path with
  | .ok (.file _) => true
  | _ => false

def read (root : DiskTree) (path : String) : Except DiskError String :=
  match root.at? path with
  | .error e => .error e
  | .ok (.folder _) => .error .isFolder
  | .ok (.file (some s)) => .ok s
  | .ok (.file none) => .error .notText

/-- Writes the file `name` of a folder; it may be new. What is written around the tree is not kept. -/
def writeEntry (root : DiskTree) (l : Location) (name content : String) : Except DiskError DiskTree :=
  match root.atLocation l with
  | .error e => .error e
  | .ok here =>
    let written : DiskTree := match l with
      | .inside done => put (.file (some content)) (name :: done).reverse root
      | .outside => root
    match here.entry? name with
    | .ok (.folder _) => .error .isFolder
    | .ok (.file _) => .ok written
    | .error .notFound => .ok written
    | .error e => .error e

/-- Writes a file, which may be new; its folder must exist. A slash at the end stands for a folder. -/
def write (root : DiskTree) (path content : String) : Except DiskError DiskTree :=
  let parts := segments path
  let named := (parts.reverse.dropWhile (· = "")).reverse
  match pathError? path, named.getLast? with
  | some e, _ => .error e
  | none, none => .error (if path.isEmpty then .notFound else .isFolder)
  | none, some name =>
    match follow root (origin path) named.dropLast with
    | .error e => .error e
    | .ok l =>
      match root.atLocation l with
      | .error e => .error e
      | .ok (.file _) => .error .notFolder
      | .ok (.folder _) =>
        if named.length < parts.length ∨ name = "." ∨ name = ".." then .error .isFolder
        else root.writeEntry l name content

def filesBelow (root : DiskTree) (path : String) : List (List String) :=
  match root.at? path with
  | .ok (.folder entries) => (filesOf entries).map (·.1)
  | _ => []

/-- The files of a tree that another does not have, or has with another content. -/
def changes (before after : DiskTree) : List (List String × Option String) :=
  after.files.filter fun f => !before.files.contains f

end DiskTree

def Disk.memory : Disk (StateM DiskTree) where
  isFile path := return (← get).isFile path
  read path := return (← get).read path
  write path content := do
    match (← get).write path content with
    | .ok root =>
      set root
      return .ok ()
    | .error e => return .error e
  filesBelow path := return (← get).filesBelow path

end BlockSketch
