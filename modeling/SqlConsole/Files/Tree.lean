import SqlConsole.Fault
import SqlConsole.Text.Bytes
import SqlConsole.Text.Fields

/-! A tree of files and folders. Paths are relative to its root; a path that begins with a
slash leads out of it, to a place where nothing is stored. -/
namespace SqlConsole

inductive FileNode where
  | file (contents : Bytes)
  | folder (entries : List (String × FileNode))

namespace FileNode

def emptyFolder : FileNode := .folder []

/-- The names on a path: without empty ones and single dots, and with a double dot undoing the
name before it. -/
def steps (path : String) : List String :=
  (fieldsOf '/' path).foldl (fun done name =>
    if name.isEmpty ∨ name = "." then done
    else if name = ".." then done.dropLast
    else done ++ [name]) []

def isAbsolute (path : String) : Bool := path.toList.head? = some '/'

/-- Whether the path can only mean a folder. -/
def wantsFolder (path : String) : Bool :=
  match (fieldsOf '/' path).getLast? with
  | some name => name.isEmpty || name = "." || name = ".."
  | none => false

def child? (entries : List (String × FileNode)) (name : String) : Option FileNode :=
  (entries.find? fun e => e.1 = name).map (·.2)

def setEntry (entries : List (String × FileNode)) (name : String) (node : FileNode) :
    List (String × FileNode) :=
  if (child? entries name).isSome then
    entries.map fun e => if e.1 = name then (name, node) else e
  else entries ++ [(name, node)]

/-- What stands at the end of a path. -/
def walk : List String → FileNode → Except IoCause FileNode
  | [], node => .ok node
  | _ :: _, .file _ => .error .notDirectory
  | name :: rest, .folder entries =>
    match child? entries name with
    | some node => walk rest node
    | none => .error .notFound

/-- Paths that no system call accepts. -/
def rejects (path : String) : Option IoCause :=
  if path.toList.contains '\x00' then
    some (.unreachable "file name contained an unexpected NUL byte")
  else if path.isEmpty then some .notFound
  else none

def find (root : FileNode) (path : String) : Except IoCause FileNode := do
  match rejects path with
  | some cause => throw cause
  | none =>
    let node ← walk (steps path) (if isAbsolute path then emptyFolder else root)
    match node with
    | .file _ => if wantsFolder path then throw .notDirectory else return node
    | .folder _ => return node

/-- The contents of the file at a path. -/
def read (root : FileNode) (path : String) : Except IoCause Bytes := do
  match ← root.find path with
  | .file contents => return contents
  | .folder _ => throw .isDirectory

/-- Puts a node under a path whose folders exist. A folder is never replaced. -/
def put (node : FileNode) : List String → FileNode → Except IoCause FileNode
  | [], _ => .error .isDirectory
  | _ :: _, .file _ => .error .notDirectory
  | [name], .folder entries =>
    match child? entries name with
    | some (.folder _) => .error .isDirectory
    | _ => .ok (.folder (setEntry entries name node))
  | name :: next :: rest, .folder entries =>
    match child? entries name with
    | none => .error .notFound
    | some inner => do
      let inner ← put node (next :: rest) inner
      return .folder (setEntry entries name inner)

/-- Writes a file, in place of one that is there. -/
def write (root : FileNode) (path : String) (contents : Bytes) : Except IoCause FileNode :=
  match rejects path with
  | some cause => .error cause
  | none =>
    if wantsFolder path then
      match root.find path with
      | .error .notFound => .error .isDirectory
      | .error cause => .error cause
      | .ok _ => .error .isDirectory
    else if isAbsolute path then .error .notFound
    else put (.file contents) (steps path) root

/-- Puts a node under a path, making the folders on the way. -/
def plant (node : FileNode) : List String → FileNode → FileNode
  | [], root => root
  | _ :: _, .file contents => .file contents
  | [name], .folder entries => .folder (setEntry entries name node)
  | name :: next :: rest, .folder entries =>
    .folder (setEntry entries name
      (plant node (next :: rest) ((child? entries name).getD emptyFolder)))

/-- The tree with the given contents. A path that can only mean a folder makes an empty one. -/
def ofList (contents : List (String × Bytes)) : FileNode :=
  contents.foldl (fun root (path, bytes) =>
    plant (if wantsFolder path then emptyFolder else .file bytes) (steps path) root) emptyFolder

end FileNode

end SqlConsole
