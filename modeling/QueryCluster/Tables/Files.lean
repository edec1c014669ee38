import QueryCluster.Operator.Error

/-!
# Files by path

The files that tables are stored in. A path is resolved component by component from left to right.
-/
namespace QueryCluster

/-- Each file with the components of its path. All other directories are empty. -/
abbrev FileTree := List (List String × Bytes)

/-- Appends a path to a path; one that starts at the top stands for itself. -/
def joinPath (base path : String) : String :=
  if path.startsWith "/" then path
  else if base.isEmpty || base.endsWith "/" then base ++ path
  else base ++ "/" ++ path

namespace FileTree

def file? (t : FileTree) (path : List String) : Option Bytes := t.lookup path

def isDirectory (t : FileTree) (path : List String) : Bool :=
  path.isEmpty || t.any fun (p, _) => path.isPrefixOf p && p ≠ path

/-- Follows components from a directory to where they lead. -/
def resolve (t : FileTree) : (here : List String) → List String → Except FileFault (List String)
  | here, [] => .ok here
  | here, c :: cs =>
    if !t.isDirectory here then .error .notDirectory
    else if c == "" || c == "." then resolve t here cs
    else if c == ".." then resolve t here.dropLast cs
    else
      let next := here ++ [c]
      if t.isDirectory next || (t.file? next).isSome then resolve t next cs else .error .missing

def locate (t : FileTree) (path : String) : Except FileFault (List String) :=
  t.resolve [] (path.splitOn "/")

/-- Names in a directory, each once. -/
def list (t : FileTree) (path : String) : Except FileFault (List String) := do
  let dir ← t.locate path
  if t.isDirectory dir then
    let names := t.filterMap fun (p, _) => if dir.isPrefixOf p then p[dir.length]? else none
    return names.eraseDups
  else throw .notDirectory

end FileTree
end QueryCluster
