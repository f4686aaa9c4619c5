/-
  VectorIcon.CommandLine.Directory
  ────────────────────────────────
  **A DIRECTORY OF FILES.**

  The directory in which a program runs, as far as the program can see and
  change it: files with their content, without directories inside.  A path
  which leads out of the directory or through one of its files names nothing.
-/

namespace VectorIcon

/-- Files by their names. -/
structure Directory where
  files : List (String × List UInt8)
deriving DecidableEq, Repr, Inhabited

namespace Directory

/-- The parts of a path between slashes. -/
def parts (path : String) : List (List Char) := path.toList.splitOnP (· == '/')

/-- The file name which a path stands for: its last part, if the path does not
    begin with a slash and all parts before are empty or a dot. -/
def fileName? (path : String) : Option String :=
  match (parts path).reverse with
  | [] => none
  | name :: before =>
    if name = [] ∨ name = ['.'] ∨ name = ['.', '.'] then none
    else if before.getLast? = some [] then none
    else if before.all fun p => p = [] ∨ p = ['.'] then some (String.ofList name)
    else none

/-- The content of the file with a path. -/
def read? (d : Directory) (path : String) : Option (List UInt8) :=
  (fileName? path).bind fun name => d.files.lookup name

/-- The directory with a file of the given content, new or in place of the one
    of that name. -/
def put (d : Directory) (name : String) (content : List UInt8) : Directory :=
  ⟨(name, content) :: d.files.filter (·.1 != name)⟩

/-- Write to a path; none if it can not be written. -/
def write? (d : Directory) (path : String) (content : List UInt8) : Option Directory :=
  (fileName? path).map fun name => d.put name content

end Directory

end VectorIcon
