/-!
# Paths

A path is a root, which may be absent, and names. Repeated slashes and names of
a single point are of no account.
-/
namespace Lox

structure Path where
  root : String
  names : List String
  deriving DecidableEq, Repr

namespace Path

/-- Cuts a text at its slashes. -/
def split : List Char → List (List Char)
  | [] => [[]]
  | c :: cs =>
      match split cs with
      | name :: names => if c == '/' then [] :: name :: names else (c :: name) :: names
      | [] => [[c]]

/-- Exactly two slashes in front are a root of their own. -/
def rootOf : List Char → String
  | '/' :: '/' :: '/' :: _ => "/"
  | '/' :: '/' :: _ => "//"
  | '/' :: _ => "/"
  | _ => ""

def ofText (text : String) : Path :=
  let cs := text.toList
  ⟨rootOf cs, ((split cs).map String.ofList).filter fun name => name != "" && name != "."⟩

/-- The text of a path; the empty path is a single point. -/
def text (p : Path) : String :=
  if p.root == "" && p.names.isEmpty then "." else p.root ++ String.intercalate "/" p.names

end Path

/-- What lies at a path: the bytes of a file, or a directory. -/
inductive Entry where
  | file (bytes : List UInt8)
  | directory

/-- The files that can be reached from a directory, each by a path. A path from
there that leads back and forth reaches the files below the directory too. -/
structure Workspace where
  entries : List (Path × Entry)

namespace Workspace

def ofList (es : List (String × Entry)) : Workspace :=
  ⟨es.map fun (name, entry) => (Path.ofText name, entry)⟩

/-- Whether names lead to a directory: it is one, or something lies below it. -/
def isDirectory (w : Workspace) (names : List String) : Bool :=
  names.isEmpty || w.entries.any fun (p, entry) =>
    match entry with
    | .directory => names.isPrefixOf p.names
    | .file _ => names.isPrefixOf p.names && p.names != names

/-- Follows names from a directory; two points lead one step back. -/
def resolve? (w : Workspace) : List String → List String → Option (List String)
  | here, [] => some here
  | here, name :: names =>
      if name == ".." then
        if here.isEmpty || !w.isDirectory here then none else w.resolve? here.dropLast names
      else w.resolve? (here ++ [name]) names

/-- The bytes of the file that is listed under a path. -/
def listed? (w : Workspace) (p : Path) : Option (List UInt8) :=
  w.entries.findSome? fun (q, entry) =>
    match entry with
    | .file bytes => if q = p then some bytes else none
    | .directory => none

/-- The bytes of the file at a path. -/
def file? (w : Workspace) (p : Path) : Option (List UInt8) :=
  match w.listed? p with
  | some bytes => some bytes
  | none =>
      if p.root != "" then none
      else (w.resolve? [] p.names).bind fun names => w.listed? ⟨"", names⟩

/-- The greatest number of bytes in a name, and in a path as a whole. -/
def maxName : Nat := 255

def maxPath : Nat := 4095

/-- Whether names lead from a directory to a name that is too long for any file.
Nothing is looked up behind a name that leads nowhere. -/
def meetsLongName (w : Workspace) : List String → List String → Bool
  | _, [] => false
  | here, name :: names =>
      if !w.isDirectory here then false
      else if maxName < name.utf8ByteSize then true
      else if name == ".." then !here.isEmpty && w.meetsLongName here.dropLast names
      else w.meetsLongName (here ++ [name]) names

/-- Whether following a path fails because a name in it, or the path itself, is
too long. Of the files from the root on only the first name is looked at. -/
def isTooLong (w : Workspace) (p : Path) : Bool :=
  decide (maxPath < p.text.utf8ByteSize) ||
    if p.root != "" then p.names.head?.any fun name => decide (maxName < name.utf8ByteSize)
    else w.meetsLongName [] p.names

end Workspace

end Lox
