import GraphQLSyntax.Source.Path

/-!
# File trees

A path can be walked, asked for a file, and read. A view says what comes of that, and no more is ever known
of the files of a system: they may have links, also in circles, and parts that cannot be looked at. Their names
are Unicode text, as all paths are.

A tree is one system of files. It is a file with its bytes, a directory with named entries, or something
that cannot be opened. Paths are followed from a tree's root, piece by piece, and a piece can only be looked
up in a directory. Names and paths have a largest size. Nothing is known of the directories outside the tree
but that they are there.
-/

set_option autoImplicit false

namespace GraphQLSyntax

/-! ## Views -/

/-- A regular file or something else, such as a directory, that a walk meets. A link counts as what it
leads to. -/
structure WalkEntry where
  path : Path
  isFile : Bool
  deriving DecidableEq, Repr

/-- Why a path could not be read, with the reason that the system gives. -/
inductive ReadFault where
  | notOpened (reason : String)
  | notRead (reason : String)
  deriving DecidableEq, Repr

structure FileView where
  /-- What a walk meets, in this order. An error is a text, and the walk goes on after it. -/
  walk : List (Except String WalkEntry)
  /-- Whether a regular file is there, or at the end of the links that are there. -/
  isFile : Bool
  content : Except ReadFault (List UInt8)

/-! ## Trees -/

inductive FileFault where
  | notFound
  | notPermitted
  | notDirectory
  | isDirectory
  | nameTooLong
  deriving DecidableEq, Repr

def FileFault.message : FileFault → String
  | notFound => "No such file or directory (os error 2)"
  | notPermitted => "Permission denied (os error 13)"
  | notDirectory => "Not a directory (os error 20)"
  | isDirectory => "Is a directory (os error 21)"
  | nameTooLong => "File name too long (os error 36)"

mutual

inductive FileTree where
  | file (bytes : List UInt8)
  | directory (entries : List FileEntry)
  /-- What cannot be opened, such as a link that leads nowhere. -/
  | broken (fault : FileFault)

structure FileEntry where
  name : List Char
  tree : FileTree

end

def maxNameBytes : Nat := 255

def maxPathBytes : Nat := 4095

namespace FileTree

def empty : FileTree := directory []

/-- A directory outside the tree, of whose entries none can be reached. -/
def outside : FileTree := empty

def entries : FileTree → List FileEntry
  | directory es => es
  | file _ | broken _ => []

def isDirectory : FileTree → Bool
  | directory _ => true
  | file _ | broken _ => false

/-- Changes the entry with a name, or adds one. -/
def updateEntry (name : List Char) (change : FileTree → FileTree) :
    List FileEntry → List FileEntry
  | [] => [⟨name, change empty⟩]
  | e :: es =>
    if e.name = name then ⟨name, change e.tree⟩ :: es else e :: updateEntry name change es

/-- Puts a tree below some names, with the directories that are missing on the way. A directory that is
there already stays as it is. -/
def insert (leaf : FileTree) : List (List Char) → FileTree → FileTree
  | [], tree => if leaf.isDirectory && tree.isDirectory then tree else leaf
  | name :: names, tree => directory (updateEntry name (insert leaf names) tree.entries)

/-- Follows the pieces of a path from a tree, whose ancestors are given, the nearest one first. -/
def follow (ancestors : List FileTree) (tree : FileTree) :
    List (List Char) → Except FileFault FileTree
  | [] => .ok tree
  | piece :: pieces =>
    match tree with
    | file _ => .error .notDirectory
    | broken fault => .error fault
    | directory entries =>
      if piece = [] ∨ piece = ['.'] then follow ancestors tree pieces
      else if piece = ['.', '.'] then
        match ancestors with
        | [] => follow [] outside pieces
        | parent :: ancestors => follow ancestors parent pieces
      else if maxNameBytes < (String.ofList piece).utf8ByteSize then .error .nameTooLong
      else
        match entries.find? (·.name = piece) with
        | none => .error .notFound
        | some e => follow (tree :: ancestors) e.tree pieces

/-- The tree at a path. Absolute paths start outside the tree, and an empty path leads nowhere. -/
def find (root : FileTree) (path : Path) : Except FileFault FileTree :=
  if maxPathBytes < path.text.utf8ByteSize then .error .nameTooLong
  else if path.text = "" then .error .notFound
  else
    match splitAtChar '/' path.text.toList with
    | [] :: pieces => outside.follow [] pieces
    | pieces => root.follow [] pieces

end FileTree

/-- What is said of a path that a walk cannot look at. -/
def walkMessage (path : Path) (reason : String) : String :=
  "IO error for operation on " ++ path.text ++ ": " ++ reason

mutual

/-- A tree and all below it, each directory before its entries. -/
def FileTree.walk (path : Path) : FileTree → List (Except String WalkEntry)
  | .file _ => [.ok ⟨path, true⟩]
  | .directory entries => .ok ⟨path, false⟩ :: FileEntry.walkAll path entries
  | .broken fault => [.error (walkMessage path fault.message)]

def FileEntry.walkAll (parent : Path) : List FileEntry → List (Except String WalkEntry)
  | [] => []
  | ⟨name, tree⟩ :: es =>
    tree.walk (parent.child (String.ofList name)) ++ FileEntry.walkAll parent es

end

namespace FileTree

/-- What is seen of a tree at a path that leads to it. -/
def view (path : Path) : FileTree → FileView
  | tree@(file bytes) => ⟨tree.walk path, true, .ok bytes⟩
  | tree@(directory _) => ⟨tree.walk path, false, .error (.notRead FileFault.isDirectory.message)⟩
  | tree@(broken fault) => ⟨tree.walk path, false, .error (.notOpened fault.message)⟩

/-- What is seen at a path in a tree. -/
def locate (root : FileTree) (path : Path) : FileView :=
  match root.find path with
  | .ok tree => tree.view path
  | .error fault => (broken fault).view path

end FileTree

end GraphQLSyntax
