import Worksheet.Files
import Worksheet.Utf8

/-! A tree of directories and files in memory. A path is walked name by name from the top; every
name but the last one must be that of a directory. -/

namespace Worksheet

inductive FileTree.Item where
  | directory
  | file (bytes : ByteArray)

/-- The items below the top directory, each under the names that lead to it. -/
structure FileTree where
  items : List (List String × FileTree.Item)

namespace FileTree

def empty : FileTree := ⟨[]⟩

def item? (tree : FileTree) (place : List String) : Option Item :=
  if place = [] then some .directory else tree.items.lookup place

def fits (name : String) : Bool := name.utf8ByteSize ≤ 255

def walk (tree : FileTree) (place : List String) : List String → Except FileFault (List String)
  | [] => .ok place
  | name :: rest =>
      match tree.item? place with
      | none => .error .notFound
      | some (.file _) => .error .notDirectory
      | some .directory =>
          if name = "" ∨ name = "." then tree.walk place rest
          else if name = ".." then tree.walk place.dropLast rest
          else if fits name then tree.walk (place ++ [name]) rest
          else .error .nameTooLong

def names (path : String) : Except FileFault (List String) :=
  if path = "" then .error .notFound
  else if path.utf8ByteSize < 4096 then .ok (path.splitOn "/")
  else .error .nameTooLong

def locate (tree : FileTree) (path : String) : Except FileFault (List String) :=
  match names path with
  | .error fault => .error fault
  | .ok trail => tree.walk [] trail

def trimmed (trail : List String) : List String :=
  (trail.reverse.dropWhile (· = "")).reverse

/-- The directory that a path's last name belongs to, and this name. Slashes at the end do not count.
A path that ends in dots, or has no names, means a directory and names nothing in it. -/
def locateName (tree : FileTree) (path : String) : Except FileFault (List String × String) :=
  match names path with
  | .error fault => .error fault
  | .ok trail =>
      match tree.walk [] ((trimmed trail).dropLast ++ [""]), (trimmed trail).getLast? with
      | .error fault, _ => .error fault
      | .ok _, none => .error .isDirectory
      | .ok place, some name =>
          if name = "." ∨ name = ".." then .error .isDirectory else .ok (place, name)

def erase (tree : FileTree) (place : List String) : FileTree :=
  ⟨tree.items.filter fun entry => entry.1 ≠ place⟩

def put (tree : FileTree) (place : List String) (item : Item) : FileTree :=
  ⟨(place, item) :: (tree.erase place).items⟩

def readBytes (tree : FileTree) (path : String) : Except FileFault ByteArray :=
  match tree.locate path with
  | .error fault => .error fault
  | .ok place =>
      match tree.item? place with
      | none => .error .notFound
      | some .directory => .error .isDirectory
      | some (.file bytes) => .ok bytes

def show? (tree : FileTree) (path : String) : Option String :=
  match tree.readBytes path with
  | .ok bytes => some (Utf8.text bytes)
  | .error _ => none

def replaceBytes (tree : FileTree) (path : String) (bytes : ByteArray) :
    Except FileFault FileTree :=
  match tree.locateName path with
  | .error fault => .error fault
  | .ok (place, name) =>
      if path.endsWith "/" then .error .isDirectory
      else if fits name then
        match tree.item? (place ++ [name]) with
        | some .directory => .error .isDirectory
        | _ => .ok (tree.put (place ++ [name]) (.file bytes))
      else .error .nameTooLong

def makeDirectory? (tree : FileTree) (path : String) : Option FileTree :=
  match tree.locateName path with
  | .error _ => none
  | .ok (place, name) =>
      if fits name then
        match tree.item? (place ++ [name]) with
        | none => some (tree.put (place ++ [name]) .directory)
        | some _ => none
      else none

def clear (tree : FileTree) (place : List String) : FileTree :=
  ⟨tree.items.filter fun entry => entry.1 = place || !place.isPrefixOf entry.1⟩

/-- Takes out a file, or a directory with all that is below it. A directory is emptied first and then
taken out by its name: when the path ends in dots it stays, empty, and the removal has failed. A path
that led through what was emptied leads nowhere by then, which is no failure. -/
def remove (tree : FileTree) (path : String) : Bool × FileTree :=
  match tree.locate path with
  | .error _ => (false, tree)
  | .ok place =>
      match tree.item? place with
      | none => (false, tree)
      | some (.file _) => (true, tree.erase place)
      | some .directory =>
          match (tree.clear place).locateName path with
          | .ok _ => (true, (tree.clear place).erase place)
          | .error fault => (fault = .notFound, tree.clear place)

instance : FileAccess (StateM FileTree) where
  readBytes path := do
    let tree ← get
    return tree.readBytes path
  replace path text := do
    let tree ← get
    match tree.replaceBytes path text.toUTF8 with
    | .ok next => do
        set next
        return .ok ()
    | .error fault => return .error fault

end FileTree

end Worksheet
