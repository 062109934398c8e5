import TreeArena.Text.Quoted

/-!
# The file system a run sees

A run reads at most two things from the file system: the configuration file and the directory of
the record database, which it makes when missing and then claims by writing a lock file into it.
What it sees is a list of paths, each naming a file (with its contents) or a directory, and a
working directory that relative paths start from.

Paths are taken byte by byte: a path is held as a text of one character per byte
(`rawOfBytes`), so that lengths count bytes and any bytes can be named. The listed paths are
clean and absolute: no repeated or trailing separators, no `.` components, `..` resolved.

A path is followed the way the operating system does. A path holding a zero byte is refused as an
invalid argument, and one of `maxPath` bytes or more as too long. Then it is followed component
by component from the root or from the working directory: every component after the first must
be looked up in a directory, so anything after a file, even `.`, `..` or a trailing separator,
fails as not a directory; a name over `maxName` bytes is too long, except in a system directory,
which looks up names of any length; a name that is not there is missing.

A link met on the way, last component included, is followed to what its path names, at most
`maxLinks` deep.

Something new is made in the directory its path leads to, under the path's last name. A system
directory takes nothing new: there a name that is not listed reads as missing.

Main statements: `resolve_zero_byte`, a path holding a zero byte is refused before anything is
looked up, and `resolve_long`, so is one of `maxPath` bytes or more.
-/

namespace TreeArena

namespace Command

/-- Longest name, in bytes, that a directory other than a system one looks up. -/
def maxName : Nat := 255

/-- Length, in bytes, from which a path is refused as too long. -/
def maxPath : Nat := 4096

/-- Longest chain of links one walk follows. -/
def maxLinks : Nat := 40

/-- What a path names. A system directory holds what the system provides: it takes no new
entries, and looks up names of any length. A link stands for the path it holds, taken from the
link's directory when relative. -/
inductive Entry where
  | file (contents : String)
  | directory (system : Bool)
  | link (target : String)
deriving Repr, Inhabited, DecidableEq

/-- Bytes held as a text of one character per byte. -/
def rawOfBytes (bs : List UInt8) : String := String.ofList (bs.map fun b => Char.ofNat b.toNat)

/-- The bytes of a text held one character per byte. -/
def bytesOfRaw (p : String) : List UInt8 := p.toList.map fun c => c.toNat.toUInt8

/-- A path given as text, held one character per byte of its encoding. -/
def rawOfText (s : String) : String := rawOfBytes s.toUTF8.toList

/-- Drops `.` components and resolves `..` against the components before it; at the root of an
absolute path `..` stays at the root. -/
def resolveParts (absolute : Bool) : List String → List String → List String
  | acc, [] => acc.reverse
  | acc, c :: rest =>
    if c == "" || c == "." then resolveParts absolute acc rest
    else if c == ".." then
      match acc with
      | a :: more => if a == ".." then resolveParts absolute (c :: acc) rest
        else resolveParts absolute more rest
      | [] => if absolute then resolveParts absolute [] rest else resolveParts absolute [c] rest
    else resolveParts absolute (c :: acc) rest

/-- The clean form of a path, found from its text alone. -/
def cleanPath (p : String) : String :=
  let absolute := p.startsWith "/"
  let parts := resolveParts absolute [] (p.splitOn "/")
  let body := "/".intercalate parts
  if absolute then "/" ++ body else if body.isEmpty then "." else body

/-- A path joined to a name, cleaned. -/
def joinPath (dir name : String) : String := cleanPath (dir ++ "/" ++ name)

/-- The directory above a clean absolute path; the root is its own. -/
def parentPath (p : String) : String := cleanPath (p ++ "/..")

/-- Why a path cannot be followed or something cannot be made there. -/
inductive PathError where
  /-- A component comes after a file. -/
  | notDirectory
  /-- A component is not there. -/
  | missing
  /-- The path or one of its names is too long. -/
  | nameTooLong
  /-- The path holds a zero byte. -/
  | invalidArgument
  /-- Something to be made is there already. -/
  | exists
  /-- A file to be written is a directory. -/
  | isDirectory
  /-- Links lead on to links too many times. -/
  | loop
deriving Repr, Inhabited, DecidableEq

/-- The text the operating system gives a path error. -/
def PathError.text : PathError → String
  | .notDirectory => "not a directory"
  | .missing => "no such file or directory"
  | .nameTooLong => "file name too long"
  | .invalidArgument => "invalid argument"
  | .exists => "file exists"
  | .isDirectory => "is a directory"
  | .loop => "too many levels of symbolic links"

/-- Refuses a path the system takes no further: one holding a zero byte, one too long, or the
empty path. -/
def checkPath (p : String) : Except PathError Unit :=
  if p.toList.contains '\x00' then .error .invalidArgument
  else if p.length ≥ maxPath then .error .nameTooLong
  else if p.isEmpty then .error .missing
  else .ok ()

/-- The paths a run sees and what they name. -/
structure Files where
  /-- The working directory: a clean absolute path. -/
  cwd : String
  /-- What each clean absolute path names. -/
  entries : List (String × Entry)
deriving Repr, Inhabited

namespace Files

/-- The file system with a working directory and entries whose paths are given as text. -/
def ofList (cwd : String) (entries : List (String × Entry)) : Files :=
  ⟨rawOfText cwd, entries.map fun (p, e) => (rawOfText p, e)⟩

/-- What a clean absolute path names, if it is listed. -/
def lookup (fs : Files) (p : String) : Option Entry := fs.entries.lookup p

/-- What a directory path names: the root and the working directory are directories even when
not listed. -/
def dirAt (fs : Files) (p : String) : Entry := (fs.lookup p).getD (.directory false)

/-- The clean absolute form of a path, taken from the working directory when relative. -/
def absolute (fs : Files) (p : String) : String :=
  if p.startsWith "/" then cleanPath p else joinPath fs.cwd p

/-- Where the components of a path are followed from: the root or the working directory. -/
def start (fs : Files) (p : String) : String := if p.startsWith "/" then "/" else fs.cwd

/-- Follows components from `cur`, a clean absolute path naming `here`, to where they lead and
what is there. A link is followed when met, with one link fewer left for the links its own path
meets; what it names is never a link. -/
def follow (fs : Files) (links : Nat) : String → Entry → List String →
    Except PathError (String × Entry)
  | cur, here, [] => .ok (cur, here)
  | cur, .directory system, c :: rest =>
    if c == "" || c == "." then follow fs links cur (.directory system) rest
    else if c == ".." then
      let up := parentPath cur
      follow fs links up (fs.dirAt up) rest
    else if !system && c.length > maxName then .error .nameTooLong
    else
      let next := joinPath cur c
      match fs.lookup next with
      | some (.link target) =>
        match _hl : links with
        | 0 => .error .loop
        | fewer + 1 => do
          let from_ := if target.startsWith "/" then "/" else cur
          let (dir, e) ← follow fs fewer from_ (fs.dirAt from_) (target.splitOn "/")
          follow fs links dir e rest
      | some e => follow fs links next e rest
      | none => .error .missing
  | _, _, _ :: _ => .error .notDirectory
termination_by _ _ comps => (links, comps.length)
decreasing_by
  all_goals first
    | exact Prod.Lex.right _ (by simp)
    | exact Prod.Lex.left _ _ (by omega)
    | (rw [_hl]; exact Prod.Lex.right _ (by simp))

/-- Where a path leads and what it names. -/
def resolve (fs : Files) (p : String) : Except PathError (String × Entry) := do
  checkPath p
  let s := fs.start p
  fs.follow maxLinks s (fs.dirAt s) (p.splitOn "/")

/-- A path's components up to its last name, and that name; trailing separators are dropped,
and a path of separators only has no last name. -/
def lastName (p : String) : Option (List String × String) :=
  let parts := ((p.splitOn "/").reverse.dropWhile (· == "")).reverse
  parts.getLast?.map fun name => (parts.dropLast, name)

/-- The directory a path's last name is to be made in, whether it is a system one, and the
clean path of the name. The root has no last name and is there already. -/
def placeOf (fs : Files) (p : String) : Except PathError (Bool × String × String) := do
  checkPath p
  match lastName p with
  | none => throw .exists
  | some (dirParts, name) =>
    let s := fs.start p
    match ← fs.follow maxLinks s (fs.dirAt s) dirParts with
    | (dir, .directory system) =>
      if !system && name.length > maxName then throw .nameTooLong
      return (system, name, joinPath dir name)
    | _ => throw .notDirectory

/-- Makes a directory: `.`, `..` and a listed name are there already, and a system directory
takes nothing new. -/
def makeDirectory (fs : Files) (p : String) : Except PathError Files := do
  let (system, name, path) ← fs.placeOf p
  if name == "." || name == ".." || (fs.lookup path).isSome then throw .exists
  if system then throw .missing
  return { fs with entries := fs.entries ++ [(path, .directory false)] }

/-- Writes a file, making it when missing: a directory cannot be written, a link is written
through, and a system directory takes nothing new. -/
def writeFile (fs : Files) (p : String) : Except PathError Files := do
  let (system, name, path) ← fs.placeOf p
  if name == "." || name == ".." then throw .isDirectory
  match fs.lookup path with
  | some (.directory _) => throw .isDirectory
  | some (.file _) => return fs
  | some (.link _) =>
    match ← fs.resolve path with
    | (_, .file _) => return fs
    | _ => throw .isDirectory
  | none =>
    if system then throw .missing
    return { fs with entries := fs.entries ++ [(path, .file "")] }

end Files

/-- The part of a path before its last name, the way the directory maker takes it: trailing
separators dropped, then the last name and the separator before it; empty when no separator is
left. -/
def parentText (p : String) : String :=
  String.ofList ((((p.toList.reverse.dropWhile (· == '/')).dropWhile (· != '/')).drop 1).reverse)

namespace Files

/-- Makes a directory and the missing ones above it. A path that already leads to a directory
is done, and one that names a file fails as not a directory; otherwise the part before its last
name is made first, then the path itself, which is done if it leads to a directory afterwards
whatever making it said. A failure comes with the path being made. Each step makes a shorter
path, so `fuel` at least the path's length suffices. -/
def makeDirectories (fs : Files) : (fuel : Nat) → (p : String) →
    Except (String × PathError) Files
  | 0, _ => .ok fs
  | fuel + 1, p =>
    match fs.resolve p with
    | .ok (_, .directory _) => .ok fs
    | .ok _ => .error (p, .notDirectory)
    | .error _ => do
      let up := parentText p
      let fs ← if up.isEmpty then pure fs else fs.makeDirectories fuel up
      match fs.makeDirectory p with
      | .ok made => pure made
      | .error e =>
        match fs.resolve p with
        | .ok (_, .directory _) => pure fs
        | _ => throw (p, e)

/-- Makes a directory and the missing ones above it. -/
def makeAll (fs : Files) (p : String) : Except (String × PathError) Files :=
  fs.makeDirectories (p.length + 1) p

theorem resolve_zero_byte (fs : Files) (p : String) (h : p.toList.contains '\x00' = true) :
    fs.resolve p = .error .invalidArgument := by
  have hz : '\x00' ∈ p.toList := by simpa using h
  simp [resolve, checkPath, hz, bind, Except.bind]

theorem resolve_long (fs : Files) (p : String) (h : maxPath ≤ p.length) :
    fs.resolve p = .error .invalidArgument ∨ fs.resolve p = .error .nameTooLong := by
  by_cases hz : p.toList.contains '\x00' = true
  · exact Or.inl (resolve_zero_byte fs p hz)
  · right
    have hz' : '\x00' ∉ p.toList := by simpa using hz
    simp [resolve, checkPath, hz', h, bind, Except.bind]

end Files

/-- The clean absolute paths that following a path from the working directory `cwd` visits: the
root and where each of its prefixes leads. -/
def visited (cwd p : String) : List String :=
  let full := if p.startsWith "/" then p else cwd ++ "/" ++ p
  let parts := full.splitOn "/"
  ("/" :: (List.range parts.length).map fun k =>
    cleanPath ("/" ++ "/".intercalate (parts.take (k + 1)))).eraseDups

end Command

end TreeArena
