/-!
# File paths

A path is a root, which may be empty, and the names on the way. Empty names and single dots count
for nothing; double dots stay, since what they mean depends on the files there are.

## Main definitions

* `FilePath`: paths
* `FilePath.ofText`, `FilePath.shown`: their text
* `FilePath.name`: the last name
* `FilePath.expandHome`: the home directory for a leading tilde
* `FilePath.within`: a path as seen from a directory
* `FilePath.made`: the places on the way to a path, as far as they can be made
-/

namespace ChatCommands

/-- A root and the names on the way. -/
structure FilePath where
  root : String
  parts : List String
  deriving DecidableEq, Repr, Inhabited

namespace FilePath

/-- The root of a text: two slashes are a root of their own, any other number is one slash. -/
def rootOf (s : String) : String :=
  match (s.toList.takeWhile (· = '/')).length with
  | 0 => ""
  | 2 => "//"
  | _ => "/"

/-- The path of a text. -/
def ofText (s : String) : FilePath where
  root := rootOf s
  parts := (s.splitOn "/").filter fun p => p ≠ "" && p ≠ "."

/-- The text of a path. -/
def shown (p : FilePath) : String :=
  if p.root = "" && p.parts.isEmpty then "." else p.root ++ "/".intercalate p.parts

/-- The last name, or none. -/
def name (p : FilePath) : String := p.parts.getLast?.getD ""

/-- A path continued by a name. -/
def child (p : FilePath) (name : String) : FilePath := { p with parts := p.parts ++ [name] }

/-- The homes of the accounts that every system has, by the names of their owners. -/
def knownHomes : List (String × String) :=
  [("~root", "/root"), ("~daemon", "/usr/sbin"), ("~bin", "/bin"), ("~sys", "/dev"),
    ("~sync", "/bin"), ("~games", "/usr/games"), ("~man", "/var/cache/man"),
    ("~lp", "/var/spool/lpd"), ("~mail", "/var/mail"), ("~news", "/var/spool/news"),
    ("~uucp", "/var/spool/uucp"), ("~proxy", "/bin"), ("~www-data", "/var/www"),
    ("~backup", "/var/backups"), ("~list", "/var/list"), ("~nobody", "/nonexistent")]

/-- The path with the home directory for a leading tilde; a home without a name is the root. -/
def expandHome (home : String) (p : FilePath) : Option FilePath :=
  match p.parts with
  | [] => some p
  | first :: rest =>
    if p.root = "" && first.startsWith "~" then
      let h := if home.toList.all (· = '/') then ⟨"/", []⟩ else ofText home
      if first = "~" && !home.startsWith "~" then some { h with parts := h.parts ++ rest }
      else
        (knownHomes.lookup first).map fun known =>
          { ofText known with parts := (ofText known).parts ++ rest }
    else some p

/-- The names with each double dot taking back the name before it; above the root there is
nothing. -/
def resolveDots (parts : List String) : List String :=
  (parts.foldl (fun (acc : List String) p => if p = ".." then acc.tail else p :: acc) []).reverse

/-- A path as seen from a directory. -/
def within (directory p : FilePath) : FilePath :=
  if p.root = "" then { directory with parts := resolveDots (directory.parts ++ p.parts) }
  else { p with parts := resolveDots p.parts }

/-- The most bytes of a name. -/
def longestName : Nat := 255

/-- The most bytes of a path. -/
def longestPath : Nat := 4095

/-- How far one gets on the way to a path from a directory when every directory on the way is made:
the places passed, the first of them the start, up to a plain file or a name that is too long. -/
def made (directory p : FilePath) (plainFiles : List FilePath) : List FilePath :=
  if longestPath < p.shown.utf8ByteSize then []
  else
    let ways := (List.range (p.parts.length + 1)).map fun k => p.parts.take k
    let passable (names : List String) : Bool :=
      (names.getLast?.getD "").utf8ByteSize ≤ longestName &&
        !plainFiles.contains (directory.within { p with parts := names })
    (ways.takeWhile passable).map fun names => directory.within { p with parts := names }

/-- Whether every directory on the way to a path can be made. -/
def canBeMade (directory p : FilePath) (plainFiles : List FilePath) : Bool :=
  (made directory p plainFiles).length = p.parts.length + 1

end FilePath

end ChatCommands
