/-! # File identifiers

One file has one canonical identifier, however an import spells it: slashes instead of backslashes,
no `file:` scheme, no drive letter, no empty or dot segments.

Main definitions:

* `Path.normalize`, the canonical identifier of a spelling;
* `Path.isAbsolute`, whether a spelling depends on no directory;
* `Path.resolve`, the identifier of an import written in a file of some directory;
* `Path.directory`, the directory of an identifier. -/

namespace FrancaLint.Path

/-! ## Schemes and drives -/

/-- Turn backslashes into slashes. -/
def slashed (path : List Char) : List Char :=
  path.map fun c => if c = '\\' then '/' else c

/-- The letters that count as an `i` when case does not matter: with and without a dot, small and
capital. -/
def isAnyI (c : Char) : Bool :=
  c == 'i' || c == 'I' || c == 'ı' || c == 'İ'

/-- Drop a leading `file:`, in whatever case. -/
def dropScheme : List Char → List Char
  | f :: i :: l :: e :: ':' :: rest =>
      if (f == 'f' || f == 'F') && isAnyI i && (l == 'l' || l == 'L') && (e == 'e' || e == 'E')
      then rest else f :: i :: l :: e :: ':' :: rest
  | path => path

/-- A drive name ends the path, up to a final line feed, or has a slash behind it. -/
def endsDrive : List Char → Bool
  | [] => true
  | ['\n'] => true
  | '/' :: _ => true
  | _ => false

/-- What follows a leading drive name, which is a letter and a colon, possibly behind a slash. -/
def afterDrive? (path : List Char) : Option (List Char) :=
  let body := match path with
    | '/' :: rest => rest
    | path => path
  match body with
  | letter :: ':' :: rest => if letter.isAlpha && endsDrive rest then some rest else none
  | _ => none

/-- Keep one slash of every run of slashes. -/
def collapseSlashes : List Char → List Char
  | '/' :: '/' :: rest => collapseSlashes ('/' :: rest)
  | c :: rest => c :: collapseSlashes rest
  | [] => []

/-! ## Segments -/

/-- The texts between slashes. -/
def segments : List Char → List (List Char)
  | [] => [[]]
  | c :: rest =>
      if c = '/' then [] :: segments rest
      else
        match segments rest with
        | first :: more => (c :: first) :: more
        | [] => [[c]]

/-- The segment of the directory itself. -/
def here : List Char :=
  ['.']

/-- The segment of the directory above. -/
def above : List Char :=
  ['.', '.']

/-- Follow one segment from a directory, whose segments are listed innermost first. Above the root
is the root. -/
def follow (absolute : Bool) (inner : List (List Char)) (segment : List Char) :
    List (List Char) :=
  if segment = [] ∨ segment = here then inner
  else if segment = above then
    match inner with
    | [] => if absolute then [] else [above]
    | last :: rest => if last = above then above :: inner else rest
  else segment :: inner

/-- Follow several segments. -/
def followAll (absolute : Bool) (inner path : List (List Char)) : List (List Char) :=
  path.foldl (follow absolute) inner

/-- Join segments by slashes. -/
def join (path : List (List Char)) : List Char :=
  ['/'].intercalate path

/-- The path starts at the root. -/
def isRooted : List Char → Bool
  | '/' :: _ => true
  | _ => false

/-- The spelling of a path without empty, `.` and avoidable `..` segments. -/
def fold (path : List Char) : List Char :=
  let body := join (followAll (isRooted path) [] (segments path)).reverse
  if isRooted path then '/' :: body
  else if body.isEmpty then here
  else body

/-! ## Identifiers -/

/-- Drop the scheme, repeated slashes and the drive. -/
def bare (path : List Char) : List Char :=
  let plain := collapseSlashes (dropScheme (slashed path))
  (afterDrive? plain).getD plain

/-- Put a slash in front of a path, unless it has one. -/
def rooted (path : List Char) : List Char :=
  if isRooted path then path else '/' :: path

/-- The canonical spelling of a path. What follows a drive at the very start is absolute. -/
def normalizeChars (path : List Char) : List Char :=
  fold (if (afterDrive? (slashed path)).isSome then rooted (bare path) else bare path)

/-- The spelling depends on no directory. -/
def isAbsoluteChars (path : List Char) : Bool :=
  let rest := dropScheme (slashed path)
  (afterDrive? rest).isSome || isRooted rest

/-- Drop the slashes and backslashes at the end of a path. -/
def trimEnd (path : List Char) : List Char :=
  (path.reverse.dropWhile fun c => c == '/' || c == '\\').reverse

/-- The canonical spelling of an import, relative to a directory unless it is absolute. -/
def resolveChars (uri base : List Char) : List Char :=
  if isAbsoluteChars uri then normalizeChars uri
  else normalizeChars (trimEnd base ++ '/' :: dropScheme uri)

/-- The canonical identifier of a spelling. -/
def normalize (path : String) : String :=
  String.ofList (normalizeChars path.toList)

/-- The spelling depends on no directory. -/
def isAbsolute (uri : String) : Bool :=
  isAbsoluteChars uri.toList

/-- The identifier of an import that is written in a file of some directory. -/
def resolve (uri base : String) : String :=
  String.ofList (resolveChars uri.toList base.toList)

/-- The text in front of the last slash, empty if there is none. -/
def beforeLastSlash (path : List Char) : List Char :=
  ((path.reverse.dropWhile (· != '/')).drop 1).reverse

/-- The directory that holds a file; files without one are in the root directory. -/
def directory (path : String) : String :=
  let before := beforeLastSlash path.toList
  if before.isEmpty then "/" else String.ofList before

end FrancaLint.Path
