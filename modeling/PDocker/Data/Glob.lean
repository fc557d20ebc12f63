import PDocker.Data.Text

/-!
# Glob patterns

A pattern is a list of items, each of which takes one character or a run of
characters of a kind.
-/

set_option autoImplicit false

namespace PDocker.Data

inductive GlobItem where
  | one (allowed : Char → Bool)
  | many (allowed : Char → Bool)

namespace Glob

def oneThen (allowed : Char → Bool) (rest : Text → Bool) : Text → Bool
  | [] => false
  | char :: text => allowed char && rest text

def manyThen (allowed : Char → Bool) (rest : Text → Bool) : Text → Bool
  | [] => rest []
  | char :: text => rest (char :: text) || (allowed char && manyThen allowed rest text)

def accepts : List GlobItem → Text → Bool
  | [] => List.isEmpty
  | .one allowed :: items => oneThen allowed (accepts items)
  | .many allowed :: items => manyThen allowed (accepts items)

end Glob

def fnmatchClass (text : Text) : Option Text :=
  let start := if text.head? = some '!' then 1 else 0
  let start := if text[start]? = some ']' then start + 1 else start
  let stop := start + ((text.drop start).takeWhile (· ≠ ']')).length
  if stop < text.length then some (text.take stop) else none

def fnmatchMember : Text → Char → Bool
  | first :: '-' :: last :: rest, char => (first ≤ char && char ≤ last) || fnmatchMember rest char
  | first :: rest, char => char = first || fnmatchMember rest char
  | [], _ => false

def fnmatchAllows : Text → Char → Bool
  | '!' :: members, char => !fnmatchMember members char
  | members, char => fnmatchMember members char

/-- The items of a pattern, of which the first `skip` characters belong to a class. -/
def fnmatchFrom : Nat → Text → List GlobItem
  | _, [] => []
  | skip + 1, _ :: rest => fnmatchFrom skip rest
  | 0, '*' :: rest => .many (fun _ => true) :: fnmatchFrom 0 rest
  | 0, '?' :: rest => .one (fun _ => true) :: fnmatchFrom 0 rest
  | 0, '[' :: rest =>
      match fnmatchClass rest with
      | none => .one (· = '[') :: fnmatchFrom 0 rest
      | some members => .one (fnmatchAllows members) :: fnmatchFrom (members.length + 1) rest
  | 0, char :: rest => .one (· = char) :: fnmatchFrom 0 rest

/-- `fnmatch.fnmatchcase(name, pattern)` -/
def fnmatchcase (name pattern : Text) : Bool := Glob.accepts (fnmatchFrom 0 pattern) name

end PDocker.Data
