import PDocker.Data.Text

/-!
# Path strings

A path string is read as the list of its components, cut at the slashes; empty
components and dots are kept until something interprets them.
-/

set_option autoImplicit false

namespace PDocker.Posix

abbrev Name := List Char

/-- Components from the root. A physical path names an object without
traversing any symbolic link. -/
abbrev Path := List Name

def dot : Name := ['.']
def dotdot : Name := ['.', '.']

def PlainName (name : Name) : Prop :=
  name ≠ [] ∧ name ≠ dot ∧ name ≠ dotdot ∧ '/' ∉ name

instance : DecidablePred PlainName :=
  fun _ => inferInstanceAs (Decidable (_ ∧ _ ∧ _ ∧ _))

/-- `text.split("/")` -/
def splitSlash : List Char → List Name
  | [] => [[]]
  | char :: rest =>
      if char = '/' then [] :: splitSlash rest
      else
        match splitSlash rest with
        | [] => [[char]]
        | first :: more => (char :: first) :: more

def pathOf (text : String) : Path := splitSlash text.toList

end PDocker.Posix
