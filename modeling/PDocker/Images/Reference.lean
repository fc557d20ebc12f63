import PDocker.Data.Text

/-!
# Image references

Every reference has one directory under IMAGES_DIR, whose name is the reference
with its slashes and colons replaced.
-/

set_option autoImplicit false

namespace PDocker.Images

open Data

def normalizeImage (name : Text) : Text :=
  if '@' ∈ name then name
  else
    let tagged := if ':' ∈ lastPart '/' name then name else name ++ ":latest".toList
    let repo := initParts ':' tagged
    let named := if '/' ∈ repo then repo else "library/".toList ++ repo
    let registry := firstPart '/' named
    let full :=
      if '.' ∈ registry ∨ ':' ∈ registry then named else "docker.io/".toList ++ named
    full ++ ':' :: lastPart ':' tagged

def imageToPath (name : Text) : Text :=
  name.map fun char => if char = '/' ∨ char = ':' then '_' else char

def pullMarker : Text := ".pull-".toList

def oldMarker : Text := ".old-".toList

theorem pullMarker_eq : pullMarker = ['.', 'p', 'u', 'l', 'l', '-'] := rfl

theorem oldMarker_eq : oldMarker = ['.', 'o', 'l', 'd', '-'] := rfl

theorem normalizeImage_ne_nil (name : Text) : normalizeImage name ≠ [] := by
  rw [normalizeImage]
  split
  · rename_i digest
    exact List.ne_nil_of_mem digest
  · exact List.append_ne_nil_of_right_ne_nil _ (List.cons_ne_nil _ _)

example : normalizeImage "ubuntu".toList = "docker.io/library/ubuntu:latest".toList := by decide

end PDocker.Images
