import PDocker.Posix.Update

/-!
# Union of trees by whiteouts

A tree is any partial map from paths to entries of which some are directories.
An upper tree may hold markers: `.wh.<name>` hides one name of its directory,
`.wh..wh..opq` hides everything a lower tree has in its directory. The overlay
of an upper on a lower tree shows an upper entry wherever there is one, and a
lower entry wherever nothing above it is hidden or replaced.
-/

set_option autoImplicit false

namespace PDocker.Overlay

open Posix (Name Path)

def whiteoutPrefix : Name := ['.', 'w', 'h', '.']

def opaqueMarker : Name := ['.', 'w', 'h', '.', '.', 'w', 'h', '.', 'o', 'p', 'q']

def isMarker (name : Name) : Bool := whiteoutPrefix.isPrefixOf name

def hasMarker (path : Path) : Bool := path.any isMarker

abbrev View (α : Type) := Path → Option α

section
variable {α : Type}

/-- The marker that hides `name` in the directory `above`. -/
def whiteoutAt (upper : View α) (above : Path) (name : Name) : Bool :=
  (upper (above ++ [whiteoutPrefix ++ name])).isSome

def opaqueAt (upper : View α) (above : Path) : Bool :=
  (upper (above ++ [opaqueMarker])).isSome

/-- Some component of `steps`, walked from `above`, is whited out or lies in an
opaque directory. -/
def hiddenFrom (upper : View α) : Path → List Name → Bool
  | _, [] => false
  | above, name :: rest =>
      whiteoutAt upper above name || opaqueAt upper above || hiddenFrom upper (above ++ [name]) rest

def hidden (upper : View α) (path : Path) : Bool := hiddenFrom upper [] path

/-- Some proper ancestor of `steps`, walked from `above`, is an upper entry
that is not a directory. -/
def shadowedFrom (isDir : α → Bool) (upper : View α) : Path → List Name → Bool
  | _, [] => false
  | above, name :: rest =>
      (upper above).any (fun entry => !isDir entry) || shadowedFrom isDir upper (above ++ [name]) rest

def shadowed (isDir : α → Bool) (upper : View α) (path : Path) : Bool :=
  shadowedFrom isDir upper [] path

def overlay (isDir : α → Bool) (upper lower : View α) : View α := fun path =>
  if hasMarker path then none
  else
    match upper path with
    | some entry => some entry
    | none => if hidden upper path || shadowed isDir upper path then none else lower path

def overlayAll (isDir : α → Bool) (layers : List (View α)) (base : View α) : View α :=
  layers.foldl (fun lower upper => overlay isDir upper lower) base

/-! ## Characterisations -/

variable {isDir : α → Bool} {upper lower : View α}

variable {above steps path rest : Path} {name : Name} {base : View α} {layers : List (View α)}

theorem hiddenFrom_iff : hiddenFrom upper above steps = true ↔
      ∃ between name rest, steps = between ++ name :: rest ∧
        (whiteoutAt upper (above ++ between) name = true ∨
          opaqueAt upper (above ++ between) = true) := by
  induction steps generalizing above with
  | nil => simp [hiddenFrom]
  | cons name rest ih =>
      simp only [hiddenFrom, Bool.or_eq_true, ih]
      constructor
      · rintro (here | ⟨between, last, tail, rfl, marker⟩)
        · exact ⟨[], name, rest, rfl, by simpa using here⟩
        · exact ⟨name :: between, last, tail, rfl, by simpa using marker⟩
      rintro ⟨between, last, tail, shape, marker⟩
      cases between with
      | nil =>
          obtain ⟨rfl, rfl⟩ := List.cons.inj shape
          exact .inl (by simpa using marker)
      | cons first between =>
          obtain ⟨rfl, rfl⟩ := List.cons.inj shape
          exact .inr ⟨between, last, tail, rfl, by simpa using marker⟩

theorem hidden_iff : hidden upper path = true ↔ ∃ above name rest, path = above ++ name :: rest ∧
        (whiteoutAt upper above name = true ∨ opaqueAt upper above = true) :=
  hiddenFrom_iff

/-- A marker of the directory `above` hides `path`. -/
def HiddenBy (upper : View α) (above path : Path) : Prop :=
  ∃ name rest, path = above ++ name :: rest ∧
    (whiteoutAt upper above name = true ∨ opaqueAt upper above = true)

theorem hidden_iff_hiddenBy : hidden upper path = true ↔ ∃ above, HiddenBy upper above path :=
  hidden_iff

theorem shadowedFrom_iff : shadowedFrom isDir upper above steps = true ↔
      ∃ between rest entry, steps = between ++ rest ∧ rest ≠ [] ∧
        upper (above ++ between) = some entry ∧ isDir entry = false := by
  induction steps generalizing above with
  | nil => simp [shadowedFrom]
  | cons name rest ih =>
      simp only [shadowedFrom, Bool.or_eq_true, ih, Option.any_eq_true, Bool.not_eq_true']
      constructor
      · rintro (⟨entry, found, leaf⟩ | ⟨between, tail, entry, rfl, proper, found, leaf⟩)
        · exact ⟨[], name :: rest, entry, rfl, by simp, by simpa using found, leaf⟩
        · exact ⟨name :: between, tail, entry, rfl, proper, by simpa using found, leaf⟩
      rintro ⟨between, tail, entry, shape, proper, found, leaf⟩
      cases between with
      | nil => exact .inl ⟨entry, by simpa using found, leaf⟩
      | cons first between =>
          obtain ⟨rfl, rfl⟩ := List.cons.inj shape
          exact .inr ⟨between, tail, entry, rfl, proper, by simpa using found, leaf⟩

theorem shadowed_iff : shadowed isDir upper path = true ↔
      ∃ above rest entry, path = above ++ rest ∧ rest ≠ [] ∧
        upper above = some entry ∧ isDir entry = false :=
  shadowedFrom_iff

@[simp] theorem hidden_nil : hidden upper [] = false := rfl

@[simp] theorem shadowed_nil : shadowed isDir upper [] = false := rfl

@[simp] theorem hasMarker_nil : hasMarker [] = false := rfl

theorem hasMarker_append : hasMarker (path ++ rest) = (hasMarker path || hasMarker rest) := by
  simp [hasMarker]

theorem hasMarker_singleton : hasMarker [name] = isMarker name := by
  simp [hasMarker]

theorem overlay_of_upper {entry : α} (plain : hasMarker path = false)
    (found : upper path = some entry) : overlay isDir upper lower path = some entry := by
  simp [overlay, plain, found]

theorem overlay_of_not_upper (plain : hasMarker path = false) (missing : upper path = none) :
    overlay isDir upper lower path =
      if hidden upper path || shadowed isDir upper path then none else lower path := by
  simp [overlay, plain, missing]

theorem overlay_of_hasMarker (marked : hasMarker path = true) :
    overlay isDir upper lower path = none := by
  simp [overlay, marked]

@[simp] theorem overlayAll_nil (base : View α) : overlayAll isDir [] base = base := rfl

@[simp] theorem overlayAll_cons (layer : View α) (layers : List (View α)) (base : View α) :
    overlayAll isDir (layer :: layers) base = overlayAll isDir layers (overlay isDir layer base) := rfl

theorem overlayAll_append (first second : List (View α)) (base : View α) :
    overlayAll isDir (first ++ second) base =
      overlayAll isDir second (overlayAll isDir first base) := by
  simp [overlayAll]

theorem overlayAll_congr_base {other : View α} (same : base path = other path) :
    overlayAll isDir layers base path = overlayAll isDir layers other path := by
  induction layers generalizing base other with
  | nil => exact same
  | cons layer layers ih =>
      apply ih
      simp only [overlay, same]

theorem overlayAll_of_hasMarker (marked : hasMarker path = true) (absent : base path = none) :
    overlayAll isDir layers base path = none := by
  induction layers generalizing base with
  | nil => exact absent
  | cons layer layers ih => exact ih (overlay_of_hasMarker marked)

theorem isMarker_append (name : Name) : isMarker (whiteoutPrefix ++ name) = true := by
  simp [isMarker, List.isPrefixOf_iff_prefix]

theorem eq_whiteout_of_isMarker (marker : isMarker name = true) :
    name = whiteoutPrefix ++ name.drop whiteoutPrefix.length := by
  obtain ⟨rest, rfl⟩ := List.isPrefixOf_iff_prefix.mp marker
  simp

end

end PDocker.Overlay
