import PDocker.Posix.Confine

/-!
# Walks that meet no link

Without links a path string can be read from left to right: a name goes down,
`..` goes up. Where a tree is known to have no links, the kernel finds an
object there or nowhere.
-/

set_option autoImplicit false

namespace PDocker.Posix

def goTo (cur : Path) (name : Name) : Path :=
  if name = [] ∨ name = dot then cur
  else if name = dotdot then cur.dropLast
  else cur ++ [name]

def place (raw : List Name) : Path := raw.foldl goTo []

@[simp] theorem place_concat (raw : List Name) (name : Name) :
    place (raw ++ [name]) = goTo (place raw) name := by
  simp [place]

variable {name : Name} {path : Path}

theorem goTo_of_plain {cur : Path} (plain : PlainName name) : goTo cur name = cur ++ [name] := by
  simp [goTo, plain.1, plain.2.1, plain.2.2.1]

theorem place_concat_plain {raw : List Name} (plain : PlainName name) :
    place (raw ++ [name]) = place raw ++ [name] := by
  rw [place_concat, goTo_of_plain plain]

theorem place_of_plain (plain : ∀ name ∈ path, PlainName name) : place path = path := by
  induction path using List.reverseRecOn with
  | nil => rfl
  | append_singleton path name ih =>
      rw [place_concat_plain (plain name (by simp)), ih fun other member => plain other (by simp [member])]

/-- The components as `makedirs` sees them. -/
def stripDots (raw : List Name) : List Name := raw.filter fun name => name ≠ [] ∧ name ≠ dot

theorem stripDots_of_plain (plain : ∀ name ∈ path, PlainName name) : stripDots path = path := by
  apply List.filter_eq_self.mpr
  intro name member
  simp [(plain name member).1, (plain name member).2.1]

theorem exists_prefix_of_stripDots {raw first : List Name} (below : first <+: stripDots raw) :
    ∃ longer, longer <+: raw ∧ place longer = place first := by
  suffices walk : ∀ (raw first : List Name) (cur : Path), first <+: stripDots raw →
      ∃ longer, longer <+: raw ∧ longer.foldl goTo cur = first.foldl goTo cur from
    walk raw first [] below
  intro raw
  induction raw with
  | nil =>
      intro first cur below
      exact ⟨[], List.nil_prefix, by rw [List.prefix_nil.mp below]⟩
  | cons name rest ih =>
      intro first cur below
      by_cases stays : name = [] ∨ name = dot
      · have shorter : stripDots (name :: rest) = stripDots rest := by
          rcases stays with blank | dots
          · simp [stripDots, blank]
          · simp [stripDots, dots]
        rw [shorter] at below
        obtain ⟨longer, inside, same⟩ := ih first cur below
        refine ⟨name :: longer, (List.prefix_cons_inj _).mpr inside, ?_⟩
        rw [List.foldl_cons, goTo, if_pos stays]
        exact same
      · have longer : stripDots (name :: rest) = name :: stripDots rest := by
          simp [stripDots, not_or.mp stays]
        rw [longer] at below
        cases first with
        | nil => exact ⟨[], List.nil_prefix, rfl⟩
        | cons head first =>
            obtain ⟨rfl, shorter⟩ := List.cons_prefix_cons.mp below
            obtain ⟨longer, inside, same⟩ := ih first (goTo cur head) shorter
            exact ⟨head :: longer, (List.prefix_cons_inj _).mpr inside, same⟩

/-- `after` is `before` with more directories and files, at `touched` paths. -/
structure Grown (touched : Path → Prop) (before after : FS) : Prop where
  kept : ∀ path entry, before.get path = some entry → after.get path = some entry
  made : ∀ path entry, after.get path = some entry →
    before.get path = some entry ∨ touched path ∧ entry.isSymlink = false

namespace Grown

variable {touched : Path → Prop} {first second third : FS}

theorem refl (touched : Path → Prop) (fs : FS) : Grown touched fs fs :=
  ⟨fun _ _ found => found, fun _ _ found => .inl found⟩

theorem trans (left : Grown touched first second) (right : Grown touched second third) :
    Grown touched first third where
  kept path entry found := right.kept path entry (left.kept path entry found)
  made path entry found := by
    cases right.made path entry found with
    | inl earlier => exact left.made path entry earlier
    | inr late => exact .inr late

variable {path : Path}

theorem isSymlinkAt (grown : Grown touched first second)
    (notLink : first.isSymlinkAt path = false) : second.isSymlinkAt path = false := by
  cases found : second.get path with
  | none => exact FS.isSymlinkAt_of_get_none found
  | some entry =>
      rw [FS.isSymlinkAt_of_get found]
      cases grown.made path entry found with
      | inl earlier => rwa [FS.isSymlinkAt_of_get earlier] at notLink
      | inr late => exact late.2

theorem get_eq (grown : Grown touched first second) (free : ¬ touched path) :
    second.get path = first.get path := by
  cases found : first.get path with
  | some entry => exact grown.kept path entry found
  | none =>
      cases present : second.get path with
      | none => rfl
      | some entry =>
          cases grown.made path entry present with
          | inl earlier => rw [found] at earlier; cases earlier
          | inr late => exact absurd late.1 free

end Grown

namespace FS

variable {fs : FS} {raw : List Name} {kept touched : Path → Prop}

theorem namei_eq_place {follow : Bool} {path : Path}
    (noLink : ∀ path, kept path → fs.isSymlinkAt path = false)
    (stays : ∀ first, first <+: raw → kept (place first))
    (located : fs.namei raw follow = some path) : path = place raw := by
  suffices walk : ∀ (raw : List Name) (cur : Path),
      (∀ first, first <+: raw → kept (first.foldl goTo cur)) →
      ∀ onLink, fs.walkComps follow onLink cur raw = some path → path = raw.foldl goTo cur by
    simp only [namei, maxSymlinks, resolveFrom] at located
    exact walk raw [] stays _ located
  intro raw
  induction raw with
  | nil =>
      intro cur _ onLink located
      exact (Option.some.inj located).symm
  | cons name rest ih =>
      intro cur stays onLink located
      have later : ∀ first, first <+: rest → kept (first.foldl goTo (goTo cur name)) :=
        fun first below => stays (name :: first) ((List.prefix_cons_inj _).mpr below)
      have here := noLink _ (later [] List.nil_prefix)
      rw [walkComps] at located
      rw [List.foldl_cons]
      simp only [List.foldl_nil, goTo] at here later ⊢
      split at located
      · rename_i blank
        simp only [blank, ↓reduceIte] at later ⊢
        exact ih cur later onLink located
      rename_i filled
      split at located
      · rename_i up
        simp only [if_neg filled, if_pos up] at later ⊢
        exact ih cur.dropLast later onLink located
      rename_i down
      simp only [filled, down, ↓reduceIte] at here later ⊢
      cases found : fs.get (cur ++ [name]) with
      | none =>
          rw [found] at located
          dsimp only at located
          split at located
          · rename_i last
            rw [last, ← Option.some.inj located]
            rfl
          · cases located
      | some entry =>
          rw [found] at located
          cases entry with
          | dir mode => exact ih (cur ++ [name]) later onLink located
          | file ino =>
              dsimp only at located
              split at located
              · rename_i last
                rw [last, ← Option.some.inj located]
                rfl
              · cases located
          | symlink target =>
              rw [isSymlinkAt_of_get found] at here
              cases here

variable {entry : Entry} {after : FS} {path : Path}

theorem grown_add {parent : Path} {name : Name} (notLink : entry.isSymlink = false)
    (free : fs.get (parent ++ [name]) = none) (inside : touched (parent ++ [name])) :
    Grown touched fs (fs.add parent name entry) where
  kept other present found := by
    rw [get_add_of_ne, found]
    intro same
    rw [same, free] at found
    cases found
  made other present found := by
    by_cases same : other = parent ++ [name]
    · subst same
      unfold add at found
      split at found
      · simp only [get, lookup_cons_path, ↓reduceIte, Option.some.injEq] at found
        exact .inr ⟨inside, found ▸ notLink⟩
      · exact .inl found
    · rw [get_add_of_ne same] at found
      exact .inl found

theorem grown_create (made : fs.create path entry = some after)
    (notLink : entry.isSymlink = false) (missing : fs.get path = none → touched path) :
    Grown touched fs after := by
  unfold create at made
  split at made
  · cases made
  rename_i name last
  split at made
  · rename_i fits
    obtain ⟨parent, rfl⟩ := List.getLast?_eq_some_iff.mp last
    rw [List.dropLast_concat] at made
    cases made
    exact grown_add notLink fits.2.1 (missing fits.2.1)
  · cases made

/-- A path string on which no link is met, and what is missing there. -/
structure OnWay (fs : FS) (kept touched : Path → Prop) (raw : List Name) : Prop where
  noLink : ∀ path, kept path → fs.isSymlinkAt path = false
  stays : ∀ first, first <+: raw → kept (place first)
  missing : ∀ first, first <+: raw → fs.get (place first) = none → touched (place first)

variable (onWay : OnWay fs kept touched raw)

include onWay

theorem OnWay.of_grown {now : FS} (grown : Grown touched fs now) : OnWay now kept touched raw where
  noLink path inside := grown.isSymlinkAt (onWay.noLink path inside)
  stays := onWay.stays
  missing first below gone := by
    apply onWay.missing first below
    cases found : fs.get (place first) with
    | none => rfl
    | some entry => rw [grown.kept _ _ found] at gone; cases gone

theorem OnWay.above {first : List Name} (below : first <+: raw) : OnWay fs kept touched first :=
  ⟨onWay.noLink, fun other inside => onWay.stays other (inside.trans below),
    fun other inside => onWay.missing other (inside.trans below)⟩

theorem OnWay.located {follow : Bool} (located : fs.namei raw follow = some path) : path = place raw :=
  namei_eq_place onWay.noLink onWay.stays located

theorem OnWay.mkdir (made : fs.mkdir raw = some after) : Grown touched fs after := by
  obtain ⟨path, located, made⟩ := Option.bind_eq_some_iff.mp made
  rw [onWay.located located] at made
  exact grown_create made rfl (onWay.missing raw (List.prefix_refl _))

theorem OnWay.makedirs : Grown touched fs (fs.makedirs raw).1 := by
  suffices loop : ∀ reversed, OnWay fs kept touched reversed.reverse →
      Grown touched fs (fs.makedirsRev reversed).1 from
    loop raw.reverse (by rwa [List.reverse_reverse])
  intro reversed
  induction reversed with
  | nil => exact fun _ => .refl touched fs
  | cons name above ih =>
      intro onWay
      have parent : above.reverse <+: (name :: above).reverse := by
        rw [List.reverse_cons]
        exact List.prefix_append _ _
      have prepared : Grown touched fs
          (if fs.pathExists above.reverse then fs else (fs.makedirsRev above).1) := by
        split
        · exact .refl touched fs
        · exact ih (onWay.above parent)
      rw [makedirsRev]
      split
      · rename_i after made
        exact prepared.trans ((onWay.of_grown prepared).mkdir made)
      · exact prepared

omit onWay

theorem OnWay.writeFile {content : List UInt8} (onWay : OnWay fs kept touched raw) :
    Grown touched fs ((fs.writeFile raw content).getD fs) := by
  unfold FS.writeFile
  cases located : fs.namei raw true with
  | none => exact .refl touched fs
  | some path =>
      rw [Option.bind_some, onWay.located located]
      cases found : fs.get (place raw) with
      | none =>
          dsimp only
          cases made : (fs.allocate ⟨fs.newFileMode, content⟩).create (place raw)
              (.file fs.inodes.length) with
          | none => exact .refl touched fs
          | some after =>
              have grown := grown_create made rfl fun _ => onWay.missing raw (List.prefix_refl _) found
              exact ⟨grown.kept, grown.made⟩
      | some entry =>
          cases entry with
          | dir mode | symlink target => exact .refl touched fs
          | file ino => exact ⟨fun _ _ present => present, fun _ _ present => .inl present⟩

theorem OnWay.rmtree (onWay : OnWay fs kept touched raw) : Shrunk (place raw) fs (fs.rmtree raw) := by
  apply shrunk_rmtree
  intro path located _
  rw [onWay.located located]

end FS

end PDocker.Posix
