import PDocker.Posix.Lexical

/-!
# Walks over names to be made

`makedirs` makes what is missing on the way. `ahead` walks a path string in the
tree before, as if every missing name were a new directory, and lists these
names; the walk in the tree after ends where `ahead` does.
-/

set_option autoImplicit false

namespace PDocker.Posix

theorem Grown.frame {touched : Path → Prop} {fs now : FS} (grown : Grown touched fs now)
    (inodes : fs.inodes <+: now.inodes) : Frame touched fs now :=
  ⟨fun _ free => grown.get_eq free, inodes⟩

namespace FS

def aheadComps (fs : FS) (onLink : Path → List Name → List Path × Option Path) :
    Path → List Name → List Path × Option Path
  | cur, [] => ([], some cur)
  | cur, name :: rest =>
      if name = [] ∨ name = dot then aheadComps fs onLink cur rest
      else if name = dotdot then aheadComps fs onLink cur.dropLast rest
      else
        match fs.get (cur ++ [name]) with
        | none =>
            let later := aheadComps fs onLink (cur ++ [name]) rest
            ((cur ++ [name]) :: later.1, later.2)
        | some (.dir _) => aheadComps fs onLink (cur ++ [name]) rest
        | some (.symlink target) =>
            if rest = [] then ([], some (cur ++ [name]))
            else onLink (if target.absolute then [] else cur) (target.comps ++ rest)
        | some (.file _) => ([], if rest = [] then some (cur ++ [name]) else none)

def aheadFrom (fs : FS) : Nat → Path → List Name → List Path × Option Path
  | 0 => fs.aheadComps fun _ _ => ([], none)
  | links + 1 => fs.aheadComps (fs.aheadFrom links)

def ahead (fs : FS) (raw : List Name) : List Path × Option Path := fs.aheadFrom maxSymlinks [] raw

section
variable {fs now : FS} {raw : List Name} {touched : Path → Prop}

theorem aheadComps_plain {onLink : Path → List Name → List Path × Option Path} {cur : Path}
    {name : Name} {rest : List Name} (plain : PlainName name) :
    fs.aheadComps onLink cur (name :: rest) =
      match fs.get (cur ++ [name]) with
      | none =>
          ((cur ++ [name]) :: (fs.aheadComps onLink (cur ++ [name]) rest).1,
            (fs.aheadComps onLink (cur ++ [name]) rest).2)
      | some (.dir _) => fs.aheadComps onLink (cur ++ [name]) rest
      | some (.symlink target) =>
          if rest = [] then ([], some (cur ++ [name]))
          else onLink (if target.absolute then [] else cur) (target.comps ++ rest)
      | some (.file _) => ([], if rest = [] then some (cur ++ [name]) else none) := by
  rw [aheadComps, if_neg (by simp [plain.1, plain.2.1]), if_neg plain.2.2.1]

variable {top path : Path} {onLink' : Path → List Name → List Path × Option Path}
  {onLink : Path → List Name → Option Path} {after : FS} {entry : Entry}

theorem ahead_append_dir {rest : List Name} (directory : fs.isDirAt top = true) :
    fs.ahead (top ++ rest) = fs.aheadFrom maxSymlinks top rest := by
  suffices loop : ∀ (steps : List Name) (cur : Path) (onLink : Path → List Name → List Path × Option Path),
      fs.isDirAt (cur ++ steps) = true →
        fs.aheadComps onLink cur (steps ++ rest) = fs.aheadComps onLink (cur ++ steps) rest from
    loop top [] _ directory
  intro steps
  induction steps with
  | nil => simp
  | cons name steps ih =>
      intro cur onLink directory
      rw [← List.singleton_append, ← List.append_assoc] at directory
      obtain ⟨mode, found⟩ := isDirAt_iff.mp (isDirAt_above directory (List.prefix_append _ _))
      rw [List.cons_append, aheadComps_plain (plainName_of_get found (by simp)), found]
      simpa using ih (cur ++ [name]) onLink directory

theorem ahead_child {name : Name} (directory : fs.isDirAt top = true) (plain : PlainName name) :
    fs.ahead (top ++ [name]) =
      (if fs.get (top ++ [name]) = none then [top ++ [name]] else [], some (top ++ [name])) := by
  rw [ahead_append_dir directory]
  simp only [maxSymlinks, aheadFrom]
  rw [aheadComps_plain plain]
  cases found : fs.get (top ++ [name]) with
  | none => simp [aheadComps]
  | some entry => cases entry <;> simp [aheadComps]

private theorem aheadComps_prefix {onLink : Path → List Name → List Path × Option Path}
    (links : ∀ cur first raw, first <+: raw → (onLink cur first).1 ⊆ (onLink' cur raw).1)
    (first raw : List Name) (cur : Path) (below : first <+: raw) :
    (fs.aheadComps onLink cur first).1 ⊆ (fs.aheadComps onLink' cur raw).1 := by
  induction first generalizing raw cur with
  | nil => exact List.nil_subset _
  | cons name first ih =>
      obtain ⟨more, rfl⟩ := below
      have shorter : first <+: first ++ more := List.prefix_append _ _
      rw [List.cons_append, aheadComps, aheadComps]
      split
      · exact ih _ cur shorter
      split
      · exact ih _ cur.dropLast shorter
      cases found : fs.get (cur ++ [name]) with
      | none => exact List.cons_subset_cons _ (ih _ _ shorter)
      | some entry =>
          cases entry with
          | dir mode => exact ih _ _ shorter
          | file ino => exact List.nil_subset _
          | symlink target =>
              by_cases last : first = []
              · simp [last]
              · have longer : first ++ more ≠ [] := by simp [last]
                simp only [last, longer, ↓reduceIte]
                exact links _ _ _ ((List.prefix_append_right_inj _).mpr shorter)

theorem ahead_of_less {first : List Name} (below : first <+: raw) :
    (fs.ahead first).1 ⊆ (fs.ahead raw).1 := by
  suffices budget : ∀ (links : Nat) (cur : Path) (first raw : List Name), first <+: raw →
      (fs.aheadFrom links cur first).1 ⊆ (fs.aheadFrom links cur raw).1 from
    budget maxSymlinks [] first raw below
  intro links
  induction links with
  | zero =>
      intro cur first raw below
      exact aheadComps_prefix (fun _ _ _ _ => List.nil_subset _) first raw cur below
  | succ links ih =>
      intro cur first raw below
      exact aheadComps_prefix (fun cur first raw => ih cur first raw) first raw cur below

private theorem walkComps_ahead (grown : Grown touched fs now)
    (links : ∀ cur raw, now.isDirAt cur = true → onLink cur raw = some path →
      (onLink' cur raw).2 = some path ∧ (now.get path = none → path ∈ (onLink' cur raw).1))
    (raw : List Name) (cur : Path) (directory : now.isDirAt cur = true)
    (located : now.walkComps false onLink cur raw = some path) :
    (fs.aheadComps onLink' cur raw).2 = some path ∧
      (now.get path = none → path ∈ (fs.aheadComps onLink' cur raw).1) := by
  induction raw generalizing cur with
  | nil =>
      cases located
      refine ⟨rfl, fun missing => ?_⟩
      rw [isDirAt, missing] at directory
      cases directory
  | cons name rest ih =>
      rw [walkComps] at located
      rw [aheadComps]
      by_cases stays : name = [] ∨ name = dot
      · rw [if_pos stays] at located ⊢
        exact ih cur directory located
      rw [if_neg stays] at located ⊢
      by_cases up : name = dotdot
      · rw [if_pos up] at located ⊢
        exact ih cur.dropLast (isDirAt_above directory (List.dropLast_prefix cur)) located
      rw [if_neg up] at located ⊢
      cases found : fs.get (cur ++ [name]) with
      | some entry =>
          rw [grown.kept _ _ found] at located
          cases entry with
          | dir mode =>
              exact ih (cur ++ [name]) (isDirAt_iff.mpr ⟨mode, grown.kept _ _ found⟩) located
          | file ino =>
              dsimp only at located ⊢
              split at located
              · rename_i last
                cases located
                refine ⟨by simp [last], fun missing => ?_⟩
                rw [grown.kept _ _ found] at missing
                cases missing
              · cases located
          | symlink target =>
              by_cases last : rest = []
              · simp only [last, true_and, ↓reduceIte] at located ⊢
                cases located
                refine ⟨rfl, fun missing => ?_⟩
                rw [grown.kept _ _ found] at missing
                cases missing
              · simp only [last, false_and, ↓reduceIte] at located ⊢
                refine links _ _ ?_ located
                split
                · exact isDirAt_root now
                · exact directory
      | none =>
          dsimp only
          have final : (if rest = [] then some (cur ++ [name]) else none) = some path →
              (fs.aheadComps onLink' (cur ++ [name]) rest).2 = some path ∧
                (now.get path = none → path ∈ (cur ++ [name]) ::
                  (fs.aheadComps onLink' (cur ++ [name]) rest).1) := by
            intro located
            split at located
            · rename_i last
              cases located
              subst last
              exact ⟨rfl, fun _ => List.mem_cons_self⟩
            · cases located
          cases present : now.get (cur ++ [name]) with
          | none =>
              rw [present] at located
              exact final located
          | some entry =>
              rw [present] at located
              cases entry with
              | dir mode =>
                  have later := ih (cur ++ [name]) (isDirAt_iff.mpr ⟨mode, present⟩) located
                  exact ⟨later.1, fun missing => List.mem_cons_of_mem _ (later.2 missing)⟩
              | file ino => exact final located
              | symlink target =>
                  cases grown.made _ _ present with
                  | inl earlier =>
                      rw [found] at earlier
                      cases earlier
                  | inr late => cases late.2

theorem namei_ahead (grown : Grown touched fs now) (located : now.namei raw false = some path) :
    (fs.ahead raw).2 = some path ∧ (now.get path = none → path ∈ (fs.ahead raw).1) := by
  suffices budget : ∀ (links : Nat) (cur : Path) (raw : List Name), now.isDirAt cur = true →
      now.resolveFrom false links cur raw = some path → (fs.aheadFrom links cur raw).2 = some path ∧
          (now.get path = none → path ∈ (fs.aheadFrom links cur raw).1) from
    budget maxSymlinks [] raw (isDirAt_root now) located
  intro links
  induction links with
  | zero =>
      intro cur raw directory located
      exact walkComps_ahead grown (fun _ _ _ none => by cases none) raw cur directory located
  | succ links ih =>
      intro cur raw directory located
      exact walkComps_ahead grown ih raw cur directory located

theorem create_inodes (made : fs.create path entry = some after) : after.inodes = fs.inodes := by
  unfold create at made
  split at made
  · cases made
  split at made
  · cases made
    exact inodes_add _ _ _ _
  · cases made

theorem create_missing (made : fs.create path entry = some after) : fs.get path = none := by
  unfold create at made
  split at made
  · cases made
  split at made
  · rename_i fits
    exact fits.2.1
  · cases made

theorem grown_mkdir (grown : Grown touched fs now) (made : now.mkdir raw = some after) :
    Grown (· ∈ (fs.ahead raw).1) now after := by
  obtain ⟨path, located, created⟩ := Option.bind_eq_some_iff.mp made
  exact grown_create created rfl (namei_ahead grown located).2

theorem inodes_mkdir (made : now.mkdir raw = some after) : after.inodes = now.inodes := by
  obtain ⟨path, _, created⟩ := Option.bind_eq_some_iff.mp made
  exact create_inodes created

theorem grown_makedirs (fs : FS) (raw : List Name) :
    Grown (· ∈ (fs.ahead raw).1) fs (fs.makedirs raw).1 := by
  suffices loop : ∀ reversed, Grown (· ∈ (fs.ahead reversed.reverse).1) fs (fs.makedirsRev reversed).1 by
    have whole := loop raw.reverse
    rwa [List.reverse_reverse] at whole
  intro reversed
  induction reversed with
  | nil => exact .refl _ fs
  | cons name above ih =>
      have shorter : above.reverse <+: (name :: above).reverse := by
        rw [List.reverse_cons]
        exact List.prefix_append _ _
      have prepared : Grown (· ∈ (fs.ahead (name :: above).reverse).1) fs
          (if fs.pathExists above.reverse then fs else (fs.makedirsRev above).1) := by
        split
        · exact .refl _ fs
        · refine ⟨ih.kept, fun path entry found => ?_⟩
          exact (ih.made path entry found).imp_right fun late => ⟨ahead_of_less shorter late.1, late.2⟩
      rw [makedirsRev]
      split
      · rename_i after made
        exact prepared.trans (grown_mkdir prepared made)
      · exact prepared

theorem inodes_makedirs (fs : FS) (raw : List Name) : (fs.makedirs raw).1.inodes = fs.inodes := by
  suffices loop : ∀ reversed, (fs.makedirsRev reversed).1.inodes = fs.inodes from loop raw.reverse
  intro reversed
  induction reversed with
  | nil => rfl
  | cons name above ih =>
      have prepared : (if fs.pathExists above.reverse then fs
          else (fs.makedirsRev above).1).inodes = fs.inodes := by
        split
        · rfl
        · exact ih
      rw [makedirsRev]
      split
      · rename_i after made
        exact (inodes_mkdir made).trans prepared
      · exact prepared

private theorem walkComps_last {onLink' : Path → List Name → Option Path}
    (links : ∀ cur raw, onLink cur raw = some path → onLink' cur raw = some path ∨
        ∃ link, onLink' cur raw = some link ∧ fs.isSymlinkAt link = true)
    (raw : List Name) (cur : Path) (located : fs.walkComps true onLink cur raw = some path) :
    fs.walkComps false onLink' cur raw = some path ∨
      ∃ link, fs.walkComps false onLink' cur raw = some link ∧ fs.isSymlinkAt link = true := by
  induction raw generalizing cur with
  | nil => exact .inl located
  | cons name rest ih =>
      rw [walkComps] at located ⊢
      by_cases stays : name = [] ∨ name = dot
      · rw [if_pos stays] at located ⊢
        exact ih cur located
      rw [if_neg stays] at located ⊢
      by_cases up : name = dotdot
      · rw [if_pos up] at located ⊢
        exact ih cur.dropLast located
      rw [if_neg up] at located ⊢
      cases found : fs.get (cur ++ [name]) with
      | none =>
          rw [found] at located
          exact .inl located
      | some entry =>
          rw [found] at located
          cases entry with
          | dir mode => exact ih (cur ++ [name]) located
          | file ino => exact .inl located
          | symlink target =>
              by_cases last : rest = []
              · simp only [last, and_self, ↓reduceIte]
                exact .inr ⟨_, rfl, isSymlinkAt_of_get found⟩
              · simp only [last, false_and, ↓reduceIte] at located ⊢
                exact links _ _ located

theorem namei_last (located : fs.namei raw true = some path) : fs.namei raw false = some path ∨
      ∃ link, fs.namei raw false = some link ∧ fs.isSymlinkAt link = true := by
  suffices budget : ∀ (links : Nat) (cur : Path) (raw : List Name),
      fs.resolveFrom true links cur raw = some path → fs.resolveFrom false links cur raw = some path ∨
          ∃ link, fs.resolveFrom false links cur raw = some link ∧ fs.isSymlinkAt link = true from
    budget maxSymlinks [] raw located
  intro links
  induction links with
  | zero =>
      intro cur raw located
      exact walkComps_last (fun _ _ none => by cases none) raw cur located
  | succ links ih =>
      intro cur raw located
      exact walkComps_last ih raw cur located

private theorem walkComps_of_less {onLink' : Path → List Name → Option Path}
    (fewer : ∀ path entry, now.get path = some entry → fs.get path = some entry)
    (links : ∀ cur raw, onLink cur raw = some path → onLink' cur raw = some path)
    (raw : List Name) (cur : Path) (located : now.walkComps false onLink cur raw = some path) :
    fs.walkComps false onLink' cur raw = some path := by
  induction raw generalizing cur with
  | nil => exact located
  | cons name rest ih =>
      rw [walkComps] at located ⊢
      by_cases stays : name = [] ∨ name = dot
      · rw [if_pos stays] at located ⊢
        exact ih cur located
      rw [if_neg stays] at located ⊢
      by_cases up : name = dotdot
      · rw [if_pos up] at located ⊢
        exact ih cur.dropLast located
      rw [if_neg up] at located ⊢
      cases present : now.get (cur ++ [name]) with
      | none =>
          rw [present] at located
          dsimp only at located
          split at located
          · rename_i last
            cases located
            subst last
            cases found : fs.get (cur ++ [name]) with
            | none => rfl
            | some entry => cases entry <;> rfl
          · cases located
      | some entry =>
          rw [present] at located
          rw [fewer _ _ present]
          cases entry with
          | dir mode => exact ih (cur ++ [name]) located
          | file ino => exact located
          | symlink target =>
              by_cases last : rest = []
              · simp only [last, and_self, ↓reduceIte] at located ⊢
                exact located
              · simp only [last, false_and, ↓reduceIte] at located ⊢
                exact links _ _ located

theorem namei_of_less (fewer : ∀ path entry, now.get path = some entry → fs.get path = some entry)
    (located : now.namei raw false = some path) : fs.namei raw false = some path := by
  suffices budget : ∀ (links : Nat) (cur : Path) (raw : List Name),
      now.resolveFrom false links cur raw = some path →
        fs.resolveFrom false links cur raw = some path from budget maxSymlinks [] raw located
  intro links
  induction links with
  | zero =>
      intro cur raw located
      exact walkComps_of_less fewer (fun _ _ none => none) raw cur located
  | succ links ih =>
      intro cur raw located
      exact walkComps_of_less fewer ih raw cur located

end

end FS

end PDocker.Posix
