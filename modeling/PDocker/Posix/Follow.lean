import PDocker.Posix.Ahead

/-!
# The last component of a path

The kernel's walk once more, one component at a time and with the budget of
links as a number: an induction rule for it, and what it says about the last
component. The directory above it is found first; a link there is followed or
not.
-/

set_option autoImplicit false

namespace PDocker.Posix

namespace FS

variable {fs : FS} {follow : Bool} {links : Nat} {cur path : Path} {name : Name} {rest raw : List Name}

def behindLink (fs : FS) (follow : Bool) : Nat → Path → List Name → Option Path
  | 0, _, _ => none
  | links + 1, cur, raw => fs.resolveFrom follow links cur raw

theorem resolveFrom_eq (fs : FS) (follow : Bool) (links : Nat) :
    fs.resolveFrom follow links = fs.walkComps follow (fs.behindLink follow links) := by
  cases links <;> rfl

theorem resolveFrom_stay (stays : name = [] ∨ name = dot) :
    fs.resolveFrom follow links cur (name :: rest) = fs.resolveFrom follow links cur rest := by
  rw [resolveFrom_eq, walkComps, if_pos stays]

theorem resolveFrom_up : fs.resolveFrom follow links cur (dotdot :: rest) =
    fs.resolveFrom follow links cur.dropLast rest := by
  rw [resolveFrom_eq, walkComps, if_neg (by decide), if_pos rfl]

theorem resolveFrom_down (stays : ¬ (name = [] ∨ name = dot)) (up : name ≠ dotdot) :
    fs.resolveFrom follow links cur (name :: rest) =
      match fs.get (cur ++ [name]) with
      | some (.dir _) => fs.resolveFrom follow links (cur ++ [name]) rest
      | some (.symlink target) =>
          if rest = [] ∧ follow = false then some (cur ++ [name])
          else fs.behindLink follow links (if target.absolute then [] else cur) (target.comps ++ rest)
      | some (.file _) | none => if rest = [] then some (cur ++ [name]) else none := by
  rw [resolveFrom_eq, walkComps, if_neg stays]
  exact if_neg up

theorem walk_induction (fs : FS) {motive : Nat → Path → List Name → Prop}
    (nil : ∀ links cur, motive links cur [])
    (stay : ∀ links cur name rest, name = [] ∨ name = dot → motive links cur rest →
      motive links cur (name :: rest))
    (up : ∀ links cur rest, motive links cur.dropLast rest → motive links cur (dotdot :: rest))
    (down : ∀ links cur name rest, ¬ (name = [] ∨ name = dot) → name ≠ dotdot →
      (∀ mode, fs.get (cur ++ [name]) = some (.dir mode) → motive links (cur ++ [name]) rest) →
      (∀ target more, fs.get (cur ++ [name]) = some (.symlink target) → links = more + 1 →
        motive more (if target.absolute then [] else cur) (target.comps ++ rest)) →
      motive links cur (name :: rest)) (links : Nat) (cur : Path) (raw : List Name) :
    motive links cur raw := by
  induction links generalizing cur raw with
  | zero =>
      induction raw generalizing cur with
      | nil => exact nil 0 cur
      | cons name rest ih =>
          by_cases stays : name = [] ∨ name = dot
          · exact stay 0 cur name rest stays (ih cur)
          by_cases climbs : name = dotdot
          · subst climbs
            exact up 0 cur rest (ih cur.dropLast)
          · exact down 0 cur name rest stays climbs (fun _ _ => ih _) fun _ _ _ none => by cases none
  | succ links ihLinks =>
      induction raw generalizing cur with
      | nil => exact nil (links + 1) cur
      | cons name rest ih =>
          by_cases stays : name = [] ∨ name = dot
          · exact stay (links + 1) cur name rest stays (ih cur)
          by_cases climbs : name = dotdot
          · subst climbs
            exact up (links + 1) cur rest (ih cur.dropLast)
          refine down (links + 1) cur name rest stays climbs (fun _ _ => ih _) ?_
          intro target more _ same
          cases same
          exact ihLinks _ _

theorem isDirAt_dropLast (directory : fs.isDirAt cur = true) : fs.isDirAt cur.dropLast = true :=
  isDirAt_above directory (List.dropLast_prefix cur)

theorem isDirAt_linkStart {target : Target} (directory : fs.isDirAt cur = true) :
    fs.isDirAt (if target.absolute then [] else cur) = true := by
  split
  · exact isDirAt_root fs
  · exact directory

theorem resolveFrom_concat (plain : PlainName name) (links : Nat) (cur : Path) (raw : List Name)
    (directory : fs.isDirAt cur = true) :
    fs.resolveFrom false links cur (raw ++ [name]) =
      (fs.resolveFrom true links cur raw).bind fun above =>
        if fs.isDirAt above = true then some (above ++ [name]) else none := by
  induction links, cur, raw using fs.walk_induction with
  | nil links cur =>
      rw [List.nil_append, resolveFrom_down (by simp [plain.1, plain.2.1]) plain.2.2.1]
      cases found : fs.get (cur ++ [name]) with
      | none => simp [directory]
      | some entry => cases entry <;> simp [directory]
  | stay links cur first rest stays ih =>
      rw [List.cons_append, resolveFrom_stay stays, resolveFrom_stay stays]
      exact ih directory
  | up links cur rest ih =>
      rw [List.cons_append, resolveFrom_up, resolveFrom_up]
      exact ih (isDirAt_dropLast directory)
  | down links cur first rest stays climbs dir link =>
      rw [List.cons_append, resolveFrom_down stays climbs, resolveFrom_down stays climbs]
      cases found : fs.get (cur ++ [first]) with
      | none =>
          by_cases last : rest = []
          · simp [last, isDirAt_eq_false_of_get_none found]
          · simp [last]
      | some entry =>
          cases entry with
          | dir mode => exact dir mode found (isDirAt_iff.mpr ⟨mode, found⟩)
          | file ino =>
              by_cases last : rest = []
              · simp [last, isDirAt_of_get found]
              · simp [last]
          | symlink target =>
              simp only [List.append_eq_nil_iff, List.cons_ne_nil, and_false, false_and, ↓reduceIte,
                Bool.true_eq_false]
              cases links with
              | zero => rfl
              | succ more =>
                  have later := link target more found rfl (isDirAt_linkStart directory)
                  rw [List.append_assoc] at later
                  exact later

theorem namei_concat (plain : PlainName name) (raw : List Name) : fs.namei (raw ++ [name]) false =
      (fs.namei raw true).bind fun above =>
        if fs.isDirAt above = true then some (above ++ [name]) else none :=
  resolveFrom_concat plain maxSymlinks [] raw (isDirAt_root fs)

theorem resolveFrom_ends (special : name = [] ∨ name = dot ∨ name = dotdot) (links : Nat) (cur : Path)
    (raw : List Name) (directory : fs.isDirAt cur = true)
    (located : fs.resolveFrom follow links cur (raw ++ [name]) = some path) :
    fs.isDirAt path = true := by
  induction links, cur, raw using fs.walk_induction with
  | nil links cur =>
      rw [List.nil_append] at located
      rcases special with blank | dots | up
      · rw [resolveFrom_stay (.inl blank), resolveFrom_nil] at located
        exact Option.some.inj located ▸ directory
      · rw [resolveFrom_stay (.inr dots), resolveFrom_nil] at located
        exact Option.some.inj located ▸ directory
      · rw [up, resolveFrom_up, resolveFrom_nil] at located
        exact Option.some.inj located ▸ isDirAt_dropLast directory
  | stay links cur first rest stays ih =>
      rw [List.cons_append, resolveFrom_stay stays] at located
      exact ih directory located
  | up links cur rest ih =>
      rw [List.cons_append, resolveFrom_up] at located
      exact ih (isDirAt_dropLast directory) located
  | down links cur first rest stays climbs dir link =>
      rw [List.cons_append, resolveFrom_down stays climbs] at located
      cases found : fs.get (cur ++ [first]) with
      | none => simp [found] at located
      | some entry =>
          rw [found] at located
          cases entry with
          | dir mode => exact dir mode found (isDirAt_iff.mpr ⟨mode, found⟩) located
          | file ino => simp at located
          | symlink target =>
              simp only [List.append_eq_nil_iff, List.cons_ne_nil, and_false, false_and, ↓reduceIte]
                at located
              cases links with
              | zero => cases located
              | succ more =>
                  rw [← List.append_assoc] at located
                  exact link target more found rfl (isDirAt_linkStart directory) located

theorem namei_ends (special : name = [] ∨ name = dot ∨ name = dotdot)
    (located : fs.namei (raw ++ [name]) follow = some path) : fs.isDirAt path = true :=
  resolveFrom_ends special maxSymlinks [] raw (isDirAt_root fs) located

theorem namei_follow (located : fs.namei raw false = some path) (notLink : fs.isSymlinkAt path = false) :
    fs.namei raw true = some path := by
  suffices walk : ∀ links cur raw, fs.resolveFrom false links cur raw = some path →
      fs.resolveFrom true links cur raw = some path from walk maxSymlinks [] raw located
  intro links cur raw located
  induction links, cur, raw using fs.walk_induction with
  | nil links cur => rwa [resolveFrom_nil] at located ⊢
  | stay links cur first rest stays ih =>
      rw [resolveFrom_stay stays] at located ⊢
      exact ih located
  | up links cur rest ih =>
      rw [resolveFrom_up] at located ⊢
      exact ih located
  | down links cur first rest stays climbs dir link =>
      rw [resolveFrom_down stays climbs] at located ⊢
      cases found : fs.get (cur ++ [first]) with
      | none => rwa [found] at located
      | some entry =>
          rw [found] at located
          cases entry with
          | dir mode => exact dir mode found located
          | file ino => exact located
          | symlink target =>
              by_cases last : rest = []
              · simp only [last, and_self, ↓reduceIte, Option.some.injEq] at located
                rw [← located, isSymlinkAt_of_get found] at notLink
                cases notLink
              · simp only [last, false_and, ↓reduceIte] at located ⊢
                cases links with
                | zero => cases located
                | succ more => exact link target more found rfl located

theorem namei_of_slashes {count : Nat}
    (located : fs.namei (raw ++ List.replicate count []) true = some path) :
    fs.namei raw true = some path := by
  suffices walk : ∀ links cur raw,
      fs.resolveFrom true links cur (raw ++ List.replicate count []) = some path →
        fs.resolveFrom true links cur raw = some path from walk maxSymlinks [] raw located
  intro links cur raw located
  induction links, cur, raw using fs.walk_induction with
  | nil links cur =>
      rw [List.nil_append] at located
      clear * - located
      induction count with
      | zero => exact located
      | succ count ih =>
          rw [List.replicate_succ, resolveFrom_stay (.inl rfl)] at located
          exact ih located
  | stay links cur first rest stays ih =>
      rw [List.cons_append, resolveFrom_stay stays] at located
      rw [resolveFrom_stay stays]
      exact ih located
  | up links cur rest ih =>
      rw [List.cons_append, resolveFrom_up] at located
      rw [resolveFrom_up]
      exact ih located
  | down links cur first rest stays climbs dir link =>
      rw [List.cons_append, resolveFrom_down stays climbs] at located
      rw [resolveFrom_down stays climbs]
      cases found : fs.get (cur ++ [first]) with
      | none =>
          rw [found] at located
          simp only at located ⊢
          split at located
          · rename_i last
            rw [if_pos (List.append_eq_nil_iff.mp last).1]
            exact located
          · cases located
      | some entry =>
          rw [found] at located
          cases entry with
          | dir mode => exact dir mode found located
          | file ino =>
              simp only at located ⊢
              split at located
              · rename_i last
                rw [if_pos (List.append_eq_nil_iff.mp last).1]
                exact located
              · cases located
          | symlink target =>
              simp only [Bool.true_eq_false, and_false, ↓reduceIte] at located ⊢
              cases links with
              | zero => cases located
              | succ more =>
                  rw [← List.append_assoc] at located
                  exact link target more found rfl located

theorem length_of_resolveFrom (links : Nat) (cur : Path) (raw before rest : List Name)
    (cut : raw = before ++ rest) (plain : ∀ name ∈ rest, PlainName name)
    (located : fs.resolveFrom true links cur raw = some path) (directory : fs.isDirAt path = true) :
    rest.length ≤ fs.height + links * (fs.height + 1) ∧
      (before = [] → cur.length + rest.length ≤ fs.height + links * (fs.height + 1)) := by
  induction links, cur, raw using fs.walk_induction generalizing before rest with
  | nil links cur =>
      rw [resolveFrom_nil] at located
      cases located
      obtain ⟨mode, found⟩ := isDirAt_iff.mp directory
      have short := length_le_height found
      obtain ⟨rfl, rfl⟩ := List.append_eq_nil_iff.mp cut.symm
      exact ⟨Nat.zero_le _, fun _ => short.trans (Nat.le_add_right _ _)⟩
  | stay links cur name more stays ih =>
      rw [resolveFrom_stay stays] at located
      cases before with
      | nil =>
          rw [List.nil_append] at cut
          have here := plain name (cut ▸ List.mem_cons_self)
          exact absurd stays (not_or.mpr ⟨here.1, here.2.1⟩)
      | cons first before =>
          obtain ⟨rfl, rfl⟩ := List.cons.inj cut
          exact ⟨(ih before rest rfl plain located).1, nofun⟩
  | up links cur more ih =>
      rw [resolveFrom_up] at located
      cases before with
      | nil =>
          rw [List.nil_append] at cut
          exact absurd rfl (plain dotdot (cut ▸ List.mem_cons_self)).2.2.1
      | cons first before =>
          obtain ⟨rfl, rfl⟩ := List.cons.inj cut
          exact ⟨(ih before rest rfl plain located).1, nofun⟩
  | down links cur name more stays up dir link =>
      rw [resolveFrom_down stays up] at located
      have leaf : ∀ {place : Path}, (if more = [] then some (cur ++ [name]) else none) = some place →
          fs.isDirAt (cur ++ [name]) = false → fs.isDirAt place = false := by
        intro place ends notDir
        split at ends
        · cases ends
          exact notDir
        · cases ends
      cases found : fs.get (cur ++ [name]) with
      | none =>
          rw [found] at located
          rw [leaf located (isDirAt_eq_false_of_get_none found)] at directory
          cases directory
      | some entry =>
          rw [found] at located
          have short := length_le_height found
          rw [List.length_append, List.length_singleton] at short
          cases entry with
          | file ino =>
              rw [leaf located (isDirAt_of_get found)] at directory
              cases directory
          | dir mode =>
              cases before with
              | nil =>
                  rw [List.nil_append] at cut
                  subst cut
                  have deeper := (dir mode found [] more rfl (fun other member => plain other (List.mem_cons_of_mem _ member))
                    located).2 rfl
                  rw [List.length_append, List.length_singleton] at deeper
                  rw [List.length_cons]
                  exact ⟨by omega, fun _ => by omega⟩
              | cons first before =>
                  obtain ⟨rfl, rfl⟩ := List.cons.inj cut
                  exact ⟨(dir mode found before rest rfl plain located).1, nofun⟩
          | symlink target =>
              cases links with
              | zero => simp [behindLink] at located
              | succ links =>
                  simp only [Bool.true_eq_false, and_false, ↓reduceIte] at located
                  have behind := link target links found rfl
                  have grown : (links + 1) * (fs.height + 1) = links * (fs.height + 1) + (fs.height + 1) :=
                    Nat.succ_mul _ _
                  cases before with
                  | nil =>
                      rw [List.nil_append] at cut
                      subst cut
                      have deeper := (behind target.comps more rfl
                        (fun other member => plain other (List.mem_cons_of_mem _ member)) located).1
                      rw [List.length_cons, grown]
                      exact ⟨by omega, fun _ => by omega⟩
                  | cons first before =>
                      obtain ⟨rfl, rfl⟩ := List.cons.inj cut
                      have deeper := (behind (target.comps ++ before) rest (by simp) plain located).1
                      rw [grown]
                      exact ⟨by omega, nofun⟩

def longest (fs : FS) : Nat := fs.height + maxSymlinks * (fs.height + 1)

theorem length_le_longest (plain : ∀ name ∈ raw, PlainName name) (directory : fs.isdir raw = true) :
    raw.length ≤ fs.longest := by
  obtain ⟨path, located, isDir⟩ := isdir_iff.mp directory
  exact (length_of_resolveFrom maxSymlinks [] raw [] raw rfl plain located isDir).1

end FS

end PDocker.Posix
