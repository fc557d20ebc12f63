import PDocker.Direct.HostPaths
import PDocker.Posix.Mounts

/-!
# The binds as a mount table

`resolve_guest_host_path` matches the binds against the string of a guest path.
Here the string is read by components, and the host path that comes out is
compared with what a mount table with the same binds names.
-/

set_option autoImplicit false

namespace PDocker.Direct

open Data (Text)
open Posix

variable {path guest suffix : Text} {m : BindMap} {room : Room}

theorem startsAt_iff {above : Text} : startsAt above path = true ↔ splitSlash above <+: splitSlash path := by
  rw [splitSlash_prefix_iff, startsAt, Bool.and_eq_true, List.isPrefixOf_iff_prefix]
  constructor
  · rintro ⟨⟨rest, rfl⟩, ends⟩
    rw [List.drop_left] at ends
    cases rest with
    | nil => exact .inl (List.append_nil _)
    | cons char rest =>
        obtain rfl : char = '/' := by simpa using ends
        exact .inr ⟨rest, rfl⟩
  · rintro (rfl | ⟨rest, rfl⟩)
    · exact ⟨List.prefix_refl _, by simp⟩
    · exact ⟨List.prefix_append _ _, by simp⟩

def writtenParts (path : Text) : List Name := (splitSlash path).drop 1

theorem splitSlash_absolute (absolute : path.head? = some '/') :
    splitSlash path = [] :: writtenParts path := by
  cases path with
  | nil => cases absolute
  | cons char rest =>
      cases absolute
      rw [writtenParts, splitSlash_slash, List.drop_one, List.tail_cons]

theorem place_splitSlash (absolute : path.head? = some '/') :
    place (splitSlash path) = place (writtenParts path) := by
  rw [splitSlash_absolute absolute]
  rfl

def parseBinds (realpath : Text → Except Nat Text) (specs : List Text) : List BindMap :=
  specs.foldl (parseBindSpec realpath) []

def Formed (m : BindMap) : Prop :=
  m.guest.head? = some '/' ∧ (m.guest = ['/'] ∨ m.guest.getLast? ≠ some '/')

theorem trimTrailingSlashes_formed (host : Text) (absolute : guest.head? = some '/') :
    Formed ⟨host, trimTrailingSlashes guest⟩ := by
  obtain ⟨below, filled⟩ := trimTrailingSlashes_spec guest absolute
  refine ⟨(head?_above filled below).trans absolute, ?_⟩
  simp only [trimTrailingSlashes]
  split
  · exact .inl rfl
  rename_i present
  right
  intro last
  have nonempty : guest.rdropWhile (· = '/') ≠ [] := by
    intro empty
    rw [empty] at last
    cases last
  have plain := List.rdropWhile_last_not (· = '/') guest nonempty
  rw [List.getLast?_eq_some_getLast nonempty, Option.some.injEq] at last
  simp [last] at plain

theorem parseBinds_formed (realpath : Text → Except Nat Text) (specs : List Text) :
    ∀ m ∈ parseBinds realpath specs, Formed m := by
  suffices loop : ∀ (specs : List Text) (binds : List BindMap), (∀ m ∈ binds, Formed m) →
      ∀ m ∈ specs.foldl (parseBindSpec realpath) binds, Formed m from loop specs [] nofun
  intro specs
  induction specs with
  | nil => exact fun _ formed => formed
  | cons spec specs ih =>
      intro binds formed
      apply ih
      rw [parseBindSpec]
      split
      · exact formed
      split
      · exact formed
      rename_i host guest _
      split
      · exact formed
      rename_i proper
      intro m member
      rcases List.mem_append.mp member with old | new
      · exact formed m old
      rw [List.mem_singleton.mp new]
      apply trimTrailingSlashes_formed
      rw [not_or, not_not] at proper
      cases guest with
      | nil => cases proper.2
      | cons char guest => exact proper.2

def point (m : BindMap) : Path := if m.guest = ['/'] then [] else writtenParts m.guest

def mountTable (binds : List BindMap) : List (Path × Path) :=
  binds.map fun m => (point m, place (splitSlash m.host))

theorem Formed.render_point (formed : Formed m) : render (point m) = m.guest ∧ point m ≠ [[]] := by
  rw [point]
  split
  · rename_i root
    exact ⟨root.symm, nofun⟩
  rename_i proper
  have spelled := render_splitSlash formed.1
  refine ⟨spelled, fun blank => proper ?_⟩
  rw [writtenParts] at blank
  rw [← spelled, blank]
  rfl

theorem Formed.above_iff (formed : Formed m) (absolute : guest.head? = some '/') :
    (bindGuestMatch m guest).isSome = true ↔ point m <+: writtenParts guest := by
  rw [bindGuestMatch, point]
  split
  · exact ⟨fun _ => List.nil_prefix, fun _ => rfl⟩
  have same : startsAt m.guest guest = true ↔ writtenParts m.guest <+: writtenParts guest := by
    rw [startsAt_iff, splitSlash_absolute formed.1, splitSlash_absolute absolute, List.prefix_cons_inj]
  split
  · rename_i starts
    exact ⟨fun _ => same.mp starts, fun _ => rfl⟩
  · rename_i apart
    exact ⟨nofun, fun below => absurd (same.mpr below) apart⟩

def Behind (suffix : Text) (more : List Name) : Prop :=
  suffix = [] ∧ more = [] ∨ ∃ rest, suffix = '/' :: rest ∧ splitSlash rest = more

theorem Formed.behind (formed : Formed m)
    (absolute : guest.head? = some '/') (found : bindGuestMatch m guest = some suffix) :
    Behind suffix ((writtenParts guest).drop (point m).length) := by
  have above := (formed.above_iff absolute).mp (by rw [found]; rfl)
  rw [bindGuestMatch] at found
  rw [point] at above ⊢
  split at found
  · rename_i root
    cases found
    rw [if_pos root]
    cases guest with
    | nil => cases absolute
    | cons char rest =>
        cases absolute
        exact .inr ⟨rest, rfl, by simp [writtenParts]⟩
  · rename_i proper
    split at found
    · rename_i starts
      cases found
      rw [if_neg proper] at above ⊢
      rcases splitSlash_prefix_iff.mp (startsAt_iff.mp starts) with rfl | ⟨rest, rfl⟩
      · exact .inl ⟨by simp, by simp⟩
      refine .inr ⟨rest, by simp, ?_⟩
      have spelled := splitSlash_append_slash m.guest rest
      rw [splitSlash_absolute formed.1, splitSlash_absolute absolute, List.cons_append,
        List.cons.injEq] at spelled
      rw [spelled.2, List.drop_left]
    · cases found

theorem length_le_iff {other : BindMap} (formed : Formed m) (formed' : Formed other)
    {parts : List Name} (above : point m <+: parts) (above' : point other <+: parts) :
    other.guest.length ≤ m.guest.length ↔ (point other).length ≤ (point m).length := by
  obtain ⟨spelled, filled⟩ := formed.render_point
  obtain ⟨spelled', filled'⟩ := formed'.render_point
  rw [← spelled, ← spelled']
  rcases Nat.lt_trichotomy (point other).length (point m).length with less | same | more
  · have below := List.prefix_of_prefix_length_le above' above less.le
    have shorter := length_render_lt below less filled
    omega
  · have equal : point other = point m :=
      (List.prefix_of_prefix_length_le above' above same.le).eq_of_length same
    simp only [equal, le_refl]
  · have below := List.prefix_of_prefix_length_le above above' more.le
    have shorter := length_render_lt below more filled'
    omega

def Alike (guest : Text) (best : Option (BindMap × Text)) (mount : Option (Path × Path)) : Prop :=
  best = none ∧ mount = none ∨
    ∃ m suffix, Formed m ∧ bindGuestMatch m guest = some suffix ∧ best = some (m, suffix) ∧
      mount = some (point m, place (splitSlash m.host))

theorem alike_step {best : Option (BindMap × Text)} {mount : Option (Path × Path)}
    (absolute : guest.head? = some '/') (alike : Alike guest best mount)
    (formed : Formed m) :
    Alike guest (bestBind guest best m)
      (deeper (writtenParts guest) mount (point m, place (splitSlash m.host))) := by
  have above := formed.above_iff absolute
  simp only [bestBind, deeper]
  cases found : bindGuestMatch m guest with
  | none =>
      have free : ¬ point m <+: writtenParts guest := by
        rw [← above, found]
        exact Bool.false_ne_true
      rw [if_neg free]
      exact alike
  | some suffix =>
      have covers : point m <+: writtenParts guest := by
        rw [← above, found]
        rfl
      rw [if_pos covers]
      rcases alike with ⟨rfl, rfl⟩ | ⟨other, suffix', formed', found', rfl, rfl⟩
      · exact .inr ⟨m, suffix, formed, found, rfl, rfl⟩
      have covers' : point other <+: writtenParts guest :=
        (formed'.above_iff absolute).mp (by rw [found']; rfl)
      simp only [length_le_iff formed formed' covers covers']
      split
      · exact .inr ⟨m, suffix, formed, found, rfl, rfl⟩
      · exact .inr ⟨other, suffix', formed', found', rfl, rfl⟩

theorem alike_scan (absolute : guest.head? = some '/') {binds : List BindMap} (formed : ∀ m ∈ binds, Formed m) :
    Alike guest (binds.foldl (bestBind guest) none)
      (covering (mountTable binds) (writtenParts guest)) := by
  induction binds using List.reverseRecOn with
  | nil => exact .inl ⟨rfl, rfl⟩
  | append_singleton binds last ih =>
      have earlier := ih fun m member => formed m (by simp [member])
      rw [List.foldl_concat, mountTable, List.map_append, List.map_singleton, covering_concat]
      exact alike_step absolute earlier (formed last (by simp))

theorem place_joined {host : Text} {more : List Name} (behind : Behind suffix more) :
    place (splitSlash (if suffix = [] then host else if host = ['/'] then suffix else host ++ suffix)) =
      more.foldl goTo (place (splitSlash host)) := by
  rcases behind with ⟨rfl, rfl⟩ | ⟨rest, rfl, rfl⟩
  · rfl
  rw [if_neg (List.cons_ne_nil _ _)]
  split
  · rename_i root
    rw [root, splitSlash_slash]
    rfl
  · rw [splitSlash_append_slash, place_append]

theorem resolveBindPath_spec {guest : Text} (absolute : guest.head? = some '/') {binds : List BindMap}
    (formed : ∀ m ∈ binds, Formed m) :
    match covering (mountTable binds) (writtenParts guest) with
    | none => resolveBindPath binds guest = none
    | some (above, source) => ∃ host, resolveBindPath binds guest = some host ∧
        place (splitSlash host) = ((writtenParts guest).drop above.length).foldl goTo source := by
  rcases alike_scan absolute formed with ⟨best, covers⟩ | ⟨m, suffix, formed', found, best, covers⟩
  · rw [covers, resolveBindPath, best]
  · rw [covers, resolveBindPath, best]
    exact ⟨_, rfl, place_joined (formed'.behind absolute found)⟩

/-! ## Guest paths that are mapped -/

def depth (table : List (Path × Path)) (written : List Name) : Nat :=
  match covering table written with
  | none => 0
  | some (above, _) => above.length

/-- The path as it is written has the mounts above it that its normal form has, and
behind the one that covers it `..` does not climb above it. -/
structure Spelled (table : List (Path × Path)) (written : List Name) : Prop where
  covers : ∀ mount ∈ table, mount.1 <+: written ↔ mount.1 <+: place written
  stays : staysBelow 0 (written.drop (depth table written)) = true

structure Mapped (room : Room) (guest : Text) : Prop where
  rewritten : shouldRewritePath room.rootfs guest = true
  spelled : Spelled (mountTable room.binds) (writtenParts guest)

theorem Mapped.absolute (mapped : Mapped room guest) : guest.head? = some '/' := by
  have rewritten := mapped.rewritten
  simp only [shouldRewritePath, Bool.and_eq_true, decide_eq_true_eq] at rewritten
  exact rewritten.1.1.1.1.2

theorem resolveGuestHostPath_rewritten {room : Room} (present : Text → Bool) {guest : Text}
    (rewritten : shouldRewritePath room.rootfs guest = true) :
    resolveGuestHostPath room present guest =
      match resolveBindPath room.binds guest with
      | some path => fitting path true
      | none => fitting (room.rootfs ++ guest) false := by
  have parts := rewritten
  simp only [shouldRewritePath, Bool.and_eq_true, Bool.not_eq_true'] at parts
  have terminal : ¬ (guest = "/dev/tty".toList ∧ room.tty = true) := by
    rintro ⟨rfl, _⟩
    have dev := parts.1.2
    revert dev
    decide
  rw [resolveGuestHostPath, if_neg (by simp [parts.1.1.2]), if_neg terminal, rewritten]
  rfl

/-- What becomes of a path that is left to the host: nothing, but a `/proc` of the
rootfs serves its own files and a terminal is standard input. -/
def Left (room : Room) (present : Text → Bool) (guest : Text) : Prop :=
  resolveGuestHostPath room present guest = .kept ∨
    startsAt procPath guest = true ∧ resolveGuestHostPath room present guest =
      fitting (room.rootfs ++ "/.pdocker-proc".toList ++ guest.drop procPath.length) false ∨
    guest = "/dev/tty".toList ∧ room.tty = true ∧
      resolveGuestHostPath room present guest = .host "/proc/self/fd/0".toList false

theorem resolveGuestHostPath_left (present : Text → Bool)
    (left : shouldRewritePath room.rootfs guest = false) : Left room present guest := by
  rw [Left, resolveGuestHostPath]
  split
  · rename_i proc
    split
    · exact .inl rfl
    simp only [fitting]
    split
    · exact .inr (.inl ⟨proc, rfl⟩)
    · split
      · exact .inr (.inl ⟨proc, rfl⟩)
      · exact .inl rfl
  · split
    · rename_i terminal
      exact .inr (.inr ⟨terminal.1, terminal.2, rfl⟩)
    · rw [left]
      exact .inl rfl

def roomObject (room : Room) (path : Path) : Path :=
  mounted (place (splitSlash room.rootfs)) (mountTable room.binds) path

theorem resolveGuestHostPath_mapped (formed : ∀ m ∈ room.binds, Formed m)
    (present : Text → Bool) (mapped : Mapped room guest) :
    ∃ host, resolveGuestHostPath room present guest =
        fitting host (covering (mountTable room.binds) (place (splitSlash guest))).isSome ∧
      place (splitSlash host) = roomObject room (place (splitSlash guest)) := by
  have absolute := mapped.absolute
  have found := resolveBindPath_spec absolute formed
  have stays := mapped.spelled.stays
  have plain : ∀ name ∈ place (writtenParts guest), PlainName name := by
    apply plain_place
    intro name member
    apply slash_not_mem_splitSlash guest
    rw [splitSlash_absolute absolute]
    exact List.mem_cons_of_mem _ member
  rw [resolveGuestHostPath_rewritten present mapped.rewritten, roomObject, mounted,
    place_splitSlash absolute, ← covering_congr mapped.spelled.covers]
  rw [depth] at stays
  cases covers : covering (mountTable room.binds) (writtenParts guest) with
  | none =>
      rw [covers] at found stays
      simp only at found stays ⊢
      rw [found]
      refine ⟨room.rootfs ++ guest, rfl, ?_⟩
      cases guest with
      | nil => cases absolute
      | cons char rest =>
          cases absolute
          have parts : writtenParts ('/' :: rest) = splitSlash rest := by simp [writtenParts]
          rw [parts] at stays ⊢
          rw [splitSlash_append_slash]
          exact place_append_of_stays _ stays
  | some mount =>
      obtain ⟨above, source⟩ := mount
      rw [covers] at found stays
      simp only at found stays ⊢
      obtain ⟨host, resolved, leads⟩ := found
      obtain ⟨below, _⟩ := covering_some covers
      obtain ⟨more, split⟩ := below
      simp only at split
      rw [← split, List.drop_left] at stays leads
      have start : place above = above := by
        apply place_of_plain
        intro name member
        have inside := covers
        rw [covering_congr mapped.spelled.covers] at inside
        exact plain name ((covering_some inside).1.subset member)
      rw [resolved]
      refine ⟨host, rfl, ?_⟩
      have moved := @foldl_goTo_of_stays more [] source stays
      rw [List.append_nil] at moved
      rw [leads, moved, ← split, place_append_of_stays above stays, start, List.drop_left]
      rfl

/-- What the kernel finds at the host path, where no link is met on the way, is this
object. -/
def Names (host : Text) (object : Path) : Prop :=
  ∀ (fs : FS) (follow : Bool) (found : Path),
    (∀ first, first <+: splitSlash host → fs.isSymlinkAt (place first) = false) →
      fs.namei (splitSlash host) follow = some found → found = object

theorem names_place (host : Text) : Names host (place (splitSlash host)) := by
  intro fs follow found free located
  refine @FS.namei_eq_place fs _ (fun path => ∃ first, first <+: splitSlash host ∧ place first = path)
    follow found ?_ (fun first below => ⟨first, below, rfl⟩) located
  rintro path ⟨first, below, rfl⟩
  exact free first below

section

private def noLinks : Text → Except Nat Text := fun path => .ok path

private def dataSpecs : List Text := ["/h:/data".toList, "/h2:/data/sub/:ro".toList]

private def dataRoom : Room := ⟨"/r".toList, parseBinds noLinks dataSpecs, false⟩

private theorem mapped_of_check {guest : Text}
    (checked : shouldRewritePath dataRoom.rootfs guest = true ∧
      (∀ mount ∈ mountTable dataRoom.binds, mount.1 <+: writtenParts guest ↔
        mount.1 <+: place (writtenParts guest)) ∧
      staysBelow 0 ((writtenParts guest).drop (depth (mountTable dataRoom.binds) (writtenParts guest))) =
        true) : Mapped dataRoom guest := ⟨checked.1, checked.2.1, checked.2.2⟩

end

end PDocker.Direct
