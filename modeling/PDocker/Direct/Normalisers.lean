import PDocker.Direct.HostPaths

/-!
# The two normalisers

`normalize_absolute_path_lexical` builds the path in the caller's buffer and keeps
on a stack the lengths to go back to; `normalize_guest_path` keeps at most 256
components of at most 4095 characters. Both are compared with the place that the
components name.
-/

set_option autoImplicit false

namespace PDocker.Direct

open Data (Text)
open Posix (Name splitSlash dot dotdot render goTo place PlainName)

def normalForm (text : Text) : Text := render (place (splitSlash text))

/-! ## In a buffer -/

/-- The text in the buffer, the stack, the last length first, and how many bytes of
the buffer have been written to at most. -/
structure Normalizing where
  out : Text
  marks : List Nat
  written : Nat

def Normalizing.next (outLen : Nat) (s : Normalizing) (segment : Name) : Normalizing × Option Nat :=
  if segment = [] ∨ segment = dot then (s, none)
  else if segment = dotdot then
    match s.marks with
    | [] => (s, none)
    | mark :: marks => (⟨s.out.take mark, marks, max s.written (mark + 1)⟩, none)
  else if PATH_MAX / 2 ≤ s.marks.length then (s, some ENAMETOOLONG)
  else
    let len := s.out.length
    let s := { s with marks := len :: s.marks }
    if 1 < len ∧ outLen ≤ len + 1 then (s, some ENAMETOOLONG)
    else
      let s := if 1 < len then { s with out := s.out ++ ['/'], written := max s.written (len + 1) } else s
      let len := s.out.length + segment.length
      if outLen ≤ len then (s, some ENAMETOOLONG)
      else ({ s with out := s.out ++ segment, written := max s.written (len + 1) }, none)

def Normalizing.run (outLen : Nat) : Normalizing → List Name → Normalizing × Option Nat
  | s, [] => (s, none)
  | s, segment :: rest =>
      match s.next outLen segment with
      | (s, none) => run outLen s rest
      | failed => failed

/-- `normalize_absolute_path_lexical` for a buffer of any size. -/
def normalizeInto (outLen : Nat) (path : Text) : Normalizing × Option Nat :=
  if path.head? ≠ some '/' ∨ outLen < 2 then (⟨[], [], 0⟩, some EINVAL)
  else Normalizing.run outLen ⟨['/'], [], 2⟩ (splitSlash path)

/-- The stack for a path that has been built. -/
inductive Marked : List Nat → List Name → Prop
  | nil : Marked [] []
  | cons {marks : List Nat} {parts : List Name} {name : Name} (filled : name ≠ [])
      (below : Marked marks parts) : Marked ((render parts).length :: marks) (parts ++ [name])

variable {outLen : Nat} {s : Normalizing} {marks : List Nat} {parts : List Name} {name segment : Name}
  {path : Text}

theorem render_concat (filled : parts ≠ []) (name : Name) :
    render (parts ++ [name]) = render parts ++ '/' :: name := by
  rw [render, render, Data.intercalate_concat filled]
  simp

theorem Marked.length (marked : Marked marks parts) : marks.length = parts.length := by
  induction marked with
  | nil => rfl
  | cons _ _ ih => rw [List.length_cons, ih, List.length_append, List.length_singleton]

theorem Marked.one_lt (marked : Marked marks parts) : 1 < (render parts).length ↔ parts ≠ [] := by
  cases marked with
  | nil => simp [render]
  | @cons _ above name filled _ =>
      have shown := List.length_pos_iff.mpr filled
      refine iff_of_true ?_ (List.append_ne_nil_of_right_ne_nil _ (List.cons_ne_nil _ _))
      by_cases root : above = []
      · subst root
        simpa [render] using shown
      · rw [render_concat root, List.length_append, List.length_cons]
        omega

theorem Marked.length_concat (marked : Marked marks parts) (segment : Name) :
    (render (parts ++ [segment])).length =
      (if 1 < (render parts).length then (render parts).length + 1 else (render parts).length) + segment.length := by
  by_cases root : parts = []
  · subst root
    simp [render, Nat.add_comm]
  · rw [if_pos (marked.one_lt.mpr root), render_concat root, List.length_append, List.length_cons]
    omega

theorem take_render (parts : List Name) (name : Name) :
    (render (parts ++ [name])).take (render parts).length = render parts := by
  by_cases root : parts = []
  · subst root
    rfl
  · rw [render_concat root, List.take_left]

structure Builds (outLen : Nat) (s : Normalizing) (parts : List Name) : Prop where
  out : s.out = render parts
  marked : Marked s.marks parts
  ended : s.out.length < s.written
  room : s.written ≤ outLen
  deep : parts.length ≤ PATH_MAX / 2

theorem Builds.length (builds : Builds outLen s parts) : (render parts).length < outLen := by
  rw [← builds.out]
  exact builds.ended.trans_le builds.room

theorem builds_root (wide : 2 ≤ outLen) : Builds outLen ⟨['/'], [], 2⟩ [] :=
  ⟨rfl, .nil, by decide, wide, Nat.zero_le _⟩

theorem Builds.next_name (builds : Builds outLen s parts) (filled : ¬ (segment = [] ∨ segment = dot))
    (down : segment ≠ dotdot) :
    if parts.length < PATH_MAX / 2 ∧ (render (parts ++ [segment])).length < outLen then
      (s.next outLen segment).2 = none ∧ Builds outLen (s.next outLen segment).1 (parts ++ [segment])
    else (s.next outLen segment).2 = some ENAMETOOLONG ∧ (s.next outLen segment).1.written ≤ outLen := by
  obtain ⟨out, marked, ended, room, -⟩ := builds
  have total := marked.length_concat segment
  have grown : Marked (s.out.length :: s.marks) (parts ++ [segment]) :=
    out ▸ .cons (fun empty => filled (.inl empty)) marked
  have deeper : (parts ++ [segment]).length = parts.length + 1 := by simp
  rw [Normalizing.next, if_neg filled, if_neg down, marked.length]
  by_cases full : PATH_MAX / 2 ≤ parts.length
  · rw [if_pos full, if_neg (by omega)]
    exact ⟨rfl, room⟩
  rw [if_neg full]
  rw [← out] at total
  by_cases inner : 1 < s.out.length
  · simp only [inner, if_true, true_and, List.length_append, List.length_singleton] at total ⊢
    have written : s.out ++ ['/'] ++ segment = render (parts ++ [segment]) := by
      rw [render_concat (marked.one_lt.mp (out ▸ inner)), out]
      simp
    by_cases slash : outLen ≤ s.out.length + 1
    · rw [if_pos slash, if_neg (by omega)]
      exact ⟨rfl, room⟩
    rw [if_neg slash]
    by_cases tight : outLen ≤ s.out.length + 1 + segment.length
    · rw [if_pos tight, if_neg (by omega)]
      show some _ = some _ ∧ max _ _ ≤ outLen
      exact ⟨rfl, by omega⟩
    · rw [if_neg tight, if_pos (by omega)]
      refine ⟨rfl, written, grown, ?_, ?_, by omega⟩
      · simp only [List.length_append, List.length_singleton]
        omega
      · show max _ _ ≤ outLen
        omega
  · simp only [inner, if_false, false_and] at total ⊢
    obtain rfl : parts = [] := not_not.mp (mt marked.one_lt.mpr (out ▸ inner))
    by_cases tight : outLen ≤ s.out.length + segment.length
    · rw [if_pos tight, if_neg (by omega)]
      exact ⟨rfl, room⟩
    · rw [if_neg tight, if_pos (by omega)]
      refine ⟨rfl, by simp [out, render], grown, ?_, ?_, by omega⟩
      · simp only [List.length_append]
        omega
      · show max _ _ ≤ outLen
        omega

theorem Builds.next (builds : Builds outLen s parts) (segment : Name) :
    match s.next outLen segment with
    | (after, none) => Builds outLen after (goTo parts segment)
    | (after, some _) => after.written ≤ outLen := by
  rw [goTo]
  by_cases stays : segment = [] ∨ segment = dot
  · rw [if_pos stays, Normalizing.next, if_pos stays]
    exact builds
  rw [if_neg stays]
  by_cases up : segment = dotdot
  · rw [if_pos up, Normalizing.next, if_neg stays, if_pos up]
    obtain ⟨out, marked, ended, room, deep⟩ := builds
    generalize same : s.marks = marks at marked
    cases marked with
    | nil => exact ⟨out, same ▸ .nil, ended, room, deep⟩
    | @cons _ above name filled below =>
        have taken : s.out.take (render above).length = render above := by
          rw [out, take_render]
        have shorter := congrArg List.length taken
        rw [List.length_take] at shorter
        rw [List.length_append, List.length_singleton] at deep
        rw [List.dropLast_concat]
        refine ⟨taken, below, ?_, ?_, by omega⟩
        · simp only [List.length_take]
          omega
        · show max _ _ ≤ outLen
          omega
  have added := builds.next_name stays up
  rw [if_neg up]
  generalize s.next outLen segment = result at added
  obtain ⟨after, err⟩ := result
  split at added <;> obtain ⟨rfl, holds⟩ := added <;> exact holds

theorem Builds.run (builds : Builds outLen s parts) (segments : List Name) :
    match s.run outLen segments with
    | (after, none) => Builds outLen after (segments.foldl goTo parts)
    | (after, some _) => after.written ≤ outLen := by
  induction segments generalizing s parts with
  | nil => exact builds
  | cons segment rest ih =>
      have first := builds.next segment
      rw [Normalizing.run, List.foldl_cons]
      split at first
      · rename_i stepped
        rw [stepped]
        exact ih first
      · rename_i stepped
        rw [stepped]
        exact first

theorem run_append (s : Normalizing) (first rest : List Name) : s.run outLen (first ++ rest) =
      match s.run outLen first with
      | (after, none) => after.run outLen rest
      | failed => failed := by
  induction first generalizing s with
  | nil => rfl
  | cons segment first ih =>
      rw [List.cons_append, Normalizing.run, Normalizing.run]
      split
      · exact ih _
      · rename_i failed
        split
        · rename_i same
          exact absurd same (failed _)
        · rfl

theorem run_plain (plain : ∀ name ∈ parts, PlainName name)
    (deep : parts.length ≤ PATH_MAX / 2) (wide : 2 ≤ outLen) (fits : (render parts).length < outLen) :
    (Normalizing.run outLen ⟨['/'], [], 2⟩ parts).2 = none := by
  induction parts using List.reverseRecOn with
  | nil => rfl
  | append_singleton parts name ih =>
      have above : ∀ name ∈ parts, PlainName name :=
        fun name member => plain name (List.mem_append_left _ member)
      have shorter : (render parts).length ≤ (render (parts ++ [name])).length := by
        rw [← take_render parts name, List.length_take]
        exact Nat.min_le_right _ _
      have begun := ih above ((List.length_append ▸ Nat.le_add_right _ _).trans deep) (shorter.trans_lt fits)
      have built := (builds_root wide).run parts
      rw [run_append]
      split at built
      · rename_i after same
        rw [same]
        rw [← place, Posix.place_of_plain above] at built
        have own := plain name (List.mem_append_right _ (List.mem_singleton.mpr rfl))
        have last := built.next_name (not_or.mpr ⟨own.1, own.2.1⟩) own.2.2.1
        rw [if_pos ⟨by simpa [Nat.succ_le_iff] using deep, fits⟩] at last
        show (Normalizing.run _ _ _).2 = none
        rw [Normalizing.run]
        split
        · rfl
        · exact last.1
      · rename_i failed
        rw [failed] at begun
        cases begun

/-- What a call makes of an absolute path: within the buffer, the normal form or an
error, and the same again where the result is normalised once more. -/
def Normalizes (outLen : Nat) (path : Text) : Prop :=
  let after := normalizeInto outLen path
  after.1.written ≤ outLen ∧ (after.2 = none → after.1.out = normalForm path ∧
      (normalizeInto outLen after.1.out).2 = none ∧ (normalizeInto outLen after.1.out).1.out = after.1.out)

theorem place_render (plain : ∀ name ∈ parts, PlainName name) : place (splitSlash (render parts)) = parts := by
  by_cases root : parts = []
  · rw [root]
    rfl
  · rw [Posix.splitSlash_render (fun name member => (plain name member).2.2.2) root]
    exact Posix.place_of_plain plain

theorem normalForm_normal (path : Text) : normalForm (normalForm path) = normalForm path := by
  rw [normalForm, normalForm, place_render (Posix.plain_place (Posix.slash_not_mem_splitSlash path))]

theorem normalizeInto_out (done : (normalizeInto outLen path).2 = none) :
    Builds outLen (normalizeInto outLen path).1 (place (splitSlash path)) ∧ 2 ≤ outLen := by
  rw [normalizeInto] at done ⊢
  split at done
  · cases done
  rename_i usable
  rw [if_neg usable]
  have wide : 2 ≤ outLen := not_lt.mp fun narrow => usable (.inr narrow)
  have built := (builds_root wide).run (splitSlash path)
  split at built
  · rename_i same
    rw [same]
    exact ⟨built, wide⟩
  · rename_i failed
    rw [failed] at done
    cases done

theorem normalizes (outLen : Nat) (path : Text) : Normalizes outLen path := by
  constructor
  · rw [normalizeInto]
    split
    · exact Nat.zero_le _
    · rename_i usable
      have built := (builds_root (not_lt.mp fun narrow => usable (.inr narrow))).run (splitSlash path)
      split at built
      · rename_i same
        rw [same]
        exact built.room
      · rename_i same
        rw [same]
        exact built
  intro done
  obtain ⟨built, wide⟩ := normalizeInto_out done
  have plain := Posix.plain_place (Posix.slash_not_mem_splitSlash path)
  have again : (normalizeInto outLen (normalForm path)).2 = none := by
    have usable : ¬ ((normalForm path).head? ≠ some '/' ∨ outLen < 2) :=
      not_or.mpr ⟨not_not.mpr rfl, not_lt.mpr wide⟩
    rw [normalizeInto, if_neg usable, normalForm]
    by_cases root : place (splitSlash path) = []
    · rw [root]
      rfl
    · rw [Posix.splitSlash_render (fun name member => (plain name member).2.2.2) root]
      show (Normalizing.run _ _ (place (splitSlash path))).2 = none
      exact run_plain plain built.deep wide built.length
  have twice := (normalizeInto_out again).1.out.trans (normalForm_normal path)
  exact ⟨built.out, by rw [built.out]; exact again, by rw [built.out]; exact twice⟩

theorem Builds.pushSegment (builds : Builds PATH_MAX s parts) (segment : Name) :
    pushSegment parts segment =
      match (s.next PATH_MAX segment).2 with
      | none => .ok (goTo parts segment)
      | some err => .error err := by
  rw [Direct.pushSegment, goTo]
  by_cases stays : segment = [] ∨ segment = dot
  · rw [if_pos stays, if_pos stays, Normalizing.next, if_pos stays]
  rw [if_neg stays, if_neg stays]
  by_cases up : segment = dotdot
  · rw [if_pos up, if_pos up, Normalizing.next, if_neg stays, if_pos up]
    cases s.marks <;> rfl
  have added := builds.next_name stays up
  have total := builds.marked.length_concat segment
  rw [if_neg up, if_neg up]
  by_cases inner : 1 < (render parts).length <;>
    simp only [inner, if_true, if_false, true_and, false_and] at total ⊢ <;>
    split at added <;> rw [added.1] <;> split_ifs <;> first | rfl | omega

/-- With a buffer of `PATH_MAX` bytes it is the function that the checks call. -/
theorem normalizeAbsolutePathLexical_eq (path : Text) : normalizeAbsolutePathLexical path =
      match normalizeInto PATH_MAX path with
      | (after, none) => .ok after.out
      | (_, some err) => .error err := by
  have loop : ∀ (segments : List Name) (s : Normalizing) (parts : List Name), Builds PATH_MAX s parts →
      (segments.foldlM Direct.pushSegment parts).map render =
        match s.run PATH_MAX segments with
        | (after, none) => .ok after.out
        | (_, some err) => .error err := by
    intro segments
    induction segments with
    | nil => exact fun s parts builds => congrArg Except.ok builds.out.symm
    | cons segment rest ih =>
        intro s parts builds
        have stepped := builds.next segment
        rw [List.foldlM_cons, builds.pushSegment, Normalizing.run]
        split at stepped
        · rename_i same
          rw [same]
          exact ih _ _ stepped
        · rename_i same
          rw [same]
          rfl
  rw [normalizeAbsolutePathLexical, normalizeInto]
  by_cases absolute : path.head? ≠ some '/'
  · rw [if_pos absolute, if_pos (.inl absolute)]
  · rw [if_neg absolute, if_neg (not_or.mpr ⟨absolute, by decide⟩)]
    exact loop _ _ _ (builds_root (by decide))

def guestBase (base : Text) : Text := if base = [] then ['/'] else base

def guestPath (base path : Text) : Text :=
  if path = [] then guestBase base
  else if path.head? = some '/' then path
  else guestBase base ++ '/' :: path

def keep (parts : List Name) (part : Name) : List Name :=
  if 256 ≤ parts.length ∨ part = [] ∨ part = dot then parts
  else if part = dotdot then parts.dropLast
  else parts ++ [part]

/-- The components that are read lead where all of them lead; an empty path needs a base in normal form. -/
def Covered (base path : Text) : Prop :=
  if path = [] then normalForm (guestBase base) = guestBase base
  else (splitSlash ((guestPath base path).take 4095)).foldl keep [] = place (splitSlash (guestPath base path))

def cost (parts : List Name) : Nat := (parts.map (·.length + 1)).sum

theorem length_intercalate (filled : parts ≠ []) : (List.intercalate ['/'] parts).length + 1 = cost parts := by
  induction parts with
  | nil => exact absurd rfl filled
  | cons first rest ih =>
      cases rest with
      | nil => simp [cost]
      | cons second rest =>
          have later := ih (List.cons_ne_nil _ _)
          rw [List.intercalate_cons_cons, List.length_append, List.length_append, List.length_singleton]
          simp only [cost, List.map_cons, List.sum_cons] at later ⊢
          omega

theorem cost_keep (parts : List Name) (part : Name) : cost (keep parts part) ≤ cost parts + (part.length + 1) := by
  rw [keep]
  split
  · omega
  split
  · rcases List.eq_nil_or_concat parts with rfl | ⟨above, last, rfl⟩
    · exact Nat.zero_le _
    · simp [cost]
      omega
  · simp [cost]

theorem cost_kept (parts kept : List Name) : cost (parts.foldl keep kept) ≤ cost kept + cost parts := by
  induction parts generalizing kept with
  | nil => exact le_rfl
  | cons part parts ih =>
      have here := cost_keep kept part
      have later := ih (keep kept part)
      rw [List.foldl_cons]
      simp only [cost, List.map_cons, List.sum_cons] at here later ⊢
      omega

theorem length_kept {text : Text} (absolute : text.head? = some '/') :
    (render ((splitSlash text).foldl keep [])).length ≤ text.length := by
  obtain ⟨rest, rfl⟩ := List.head?_eq_some_iff.mp absolute
  rw [Posix.splitSlash_slash]
  show (render ((splitSlash rest).foldl keep [])).length ≤ rest.length + 1
  by_cases root : (splitSlash rest).foldl keep [] = []
  · rw [root]
    exact Nat.le_add_left _ _
  have kept := length_intercalate root
  obtain ⟨parts, last, ends⟩ := Posix.exists_parts rest
  have whole := @length_intercalate (splitSlash rest) (by simp [ends])
  have less := cost_kept (splitSlash rest) []
  rw [Posix.intercalate_splitSlash] at whole
  rw [render, List.length_cons, kept, whole]
  simpa [cost] using less

/-- What is kept is the place of all components, or of those up to the 256th that is kept. -/
theorem kept_eq_place (parts : List Name) :
    ∃ front, front <+: parts ∧ parts.foldl keep [] = place front ∧
      (front = parts ∨ 256 ≤ (parts.foldl keep []).length) := by
  induction parts using List.reverseRecOn with
  | nil => exact ⟨[], List.prefix_refl _, rfl, .inl rfl⟩
  | append_singleton parts part ih =>
      obtain ⟨front, before, same, whole⟩ := ih
      rw [List.foldl_concat]
      by_cases full : 256 ≤ (parts.foldl keep []).length
      · have stays : keep (parts.foldl keep []) part = parts.foldl keep [] := by
          rw [keep, if_pos (.inl full)]
        rw [stays]
        exact ⟨front, before.trans (List.prefix_append _ _), same, .inr full⟩
      · obtain rfl := whole.resolve_right full
        refine ⟨_, List.prefix_refl _, ?_, .inl rfl⟩
        rw [Posix.place_concat, ← same, keep, goTo]
        simp only [full, false_or]

theorem normalizeGuestPath_eq (base path : Text) : normalizeGuestPath base path =
      if path = [] then (guestBase base).take 4095
      else (render ((splitSlash ((guestPath base path).take 4095)).foldl keep [])).take 4095 := by
  rw [normalizeGuestPath, guestPath]
  by_cases empty : path = []
  · rw [if_pos empty, if_pos empty]
    rfl
  · rw [if_neg empty, if_neg empty, if_neg empty]
    rfl

theorem guest_agrees_iff {base path : Text} (short : base.length < PATH_MAX)
    (absolute : base = [] ∨ base.head? = some '/') :
    normalizeGuestPath base path = normalForm (guestPath base path) ↔ Covered base path := by
  have rooted : (guestBase base).head? = some '/' := by
    rw [guestBase]
    split
    · rfl
    · rename_i filled
      exact absolute.resolve_left filled
  rw [normalizeGuestPath_eq, Covered]
  by_cases empty : path = []
  · have fits : (guestBase base).length ≤ 4095 := by
      rw [guestBase]
      split
      · decide
      · exact Nat.le_of_lt_succ short
    rw [if_pos empty, if_pos empty, guestPath, if_pos empty, List.take_of_length_le fits]
    exact eq_comm
  rw [if_neg empty, if_neg empty]
  have start : ((guestPath base path).take 4095).head? = some '/' := by
    rw [guestPath, if_neg empty, List.head?_take, if_neg (by decide)]
    split
    · assumption
    · rw [List.head?_append, rooted]
      rfl
  have fits := (length_kept start).trans (List.length_take_le _ _)
  rw [List.take_of_length_le fits]
  constructor
  · intro same
    obtain ⟨front, before, kept, _⟩ := kept_eq_place (splitSlash ((guestPath base path).take 4095))
    have plain := @Posix.plain_place front fun name member =>
      Posix.slash_not_mem_splitSlash _ name (before.subset member)
    have placed := congrArg (fun text => place (splitSlash text)) same
    rw [kept, normalForm, place_render plain,
      place_render (Posix.plain_place (Posix.slash_not_mem_splitSlash _))] at placed
    rw [kept, placed]
  · intro same
    rw [same, normalForm]

end PDocker.Direct
