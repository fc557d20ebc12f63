import PDocker.Posix.Lexical

/-!
# Spelled paths

A path string, the components that it spells, and where they lead when no link
is met. A string that ends at a slash of a longer one is a prefix of it by
components, and components that never climb above their start lead to the same
place from everywhere.
-/

set_option autoImplicit false

namespace PDocker.Posix

@[simp] theorem splitSlash_slash (text : List Char) : splitSlash ('/' :: text) = [] :: splitSlash text :=
  if_pos rfl

theorem splitSlash_of_plain {name : List Char} (plain : '/' ∉ name) : splitSlash name = [name] := by
  induction name with
  | nil => rfl
  | cons char rest ih =>
      have away : char ≠ '/' := fun same => plain (same ▸ List.mem_cons_self)
      rw [splitSlash, if_neg away, ih fun member => plain (List.mem_cons_of_mem _ member)]

theorem slash_not_mem_splitSlash (text : List Char) : ∀ part ∈ splitSlash text, '/' ∉ part := by
  induction text with
  | nil => simp [splitSlash]
  | cons char rest ih =>
      rw [splitSlash]
      split
      · intro part member
        rcases List.mem_cons.mp member with rfl | member
        · exact List.not_mem_nil
        · exact ih part member
      rename_i other
      split
      · intro part member
        rw [List.mem_singleton.mp member]
        simpa using Ne.symm other
      rename_i first more split
      rw [split] at ih
      intro part member
      rcases List.mem_cons.mp member with rfl | member
      · have away := ih first List.mem_cons_self
        rw [List.mem_cons, not_or]
        exact ⟨Ne.symm other, away⟩
      · exact ih part (List.mem_cons_of_mem _ member)

theorem exists_parts (text : List Char) : ∃ parts last, splitSlash text = parts ++ [last] := by
  have filled : splitSlash text ≠ [] := by
    cases text with
    | nil => simp [splitSlash]
    | cons char rest =>
        rw [splitSlash]
        split
        · simp
        · split <;> simp
  exact ⟨_, _, (List.dropLast_append_getLast filled).symm⟩

theorem intercalate_splitSlash (text : List Char) : List.intercalate ['/'] (splitSlash text) = text := by
  induction text with
  | nil => rfl
  | cons char rest ih =>
      obtain ⟨parts, last, split⟩ := exists_parts rest
      rw [splitSlash]
      cases splitRest : splitSlash rest with
      | nil => simp [splitRest] at split
      | cons first more =>
          rw [splitRest] at ih
          split
          · rename_i slash
            rw [slash, List.intercalate_cons_cons, ih]
            rfl
          cases more with
          | nil => simpa using ih
          | cons second more =>
              rw [List.intercalate_cons_cons] at ih ⊢
              simpa using ih

theorem splitSlash_append_slash (left right : List Char) :
    splitSlash (left ++ '/' :: right) = splitSlash left ++ splitSlash right := by
  induction left with
  | nil => simp [splitSlash]
  | cons char left ih =>
      obtain ⟨parts, last, split⟩ := exists_parts left
      rw [List.cons_append, splitSlash, splitSlash, ih]
      cases splitLeft : splitSlash left with
      | nil => simp [splitLeft] at split
      | cons first more =>
          by_cases slash : char = '/'
          · simp [slash]
          · simp [slash]

variable {parts raw : List Name} {text : List Char}

theorem splitSlash_intercalate (whole : ∀ part ∈ parts, '/' ∉ part)
    (filled : parts ≠ []) : splitSlash (List.intercalate ['/'] parts) = parts := by
  induction parts with
  | nil => exact absurd rfl filled
  | cons first parts ih =>
      have here := splitSlash_of_plain (whole first List.mem_cons_self)
      cases parts with
      | nil => simpa using here
      | cons second parts =>
          have later := ih (fun part member => whole part (List.mem_cons_of_mem _ member))
            (List.cons_ne_nil _ _)
          rw [List.intercalate_cons_cons, List.append_assoc, List.singleton_append,
            splitSlash_append_slash, here, later]
          rfl

theorem splitSlash_inj {left right : List Char} (same : splitSlash left = splitSlash right) :
    left = right := by
  rw [← intercalate_splitSlash left, same, intercalate_splitSlash]

def render (parts : List Name) : List Char := '/' :: List.intercalate ['/'] parts

theorem splitSlash_render (whole : ∀ part ∈ parts, '/' ∉ part)
    (filled : parts ≠ []) : splitSlash (render parts) = [] :: parts := by
  rw [render, splitSlash_slash, splitSlash_intercalate whole filled]

theorem render_splitSlash (absolute : text.head? = some '/') :
    render ((splitSlash text).drop 1) = text := by
  cases text with
  | nil => cases absolute
  | cons char rest =>
      cases absolute
      rw [splitSlash_slash, List.drop_one, List.tail_cons, render, intercalate_splitSlash]

theorem splitSlash_prefix_iff {above : List Char} :
    splitSlash above <+: splitSlash text ↔ text = above ∨ ∃ rest, text = above ++ '/' :: rest := by
  constructor
  · rintro ⟨rest, split⟩
    by_cases all : rest = []
    · rw [all, List.append_nil] at split
      exact .inl (splitSlash_inj split.symm)
    have whole : ∀ part ∈ rest, '/' ∉ part := by
      intro part member
      apply slash_not_mem_splitSlash text
      rw [← split]
      exact List.mem_append_right _ member
    refine .inr ⟨List.intercalate ['/'] rest, splitSlash_inj ?_⟩
    rw [splitSlash_append_slash, splitSlash_intercalate whole all, split]
  · rintro (rfl | ⟨rest, rfl⟩)
    · exact List.prefix_refl _
    · rw [splitSlash_append_slash]
      exact List.prefix_append _ _

theorem length_render_lt {shorter longer : List Name} (below : shorter <+: longer)
    (proper : shorter.length < longer.length) (filled : longer ≠ [[]]) :
    (render shorter).length < (render longer).length := by
  obtain ⟨rest, rfl⟩ := below
  cases rest with
  | nil => simp at proper
  | cons name rest =>
      induction shorter using List.reverseRecOn with
      | nil =>
          cases rest with
          | nil =>
              have present : name ≠ [] := fun empty => filled (by rw [empty]; rfl)
              simpa [render] using List.length_pos_iff.mpr present
          | cons second rest =>
              simp only [render, List.intercalate_cons_cons, List.length_cons, List.length_append,
                List.intercalate_nil, List.length_nil, List.nil_append]
              omega
      | append_singleton shorter last _ =>
          have grows : ∀ (parts : List Name) (last : Name),
              (List.intercalate ['/'] (parts ++ [last])).length <
                (List.intercalate ['/'] (parts ++ [last] ++ name :: rest)).length := by
            intro parts last
            induction parts with
            | nil => simp [List.intercalate_cons_cons]
            | cons first parts ih =>
                cases parts with
                | nil => simp [List.intercalate_cons_cons]
                | cons second parts => simpa [List.intercalate_cons_cons] using ih
          simpa [render] using grows shorter last

theorem plain_place (whole : ∀ name ∈ raw, '/' ∉ name) : ∀ name ∈ place raw, PlainName name := by
  induction raw using List.reverseRecOn with
  | nil => simp [place]
  | append_singleton raw last ih =>
      have earlier := ih fun name member => whole name (by simp [member])
      rw [place_concat, goTo]
      split
      · exact earlier
      rename_i filled
      split
      · exact fun name member => earlier name (List.mem_of_mem_dropLast member)
      rename_i notUp
      intro name member
      rcases List.mem_append.mp member with old | new
      · exact earlier name old
      · rw [List.mem_singleton.mp new]
        rw [not_or] at filled
        exact ⟨filled.1, filled.2, notUp, whole last (by simp)⟩

theorem place_append (first rest : List Name) : place (first ++ rest) = rest.foldl goTo (place first) := by
  simp [place]

theorem foldl_goTo {rest : List Name} (noUp : dotdot ∉ rest) (cur : Path) :
    rest.foldl goTo cur = cur ++ stripDots rest := by
  induction rest generalizing cur with
  | nil => simp [stripDots]
  | cons name rest ih =>
      rw [List.mem_cons, not_or] at noUp
      rw [List.foldl_cons, ih noUp.2, goTo]
      by_cases stays : name = [] ∨ name = dot
      · rw [if_pos stays]
        rcases stays with blank | dots
        · simp [stripDots, blank]
        · simp [stripDots, dots]
      · rw [if_neg stays, if_neg (Ne.symm noUp.1)]
        simp [stripDots, not_or.mp stays]

/-- Components that, `depth` names below some place, never climb above it. -/
def staysBelow : Nat → List Name → Bool
  | _, [] => true
  | depth, name :: rest =>
      if name = [] ∨ name = dot then staysBelow depth rest
      else if name = dotdot then decide (0 < depth) && staysBelow (depth - 1) rest
      else staysBelow (depth + 1) rest

theorem foldl_goTo_of_stays {raw : List Name} {cur : Path} (base : Path)
    (stays : staysBelow cur.length raw = true) :
    raw.foldl goTo (base ++ cur) = base ++ raw.foldl goTo cur := by
  induction raw generalizing cur with
  | nil => rfl
  | cons name rest ih =>
      rw [staysBelow] at stays
      rw [List.foldl_cons, List.foldl_cons, goTo, goTo]
      split at stays
      · rename_i same
        rw [if_pos same, if_pos same]
        exact ih stays
      rename_i filled
      rw [if_neg filled, if_neg filled]
      split at stays
      · rename_i up
        rw [Bool.and_eq_true, decide_eq_true_eq] at stays
        have inner : cur ≠ [] := List.length_pos_iff.mp stays.1
        rw [if_pos up, if_pos up, List.dropLast_append_of_ne_nil inner]
        apply ih
        rw [List.length_dropLast]
        exact stays.2
      · rename_i down
        rw [if_neg down, if_neg down, List.append_assoc]
        apply ih
        rw [List.length_append]
        exact stays

theorem place_append_of_stays (first : List Name) (stays : staysBelow 0 raw = true) :
    place (first ++ raw) = place first ++ place raw := by
  have moved := @foldl_goTo_of_stays raw [] (place first) stays
  rw [List.append_nil] at moved
  rw [place_append, moved]
  rfl

end PDocker.Posix
