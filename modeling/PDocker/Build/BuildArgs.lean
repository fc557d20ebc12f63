import Mathlib.Data.List.Nodup
import PDocker.Data.Replace

/-!
# Build arguments

`expand` replaces the arguments one after the other. What it should do is to replace all
references at once: the longest one at each dollar sign, once.
-/

set_option autoImplicit false

namespace PDocker.Build.Arguments

open PDocker.Data

abbrev BuildArgs := List (Text × Text)

def braced (name : Text) : Text := '$' :: '{' :: name ++ ['}']

def plain (name : Text) : Text := '$' :: name

def expand (args : BuildArgs) (text : Text) : Text :=
  args.foldl (fun text arg => replaceText (plain arg.1) arg.2 (replaceText (braced arg.1) arg.2 text)) text

def spellings (args : BuildArgs) : List (Text × Text) :=
  args.map (fun arg => (braced arg.1, arg.2)) ++ args.map fun arg => (plain arg.1, arg.2)

def longest (text : Text) : List (Text × Text) → Option (Text × Text)
  | [] => none
  | spelling :: more =>
      match longest text more with
      | none => if spelling.1.isPrefixOf text then some spelling else none
      | some other =>
          if spelling.1.isPrefixOf text ∧ other.1.length ≤ spelling.1.length then some spelling else some other

inductive Piece where
  | char (letter : Char)
  | reference (spelled value : Text)
deriving DecidableEq, Repr

def Piece.spelled : Piece → Text
  | .char letter => [letter]
  | .reference spelled _ => spelled

/-- The pieces of a text, when the first `skip` characters belong to a reference already taken. -/
def piecesFrom (args : BuildArgs) : Nat → Text → List Piece
  | _, [] => []
  | skip + 1, _ :: rest => piecesFrom args skip rest
  | 0, char :: rest =>
      match longest (char :: rest) (spellings args) with
      | none => .char char :: piecesFrom args 0 rest
      | some (spelled, value) => .reference spelled value :: piecesFrom args (spelled.length - 1) rest

def pieces (args : BuildArgs) (text : Text) : List Piece := piecesFrom args 0 text

def Piece.render (replaced : List Text) : Piece → Text
  | .char letter => [letter]
  | .reference spelled value => if spelled ∈ replaced then value else spelled

def render (replaced : List Text) (pieces : List Piece) : Text := pieces.flatMap (Piece.render replaced)

def substitute (args : BuildArgs) (text : Text) : Text :=
  (pieces args text).flatMap fun
    | .char letter => [letter]
    | .reference _ value => value

/-- The spelling stands only where a reference is, one that has the value. -/
def StandsAlone (spelled value : Text) (replaced : List Text) (pieces : List Piece) : Prop :=
  ∀ before behind, render replaced pieces = before ++ spelled ++ behind → spelled ∉ replaced ∧
      ∃ left right, pieces = left ++ .reference spelled value :: right ∧ before = render replaced left

def passes (args : BuildArgs) : List (Text × Text) :=
  args.flatMap fun arg => [(braced arg.1, arg.2), (plain arg.1, arg.2)]

/-- At each pass the spelling is met only where it refers to the argument: neither in a value nor
across the end of one, nor as the beginning of a longer reference. -/
def Clear (pieces : List Piece) : List Text → List (Text × Text) → Prop
  | _, [] => True
  | replaced, (spelled, value) :: passes =>
      StandsAlone spelled value replaced pieces ∧ Clear pieces (spelled :: replaced) passes

instance (spelled value : Text) (replaced : List Text) (pieces : List Piece) :
    Decidable (StandsAlone spelled value replaced pieces) :=
  decidable_of_iff
    (∀ i < (render replaced pieces).length + 1, spelled <+: (render replaced pieces).drop i →
      spelled ∉ replaced ∧ ∃ j < pieces.length, pieces[j]? = some (.reference spelled value) ∧
        (render replaced pieces).take i = render replaced (pieces.take j)) <| by
    constructor
    · intro each before behind split
      have bound : before.length < (render replaced pieces).length + 1 := by
        rw [split, List.length_append, List.length_append]
        omega
      have here : spelled <+: (render replaced pieces).drop before.length := by
        rw [split, List.append_assoc, List.drop_left]
        exact List.prefix_append _ _
      obtain ⟨fresh, j, -, found, same⟩ := each before.length bound here
      obtain ⟨inside, listed⟩ := List.getElem?_eq_some_iff.mp found
      refine ⟨fresh, pieces.take j, pieces.drop (j + 1), ?_, ?_⟩
      · rw [← listed, List.getElem_cons_drop, List.take_append_drop]
      · rw [← same, split, List.append_assoc, List.take_left]
    · rintro alone i - ⟨behind, occurs⟩
      have split : render replaced pieces = (render replaced pieces).take i ++ spelled ++ behind := by
        rw [List.append_assoc, occurs, List.take_append_drop]
      obtain ⟨fresh, left, right, listed, same⟩ := alone _ _ split
      refine ⟨fresh, left.length, ?_, ?_, ?_⟩
      · rw [listed, List.length_append, List.length_cons]
        omega
      · rw [listed, List.getElem?_append_right (Nat.le_refl _), Nat.sub_self]
        rfl
      · rw [same]
        congr 1
        rw [listed, List.take_left]

instance decidableClear (pieces : List Piece) :
    ∀ (replaced : List Text) (passes : List (Text × Text)), Decidable (Clear pieces replaced passes)
  | _, [] => isTrue trivial
  | replaced, (spelled, value) :: passes =>
      @instDecidableAnd _ _ (inferInstanceAs (Decidable (StandsAlone spelled value replaced pieces)))
        (decidableClear pieces (spelled :: replaced) passes)

theorem replaceText_pass {old chunk rest : Text} (new : Text)
    (absent : ∀ left right, chunk = left ++ right → right ≠ [] → ¬ old <+: right ++ rest) :
    replaceText old new (chunk ++ rest) = chunk ++ replaceText old new rest := by
  induction chunk with
  | nil => rfl
  | cons char chunk ih =>
      have here : ¬ old <+: char :: (chunk ++ rest) := absent [] (char :: chunk) rfl (List.cons_ne_nil _ _)
      rw [List.cons_append, replaceText_cons new here, List.cons_append]
      refine congrArg (char :: ·) (ih fun left right split filled => ?_)
      exact absent (char :: left) right (congrArg (char :: ·) split) filled

theorem StandsAlone.tail {spelled value : Text} {replaced : List Text} {piece : Piece} {pieces : List Piece}
    (filled : spelled ≠ []) (alone : StandsAlone spelled value replaced (piece :: pieces)) :
    StandsAlone spelled value replaced pieces := by
  intro before behind split
  obtain ⟨fresh, left, right, listed, same⟩ := alone (piece.render replaced ++ before) behind (by
    change piece.render replaced ++ render replaced pieces = _
    rw [split]
    simp only [List.append_assoc])
  refine ⟨fresh, ?_⟩
  cases left with
  | nil =>
      -- the reference itself is the first piece, but the occurrence lies behind it
      obtain ⟨rfl, rfl⟩ := List.cons.inj listed
      have shown : (Piece.reference spelled value).render replaced = spelled := if_neg fresh
      rw [shown] at same
      exact absurd (List.append_eq_nil_iff.mp same).1 filled
  | cons first left =>
      obtain ⟨rfl, rfl⟩ := List.cons.inj listed
      exact ⟨left, right, rfl, List.append_cancel_left same⟩

variable {replaced : List Text} {args other : BuildArgs} {list : List (Text × Text)} {text left right : Text}
  {spelling taken : Text × Text}

theorem replaceText_render {spelled value : Text} {pieces : List Piece}
    (filled : spelled ≠ []) (alone : StandsAlone spelled value replaced pieces) :
    replaceText spelled value (render replaced pieces) = render (spelled :: replaced) pieces := by
  induction pieces with
  | nil => rfl
  | cons piece pieces ih =>
      have rest := ih (alone.tail filled)
      change replaceText spelled value (piece.render replaced ++ render replaced pieces) =
        piece.render (spelled :: replaced) ++ render (spelled :: replaced) pieces
      rw [← rest]
      -- an occurrence that begins in the first piece is that piece
      have first : ∀ left right, piece.render replaced = left ++ right → right ≠ [] →
          spelled <+: right ++ render replaced pieces →
          spelled ∉ replaced ∧ left = [] ∧ piece = .reference spelled value := by
        rintro left right split more ⟨behind, occurs⟩
        obtain ⟨fresh, before, after, listed, same⟩ := alone left behind (by
          change piece.render replaced ++ render replaced pieces = _
          rw [split, List.append_assoc, ← occurs, List.append_assoc])
        refine ⟨fresh, ?_⟩
        cases before with
        | nil => exact ⟨same, (List.cons.inj listed).1⟩
        | cons head before =>
            obtain ⟨rfl, -⟩ := List.cons.inj listed
            have long := congrArg List.length same
            change left.length = (piece.render replaced ++ render replaced before).length at long
            rw [split, List.length_append, List.length_append] at long
            have some_more := List.length_pos_iff.mpr more
            omega
      by_cases this : spelled ∉ replaced ∧ piece = .reference spelled value
      · obtain ⟨fresh, rfl⟩ := this
        have shown : (Piece.reference spelled value).render replaced = spelled := if_neg fresh
        have shownNow : (Piece.reference spelled value).render (spelled :: replaced) = value :=
          if_pos List.mem_cons_self
        rw [shown, shownNow, replaceText_append filled]
      have kept : piece.render (spelled :: replaced) = piece.render replaced := by
        cases piece with
        | char => rfl
        | reference other otherValue =>
            rw [Piece.render, Piece.render]
            by_cases inside : other ∈ replaced
            · rw [if_pos inside, if_pos (List.mem_cons_of_mem _ inside)]
            rw [if_neg inside, if_neg]
            rintro (_ | ⟨_, member⟩)
            · -- another argument has the same spelling
              have shown : (Piece.reference spelled otherValue).render replaced = spelled := if_neg inside
              have found := first [] spelled shown filled (List.prefix_append _ _)
              exact this ⟨found.1, found.2.2⟩
            · exact inside member
      rw [kept]
      refine replaceText_pass value fun left right split more occurs => ?_
      have found := first left right split more occurs
      exact this ⟨found.1, found.2.2⟩

theorem foldl_passes {pieces : List Piece} {passes : List (Text × Text)}
    (filled : ∀ pass ∈ passes, pass.1 ≠ []) (clear : Clear pieces replaced passes) :
    passes.foldl (fun text pass => replaceText pass.1 pass.2 text) (render replaced pieces) =
      render ((passes.map Prod.fst).reverse ++ replaced) pieces := by
  induction passes generalizing replaced with
  | nil => rfl
  | cons pass passes ih =>
      rw [List.forall_mem_cons] at filled
      rw [List.foldl_cons, replaceText_render filled.1 clear.1, ih filled.2 clear.2, List.map_cons,
        List.reverse_cons, List.append_assoc, List.singleton_append]

theorem expand_eq_passes (args : BuildArgs) (text : Text) :
    expand args text = (passes args).foldl (fun text pass => replaceText pass.1 pass.2 text) text := by
  induction args generalizing text with
  | nil => rfl
  | cons arg args ih => exact ih _

theorem passes_filled : ∀ pass ∈ passes args, pass.1 ≠ [] := by
  intro pass member
  obtain ⟨arg, -, inside⟩ := List.mem_flatMap.mp member
  simp only [List.mem_cons, List.not_mem_nil, or_false] at inside
  rcases inside with rfl | rfl <;> exact List.cons_ne_nil _ _

theorem longest_eq_none (none : longest text list = none) :
    ∀ spelling ∈ list, ¬ spelling.1 <+: text := by
  induction list with
  | nil => exact fun _ member => absurd member List.not_mem_nil
  | cons spelling more ih =>
      rw [longest] at none
      split at none
      · rename_i rest
        split at none
        · exact nomatch none
        · rename_i here
          rw [List.forall_mem_cons]
          exact ⟨fun occurs => here (List.isPrefixOf_iff_prefix.mpr occurs), ih rest⟩
      · split at none <;> exact nomatch none

theorem longest_eq_some {found : Text × Text} (some : longest text list = some found) :
    ∃ left right, list = left ++ found :: right ∧ found.1 <+: text ∧
      (∀ spelling ∈ left, spelling.1 <+: text → spelling.1.length < found.1.length) ∧
      ∀ spelling ∈ right, spelling.1 <+: text → spelling.1.length ≤ found.1.length := by
  induction list generalizing found with
  | nil => exact nomatch some
  | cons spelling more ih =>
      rw [longest] at some
      split at some
      · rename_i rest
        split at some
        · rename_i here
          obtain rfl := Option.some.inj some
          refine ⟨[], more, rfl, List.isPrefixOf_iff_prefix.mp here, fun _ member => absurd member List.not_mem_nil, ?_⟩
          exact fun other member occurs => absurd occurs (longest_eq_none rest other member)
        · exact nomatch some
      · rename_i other rest
        obtain ⟨left, right, listed, occurs, before, behind⟩ := ih rest
        split at some
        · rename_i here
          obtain rfl := Option.some.inj some
          refine ⟨[], more, rfl, List.isPrefixOf_iff_prefix.mp here.1, fun _ member => absurd member List.not_mem_nil, ?_⟩
          intro each member occursToo
          rw [listed, List.mem_append, List.mem_cons] at member
          rcases member with member | rfl | member
          · exact Nat.le_trans (Nat.le_of_lt (before each member occursToo)) here.2
          · exact here.2
          · exact Nat.le_trans (behind each member occursToo) here.2
        · rename_i shorter
          obtain rfl := Option.some.inj some
          refine ⟨spelling :: left, right, congrArg (spelling :: ·) listed, occurs, ?_, behind⟩
          rw [List.forall_mem_cons]
          refine ⟨fun occursToo => ?_, before⟩
          exact Nat.lt_of_not_le fun le => shorter ⟨List.isPrefixOf_iff_prefix.mpr occursToo, le⟩

theorem braced_injective (same : braced left = braced right) : left = right :=
  List.append_cancel_right (List.cons.inj (List.cons.inj same).2).2

theorem spellings_filled (member : spelling ∈ spellings args) : spelling.1 ≠ [] := by
  rw [spellings, List.mem_append, List.mem_map, List.mem_map] at member
  rcases member with ⟨arg, -, rfl⟩ | ⟨arg, -, rfl⟩ <;> exact List.cons_ne_nil _ _

theorem value_unique (distinct : (args.map Prod.fst).Nodup) {name : Text}
    (first : (name, left) ∈ args) (second : (name, right) ∈ args) : left = right :=
  congrArg Prod.snd (List.inj_on_of_nodup_map distinct first second rfl)

/-- A reference that is taken is a braced one, or one without braces that no braced one equals. -/
structure Taken (args : BuildArgs) (text : Text) (taken : Text × Text) : Prop where
  occurs : taken.1 <+: text
  longest : ∀ spelling ∈ spellings args, spelling.1 <+: text → spelling.1.length ≤ taken.1.length
  named : (∃ name, (name, taken.2) ∈ args ∧ taken.1 = braced name) ∨
    (∃ name, (name, taken.2) ∈ args ∧ taken.1 = plain name) ∧ ∀ arg ∈ args, braced arg.1 ≠ taken.1

theorem taken_of_longest (found : longest text (spellings args) = some taken) : Taken args text taken := by
  obtain ⟨left, right, listed, occurs, before, behind⟩ := longest_eq_some found
  refine ⟨occurs, ?_, ?_⟩
  · intro spelling member occursToo
    rw [listed, List.mem_append, List.mem_cons] at member
    rcases member with member | rfl | member
    · exact Nat.le_of_lt (before spelling member occursToo)
    · exact Nat.le_refl _
    · exact behind spelling member occursToo
  rw [spellings] at listed
  rcases List.append_eq_append_iff.mp listed with ⟨middle, same, rest⟩ | ⟨middle, same, rest⟩
  · -- the reference is one without braces: all braced ones stand in front of it
    right
    constructor
    · have member : taken ∈ args.map fun arg => (plain arg.1, arg.2) := by
        rw [rest]
        exact List.mem_append_right _ List.mem_cons_self
      obtain ⟨arg, inside, rfl⟩ := List.mem_map.mp member
      exact ⟨arg.1, inside, rfl⟩
    · intro arg inside equal
      have member : (braced arg.1, arg.2) ∈ left := by
        rw [same]
        exact List.mem_append_left _ (List.mem_map.mpr ⟨arg, inside, rfl⟩)
      have shorter := before _ member (by rw [equal]; exact occurs)
      rw [equal] at shorter
      exact Nat.lt_irrefl _ shorter
  · cases middle with
    | nil =>
        right
        rw [List.append_nil] at same
        constructor
        · have member : taken ∈ args.map fun arg => (plain arg.1, arg.2) := by
            rw [← List.nil_append (args.map _), ← rest]
            exact List.mem_cons_self
          obtain ⟨arg, inside, rfl⟩ := List.mem_map.mp member
          exact ⟨arg.1, inside, rfl⟩
        · intro arg inside equal
          have member : (braced arg.1, arg.2) ∈ left := by
            rw [← same]
            exact List.mem_map.mpr ⟨arg, inside, rfl⟩
          have shorter := before _ member (by rw [equal]; exact occurs)
          rw [equal] at shorter
          exact Nat.lt_irrefl _ shorter
    | cons head middle =>
        left
        obtain ⟨rfl, -⟩ := List.cons.inj rest
        have member : taken ∈ args.map fun arg => (braced arg.1, arg.2) := by
          rw [same]
          exact List.mem_append_right _ List.mem_cons_self
        obtain ⟨arg, inside, rfl⟩ := List.mem_map.mp member
        exact ⟨arg.1, inside, rfl⟩

theorem mem_spellings : spelling ∈ spellings args ↔
      ∃ name, (name, spelling.2) ∈ args ∧ (spelling.1 = braced name ∨ spelling.1 = plain name) := by
  rw [spellings, List.mem_append, List.mem_map, List.mem_map]
  constructor
  · rintro (⟨arg, inside, rfl⟩ | ⟨arg, inside, rfl⟩)
    · exact ⟨arg.1, inside, .inl rfl⟩
    · exact ⟨arg.1, inside, .inr rfl⟩
  · rintro ⟨name, inside, same | same⟩
    · exact .inl ⟨_, inside, Prod.ext same.symm rfl⟩
    · exact .inr ⟨_, inside, Prod.ext same.symm rfl⟩

theorem Taken.mem (found : Taken args text taken) : taken ∈ spellings args := by
  rcases found.named with ⟨name, inside, same⟩ | ⟨⟨name, inside, same⟩, -⟩
  · exact mem_spellings.mpr ⟨name, inside, .inl same⟩
  · exact mem_spellings.mpr ⟨name, inside, .inr same⟩

theorem Taken.unique (distinct : (args.map Prod.fst).Nodup)
    {other : Text × Text} (found : Taken args text taken) (foundToo : Taken args text other) :
    taken = other := by
  have length : taken.1.length = other.1.length :=
    Nat.le_antisymm (foundToo.longest taken found.mem found.occurs)
      (found.longest other foundToo.mem foundToo.occurs)
  have spelled : taken.1 = other.1 :=
    (List.prefix_of_prefix_length_le found.occurs foundToo.occurs (Nat.le_of_eq length)).eq_of_length length
  refine Prod.ext spelled ?_
  rcases found.named with ⟨name, inside, same⟩ | ⟨⟨name, inside, same⟩, unbraced⟩
  · rcases foundToo.named with ⟨otherName, insideToo, sameToo⟩ | ⟨-, unbracedToo⟩
    · obtain rfl : name = otherName := braced_injective (same.symm.trans (spelled.trans sameToo))
      exact value_unique distinct inside insideToo
    · exact absurd (same.symm.trans spelled) (unbracedToo _ inside)
  · rcases foundToo.named with ⟨otherName, insideToo, sameToo⟩ | ⟨⟨otherName, insideToo, sameToo⟩, -⟩
    · exact absurd (sameToo.symm.trans spelled.symm) (unbraced _ insideToo)
    · obtain rfl : name = otherName := (List.cons.inj (same.symm.trans (spelled.trans sameToo))).2
      exact value_unique distinct inside insideToo

theorem Taken.perm (same : other.Perm args) (found : Taken other text taken) : Taken args text taken where
  occurs := found.occurs
  longest := by
    intro spelling member
    obtain ⟨name, inside, spelled⟩ := mem_spellings.mp member
    exact found.longest spelling (mem_spellings.mpr ⟨name, same.mem_iff.mpr inside, spelled⟩)
  named := by
    simpa only [same.mem_iff] using found.named

variable (distinct : (args.map Prod.fst).Nodup)

include distinct

theorem longest_perm (same : other.Perm args)
    (text : Text) : longest text (spellings other) = longest text (spellings args) := by
  cases found : longest text (spellings args) with
  | none =>
      cases foundToo : longest text (spellings other) with
      | none => rfl
      | some taken =>
          have moved := (taken_of_longest foundToo).perm same
          exact absurd moved.occurs (longest_eq_none found taken moved.mem)
  | some taken =>
      cases foundToo : longest text (spellings other) with
      | none =>
          have moved := (taken_of_longest found).perm same.symm
          exact absurd moved.occurs (longest_eq_none foundToo taken moved.mem)
      | some otherTaken =>
          exact congrArg some
            (((taken_of_longest foundToo).perm same).unique distinct (taken_of_longest found))

theorem piecesFrom_perm (same : other.Perm args)
    (skip : Nat) (text : Text) : piecesFrom other skip text = piecesFrom args skip text := by
  induction text generalizing skip with
  | nil => cases skip <;> rfl
  | cons char rest ih =>
      cases skip with
      | zero =>
          rw [piecesFrom, piecesFrom, longest_perm distinct same, ih]
          cases longest (char :: rest) (spellings args) with
          | none => rfl
          | some taken => exact congrArg (_ :: ·) (ih _)
      | succ skip => exact ih skip

theorem pieces_perm (same : other.Perm args)
    (text : Text) : pieces other text = pieces args text := piecesFrom_perm distinct same 0 text

theorem substitute_perm (same : other.Perm args)
    (text : Text) : substitute other text = substitute args text := by
  rw [substitute, substitute, pieces_perm distinct same]

omit distinct

theorem piecesFrom_drop (args : BuildArgs) (skip : Nat) (text : Text) :
    piecesFrom args skip text = piecesFrom args 0 (text.drop skip) := by
  induction text generalizing skip with
  | nil => cases skip <;> rfl
  | cons char rest ih =>
      cases skip with
      | zero => rfl
      | succ skip => exact ih skip

theorem pieces_spec (args : BuildArgs) (text : Text) : (pieces args text).flatMap Piece.spelled = text ∧
      ∀ spelled value, .reference spelled value ∈ pieces args text → (spelled, value) ∈ spellings args := by
  rw [pieces]
  generalize size : text.length = n
  induction n using Nat.strong_induction_on generalizing text with
  | _ n ih =>
      cases text with
      | nil => exact ⟨rfl, fun _ _ member => absurd member List.not_mem_nil⟩
      | cons char rest =>
          rw [piecesFrom]
          cases found : longest (char :: rest) (spellings args) with
          | none =>
              obtain ⟨whole, known⟩ := ih rest.length (by rw [← size]; exact Nat.lt_succ_self _) rest rfl
              refine ⟨congrArg (char :: ·) whole, fun spelled value member => ?_⟩
              exact known spelled value ((List.mem_cons.mp member).resolve_left nofun)
          | some taken =>
              have inside := (taken_of_longest found).mem
              obtain ⟨behind, occurs⟩ := (taken_of_longest found).occurs
              obtain ⟨first, more, spelled⟩ := List.exists_cons_of_ne_nil (spellings_filled inside)
              have left : rest.drop (taken.1.length - 1) = behind := by
                rw [spelled, List.cons_append] at occurs
                obtain ⟨-, rfl⟩ := List.cons.inj occurs
                rw [spelled, List.length_cons, Nat.add_sub_cancel, List.drop_left]
              have shorter : behind.length < n := by
                rw [← size, ← occurs, List.length_append]
                have some_left := List.length_pos_iff.mpr (spellings_filled inside)
                omega
              obtain ⟨whole, known⟩ := ih behind.length shorter behind rfl
              have same : piecesFrom args (taken.1.length - 1) rest = piecesFrom args 0 behind := by
                rw [piecesFrom_drop, left]
              change (Piece.reference taken.1 taken.2 :: piecesFrom args (taken.1.length - 1) rest).flatMap
                Piece.spelled = _ ∧ ∀ spelled value, .reference spelled value ∈
                  Piece.reference taken.1 taken.2 :: piecesFrom args (taken.1.length - 1) rest → _
              rw [same]
              refine ⟨?_, fun spelled value member => ?_⟩
              · change taken.1 ++ (piecesFrom args 0 behind).flatMap Piece.spelled = _
                rw [whole, occurs]
              rcases List.mem_cons.mp member with same | member
              · obtain ⟨rfl, rfl⟩ := Piece.reference.inj same
                exact inside
              · exact known spelled value member

theorem render_none (pieces : List Piece) : render [] pieces = pieces.flatMap Piece.spelled := by
  refine List.flatMap_congr fun piece _ => ?_
  cases piece with
  | char => rfl
  | reference spelled value =>
      rw [Piece.render, if_neg List.not_mem_nil]
      rfl

theorem render_all (all : ∀ spelling ∈ spellings args, spelling.1 ∈ replaced) :
    render replaced (pieces args text) = substitute args text := by
  refine List.flatMap_congr fun piece member => ?_
  cases piece with
  | char => rfl
  | reference spelled value => exact if_pos (all _ ((pieces_spec args text).2 spelled value member))

theorem spellings_passed :
    ∀ spelling ∈ spellings args, spelling.1 ∈ ((passes args).map Prod.fst).reverse ++ [] := by
  intro spelling member
  obtain ⟨name, inside, spelled⟩ := mem_spellings.mp member
  rw [List.append_nil, List.mem_reverse, List.mem_map]
  rcases spelled with same | same
  · exact ⟨(braced name, spelling.2), List.mem_flatMap.mpr ⟨_, inside, List.mem_cons_self⟩, same.symm⟩
  · exact ⟨(plain name, spelling.2),
      List.mem_flatMap.mpr ⟨_, inside, List.mem_cons_of_mem _ List.mem_cons_self⟩, same.symm⟩

theorem expand_of_clear (clear : Clear (pieces args text) [] (passes args)) :
    expand args text = substitute args text := by
  have whole : render [] (pieces args text) = text := (render_none _).trans (pieces_spec args text).1
  calc expand args text
      = (passes args).foldl (fun text pass => replaceText pass.1 pass.2 text) (render [] (pieces args text)) := by
        rw [expand_eq_passes, whole]
    _ = render (((passes args).map Prod.fst).reverse ++ []) (pieces args text) := foldl_passes passes_filled clear
    _ = substitute args text := render_all spellings_passed

end PDocker.Build.Arguments
