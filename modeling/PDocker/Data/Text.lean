import Mathlib.Data.List.DropRight
import Mathlib.Data.List.Infix
import Mathlib.Algebra.GroupWithZero.Nat

/-!
# Text

Strings as lists of characters, with the operations of Python's `str` that the
engine uses.
-/

set_option autoImplicit false

namespace PDocker.Data

abbrev Text := List Char

instance lawfulBEqText : LawfulBEq (List Char) := inferInstance

/-- The characters that `str.strip` removes. -/
def isPythonSpace (char : Char) : Bool :=
  let code := char.toNat
  (9 ≤ code && code ≤ 13) || (28 ≤ code && code ≤ 32) || code = 133 || code = 160 ||
    code = 5760 || (8192 ≤ code && code ≤ 8202) || code = 8232 || code = 8233 || code = 8239 ||
    code = 8287 || code = 12288

/-- `strip()` -/
def stripSpace (text : Text) : Text :=
  ((text.dropWhile isPythonSpace).reverse.dropWhile isPythonSpace).reverse

/-- `part in text` -/
def contains (part text : Text) : Bool := decide (part <:+: text)

/-- `text.split(part, 1)[0]` -/
def before (part : Text) : Text → Text
  | [] => []
  | char :: rest => if part.isPrefixOf (char :: rest) then [] else char :: before part rest

/-- `text.split(char)[0]` -/
def firstPart (char : Char) (text : Text) : Text := text.takeWhile (· ≠ char)

/-- `text.split(char)` -/
def splitParts (char : Char) : Text → List Text
  | [] => [[]]
  | first :: rest =>
      if first = char then [] :: splitParts char rest
      else
        match splitParts char rest with
        | [] => [[first]]
        | part :: parts => (first :: part) :: parts

/-- `text.split(char)[-1]` -/
def lastPart (char : Char) (text : Text) : Text :=
  (text.reverse.takeWhile (· ≠ char)).reverse

/-- `char.join(text.split(char)[:-1])` -/
def initParts (char : Char) (text : Text) : Text :=
  ((text.reverse.dropWhile (· ≠ char)).drop 1).reverse

/-- `text.replace(old, new)` for an `old` that is not empty, when the first
`skip` characters belong to a match already replaced. -/
def replaceFrom (old new : Text) : Nat → Text → Text
  | _, [] => []
  | skip + 1, _ :: rest => replaceFrom old new skip rest
  | 0, char :: rest =>
      if old.isPrefixOf (char :: rest) then new ++ replaceFrom old new (old.length - 1) rest
      else char :: replaceFrom old new 0 rest

def replaceText (old new text : Text) : Text := replaceFrom old new 0 text

theorem stripSpace_idem (text : Text) : stripSpace (stripSpace text) = stripSpace text := by
  have front : (stripSpace text).dropWhile isPythonSpace = stripSpace text := by
    rw [List.dropWhile_eq_self_iff]
    intro filled
    have inside : stripSpace text <+: text.dropWhile isPythonSpace := by
      rw [stripSpace, ← List.reverse_suffix, List.reverse_reverse]
      exact List.dropWhile_suffix _
    have whole : 0 < (text.dropWhile isPythonSpace).length :=
      Nat.lt_of_lt_of_le filled inside.length_le
    rw [inside.getElem filled]
    exact List.dropWhile_get_zero_not _ _ whole
  rw [stripSpace, front]
  conv => lhs; rw [stripSpace]
  rw [List.reverse_reverse, List.dropWhile_idempotent, ← stripSpace]

theorem stripSpace_sublist (text : Text) : (stripSpace text).Sublist text := by
  rw [stripSpace, ← List.reverse_sublist, List.reverse_reverse]
  exact (List.dropWhile_sublist _).trans (List.reverse_sublist.mpr (List.dropWhile_sublist _))

variable {text part left right tail : Text} {start char sep : Char} {parts : List Text}

theorem stripSpace_eq (dense : ∀ char ∈ text, isPythonSpace char = false) : stripSpace text = text := by
  have kept : ∀ text : Text, (∀ char ∈ text, isPythonSpace char = false) → text.dropWhile isPythonSpace = text := by
    intro text dense
    cases text with
    | nil => rfl
    | cons first rest => rw [List.dropWhile_cons_of_neg (by rw [dense first List.mem_cons_self]; exact Bool.false_ne_true)]
  rw [stripSpace, kept text dense, kept _ fun char member => dense char (List.mem_reverse.mp member), List.reverse_reverse]

theorem contains_iff : contains part text = true ↔ part <:+: text :=
  decide_eq_true_iff

theorem before_isPrefix (part text : Text) : before part text <+: text := by
  induction text with
  | nil => exact List.prefix_refl _
  | cons char rest ih =>
      rw [before]
      split
      · exact List.nil_prefix
      · exact List.cons_prefix_cons.mpr ⟨rfl, ih⟩

theorem not_contains_before (filled : part ≠ []) (text : Text) :
    contains part (before part text) = false := by
  rw [← Bool.not_eq_true, contains_iff]
  induction text with
  | nil => simpa [before] using filled
  | cons char rest ih =>
      rw [before]
      split
      · simpa using filled
      rename_i here
      rw [List.infix_cons_iff]
      rintro (front | inner)
      · apply here
        rw [List.isPrefixOf_iff_prefix]
        exact front.trans (List.cons_prefix_cons.mpr ⟨rfl, before_isPrefix part rest⟩)
      · exact ih inner

private theorem not_prefix_append (once : start ∉ tail) (filled : left ≠ []) (absent : ¬ start :: tail <+: left) :
    ¬ start :: tail <+: left ++ start :: right := by
  intro front
  rcases List.prefix_or_prefix_of_prefix front (List.prefix_append left _) with inner | outer
  · exact absent inner
  obtain ⟨first, left', rfl⟩ := List.exists_cons_of_ne_nil filled
  obtain ⟨more, split⟩ := outer
  rw [← split, List.prefix_append_right_inj] at front
  cases more with
  | nil =>
      rw [List.append_nil] at split
      exact absent (split ▸ List.prefix_refl _)
  | cons char more =>
      have same : char = start := (List.cons_prefix_cons.mp front).1
      have inside : start ∈ tail := by
        have tails : left' ++ char :: more = tail := (List.cons.inj split).2
        rw [← tails, same]
        exact List.mem_append_right _ List.mem_cons_self
      exact once inside

theorem before_append {start : Char} {tail left right : Text} (once : start ∉ tail)
    (absent : contains (start :: tail) left = false) :
    before (start :: tail) (left ++ (start :: tail ++ right)) = left := by
  rw [← Bool.not_eq_true, contains_iff] at absent
  induction left with
  | nil =>
      have front : (start :: tail).isPrefixOf (start :: (tail ++ right)) = true :=
        List.isPrefixOf_iff_prefix.mpr (List.prefix_append (start :: tail) right)
      simp only [List.nil_append, List.cons_append, before, front, ↓reduceIte]
  | cons char left ih =>
      rw [List.infix_cons_iff, not_or] at absent
      have later : ¬ start :: tail <+: char :: left ++ start :: (tail ++ right) :=
        not_prefix_append once (List.cons_ne_nil _ _) absent.1
      rw [List.cons_append, before, if_neg]
      · exact congrArg (char :: ·) (ih absent.2)
      · rwa [List.isPrefixOf_iff_prefix]

theorem contains_append (once : start ∉ tail) (found : contains (start :: tail) (left ++ start :: right) = true) :
    contains (start :: tail) left = true ∨ contains (start :: tail) (start :: right) = true := by
  simp only [contains_iff] at found ⊢
  induction left with
  | nil => exact .inr found
  | cons char left ih =>
      rcases List.infix_cons_iff.mp found with front | inner
      · by_cases here : start :: tail <+: char :: left
        · exact .inl here.isInfix
        · exact absurd front (not_prefix_append once (List.cons_ne_nil _ _) here)
      · exact (ih inner).imp_left List.infix_cons

theorem ne_of_away (away : char ∉ text) : ∀ other ∈ text, decide (other ≠ char) = true := by
  intro other member
  rw [decide_eq_true_eq]
  rintro rfl
  exact away member

theorem firstPart_append (away : char ∉ left) (right : Text) :
    firstPart char (left ++ char :: right) = left := by
  rw [firstPart, List.takeWhile_append_of_pos (ne_of_away away), List.takeWhile_cons_of_neg (by simp),
    List.append_nil]

theorem lastPart_append (away : char ∉ right) : lastPart char (left ++ char :: right) = right := by
  have cut : (left ++ char :: right).reverse = right.reverse ++ char :: left.reverse := by simp
  rw [lastPart, cut, List.takeWhile_append_of_pos (ne_of_away (List.mem_reverse.not.mpr away)), List.takeWhile_cons_of_neg (by simp),
    List.append_nil, List.reverse_reverse]

theorem initParts_append (away : char ∉ right) : initParts char (left ++ char :: right) = left := by
  have cut : (left ++ char :: right).reverse = right.reverse ++ char :: left.reverse := by simp
  rw [initParts, cut, List.dropWhile_append_of_pos (ne_of_away (List.mem_reverse.not.mpr away)), List.dropWhile_cons_of_neg (by simp),
    List.drop_one, List.tail_cons, List.reverse_reverse]

theorem mem_lastPart_append (other : char ≠ sep)
    (away : sep ∉ right) : char ∈ lastPart sep (left ++ char :: right) := by
  have plain : ∀ next ∈ (char :: right).reverse, decide (next ≠ sep) = true := by
    intro next member
    rw [decide_eq_true_eq]
    rintro rfl
    rcases List.mem_cons.mp (List.mem_reverse.mp member) with same | inside
    · exact other same.symm
    · exact away inside
  rw [lastPart, List.reverse_append, List.takeWhile_append_of_pos plain, List.reverse_append,
    List.reverse_reverse, List.mem_append]
  exact .inr List.mem_cons_self

theorem exists_split (inside : char ∈ lastPart sep text) :
    ∃ left right, text = left ++ char :: right ∧ char ∉ right ∧ sep ∉ right := by
  rw [lastPart, List.mem_reverse] at inside
  have within : char ∈ text.reverse := (List.takeWhile_sublist _).subset inside
  obtain ⟨right, left, split, away⟩ := List.eq_append_cons_of_mem within
  refine ⟨left.reverse, right.reverse, ?_, by simpa using away, ?_⟩
  · rw [← List.reverse_reverse text, split]
    simp
  intro member
  rw [List.mem_reverse] at member
  have stop : text.reverse.takeWhile (fun next => decide (next ≠ sep)) <+: right := by
    obtain ⟨front, back, cut, plain⟩ := List.eq_append_cons_of_mem member
    have all : ∀ next ∈ front, decide (next ≠ sep) = true := by
      intro next here
      rw [decide_eq_true_eq]
      rintro rfl
      exact plain here
    rw [split, cut, List.append_assoc, List.takeWhile_append_of_pos all, List.cons_append,
      List.takeWhile_cons_of_neg (by simp), List.append_nil]
    exact List.prefix_append _ _
  exact away (stop.subset inside)

theorem splitParts_whole (away : sep ∉ text) : splitParts sep text = [text] := by
  induction text with
  | nil => rfl
  | cons char text ih =>
      rw [List.mem_cons, not_or] at away
      rw [splitParts, if_neg fun same => away.1 same.symm, ih away.2]

theorem splitParts_append (away : sep ∉ text) (rest : Text) :
    splitParts sep (text ++ sep :: rest) = text :: splitParts sep rest := by
  induction text with
  | nil => rw [List.nil_append, splitParts, if_pos rfl]
  | cons char text ih =>
      rw [List.mem_cons, not_or] at away
      rw [List.cons_append, splitParts, if_neg fun same => away.1 same.symm, ih away.2]

theorem splitParts_ne_nil (sep : Char) (text : Text) : splitParts sep text ≠ [] := by
  cases text with
  | nil => exact List.cons_ne_nil _ _
  | cons char rest =>
      rw [splitParts]
      split
      · exact List.cons_ne_nil _ _
      · split <;> exact List.cons_ne_nil _ _

theorem splitParts_append_sep (sep : Char) (left right : Text) :
    splitParts sep (left ++ sep :: right) = splitParts sep left ++ splitParts sep right := by
  induction left with
  | nil => simp only [List.nil_append, splitParts, ↓reduceIte, List.singleton_append]
  | cons char left ih =>
      rw [List.cons_append, splitParts, splitParts, ih]
      by_cases same : char = sep
      · rw [if_pos same, if_pos same, List.cons_append]
      rw [if_neg same, if_neg same]
      cases parts : splitParts sep left with
      | nil => exact absurd parts (splitParts_ne_nil sep left)
      | cons part parts => rfl

theorem intercalate_cons (sep part next : Text) (parts : List Text) :
    sep.intercalate (part :: next :: parts) = part ++ sep ++ sep.intercalate (next :: parts) := by
  simp [List.intercalate]

theorem intercalate_singleton (sep part : Text) : sep.intercalate [part] = part := by
  simp [List.intercalate]

theorem intercalate_concat {sep : Text} (filled : parts ≠ []) (last : Text) :
    sep.intercalate (parts ++ [last]) = sep.intercalate parts ++ sep ++ last := by
  induction parts with
  | nil => exact absurd rfl filled
  | cons part parts ih =>
      cases parts with
      | nil => rw [List.singleton_append, intercalate_cons, intercalate_singleton, intercalate_singleton]
      | cons next parts =>
          rw [List.cons_append, List.cons_append, intercalate_cons, ← List.cons_append, ih (List.cons_ne_nil _ _),
            intercalate_cons]
          simp only [List.append_assoc]

theorem splitParts_intercalate (filled : parts ≠ [])
    (away : ∀ part ∈ parts, sep ∉ part) : splitParts sep ([sep].intercalate parts) = parts := by
  induction parts with
  | nil => exact absurd rfl filled
  | cons part parts ih =>
      rw [List.forall_mem_cons] at away
      cases parts with
      | nil => rw [intercalate_singleton, splitParts_whole away.1]
      | cons next parts =>
          rw [intercalate_cons, List.append_assoc, List.singleton_append, splitParts_append away.1,
            ih (List.cons_ne_nil _ _) away.2]

/-- What `strtok` finds with one delimiter: the parts that are not empty. -/
def tokens (sep : Char) (text : Text) : List Text := (splitParts sep text).filter (· ≠ [])

def separated (sep : Char) (parts : List Text) : Text := parts.flatMap (sep :: ·)

@[simp] theorem separated_append (sep : Char) (left right : List Text) :
    separated sep (left ++ right) = separated sep left ++ separated sep right :=
  List.flatMap_append

theorem splitParts_separated (away : ∀ each ∈ part :: parts, sep ∉ each) :
    splitParts sep (part ++ separated sep parts) = part :: parts := by
  induction parts generalizing part with
  | nil => rw [separated, List.flatMap_nil, List.append_nil, splitParts_whole (away part List.mem_cons_self)]
  | cons next parts ih =>
      rw [List.forall_mem_cons] at away
      rw [separated, List.flatMap_cons, List.cons_append, splitParts_append away.1]
      exact congrArg (part :: ·) (ih away.2)

theorem tokens_separated (plain : ∀ each ∈ part :: parts, each ≠ [] ∧ sep ∉ each) :
    tokens sep (part ++ separated sep parts) = part :: parts := by
  rw [tokens, splitParts_separated fun each member => (plain each member).2]
  exact List.filter_eq_self.mpr fun each member => decide_eq_true (plain each member).1

end PDocker.Data
