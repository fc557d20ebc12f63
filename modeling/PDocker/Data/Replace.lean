import PDocker.Data.Text

/-!
# Deleting every occurrence of a part

`text.replace(part, "")` goes through the text once, so a part that is left
over from both sides of a deletion stays.
-/

set_option autoImplicit false

namespace PDocker.Data

/-- `Removal part text short`: deleting `part` from left to right leaves `short`. -/
inductive Removal (part : Text) : Text → Text → Prop where
  | nil : Removal part [] []
  | cut {rest short : Text} (removal : Removal part rest short) : Removal part (part ++ rest) short
  | keep {char : Char} {rest short : Text} (absent : ¬ part <+: char :: rest)
      (removal : Removal part rest short) : Removal part (char :: rest) (char :: short)

private theorem replaceFrom_drop (old new : Text) (skip : Nat) (text : Text) :
    replaceFrom old new skip text = replaceText old new (text.drop skip) := by
  induction text generalizing skip with
  | nil => cases skip <;> rfl
  | cons char rest ih =>
      cases skip with
      | zero => rfl
      | succ skip => exact ih skip

variable {old part short text : Text} {char : Char}

theorem replaceText_append (filled : old ≠ []) (new rest : Text) :
    replaceText old new (old ++ rest) = new ++ replaceText old new rest := by
  obtain ⟨start, tail, rfl⟩ := List.exists_cons_of_ne_nil filled
  have front : (start :: tail).isPrefixOf (start :: (tail ++ rest)) = true :=
    List.isPrefixOf_iff_prefix.mpr (List.prefix_append (start :: tail) rest)
  have skipped : (tail ++ rest).drop ((start :: tail).length - 1) = rest := List.drop_left
  rw [replaceText, List.cons_append, replaceFrom, if_pos front, replaceFrom_drop, skipped]

theorem replaceText_cons {rest : Text} (new : Text) (absent : ¬ old <+: char :: rest) :
    replaceText old new (char :: rest) = char :: replaceText old new rest := by
  rw [replaceText, replaceFrom, if_neg]
  · rfl
  · rwa [List.isPrefixOf_iff_prefix]

theorem removal_replaceText (filled : part ≠ []) (text : Text) :
    Removal part text (replaceText part [] text) := by
  induction hlength : text.length using Nat.strong_induction_on generalizing text with
  | _ length ih =>
      subst hlength
      cases text with
      | nil => exact .nil
      | cons char rest =>
          by_cases front : part <+: char :: rest
          · obtain ⟨later, split⟩ := front
            have shorter : later.length < (char :: rest).length := by
              have := List.length_pos_of_ne_nil filled
              rw [← split, List.length_append]
              omega
            rw [← split, replaceText_append filled, List.nil_append]
            exact .cut (ih _ shorter later rfl)
          · rw [replaceText_cons _ front]
            exact .keep front (ih _ (Nat.lt_succ_self _) rest rfl)

theorem Removal.sublist (removal : Removal part text short) : short.Sublist text := by
  induction removal with
  | nil => exact .refl []
  | cut _ ih => exact ih.trans (List.sublist_append_right _ _)
  | keep _ _ ih => exact ih.cons_cons _

theorem Removal.mem_iff (removal : Removal part text short) (other : char ∉ part) : char ∈ short ↔ char ∈ text := by
  induction removal with
  | nil => rfl
  | cut _ ih => simp [ih, other]
  | keep _ _ ih => simp [ih]

theorem Removal.length_lt (filled : part ≠ [])
    (removal : Removal part text short) (found : part <:+: text) : short.length < text.length := by
  induction removal with
  | nil => exact absurd (List.infix_nil.mp found) filled
  | @cut rest short removal _ =>
      have less := removal.sublist.length_le
      have := List.length_pos_of_ne_nil filled
      rw [List.length_append]
      omega
  | keep absent _ ih =>
      have inner := (List.infix_cons_iff.mp found).resolve_left absent
      simpa using ih inner

theorem replaceText_of_absent (absent : ¬ part <:+: text) (new : Text) :
    replaceText part new text = text := by
  induction text with
  | nil => rfl
  | cons char rest ih =>
      rw [List.infix_cons_iff, not_or] at absent
      rw [replaceText_cons new absent.1, ih absent.2]

theorem sublist_replaceText (filled : part ≠ []) (text : Text) :
    (replaceText part [] text).Sublist text :=
  (removal_replaceText filled text).sublist

theorem length_replaceText_lt (filled : part ≠ []) (found : part <:+: text) :
    (replaceText part [] text).length < text.length :=
  (removal_replaceText filled text).length_lt filled found

theorem replaceText_append_cons (other : char ∉ part) (filled : part ≠ []) (left right : Text) :
    replaceText part [] (left ++ char :: right) =
      replaceText part [] left ++ char :: replaceText part [] right := by
  induction hlength : left.length using Nat.strong_induction_on generalizing left with
  | _ length ih =>
      subst hlength
      cases left with
      | nil =>
          have absent : ¬ part <+: char :: right := by
            intro front
            obtain ⟨start, tail, rfl⟩ := List.exists_cons_of_ne_nil filled
            rw [(List.cons_prefix_cons.mp front).1] at other
            exact other List.mem_cons_self
          exact replaceText_cons [] absent
      | cons first rest =>
          by_cases front : part <+: first :: rest
          · obtain ⟨later, split⟩ := front
            have shorter : later.length < (first :: rest).length := by
              have := List.length_pos_of_ne_nil filled
              rw [← split, List.length_append]
              omega
            rw [← split, List.append_assoc, replaceText_append filled, replaceText_append filled,
              List.nil_append, List.nil_append]
            exact ih _ shorter later rfl
          · have absent : ¬ part <+: first :: (rest ++ char :: right) := by
              intro across
              have whole : first :: rest <+: first :: (rest ++ char :: right) :=
                List.prefix_append (first :: rest) _
              rcases List.prefix_or_prefix_of_prefix across whole with inner | ⟨more, split⟩
              · exact front inner
              rw [← split, List.cons_append, List.cons_prefix_cons, List.prefix_append_right_inj]
                at across
              cases more with
              | nil => exact front (by rw [← split, List.append_nil])
              | cons next more =>
                  have same : next = char := (List.cons_prefix_cons.mp across.2).1
                  apply other
                  rw [← split, ← same]
                  exact List.mem_append_right _ List.mem_cons_self
            rw [List.cons_append, replaceText_cons _ absent, replaceText_cons _ front,
              ih _ (Nat.lt_succ_self _) rest rfl, List.cons_append]

theorem replaceText_append_left {start : Char} {tail left : Text} (away : start ∉ left) (right : Text) :
    replaceText (start :: tail) [] (left ++ right) = left ++ replaceText (start :: tail) [] right := by
  induction left with
  | nil => rfl
  | cons char left ih =>
      rw [List.mem_cons, not_or] at away
      have absent : ¬ start :: tail <+: char :: (left ++ right) :=
        fun front => away.1 (List.cons_prefix_cons.mp front).1
      rw [List.cons_append, replaceText_cons _ absent, ih away.2, List.cons_append]

end PDocker.Data
