import Mathlib.Algebra.Order.BigOperators.Group.Finset
import PDocker.Data.Replace
import PDocker.Images.Reference

/-!
# Short references

`save_images` writes a reference without the name of the default registry and
`load_images` normalises it again. That gives the reference back only where the
two leave the same things out.
-/

set_option autoImplicit false

namespace PDocker.Images

open Data

def hub : Text := "docker.io/".toList

def hubLibrary : Text := "docker.io/library/".toList

/-- `norm.replace("docker.io/library/", "").replace("docker.io/", "")` -/
def shortName (norm : Text) : Text := replaceText hub [] (replaceText hubLibrary [] norm)

/-- What `normalize_image` makes of a repository. -/
def qualify (repo : Text) : Text :=
  let named := if '/' ∈ repo then repo else "library/".toList ++ repo
  let registry := firstPart '/' named
  if '.' ∈ registry ∨ ':' ∈ registry then named else hub ++ named

/-- A reference that survives the shortening: `docker.io/` is not in it, or its
repository is `docker.io/` and a path that cannot be taken for another registry's. -/
def Abbreviates (ref : Text) : Prop :=
  ¬ hub <:+: ref ∨ '@' ∉ ref ∧ ∃ path, initParts ':' ref = hub ++ path ∧ '/' ∈ path ∧
    ¬ hub <:+: path ∧ '.' ∉ firstPart '/' path ∧ ':' ∉ firstPart '/' path ∧
    ∀ name, path = "library/".toList ++ name → '/' ∉ name

private theorem hub_ne_nil : hub ≠ [] := List.cons_ne_nil _ _

private theorem hubLibrary_ne_nil : hubLibrary ≠ [] := List.cons_ne_nil _ _

theorem hubLibrary_eq : hubLibrary = hub ++ "library/".toList := rfl

variable (path : Text) (name : Text)

private theorem firstPart_hub : firstPart '/' (hub ++ path) = "docker.io".toList := by
  rw [show hub = "docker.io".toList ++ ['/'] from rfl, List.append_assoc]
  exact firstPart_append (by decide) path

private theorem firstPart_library : firstPart '/' ("library/".toList ++ name) = "library".toList := by
  rw [show "library/".toList = "library".toList ++ ['/'] from rfl, List.append_assoc]
  exact firstPart_append (by decide) name

variable {repo tag text : Text}

theorem qualify_bare (slash : '/' ∉ repo) : qualify repo = hubLibrary ++ repo := by
  rw [qualify]
  simp only [if_neg slash]
  rfl

theorem qualify_registry (slash : '/' ∈ repo)
    (registry : '.' ∈ firstPart '/' repo ∨ ':' ∈ firstPart '/' repo) : qualify repo = repo := by
  rw [qualify]
  simp only [if_pos slash, if_pos registry]

theorem qualify_path (slash : '/' ∈ repo) (registry : ¬ ('.' ∈ firstPart '/' repo ∨ ':' ∈ firstPart '/' repo)) :
    qualify repo = hub ++ repo := by
  rw [qualify]
  simp only [if_pos slash, if_neg registry]

theorem qualify_idem (repo : Text) : qualify (qualify repo) = qualify repo := by
  by_cases slash : '/' ∈ repo
  · by_cases registry : '.' ∈ firstPart '/' repo ∨ ':' ∈ firstPart '/' repo
    · rw [qualify_registry slash registry, qualify_registry slash registry]
    rw [qualify_path slash registry]
    apply qualify_registry (List.mem_append_right _ slash)
    rw [firstPart_hub]
    exact .inl (by decide)
  · rw [qualify_bare slash, hubLibrary_eq, List.append_assoc]
    apply qualify_registry (List.mem_append_left _ (by decide))
    rw [firstPart_hub]
    exact .inl (by decide)

theorem at_mem_qualify : '@' ∈ qualify repo ↔ '@' ∈ repo := by
  by_cases slash : '/' ∈ repo
  · by_cases registry : '.' ∈ firstPart '/' repo ∨ ':' ∈ firstPart '/' repo
    · rw [qualify_registry slash registry]
    · rw [qualify_path slash registry, List.mem_append]
      exact or_iff_right (by decide)
  · rw [qualify_bare slash, List.mem_append]
    exact or_iff_right (by decide)

theorem normalizeImage_digest {name : Text} (digest : '@' ∈ name) : normalizeImage name = name :=
  if_pos digest

theorem normalizeImage_tagged (plain : '@' ∉ repo ++ ':' :: tag) (colon : ':' ∉ tag) (slash : '/' ∉ tag) :
    normalizeImage (repo ++ ':' :: tag) = qualify repo ++ ':' :: tag := by
  have tagged : ':' ∈ lastPart '/' (repo ++ ':' :: tag) := mem_lastPart_append (by decide) slash
  rw [normalizeImage, if_neg plain]
  simp only [if_pos tagged, initParts_append colon, lastPart_append colon]
  rfl

theorem normalizeImage_cases :
    '@' ∈ normalizeImage name ∨ ∃ repo tag, normalizeImage name = qualify repo ++ ':' :: tag ∧
      '@' ∉ qualify repo ++ ':' :: tag ∧ ':' ∉ tag ∧ '/' ∉ tag := by
  by_cases digest : '@' ∈ name
  · rw [normalizeImage_digest digest]
    exact .inl digest
  right
  have split : ∃ repo tag, (if ':' ∈ lastPart '/' name then name else name ++ ":latest".toList) =
      repo ++ ':' :: tag ∧ ':' ∉ tag ∧ '/' ∉ tag := by
    by_cases tagged : ':' ∈ lastPart '/' name
    · rw [if_pos tagged]
      exact exists_split tagged
    · rw [if_neg tagged]
      exact ⟨name, "latest".toList, rfl, by decide, by decide⟩
  obtain ⟨repo, tag, shape, colon, slash⟩ := split
  have result : normalizeImage name = qualify repo ++ ':' :: tag := by
    rw [normalizeImage, if_neg digest]
    simp only [shape, initParts_append colon, lastPart_append colon]
    rfl
  have plain : '@' ∉ repo ++ ':' :: tag := by
    rw [← shape]
    split
    · exact digest
    intro member
    rcases List.mem_append.mp member with inside | inside
    · exact digest inside
    · revert inside
      decide
  refine ⟨repo, tag, result, ?_, colon, slash⟩
  rwa [List.mem_append, at_mem_qualify, ← List.mem_append]

private theorem hub_front : hub <+: hubLibrary := ⟨"library/".toList, rfl⟩

theorem shortName_of_absent (absent : ¬ hub <:+: text) : shortName text = text := by
  have longer : ¬ hubLibrary <:+: text := fun found => absent (hub_front.isInfix.trans found)
  rw [shortName, replaceText_of_absent longer, replaceText_of_absent absent]

theorem sublist_shortName (text : Text) : (shortName text).Sublist text :=
  (sublist_replaceText hub_ne_nil _).trans (sublist_replaceText hubLibrary_ne_nil text)

theorem length_shortName_lt (found : hub <:+: text) : (shortName text).length < text.length := by
  by_cases longer : hubLibrary <:+: text
  · have second := (sublist_replaceText hub_ne_nil (replaceText hubLibrary [] text)).length_le
    exact Nat.lt_of_le_of_lt second (length_replaceText_lt hubLibrary_ne_nil longer)
  · rw [shortName, replaceText_of_absent longer]
    exact length_replaceText_lt hub_ne_nil found

theorem shortName_eq_self_iff : shortName text = text ↔ ¬ hub <:+: text := by
  constructor
  · intro same found
    have shorter := length_shortName_lt found
    rw [same] at shorter
    exact Nat.lt_irrefl _ shorter
  · exact shortName_of_absent

theorem shortName_of_not_mem (slash : '/' ∉ text) : shortName text = text := by
  apply shortName_of_absent
  intro found
  exact slash (found.subset (by decide))

theorem shortName_tagged (repo : Text) (slash : '/' ∉ tag) :
    shortName (repo ++ ':' :: tag) = shortName repo ++ ':' :: tag := by
  have split : shortName (repo ++ ':' :: tag) = shortName repo ++ ':' :: shortName tag := by
    rw [shortName, replaceText_append_cons (by decide) hubLibrary_ne_nil,
      replaceText_append_cons (by decide) hub_ne_nil]
    rfl
  rw [split, shortName_of_not_mem slash]

theorem shortName_hubLibrary : shortName (hubLibrary ++ path) = shortName path := by
  rw [shortName, replaceText_append hubLibrary_ne_nil]
  rfl

theorem shortName_hub {path : Text} (other : ¬ "library/".toList <+: path) :
    shortName (hub ++ path) = shortName path := by
  have absent : ¬ hubLibrary <+: 'd' :: ("ocker.io/".toList ++ path) := by
    intro front
    have whole : hub ++ "library/".toList <+: hub ++ path := front
    exact other ((List.prefix_append_right_inj hub).mp whole)
  have behind : replaceText hubLibrary [] ("ocker.io/".toList ++ path) =
      "ocker.io/".toList ++ replaceText hubLibrary [] path :=
    replaceText_append_left (by decide) path
  have first : replaceText hubLibrary [] (hub ++ path) = hub ++ replaceText hubLibrary [] path := by
    rw [show hub ++ path = 'd' :: ("ocker.io/".toList ++ path) from rfl, replaceText_cons _ absent,
      behind]
    rfl
  rw [shortName, first, replaceText_append hub_ne_nil]
  rfl

theorem shortName_append_left {left : Text} (away : 'd' ∉ left) (right : Text) :
    shortName (left ++ right) = left ++ shortName right := by
  have short : hub = 'd' :: "ocker.io/".toList := rfl
  have long : hubLibrary = 'd' :: "ocker.io/library/".toList := rfl
  simp only [shortName, short, long, replaceText_append_left away]

private theorem shortName_qualify (repo : Text) :
    shortName (qualify repo) = repo ∨ (shortName (qualify repo)).length < repo.length := by
  by_cases slash : '/' ∈ repo
  · have again : shortName repo = repo ∨ (shortName repo).length < repo.length := by
      by_cases found : hub <:+: repo
      · exact .inr (length_shortName_lt found)
      · exact .inl (shortName_of_absent found)
    by_cases registry : '.' ∈ firstPart '/' repo ∨ ':' ∈ firstPart '/' repo
    · rw [qualify_registry slash registry]
      exact again
    rw [qualify_path slash registry]
    by_cases library : "library/".toList <+: repo
    · obtain ⟨name, rfl⟩ := library
      right
      have cut : shortName (hub ++ ("library/".toList ++ name)) = shortName name :=
        shortName_hubLibrary name
      have less := (sublist_shortName name).length_le
      rw [cut, List.length_append]
      exact Nat.lt_of_le_of_lt less (Nat.lt_add_of_pos_left (by decide))
    · rw [shortName_hub library]
      exact again
  · left
    rw [qualify_bare slash, shortName_hubLibrary, shortName_of_not_mem slash]

def loadedName (ref : Text) : Text := normalizeImage (shortName ref)

private theorem loadedName_tagged (plain : '@' ∉ repo ++ ':' :: tag) (colon : ':' ∉ tag) (slash : '/' ∉ tag) :
    loadedName (repo ++ ':' :: tag) = qualify (shortName repo) ++ ':' :: tag := by
  have short : '@' ∉ shortName repo ++ ':' :: tag := by
    intro member
    apply plain
    rcases List.mem_append.mp member with inside | inside
    · exact List.mem_append_left _ ((sublist_shortName repo).subset inside)
    · exact List.mem_append_right _ inside
  rw [loadedName, shortName_tagged repo slash, normalizeImage_tagged short colon slash]

private theorem at_mem_shortName : '@' ∈ shortName text ↔ '@' ∈ text := by
  rw [shortName, (removal_replaceText hub_ne_nil _).mem_iff (by decide),
    (removal_replaceText hubLibrary_ne_nil text).mem_iff (by decide)]

theorem loadedName_digest {ref : Text} (digest : '@' ∈ ref) : loadedName ref = shortName ref :=
  normalizeImage_digest (at_mem_shortName.mpr digest)

theorem shortName_loadedName :
    shortName (loadedName (normalizeImage name)) = shortName (normalizeImage name) ∨
      (shortName (loadedName (normalizeImage name))).length <
        (shortName (normalizeImage name)).length := by
  rcases normalizeImage_cases name with digest | ⟨repo, tag, shape, plain, colon, slash⟩
  · rw [loadedName_digest digest]
    by_cases found : hub <:+: shortName (normalizeImage name)
    · exact .inr (length_shortName_lt found)
    · exact .inl (shortName_of_absent found)
  · rw [shape, loadedName_tagged plain colon slash, shortName_tagged _ slash, shortName_tagged _ slash]
    rcases shortName_qualify (shortName (qualify repo)) with same | shorter
    · exact .inl (by rw [same])
    · right
      simpa using shorter

private theorem qualify_shortName_iff (normal : qualify repo = repo) :
    qualify (shortName repo) = repo ↔ ¬ hub <:+: repo ∨ ∃ path, repo = hub ++ path ∧ '/' ∈ path ∧
      ¬ hub <:+: path ∧ '.' ∉ firstPart '/' path ∧ ':' ∉ firstPart '/' path ∧
      ∀ name, path = "library/".toList ++ name → '/' ∉ name := by
  constructor
  · intro same
    by_cases found : hub <:+: repo
    · right
      have shorter := length_shortName_lt found
      by_cases slash : '/' ∈ shortName repo
      · by_cases registry : '.' ∈ firstPart '/' (shortName repo) ∨ ':' ∈ firstPart '/' (shortName repo)
        · rw [qualify_registry slash registry] at same
          rw [same] at shorter
          exact absurd shorter (Nat.lt_irrefl _)
        rw [qualify_path slash registry] at same
        rw [not_or] at registry
        have other : ¬ "library/".toList <+: shortName repo := by
          rintro ⟨name, split⟩
          have cut : shortName repo = shortName name := by
            conv => lhs; rw [← same, ← split]
            exact shortName_hubLibrary name
          have less := (sublist_shortName name).length_le
          rw [← cut, ← split, List.length_append] at less
          exact absurd less (by simp)
        refine ⟨shortName repo, same.symm, slash, ?_, registry.1, registry.2, ?_⟩
        · have twice : shortName (hub ++ shortName repo) = shortName (shortName repo) :=
            shortName_hub other
          rw [same] at twice
          exact shortName_eq_self_iff.mp twice.symm
        · intro name split
          exact absurd ⟨name, split.symm⟩ other
      · rw [qualify_bare slash] at same
        refine ⟨"library/".toList ++ shortName repo, same.symm, List.mem_append_left _ (by decide), ?_,
          firstPart_library _ ▸ by decide, firstPart_library _ ▸ by decide, ?_⟩
        · rw [← shortName_eq_self_iff, shortName_append_left (by decide), shortName_of_not_mem slash]
        · intro name split
          rwa [← List.append_cancel_left split]
    · exact .inl found
  · rintro (absent | ⟨path, rfl, slash, absent, dot, colon, library⟩)
    · rw [shortName_of_absent absent, normal]
    by_cases front : "library/".toList <+: path
    · obtain ⟨name, rfl⟩ := front
      have bare := library name rfl
      have cut : shortName (hub ++ ("library/".toList ++ name)) = shortName name :=
        shortName_hubLibrary name
      rw [cut, shortName_of_not_mem bare, qualify_bare bare]
      rfl
    · rw [shortName_hub front, shortName_of_absent absent, qualify_path slash (not_or.mpr ⟨dot, colon⟩)]

theorem loadedName_eq_iff :
    loadedName (normalizeImage name) = normalizeImage name ↔ Abbreviates (normalizeImage name) := by
  rcases normalizeImage_cases name with digest | ⟨repo, tag, shape, plain, colon, slash⟩
  · rw [loadedName_digest digest, shortName_eq_self_iff]
    constructor
    · exact .inl
    · rintro (absent | ⟨plain, _⟩)
      · exact absent
      · exact absurd digest plain
  · have inside : hub <:+: qualify repo ++ ':' :: tag ↔ hub <:+: qualify repo := by
      rw [← not_iff_not, ← shortName_eq_self_iff, ← shortName_eq_self_iff, shortName_tagged _ slash,
        List.append_left_inj]
    rw [shape, loadedName_tagged plain colon slash, List.append_left_inj,
      qualify_shortName_iff (qualify_idem repo), Abbreviates, inside, initParts_append colon]
    simp only [plain, not_false_eq_true, true_and]

theorem loadedName_fixes {refs : List Text} (normal : ∀ ref ∈ refs, ∃ name, normalizeImage name = ref)
    (onto : ∀ ref ∈ refs, ∃ saved ∈ refs, loadedName saved = ref) :
    ∀ ref ∈ refs, loadedName ref = ref := by
  have covered : refs.toFinset ⊆ refs.toFinset.image loadedName := by
    intro ref member
    obtain ⟨saved, here, same⟩ := onto ref (List.mem_toFinset.mp member)
    exact Finset.mem_image.mpr ⟨saved, List.mem_toFinset.mpr here, same⟩
  have image : refs.toFinset.image loadedName = refs.toFinset :=
    (Finset.eq_of_subset_of_card_le covered Finset.card_image_le).symm
  have injective : Set.InjOn loadedName refs.toFinset :=
    Finset.card_image_iff.mp (congrArg Finset.card image)
  have shrinks : ∀ ref ∈ refs.toFinset,
      (shortName (loadedName ref)).length ≤ (shortName ref).length := by
    intro ref member
    obtain ⟨name, rfl⟩ := normal ref (List.mem_toFinset.mp member)
    rcases shortName_loadedName name with same | shorter
    · exact Nat.le_of_eq (congrArg List.length same)
    · exact Nat.le_of_lt shorter
  -- the names as a whole stay as long as they were, so none of them shrinks
  have total : ∑ ref ∈ refs.toFinset, (shortName (loadedName ref)).length =
      ∑ ref ∈ refs.toFinset, (shortName ref).length := by
    conv => rhs; rw [← image, Finset.sum_image injective]
  intro ref member
  have here : ref ∈ refs.toFinset := List.mem_toFinset.mpr member
  have same : shortName (loadedName ref) = shortName ref := by
    have lengths := (Finset.sum_eq_sum_iff_of_le shrinks).mp total ref here
    obtain ⟨name, rfl⟩ := normal ref member
    rcases shortName_loadedName name with same | shorter
    · exact same
    · exact absurd lengths (Nat.ne_of_lt shorter)
  have again : loadedName (loadedName ref) = loadedName ref := congrArg normalizeImage same
  have inside : loadedName ref ∈ refs.toFinset := image ▸ Finset.mem_image_of_mem loadedName here
  exact injective inside here again

end PDocker.Images
