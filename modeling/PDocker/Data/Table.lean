import Mathlib.Data.List.AList

/-!
# Tables

Dictionaries as association lists without repeated keys. The key inserted last
stands first, so the same lists serve as caches that forget the key that has
not been used for longest.
-/

set_option autoImplicit false

namespace PDocker.Data

abbrev Table (Key Value : Type) := AList fun _ : Key => Value

section
variable {Item Name : Type} [DecidableEq Item] [DecidableEq Name] {name : Item → Name} {occurs : Name → Prop}

theorem perm_iff_filter {first second : List Item} (left : ∀ item ∈ first, occurs (name item))
    (right : ∀ item ∈ second, occurs (name item)) :
    first.Perm second ↔
      ∀ n, occurs n → (first.filter fun item => name item = n).Perm (second.filter fun item => name item = n) := by
  constructor
  · exact fun same n _ => same.filter _
  intro same
  rw [List.perm_iff_count]
  intro item
  by_cases there : occurs (name item)
  · have counted := (same (name item) there).count_eq item
    rwa [List.count_filter (by simp), List.count_filter (by simp)] at counted
  · rw [List.count_eq_zero.mpr fun member => there (left item member),
      List.count_eq_zero.mpr fun member => there (right item member)]

theorem nodup_iff_filter {items : List Item} (all : ∀ item ∈ items, occurs (name item)) :
    items.Nodup ↔ ∀ n, occurs n → (items.filter fun item => name item = n).Nodup := by
  constructor
  · exact fun distinct n _ => distinct.filter _
  intro distinct
  rw [List.nodup_iff_count_le_one]
  intro item
  by_cases member : item ∈ items
  · have counted := List.nodup_iff_count_le_one.mp (distinct (name item) (all item member)) item
    rwa [List.count_filter (by simp)] at counted
  · rw [List.count_eq_zero.mpr member]
    exact Nat.zero_le 1

end

namespace Table

variable {Key Value : Type} [DecidableEq Key]

/-- Pop every key for which `lost` holds. -/
def eraseWhere (lost : Key → Bool) (table : Table Key Value) : Table Key Value :=
  table.keys.foldl (fun now key => if lost key then now.erase key else now) table

theorem lookup_eraseWhere (lost : Key → Bool) (table : Table Key Value) (key : Key) :
    (table.eraseWhere lost).lookup key = if lost key then none else table.lookup key := by
  have loop : ∀ (keys : List Key) (now : Table Key Value),
      (keys.foldl (fun now key => if lost key then now.erase key else now) now).lookup key =
        if key ∈ keys ∧ lost key then none else now.lookup key := by
    intro keys
    induction keys with
    | nil => simp
    | cons first keys ih =>
        intro now
        rw [List.foldl_cons, ih]
        by_cases same : key = first
        · subst same
          cases lost key <;> simp
        · cases lost first <;> simp [same]
  rw [eraseWhere, loop]
  by_cases member : key ∈ table.keys
  · simp [member]
  · have missing : table.lookup key = none := AList.lookup_eq_none.mpr member
    simp [missing]

theorem lookup_insert_eq_ite (table : Table Key Value) (key other : Key) (value : Value) :
    (table.insert key value).lookup other = if other = key then some value else table.lookup other := by
  by_cases same : other = key
  · subst same
    simp
  · simp [same]

theorem lookup_erase_eq_ite (table : Table Key Value) (key other : Key) :
    (table.erase key).lookup other = if other = key then none else table.lookup other := by
  by_cases same : other = key
  · rw [if_pos same, same, AList.lookup_erase]
  · rw [if_neg same, AList.lookup_erase_ne same]

variable {found value : Value} {key other : Key} {table : Table Key Value} {p : Value → Bool}

theorem lookup_insert_cases (looked : (table.insert key value).lookup other = some found) :
    other = key ∧ found = value ∨ other ≠ key ∧ table.lookup other = some found := by
  rw [lookup_insert_eq_ite] at looked
  split at looked
  · rename_i same
    exact .inl ⟨same, (Option.some.inj looked).symm⟩
  · rename_i away
    exact .inr ⟨away, looked⟩

theorem lookup_erase_some (looked : (table.erase key).lookup other = some found) :
    other ≠ key ∧ table.lookup other = some found := by
  rw [lookup_erase_eq_ite] at looked
  split at looked
  · cases looked
  · rename_i away
    exact ⟨away, looked⟩

def count (p : Value → Bool) (table : Table Key Value) : Nat :=
  table.entries.countP fun entry => p entry.2

theorem count_erase (p : Value → Bool) (table : Table Key Value) (key : Key) :
    count p (table.erase key) + ((table.lookup key).elim 0 fun value => (p value).toNat) =
      count p table := by
  suffices walk : ∀ entries : List (Sigma fun _ : Key => Value),
      (entries.kerase key).countP (fun entry => p entry.2) +
        ((entries.dlookup key).elim 0 fun value => (p value).toNat) =
          entries.countP fun entry => p entry.2 from walk table.entries
  intro entries
  induction entries with
  | nil => rfl
  | cons entry entries ih =>
      obtain ⟨first, value⟩ := entry
      by_cases same : key = first
      · subst same
        rw [@List.kerase_cons_eq _ _ _ key ⟨key, value⟩ entries rfl, List.dlookup_cons_eq, List.countP_cons]
        cases holds : p value <;> simp [holds]
      · rw [@List.kerase_cons_ne _ _ _ key ⟨first, value⟩ entries same, List.dlookup_cons_ne _ _ same, List.countP_cons, List.countP_cons]
        omega

theorem count_insert (p : Value → Bool) (table : Table Key Value) (key : Key) (value : Value) :
    count p (table.insert key value) + ((table.lookup key).elim 0 fun old => (p old).toNat) =
      count p table + (p value).toNat := by
  have inserted : count p (table.insert key value) = count p (table.erase key) + (p value).toNat := by
    have erased : count p (table.erase key) = (table.entries.kerase key).countP fun entry => p entry.2 := rfl
    rw [erased, count, AList.entries_insert, List.countP_cons]
    cases p value <;> simp
  have erased := count_erase p table key
  omega

theorem count_insert_alike {old : Value} (found : table.lookup key = some old) (alike : p value = p old) :
    count p (table.insert key value) = count p table := by
  have counted := count_insert p table key value
  rw [found, Option.elim_some, alike] at counted
  omega

theorem count_pos (found : table.lookup key = some value) (holds : p value = true) : 0 < count p table := by
  have counted := count_erase p table key
  rw [found, Option.elim_some, holds, Bool.toNat_true] at counted
  omega

theorem count_eraseWhere {lost : Key → Bool}
    (kept : ∀ key value, table.lookup key = some value → lost key = true → p value = false) :
    count p (table.eraseWhere lost) = count p table := by
  suffices loop : ∀ (keys : List Key) (now : Table Key Value),
      (∀ key value, now.lookup key = some value → lost key = true → p value = false) →
        count p (keys.foldl (fun now key => if lost key then now.erase key else now) now) = count p now from
    loop table.keys table kept
  intro keys
  induction keys with
  | nil => exact fun _ _ => rfl
  | cons first keys ih =>
      intro now kept
      rw [List.foldl_cons]
      split
      · rename_i gone
        have erased := count_erase p now first
        rw [ih _ fun key value looked => kept key value (lookup_erase_some looked).2]
        cases found : now.lookup first with
        | none => simpa [found] using erased
        | some value => simpa [found, kept first value found gone] using erased
      · exact ih now kept

section
variable {Item : Type}

theorem filter_flatMap {table : Table Key Value} {items : Key → Value → List Item} {own : Item → Bool} {key : Key}
    (here : ∀ value, ∀ item ∈ items key value, own item = true)
    (away : ∀ other value, table.lookup other = some value → other ≠ key → ∀ item ∈ items other value, own item = false) :
    (table.entries.flatMap fun entry => items entry.1 entry.2).filter own = (table.lookup key).elim [] (items key) := by
  suffices walk : ∀ entries : List (Sigma fun _ : Key => Value), entries.NodupKeys →
      (∀ entry ∈ entries, entry.1 ≠ key → ∀ item ∈ items entry.1 entry.2, own item = false) →
        (entries.flatMap fun entry => items entry.1 entry.2).filter own = (entries.dlookup key).elim [] (items key) from
    walk table.entries table.nodupKeys fun entry member other =>
      away entry.1 entry.2 (AList.mem_lookup_iff.mpr member) other
  intro entries distinct
  induction entries with
  | nil => exact fun _ => rfl
  | cons entry entries ih =>
      intro others
      have rest := ih (List.nodupKeys_cons.mp distinct).2 fun entry member => others entry (List.mem_cons_of_mem _ member)
      obtain ⟨first, value⟩ := entry
      rw [List.flatMap_cons, List.filter_append, rest]
      by_cases same : key = first
      · subst same
        have gone : entries.dlookup key = none :=
          List.dlookup_eq_none.mpr (List.nodupKeys_cons.mp distinct).1
        rw [List.dlookup_cons_eq, gone, List.filter_eq_self.mpr (here value), Option.elim_some, Option.elim_none,
          List.append_nil]
      · have none_own : (items first value).filter own = [] :=
          List.filter_eq_nil_iff.mpr fun item member => by
            rw [others ⟨first, value⟩ List.mem_cons_self (fun equal => same equal.symm) item member]
            exact Bool.false_ne_true
        rw [List.dlookup_cons_ne _ _ same]
        exact congrArg (· ++ _) none_own

end

/-- Insert and drop the oldest keys until at most `limit` are left. -/
def putBounded (limit : Nat) (table : Table Key Value) (key : Key) (value : Value) :
    Table Key Value where
  entries := (table.insert key value).entries.take limit
  nodupKeys := (table.insert key value).nodupKeys.sublist (List.take_sublist _ _)

theorem lookup_putBounded {limit : Nat} (present : (table.putBounded limit key value).lookup other = some found) :
    (other = key ∧ found = value) ∨ table.lookup other = some found := by
  have member : Sigma.mk other found ∈ (table.insert key value).entries :=
    List.mem_of_mem_take (AList.mem_lookup_iff.mp present)
  have looked : (table.insert key value).lookup other = some found := AList.mem_lookup_iff.mpr member
  rw [lookup_insert_eq_ite] at looked
  by_cases same : other = key
  · simp only [same, ↓reduceIte, Option.some.injEq] at looked
    exact .inl ⟨same, looked.symm⟩
  · simp only [same, ↓reduceIte] at looked
    exact .inr looked

theorem lookup_touch (found : table.lookup key = some value) (other : Key) :
    (table.insert key value).lookup other = table.lookup other := by
  rw [lookup_insert_eq_ite]
  by_cases same : other = key
  · rw [if_pos same, same, found]
  · rw [if_neg same]

end Table

end PDocker.Data
