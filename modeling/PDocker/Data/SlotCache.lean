import Mathlib.Data.List.Basic

/-!
# Tables of slots

A table with a fixed number of slots. A value is put under a key into the first free slot, and where no slot is
free, into the one that was used least recently. A memo looks for a value before it makes one.
-/

set_option autoImplicit false

namespace PDocker.Data

structure Slot (κ ν : Type) where
  key : κ
  value : ν
  lastUsed : UInt64

structure SlotCache (κ ν : Type) where
  slots : List (Option (Slot κ ν))
  clock : UInt64

namespace SlotCache

variable {κ ν : Type}

def empty (count : Nat) : SlotCache κ ν := ⟨List.replicate count none, 1⟩

def Holds (cache : SlotCache κ ν) (key : κ) (value : ν) : Prop :=
  ∃ slot, some slot ∈ cache.slots ∧ slot.key = key ∧ slot.value = value

theorem not_holds_empty {count : Nat} {key : κ} {value : ν} : ¬ (empty count).Holds key value := by
  rintro ⟨slot, member, -⟩
  cases List.eq_of_mem_replicate member

section

variable [DecidableEq κ]

/-- The value of the first slot with the key, which counts as used now. -/
def touchFirst (key : κ) (now : UInt64) : List (Option (Slot κ ν)) → Option (ν × List (Option (Slot κ ν)))
  | [] => none
  | none :: slots => (touchFirst key now slots).map fun found => (found.1, none :: found.2)
  | some slot :: slots =>
      if slot.key = key then some (slot.value, some { slot with lastUsed := now } :: slots)
      else (touchFirst key now slots).map fun found => (found.1, some slot :: found.2)

def lookup (cache : SlotCache κ ν) (key : κ) : Option (ν × SlotCache κ ν) :=
  (touchFirst key cache.clock cache.slots).map fun found => (found.1, ⟨found.2, cache.clock + 1⟩)

theorem touchFirst_spec {key : κ} {now : UInt64} {slots after : List (Option (Slot κ ν))} {value : ν}
    (found : touchFirst key now slots = some (value, after)) :
    ∃ before slot behind, slots = before ++ some slot :: behind ∧ slot.key = key ∧ slot.value = value ∧
      after = before ++ some { slot with lastUsed := now } :: behind := by
  induction slots generalizing after with
  | nil => cases found
  | cons first slots ih =>
      have later : ∀ {head : Option (Slot κ ν)},
          (touchFirst key now slots).map (fun found => (found.1, head :: found.2)) = some (value, after) →
          ∃ before slot behind, head :: slots = before ++ some slot :: behind ∧ slot.key = key ∧
            slot.value = value ∧ after = before ++ some { slot with lastUsed := now } :: behind := by
        intro head mapped
        obtain ⟨⟨other, rest⟩, inner, same⟩ := Option.map_eq_some_iff.mp mapped
        cases same
        obtain ⟨before, slot, behind, rfl, keyed, valued, rfl⟩ := ih inner
        exact ⟨head :: before, slot, behind, rfl, keyed, valued, rfl⟩
      cases first with
      | none => exact later found
      | some slot =>
          rw [touchFirst] at found
          split at found
          · rename_i keyed
            cases found
            exact ⟨[], slot, slots, rfl, keyed, rfl, rfl⟩
          · exact later found

theorem lookup_spec {cache after : SlotCache κ ν} {key : κ} {value : ν}
    (found : cache.lookup key = some (value, after)) :
    cache.Holds key value ∧ ∀ other stored, after.Holds other stored → cache.Holds other stored := by
  obtain ⟨⟨_, slots⟩, touched, same⟩ := Option.map_eq_some_iff.mp found
  cases same
  obtain ⟨before, slot, behind, parts, keyed, valued, rfl⟩ := touchFirst_spec touched
  refine ⟨⟨slot, ?_, keyed, valued⟩, ?_⟩
  · rw [parts]
    exact List.mem_append_right _ List.mem_cons_self
  rintro other stored ⟨kept, member, rfl, rfl⟩
  rw [Holds, parts]
  rcases List.mem_append.mp member with early | later
  · exact ⟨kept, List.mem_append_left _ early, rfl, rfl⟩
  rcases List.mem_cons.mp later with same | late
  · cases same
    exact ⟨slot, List.mem_append_right _ List.mem_cons_self, rfl, rfl⟩
  · exact ⟨kept, List.mem_append_right _ (List.mem_cons_of_mem _ late), rfl, rfl⟩

end

def oldest (victim : Nat) (least : UInt64) : Nat → List (Option (Slot κ ν)) → Nat
  | _, [] => victim
  | index, slot :: slots =>
      let used := slot.elim 0 (·.lastUsed)
      if used < least then oldest index used (index + 1) slots else oldest victim least (index + 1) slots

def selectSlot (slots : List (Option (Slot κ ν))) : Nat :=
  match slots.findIdx? Option.isNone with
  | some free => free
  | none => oldest 0 ((slots.headD none).elim 0 (·.lastUsed)) 0 slots

def put (cache : SlotCache κ ν) (key : κ) (value : ν) : SlotCache κ ν where
  slots := cache.slots.set (selectSlot cache.slots) (some ⟨key, value, cache.clock⟩)
  clock := cache.clock + 1

theorem put_spec {cache : SlotCache κ ν} {key other : κ} {value stored : ν}
    (held : (cache.put key value).Holds other stored) :
    (key = other ∧ value = stored) ∨ cache.Holds other stored := by
  obtain ⟨slot, member, rfl, rfl⟩ := held
  rcases List.mem_or_eq_of_mem_set member with old | new
  · exact .inr ⟨slot, old, rfl, rfl⟩
  · cases new
    exact .inl ⟨rfl, rfl⟩

end SlotCache

/-- What is looked up for a request, where anything is, and what is made for it, with the key under which it is
stored. -/
structure Memo (ρ κ ν : Type) where
  key : ρ → Option κ
  make : ρ → Option (κ × ν)

inductive Served (ν : Type) where
  | hit (value : ν)
  | made (value : ν)
  | failed

def Served.value {ν : Type} : Served ν → Option ν
  | .hit value => some value
  | .made value => some value
  | .failed => none

namespace Memo

variable {ρ κ ν : Type} (memo : Memo ρ κ ν)

def fresh (request : ρ) : Served ν :=
  match memo.make request with
  | some (_, value) => .made value
  | none => .failed

def Made (past : List ρ) (cache : SlotCache κ ν) : Prop :=
  ∀ key value, cache.Holds key value → ∃ request ∈ past, (memo.key request).isSome ∧ memo.make request = some (key, value)

theorem made_empty (past : List ρ) (count : Nat) : memo.Made past (SlotCache.empty count) :=
  fun _ _ held => absurd held SlotCache.not_holds_empty

variable [DecidableEq κ]

def serve (cache : SlotCache κ ν) (request : ρ) : Served ν × SlotCache κ ν :=
  match memo.key request with
  | none => (memo.fresh request, cache)
  | some key =>
      match cache.lookup key with
      | some (value, after) => (.hit value, after)
      | none =>
          match memo.make request with
          | some (stored, value) => (.made value, cache.put stored value)
          | none => (.failed, cache)

variable {memo} {past : List ρ} {cache : SlotCache κ ν} {request : ρ}

theorem Made.serve_cases (made : memo.Made past cache) :
    (∃ key value, memo.key request = some key ∧ (memo.serve cache request).1 = .hit value ∧
        ∃ earlier ∈ past, (memo.key earlier).isSome ∧ memo.make earlier = some (key, value)) ∨
      (memo.serve cache request).1 = memo.fresh request := by
  rw [serve]
  split
  · exact .inr rfl
  rename_i key keyed
  split
  · rename_i value after found
    exact .inl ⟨key, value, keyed, rfl, made key value (SlotCache.lookup_spec found).1⟩
  · right
    rw [fresh]
    split <;> simp only [*]

theorem Made.step (made : memo.Made past cache) : memo.Made (request :: past) (memo.serve cache request).2 := by
  have before : memo.Made (request :: past) cache := by
    intro key value held
    obtain ⟨earlier, member, of⟩ := made key value held
    exact ⟨earlier, List.mem_cons_of_mem _ member, of⟩
  rw [serve]
  split
  · exact before
  rename_i key keyed
  split
  · rename_i value after found
    exact fun other stored held => before other stored ((SlotCache.lookup_spec found).2 other stored held)
  split
  · rename_i stored value own
    intro other kept held
    rcases SlotCache.put_spec held with ⟨rfl, rfl⟩ | old
    · exact ⟨request, List.mem_cons_self, by rw [keyed]; rfl, own⟩
    · exact before other kept old
  · exact before

end Memo

end PDocker.Data
