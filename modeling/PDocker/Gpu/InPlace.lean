import PDocker.Data.Grouping
import PDocker.Gpu.Dispatch

/-!
# Dispatches in place

When a dispatch leaves in the files what the shader would have left in place.
-/

set_option autoImplicit false

namespace PDocker.Gpu

open Regions

namespace DispatchRequest

variable (request : DispatchRequest)

def leaderFrom : Nat → Nat → Nat
  | 0, i => i
  | fuel + 1, i =>
      match request.firstOverlap i with
      | none => i
      | some j => leaderFrom fuel j

def leader (i : Nat) : Nat := request.leaderFrom i i

variable {request}

variable {i rep : Nat}

theorem firstOverlap_some {j : Nat} (found : request.firstOverlap i = some j) :
    j < i ∧ request.active i = true ∧ request.active j = true ∧ request.file i = request.file j := by
  unfold firstOverlap at found
  split at found
  · next active =>
      have member := List.mem_range.mp (List.mem_of_find?_eq_some found)
      have both := List.find?_some found
      rw [overlaps, Bool.and_eq_true, Bool.and_eq_true, decide_eq_true_eq] at both
      exact ⟨member, active, both.1, both.2.1⟩
  · cases found

theorem earlier : Data.Grouping.Earlier request.firstOverlap := fun _ _ found => (firstOverlap_some found).1

theorem leaderFrom_grouping (fuel i : Nat) :
    request.leaderFrom fuel i = Data.Grouping.leaderFrom request.firstOverlap fuel i := by
  induction fuel generalizing i with
  | zero => rfl
  | succ fuel ih =>
      rw [leaderFrom, Data.Grouping.leaderFrom]
      cases request.firstOverlap i with
      | none => rfl
      | some j => exact ih j

theorem leader_grouping (i : Nat) : request.leader i = Data.Grouping.leader request.firstOverlap i :=
  leaderFrom_grouping i i

theorem leader_leader (i : Nat) : request.leader (request.leader i) = request.leader i := by
  rw [leader_grouping, leader_grouping]
  exact Data.Grouping.leader_leader earlier i

theorem leader_active (active : request.active i = true) :
    request.active (request.leader i) = true ∧ request.file (request.leader i) = request.file i := by
  rw [leader_grouping]
  refine @Data.Grouping.leader_induction _ earlier
    (fun i leader => request.active i = true → request.active leader = true ∧ request.file leader = request.file i)
    (fun i _ active => ⟨active, rfl⟩) ?_ i active
  intro i j leader found joined _
  obtain ⟨-, -, activeJ, same⟩ := firstOverlap_some found
  obtain ⟨activeLeader, sameLeader⟩ := joined activeJ
  exact ⟨activeLeader, sameLeader.trans same.symm⟩

theorem aliasStep_grouping : request.aliasStep = Data.Grouping.joinStep request.firstOverlap request.count := by
  funext reps i
  rw [aliasStep, Data.Grouping.joinStep]
  cases request.firstOverlap i <;> rfl

theorem bindingAliasRep_eq (small : i < request.count) : request.bindingAliasRep i = request.leader i := by
  rw [bindingAliasRep, aliasStep_grouping, leader_grouping]
  exact Data.Grouping.reps_eq earlier small

theorem active_lt (active : request.active i = true) : i < request.count := by
  rw [DispatchRequest.active, Bool.and_eq_true, decide_eq_true_eq] at active
  exact active.1

theorem leads_iff : request.leads i = true ↔ request.active i = true ∧ request.leader i = i := by
  rw [leads, Bool.and_eq_true, decide_eq_true_eq]
  refine and_congr_right fun active => ?_
  rw [bindingAliasRep_eq (active_lt active)]

theorem leader_leads (active : request.active i = true) : request.leads (request.leader i) = true :=
  leads_iff.mpr ⟨(leader_active active).1, leader_leader i⟩

theorem mem_members : i ∈ request.members rep ↔ request.active i = true ∧ request.leader i = rep := by
  rw [members, List.mem_filter, List.mem_range, Bool.and_eq_true, decide_eq_true_eq]
  constructor
  · rintro ⟨small, active, same⟩
    exact ⟨active, (bindingAliasRep_eq small).symm.trans same⟩
  · rintro ⟨active, same⟩
    exact ⟨active_lt active, active, (bindingAliasRep_eq (active_lt active)).trans same⟩

theorem foldl_min_le {items : List Nat} {value : Nat → Nat} {first : Nat} :
    items.foldl (fun base i => min base (value i)) first ≤ first ∧
      ∀ i ∈ items, items.foldl (fun base i => min base (value i)) first ≤ value i := by
  induction items generalizing first with
  | nil => exact ⟨le_rfl, fun i member => nomatch member⟩
  | cons item items ih =>
      obtain ⟨least, each⟩ := @ih (min first (value item))
      refine ⟨least.trans (min_le_left _ _), fun i member => ?_⟩
      rcases List.mem_cons.mp member with rfl | member
      · exact least.trans (min_le_right _ _)
      · exact each i member

theorem le_foldl_max {items : List Nat} {value : Nat → Nat} {first : Nat} :
    first ≤ items.foldl (fun last i => max last (value i)) first ∧
      ∀ i ∈ items, value i ≤ items.foldl (fun last i => max last (value i)) first := by
  induction items generalizing first with
  | nil => exact ⟨le_rfl, fun i member => nomatch member⟩
  | cons item items ih =>
      obtain ⟨most, each⟩ := @ih (max first (value item))
      refine ⟨(le_max_left _ _).trans most, fun i member => ?_⟩
      rcases List.mem_cons.mp member with rfl | member
      · exact (le_max_right _ _).trans most
      · exact each i member

theorem groupBase_le (active : request.active i = true) :
    request.groupBase (request.leader i) ≤ request.start i :=
  foldl_min_le.2 i (mem_members.mpr ⟨active, rfl⟩)

theorem le_groupEnd (active : request.active i = true) :
    request.start i + request.size i ≤ request.groupEnd (request.leader i) :=
  (@le_foldl_max _ (fun i => request.start i + request.size i) _).2 i (mem_members.mpr ⟨active, rfl⟩)

theorem gpuOffset_eq (active : request.active i = true) :
    request.gpuOffset i = request.start i - request.groupBase (request.leader i) := by
  rw [gpuOffset, bindingAliasRep_eq (active_lt active)]

theorem readNeeded_active (read : request.readNeeded i = true) : request.active i = true := by
  rw [readNeeded, Bool.and_eq_true] at read
  exact read.1

theorem writeNeeded_active (write : request.writeNeeded i = true) : request.active i = true := by
  rw [writeNeeded, Bool.and_eq_true] at write
  exact write.1

theorem groupReadNeeded_iff (leads : request.leads rep = true) :
    request.groupReadNeeded rep = true ↔ ∃ i, request.leader i = rep ∧ request.readNeeded i = true := by
  rw [groupReadNeeded, Bool.or_eq_true, List.any_eq_true]
  constructor
  · rintro (own | ⟨i, member, read⟩)
    · exact ⟨rep, (leads_iff.mp leads).2, own⟩
    · exact ⟨i, (mem_members.mp member).2, read⟩
  · rintro ⟨i, same, read⟩
    exact .inr ⟨i, mem_members.mpr ⟨readNeeded_active read, same⟩, read⟩

end DispatchRequest

/-- The last number below `count` with the property. -/
def Last (count : Nat) (holds : Nat → Prop) (last : Nat) : Prop :=
  last < count ∧ holds last ∧ ∀ i < count, last < i → ¬holds i

theorem exists_last (count : Nat) (holds : Nat → Prop) :
    (∃ last, Last count holds last) ∨ ∀ i < count, ¬holds i := by
  induction count with
  | zero => exact .inr fun i small => absurd small (Nat.not_lt_zero i)
  | succ count ih =>
      by_cases here : holds count
      · exact .inl ⟨count, Nat.lt_succ_self count, here, fun i small later => absurd small (by omega)⟩
      rcases ih with ⟨last, small, found, later⟩ | nothing
      · refine .inl ⟨last, Nat.lt_succ_of_lt small, found, fun i below after => ?_⟩
        rcases Nat.lt_succ_iff_lt_or_eq.mp below with below | rfl
        · exact later i below after
        · exact here
      · refine .inr fun i below => ?_
        rcases Nat.lt_succ_iff_lt_or_eq.mp below with below | rfl
        · exact nothing i below
        · exact here

namespace DispatchRequest

variable (request : DispatchRequest)

def Writes (mask : Nat → Nat → Bool) (file : FileId) (position i : Nat) : Prop :=
  (request.range i).Holds file position ∧ mask i (position - request.start i) = true

def Reaches (file : FileId) (position i : Nat) : Prop :=
  request.writeNeeded i = true ∧ (request.range i).Holds file position

/-- Where ranges are written back, the last of them belongs to the group that was written last, or,
where nothing was written, to a group that was uploaded. -/
def WritesBack (mask : Nat → Nat → Bool) : Prop :=
  ∀ file position i, Last request.count (request.Reaches file position) i →
    (∀ j, Last request.count (request.Writes mask file position) j → request.leader j = request.leader i) ∧
      ((∀ j < request.count, ¬request.Writes mask file position j) →
        ∃ j, request.leader j = request.leader i ∧ request.readNeeded j = true)

/-- No slot of the cache is taken by two groups of the dispatch. -/
def SeparateBuffers (creates : Nat → Bool) (cache : MutableBufferCache) : Prop :=
  ∀ i j, request.leads i = true → request.leads j = true → i ≠ j →
    (request.acquireAll creates cache).1 i ≠ (request.acquireAll creates cache).1 j

variable {request} {creates : Nat → Bool} {cache : MutableBufferCache}

variable {i file position : Nat} {buffers : Memory BufferRef UInt8}

theorem vkBuffer_eq (active : request.active i = true) :
    request.vkBuffer creates cache i = (request.acquireAll creates cache).1 (request.leader i) := by
  rw [vkBuffer, bindingAliasRep_eq (active_lt active)]

theorem SeparateBuffers.vkBuffer_ne (separate : request.SeparateBuffers creates cache) {j : Nat}
    (activeI : request.active i = true) (activeJ : request.active j = true)
    (other : request.leader j ≠ request.leader i) :
    request.vkBuffer creates cache j ≠ request.vkBuffer creates cache i := by
  rw [vkBuffer_eq activeI, vkBuffer_eq activeJ]
  exact separate _ _ (leader_leads activeJ) (leader_leads activeI) other

theorem vkBuffer_leader (active : request.active i = true) :
    request.vkBuffer creates cache (request.leader i) = request.vkBuffer creates cache i := by
  rw [vkBuffer_eq active, vkBuffer_eq (leader_active active).1, leader_leader]

section
variable (separate : request.SeparateBuffers creates cache) {fresh : Nat → Nat → UInt8}
  {files : Memory FileId UInt8}
include separate

theorem upload_eq {rep position : Nat} (leads : request.leads rep = true)
    (small : position < (request.groupBinding rep).size) :
    request.upload creates cache fresh files (request.vkBuffer creates cache rep) position =
      request.uploaded files fresh rep position := by
  obtain ⟨active, itself⟩ := leads_iff.mp leads
  refine Memory.patches_last (active_lt active) ?_ ?_
  · have held : Region.Holds ⟨request.vkBuffer creates cache rep, 0, (request.groupBinding rep).size⟩
        (request.vkBuffer creates cache rep) position := ⟨rfl, Nat.zero_le _, by rwa [Nat.zero_add]⟩
    rw [Memory.patchAt, if_pos held, if_pos leads]
    rfl
  intro other _ later
  rw [Memory.patchAt]
  split
  · next held =>
      split
      · next otherLeads =>
          obtain ⟨otherActive, otherItself⟩ := leads_iff.mp otherLeads
          refine absurd held.1.symm (separate.vkBuffer_ne active otherActive ?_)
          rw [itself, otherItself]
          omega
      · rfl
  · rfl

theorem upload_range {i index : Nat} (active : request.active i = true) (small : index < request.size i) :
    request.upload creates cache fresh files (request.vkBuffer creates cache i) (request.gpuOffset i + index) =
      if request.groupReadNeeded (request.leader i) then files (request.file i) (request.start i + index)
      else fresh (request.leader i) (request.gpuOffset i + index) := by
  have base := groupBase_le active
  have last := le_groupEnd active
  have offset := gpuOffset_eq active
  have within : request.gpuOffset i + index < (request.groupBinding (request.leader i)).size := by
    rw [groupBinding, offset]
    dsimp only
    omega
  rw [← vkBuffer_leader active, upload_eq separate (leader_leads active) within, uploaded,
    (leader_active active).2]
  split
  · rw [offset, ← Nat.add_assoc, Nat.add_sub_cancel' base]
  · rfl

theorem contents_upload :
    request.contents (request.upload creates cache fresh files) (request.bufferRange creates cache) =
      request.contents files request.range := by
  funext i
  unfold contents
  split
  · next read =>
      have active := readNeeded_active read
      have uploads := (groupReadNeeded_iff (leader_leads active)).mpr ⟨i, rfl, read⟩
      refine congrArg List.ofFn (funext fun index => ?_)
      refine (upload_range separate active index.isLt).trans ?_
      rw [if_pos uploads]
      rfl
  · rfl

end

section
variable (separate : request.SeparateBuffers creates cache) {writes : Nat → Nat → Option UInt8}
  (declared : ∀ i k, (writes i k).isSome = true → request.writeNeeded i = true)
include separate declared

variable {file i position : Nat}

theorem patchAt_buffer (active : request.active i = true) (held : (request.range i).Holds file position) (j : Nat) :
    Memory.patchAt (request.bufferRange creates cache j) (writes j) (request.vkBuffer creates cache i)
        (request.gpuOffset i + (position - request.start i)) =
      if request.leader j = request.leader i then Memory.patchAt (request.range j) (writes j) file position
      else none := by
  cases activeJ : request.active j with
  | false =>
      have silent : ∀ k, writes j k = none := fun k => by
        rw [← Option.not_isSome_iff_eq_none]
        intro written
        rw [writeNeeded_active (declared j k written)] at activeJ
        cases activeJ
      simp only [Memory.patchAt, silent, ite_self]
  | true =>
      obtain ⟨same, above, below⟩ := held
      dsimp only [range] at same above below
      split
      · next members =>
          have baseI := groupBase_le active
          have baseJ := groupBase_le activeJ
          have offsetI := gpuOffset_eq active
          have offsetJ := gpuOffset_eq activeJ
          rw [members] at baseJ offsetJ
          have buffers : request.vkBuffer creates cache i = request.vkBuffer creates cache j := by
            rw [vkBuffer_eq active, vkBuffer_eq activeJ, members]
          have sameFile : file = request.file j := by
            rw [same, ← (leader_active active).2, ← members, (leader_active activeJ).2]
          have heldIff : (request.bufferRange creates cache j).Holds (request.vkBuffer creates cache i)
              (request.gpuOffset i + (position - request.start i)) ↔ (request.range j).Holds file position := by
            simp only [Region.Holds, bufferRange, range, buffers, sameFile, true_and]
            omega
          have index : request.gpuOffset i + (position - request.start i) - request.gpuOffset j =
              position - request.start j ∨ ¬(request.range j).Holds file position := by
            by_cases reached : (request.range j).Holds file position
            · have := reached.2
              dsimp only [range] at this
              exact .inl (by omega)
            · exact .inr reached
          rw [Memory.patchAt, Memory.patchAt]
          rcases index with same' | outside
          · simp only [heldIff]
            split
            · exact congrArg (writes j) same'
            · rfl
          · rw [if_neg outside, if_neg (mt heldIff.mp outside)]
      · next another =>
          refine if_neg fun holds => ?_
          exact separate.vkBuffer_ne active activeJ another holds.1.symm

variable {fresh : Nat → Nat → UInt8} {files : Memory FileId UInt8}

theorem written_last {j : Nat} {value : UInt8} (active : request.active i = true)
    (held : (request.range i).Holds file position) (small : j < request.count)
    (member : request.leader j = request.leader i)
    (written : Memory.patchAt (request.range j) (writes j) file position = some value)
    (nothing : ∀ k < request.count, j < k → request.leader k = request.leader i →
      Memory.patchAt (request.range k) (writes k) file position = none) :
    (request.upload creates cache fresh files).patches request.count (request.bufferRange creates cache) writes
        (request.vkBuffer creates cache i) (request.gpuOffset i + (position - request.start i)) = value := by
  refine Memory.patches_last small ?_ ?_
  · rw [patchAt_buffer separate declared active held, if_pos member, written]
  intro k below later
  rw [patchAt_buffer separate declared active held]
  split
  · next members => exact nothing k below later members
  · rfl

theorem written_none (active : request.active i = true) (held : (request.range i).Holds file position)
    (nothing : ∀ k < request.count, request.leader k = request.leader i →
      Memory.patchAt (request.range k) (writes k) file position = none) :
    (request.upload creates cache fresh files).patches request.count (request.bufferRange creates cache) writes
        (request.vkBuffer creates cache i) (request.gpuOffset i + (position - request.start i)) =
      if request.groupReadNeeded (request.leader i) then files file position
      else fresh (request.leader i) (request.gpuOffset i + (position - request.start i)) := by
  obtain ⟨same, above, below⟩ := held
  dsimp only [range] at same above below
  rw [Memory.patches_none, upload_range separate active (by omega), Nat.add_sub_cancel' above, same]
  intro k small
  rw [patchAt_buffer separate declared active ⟨same, above, below⟩]
  split
  · next members => exact nothing k small members
  · rfl

end

theorem patchAt_writes {mask : Nat → Nat → Bool} {writes : Nat → Nat → Option UInt8}
    (masked : ∀ i k, (writes i k).isSome = mask i k) :
    (Memory.patchAt (request.range i) (writes i) file position).isSome = true ↔
      request.Writes mask file position i := by
  rw [Memory.patchAt, Writes, ← masked]
  split
  · next held => exact ⟨fun written => ⟨held, written⟩, fun both => both.2⟩
  · next outside => exact ⟨fun written => absurd written Bool.false_ne_true, fun both => absurd both.1 outside⟩

theorem patchAt_silent {mask : Nat → Nat → Bool} {writes : Nat → Nat → Option UInt8}
    (masked : ∀ i k, (writes i k).isSome = mask i k)
    (silent : ¬request.Writes mask file position i) :
    Memory.patchAt (request.range i) (writes i) file position = none := by
  rw [← Option.not_isSome_iff_eq_none, patchAt_writes masked]
  exact silent

section
variable {mask : Nat → Nat → Bool} {shader : DispatchShader} {files : Memory FileId UInt8}
  (masked : ∀ i k, (shader (request.contents files request.range) i k).isSome = mask i k)
include masked

variable {file position : Nat}

theorem inPlace_last {j : Nat} {value : UInt8} (last : Last request.count (request.Writes mask file position) j)
    (written : Memory.patchAt (request.range j) (shader (request.contents files request.range) j) file position =
      some value) :
    request.inPlace shader files file position = value :=
  Memory.patches_last last.1 written fun k small later => patchAt_silent masked (last.2.2 k small later)

theorem inPlace_none (nothing : ∀ j < request.count, ¬request.Writes mask file position j) :
    request.inPlace shader files file position = files file position :=
  Memory.patches_none fun k small => patchAt_silent masked (nothing k small)

end

def written (request : DispatchRequest) (creates : Nat → Bool) (cache : MutableBufferCache) (fresh : Nat → Nat → UInt8)
    (writes : Nat → Nat → Option UInt8) (files : Memory FileId UInt8) : Memory BufferRef UInt8 :=
  (request.upload creates cache fresh files).patches request.count (request.bufferRange creates cache) writes

theorem writeBack_last {files : Memory FileId UInt8} (last : Last request.count (request.Reaches file position) i) :
    request.writeBack creates cache buffers files file position =
      buffers (request.vkBuffer creates cache i) (request.gpuOffset i + (position - request.start i)) := by
  refine Memory.patches_last last.1 ?_ ?_
  · rw [Memory.patchAt, if_pos last.2.1.2, if_pos last.2.1.1]
    rfl
  intro j small later
  rw [Memory.patchAt]
  split
  · next held => exact if_neg fun needed => last.2.2 j small later ⟨needed, held⟩
  · rfl

theorem writeBack_none {files : Memory FileId UInt8}
    (nothing : ∀ i < request.count, ¬request.Reaches file position i) :
    request.writeBack creates cache buffers files file position = files file position := by
  refine Memory.patches_none fun i small => ?_
  rw [Memory.patchAt]
  split
  · next held => exact if_neg fun needed => nothing i small ⟨needed, held⟩
  · rfl

theorem runVulkanDispatchFd_some {reads : Nat → Bool} {fresh : Nat → Nat → UInt8} {shader : DispatchShader}
    {files after : Memory FileId UInt8} (separate : request.SeparateBuffers creates cache)
    (ran : request.runVulkanDispatchFd creates reads cache fresh shader files = some after) :
    after = request.writeBack creates cache
      (request.written creates cache fresh (shader (request.contents files request.range)) files) files := by
  unfold runVulkanDispatchFd at ran
  dsimp only at ran
  split at ran
  · cases ran
  split at ran
  · cases ran
  · rw [contents_upload separate] at ran
    exact (Option.some.inj ran).symm

theorem runVulkanDispatchFd_runs (active : request.active i = true) (fresh : Nat → Nat → UInt8)
    (shader : DispatchShader) (files : Memory FileId UInt8) (separate : request.SeparateBuffers creates cache) :
    request.runVulkanDispatchFd creates (fun _ => true) cache fresh shader files =
      some (request.writeBack creates cache
        (request.written creates cache fresh (shader (request.contents files request.range)) files)
        files) := by
  have some : (List.range request.count).any request.active = true :=
    List.any_eq_true.mpr ⟨i, List.mem_range.mpr (active_lt active), active⟩
  unfold runVulkanDispatchFd
  dsimp only
  rw [some, contents_upload separate]
  simp only [Bool.not_true, Bool.and_false, Bool.false_eq_true, ↓reduceIte, List.any_eq_true, and_false, exists_false]
  rfl

theorem WritesBack.inPlace {mask : Nat → Nat → Bool} (writesBack : request.WritesBack mask)
    (declared : ∀ i k, mask i k = true → request.writeNeeded i = true)
    (separate : request.SeparateBuffers creates cache) {fresh : Nat → Nat → UInt8} {shader : DispatchShader}
    {files : Memory FileId UInt8}
    (masked : ∀ i k, (shader (request.contents files request.range) i k).isSome = mask i k) :
    request.writeBack creates cache
        (request.written creates cache fresh (shader (request.contents files request.range)) files)
        files =
      request.inPlace shader files := by
  have declares : ∀ i k, (shader (request.contents files request.range) i k).isSome = true →
      request.writeNeeded i = true := fun i k written => declared i k (by rwa [← masked])
  funext file position
  rcases exists_last request.count (request.Reaches file position) with ⟨i, last⟩ | unreached
  · obtain ⟨sameGroup, uploads⟩ := writesBack file position i last
    have active := writeNeeded_active last.2.1.1
    rw [writeBack_last last]
    rcases exists_last request.count (request.Writes mask file position) with ⟨j, lastWrite⟩ | nothing
    · obtain ⟨value, wrote⟩ := Option.isSome_iff_exists.mp ((patchAt_writes masked).mpr lastWrite.2.1)
      rw [inPlace_last masked lastWrite wrote]
      exact written_last separate declares active last.2.1.2 lastWrite.1 (sameGroup j lastWrite) wrote
        fun k small later _ => patchAt_silent masked (lastWrite.2.2 k small later)
    · rw [inPlace_none masked nothing]
      refine (written_none separate declares active last.2.1.2 fun k small _ =>
        patchAt_silent masked (nothing k small)).trans (if_pos ?_)
      exact (groupReadNeeded_iff (leader_leads active)).mpr (uploads nothing)
  · rw [writeBack_none unreached, inPlace_none masked fun j small writes =>
      unreached j small ⟨declared j _ writes.2, writes.1⟩]

def marking (mask : Nat → Nat → Bool) (marked : Nat) : DispatchShader := fun _ i k =>
  if mask i k then some (if i = marked then 1 else 0) else none

theorem marking_masked (mask : Nat → Nat → Bool) (marked : Nat) (contents : Nat → List UInt8) (i k : Nat) :
    (marking mask marked contents i k).isSome = mask i k := by
  unfold marking
  cases mask i k <;> rfl

theorem marking_value {mask : Nat → Nat → Bool} {marked : Nat} {contents : Nat → List UInt8}
    (writes : request.Writes mask file position i) :
    Memory.patchAt (request.range i) (marking mask marked contents i) file position =
      some (if i = marked then 1 else 0) := by
  rw [Memory.patchAt, if_pos writes.1]
  exact if_pos writes.2

section
variable {mask : Nat → Nat → Bool} (declared : ∀ i k, mask i k = true → request.writeNeeded i = true)
  (separate : request.SeparateBuffers creates cache)
include declared separate

variable {file position : Nat}

theorem lost_write {i j : Nat} (last : Last request.count (request.Reaches file position) i)
    (lastWrite : Last request.count (request.Writes mask file position) j)
    (another : request.leader j ≠ request.leader i) :
    request.writeBack creates cache (request.written creates cache (fun _ _ => 0)
          (marking mask j (request.contents (fun _ _ => 0) request.range)) fun _ _ => 0)
        (fun _ _ => 0) ≠
      request.inPlace (marking mask j) fun _ _ => 0 := by
  intro same
  have active := writeNeeded_active last.2.1.1
  have masked := marking_masked mask j (request.contents (fun _ _ => 0) request.range)
  have declares : ∀ i k, (marking mask j (request.contents (fun _ _ => 0) request.range) i k).isSome = true →
      request.writeNeeded i = true := fun i k written => declared i k (by rwa [← masked])
  have here := congrFun (congrFun same file) position
  rw [writeBack_last last, inPlace_last masked lastWrite (marking_value lastWrite.2.1), if_pos rfl] at here
  have zero : ∀ k, request.leader k = request.leader i → request.Writes mask file position k →
      Memory.patchAt (request.range k) (marking mask j (request.contents (fun _ _ => 0) request.range) k) file
        position = some 0 := by
    intro k member writes
    rw [marking_value writes, if_neg fun itself : k = j => another (itself ▸ member)]
  rcases exists_last request.count fun k => request.leader k = request.leader i ∧
    request.Writes mask file position k with ⟨k, small, ⟨member, writes⟩, later⟩ | nothing
  · rw [written, written_last separate declares active last.2.1.2 small member (zero k member writes)
      fun k' small' after member' => patchAt_silent masked fun writes' => later k' small' after ⟨member', writes'⟩] at here
    exact absurd here (by decide)
  · rw [written, written_none separate declares active last.2.1.2 fun k small member =>
      patchAt_silent masked fun writes => nothing k small ⟨member, writes⟩, ite_self] at here
    exact absurd here (by decide)

theorem overwritten {i : Nat} (last : Last request.count (request.Reaches file position) i)
    (nothing : ∀ j < request.count, ¬request.Writes mask file position j)
    (unread : ¬∃ j, request.leader j = request.leader i ∧ request.readNeeded j = true) :
    request.writeBack creates cache (request.written creates cache (fun _ _ => 1)
          (marking mask 0 (request.contents (fun _ _ => 0) request.range)) fun _ _ => 0)
        (fun _ _ => 0) ≠
      request.inPlace (marking mask 0) fun _ _ => 0 := by
  intro same
  have active := writeNeeded_active last.2.1.1
  have masked := marking_masked mask 0 (request.contents (fun _ _ => 0) request.range)
  have declares : ∀ i k, (marking mask 0 (request.contents (fun _ _ => 0) request.range) i k).isSome = true →
      request.writeNeeded i = true := fun i k written => declared i k (by rwa [← masked])
  have here := congrFun (congrFun same file) position
  rw [writeBack_last last, inPlace_none masked nothing, written, written_none separate declares active last.2.1.2
    fun k small _ => patchAt_silent masked (nothing k small),
    if_neg (mt (groupReadNeeded_iff (leader_leads active)).mp unread)] at here
  exact absurd here (by decide)

end

/-- With a buffer for each group, the dispatches that write what the mask says are all those of a shader
run in place exactly when the ranges are written back from the right groups. -/
theorem dispatch_in_place (request : DispatchRequest) (creates : Nat → Bool) (cache : MutableBufferCache)
    (separate : request.SeparateBuffers creates cache) (mask : Nat → Nat → Bool)
    (declared : ∀ i k, mask i k = true → request.writeNeeded i = true) :
    (∀ (reads : Nat → Bool) (fresh : Nat → Nat → UInt8) (shader : DispatchShader)
        (files after : Memory FileId UInt8),
      (∀ i k, (shader (request.contents files request.range) i k).isSome = mask i k) →
      request.runVulkanDispatchFd creates reads cache fresh shader files = some after →
      after = request.inPlace shader files) ↔ request.WritesBack mask := by
  constructor
  · intro always file position i last
    have active := writeNeeded_active last.2.1.1
    have run : ∀ fresh marked, request.writeBack creates cache (request.written creates cache fresh
          (marking mask marked (request.contents (fun _ _ => 0) request.range)) fun _ _ => 0)
        (fun _ _ => 0) = request.inPlace (marking mask marked) fun _ _ => 0 := fun fresh marked =>
      always _ fresh (marking mask marked) _ _ (marking_masked mask marked _)
        (runVulkanDispatchFd_runs active fresh (marking mask marked) _ separate)
    refine ⟨fun j lastWrite => ?_, fun nothing => ?_⟩
    · by_contra another
      exact lost_write declared separate last lastWrite another (run _ j)
    · by_contra unread
      exact overwritten declared separate last nothing unread (run _ 0)
  · intro writesBack reads fresh shader files after masked ran
    rw [runVulkanDispatchFd_some separate ran]
    exact writesBack.inPlace declared separate masked

def overlapping : DispatchRequest where
  count := 3
  binding i := if i = 0 then ⟨7, 0, 0, 4⟩ else if i = 1 then ⟨7, 1, 2, 4⟩ else ⟨8, 2, 0, 4⟩
  skipUnusedDescriptorTransfers := true
  useSpirvDescriptorAccess := true
  mutableCacheEnabled := true
  mutableCacheMaxBytes := 4096
  shaderUsedBindings _ := true
  shaderBindingAccess i := ⟨true, i ≠ 1, i = 1⟩

theorem dispatch_in_place_overlapping :
    (∀ (reads : Nat → Bool) (fresh : Nat → Nat → UInt8) (shader : DispatchShader)
        (files after : Memory FileId UInt8),
      (∀ i k, (shader (overlapping.contents files overlapping.range) i k).isSome = (decide (i = 1) && decide (k < 2))) →
      overlapping.runVulkanDispatchFd (fun _ => true) reads (fun _ => {}) fresh shader files = some after →
      after = overlapping.inPlace shader files) ↔
      overlapping.WritesBack fun i k => decide (i = 1) && decide (k < 2) := by
  refine dispatch_in_place overlapping (fun _ => true) (fun _ => {}) ?_ _ ?_
  · have separate : ∀ i ∈ List.range 3, ∀ j ∈ List.range 3,
        overlapping.leads i = false ∨ overlapping.leads j = false ∨ i = j ∨
          (overlapping.acquireAll (fun _ => true) fun _ => {}).1 i ≠
            (overlapping.acquireAll (fun _ => true) fun _ => {}).1 j := by decide +kernel
    intro i j leadsI leadsJ other
    have among := separate i (List.mem_range.mpr (active_lt (leads_iff.mp leadsI).1)) j
      (List.mem_range.mpr (active_lt (leads_iff.mp leadsJ).1))
    rw [leadsI, leadsJ] at among
    tauto
  · intro i k written
    rw [Bool.and_eq_true, decide_eq_true_eq] at written
    rw [written.1]
    decide

def writeOnly : DispatchRequest where
  count := 1
  binding _ := ⟨7, 0, 0, 4⟩
  skipUnusedDescriptorTransfers := true
  useSpirvDescriptorAccess := true
  mutableCacheEnabled := false
  mutableCacheMaxBytes := 0
  shaderUsedBindings _ := true
  shaderBindingAccess _ := ⟨true, false, true⟩

/-- The shader writes the first byte, and the byte after it does not keep its value. -/
theorem dispatch_overwrites :
    ¬∀ (request : DispatchRequest) (creates reads : Nat → Bool) (cache : MutableBufferCache)
        (fresh : Nat → Nat → UInt8) (shader : DispatchShader) (files after : Memory FileId UInt8),
      (∀ contents i k, (shader contents i k).isSome = true → request.writeNeeded i = true ∧ k < request.size i) →
      request.runVulkanDispatchFd creates reads cache fresh shader files = some after →
      after = request.inPlace shader files := by
  intro always
  have declared : ∀ (contents : Nat → List UInt8) (i k : Nat),
      ((fun _ i k => if i = 0 ∧ k = 0 then some 9 else none : DispatchShader) contents i k).isSome = true →
        writeOnly.writeNeeded i = true ∧ k < writeOnly.size i := by
    intro contents i k written
    dsimp only at written
    split at written
    · next first =>
        rw [first.1, first.2]
        decide
    · cases written
  have same := always writeOnly (fun _ => true) (fun _ => true) (fun _ => {}) (fun _ _ => 0) _ (fun _ _ => 5) _
    declared rfl
  exact absurd (congrFun (congrFun same 7) 1) (by decide +kernel)

end DispatchRequest

end PDocker.Gpu
