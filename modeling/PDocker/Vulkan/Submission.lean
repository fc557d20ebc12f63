import PDocker.Vulkan.Recording

/-!
# Submission in recording order

Replaying a recorded buffer does what its commands do in order, when no dispatch has a zero
group count.
-/

set_option autoImplicit false

namespace PDocker.Vulkan

open Regions

def performDispatch (executor : Executor) (heap : Heap) (op : DispatchOp) : Heap :=
  if op.x = 0 ∨ op.y = 0 ∨ op.z = 0 then heap
  else
    match dispatchRequest false heap op with
    | .error _ => heap
    | .ok request => { heap with bytes := executor.kernel request heap.bytes }

def perform (executor : Executor) (heap : Heap) : Command → Heap
  | .copy op =>
      match bufferRange heap op.dst op.region.dstOffset op.region.size,
        bufferRange heap op.src op.region.srcOffset op.region.size with
      | some target, some source => { heap with bytes := heap.bytes.move target source }
      | _, _ => heap
  | .fill buffer offset size data =>
      match bufferRange heap buffer offset (4 * (size / 4)) with
      | some target => heap.store target (wordByte data)
      | none => heap
  | .update buffer offset payload =>
      match bufferRange heap buffer offset payload.length with
      | some target => heap.store target fun index => payload.getD index 0
      | none => heap
  | .dispatch op => performDispatch executor heap op
  | .barrier => heap

/-! ## Replay -/

def Call.NonzeroGroups : Call → Prop
  | .dispatch x y z => x ≠ 0 ∧ y ≠ 0 ∧ z ≠ 0
  | _ => True

def Command.InRange (heap : Heap) : Command → Prop
  | .copy op =>
      ∃ source target, Backed heap op.src source ∧ Backed heap op.dst target ∧
        op.region.srcOffset + op.region.size ≤ source.size ∧
        op.region.dstOffset + op.region.size ≤ target.size
  | .fill buffer offset size _ => ∃ target, Backed heap buffer target ∧ offset + size ≤ target.size
  | .update buffer offset payload =>
      ∃ target, Backed heap buffer target ∧ offset + payload.length ≤ target.size
  | .dispatch _ | .barrier => True

def Command.NonzeroGroups : Command → Prop
  | .dispatch op => op.x ≠ 0 ∧ op.y ≠ 0 ∧ op.z ≠ 0
  | _ => True

variable {call : Call} {now : Bindings} {op : DispatchOp} {heap' : Heap} {cmd : CommandBuffer}
  {result : VkResult × Heap}

theorem Call.Valid.inRange {heap : Heap} (valid : call.Valid heap) :
    ∀ command ∈ call.commands heap now, command.InRange heap := by
  intro command member
  cases call with
  | bindPipeline pipeline | bindDescriptorSets sets firstSet handles dynamicOffsets
  | pushConstants offset values => cases member
  | dispatch x y z => rw [List.mem_singleton.mp member]; trivial
  | pipelineBarrier => rw [List.mem_singleton.mp member]; trivial
  | copyBuffer src dst regions =>
      obtain ⟨region, among, rfl⟩ := List.mem_map.mp member
      obtain ⟨source, target, sourceBacked, targetBacked, fits⟩ := valid
      exact ⟨source, target, sourceBacked, targetBacked, fits region among⟩
  | fillBuffer dst offset size data =>
      rw [List.mem_singleton.mp member]
      obtain ⟨target, backed, inside, sized⟩ := valid
      refine ⟨target, backed, ?_⟩
      rw [bufferSize, backed.1, Option.map_some, Option.getD_some]
      split_ifs <;> omega
  | updateBuffer dst offset data allocated =>
      rw [List.mem_singleton.mp member]
      obtain ⟨target, backed, _, inside⟩ := valid
      exact ⟨target, backed, inside⟩

theorem Call.NonzeroGroups.commands {heap : Heap}
    (nonzero : call.NonzeroGroups) : ∀ command ∈ call.commands heap now, command.NonzeroGroups := by
  intro command member
  cases call with
  | bindPipeline pipeline | bindDescriptorSets sets firstSet handles dynamicOffsets
  | pushConstants offset values => cases member
  | dispatch x y z => rw [List.mem_singleton.mp member]; exact nonzero
  | pipelineBarrier | fillBuffer dst offset size data | updateBuffer dst offset data allocated => rw [List.mem_singleton.mp member]; trivial
  | copyBuffer src dst regions =>
      obtain ⟨region, _, rfl⟩ := List.mem_map.mp member
      trivial

theorem commandsOf_forall {heap : Heap} {property : Command → Prop} {calls : List Call}
    (each : ∀ call ∈ calls, ∀ now, ∀ command ∈ call.commands heap now, property command) :
    ∀ now, ∀ command ∈ commandsOf heap now calls, property command := by
  induction calls with
  | nil => exact fun _ _ member => nomatch member
  | cons call calls ih =>
      intro now command member
      rcases List.mem_append.mp member with here | later
      · exact each call List.mem_cons_self now command here
      · exact ih (fun other among => each other (List.mem_cons_of_mem _ among)) _ command later

theorem perform_objects (executor : Executor) (heap : Heap) (command : Command) :
    perform executor heap command = { heap with bytes := (perform executor heap command).bytes } := by
  cases command with
  | copy op | fill buffer offset size data | update buffer offset payload => simp only [perform]; split <;> rfl
  | dispatch op =>
      simp only [perform, performDispatch]
      split
      · rfl
      · split <;> rfl
  | barrier => rfl

section Replay

variable {executor : Executor} {heap : Heap} (noAliases : heap.NoAliases)
include noAliases

theorem executeRecordedCopyOp_perform {op : CopyOp} (inRange : (Command.copy op).InRange heap) :
    executeRecordedCopyOp false heap op = perform executor heap (.copy op) := by
  obtain ⟨source, target, sourceBacked, targetBacked, sourceFits, targetFits⟩ := inRange
  obtain ⟨read, readPtr, readRange⟩ := sourceBacked.pointer sourceFits
  obtain ⟨written, writtenPtr, writtenRange⟩ := targetBacked.pointer targetFits
  simp only [executeRecordedCopyOp, sourceBacked.1, targetBacked.1, readPtr, writtenPtr,
    copyAliasCandidate_disabled, Bool.false_eq_true, ↓reduceIte, invalidateCopyAliases_none noAliases,
    perform, readRange, writtenRange]
  rfl

variable {buffer : BufferId} {offset : Nat}

theorem executeRecordedFillOp_perform {size : Nat} {data : UInt32}
    (inRange : (Command.fill buffer offset size data).InRange heap) :
    executeRecordedFillOp heap buffer offset size data =
      perform executor heap (.fill buffer offset size data) := by
  obtain ⟨target, backed, fits⟩ := inRange
  obtain ⟨written, writtenPtr, writtenRange⟩ := backed.pointer fits
  have rounded : bufferRange heap buffer offset (4 * (size / 4)) =
      some { written with size := 4 * (size / 4) } := by
    obtain ⟨found, number, memory, inMemory, _⟩ := backed
    rw [bufferRange, found, Option.bind_some, inMemory, Option.map_some] at writtenRange ⊢
    rw [← Option.some.inj writtenRange]
  by_cases empty : size = 0
  · simp only [executeRecordedFillOp, backed.1, if_pos empty, perform, rounded]
    rw [Heap.store, Memory.store_empty (by simp only [empty, Nat.zero_div, Nat.mul_zero])]
  · simp only [executeRecordedFillOp, backed.1, if_neg empty, writtenPtr,
      invalidateCopyAliases_none noAliases, perform, rounded]

theorem executeRecordedUpdateOp_perform {payload : List UInt8}
    (inRange : (Command.update buffer offset payload).InRange heap) :
    executeRecordedUpdateOp heap buffer offset payload =
      perform executor heap (.update buffer offset payload) := by
  obtain ⟨target, backed, fits⟩ := inRange
  obtain ⟨written, writtenPtr, writtenRange⟩ := backed.pointer fits
  by_cases empty : payload.length = 0
  · have nothing : written.size = 0 := by
      obtain ⟨found, number, memory, inMemory, _⟩ := backed
      rw [bufferRange, found, Option.bind_some, inMemory, Option.map_some] at writtenRange
      rw [← Option.some.inj writtenRange, empty]
    simp only [executeRecordedUpdateOp, backed.1, if_pos empty, perform, writtenRange]
    rw [Heap.store, Memory.store_empty nothing]
  · simp only [executeRecordedUpdateOp, backed.1, if_neg empty, writtenPtr,
      invalidateCopyAliases_none noAliases, perform, writtenRange]

end Replay

theorem orOne_of_ne {count : Nat} (nonzero : count ≠ 0) : orOne count = count := if_neg nonzero

theorem dispatchRequest_counts {copyAliasEnabled : Bool} {heap : Heap} {request : Request}
    (made : dispatchRequest copyAliasEnabled heap op = .ok request) :
    request.x = op.x ∧ request.y = orOne op.y ∧ request.z = orOne op.z := by
  unfold dispatchRequest at made
  split at made
  · cases made
  split at made
  · cases made
  · dsimp only at made
    split_ifs at made <;> cases made <;> exact ⟨rfl, rfl, rfl⟩

theorem submitDispatch_perform {executor : Executor} {heap : Heap} (nonzero : (Command.dispatch op).NonzeroGroups)
    (succeeded : submitDispatch executor false op heap = (.success, heap')) :
    heap' = perform executor heap (.dispatch op) := by
  obtain ⟨x, y, z⟩ := nonzero
  have some_zero : ¬(op.x = 0 ∨ op.y = 0 ∨ op.z = 0) := by tauto
  simp only [perform, performDispatch, if_neg some_zero]
  unfold submitDispatch sendGenericVulkanDispatchOp at succeeded
  cases made : dispatchRequest false heap op with
  | error errno =>
      simp only [made] at succeeded
      cases succeeded
  | ok request =>
      obtain ⟨sameX, sameY, sameZ⟩ := dispatchRequest_counts made
      have countX : orOne request.x = request.x := by rw [sameX, orOne_of_ne x]
      have countY : orOne request.y = request.y := by rw [sameY, orOne_of_ne y, orOne_of_ne y]
      have countZ : orOne request.z = request.z := by rw [sameZ, orOne_of_ne z, orOne_of_ne z]
      simp only [made, Executor.run, countX, countY, countZ] at succeeded ⊢
      split at succeeded
      · next answered =>
          split_ifs at answered
          cases answered
          exact (congrArg Prod.snd succeeded).symm
      · cases succeeded

theorem replayCommandOp_perform {executor : Executor} {op : CommandOp}
    {command : Command} (resolved : cmd.resolve op = some command) {heap : Heap}
    (noAliases : heap.NoAliases) (inRange : command.InRange heap) (nonzero : command.NonzeroGroups)
    (succeeded : replayCommandOp executor false cmd op heap = (.success, heap')) :
    heap' = perform executor heap command := by
  cases op with
  | copy index =>
      obtain ⟨op, found, rfl⟩ := Option.map_eq_some_iff.mp resolved
      simp only [replayCommandOp, found] at succeeded
      rw [← executeRecordedCopyOp_perform noAliases inRange]
      exact (congrArg Prod.snd succeeded).symm
  | fill buffer offset size data =>
      cases resolved
      rw [← executeRecordedFillOp_perform noAliases inRange]
      exact (congrArg Prod.snd succeeded).symm
  | update buffer offset payload =>
      cases resolved
      rw [← executeRecordedUpdateOp_perform noAliases inRange]
      exact (congrArg Prod.snd succeeded).symm
  | dispatch index =>
      obtain ⟨op, found, rfl⟩ := Option.map_eq_some_iff.mp resolved
      simp only [replayCommandOp, found] at succeeded
      split at succeeded
      · exact submitDispatch_perform nonzero succeeded
      · cases succeeded
  | barrier =>
      cases resolved
      exact (congrArg Prod.snd succeeded).symm

theorem VkResult.andThen_success {next : Heap → VkResult × Heap} {heap : Heap}
    (succeeded : VkResult.andThen result next = (.success, heap)) :
    ∃ between, result = (.success, between) ∧ next between = (.success, heap) := by
  obtain ⟨code, between⟩ := result
  cases code with
  | success => exact ⟨between, rfl, succeeded⟩
  | featureNotPresent | memoryMapFailed | deviceLost => cases succeeded

theorem replayCommandOps_perform {executor : Executor} {ops : List CommandOp} :
    ∀ {commands : List Command}, ops.map cmd.resolve = commands.map some →
      ∀ {heap heap' : Heap}, heap.NoAliases → (∀ command ∈ commands, command.InRange heap) →
      (∀ command ∈ commands, command.NonzeroGroups) →
      replayCommandOps executor false cmd ops heap = (.success, heap') →
      heap' = commands.foldl (perform executor) heap := by
  induction ops with
  | nil =>
      intro commands resolved heap heap' _ _ _ succeeded
      cases commands with
      | nil => exact (congrArg Prod.snd succeeded).symm
      | cons _ _ => cases resolved
  | cons op ops ih =>
      intro commands resolved heap heap' noAliases inRange nonzero succeeded
      cases commands with
      | nil => cases resolved
      | cons command commands =>
          rw [List.map_cons, List.map_cons, List.cons.injEq] at resolved
          obtain ⟨between, first, rest⟩ := VkResult.andThen_success succeeded
          have performed := replayCommandOp_perform resolved.1 noAliases (inRange command List.mem_cons_self)
            (nonzero command List.mem_cons_self) first
          rw [List.foldl_cons, ← performed]
          rw [perform_objects] at performed
          subst performed
          exact ih resolved.2 noAliases (fun other member => inRange other (List.mem_cons_of_mem _ member))
            (fun other member => nonzero other (List.mem_cons_of_mem _ member)) rest

/-- Of valid calls, all commands are recorded exactly when each call finds room. Then a submission
that succeeds leaves what their execution in order leaves, if no dispatch has a zero count. -/
theorem submission_in_order (executor : Executor) (heap : Heap) (noAliases : heap.NoAliases)
    (calls : List Call) (valid : ∀ call ∈ calls, call.Valid heap) :
    ((recorded heap calls).resolved = commandsOf heap .initial calls ↔
      RoomyAlong heap vkBeginCommandBuffer calls) ∧
    (RoomyAlong heap vkBeginCommandBuffer calls → (∀ call ∈ calls, call.NonzeroGroups) →
      ∀ bytes heap', vkQueueSubmit executor false [recorded heap calls] { heap with bytes := bytes } =
          (.success, heap') →
        heap' = (commandsOf heap .initial calls).foldl (perform executor) { heap with bytes := bytes }) := by
  refine ⟨resolved_recorded_iff valid, fun roomy nonzero bytes heap' succeeded => ?_⟩
  obtain ⟨between, submitted, finished⟩ := VkResult.andThen_success succeeded
  cases finished
  have appends : vkBeginCommandBuffer.Appends (recorded heap calls) (commandsOf heap .initial calls) :=
    (record_run calls vkBeginCommandBuffer valid).elim (·.2) fun full => absurd roomy full.1
  have inRange : ∀ command ∈ commandsOf heap .initial calls, command.InRange { heap with bytes := bytes } :=
    commandsOf_forall (fun call member _ => (valid call member).inRange) .initial
  have counted : ∀ command ∈ commandsOf heap .initial calls, command.NonzeroGroups :=
    commandsOf_forall (fun call member _ => (nonzero call member).commands) .initial
  unfold submitCommandBuffer at submitted
  split at submitted
  · cases submitted
  split at submitted
  · next empty =>
    obtain ⟨noCopies, _, noDispatch⟩ := recorded_ordered heap calls empty
    have nothing : commandsOf heap .initial calls = [] := by
      rw [← appends.resolved, CommandBuffer.resolved, empty, List.filterMap_nil]
    simp only [submitUnordered, noCopies, noDispatch, List.foldl_nil, Bool.not_false, ↓reduceIte] at submitted
    rw [nothing]
    exact (congrArg Prod.snd submitted).symm
  · exact replayCommandOps_perform appends.resolved_eq noAliases inRange counted submitted

theorem VkResult.of_success (succeeded : result.1 = .success) : result = (.success, result.2) :=
  Prod.ext succeeded rfl

section Example

private def sharedHeap : Heap where
  memories _ := some ⟨256, true⟩
  buffers id := some ⟨128, some id, 0, []⟩
  bytes object position := if object = 0 ∧ position = 0 then 7 else 0

private theorem sharedHeap_noAliases : sharedHeap.NoAliases := by
  intro id buffer found
  cases found
  rfl

private theorem sharedHeap_backed (id : BufferId) : Backed sharedHeap id ⟨128, some id, 0, []⟩ :=
  ⟨rfl, id, _, rfl, rfl, (by decide : 128 ≤ 256)⟩

private def countingExecutor : Executor where
  answers _ _ := true
  kernel request bytes := bytes.store ⟨0, 0, 1⟩ fun _ => UInt8.ofNat request.x
  vectorAdd _ _ _ _ _ := none

private def oneShader : Pipeline :=
  ⟨some ⟨64, 3⟩, some 4, 128, "main", [], [], false⟩

private def mixedCalls : List Call :=
  [.bindPipeline (some oneShader), .pushConstants 0 [1, 2, 3, 4],
    .bindDescriptorSets (fun _ => some fun slot => if slot = 0 then ⟨some 0, 0, 16, .storageBuffer, false⟩ else {})
      0 [some 0] [],
    .fillBuffer 1 0 8 5, .pipelineBarrier, .dispatch 9 1 1, .copyBuffer 0 1 [⟨0, 4, 4⟩, ⟨0, 16, 4⟩],
    .updateBuffer 0 32 [1, 2, 3, 4] true]

theorem submission_in_order_mixed :
    (vkQueueSubmit countingExecutor false [recorded sharedHeap mixedCalls] sharedHeap).2 =
      (commandsOf sharedHeap .initial mixedCalls).foldl (perform countingExecutor) sharedHeap := by
  have valid : ∀ call ∈ mixedCalls, call.Valid sharedHeap := by
    simp only [mixedCalls, List.forall_mem_cons]
    exact ⟨trivial, ⟨by decide, by decide⟩, trivial, ⟨_, sharedHeap_backed 1, by decide, .inr (by decide)⟩,
      trivial, trivial, ⟨_, _, sharedHeap_backed 0, sharedHeap_backed 1, by decide⟩,
      ⟨_, sharedHeap_backed 0, by decide, by decide⟩, List.forall_mem_nil _⟩
  have roomy : RoomyAlong sharedHeap vkBeginCommandBuffer mixedCalls :=
    ⟨trivial, trivial, trivial, by show _ < _; decide, by show _ < _; decide, ⟨by decide, by decide⟩, .inr ⟨by decide, by decide⟩,
      ⟨by decide, rfl⟩, trivial⟩
  have nonzero : ∀ call ∈ mixedCalls, call.NonzeroGroups := by
    simp only [mixedCalls, List.forall_mem_cons]
    exact ⟨trivial, trivial, trivial, trivial, trivial, ⟨by decide, by decide, by decide⟩, trivial, trivial, List.forall_mem_nil _⟩
  exact (submission_in_order countingExecutor sharedHeap sharedHeap_noAliases mixedCalls valid).2 roomy nonzero
    sharedHeap.bytes _ (VkResult.of_success (by decide +kernel))

private def manyRegions : List VkBufferCopy :=
  (List.range 65).map fun position => ⟨0, position, 1⟩

private theorem manyRegions_inside :
    ∀ region ∈ manyRegions, region.srcOffset + region.size ≤ 128 ∧ region.dstOffset + region.size ≤ 128 := by
  intro region member
  obtain ⟨position, low, rfl⟩ := List.mem_map.mp member
  have := List.mem_range.mp low
  exact ⟨(by decide : 0 + 1 ≤ 128), (by omega : position + 1 ≤ 128)⟩

theorem submission_drops_copies :
    ¬∀ (executor : Executor) (heap : Heap), heap.NoAliases → ∀ calls : List Call,
      (∀ call ∈ calls, call.Valid heap) →
      ∀ heap', vkQueueSubmit executor false [recorded heap calls] heap = (.success, heap') →
        heap' = (commandsOf heap .initial calls).foldl (perform executor) heap := by
  intro inOrder
  have same := inOrder countingExecutor sharedHeap sharedHeap_noAliases [.copyBuffer 0 1 manyRegions]
    (List.forall_mem_singleton.mpr
      ⟨_, _, sharedHeap_backed 0, sharedHeap_backed 1, manyRegions_inside⟩) _ (VkResult.of_success (by decide +kernel))
  have last := congrFun (congrFun (congrArg Heap.bytes same) 1) 64
  revert last
  decide +kernel

end Example

end PDocker.Vulkan
