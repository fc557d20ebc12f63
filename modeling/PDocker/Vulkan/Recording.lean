import PDocker.Vulkan.Commands

/-!
# Recording

What a sequence of calls asks for, command by command, and what is recorded of it: everything,
in order, exactly when every call finds room.
-/

set_option autoImplicit false

namespace PDocker.Vulkan

open Regions

inductive Command where
  | copy (op : CopyOp)
  | fill (buffer : BufferId) (offset size : Nat) (data : UInt32)
  | update (buffer : BufferId) (offset : Nat) (payload : List UInt8)
  | dispatch (op : DispatchOp)
  | barrier

structure Bindings where
  pipeline : Option Pipeline
  sets : BoundSets
  pushConstants : Nat → UInt8
  pushConstantSize : Nat

def Bindings.initial : Bindings := ⟨none, fun _ => none, fun _ => 0, 0⟩

def Bindings.step (now : Bindings) : Call → Bindings
  | .bindPipeline pipeline => { now with pipeline := pipeline }
  | .bindDescriptorSets sets firstSet handles dynamicOffsets =>
      { now with sets := bindSets sets dynamicOffsets firstSet handles 0 now.sets }
  | .pushConstants offset values =>
      { now with
        pushConstants := CommandBuffer.overwrite now.pushConstants offset values
        pushConstantSize := max now.pushConstantSize (offset + values.length) }
  | _ => now

def bufferSize (heap : Heap) (id : BufferId) : Nat := ((heap.buffers id).map (·.size)).getD 0

def Call.commands (heap : Heap) (now : Bindings) : Call → List Command
  | .dispatch x y z =>
      [.dispatch
        { pipeline := now.pipeline
          sets := now.sets
          x := x
          y := y
          z := z
          pushConstants := now.pushConstants
          pushConstantSize := max now.pushConstantSize ((now.pipeline.bind (·.layout)).getD 0) }]
  | .pipelineBarrier => [.barrier]
  | .copyBuffer src dst regions => regions.map fun region => .copy ⟨src, dst, region⟩
  | .fillBuffer dst offset size data =>
      [.fill dst offset (if size = VK_WHOLE_SIZE then bufferSize heap dst - offset else size) data]
  | .updateBuffer dst offset data _ => [.update dst offset data]
  | .bindPipeline _ | .bindDescriptorSets .. | .pushConstants .. => []

def commandsOf (heap : Heap) : Bindings → List Call → List Command
  | _, [] => []
  | now, call :: calls => call.commands heap now ++ commandsOf heap (now.step call) calls

def bufferRange (heap : Heap) (id : BufferId) (offset size : Nat) : Option (Region MemoryId) :=
  (heap.buffers id).bind fun buffer => buffer.memory.map fun memory =>
    ⟨memory, buffer.memoryOffset + offset, size⟩

def Backed (heap : Heap) (id : BufferId) (buffer : VkBuffer) : Prop :=
  heap.buffers id = some buffer ∧ ∃ number memory, buffer.memory = some number ∧
    heap.memories number = some memory ∧ buffer.memoryOffset + buffer.size ≤ memory.size

def Call.Valid (heap : Heap) : Call → Prop
  | .copyBuffer src dst regions =>
      ∃ source target, Backed heap src source ∧ Backed heap dst target ∧
        ∀ region ∈ regions, region.srcOffset + region.size ≤ source.size ∧
          region.dstOffset + region.size ≤ target.size
  | .fillBuffer dst offset size _ =>
      ∃ target, Backed heap dst target ∧ offset < target.size ∧
        (size = VK_WHOLE_SIZE ∨ (0 < size ∧ size % 4 = 0 ∧ offset + size ≤ target.size))
  | .updateBuffer dst offset data _ =>
      ∃ target, Backed heap dst target ∧ 0 < data.length ∧ offset + data.length ≤ target.size
  | .pushConstants offset values =>
      0 < values.length ∧ offset + values.length ≤ PDOCKER_VK_MAX_PUSH_BYTES
  | .bindPipeline _ | .bindDescriptorSets .. | .dispatch .. | .pipelineBarrier => True

/-- Every command of the call gets its entries, and the payload of an update its memory. -/
def Roomy (cmd : CommandBuffer) : Call → Prop
  | .copyBuffer _ _ regions =>
      regions = [] ∨
        cmd.copyOps.length + regions.length ≤ PDOCKER_VK_MAX_COPY_OPS ∧
          cmd.commandOps.length + regions.length ≤ PDOCKER_VK_MAX_COMMAND_OPS
  | .fillBuffer .. | .pipelineBarrier => cmd.commandOps.length < PDOCKER_VK_MAX_COMMAND_OPS
  | .updateBuffer _ _ _ allocated =>
      cmd.commandOps.length < PDOCKER_VK_MAX_COMMAND_OPS ∧ allocated = true
  | .dispatch .. =>
      cmd.dispatchOps.length < PDOCKER_VK_MAX_DISPATCH_OPS ∧
        cmd.commandOps.length < PDOCKER_VK_MAX_COMMAND_OPS
  | .bindPipeline _ | .bindDescriptorSets .. | .pushConstants .. => True

def RoomyAlong (heap : Heap) : CommandBuffer → List Call → Prop
  | _, [] => True
  | cmd, call :: calls => Roomy cmd call ∧ RoomyAlong heap (cmd.record heap call) calls

/-! ## What recording appends -/

theorem getElem?_of_prefix {α : Type} {front whole : List α} (isPrefix : front <+: whole) {index : Nat}
    {value : α} (found : front[index]? = some value) : whole[index]? = some value := by
  obtain ⟨rest, rfl⟩ := isPrefix
  rw [List.getElem?_append_left (List.getElem?_eq_some_iff.mp found).1, found]

namespace CommandBuffer

def bindings (cmd : CommandBuffer) : Bindings :=
  ⟨cmd.pipeline, cmd.boundSets, cmd.pushConstants, cmd.pushConstantSize⟩

def resolve (cmd : CommandBuffer) : CommandOp → Option Command
  | .copy index => cmd.copyOps[index]?.map .copy
  | .fill buffer offset size data => some (.fill buffer offset size data)
  | .update buffer offset payload => some (.update buffer offset payload)
  | .dispatch index => cmd.dispatchOps[index]?.map .dispatch
  | .barrier => some .barrier

def resolved (cmd : CommandBuffer) : List Command := cmd.commandOps.filterMap cmd.resolve

variable {cmd cmd' grown : CommandBuffer} {command : Command} {op : CommandOp}

theorem resolve_mono (copies : cmd.copyOps <+: cmd'.copyOps) (dispatches : cmd.dispatchOps <+: cmd'.dispatchOps)
    (resolved : cmd.resolve op = some command) : cmd'.resolve op = some command := by
  cases op with
  | copy index =>
      obtain ⟨op, found, rfl⟩ := Option.map_eq_some_iff.mp resolved
      exact Option.map_eq_some_iff.mpr ⟨op, getElem?_of_prefix copies found, rfl⟩
  | dispatch index =>
      obtain ⟨op, found, rfl⟩ := Option.map_eq_some_iff.mp resolved
      exact Option.map_eq_some_iff.mpr ⟨op, getElem?_of_prefix dispatches found, rfl⟩
  | fill buffer offset size data | update buffer offset payload | barrier => exact resolved

theorem map_resolve_mono (copies : cmd.copyOps <+: cmd'.copyOps)
    (dispatches : cmd.dispatchOps <+: cmd'.dispatchOps) {ops : List CommandOp} :
    ∀ {commands : List Command}, ops.map cmd.resolve = commands.map some →
      ops.map cmd'.resolve = commands.map some := by
  induction ops with
  | nil => exact id
  | cons op ops ih =>
      intro commands resolved
      cases commands with
      | nil => cases resolved
      | cons command commands =>
          rw [List.map_cons, List.map_cons, List.cons.injEq] at resolved ⊢
          exact ⟨resolve_mono copies dispatches resolved.1, ih resolved.2⟩

structure Appends (cmd cmd' : CommandBuffer) (added : List Command) : Prop where
  copies : cmd.copyOps <+: cmd'.copyOps
  dispatches : cmd.dispatchOps <+: cmd'.dispatchOps
  ops : ∃ new, cmd'.commandOps = cmd.commandOps ++ new ∧ new.map cmd'.resolve = added.map some

namespace Appends

theorem nothing (cmd : CommandBuffer) : Appends cmd cmd [] :=
  ⟨List.prefix_rfl, List.prefix_rfl, [], (List.append_nil _).symm, rfl⟩

variable {added : List Command} {cmd : CommandBuffer}

theorem trans {first second third : CommandBuffer} {later : List Command}
    (before : Appends first second added) (after : Appends second third later) :
    Appends first third (added ++ later) := by
  obtain ⟨new, appended, resolved⟩ := before.ops
  obtain ⟨new', appended', resolved'⟩ := after.ops
  refine ⟨before.copies.trans after.copies, before.dispatches.trans after.dispatches, new ++ new', ?_, ?_⟩
  · rw [appended', appended, List.append_assoc]
  · rw [List.map_append, List.map_append, map_resolve_mono after.copies after.dispatches resolved, resolved']

theorem length_eq {cmd' : CommandBuffer} (appends : Appends cmd cmd' added) :
    cmd'.commandOps.length = cmd.commandOps.length + added.length := by
  obtain ⟨new, appended, resolved⟩ := appends.ops
  have same := congrArg List.length resolved
  rw [List.length_map, List.length_map] at same
  rw [appended, List.length_append, same]

theorem resolved_eq
    (appends : Appends vkBeginCommandBuffer cmd added) : cmd.commandOps.map cmd.resolve = added.map some := by
  obtain ⟨new, appended, resolved⟩ := appends.ops
  rw [appended]
  exact resolved

end Appends

theorem appendCommandOp_room (room : cmd.commandOps.length < PDOCKER_VK_MAX_COMMAND_OPS)
    (op : CommandOp) : cmd.appendCommandOp op = { cmd with commandOps := cmd.commandOps ++ [op] } :=
  if_neg (by omega)

theorem appendCommandOp_full (full : PDOCKER_VK_MAX_COMMAND_OPS ≤ cmd.commandOps.length)
    (op : CommandOp) : cmd.appendCommandOp op = cmd :=
  if_pos full

@[simp] theorem appendCommandOp_copyOps (cmd : CommandBuffer) (op : CommandOp) :
    (cmd.appendCommandOp op).copyOps = cmd.copyOps := by
  unfold appendCommandOp
  split <;> rfl

@[simp] theorem appendCommandOp_bindings (cmd : CommandBuffer) (op : CommandOp) :
    (cmd.appendCommandOp op).bindings = cmd.bindings := by
  unfold appendCommandOp
  split <;> rfl

theorem appends_one (copies : cmd.copyOps <+: grown.copyOps) (dispatches : cmd.dispatchOps <+: grown.dispatchOps)
    (same : grown.commandOps = cmd.commandOps)
    (room : cmd.commandOps.length < PDOCKER_VK_MAX_COMMAND_OPS) (resolved : grown.resolve op = some command) :
    Appends cmd (grown.appendCommandOp op) [command] := by
  rw [appendCommandOp_room (same ▸ room)]
  refine ⟨copies, dispatches, [op], congrArg (· ++ [op]) same, ?_⟩
  exact congrArg (· :: []) (resolve_mono List.prefix_rfl List.prefix_rfl resolved)

theorem appends_none (copies : cmd.copyOps <+: grown.copyOps) (dispatches : cmd.dispatchOps <+: grown.dispatchOps)
    (same : grown.commandOps = cmd.commandOps)
    (full : PDOCKER_VK_MAX_COMMAND_OPS ≤ cmd.commandOps.length) :
    Appends cmd (grown.appendCommandOp op) [] := by
  rw [appendCommandOp_full (same ▸ full)]
  exact ⟨copies, dispatches, [], by rw [same, List.append_nil], rfl⟩

theorem copyRegion_room (src dst : BufferId) (region : VkBufferCopy)
    (copies : cmd.copyOps.length < PDOCKER_VK_MAX_COPY_OPS)
    (room : cmd.commandOps.length < PDOCKER_VK_MAX_COMMAND_OPS) :
    Appends cmd (copyRegion src dst cmd region) [.copy ⟨src, dst, region⟩] ∧
      (copyRegion src dst cmd region).copyOps.length = cmd.copyOps.length + 1 := by
  rw [copyRegion, if_pos copies]
  constructor
  · refine appends_one (List.prefix_append _ _) List.prefix_rfl rfl room ?_
    exact congrArg (Option.map Command.copy) List.getElem?_concat_length
  · rw [appendCommandOp_copyOps]
    exact List.length_append

theorem copyRegion_full (src dst : BufferId) (region : VkBufferCopy)
    (full : ¬(cmd.copyOps.length < PDOCKER_VK_MAX_COPY_OPS ∧
      cmd.commandOps.length < PDOCKER_VK_MAX_COMMAND_OPS)) :
    Appends cmd (copyRegion src dst cmd region) [] := by
  by_cases copies : cmd.copyOps.length < PDOCKER_VK_MAX_COPY_OPS
  · rw [copyRegion, if_pos copies]
    have full : PDOCKER_VK_MAX_COMMAND_OPS ≤ cmd.commandOps.length := by omega
    exact appends_none (List.prefix_append _ _) List.prefix_rfl rfl full
  · rw [copyRegion, if_neg copies]
    exact Appends.nothing cmd

theorem copyRegions_appends (src dst : BufferId) (regions : List VkBufferCopy) :
    ∀ cmd : CommandBuffer,
      ((Roomy cmd (.copyBuffer src dst regions) ∧
        Appends cmd (regions.foldl (copyRegion src dst) cmd)
          (regions.map fun region => .copy ⟨src, dst, region⟩)) ∨
      (¬Roomy cmd (.copyBuffer src dst regions) ∧ ∃ added, added.length < regions.length ∧
        Appends cmd (regions.foldl (copyRegion src dst) cmd) added)) := by
  induction regions with
  | nil => exact fun cmd => .inl ⟨.inl rfl, Appends.nothing cmd⟩
  | cons region regions ih =>
      intro cmd
      rw [List.foldl_cons]
      by_cases room : cmd.copyOps.length < PDOCKER_VK_MAX_COPY_OPS ∧
          cmd.commandOps.length < PDOCKER_VK_MAX_COMMAND_OPS
      · obtain ⟨first, copies⟩ := copyRegion_room src dst region room.1 room.2
        have entries := first.length_eq
        rw [List.length_singleton] at entries
        have tail : Roomy (copyRegion src dst cmd region) (.copyBuffer src dst regions) ↔
            Roomy cmd (.copyBuffer src dst (region :: regions)) := by
          simp only [Roomy, copies, entries, List.length_cons, reduceCtorEq, false_or]
          cases regions with
          | nil => simp only [true_or, List.length_nil, true_iff]; omega
          | cons _ _ => simp only [List.length_cons, reduceCtorEq, false_or]; omega
        rcases ih (copyRegion src dst cmd region) with ⟨roomy, rest⟩ | ⟨full, added, fewer, rest⟩
        · exact .inl ⟨tail.mp roomy, first.trans rest⟩
        · refine .inr ⟨fun roomy => full (tail.mpr roomy), _, ?_, first.trans rest⟩
          rw [List.length_append, List.length_singleton, List.length_cons]
          omega
      · have first := copyRegion_full src dst region room
        have full : ¬Roomy cmd (.copyBuffer src dst (region :: regions)) := by
          simp only [Roomy, List.length_cons, reduceCtorEq, false_or]
          omega
        refine .inr ⟨full, ?_⟩
        rcases ih (copyRegion src dst cmd region) with ⟨_, rest⟩ | ⟨_, added, fewer, rest⟩
        · exact ⟨_, by rw [List.length_append, List.length_map, List.length_nil, List.length_cons]; omega,
            first.trans rest⟩
        · exact ⟨_, by rw [List.length_append, List.length_nil, List.length_cons]; omega, first.trans rest⟩

end CommandBuffer

def Recorded (heap : Heap) (cmd cmd' : CommandBuffer) (call : Call) : Prop :=
  (Roomy cmd call ∧ cmd.Appends cmd' (call.commands heap cmd.bindings)) ∨
    (¬Roomy cmd call ∧ ∃ added, added.length < (call.commands heap cmd.bindings).length ∧
      cmd.Appends cmd' added)

variable {buffer : VkBuffer} {heap : Heap} {id : BufferId} {call : Call} {cmd : CommandBuffer}

theorem Backed.bound (backed : Backed heap id buffer) :
    CommandBuffer.bound heap id = some buffer := by
  obtain ⟨found, number, memory, inMemory, _⟩ := backed
  rw [CommandBuffer.bound, found]
  exact Option.filter_eq_some_iff.mpr ⟨rfl, by rw [inMemory]; rfl⟩

theorem Backed.available (backed : Backed heap id buffer) (offset : Nat) (within : offset ≤ buffer.size) :
    bufferAvailable heap buffer offset = buffer.size - offset := by
  obtain ⟨_, number, memory, inMemory, present, fits⟩ := backed
  rw [bufferAvailable, inMemory, Option.bind_some, present]
  simp only [if_neg (by omega : ¬buffer.size < offset),
    if_neg (by omega : ¬memory.size < buffer.memoryOffset + offset)]
  omega

theorem Backed.pointer (backed : Backed heap id buffer) {offset size : Nat} (within : offset + size ≤ buffer.size) :
    ∃ region, bufferPtr heap buffer offset size = some region ∧
      bufferRange heap id offset size = some region := by
  have available := backed.available offset (by omega)
  obtain ⟨found, number, memory, inMemory, present, fits⟩ := backed
  refine ⟨⟨number, buffer.memoryOffset + offset, size⟩, ?_, ?_⟩
  · simp only [bufferPtr, inMemory, available, if_neg (by omega : ¬buffer.size - offset < size)]
  · rw [bufferRange, found, Option.bind_some, inMemory]
    rfl

theorem recorded_one {op : CommandOp} {command : Command}
    (roomy : Roomy cmd call ↔ cmd.commandOps.length < PDOCKER_VK_MAX_COMMAND_OPS)
    (commands : call.commands heap cmd.bindings = [command]) (resolved : cmd.resolve op = some command) :
    Recorded heap cmd (cmd.appendCommandOp op) call := by
  rw [Recorded, commands, roomy]
  by_cases room : cmd.commandOps.length < PDOCKER_VK_MAX_COMMAND_OPS
  · exact .inl ⟨room, CommandBuffer.appends_one List.prefix_rfl List.prefix_rfl rfl room resolved⟩
  · exact .inr ⟨room, [], Nat.one_pos, CommandBuffer.appends_none List.prefix_rfl List.prefix_rfl rfl (by omega)⟩

theorem record_recorded (cmd : CommandBuffer) (valid : call.Valid heap) :
    Recorded heap cmd (cmd.record heap call) call := by
  cases call with
  | bindPipeline pipeline =>
      exact .inl ⟨trivial, List.prefix_rfl, List.prefix_rfl, [], (List.append_nil _).symm, rfl⟩
  | bindDescriptorSets sets firstSet handles dynamicOffsets =>
      refine .inl ⟨trivial, ?_⟩
      simp only [CommandBuffer.record, CommandBuffer.vkCmdBindDescriptorSets]
      split
      · exact .nothing cmd
      · exact ⟨List.prefix_rfl, List.prefix_rfl, [], (List.append_nil _).symm, rfl⟩
  | pushConstants offset values =>
      have low : ¬PDOCKER_VK_MAX_PUSH_BYTES ≤ offset := by
        have := valid.1
        have := valid.2
        omega
      refine .inl ⟨trivial, ?_⟩
      simp only [CommandBuffer.record, CommandBuffer.vkCmdPushConstants, if_neg low]
      exact ⟨List.prefix_rfl, List.prefix_rfl, [], (List.append_nil _).symm, rfl⟩
  | dispatch x y z =>
      simp only [CommandBuffer.record, CommandBuffer.vkCmdDispatch]
      by_cases free : cmd.dispatchOps.length < PDOCKER_VK_MAX_DISPATCH_OPS
      · rw [if_pos free]
        by_cases room : cmd.commandOps.length < PDOCKER_VK_MAX_COMMAND_OPS
        · refine .inl ⟨⟨free, room⟩, CommandBuffer.appends_one List.prefix_rfl (List.prefix_append _ _) rfl room ?_⟩
          exact congrArg (Option.map Command.dispatch) List.getElem?_concat_length
        · exact .inr ⟨fun roomy => room roomy.2, [], Nat.one_pos,
            CommandBuffer.appends_none List.prefix_rfl (List.prefix_append _ _) rfl (by omega)⟩
      · rw [if_neg free]
        exact .inr ⟨fun roomy => free roomy.1, [], Nat.one_pos, List.prefix_rfl, List.prefix_rfl, [],
          (List.append_nil _).symm, rfl⟩
  | pipelineBarrier => exact recorded_one Iff.rfl rfl rfl
  | copyBuffer src dst regions =>
      obtain ⟨source, target, sourceBacked, targetBacked, _⟩ := valid
      simp only [CommandBuffer.record, CommandBuffer.vkCmdCopyBuffer, sourceBacked.bound, targetBacked.bound]
      rcases CommandBuffer.copyRegions_appends src dst regions cmd with whole | ⟨full, added, fewer, part⟩
      · exact .inl whole
      · exact .inr ⟨full, added, by rw [Call.commands, List.length_map]; exact fewer, part⟩
  | fillBuffer dst offset size data =>
      obtain ⟨target, backed, inside, sized⟩ := valid
      have available := backed.available offset (by omega)
      have bytes : min (if size = VK_WHOLE_SIZE then target.size - offset else size) (target.size - offset) =
          if size = VK_WHOLE_SIZE then bufferSize heap dst - offset else size := by
        rw [bufferSize, backed.1, Option.map_some, Option.getD_some]
        split_ifs <;> omega
      have nonzero : ¬(if size = VK_WHOLE_SIZE then bufferSize heap dst - offset else size) = 0 := by
        rw [← bytes]
        split_ifs <;> omega
      simp only [CommandBuffer.record, CommandBuffer.vkCmdFillBuffer, backed.bound, available, bytes,
        if_neg nonzero]
      exact recorded_one Iff.rfl rfl rfl
  | updateBuffer dst offset data allocated =>
      obtain ⟨target, backed, nonempty, inside⟩ := valid
      have available := backed.available offset (by omega)
      have whole : data.take (target.size - offset) = data := List.take_of_length_le (by omega)
      obtain ⟨region, pointer, _⟩ := backed.pointer inside
      have usable : ¬((bufferPtr heap target offset data.length).isNone = true ∨ data = []) := by
        rw [pointer]
        rintro (none | empty)
        · cases none
        · exact nonempty.ne' (congrArg List.length empty)
      simp only [CommandBuffer.record, CommandBuffer.vkCmdUpdateBuffer, backed.bound, available, whole,
        if_neg usable]
      cases allocated with
      | true => exact recorded_one (and_iff_left rfl) rfl rfl
      | false => exact .inr ⟨fun roomy => Bool.false_ne_true roomy.2, [], Nat.one_pos, .nothing cmd⟩

theorem copyRegions_keeps {α : Type} (part : CommandBuffer → α) (src dst : BufferId)
    (keeps : ∀ cmd region, part (CommandBuffer.copyRegion src dst cmd region) = part cmd)
    (regions : List VkBufferCopy) :
    ∀ cmd, part (regions.foldl (CommandBuffer.copyRegion src dst) cmd) = part cmd := by
  induction regions with
  | nil => exact fun _ => rfl
  | cons region regions ih => exact fun cmd => (ih _).trans (keeps cmd region)

theorem vkCmdFillBuffer_cases (heap : Heap) (cmd : CommandBuffer) (dst : BufferId) (offset size : Nat)
    (data : UInt32) :
    cmd.vkCmdFillBuffer heap dst offset size data = cmd ∨
      ∃ op, cmd.vkCmdFillBuffer heap dst offset size data = cmd.appendCommandOp op := by
  unfold CommandBuffer.vkCmdFillBuffer
  split
  · exact .inl rfl
  · exact (ite_eq_or_eq _ _ _).imp_right fun appended => ⟨_, appended⟩

theorem vkCmdUpdateBuffer_cases (heap : Heap) (cmd : CommandBuffer) (dst : BufferId) (offset : Nat)
    (data : List UInt8) (allocated : Bool) :
    cmd.vkCmdUpdateBuffer heap dst offset data allocated = cmd ∨
      ∃ op, cmd.vkCmdUpdateBuffer heap dst offset data allocated = cmd.appendCommandOp op := by
  unfold CommandBuffer.vkCmdUpdateBuffer
  split
  · exact .inl rfl
  dsimp only
  split_ifs
  · exact .inl rfl
  · exact .inr ⟨_, rfl⟩
  · exact .inl rfl

theorem record_bindings (cmd : CommandBuffer) (valid : call.Valid heap) :
    (cmd.record heap call).bindings = cmd.bindings.step call := by
  cases call with
  | bindPipeline pipeline => rfl
  | bindDescriptorSets sets firstSet handles dynamicOffsets =>
      simp only [CommandBuffer.record, CommandBuffer.vkCmdBindDescriptorSets]
      split
      · next none => subst none; rfl
      · rfl
  | pushConstants offset values =>
      obtain ⟨nonempty, fits⟩ := valid
      have low : ¬PDOCKER_VK_MAX_PUSH_BYTES ≤ offset := by omega
      have whole : values.take (PDOCKER_VK_MAX_PUSH_BYTES - offset) = values :=
        List.take_of_length_le (by omega)
      simp only [CommandBuffer.record, CommandBuffer.vkCmdPushConstants, if_neg low, whole]
      rfl
  | dispatch x y z =>
      simp only [CommandBuffer.record, CommandBuffer.vkCmdDispatch]
      split
      · exact CommandBuffer.appendCommandOp_bindings _ _
      · rfl
  | pipelineBarrier => exact CommandBuffer.appendCommandOp_bindings _ _
  | copyBuffer src dst regions =>
      simp only [CommandBuffer.record, CommandBuffer.vkCmdCopyBuffer]
      split
      · refine copyRegions_keeps CommandBuffer.bindings src dst (fun cmd region => ?_) regions cmd
        unfold CommandBuffer.copyRegion
        split
        · exact CommandBuffer.appendCommandOp_bindings _ _
        · rfl
      · rfl
  | fillBuffer dst offset size data =>
      rw [CommandBuffer.record]
      rcases vkCmdFillBuffer_cases heap cmd dst offset size data with same | ⟨op, appended⟩
      · rw [same]; rfl
      · rw [appended]; exact CommandBuffer.appendCommandOp_bindings cmd op
  | updateBuffer dst offset data allocated =>
      rw [CommandBuffer.record]
      rcases vkCmdUpdateBuffer_cases heap cmd dst offset data allocated with same | ⟨op, appended⟩
      · rw [same]; rfl
      · rw [appended]; exact CommandBuffer.appendCommandOp_bindings cmd op

def recorded (heap : Heap) (calls : List Call) : CommandBuffer :=
  calls.foldl (CommandBuffer.record heap) vkBeginCommandBuffer

theorem record_run (calls : List Call) :
    ∀ cmd : CommandBuffer, (∀ call ∈ calls, call.Valid heap) →
      (RoomyAlong heap cmd calls ∧ cmd.Appends (calls.foldl (CommandBuffer.record heap) cmd)
        (commandsOf heap cmd.bindings calls)) ∨
      (¬RoomyAlong heap cmd calls ∧
        ∃ added, added.length < (commandsOf heap cmd.bindings calls).length ∧
          cmd.Appends (calls.foldl (CommandBuffer.record heap) cmd) added) := by
  induction calls with
  | nil => exact fun cmd _ => .inl ⟨trivial, .nothing cmd⟩
  | cons call calls ih =>
      intro cmd valid
      have validHere := valid call List.mem_cons_self
      have rest := ih (cmd.record heap call) fun other member => valid other (List.mem_cons_of_mem _ member)
      rw [record_bindings cmd validHere] at rest
      simp only [commandsOf, List.length_append]
      rcases record_recorded cmd validHere with ⟨roomy, here⟩ | ⟨full, added, fewer, here⟩
      · rcases rest with ⟨roomyLater, later⟩ | ⟨fullLater, added, fewer, later⟩
        · exact .inl ⟨⟨roomy, roomyLater⟩, here.trans later⟩
        · refine .inr ⟨fun along => fullLater along.2, _, ?_, here.trans later⟩
          rw [List.length_append]
          omega
      · refine .inr ⟨fun along => full along.1, ?_⟩
        rcases rest with ⟨_, later⟩ | ⟨_, addedLater, fewerLater, later⟩
        · exact ⟨_, by rw [List.length_append]; omega, here.trans later⟩
        · exact ⟨_, by rw [List.length_append]; omega, here.trans later⟩

theorem CommandBuffer.Appends.resolved {cmd : CommandBuffer} {added : List Command}
    (appends : vkBeginCommandBuffer.Appends cmd added) : cmd.resolved = added := by
  have each := appends.resolved_eq
  calc cmd.commandOps.filterMap cmd.resolve
      = (cmd.commandOps.map cmd.resolve).filterMap id := by rw [List.filterMap_map]; rfl
    _ = added := by rw [each, List.filterMap_map]; exact List.filterMap_some

theorem resolved_recorded_iff {calls : List Call} (valid : ∀ call ∈ calls, call.Valid heap) :
    (recorded heap calls).resolved = commandsOf heap .initial calls ↔
      RoomyAlong heap vkBeginCommandBuffer calls := by
  rcases record_run calls vkBeginCommandBuffer valid with ⟨roomy, whole⟩ | ⟨full, added, fewer, part⟩
  · exact iff_of_true whole.resolved roomy
  refine iff_of_false (fun same => ?_) full
  have lengths := congrArg List.length same
  rw [recorded, part.resolved] at lengths
  exact fewer.ne lengths

def CommandBuffer.Ordered (cmd : CommandBuffer) : Prop :=
  cmd.commandOps = [] → cmd.copyOps = [] ∧ cmd.dispatchOps = [] ∧ cmd.hasDispatch = false

theorem CommandBuffer.appendCommandOp_ordered (cmd : CommandBuffer) (op : CommandOp) :
    (cmd.appendCommandOp op).Ordered := by
  intro none
  by_cases room : cmd.commandOps.length < PDOCKER_VK_MAX_COMMAND_OPS
  · rw [CommandBuffer.appendCommandOp_room room] at none
    exact absurd none (List.append_ne_nil_of_right_ne_nil _ (List.cons_ne_nil _ _))
  · rw [CommandBuffer.appendCommandOp_full (by omega)] at none
    rw [none] at room
    exact absurd (by decide) room

theorem CommandBuffer.Ordered.copyRegions {src dst : BufferId} (regions : List VkBufferCopy) :
    ∀ {cmd : CommandBuffer}, cmd.Ordered →
      CommandBuffer.Ordered (regions.foldl (CommandBuffer.copyRegion src dst) cmd) := by
  induction regions with
  | nil => exact id
  | cons region regions ih =>
      intro cmd ordered
      refine ih ?_
      unfold CommandBuffer.copyRegion
      split
      · exact CommandBuffer.appendCommandOp_ordered _ _
      · exact ordered

theorem CommandBuffer.Ordered.record (ordered : cmd.Ordered) (call : Call) : (cmd.record heap call).Ordered := by
  cases call with
  | bindPipeline pipeline => exact ordered
  | bindDescriptorSets sets firstSet handles dynamicOffsets =>
      simp only [CommandBuffer.record, CommandBuffer.vkCmdBindDescriptorSets]
      split <;> exact ordered
  | pushConstants offset values =>
      simp only [CommandBuffer.record, CommandBuffer.vkCmdPushConstants]
      split <;> exact ordered
  | dispatch x y z =>
      simp only [CommandBuffer.record, CommandBuffer.vkCmdDispatch]
      split
      · exact CommandBuffer.appendCommandOp_ordered _ _
      next full =>
        intro none
        have noDispatches : cmd.dispatchOps = [] := (ordered none).2.1
        rw [noDispatches] at full
        exact absurd (by decide) full
  | pipelineBarrier => exact CommandBuffer.appendCommandOp_ordered _ _
  | copyBuffer src dst regions =>
      simp only [CommandBuffer.record, CommandBuffer.vkCmdCopyBuffer]
      split
      · exact ordered.copyRegions regions
      · exact ordered
  | fillBuffer dst offset size data =>
      rw [CommandBuffer.record]
      rcases vkCmdFillBuffer_cases heap cmd dst offset size data with same | ⟨op, appended⟩
      · rw [same]; exact ordered
      · rw [appended]; exact CommandBuffer.appendCommandOp_ordered cmd op
  | updateBuffer dst offset data allocated =>
      rw [CommandBuffer.record]
      rcases vkCmdUpdateBuffer_cases heap cmd dst offset data allocated with same | ⟨op, appended⟩
      · rw [same]; exact ordered
      · rw [appended]; exact CommandBuffer.appendCommandOp_ordered cmd op

theorem recorded_ordered (heap : Heap) (calls : List Call) : (recorded heap calls).Ordered := by
  refine List.foldlRecOn calls _ (motive := CommandBuffer.Ordered) (fun _ => ⟨rfl, rfl, rfl⟩) ?_
  exact fun cmd ordered call _ => ordered.record call

end PDocker.Vulkan
