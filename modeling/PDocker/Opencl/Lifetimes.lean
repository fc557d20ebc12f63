import PDocker.Data.Regions
import PDocker.Opencl.Objects

/-!
# The lifetime of OpenCL objects

What the calls mean by the rules of OpenCL: references are counted, an object
lives as long as it has one, a buffer is an array of bytes, and an argument is
what it was set to. The shim agrees with that as long as the application gives
up each object at once.
-/

set_option autoImplicit false

namespace PDocker.Opencl

open Data (Text)
open Regions

/-! ## The rules -/

inductive RefData where
  | context
  | queue
  | mem (size : Nat)
  | program (source : Text)
  | kernel (name : Text) (program : Nat) (args : Nat → Option ClArg)

def RefData.kind : RefData → ClKind
  | .context => .context
  | .queue => .queue
  | .mem _ => .mem
  | .program _ => .program
  | .kernel _ _ _ => .kernel

/-- `refs` counts the references of the application. -/
structure RefObject where
  refs : Nat
  data : RefData

structure Reference where
  objects : List RefObject
  bytes : Memory Nat UInt8

namespace Reference

def initial : Reference := ⟨[], fun _ _ => 0⟩

def push (ref : Reference) (data : RefData) : Reference × ClOutput :=
  ({ ref with objects := ref.objects ++ [⟨1, data⟩] }, .handle ref.objects.length)

def size (ref : Reference) (handle : Nat) : Nat :=
  match ref.objects[handle]? with
  | some ⟨_, .mem size⟩ => size
  | _ => 0

def source (ref : Reference) (handle : Nat) : Text :=
  match ref.objects[handle]? with
  | some ⟨_, .program source⟩ => source
  | _ => []

def write (ref : Reference) (region : Region Nat) (value : Nat → UInt8) : Reference :=
  { ref with bytes := ref.bytes.store region value }

/-- A call on one region of a buffer, refused when the region is not in it. -/
def within (ref : Reference) (region : Region Nat) (ok : Reference × ClOutput) : Reference × ClOutput :=
  if region.offset + region.size ≤ ref.size region.object then ok else (ref, .code CL_INVALID_VALUE)

def vectorAdd (device : Device) (ref : Reference) (globalWorkSize : Option Nat) (a b out : Nat) :
    Reference × ClOutput :=
  let n := elementCount (ref.size a) (ref.size b) (ref.size out) globalWorkSize
  match device.vectorAdd (ref.bytes.load ⟨a, 0, ref.size a⟩) (ref.bytes.load ⟨b, 0, ref.size b⟩) n with
  | none => (ref, .code CL_INVALID_OPERATION)
  | some sum => (ref.write ⟨out, 0, 4 * n⟩ sum, .code CL_SUCCESS)

def step (device : Device) (ref : Reference) : ClCall → Reference × ClOutput
  | .createContext => ref.push .context
  | .createCommandQueue _ => ref.push .queue
  | .createBuffer size hostPtr =>
      if size = 0 then (ref, .code CL_INVALID_VALUE)
      else (ref.write ⟨ref.objects.length, 0, size⟩ (hostPtr.getD fun _ => 0)).push (.mem size)
  | .createProgram strings =>
      if strings = [] then (ref, .code CL_INVALID_VALUE) else ref.push (.program strings.flatten)
  | .createKernel program name => ref.push (.kernel name program fun _ => none)
  | .retain _ handle =>
      ({ ref with objects := ref.objects.modify handle fun old => { old with refs := old.refs + 1 } },
        .code CL_SUCCESS)
  | .release _ handle =>
      ({ ref with objects := ref.objects.modify handle fun old => { old with refs := old.refs - 1 } },
        .code CL_SUCCESS)
  | .write buffer offset bytes =>
      ref.within ⟨buffer, offset, bytes.length⟩
        (ref.write ⟨buffer, offset, bytes.length⟩ (bytes.getD · 0), .code CL_SUCCESS)
  | .read buffer offset cb =>
      ref.within ⟨buffer, offset, cb⟩ (ref, .bytes (ref.bytes.load ⟨buffer, offset, cb⟩))
  | .copy src dst srcOffset dstOffset cb =>
      ref.within ⟨src, srcOffset, cb⟩ (ref.within ⟨dst, dstOffset, cb⟩
          ({ ref with bytes := ref.bytes.move ⟨dst, dstOffset, cb⟩ ⟨src, srcOffset, cb⟩ },
            .code CL_SUCCESS))
  | .fill buffer pattern offset cb =>
      if pattern = [] then (ref, .code CL_INVALID_VALUE)
      else ref.within ⟨buffer, offset, cb⟩
        (ref.write ⟨buffer, offset, cb⟩ (fun i => pattern.getD (i % pattern.length) 0),
          .code CL_SUCCESS)
  | .map buffer offset cb => ref.within ⟨buffer, offset, cb⟩ (ref, .place buffer offset)
  | .store buffer offset bytes =>
      (ref.write ⟨buffer, offset, bytes.length⟩ (bytes.getD · 0), .code CL_SUCCESS)
  | .unmap _ => (ref, .code CL_SUCCESS)
  | .setArg handle index arg =>
      if index ≥ argCount then (ref, .code CL_INVALID_ARG_INDEX)
      else
        ({ ref with
          objects := ref.objects.modify handle fun old =>
            match old.data with
            | .kernel name program args =>
                { old with data := .kernel name program (Function.update args index (some arg)) }
            | _ => old },
          .code CL_SUCCESS)
  | .ndRange handle globalWorkSize =>
      match ref.objects[handle]? with
      | some ⟨_, .kernel _ program args⟩ =>
          match args 0, args 1, args 2 with
          | some (.object a), some (.object b), some (.object out) =>
              if sourceLooksLikeVectorAdd (ref.source program) then
                ref.vectorAdd device globalWorkSize a b out
              else (ref, .code CL_INVALID_OPERATION)
          | _, _, _ => (ref, .code CL_INVALID_OPERATION)
      | _ => (ref, .code CL_INVALID_OPERATION)

def run (device : Device) (ref : Reference) : List ClCall → Reference × List ClOutput
  | [] => (ref, [])
  | call :: calls =>
      let (after, output) := ref.step device call
      let (last, outputs) := after.run device calls
      (last, output :: outputs)

def Live (ref : Reference) (kind : ClKind) (handle : Nat) : Prop :=
  ∃ object, ref.objects[handle]? = some object ∧ 0 < object.refs ∧ object.data.kind = kind

/-- The call is one the rules allow: it names objects that the application
refers to, and so do the arguments of a kernel when it is enqueued. -/
def Valid (ref : Reference) : ClCall → Prop
  | .createContext => True
  | .createCommandQueue context => ref.Live .context context
  | .createBuffer _ _ => True
  | .createProgram _ => True
  | .createKernel program _ => ref.Live .program program
  | .retain kind handle => ref.Live kind handle
  | .release kind handle => ref.Live kind handle
  | .write buffer _ _ => ref.Live .mem buffer
  | .read buffer _ _ => ref.Live .mem buffer
  | .copy src dst _ _ _ => ref.Live .mem src ∧ ref.Live .mem dst
  | .fill buffer _ _ _ => ref.Live .mem buffer
  | .map buffer _ _ => ref.Live .mem buffer
  | .store buffer offset bytes => ref.Live .mem buffer ∧ offset + bytes.length ≤ ref.size buffer
  | .unmap buffer => ref.Live .mem buffer
  | .setArg kernel _ arg => ref.Live .kernel kernel ∧ ∀ buffer, arg = .object buffer → ref.Live .mem buffer
  | .ndRange kernel _ => ref.Live .kernel kernel ∧
      ∀ refs name program args, ref.objects[kernel]? = some ⟨refs, .kernel name program args⟩ →
        ∀ index buffer, args index = some (.object buffer) → ref.Live .mem buffer

/-- The shim tells the kind of the argument: what is no memory object is not of
its size, has room and was no memory object before. -/
def ToldApart (args : Nat → Option ClArg) (index : Nat) : ClArg → Prop
  | .object _ => True
  | .scalar bytes => bytes.length ≠ handleSize ∧ bytes.length ≤ scalarSize ∧
      ∀ buffer, args index ≠ some (.object buffer)
  | .localMemory _ => ∀ buffer, args index ≠ some (.object buffer)

def ThreeObjects (args : Nat → Option ClArg) : Prop :=
  ∃ a b out, args 0 = some (.object a) ∧ args 1 = some (.object b) ∧ args 2 = some (.object out)

/-- What the shim rests on besides: what is released has no other reference, the
kind of an argument is told, and the program of an enqueued kernel is still
referred to where it is looked at. -/
def Careful (device : Device) (ref : Reference) : ClCall → Prop
  | .release _ handle => ∀ object, ref.objects[handle]? = some object → object.refs = 1
  | .setArg kernel index arg => ∀ refs name program args,
      ref.objects[kernel]? = some ⟨refs, .kernel name program args⟩ →
        index < argCount → ToldApart args index arg
  | .ndRange kernel _ => ∀ refs name program args,
      ref.objects[kernel]? = some ⟨refs, .kernel name program args⟩ →
        device.traces = true ∨ ThreeObjects args → ref.Live .program program
  | _ => True

def AllCalls (device : Device) (allowed : Reference → ClCall → Prop) : Reference → List ClCall → Prop
  | _, [] => True
  | ref, call :: calls =>
      allowed ref call ∧ AllCalls device allowed (ref.step device call).1 calls

end Reference

def ArgKept (kernel : ClKernel) (index : Nat) : Option ClArg → Prop
  | none => kernel.memArgs index = none
  | some (.object handle) => kernel.memArgs index = some (.object handle)
  | some (.scalar bytes) => kernel.memArgs index = none ∧ kernel.argSizes index = bytes.length ∧
      (kernel.scalarArgs index).take bytes.length = bytes
  | some (.localMemory _) => kernel.memArgs index = none

def Holds (bytes : Memory Nat UInt8) (handle : Nat) : RefData → ClObject → Prop
  | .context, .context => True
  | .queue, .queue => True
  | .mem size, .mem map => map = bytes.load ⟨handle, 0, size⟩
  | .program source, .program program => program.source = source
  | .kernel name program args, .kernel kernel =>
      kernel.name = name ∧ kernel.program = program ∧
        (∀ index, (kernel.scalarArgs index).length = scalarSize) ∧
        ∀ index < argCount, ArgKept kernel index (args index)
  | _, _ => False

structure Agrees (state : ClState) (ref : Reference) : Prop where
  length : state.heap.length = ref.objects.length
  held : ∀ handle object, ref.objects[handle]? = some object → 0 < object.refs →
    ∃ held, state.deref handle = some held ∧ Holds ref.bytes handle object.data held

section Bytes

variable {map bytes : List UInt8} {offset : Nat}

theorem length_memcpy (small : offset + bytes.length ≤ map.length) :
    (memcpy map offset bytes).length = map.length := by
  simp only [memcpy, List.length_append, List.length_take, List.length_drop]
  omega

theorem getElem?_memcpy (small : offset + bytes.length ≤ map.length) (index : Nat) :
    (memcpy map offset bytes)[index]? =
      if offset ≤ index ∧ index < offset + bytes.length then bytes[index - offset]? else map[index]? := by
  have taken : (map.take offset).length = offset := by
    rw [List.length_take]
    omega
  rw [memcpy, List.append_assoc]
  rcases Nat.lt_or_ge index offset with before | from_offset
  · rw [if_neg (by omega), List.getElem?_append_left (by omega), List.getElem?_take_of_lt before]
  rw [List.getElem?_append_right (by omega), taken]
  rcases Nat.lt_or_ge index (offset + bytes.length) with inside | behind
  · rw [if_pos ⟨from_offset, inside⟩, List.getElem?_append_left (by omega)]
  · rw [if_neg (by omega), List.getElem?_append_right (by omega), List.getElem?_drop]
    congr 1
    omega

theorem getElem?_fillLoop (map pattern : List UInt8) (offset cb index : Nat) :
    (fillLoop map pattern offset cb)[index]? = if offset ≤ index ∧ index < offset + cb then
        map[index]?.map fun _ => pattern.getD ((index - offset) % pattern.length) 0
      else map[index]? := by
  induction cb with
  | zero => rw [if_neg (by omega)]; rfl
  | succ cb ih =>
      have last : fillLoop map pattern offset (cb + 1) =
          (fillLoop map pattern offset cb).set (offset + cb) (pattern.getD (cb % pattern.length) 0) := by
        rw [fillLoop, List.range_succ, List.foldl_append]
        rfl
      rw [last, List.getElem?_set', ih]
      rcases Nat.lt_trichotomy index (offset + cb) with before | rfl | behind
      · rw [if_neg (by omega)]
        exact if_congr (by omega) rfl rfl
      · rw [if_pos rfl, if_neg (by omega), if_pos (by omega), Nat.add_sub_cancel_left]
        rfl
      · rw [if_neg (by omega), if_neg (by omega), if_neg (by omega)]

variable {memory : Memory Nat UInt8}

theorem getElem?_load (region : Region Nat) (index : Nat) : (memory.load region)[index]? =
      if index < region.size then some (memory region.object (region.offset + index)) else none := by
  rw [Memory.load, List.getElem?_ofFn]
  split <;> rfl

theorem drop_take_load {buffer size offset cb : Nat} (small : offset + cb ≤ size) :
    ((memory.load ⟨buffer, 0, size⟩).drop offset).take cb = memory.load ⟨buffer, offset, cb⟩ := by
  apply List.ext_getElem?
  intro index
  rw [List.getElem?_take, List.getElem?_drop, getElem?_load, getElem?_load]
  dsimp only
  by_cases inside : index < cb
  · rw [if_pos inside, if_pos inside, if_pos (by omega), Nat.zero_add]
  · rw [if_neg inside, if_neg inside]

theorem load_store {buffer size offset cb : Nat} {value : Nat → UInt8} (index : Nat) :
    ((memory.store ⟨buffer, offset, cb⟩ value).load ⟨buffer, 0, size⟩)[index]? =
      if index < size ∧ offset ≤ index ∧ index < offset + cb then some (value (index - offset))
      else (memory.load ⟨buffer, 0, size⟩)[index]? := by
  rw [getElem?_load, getElem?_load]
  dsimp only
  rw [Nat.zero_add]
  by_cases small : index < size
  · rw [if_pos small, if_pos small]
    by_cases inside : offset ≤ index ∧ index < offset + cb
    · rw [if_pos ⟨small, inside⟩, Memory.store_inside ⟨rfl, inside.1, inside.2⟩]
    · rw [if_neg fun held => inside held.2, Memory.store_outside fun held => inside held.2]
  · rw [if_neg small, if_neg small, if_neg fun held => small held.1]

theorem memcpy_load {buffer size offset : Nat} {bytes : List UInt8} {value : Nat → UInt8}
    (small : offset + bytes.length ≤ size) (same : ∀ index < bytes.length, bytes[index]? = some (value index)) :
    memcpy (memory.load ⟨buffer, 0, size⟩) offset bytes =
      (memory.store ⟨buffer, offset, bytes.length⟩ value).load ⟨buffer, 0, size⟩ := by
  have length : (memory.load ⟨buffer, 0, size⟩).length = size := List.length_ofFn
  apply List.ext_getElem?
  intro index
  rw [getElem?_memcpy (by omega), load_store]
  by_cases inside : offset ≤ index ∧ index < offset + bytes.length
  · rw [if_pos inside, if_pos ⟨by omega, inside⟩]
    exact same _ (by omega)
  · rw [if_neg inside, if_neg fun held => inside held.2]

theorem fillLoop_load {buffer size offset cb : Nat} {pattern : List UInt8} (small : offset + cb ≤ size) :
    fillLoop (memory.load ⟨buffer, 0, size⟩) pattern offset cb =
      (memory.store ⟨buffer, offset, cb⟩ fun i => pattern.getD (i % pattern.length) 0).load
        ⟨buffer, 0, size⟩ := by
  apply List.ext_getElem?
  intro index
  rw [getElem?_fillLoop, load_store, getElem?_load]
  dsimp only
  by_cases inside : offset ≤ index ∧ index < offset + cb
  · rw [if_pos inside, if_pos (show index < size by omega), if_pos ⟨by omega, inside⟩]
    rfl
  · rw [if_neg inside]
    exact (if_neg fun held => inside held.2).symm

end Bytes

theorem Holds.of_bytes {bytes bytes' : Memory Nat UInt8} {handle : Nat} {data : RefData} {object : ClObject}
    (same : ∀ position, bytes' handle position = bytes handle position) (holds : Holds bytes handle data object) :
    Holds bytes' handle data object := by
  cases data with
  | mem size =>
      cases object with
      | mem map =>
          have read : bytes'.load ⟨handle, 0, size⟩ = bytes.load ⟨handle, 0, size⟩ :=
            congrArg List.ofFn (funext fun _ => same _)
          exact holds.trans read.symm
      | _ => exact holds
  | _ => cases object <;> exact holds

theorem Holds.kind {bytes : Memory Nat UInt8} {handle : Nat} {data : RefData} {object : ClObject}
    (holds : Holds bytes handle data object) : object.kind = data.kind := by
  cases data <;> cases object <;> first | rfl | exact holds.elim

theorem bufferRangeValid_iff {map : List UInt8} {offset cb : Nat} :
    bufferRangeValid map offset cb = true ↔ offset + cb ≤ map.length := by
  simp only [bufferRangeValid, Bool.and_eq_true, decide_eq_true_eq]
  omega

theorem getElem?_modify (objects : List RefObject) (change : RefObject → RefObject) (handle other : Nat) :
    (objects.modify handle change)[other]? =
      if other = handle then objects[handle]?.map change else objects[other]? := by
  by_cases same : other = handle
  · subst other
    rw [List.getElem?_modify_eq, if_pos rfl]
    rfl
  · rw [List.getElem?_modify_ne _ _ fun eq => same eq.symm, if_neg same]

theorem deref_put {state : ClState} {handle : Nat} {object : ClObject} (small : handle < state.heap.length) (other : Nat) :
    (state.put handle object).deref other = if other = handle then some object else state.deref other := by
  rw [ClState.put, ClState.deref, List.getElem?_set]
  by_cases same : other = handle
  · rw [if_pos same.symm, if_pos small, if_pos same]
    rfl
  · rw [if_neg fun eq => same eq.symm, if_neg same]
    rfl

namespace Agrees

variable {state : ClState} {ref : Reference} {handle : Nat}

theorem initial : Agrees ⟨[]⟩ Reference.initial := ⟨rfl, nofun⟩

variable (agrees : Agrees state ref)

include agrees

theorem live {kind : ClKind} (live : ref.Live kind handle) :
    ∃ refs data object, ref.objects[handle]? = some ⟨refs, data⟩ ∧ 0 < refs ∧ data.kind = kind ∧
      state.deref handle = some object ∧ Holds ref.bytes handle data object := by
  obtain ⟨⟨refs, data⟩, listed, counted, same⟩ := live
  obtain ⟨object, found, holds⟩ := agrees.held handle ⟨refs, data⟩ listed counted
  exact ⟨refs, data, object, listed, counted, same, found, holds⟩

theorem derefMem (live : ref.Live .mem handle) :
    state.derefMem handle = some (ref.bytes.load ⟨handle, 0, ref.size handle⟩) := by
  obtain ⟨refs, data, object, listed, -, kind, found, holds⟩ := agrees.live live
  cases data with
  | mem size =>
      cases object with
      | mem map =>
          rw [ClState.derefMem, found, Reference.size, listed]
          exact congrArg some holds
      | _ => exact holds.elim
  | _ => cases kind

theorem derefProgram (live : ref.Live .program handle) :
    state.derefProgram handle = some ⟨ref.source handle⟩ := by
  obtain ⟨refs, data, object, listed, -, kind, found, holds⟩ := agrees.live live
  cases data with
  | program source =>
      cases object with
      | program program =>
          rw [ClState.derefProgram, found, Reference.source, listed]
          exact congrArg (fun source => some (ClProgram.mk source)) holds
      | _ => exact holds.elim
  | _ => cases kind

theorem derefKernel (live : ref.Live .kernel handle) :
    ∃ refs name program args kernel, ref.objects[handle]? = some ⟨refs, .kernel name program args⟩ ∧
      0 < refs ∧ state.derefKernel handle = some kernel ∧
      Holds ref.bytes handle (.kernel name program args) (.kernel kernel) := by
  obtain ⟨refs, data, object, listed, counted, kind, found, holds⟩ := agrees.live live
  cases data with
  | kernel name program args =>
      cases object with
      | kernel kernel =>
          exact ⟨refs, name, program, args, kernel, listed, counted, by rw [ClState.derefKernel, found], holds⟩
      | _ => exact holds.elim
  | _ => cases kind

theorem put {after : Reference} {object : ClObject} (length : after.objects.length = ref.objects.length)
    (others : ∀ other ≠ handle, after.objects[other]? = ref.objects[other]? ∧
      ∀ position, after.bytes other position = ref.bytes other position)
    (here : ∀ refObject, after.objects[handle]? = some refObject → 0 < refObject.refs →
      Holds after.bytes handle refObject.data object) :
    Agrees (state.put handle object) after where
  length := by rw [length, ← agrees.length]; exact List.length_set
  held := by
    intro other refObject listed counted
    have small : other < state.heap.length := by
      rw [agrees.length, ← length]
      exact (List.getElem?_eq_some_iff.mp listed).1
    by_cases same : other = handle
    · subst other
      exact ⟨object, by rw [deref_put small, if_pos rfl], here refObject listed counted⟩
    obtain ⟨listing, bytes⟩ := others other same
    obtain ⟨found, deref, holds⟩ := agrees.held other refObject (listing ▸ listed) counted
    refine ⟨found, ?_, holds.of_bytes bytes⟩
    rw [← deref, ClState.deref, ClState.put, List.getElem?_set_ne fun eq => same eq.symm]
    rfl

theorem write {offset cb : Nat} {value : Nat → UInt8} {map : List UInt8} (live : ref.Live .mem handle)
    (same : map = (ref.bytes.store ⟨handle, offset, cb⟩ value).load ⟨handle, 0, ref.size handle⟩) :
    Agrees (state.put handle (.mem map)) (ref.write ⟨handle, offset, cb⟩ value) := by
  refine agrees.put rfl ?_ ?_
  · intro other apart
    exact ⟨rfl, fun position => Memory.store_outside fun held => apart held.1⟩
  rintro ⟨refs, data⟩ listed counted
  obtain ⟨⟨refs', data'⟩, listed', -, kind⟩ := live
  obtain ⟨rfl, rfl⟩ : refs = refs' ∧ data = data' := by
    simpa using listed.symm.trans listed'
  cases data with
  | mem size => rwa [Reference.size, listed'] at same
  | _ => cases kind

theorem alloc {data : RefData} {object : ClObject} {bytes : Memory Nat UInt8}
    (others : ∀ other < ref.objects.length, ∀ position, bytes other position = ref.bytes other position)
    (here : Holds bytes ref.objects.length data object) :
    Agrees (state.alloc object).1 (Reference.push { ref with bytes } data).1 where
  length := by
    simp only [ClState.alloc, Reference.push, List.length_append, List.length_singleton, agrees.length]
  held := by
    intro other refObject listed counted
    rw [ClState.deref, ClState.alloc]
    simp only [Reference.push] at listed ⊢
    rcases Nat.lt_trichotomy other ref.objects.length with earlier | rfl | later
    · rw [List.getElem?_append_left earlier] at listed
      rw [List.getElem?_append_left (by rwa [agrees.length])]
      obtain ⟨found, deref, holds⟩ := agrees.held other refObject listed counted
      exact ⟨found, deref, holds.of_bytes (others other earlier)⟩
    · rw [List.getElem?_concat_length] at listed
      obtain rfl := Option.some.inj listed
      rw [← agrees.length, List.getElem?_concat_length]
      exact ⟨object, rfl, agrees.length ▸ here⟩
    · rw [List.getElem?_eq_none (by simp only [List.length_append, List.length_singleton]; omega)] at listed
      cases listed

omit agrees

end Agrees

def Follows (outcome : ClOutcome) (expected : Reference × ClOutput) : Prop :=
  ∃ after, outcome = some (after, expected.2) ∧ Agrees after expected.1

section Calls

variable {state : ClState} {ref : Reference} {handle : Nat}

theorem follows_alloc {data : RefData} {object : ClObject} (agrees : Agrees state ref)
    (here : Holds ref.bytes ref.objects.length data object) :
    Follows (some (state.alloc object)) (ref.push data) := by
  refine ⟨(state.alloc object).1, ?_, agrees.alloc (fun _ _ _ => rfl) here⟩
  rw [ClState.alloc, agrees.length]
  rfl

theorem createBuffer_follows (agrees : Agrees state ref) (device : Device) (size : Nat)
    (hostPtr : Option (Nat → UInt8)) :
    Follows (clCreateBuffer state size hostPtr) (ref.step device (.createBuffer size hostPtr)) := by
  rw [clCreateBuffer, Reference.step]
  by_cases empty : size = 0
  · rw [if_pos empty, if_pos empty]
    exact ⟨state, rfl, agrees⟩
  rw [if_neg empty, if_neg empty]
  refine ⟨_, congrArg some (Prod.ext rfl (congrArg ClOutput.handle agrees.length)), agrees.alloc ?_ ?_⟩
  · intro other earlier position
    exact Memory.store_outside fun held => Nat.ne_of_lt earlier held.1
  apply List.ext_getElem?
  intro index
  rw [load_store, getElem?_load, List.getElem?_map]
  dsimp only
  by_cases small : index < size
  · rw [List.getElem?_range small, if_pos (by omega)]
    rfl
  · rw [List.getElem?_eq_none (by rw [List.length_range]; omega), if_neg (by omega), if_neg small]
    rfl

theorem retain_follows {kind : ClKind} (agrees : Agrees state ref) (device : Device)
    (live : ref.Live kind handle) :
    Follows (clRetain state kind handle) (ref.step device (.retain kind handle)) := by
  refine ⟨state, rfl, ?_, ?_⟩
  · simp only [Reference.step, List.length_modify, agrees.length]
  intro other refObject listed counted
  simp only [Reference.step, getElem?_modify] at listed
  by_cases same : other = handle
  · subst other
    obtain ⟨refs, data, object, found, -, -, deref, holds⟩ := agrees.live live
    rw [found, if_pos rfl] at listed
    obtain rfl := Option.some.inj listed
    exact ⟨object, deref, holds⟩
  · rw [if_neg same] at listed
    exact agrees.held other refObject listed counted

theorem release_follows {kind : ClKind} (agrees : Agrees state ref) (device : Device)
    (live : ref.Live kind handle) (last : ref.Careful device (.release kind handle)) :
    Follows (clRelease kind state handle) (ref.step device (.release kind handle)) := by
  obtain ⟨refs, data, object, found, -, same, deref, holds⟩ := agrees.live live
  have frees : (state.deref handle).map ClObject.kind = some kind := by
    rw [deref, Option.map_some, holds.kind, same]
  rw [clRelease, if_pos frees]
  refine ⟨_, rfl, ?_, ?_⟩
  · simp only [Reference.step, ClState.free, List.length_modify, List.length_set, agrees.length]
  intro other refObject listed counted
  simp only [Reference.step, getElem?_modify] at listed
  by_cases here : other = handle
  · subst other
    rw [found, if_pos rfl] at listed
    obtain rfl := Option.some.inj listed
    -- the one reference that was left is given up
    have one : refs = 1 := last ⟨refs, data⟩ found
    subst refs
    cases counted
  · rw [if_neg here] at listed
    obtain ⟨held, there, holds⟩ := agrees.held other refObject listed counted
    refine ⟨held, ?_, holds⟩
    rw [← there, ClState.deref, ClState.free, List.getElem?_set_ne fun eq => here eq.symm]
    rfl

theorem within_follows {offset cb : Nat} {act : List UInt8 → ClState × ClOutput} {expected : Reference × ClOutput}
    (agrees : Agrees state ref) (live : ref.Live .mem handle)
    (inside : offset + cb ≤ ref.size handle →
      Follows (some (act (ref.bytes.load ⟨handle, 0, ref.size handle⟩))) expected) :
    Follows
      ((state.derefMem handle).map fun map =>
        if bufferRangeValid map offset cb then act map else (state, .code CL_INVALID_VALUE))
      (ref.within ⟨handle, offset, cb⟩ expected) := by
  have length : (ref.bytes.load ⟨handle, 0, ref.size handle⟩).length = ref.size handle := List.length_ofFn
  rw [agrees.derefMem live, Option.map_some, Reference.within]
  by_cases small : offset + cb ≤ ref.size handle
  · rw [if_pos (bufferRangeValid_iff.mpr (by rwa [length])), if_pos small]
    exact inside small
  · rw [if_neg fun valid => small (by simpa only [length] using bufferRangeValid_iff.mp valid), if_neg small]
    exact ⟨state, rfl, agrees⟩

theorem getElem?_getD {bytes : List UInt8} {index : Nat} (small : index < bytes.length) :
    bytes[index]? = some (bytes.getD index 0) := by
  rw [List.getD_eq_getElem?_getD, List.getElem?_eq_getElem small]
  rfl

theorem writeBuffer_follows {offset : Nat} {bytes : List UInt8} (agrees : Agrees state ref) (device : Device)
    (live : ref.Live .mem handle) :
    Follows (clEnqueueWriteBuffer state handle offset bytes) (ref.step device (.write handle offset bytes)) :=
  within_follows agrees live fun small =>
    ⟨_, rfl, agrees.write live (memcpy_load small fun _ => getElem?_getD)⟩

theorem readBuffer_follows {offset cb : Nat} (agrees : Agrees state ref) (device : Device)
    (live : ref.Live .mem handle) :
    Follows (clEnqueueReadBuffer state handle offset cb) (ref.step device (.read handle offset cb)) :=
  within_follows agrees live fun small => ⟨_, by rw [drop_take_load small], agrees⟩

theorem fillBuffer_follows {pattern : List UInt8} {offset cb : Nat} (agrees : Agrees state ref) (device : Device)
    (live : ref.Live .mem handle) :
    Follows (clEnqueueFillBuffer state handle pattern offset cb)
      (ref.step device (.fill handle pattern offset cb)) := by
  rw [Reference.step, clEnqueueFillBuffer]
  cases pattern with
  | nil =>
      rw [if_pos rfl, agrees.derefMem live]
      exact ⟨state, by simp, agrees⟩
  | cons first rest =>
      simp only [List.isEmpty_cons, Bool.not_false, Bool.and_true]
      rw [if_neg (List.cons_ne_nil first rest)]
      exact within_follows agrees live fun small =>
        ⟨_, rfl, agrees.write live (fillLoop_load small)⟩

theorem mapBuffer_follows {offset cb : Nat} (agrees : Agrees state ref) (device : Device)
    (live : ref.Live .mem handle) :
    Follows (clEnqueueMapBuffer state handle offset cb) (ref.step device (.map handle offset cb)) :=
  within_follows agrees live fun _ => ⟨state, rfl, agrees⟩

theorem storeMapped_follows {offset : Nat} {bytes : List UInt8} (agrees : Agrees state ref) (device : Device)
    (live : ref.Live .mem handle) (small : offset + bytes.length ≤ ref.size handle) :
    Follows (storeMapped state handle offset bytes) (ref.step device (.store handle offset bytes)) := by
  rw [storeMapped, agrees.derefMem live]
  exact ⟨_, rfl, agrees.write live (memcpy_load small fun _ => getElem?_getD)⟩

theorem copyBuffer_follows {src dst srcOffset dstOffset cb : Nat} (agrees : Agrees state ref) (device : Device)
    (srcLive : ref.Live .mem src) (dstLive : ref.Live .mem dst) :
    Follows (clEnqueueCopyBuffer state src dst srcOffset dstOffset cb)
      (ref.step device (.copy src dst srcOffset dstOffset cb)) := by
  have lengths (buffer : Nat) : (ref.bytes.load ⟨buffer, 0, ref.size buffer⟩).length = ref.size buffer :=
    List.length_ofFn
  rw [clEnqueueCopyBuffer, agrees.derefMem srcLive, agrees.derefMem dstLive, Reference.step]
  simp only [Option.bind_some, Option.map_some, Reference.within, Bool.and_eq_true, bufferRangeValid_iff, lengths]
  by_cases srcSmall : srcOffset + cb ≤ ref.size src
  · by_cases dstSmall : dstOffset + cb ≤ ref.size dst
    · rw [if_pos ⟨srcSmall, dstSmall⟩, if_pos srcSmall, if_pos dstSmall, drop_take_load srcSmall]
      refine ⟨_, rfl, agrees.write dstLive ?_⟩
      have moved : (ref.bytes.load ⟨src, srcOffset, cb⟩).length = cb := List.length_ofFn
      have copied := @memcpy_load ref.bytes dst (ref.size dst) dstOffset (ref.bytes.load ⟨src, srcOffset, cb⟩)
        (fun index => ref.bytes src (srcOffset + index)) (by omega)
        (by intro index small; rw [getElem?_load, if_pos (moved ▸ small)])
      rwa [moved] at copied
    · rw [if_neg fun both => dstSmall both.2, if_pos srcSmall, if_neg dstSmall]
      exact ⟨state, rfl, agrees⟩
  · rw [if_neg fun both => srcSmall both.1, if_neg srcSmall]
    exact ⟨state, rfl, agrees⟩

end Calls

section Kernels

variable {kernel : ClKernel} {index : Nat} {arg : Option ClArg}

variable (kept : ArgKept kernel index arg)

include kept

theorem ArgKept.of_slots {after : ClKernel} (mem : after.memArgs index = kernel.memArgs index)
    (scalar : after.scalarArgs index = kernel.scalarArgs index)
    (size : after.argSizes index = kernel.argSizes index) : ArgKept after index arg := by
  rcases arg with _ | ⟨_ | _ | _⟩
  · exact mem.trans kept
  · exact mem.trans kept
  · exact ⟨mem.trans kept.1, size.trans kept.2.1, by rw [scalar]; exact kept.2.2⟩
  · exact mem.trans kept

theorem ArgKept.no_object (no : ∀ buffer, arg ≠ some (.object buffer)) :
    kernel.memArgs index = none := by
  rcases arg with _ | ⟨buffer | _ | _⟩
  · exact kept
  · exact absurd rfl (no buffer)
  · exact kept.1
  · exact kept

theorem ArgKept.object {pointer : Pointer} (set : kernel.memArgs index = some pointer) :
    ∃ buffer, arg = some (.object buffer) ∧ pointer = .object buffer := by
  rcases arg with _ | ⟨buffer | _ | _⟩
  · cases set.symm.trans kept
  · exact ⟨buffer, rfl, Option.some.inj (set.symm.trans kept)⟩
  · cases set.symm.trans kept.1
  · cases set.symm.trans kept

omit kept

theorem setArg_name (kernel : ClKernel) (index : Nat) (arg : ClArg) :
    (kernel.setArg index arg).name = kernel.name ∧ (kernel.setArg index arg).program = kernel.program := by
  cases arg with
  | object buffer => exact ⟨rfl, rfl⟩
  | scalar bytes =>
      simp only [ClKernel.setArg]
      split
      · exact ⟨rfl, rfl⟩
      · split <;> exact ⟨rfl, rfl⟩
  | localMemory size =>
      simp only [ClKernel.setArg]
      split <;> exact ⟨rfl, rfl⟩

theorem setArg_object (kernel : ClKernel) (index buffer : Nat) : kernel.setArg index (.object buffer) =
      { kernel with memArgs := Function.update kernel.memArgs index (some (.object buffer)) } := rfl

theorem setArg_scalar (kernel : ClKernel) (index : Nat) {bytes : List UInt8}
    (apart : bytes.length ≠ handleSize) (small : bytes.length ≤ scalarSize) :
    kernel.setArg index (.scalar bytes) =
      { kernel with
        scalarArgs := Function.update kernel.scalarArgs index (memcpy (kernel.scalarArgs index) 0 bytes)
        argSizes := Function.update kernel.argSizes index bytes.length } := by
  rw [ClKernel.setArg, if_neg fun same => apart same.1]
  exact if_pos small

theorem setArg_local (kernel : ClKernel) (index size : Nat) :
    kernel.setArg index (.localMemory size) = kernel := by
  simp only [ClKernel.setArg]
  exact if_neg fun same => Bool.false_ne_true same.2

theorem setArg_kept {args : Nat → Option ClArg} {arg : ClArg} (small : index < argCount)
    (lengths : ∀ index, (kernel.scalarArgs index).length = scalarSize)
    (kept : ∀ index < argCount, ArgKept kernel index (args index)) (apart : Reference.ToldApart args index arg) :
    (∀ other, ((kernel.setArg index arg).scalarArgs other).length = scalarSize) ∧ ∀ other < argCount,
        ArgKept (kernel.setArg index arg) other (Function.update args index (some arg) other) := by
  cases arg with
  | object buffer =>
      rw [setArg_object]
      refine ⟨lengths, fun other below => ?_⟩
      by_cases same : other = index
      · subst other
        rw [Function.update_self]
        exact Function.update_self ..
      · rw [Function.update_of_ne same]
        exact (kept other below).of_slots (Function.update_of_ne same ..) rfl rfl
  | scalar bytes =>
      obtain ⟨differs, fits, no⟩ := apart
      have room : 0 + bytes.length ≤ (kernel.scalarArgs index).length := by rw [lengths]; omega
      rw [setArg_scalar kernel index differs fits]
      refine ⟨fun other => ?_, fun other below => ?_⟩
      · dsimp only
        by_cases same : other = index
        · subst other
          rw [Function.update_self, length_memcpy room, lengths]
        · rw [Function.update_of_ne same, lengths]
      by_cases same : other = index
      · subst other
        rw [Function.update_self]
        refine ⟨(kept index small).no_object no, Function.update_self .., ?_⟩
        dsimp only
        rw [Function.update_self, memcpy, List.take_zero, List.nil_append, List.take_left]
      · rw [Function.update_of_ne same]
        exact (kept other below).of_slots rfl (Function.update_of_ne same ..) (Function.update_of_ne same ..)
  | localMemory size =>
      rw [setArg_local]
      refine ⟨lengths, fun other below => ?_⟩
      by_cases same : other = index
      · subst other
        rw [Function.update_self]
        exact (kept index small).no_object apart
      · rw [Function.update_of_ne same]
        exact kept other below

variable {state : ClState} {ref : Reference} {handle : Nat}

theorem setArg_follows {arg : ClArg} (agrees : Agrees state ref) (device : Device)
    (live : ref.Live .kernel handle) (careful : ref.Careful device (.setArg handle index arg)) :
    Follows (clSetKernelArg state handle index arg) (ref.step device (.setArg handle index arg)) := by
  obtain ⟨refs, name, program, args, kernel, listed, -, found, rfl, rfl, lengths, kept⟩ := agrees.derefKernel live
  rw [clSetKernelArg, found, Reference.step, Option.map_some]
  by_cases small : index ≥ argCount
  · rw [if_pos small, if_pos small]
    exact ⟨state, rfl, agrees⟩
  rw [if_neg small, if_neg small]
  have apart := careful refs _ _ args listed (Nat.lt_of_not_le small)
  refine ⟨_, rfl, agrees.put (List.length_modify ..) ?_ ?_⟩
  · intro other differs
    exact ⟨by rw [getElem?_modify, if_neg differs], fun _ => rfl⟩
  intro refObject changed _
  rw [getElem?_modify, if_pos rfl, listed] at changed
  obtain rfl := Option.some.inj changed
  obtain ⟨named, programmed⟩ := setArg_name kernel index arg
  exact ⟨named, programmed, setArg_kept (Nat.lt_of_not_le small) lengths kept apart⟩

theorem refused_follows {device : Device} {program : Nat} (agrees : Agrees state ref)
    (live : device.traces = true → ref.Live .program program) :
    Follows (if device.traces then
        (state.derefProgram program).map fun _ => (state, .code CL_INVALID_OPERATION)
      else some (state, .code CL_INVALID_OPERATION))
      (ref, .code CL_INVALID_OPERATION) := by
  by_cases traces : device.traces = true
  · rw [if_pos traces, agrees.derefProgram (live traces)]
    exact ⟨state, rfl, agrees⟩
  · rw [if_neg traces]
    exact ⟨state, rfl, agrees⟩

theorem vectorAdd_follows {a b out : Nat} (agrees : Agrees state ref) (device : Device)
    (globalWorkSize : Option Nat) (aLive : ref.Live .mem a) (bLive : ref.Live .mem b)
    (outLive : ref.Live .mem out) :
    Follows (runVectorAdd device state globalWorkSize (.object a) (.object b) (.object out))
      (ref.vectorAdd device globalWorkSize a b out) := by
  have lengths (buffer : Nat) : (ref.bytes.load ⟨buffer, 0, ref.size buffer⟩).length = ref.size buffer :=
    List.length_ofFn
  simp only [runVectorAdd, ClState.derefArg, agrees.derefMem aLive, agrees.derefMem bLive,
    agrees.derefMem outLive, Option.map_some, lengths, Reference.vectorAdd]
  cases device.vectorAdd _ _ _ with
  | none => exact ⟨state, rfl, agrees⟩
  | some sum =>
      refine ⟨_, rfl, agrees.write outLive ?_⟩
      have counted : ((List.range (4 * elementCount (ref.size a) (ref.size b) (ref.size out)
          globalWorkSize)).map sum).length =
            4 * elementCount (ref.size a) (ref.size b) (ref.size out) globalWorkSize := by
        rw [List.length_map, List.length_range]
      have fits : 4 * elementCount (ref.size a) (ref.size b) (ref.size out) globalWorkSize ≤ ref.size out := by
        cases globalWorkSize <;> simp only [elementCount, Option.elim] <;> omega
      have summed := @memcpy_load ref.bytes out (ref.size out) 0
        ((List.range (4 * elementCount (ref.size a) (ref.size b) (ref.size out) globalWorkSize)).map sum)
        sum (by omega)
        (by
          intro index small
          rw [counted] at small
          rw [List.getElem?_map, List.getElem?_range small]
          rfl)
      rwa [counted] at summed

theorem ndRange_follows {globalWorkSize : Option Nat} (agrees : Agrees state ref) (device : Device)
    (valid : ref.Valid (.ndRange handle globalWorkSize))
    (careful : ref.Careful device (.ndRange handle globalWorkSize)) :
    Follows (clEnqueueNDRangeKernel device state handle globalWorkSize)
      (ref.step device (.ndRange handle globalWorkSize)) := by
  obtain ⟨live, objects⟩ := valid
  obtain ⟨refs, name, program, args, kernel, listed, -, found, rfl, rfl, -, kept⟩ := agrees.derefKernel live
  have programLive := careful refs _ _ args listed
  have refused := refused_follows agrees fun traces => programLive (.inl traces)
  have kept0 := kept 0 (by decide)
  have kept1 := kept 1 (by decide)
  have kept2 := kept 2 (by decide)
  simp only [clEnqueueNDRangeKernel, found, Option.bind_some, Reference.step, listed]
  by_cases three : Reference.ThreeObjects args
  · obtain ⟨a, b, out, first, second, third⟩ := three
    have buffers := objects refs _ _ args listed
    have source := agrees.derefProgram (programLive (.inr ⟨a, b, out, first, second, third⟩))
    rw [first] at kept0
    rw [second] at kept1
    rw [third] at kept2
    simp only [ArgKept] at kept0 kept1 kept2
    simp only [kept0, kept1, kept2, first, second, third, source, Option.bind_some]
    by_cases looks : sourceLooksLikeVectorAdd (ref.source kernel.program) = true
    · rw [if_pos looks, if_pos looks]
      exact vectorAdd_follows agrees device globalWorkSize (buffers 0 a first) (buffers 1 b second)
        (buffers 2 out third)
    · rw [if_neg looks, if_neg looks]
      rwa [source] at refused
  · -- one of the three is no memory object, for the shim as well
    have expected : (match args 0, args 1, args 2 with
        | some (.object a), some (.object b), some (.object out) =>
            if sourceLooksLikeVectorAdd (ref.source kernel.program) then
              ref.vectorAdd device globalWorkSize a b out
            else (ref, .code CL_INVALID_OPERATION)
        | _, _, _ => (ref, .code CL_INVALID_OPERATION)) = (ref, .code CL_INVALID_OPERATION) := by
      split
      · rename_i a b out first second third
        exact absurd ⟨a, b, out, first, second, third⟩ three
      · rfl
    rw [expected]
    split
    · rename_i a b out first second third
      obtain ⟨a, isFirst, -⟩ := kept0.object first
      obtain ⟨b, isSecond, -⟩ := kept1.object second
      obtain ⟨out, isThird, -⟩ := kept2.object third
      exact absurd ⟨a, b, out, isFirst, isSecond, isThird⟩ three
    · exact refused

end Kernels

theorem step_follows {state : ClState} {ref : Reference} (agrees : Agrees state ref) (device : Device)
    (call : ClCall) (valid : ref.Valid call) (careful : ref.Careful device call) :
    Follows (state.step device call) (ref.step device call) := by
  cases call with
  | createContext | createCommandQueue context => exact follows_alloc agrees trivial
  | createBuffer size hostPtr => exact createBuffer_follows agrees device size hostPtr
  | createProgram strings =>
      simp only [ClState.step, clCreateProgramWithSource, Reference.step]
      split
      · exact ⟨state, rfl, agrees⟩
      · exact follows_alloc agrees rfl
  | createKernel program name =>
      exact follows_alloc agrees ⟨rfl, rfl, fun _ => List.length_replicate, fun _ _ => rfl⟩
  | retain kind handle => exact retain_follows agrees device valid
  | release kind handle => cases kind <;> exact release_follows agrees device valid careful
  | write buffer offset bytes => exact writeBuffer_follows agrees device valid
  | read buffer offset cb => exact readBuffer_follows agrees device valid
  | copy src dst srcOffset dstOffset cb => exact copyBuffer_follows agrees device valid.1 valid.2
  | fill buffer pattern offset cb => exact fillBuffer_follows agrees device valid
  | map buffer offset cb => exact mapBuffer_follows agrees device valid
  | store buffer offset bytes => exact storeMapped_follows agrees device valid.1 valid.2
  | unmap buffer => exact ⟨state, rfl, agrees⟩
  | setArg kernel index arg => exact setArg_follows agrees device valid.1 careful
  | ndRange kernel globalWorkSize => exact ndRange_follows agrees device valid careful

theorem run_follows {state : ClState} {ref : Reference} (agrees : Agrees state ref) (device : Device)
    (calls : List ClCall) (valid : Reference.AllCalls device Reference.Valid ref calls)
    (careful : Reference.AllCalls device (Reference.Careful device) ref calls) :
    ∃ last, state.run device calls = some (last, (ref.run device calls).2) ∧
      Agrees last (ref.run device calls).1 := by
  induction calls generalizing state ref with
  | nil => exact ⟨state, rfl, agrees⟩
  | cons call calls ih =>
      obtain ⟨after, stepped, agree⟩ := step_follows agrees device call valid.1 careful.1
      obtain ⟨last, ran, agreed⟩ := ih agree valid.2 careful.2
      refine ⟨last, ?_, agreed⟩
      rw [ClState.run, stepped, Option.bind_some]
      dsimp only
      rw [ran]
      rfl

/-- A careful application never touches an object that is gone, reads what the
rules say, and its kernels keep the arguments as they were set. -/
theorem run_lives (device : Device) (calls : List ClCall)
    (valid : Reference.AllCalls device Reference.Valid .initial calls)
    (careful : Reference.AllCalls device (Reference.Careful device) .initial calls) :
    ∃ last, ClState.run device ⟨[]⟩ calls = some (last, (Reference.initial.run device calls).2) ∧
      Agrees last (Reference.initial.run device calls).1 :=
  run_follows .initial device calls valid careful

def idleDevice : Device := ⟨true, fun _ _ _ => none⟩

def tidyCalls : List ClCall :=
  [.createProgram ["__kernel void f()".toList], .createKernel 0 "f".toList, .createBuffer 4 none,
    .createBuffer 4 none, .setArg 1 0 (.object 2), .setArg 1 1 (.scalar [7, 0, 0, 0]), .write 2 0 [1, 2, 3, 4],
    .fill 3 [5, 6] 0 4, .copy 2 3 1 0 2, .read 3 0 4, .ndRange 1 none, .release .kernel 1, .release .program 0]

theorem run_lives_tidyCalls : ∃ last, ClState.run idleDevice ⟨[]⟩ tidyCalls = some (last,
      [.handle 0, .handle 1, .handle 2, .handle 3, .code 0, .code 0, .code 0, .code 0, .code 0,
        .bytes [2, 3, 5, 6], .code CL_INVALID_OPERATION, .code 0, .code 0]) ∧
      Agrees last (Reference.initial.run idleDevice tidyCalls).1 := by
  have argument (index buffer : Nat) (args : Nat → Option ClArg) (set : args index = some (.object buffer))
      (two : args = Function.update (Function.update (fun _ => none) 0 (some (.object 2))) 1
        (some (.scalar [7, 0, 0, 0]))) : buffer = 2 := by
    subst two
    match index with
    | 0 => cases set; rfl
    | 1 => cases set
    | index + 2 => cases set
  have valid : Reference.AllCalls idleDevice Reference.Valid .initial tidyCalls := by
    refine ⟨trivial, ⟨_, rfl, by decide, rfl⟩, trivial, trivial, ⟨⟨_, rfl, by decide, rfl⟩, ?_⟩,
      ⟨⟨_, rfl, by decide, rfl⟩, nofun⟩, ⟨_, rfl, by decide, rfl⟩, ⟨_, rfl, by decide, rfl⟩,
      ⟨⟨_, rfl, by decide, rfl⟩, ⟨_, rfl, by decide, rfl⟩⟩, ⟨_, rfl, by decide, rfl⟩,
      ⟨⟨_, rfl, by decide, rfl⟩, ?_⟩, ⟨_, rfl, by decide, rfl⟩, ⟨_, rfl, by decide, rfl⟩, trivial⟩
    · rintro _ ⟨⟩
      exact ⟨_, rfl, by decide, rfl⟩
    · rintro refs name program args listed index buffer set
      obtain rfl := argument index buffer args set (by cases listed; rfl)
      exact ⟨_, rfl, by decide, rfl⟩
  have careful : Reference.AllCalls idleDevice (Reference.Careful idleDevice) .initial tidyCalls := by
    refine ⟨trivial, trivial, trivial, trivial, fun _ _ _ _ _ _ => trivial, ?_, trivial, trivial, trivial,
      trivial, ?_, ?_, ?_, trivial⟩
    · rintro _ _ _ _ ⟨⟩ -
      exact ⟨by decide, by decide, nofun⟩
    · rintro _ _ _ _ ⟨⟩ -
      exact ⟨_, rfl, by decide, rfl⟩
    · rintro _ ⟨⟩
      rfl
    · rintro _ ⟨⟩
      rfl
  exact run_lives idleDevice tidyCalls valid careful

/-- A buffer is retained, released once, and written to. -/
theorem retained_buffer_freed : ¬ ∀ (device : Device) (calls : List ClCall),
      Reference.AllCalls device Reference.Valid .initial calls →
        ∃ last, ClState.run device ⟨[]⟩ calls = some (last, (Reference.initial.run device calls).2) ∧
          Agrees last (Reference.initial.run device calls).1 := by
  intro lives
  obtain ⟨last, ran, -⟩ := lives idleDevice
    [.createBuffer 4 none, .retain .mem 0, .release .mem 0, .write 0 0 [1]]
    ⟨trivial, ⟨_, rfl, by decide, rfl⟩, ⟨_, rfl, by decide, rfl⟩, ⟨_, rfl, by decide, rfl⟩, trivial⟩
  cases ran

end PDocker.Opencl
