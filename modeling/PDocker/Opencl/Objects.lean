import PDocker.Data.Text

/-!
# Objects of the OpenCL shim

The objects are plain allocations and their handles pointers. Retaining does
nothing and releasing frees, so a handle may point to memory that is freed; a
call that reads or writes there has no outcome in the model. Events are always
null. Handles that are null are left out.
-/

set_option autoImplicit false

namespace PDocker.Opencl

open Data (Text contains)

def CL_SUCCESS : Int := 0
def CL_INVALID_VALUE : Int := -30
def CL_INVALID_ARG_INDEX : Int := -49
def CL_INVALID_OPERATION : Int := -59

/-! ## Objects -/

inductive ClKind where
  | context | queue | mem | program | kernel
  deriving DecidableEq

def handleSize : Nat := 8

def scalarSize : Nat := 32

def argCount : Nat := 16

/-- What is read as a `cl_mem`: a handle, or the bytes of something else. -/
inductive Pointer where
  | object (handle : Nat)
  | wild (bytes : List UInt8)
  deriving DecidableEq

structure ClProgram where
  source : Text

structure ClKernel where
  name : Text
  program : Nat
  memArgs : Nat → Option Pointer
  scalarArgs : Nat → List UInt8
  argSizes : Nat → Nat

inductive ClObject where
  | context
  | queue
  | mem (map : List UInt8)
  | program (program : ClProgram)
  | kernel (kernel : ClKernel)

def ClObject.kind : ClObject → ClKind
  | .context => .context
  | .queue => .queue
  | .mem _ => .mem
  | .program _ => .program
  | .kernel _ => .kernel

structure ClState where
  heap : List (Option ClObject)

def ClState.deref (state : ClState) (handle : Nat) : Option ClObject := state.heap[handle]?.join

def ClState.derefMem (state : ClState) (handle : Nat) : Option (List UInt8) :=
  match state.deref handle with
  | some (.mem map) => some map
  | _ => none

def ClState.derefProgram (state : ClState) (handle : Nat) : Option ClProgram :=
  match state.deref handle with
  | some (.program program) => some program
  | _ => none

def ClState.derefKernel (state : ClState) (handle : Nat) : Option ClKernel :=
  match state.deref handle with
  | some (.kernel kernel) => some kernel
  | _ => none

def ClState.put (state : ClState) (handle : Nat) (object : ClObject) : ClState :=
  ⟨state.heap.set handle (some object)⟩

def ClState.free (state : ClState) (handle : Nat) : ClState := ⟨state.heap.set handle none⟩

inductive ClOutput where
  | code (code : Int)
  | handle (handle : Nat)
  | bytes (bytes : List UInt8)
  | place (handle offset : Nat)
  deriving DecidableEq

abbrev ClOutcome := Option (ClState × ClOutput)

def ClState.alloc (state : ClState) (object : ClObject) : ClState × ClOutput :=
  (⟨state.heap ++ [some object]⟩, .handle state.heap.length)

def clCreateContext (state : ClState) : ClOutcome := some (state.alloc .context)

def clCreateCommandQueue (state : ClState) (_context : Nat) : ClOutcome := some (state.alloc .queue)

/-- `hostPtr` is what `CL_MEM_COPY_HOST_PTR` copies, if it is given. -/
def clCreateBuffer (state : ClState) (size : Nat) (hostPtr : Option (Nat → UInt8)) : ClOutcome :=
  if size = 0 then some (state, .code CL_INVALID_VALUE)
  else some (state.alloc (.mem ((List.range size).map (hostPtr.getD fun _ => 0))))

def clCreateProgramWithSource (state : ClState) (strings : List Text) : ClOutcome :=
  if strings = [] then some (state, .code CL_INVALID_VALUE)
  else some (state.alloc (.program ⟨strings.flatten⟩))

def clCreateKernel (state : ClState) (program : Nat) (name : Text) : ClOutcome :=
  some (state.alloc (.kernel ⟨name, program, fun _ => none, fun _ => List.replicate scalarSize 0, fun _ => 0⟩))

/-- `clRetainContext`, `clRetainCommandQueue`, `clRetainMemObject`,
`clRetainProgram` and `clRetainKernel`, which look at the pointer only. -/
def clRetain (state : ClState) (_kind : ClKind) (_handle : Nat) : ClOutcome :=
  some (state, .code CL_SUCCESS)

def clRelease (kind : ClKind) (state : ClState) (handle : Nat) : ClOutcome :=
  if (state.deref handle).map ClObject.kind = some kind then some (state.free handle, .code CL_SUCCESS)
  else none

def clReleaseContext : ClState → Nat → ClOutcome := clRelease .context
def clReleaseCommandQueue : ClState → Nat → ClOutcome := clRelease .queue
def clReleaseMemObject : ClState → Nat → ClOutcome := clRelease .mem
def clReleaseProgram : ClState → Nat → ClOutcome := clRelease .program
def clReleaseKernel : ClState → Nat → ClOutcome := clRelease .kernel

def bufferRangeValid (map : List UInt8) (offset cb : Nat) : Bool :=
  offset ≤ map.length && cb ≤ map.length - offset

def memcpy (map : List UInt8) (offset : Nat) (bytes : List UInt8) : List UInt8 :=
  map.take offset ++ bytes ++ map.drop (offset + bytes.length)

def clEnqueueWriteBuffer (state : ClState) (buffer offset : Nat) (bytes : List UInt8) : ClOutcome :=
  (state.derefMem buffer).map fun map =>
    if bufferRangeValid map offset bytes.length then
      (state.put buffer (.mem (memcpy map offset bytes)), .code CL_SUCCESS)
    else (state, .code CL_INVALID_VALUE)

def clEnqueueReadBuffer (state : ClState) (buffer offset cb : Nat) : ClOutcome :=
  (state.derefMem buffer).map fun map =>
    if bufferRangeValid map offset cb then (state, .bytes ((map.drop offset).take cb))
    else (state, .code CL_INVALID_VALUE)

/-- `memmove` reads everything before it writes. -/
def clEnqueueCopyBuffer (state : ClState) (src dst srcOffset dstOffset cb : Nat) : ClOutcome :=
  (state.derefMem src).bind fun srcMap =>
    (state.derefMem dst).map fun dstMap =>
      if bufferRangeValid srcMap srcOffset cb && bufferRangeValid dstMap dstOffset cb then
        (state.put dst (.mem (memcpy dstMap dstOffset ((srcMap.drop srcOffset).take cb))), .code CL_SUCCESS)
      else (state, .code CL_INVALID_VALUE)

def fillLoop (map : List UInt8) (pattern : List UInt8) (offset cb : Nat) : List UInt8 :=
  (List.range cb).foldl (fun map i => map.set (offset + i) (pattern.getD (i % pattern.length) 0)) map

def clEnqueueFillBuffer (state : ClState) (buffer : Nat) (pattern : List UInt8) (offset cb : Nat) :
    ClOutcome :=
  (state.derefMem buffer).map fun map =>
    if bufferRangeValid map offset cb && !pattern.isEmpty then
      (state.put buffer (.mem (fillLoop map pattern offset cb)), .code CL_SUCCESS)
    else (state, .code CL_INVALID_VALUE)

def clEnqueueMapBuffer (state : ClState) (buffer offset cb : Nat) : ClOutcome :=
  (state.derefMem buffer).map fun map =>
    if bufferRangeValid map offset cb then (state, .place buffer offset)
    else (state, .code CL_INVALID_VALUE)

def clEnqueueUnmapMemObject (state : ClState) (_memobj : Nat) : ClOutcome :=
  some (state, .code CL_SUCCESS)

def storeMapped (state : ClState) (buffer offset : Nat) (bytes : List UInt8) : ClOutcome :=
  (state.derefMem buffer).map fun map =>
    (state.put buffer (.mem (memcpy map offset bytes)), .code CL_SUCCESS)

/-- What the application passes as an argument: a memory object, a value, or
the size of local memory, for which the value is null. -/
inductive ClArg where
  | object (handle : Nat)
  | scalar (bytes : List UInt8)
  | localMemory (size : Nat)
  deriving DecidableEq

def ClArg.size : ClArg → Nat
  | .object _ => handleSize
  | .scalar bytes => bytes.length
  | .localMemory size => size

def ClArg.given : ClArg → Bool
  | .localMemory _ => false
  | _ => true

/-- The bytes at `arg_value`, read as a pointer, which may be null. -/
def ClArg.pointer : ClArg → Option Pointer
  | .object handle => some (.object handle)
  | .scalar bytes => if bytes.all (· = 0) then none else some (.wild bytes)
  | .localMemory _ => none

/-- `clSetKernelArg` on the kernel -/
def ClKernel.setArg (kernel : ClKernel) (index : Nat) (arg : ClArg) : ClKernel :=
  if arg.size = handleSize ∧ arg.given = true then
    { kernel with memArgs := Function.update kernel.memArgs index arg.pointer }
  else
    match arg with
    | .scalar bytes =>
        if bytes.length ≤ scalarSize then
          { kernel with
            scalarArgs := Function.update kernel.scalarArgs index
              (memcpy (kernel.scalarArgs index) 0 bytes)
            argSizes := Function.update kernel.argSizes index bytes.length }
        else kernel
    | _ => kernel

def clSetKernelArg (state : ClState) (handle index : Nat) (arg : ClArg) : ClOutcome :=
  (state.derefKernel handle).map fun kernel =>
    if index ≥ argCount then (state, .code CL_INVALID_ARG_INDEX)
    else (state.put handle (.kernel (kernel.setArg index arg)), .code CL_SUCCESS)

def sourceLooksLikeVectorAdd (source : Text) : Bool :=
  contains "+ b[".toList source || contains "+b[".toList source ||
    contains "a[i] + b[i]".toList source || contains "a[i]+b[i]".toList source

/-- What lies outside: whether unsupported kernels are traced, and the sums,
from the CPU or from the bridge, which may fail. -/
structure Device where
  traces : Bool
  vectorAdd : List UInt8 → List UInt8 → Nat → Option (Nat → UInt8)

def elementCount (a b out : Nat) (globalWorkSize : Option Nat) : Nat :=
  let n := min (min (a / 4) (b / 4)) (out / 4)
  globalWorkSize.elim n (min n)

def ClState.derefArg (state : ClState) : Pointer → Option (Nat × List UInt8)
  | .object handle => (state.derefMem handle).map fun map => (handle, map)
  | .wild _ => none

/-- `clEnqueueNDRangeKernel` on three memory arguments and a source that looks like a sum -/
def runVectorAdd (device : Device) (state : ClState) (globalWorkSize : Option Nat) (a b out : Pointer) :
    ClOutcome :=
  match state.derefArg a, state.derefArg b, state.derefArg out with
  | some (_, aMap), some (_, bMap), some (handle, outMap) =>
      let n := elementCount aMap.length bMap.length outMap.length globalWorkSize
      match device.vectorAdd aMap bMap n with
      | none => some (state, .code CL_INVALID_OPERATION)
      | some sum =>
          some (state.put handle (.mem (memcpy outMap 0 ((List.range (4 * n)).map sum))), .code CL_SUCCESS)
  | _, _, _ => none

/-- `clEnqueueNDRangeKernel`. The program is looked at when there are three
memory arguments, and in the trace. -/
def clEnqueueNDRangeKernel (device : Device) (state : ClState) (handle : Nat)
    (globalWorkSize : Option Nat) : ClOutcome :=
  (state.derefKernel handle).bind fun kernel =>
    let refused : ClOutcome :=
      if device.traces then
        (state.derefProgram kernel.program).map fun _ => (state, .code CL_INVALID_OPERATION)
      else some (state, .code CL_INVALID_OPERATION)
    match kernel.memArgs 0, kernel.memArgs 1, kernel.memArgs 2 with
    | some a, some b, some out =>
        (state.derefProgram kernel.program).bind fun program =>
          if sourceLooksLikeVectorAdd program.source then runVectorAdd device state globalWorkSize a b out
          else refused
    | _, _, _ => refused

inductive ClCall where
  | createContext
  | createCommandQueue (context : Nat)
  | createBuffer (size : Nat) (hostPtr : Option (Nat → UInt8))
  | createProgram (strings : List Text)
  | createKernel (program : Nat) (name : Text)
  | retain (kind : ClKind) (handle : Nat)
  | release (kind : ClKind) (handle : Nat)
  | write (buffer offset : Nat) (bytes : List UInt8)
  | read (buffer offset cb : Nat)
  | copy (src dst srcOffset dstOffset cb : Nat)
  | fill (buffer : Nat) (pattern : List UInt8) (offset cb : Nat)
  | map (buffer offset cb : Nat)
  | store (buffer offset : Nat) (bytes : List UInt8)
  | unmap (buffer : Nat)
  | setArg (kernel index : Nat) (arg : ClArg)
  | ndRange (kernel : Nat) (globalWorkSize : Option Nat)

def ClState.step (device : Device) (state : ClState) : ClCall → ClOutcome
  | .createContext => clCreateContext state
  | .createCommandQueue context => clCreateCommandQueue state context
  | .createBuffer size hostPtr => clCreateBuffer state size hostPtr
  | .createProgram strings => clCreateProgramWithSource state strings
  | .createKernel program name => clCreateKernel state program name
  | .retain kind handle => clRetain state kind handle
  | .release .context handle => clReleaseContext state handle
  | .release .queue handle => clReleaseCommandQueue state handle
  | .release .mem handle => clReleaseMemObject state handle
  | .release .program handle => clReleaseProgram state handle
  | .release .kernel handle => clReleaseKernel state handle
  | .write buffer offset bytes => clEnqueueWriteBuffer state buffer offset bytes
  | .read buffer offset cb => clEnqueueReadBuffer state buffer offset cb
  | .copy src dst srcOffset dstOffset cb => clEnqueueCopyBuffer state src dst srcOffset dstOffset cb
  | .fill buffer pattern offset cb => clEnqueueFillBuffer state buffer pattern offset cb
  | .map buffer offset cb => clEnqueueMapBuffer state buffer offset cb
  | .store buffer offset bytes => storeMapped state buffer offset bytes
  | .unmap buffer => clEnqueueUnmapMemObject state buffer
  | .setArg kernel index arg => clSetKernelArg state kernel index arg
  | .ndRange kernel globalWorkSize => clEnqueueNDRangeKernel device state kernel globalWorkSize

def ClState.run (device : Device) (state : ClState) : List ClCall → Option (ClState × List ClOutput)
  | [] => some (state, [])
  | call :: calls =>
      (state.step device call).bind fun (after, output) =>
        (after.run device calls).map fun (last, outputs) => (last, output :: outputs)

end PDocker.Opencl
