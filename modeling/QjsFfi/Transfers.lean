import QjsFfi.Syscalls

namespace QjsFfi
open BinaryFloat Activation Histories

structure TypedArray where
  buffer : LiveBuffer
  byteOffset : ℕ
  byteLength : ℕ
  inside : byteOffset+byteLength ≤ buffer.bytes.length

inductive BufferSource where
  | arrayBuffer (b : LiveBuffer)
  | typedArray (a : TypedArray)

-- if(typeof buf.buffer == 'object') buf = buf.buffer; an ArrayBuffer has no buffer.
def BufferSource.buffer : BufferSource → LiveBuffer
  | .arrayBuffer b => b
  | .typedArray a => a.buffer

def BufferSource.byteOffset : BufferSource → ℕ
  | .arrayBuffer _ => 0
  | .typedArray a => a.byteOffset

def BufferSource.byteLength : BufferSource → ℕ
  | .arrayBuffer b => b.bytes.length
  | .typedArray a => a.byteLength

def transferred (fd : ℤ) (buf : LiveBuffer) (offset len flags : Option ℤ) : List Passed :=
  [.number (.ofInt fd),.buffer buf,.number (.ofInt (offset.getD 0)),.number (.ofInt (len.getD buf.bytes.length)),
   .number (.ofInt (flags.getD 0))]

def recv (fd : ℤ) (buf : BufferSource) (offset len flags : Option ℤ) : List Passed := transferred fd buf.buffer offset len flags

inductive SendArgument where
  | string (codes : List UInt16)
  | source (b : BufferSource)

-- StringToArrayBuffer is not declared anywhere, so a string ends in a ReferenceError.
def send (fd : ℤ) (buf : SendArgument) (offset len flags : Option ℤ) : Option (List Passed) :=
  match buf with
  | .string _ => none
  | .source b => some (transferred fd b.buffer offset len flags)

inductive Transfer where | recv | send
  deriving DecidableEq

def Transfer.row : Transfer → Syscall | .recv => .recv | .send => .send

def Transfer.passes (t : Transfer) (fd : ℤ) (buf : BufferSource) (offset len flags : Option ℤ) : Option (List Passed) :=
  match t with
  | .recv => some (QjsFfi.recv fd buf offset len flags)
  | .send => QjsFfi.send fd (.source buf) offset len flags

def Receives (fd address len flags : ℤ) (request : Request) : Prop :=
  ∃ a b c d, request.values = [a,b,c,d] ∧ ffi_type.sint32.reads a = some fd ∧ ffi_type.pointer.reads b = some address ∧
    ffi_type_uint.reads c = some len ∧ ffi_type.sint32.reads d = some flags

structure Slice where
  offset : ℤ
  len : ℤ
  flags : ℤ

def sliceOf (buf : BufferSource) (offset len flags : Option ℤ) : Slice :=
  ⟨offset.getD 0,len.getD buf.buffer.bytes.length,flags.getD 0⟩

theorem transfer_types (t : Transfer) :
    t.row ∈ syscall ∧ knownTypes (define_types []) t.row.args = some [.sint32,.pointer,.uint32,.sint32] := by
  cases t <;> exact ⟨by decide,by decide +kernel⟩

theorem passes_transferred (t : Transfer) (fd : ℤ) (buf : BufferSource) (offset len flags : Option ℤ) :
    t.passes fd buf offset len flags = some (transferred fd buf.buffer offset len flags) := by
  cases t <;> rfl

theorem size_read {n : ℤ} {v : JSValueConst} (passed : Passed.Stands v (.number (.ofInt n))) (lower : 0 ≤ n) (upper : n < 2^32)
    (stands : Stands c (v.quantity.getD (.integer 0))) : ffi_type_uint.reads (delivered .uint32 c) = some n := by
  obtain ⟨q,delivers,whole⟩ := number_delivered (t := .uint32) passed (by omega) (by omega) stands
  rw [delivers,conv,whole]
  exact congrArg some (toNat_ofInt_range 32 lower upper)

section Parameters
variable {request : Request} {b : LiveBuffer} {fd offset len : ℤ} {fdArgument bufArgument offsetArgument lenArgument : JSValueConst}
  (first : Passed.Stands fdArgument (.number (.ofInt fd))) (second : Passed.Stands bufArgument (.buffer b))
  (third : Passed.Stands offsetArgument (.number (.ofInt offset))) (fourth : Passed.Stands lenArgument (.number (.ofInt len)))
  {arg : ℕ → Carried} (carries : ∀ i v, [fdArgument,bufArgument,offsetArgument,lenArgument][i]? = some v →
    Stands (arg i) (v.quantity.getD (.integer 0)))
  (values : request.values = valuesOf [.sint32,.pointer,.uint32,.sint32] arg) (descriptor : 0 ≤ fd ∧ fd < 2^31)
include second carries values

theorem parameter_cells :
    request.values = [delivered .sint32 (arg 0),.pointer b.data,delivered .uint32 (arg 2),delivered .sint32 (arg 3)] := by
  rw [values,← buffer_delivered second (carries 1 _ rfl)]
  rfl

include first third fourth descriptor

-- The four parameters read the first four of the five arguments: offset as a length, len as flags.
theorem receives_shifted (start : 0 ≤ offset) (small : offset < 2^32) (lower : -2^31 ≤ len) (upper : len < 2^31) :
    Receives fd b.data.toNat offset len request :=
  ⟨_,_,_,_,parameter_cells second carries values,int_read first (by omega) descriptor.2 (carries 0 _ rfl),rfl,
    size_read third start small (carries 2 _ rfl),int_read fourth lower upper (carries 3 _ rfl)⟩

theorem receives_iff (start : 0 ≤ offset) (place : ℕ) :
    Receives fd (b.data.toNat+place+offset) len flags request ↔ (place+offset = 0 ∧ len = 0 ∧ flags = 0) := by
  constructor
  · rintro ⟨x,y,z,w,same,_,address,size,flag⟩
    rw [parameter_cells second carries values] at same
    simp only [List.cons.injEq,and_true] at same
    obtain ⟨_,rfl,rfl,rfl⟩ := same
    have base : (b.data.toNat : ℤ) = b.data.toNat+place+offset := Option.some.inj address
    -- The address is the base, so nothing is left of the offset, and len is read off it.
    obtain rfl : offset = 0 := by omega
    have length : len = 0 := by
      rw [size_read third (by decide) (by decide) (carries 2 _ rfl)] at size
      exact (Option.some.inj size).symm
    subst length
    rw [int_read fourth (by decide) (by decide) (carries 3 _ rfl)] at flag
    exact ⟨by omega,rfl,(Option.some.inj flag).symm⟩
  · rintro ⟨zero,rfl,rfl⟩
    obtain rfl : offset = 0 := by omega
    have address : (b.data.toNat : ℤ)+place+0 = b.data.toNat := by omega
    rw [address]
    exact receives_shifted first second third fourth carries values descriptor (by decide) (by decide) (by decide) (by decide)

end Parameters

theorem transfer_request {t : Transfer} {buf : BufferSource} {offset len flags : Option ℤ} {ps : List Passed} {vs : List JSValueConst}
    (reached : Reached history m) (loaded : Loaded history l t.row) (descriptor : 0 ≤ fd ∧ fd < 2^31)
    (start : 0 ≤ (sliceOf buf offset len flags).offset) (passes : t.passes fd buf offset len flags = some ps)
    (passed : List.Forall₂ (fun p v => p.Stands v) ps vs) (step : Step m ⟨.call ((l.closure t.row).arguments vs),opening,r⟩ entered) :
    r = none ∧ ∃ request, invocations opening = [request] ∧
      (l.symbol t.row ≠ 0 → (l.symbol t.row).toNat ≤ 2^53 → request.fp = .code (l.symbol t.row)) ∧
      (Receives fd (buf.buffer.data.toNat+buf.byteOffset+(sliceOf buf offset len flags).offset) (sliceOf buf offset len flags).len
        (sliceOf buf offset len flags).flags request ↔
        buf.byteOffset+(sliceOf buf offset len flags).offset = 0 ∧ (sliceOf buf offset len flags).len = 0 ∧
          (sliceOf buf offset len flags).flags = 0) := by
  obtain ⟨listed,types⟩ := transfer_types t
  rw [passes_transferred] at passes
  cases Option.some.inj passes
  have few : vs.length ≤ MAX_PARAMETERS := by
    rw [← passed.length_eq]
    exact Nat.le_of_ble_eq_true rfl
  obtain ⟨returns,request,arg,one,values,carries,symbol⟩ :=
    loaded.calls reached listed types few (passed_convertible passed) step
  refine ⟨returns,request,one,symbol,?_⟩
  rcases passed with _ | ⟨first,_ | ⟨second,_ | ⟨third,_ | ⟨fourth,_⟩⟩⟩⟩
  refine receives_iff first second third fourth ?_ values descriptor start buf.byteOffset
  intro i v given
  refine carries i v ?_
  obtain ⟨inside,rfl⟩ := List.getElem?_eq_some_iff.mp given
  match i,inside with
  | 0,_ | 1,_ | 2,_ | 3,_ => rfl

-- The native function receives the slice exactly when it is empty, starts where the
-- whole buffer does and has no flags: offset stands for len there and len for flags.
theorem transfers_slice {t : Transfer} {buf : BufferSource} {offset len flags : Option ℤ} {ps : List Passed} {vs : List JSValueConst}
    (reached : Reached history m) (loaded : Loaded history l t.row) (descriptor : 0 ≤ fd ∧ fd < 2^31)
    (start : 0 ≤ (sliceOf buf offset len flags).offset) (passes : t.passes fd buf offset len flags = some ps)
    (passed : List.Forall₂ (fun p v => p.Stands v) ps vs) :
    (∃ opening r entered, Step m ⟨.call ((l.closure t.row).arguments vs),opening,r⟩ entered) ∧
    ∀ opening r entered, Step m ⟨.call ((l.closure t.row).arguments vs),opening,r⟩ entered → r = none ∧
      ∃ request, invocations opening = [request] ∧
        (l.symbol t.row ≠ 0 → (l.symbol t.row).toNat ≤ 2^53 → request.fp = .code (l.symbol t.row)) ∧
        (Receives fd (buf.buffer.data.toNat+buf.byteOffset+(sliceOf buf offset len flags).offset) (sliceOf buf offset len flags).len
          (sliceOf buf offset len flags).flags request ↔
          buf.byteOffset+(sliceOf buf offset len flags).offset = 0 ∧ (sliceOf buf offset len flags).len = 0 ∧
            (sliceOf buf offset len flags).flags = 0) :=
  ⟨call_possible (sound_reached reached) _,fun _ _ _ step => transfer_request reached loaded descriptor start passes passed step⟩

def recvPrototype : Prototype := ⟨"recv",.code 0x2000,.FFI_DEFAULT_ABI,.sint32,[.sint32,.pointer,.uint32,.sint32]⟩
def recvMachine : Machine := ⟨⟨define_types [],[nodeOf 73 recvPrototype],false,76⟩,[]⟩

theorem recv_foreign : ∃ log, Gives (foreign plainLoading .recv) freshMachine.ctx (some (plainLoading.closure .recv)) recvMachine.ctx log :=
  ⟨[.acquire 66 nameCopy,.release 66,.acquire 67 nameCopy,.acquire 68 nameCopy,.acquire 69 nameCopy,.acquire 70 nameCopy,
    .acquire 71 nameCopy,.acquire 72 nameCopy,.malloc 73,.malloc 74,.malloc 75,.ffi_prep_cif recvPrototype.cif true,
    .release 67,.release 68,.release 69,.release 70,.release 71,.release 72],by decide +kernel⟩

theorem recv_loaded : ∃ history, Reached history recvMachine ∧ Loaded history plainLoading .recv := by
  obtain ⟨log,ran⟩ := recv_foreign
  obtain ⟨_,loading,reached,loaded⟩ := foreign_loads fresh_reached (by decide) rfl ran (by decide +kernel)
  exact ⟨_,reached,loaded⟩

def fourBytes : BufferSource := .arrayBuffer ⟨0x8000,[0,0,0,0],by decide⟩
def fourArgument : JSValueConst := (JSValue.arrayBuffer ⟨some 0x8000,[0,0,0,0]⟩).argument

-- recv(3, buf, 1, 2) of four bytes.
theorem second_passed : List.Forall₂ (fun p v => p.Stands v) (recv 3 fourBytes (some 1) (some 2) none)
    [intArgument 3,fourArgument,intArgument 1,intArgument 2,intArgument 0] :=
  .cons rfl (.cons rfl (.cons rfl (.cons rfl (.cons rfl .nil))))

theorem transfers_slice_recv : ∃ opening entered request,
    Step recvMachine ⟨.call ((plainLoading.closure .recv).arguments [intArgument 3,fourArgument,intArgument 1,intArgument 2,intArgument 0]),
      opening,none⟩ entered ∧ invocations opening = [request] ∧ request.fp = .code 0x2000 ∧ ¬ Receives 3 (0x8000+0+1) 2 0 request := by
  have descriptor : (0 : ℤ) ≤ 3 ∧ (3 : ℤ) < 2^31 := by decide
  have start : 0 ≤ (sliceOf fourBytes (some 1) (some 2) none).offset := by decide
  have passes : Transfer.recv.passes 3 fourBytes (some 1) (some 2) none = some (recv 3 fourBytes (some 1) (some 2) none) := rfl
  obtain ⟨history,reached,loaded⟩ := recv_loaded
  obtain ⟨⟨opening,r,entered,step⟩,calls⟩ :=
    transfers_slice (t := .recv) reached loaded descriptor start passes second_passed
  obtain ⟨rfl,request,one,symbol,exactly⟩ := calls opening r entered step
  refine ⟨opening,entered,request,step,one,symbol (by decide) (by decide),?_⟩
  intro receives
  have whole := exactly.mp receives
  exact absurd whole.2.1 (by decide)

theorem slice_misplaced : ¬ ∀ history m l (t : Transfer) fd (buf : BufferSource) offset len flags ps vs opening r entered,
    Reached history m → Loaded history l t.row → 0 ≤ fd ∧ fd < 2^31 →
    0 ≤ (sliceOf buf offset len flags).offset → 0 ≤ (sliceOf buf offset len flags).len →
    (sliceOf buf offset len flags).offset+(sliceOf buf offset len flags).len ≤ buf.byteLength →
    t.passes fd buf offset len flags = some ps → List.Forall₂ (fun p v => p.Stands v) ps vs →
    Step m ⟨.call ((l.closure t.row).arguments vs),opening,r⟩ entered →
    ∃ request, invocations opening = [request] ∧
      Receives fd (buf.buffer.data.toNat+buf.byteOffset+(sliceOf buf offset len flags).offset) (sliceOf buf offset len flags).len
        (sliceOf buf offset len flags).flags request := by
  intro claimed
  have descriptor : (0 : ℤ) ≤ 3 ∧ (3 : ℤ) < 2^31 := by decide
  have start : 0 ≤ (sliceOf fourBytes (some 1) (some 2) none).offset := by decide
  have passes : Transfer.recv.passes 3 fourBytes (some 1) (some 2) none = some (recv 3 fourBytes (some 1) (some 2) none) := rfl
  obtain ⟨history,reached,loaded⟩ := recv_loaded
  obtain ⟨opening,r,entered,step⟩ := call_possible (sound_reached reached)
    ((plainLoading.closure .recv).arguments [intArgument 3,fourArgument,intArgument 1,intArgument 2,intArgument 0])
  obtain ⟨request,one,receives⟩ := claimed _ _ _ .recv 3 fourBytes (some 1) (some 2) none _ _ _ _ _ reached loaded descriptor
    start (by decide) (by decide) passes second_passed step
  obtain ⟨_,request',one',_,exactly⟩ := transfer_request (t := .recv) reached loaded descriptor start
    passes second_passed step
  obtain rfl : request = request' := by simpa [one] using one'
  exact absurd (exactly.mp receives).2.1 (by decide)

end QjsFfi
