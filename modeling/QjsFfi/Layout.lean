import QjsFfi.BinaryFloat
import QjsFfi.Numerals
import QjsFfi.Activation

namespace QjsFfi
open BinaryFloat Activation

abbrev Single := Number binary32
abbrev Double := Number binary64
abbrev LongDouble := Number extended80
-- long long, int64_t, uint64_t and every pointer of the 64-bit platform.
abbrev Word := BitVec 64

structure Address where
  word : Word
  present : word ≠ 0
  deriving DecidableEq

-- JavaScript values by tag. A detached buffer has no data pointer.
structure ArrayBuffer where
  data : Option Word
  bytes : List UInt8
  deriving DecidableEq

inductive JSValue where
  | undefined
  | null
  | bool (b : Bool)
  | int (v : BitVec 32)
  | float64 (d : Double)
  | bigInt (n : Int)
  | string (text : String)
  | symbol
  | arrayBuffer (buffer : ArrayBuffer)
  | object
  | exception
  deriving DecidableEq

-- One element of argv together with what the engine answers for it where the
-- tag alone does not say: ToString and ToNumber of an object may run scripts,
-- and a C copy of a text needs memory. User code that a conversion runs comes
-- before the module's own work, so it is an earlier step of the same run.
structure JSValueConst where
  value : JSValue
  text : Option String
  number : Option Double
  copy : Option Address
  deriving DecidableEq

def JSValue.argument (v : JSValue) : JSValueConst := ⟨v,none,none,none⟩

-- argv[i] past argc, up to the declared length. Its text is one the engine already holds.
def undefinedArgument : JSValueConst := ⟨.undefined,none,none,some ⟨1,by decide⟩⟩

-- A const char* from JS_ToCString; `id` tells its acquisition from others that
-- may share the address.
structure CString where
  id : Nat
  address : Address
  text : String
  deriving DecidableEq

-- The types of libffi. ffi_type_schar and its likes are macros for these.
inductive ffi_type where
  | void
  | sint8 | sint16 | sint32 | sint64
  | uint8 | uint16 | uint32 | uint64
  | float | double | longdouble
  | pointer
  deriving DecidableEq, Repr

structure ffi_type_s where
  name : String
  type : ffi_type
  deriving DecidableEq, Repr

inductive ffi_abi where
  | FFI_DEFAULT_ABI
  | FFI_SYSV | FFI_UNIX64 | FFI_STDCALL | FFI_THISCALL
  | FFI_FASTCALL | FFI_MS_CDECL | FFI_WIN64
  deriving DecidableEq, Repr

-- The module's own dummy_() or a code address; `code 0` is NULL.
inductive CodePointer where
  | dummy_
  | code (address : Word)
  deriving DecidableEq, Repr

structure Block (α : Type) where
  id : Nat
  contents : α
  deriving DecidableEq, Repr

-- `arg_types` points at the args array of the node it was prepared for.
structure ffi_cif where
  abi : ffi_abi
  nargs : Nat
  rtype : ffi_type
  arg_types : CArray ffi_type
  deriving DecidableEq, Repr

structure function_s where
  addr : Nat
  name : Block String
  fp : CodePointer
  nargs : Nat
  cif : Option ffi_cif
  args : Option (Block (CArray ffi_type))
  rtype : ffi_type
  deriving DecidableEq, Repr

def function_s.types (f : function_s) : CArray ffi_type :=
  match f.args with
  | none => ⟨[]⟩
  | some block => block.contents

-- union argument_s, by the member stored last.
inductive argument where
  | ll (v : Word)
  | ld (v : LongDouble)
  | f (v : Single)
  | d (v : Double)
  | p (v : Word)
  deriving DecidableEq

def TYPE_INTEGRAL : Nat := 0
def TYPE_FLOAT : Nat := 1
def TYPE_POINTER : Nat := 2

structure typed_argument where
  arg : argument
  type : Nat
  deriving DecidableEq

inductive FfiValue where
  | void
  | integral (width : Nat) (bits : BitVec width)
  | pointer (address : Word)
  | float (v : Single)
  | double (v : Double)
  | longdouble (v : LongDouble)
  deriving DecidableEq

structure Request where
  f : Nat
  fp : CodePointer
  rtype : ffi_type
  values : List FfiValue
  deriving DecidableEq

inductive Event where
  | warn (text : String)
  | acquire (id : Nat) (address : Address)
  | release (id : Nat)
  | malloc (id : Nat)
  | free (id : Nat)
  | ffi_prep_cif (cif : ffi_cif) (ok : Bool)
  | ffi_call (request : Request)
  deriving DecidableEq

-- The static variables of the module, whether an exception is pending in the
-- JavaScript context, and the next unused handle.
structure Ctx where
  ffi_type_head : List ffi_type_s
  function_list : List function_s
  pending : Bool
  fresh : Nat
  deriving DecidableEq

def Ctx.start : Ctx := ⟨[],[],false,0⟩

abbrev C (α : Type) := Exec Ctx Event α

def Ctx.bump (s : Ctx) (handles : Nat) (failed : Bool) : Ctx :=
  {s with pending := s.pending || failed, fresh := s.fresh+handles}

@[simp] theorem Ctx.bump_types (s : Ctx) : (s.bump n p).ffi_type_head = s.ffi_type_head := rfl
@[simp] theorem Ctx.bump_functions (s : Ctx) : (s.bump n p).function_list = s.function_list := rfl
@[simp] theorem Ctx.bump_pending (s : Ctx) : (s.bump n p).pending = (s.pending || p) := rfl
@[simp] theorem Ctx.bump_fresh (s : Ctx) : (s.bump n p).fresh = s.fresh+n := rfl
@[simp] theorem Ctx.bump_bump (s : Ctx) : (s.bump n p).bump m q = s.bump (n+m) (p || q) := by
  simp [Ctx.bump,Nat.add_assoc,Bool.or_assoc]
@[simp] theorem Ctx.bump_zero (s : Ctx) : s.bump 0 false = s := by simp [Ctx.bump]

def warn (text : String) : C Unit := .emit (.warn text)

def handle : C Nat := fun s => .ok (s.fresh,{s with fresh := s.fresh+1},[])

-- malloc and strdup succeed: the code ends the process through fatal() otherwise.
def malloc : C Nat := do
  let id ← handle
  Exec.emit (.malloc id)
  pure id

def free (id : Nat) : C Unit := .emit (.free id)

-- free(NULL) does nothing.
def freeBlock : Option Nat → C Unit
  | none => pure ()
  | some id => free id

theorem malloc_gives (s : Ctx) : Gives malloc s s.fresh (s.bump 1 false) [.malloc s.fresh] := by
  have state : s.bump 1 false = {s with fresh := s.fresh+1} := by simp [Ctx.bump]
  rw [state]
  rfl

theorem freeBlock_gives (block : Option Nat) (s : Ctx) :
    Gives (freeBlock block) s () s (block.toList.map .free) := by
  cases block <;> rfl

def strings : Custody Event Nat where
  takes := fun | .acquire id _ => some id | _ => none
  returns := fun | .release id => some id | _ => none

def blocks : Custody Event Nat where
  takes := fun | .malloc id => some id | _ => none
  returns := fun | .free id => some id | _ => none

end QjsFfi
