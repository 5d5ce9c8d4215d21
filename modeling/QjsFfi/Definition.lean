import QjsFfi.Engine
import QjsFfi.TypeTable

namespace QjsFfi
open Activation Histories

def MAX_PARAMETERS : Nat := 30

-- libffi as built: the FFI_ macros it defines and whether ffi_prep_cif answers FFI_OK.
structure Libffi where
  compiled : ffi_abi → Bool
  ffi_prep_cif : ffi_cif → Bool

-- for (f->nargs = 0; args && args[f->nargs]; ++f->nargs), over the cells from here on.
def countArgs : List (Option (Option CString)) → C Nat
  | [] => .fail .outOfBounds
  | none :: _ => .fail .uninitialised
  | some none :: _ => pure 0
  | some (some _) :: rest => do
    let n ← countArgs rest
    pure (n+1)

def define_error (args : Option Nat) (name self : Nat) : C Bool := do
  freeBlock args
  free name
  free self
  pure false

-- f->args[i] = find_ffi_type(args[i])
def define_arg (args : CArray (Option CString)) (i : Nat) (types : CArray ffi_type) :
    C (Bool × CArray ffi_type) := do
  let s ← args.get i
  let head ← Exec.read Ctx.ffi_type_head
  match find_ffi_type head (s.map CString.text) with
  | none => do
    warn "define_function: no such type"
    pure (false,types)
  | some t => do
    let types ← types.set i t
    pure (true,types)

def define_prepared (ffi : Libffi) (f : function_s) (abi rtype : String) : C Bool := do
  let head ← Exec.read Ctx.ffi_type_head
  match find_ffi_type head (some rtype) with
  | none => do
    warn "define_function: no such return type"
    define_error (f.args.map Block.id) f.name.id f.addr
  | some t => do
    let cif : ffi_cif := ⟨find_abi ffi.compiled abi,f.nargs,t,f.types⟩
    Exec.emit (.ffi_prep_cif cif (ffi.ffi_prep_cif cif))
    if ffi.ffi_prep_cif cif then do
      Exec.update (fun s => {s with function_list := {f with cif := some cif, rtype := t} :: s.function_list})
      pure true
    else do
      warn "define_function: ffi_prep_cif failed"
      define_error (f.args.map Block.id) f.name.id f.addr

def define_fresh (ffi : Libffi) (name : String) (fp : Word) (abi rtype : Option CString)
    (args : Option (CArray (Option CString))) : C Bool := do
  let self ← malloc
  let nameBlock ← malloc
  let code := if fp = 0 then CodePointer.dummy_ else .code fp
  let abi := (abi.map CString.text).getD "default"
  let nargs ← match args with
    | none => pure 0
    | some args => countArgs args.cells
  if nargs = 0 then
    define_prepared ffi ⟨self,⟨nameBlock,name⟩,code,0,none,none,.void⟩ abi ((rtype.map CString.text).getD "void")
  else match args with
  | none => do
    warn "define_function: no args"
    define_error none nameBlock self
  | some args => do
    let argsBlock ← malloc
    let (known,types) ← loop (define_arg args) nargs 0 (CArray.alloc nargs)
    if known then
      define_prepared ffi ⟨self,⟨nameBlock,name⟩,code,nargs,none,some ⟨argsBlock,types⟩,.void⟩ abi
        ((rtype.map CString.text).getD "void")
    else
      define_error (some argsBlock) nameBlock self

def define_function (ffi : Libffi) (name : Option CString) (fp : Word) (abi rtype : Option CString)
    (args : Option (CArray (Option CString))) : C Bool :=
  match name with
  | none => do
    warn "define_function: no name"
    pure false
  | some name => do
    let function_list ← Exec.read Ctx.function_list
    if (find (fun f => f.name.contents) function_list name.text).isSome then pure true
    else define_fresh ffi name.text fp abi rtype args

-- for (i = 0; i < nparams; ++i) JS_FreeCString(ctx, params[i]), from i on.
def releaseParams (params : CArray (Option CString)) : Nat → Nat → C Unit
  | 0,_ => pure ()
  | count+1,i => do
    let s ← params.get i
    freeCString s
    releaseParams params count (i+1)

def js_define_error (name rtype abi : Option CString) (params : CArray (Option CString)) (nparams : Nat)
    (r : JSValue) : C JSValue := do
  freeCString name
  freeCString rtype
  freeCString abi
  releaseParams params nparams 0
  pure r

-- for (i = 4; (i < argc) && (nparams < MAX_PARAMETERS); ++i), over argv from i on.
def js_define_params (nparams : Nat) (params : CArray (Option CString)) :
    List JSValueConst → C (Nat × CArray (Option CString))
  | [] => pure (nparams,params)
  | v :: rest =>
    if nparams < MAX_PARAMETERS then do
      let s ← JS_ToCString v
      let params ← params.set nparams s
      js_define_params (nparams+1) params rest
    else pure (nparams,params)

-- NULL for a null abi; the outer none is a failed conversion.
def js_define_abi (v : JSValueConst) : C (Option (Option CString)) :=
  if JS_IsNull v then pure (some none)
  else do
    let s ← JS_ToCString v
    pure (s.map some)

def js_define (ffi : Libffi) (given : List JSValueConst) : C JSValue := do
  let argv := padded 4 given
  let params : CArray (Option CString) := CArray.alloc (MAX_PARAMETERS+1)
  let v ← argv.get 0
  let name ← JS_ToCString v
  match name with
  | none => js_define_error none none none params 0 (.bool false)
  | some name => do
  let v ← argv.get 1
  let fp ← JS_ToInt64 v
  match fp with
  | none => js_define_error (some name) none none params 0 (.bool false)
  | some fp => do
  let v ← argv.get 2
  let abi ← js_define_abi v
  match abi with
  | none => js_define_error (some name) none none params 0 (.bool false)
  | some abi => do
  let v ← argv.get 3
  let rtype ← JS_ToCString v
  match rtype with
  | none => js_define_error (some name) none abi params 0 (.bool false)
  | some rtype => do
  let (nparams,params) ← js_define_params 0 params (given.drop 4)
  let params ← params.set nparams none
  let ok ← define_function ffi (some name) fp abi (some rtype) (some params)
  js_define_error (some name) (some rtype) abi params nparams (.bool ok)

end QjsFfi
