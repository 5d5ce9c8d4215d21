import QjsFfi.Definition

namespace QjsFfi
open BinaryFloat Activation Histories Numerals

def ffi_type.bits : ffi_type → Option Nat
  | .sint8 | .uint8 => some 8
  | .sint16 | .uint16 => some 16
  | .sint32 | .uint32 => some 32
  | .sint64 | .uint64 => some 64
  | _ => none

def ffi_type.signed : ffi_type → Bool
  | .sint8 | .sint16 | .sint32 | .sint64 => true
  | _ => false

-- Reads of a union member: ll and p share their eight bytes.
def argument.getLL : argument → C Word
  | .ll v | .p v => pure v
  | _ => .fail .wrongMember

def argument.getLD : argument → C LongDouble
  | .ld v => pure v
  | _ => .fail .wrongMember

def argument.getF : argument → C Single
  | .f v => pure v
  | _ => .fail .wrongMember

def argument.getD : argument → C Double
  | .d v => pure v
  | _ => .fail .wrongMember

-- (long long) of a long double. Out of range C leaves the result open; the
-- x86_64 instruction stores the integer indefinite value.
def longLongOf (d : Datum) : Word :=
  match d.truncate with
  | some n => if -2^63 ≤ n ∧ n < 2^63 then BitVec.ofInt 64 n else 0x8000000000000000#64
  | none => 0x8000000000000000#64

-- An element of ptrs: &(arguments[i]) or &(pointer_list[k]).
inductive Cell where
  | arguments (i : Nat)
  | pointer_list (k : Nat)
  deriving DecidableEq, Repr

structure CallVars where
  ptrs : CArray Cell
  pointer_list : CArray Word
  arguments : CArray argument
  pl : Nat
  deriving DecidableEq

def CallVars.alloc (nargs : Nat) : CallVars := ⟨.alloc nargs,.alloc nargs,.alloc nargs,0⟩

def init_argument (i : Nat) (x : CallVars) : C (Bool × CallVars) := do
  let arguments ← x.arguments.set i (.p 0)
  let pointer_list ← x.pointer_list.set i 0
  let ptrs ← x.ptrs.set i (.arguments i)
  pure (true,{x with arguments := arguments, pointer_list := pointer_list, ptrs := ptrs})

def CallVars.store (x : CallVars) (i : Nat) (a : argument) : C (Bool × CallVars) := do
  let arguments ← x.arguments.set i a
  pure (true,{x with arguments := arguments})

-- pointer_list[pl++] = p; ptrs[i] = &(pointer_list[pl - 1]);
def CallVars.storePointer (x : CallVars) (i : Nat) (p : Word) : C (Bool × CallVars) := do
  let pointer_list ← x.pointer_list.set x.pl p
  let pl := x.pl+1
  let ptrs ← x.ptrs.set i (.pointer_list (pl-1))
  pure (true,{x with pointer_list := pointer_list, pl := pl, ptrs := ptrs})

def place_argument (types : CArray ffi_type) (args : CArray typed_argument) (i : Nat) (x : CallVars) :
    C (Bool × CallVars) := do
  let a ← args.get i
  if a.type = TYPE_INTEGRAL then do
    let t ← types.get i
    let v ← a.arg.getLL
    if t = .float then x.store i (.f (.ofInt binary32 v.toInt))
    else if t = .double then x.store i (.d (.ofInt binary64 v.toInt))
    else if t = .longdouble then x.store i (.ld (.ofInt extended80 v.toInt))
    else if t = .pointer then x.storePointer i v
    else x.store i (.ll v)
  else if a.type = TYPE_FLOAT then do
    let t ← types.get i
    let v ← a.arg.getLD
    if t = .float then x.store i (.f (v.convert binary32))
    else if t = .double then x.store i (.d (v.convert binary64))
    else if t = .longdouble then x.store i (.ld v)
    else if t = .pointer then x.storePointer i (longLongOf v.datum)
    else x.store i (.ll (longLongOf v.datum))
  else if a.type = TYPE_POINTER then do
    let p ← a.arg.getLL
    x.storePointer i p
  else do
    warn "call_function: error, unknown typed parameter"
    pure (false,x)

-- libffi reads exactly the declared type's bytes at the address it is given.
def libffi_load (t : ffi_type) (a : argument) : C FfiValue :=
  match t,t.bits with
  | .void,_ => pure .void
  | .float,_ => do let v ← a.getF; pure (.float v)
  | .double,_ => do let v ← a.getD; pure (.double v)
  | .longdouble,_ => do let v ← a.getLD; pure (.longdouble v)
  | .pointer,_ => do let v ← a.getLL; pure (.pointer v)
  | _,some width => do
    let v ← a.getLL
    pure (.integral width (BitVec.ofNat width (value ((bytes 8 v.toNat).take (width/8)))))
  | _,none => .fail .wrongMember

def CallVars.at (x : CallVars) : Cell → C argument
  | .arguments i => x.arguments.get i
  | .pointer_list k => do
    let p ← x.pointer_list.get k
    pure (.p p)

def libffi_values (types : CArray ffi_type) (x : CallVars) : Nat → Nat → C (List FfiValue)
  | 0,_ => pure []
  | count+1,i => do
    let t ← types.get i
    let cell ← x.ptrs.get i
    let a ← x.at cell
    let v ← libffi_load t a
    let rest ← libffi_values types x count (i+1)
    pure (v :: rest)

structure CallFrame where
  f : Nat
  ptrs : Option Nat
  pointer_list : Option Nat
  arguments : Option Nat
  request : Request
  deriving DecidableEq

def call_function_error (ptrs pointer_list arguments : Option Nat) : C Unit := do
  freeBlock ptrs
  freeBlock pointer_list
  freeBlock arguments

-- if (f->nargs) { ptrs = malloc(..); pointer_list = malloc(..); arguments = malloc(..); }
def call_function_alloc (nargs : Nat) : C (Option Nat × Option Nat × Option Nat) :=
  if nargs = 0 then pure (none,none,none)
  else do
    let ptrs ← malloc
    let pointer_list ← malloc
    let arguments ← malloc
    pure (some ptrs,some pointer_list,some arguments)

-- call_function up to ffi_call; none when it has gone to error.
def call_function_prepare (name : Option CString) (args : Option (CArray typed_argument)) :
    C (Option CallFrame) :=
  match name with
  | none => do
    warn "call_function: no name"
    call_function_error none none none
    pure none
  | some name => do
  let function_list ← Exec.read Ctx.function_list
  match find (fun f => f.name.contents) function_list name.text with
  | none => do
    warn "call_function: no such function"
    call_function_error none none none
    pure none
  | some f => do
  let (ptrs,pointer_list,arguments) ← call_function_alloc f.nargs
  if f.nargs ≠ 0 ∧ args = none then do
    warn "call_function: nargs >= 1 but no args"
    call_function_error ptrs pointer_list arguments
    pure none
  else do
  let (_,x) ← loop init_argument f.nargs 0 (CallVars.alloc f.nargs)
  let (known,x) ← loop (place_argument f.types (args.getD ⟨[]⟩)) f.nargs 0 x
  if known then
    match f.cif with
    | none => .fail .uninitialised
    | some cif => do
      let values ← libffi_values cif.arg_types x cif.nargs 0
      let request : Request := ⟨f.addr,f.fp,cif.rtype,values⟩
      Exec.emit (.ffi_call request)
      pure (some ⟨f.addr,ptrs,pointer_list,arguments,request⟩)
  else do
    call_function_error ptrs pointer_list arguments
    pure none

structure NativeResult where
  integer : Word
  single : Single
  double : Double
  extended : LongDouble

-- libffi stores a result of the declared type at &rc, an integral one widened to
-- 64 bits by its signedness; nothing for void.
def libffi_store (t : ffi_type) (r : NativeResult) : Option argument :=
  match t,t.bits with
  | .void,_ => none
  | .float,_ => some (.f r.single)
  | .double,_ => some (.d r.double)
  | .longdouble,_ => some (.ld r.extended)
  | .pointer,_ => some (.p r.integer)
  | _,some width =>
    let low := r.integer.setWidth width
    some (.ll (if t.signed then low.signExtend 64 else low.setWidth 64))
  | _,none => none

def rcMember (rc : Option argument) (get : argument → C α) : C α :=
  match rc with
  | none => .fail .uninitialised
  | some a => get a

def call_function_result (rtype : ffi_type) (rc : Option argument) : C LongDouble :=
  if rtype = .void then pure (.ofInt extended80 0)
  else if rtype = .float then do let v ← rcMember rc argument.getF; pure (v.convert extended80)
  else if rtype = .double then do let v ← rcMember rc argument.getD; pure (v.convert extended80)
  else if rtype = .longdouble then rcMember rc argument.getLD
  else if rtype = .pointer then do
    let v ← rcMember rc argument.getLL
    pure ((Number.ofInt binary64 v.toInt).convert extended80)
  else do
    let v ← rcMember rc argument.getLL
    pure (.ofInt extended80 v.toInt)

-- f is followed again after the native function has returned.
def deref (f : Nat) : C function_s := do
  let function_list ← Exec.read Ctx.function_list
  match find function_s.addr function_list f with
  | none => .fail .dangling
  | some node => pure node

-- call_function from the return of ffi_call on: always true, with *rp = r.
def call_function_finish (frame : CallFrame) (native : NativeResult) : C LongDouble := do
  let f ← deref frame.f
  let r ← call_function_result f.rtype (libffi_store frame.request.rtype native)
  call_function_error frame.ptrs frame.pointer_list frame.arguments
  pure r

structure ArgVars where
  args : CArray typed_argument
  strings : CArray CString
  fl : Nat
  deriving DecidableEq

def ArgVars.setArg (x : ArgVars) (i : Nat) (f : typed_argument → typed_argument) : C (Bool × ArgVars) := do
  let a ← x.args.get i
  let args ← x.args.set i (f a)
  pure (true,{x with args := args})

-- One turn of the conversion loop for argv[i]; false is goto error.
def js_call_arg (i : Nat) (v : JSValueConst) (x : ArgVars) : C (Bool × ArgVars) :=
  if JS_IsNull v then pure (true,x)
  else if JS_IsBool v then do
    let (_,x) ← x.setArg (i-1) (fun a => {a with arg := .ll (BitVec.ofInt 64 (JS_ToBool v))})
    pure (decide (0 ≤ JS_ToBool v),x)
  else if JS_IsInteger v then do
    let n ← JS_ToInt64 v
    match n with
    | none => pure (false,x)
    | some n => x.setArg (i-1) (fun a => {a with arg := .ll n})
  else if JS_IsNumber v then do
    let d ← JS_ToFloat64 v
    match d with
    | none => pure (false,x)
    | some d => x.setArg (i-1) (fun _ => ⟨.ld (d.convert extended80),TYPE_FLOAT⟩)
  else if JS_IsString v then do
    let s ← JS_ToCString v
    match s with
    | none => pure (false,x)
    | some s => do
      let strings ← x.strings.set x.fl s
      ({x with strings := strings, fl := x.fl+1} : ArgVars).setArg (i-1) (fun a => {a with arg := .ll s.address.word})
  else do
    let (buf,_) ← JS_GetArrayBuffer v
    if buf = 0 then pure (false,x)
    else x.setArg (i-1) (fun a => {a with arg := .ll buf})

-- for (i = 1; (i < argc) && (i <= MAX_PARAMETERS); ++i), over argv from i on.
def js_call_args (i : Nat) : List JSValueConst → ArgVars → C (Bool × ArgVars)
  | [],x => pure (true,x)
  | v :: rest,x =>
    if i ≤ MAX_PARAMETERS then do
      let (onward,x) ← js_call_arg i v x
      if onward then js_call_args (i+1) rest x else pure (false,x)
    else pure (true,x)

-- while (fl) JS_FreeCString(ctx, strings[--fl]);
def releaseStrings (strings : CArray CString) : Nat → C Unit
  | 0 => pure ()
  | fl+1 => do
    let s ← strings.get fl
    JS_FreeCString s
    releaseStrings strings fl

def js_call_error (name : Option CString) (strings : CArray CString) (fl : Nat) (r : JSValue) : C JSValue := do
  freeCString name
  releaseStrings strings fl
  pure r

structure JsFrame where
  name : CString
  strings : CArray CString
  fl : Nat
  inner : CallFrame
  deriving DecidableEq

def js_call_prepare (given : List JSValueConst) : C (JSValue ⊕ JsFrame) := do
  let argv := padded 1 given
  let strings : CArray CString := .alloc MAX_PARAMETERS
  let v ← argv.get 0
  let name ← JS_ToCString v
  match name with
  | none => do
    let r ← js_call_error none strings 0 .exception
    pure (.inl r)
  | some name => do
  let args : CArray typed_argument := ⟨List.replicate MAX_PARAMETERS (some ⟨.ll 0,TYPE_INTEGRAL⟩)⟩
  let (converted,x) ← js_call_args 1 (given.drop 1) ⟨args,strings,0⟩
  if converted then do
    let frame ← call_function_prepare (some name) (some x.args)
    match frame with
    | none => do
      let r ← js_call_error (some name) x.strings x.fl .exception
      pure (.inl r)
    | some inner => pure (.inr ⟨name,x.strings,x.fl,inner⟩)
  else do
    let r ← js_call_error (some name) x.strings x.fl .exception
    pure (.inl r)

def js_call_finish (frame : JsFrame) (native : NativeResult) : C JSValue := do
  let res ← call_function_finish frame.inner native
  js_call_error (some frame.name) frame.strings frame.fl (JS_NewFloat64 (res.convert binary64))

def js_call (native : Request → Ctx → NativeResult × Ctx) (given : List JSValueConst) : C JSValue := do
  let prepared ← js_call_prepare given
  match prepared with
  | .inl r => pure r
  | .inr frame => do
    let result ← Exec.read (fun s => (native frame.inner.request s).1)
    Exec.update (fun s => (native frame.inner.request s).2)
    js_call_finish frame result

end QjsFfi
