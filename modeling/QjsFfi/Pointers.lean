import QjsFfi.Conversions
import QjsFfi.Definition

namespace QjsFfi
open BinaryFloat Activation Numerals

-- The dynamic linker, the memory of the process and the engine's allocator, as
-- they answer at the time of one call. dlopen and dlsym answer 0 for what they do not
-- find, dlerror where there is no error.
structure Host where
  dlopen : Option String → BitVec 32 → Word
  dlclose : Word → BitVec 32
  dlsym : Word → String → Word
  RTLD_DEFAULT : Word
  memory : Word → UInt8
  newString : Word → JSValue
  malloc : Nat → Option Address
  dlerror : Word
  errno : BitVec 32
  context : Word

-- The texts of js_dlopen's name: NULL for a null, as for the abi of define.
def js_dlopen_name (v : JSValueConst) : C (Option (Option CString)) := js_define_abi v

-- The early return of a failed flags conversion leaves the name unreleased.
def js_dlopen (host : Host) (given : List JSValueConst) : C JSValue := do
  let argv := padded 2 given
  let v ← argv.get 0
  let s ← js_dlopen_name v
  match s with
  | none => pure .exception
  | some s => do
  let v ← argv.get 1
  let n ← JS_ToUint32 v
  match n with
  | none => pure .exception
  | some n => do
  let res := host.dlopen (s.map CString.text) n
  freeCString s
  if res = 0 then pure .null else pure (JS_NewInt64 res)

def js_dlclose (host : Host) (given : List JSValueConst) : C JSValue := do
  let argv := padded 1 given
  let v ← argv.get 0
  let n ← JS_ToInt64 v
  match n with
  | none => pure .exception
  | some n => pure (.int (host.dlclose n))

def js_dlsym (host : Host) (given : List JSValueConst) : C JSValue := do
  let argv := padded 2 given
  let v ← argv.get 0
  let n ← JS_ToInt64 v
  match n with
  | none => pure .exception
  | some n => do
  let v ← argv.get 1
  let s ← JS_ToCString v
  match s with
  | none => pure .exception
  | some s => do
  let res := host.dlsym n s.text
  JS_FreeCString s
  if res = 0 then pure .null else pure (JS_NewInt64 res)

-- What the engine makes for the module; an exception value comes with a pending exception.
def engineValue (r : JSValue) : C JSValue := do
  Exec.update (fun s => s.bump 0 (decide (r = .exception)))
  pure r

theorem engineValue_gives (r : JSValue) (s : Ctx) :
    Gives (engineValue r) s r (s.bump 0 (decide (r = .exception))) [] := Gives.update.silent Gives.pure

def js_tostring (host : Host) (given : List JSValueConst) : C JSValue := do
  let argv := padded 1 given
  let v ← argv.get 0
  let p ← JS_ToInt64 v
  match p with
  | none => pure .exception
  | some p => engineValue (host.newString p)

def Host.bytesAt (host : Host) (p : Word) (size : Nat) : List UInt8 :=
  (List.range size).map (fun i => host.memory (p+BitVec.ofNat 64 i))

def JS_NewArrayBufferCopy (host : Host) (p : Word) (size : Nat) : JSValue :=
  match host.malloc size with
  | none => .exception
  | some address => .arrayBuffer ⟨some address.word,host.bytesAt p size⟩

def js_toarraybuffer (host : Host) (given : List JSValueConst) : C JSValue := do
  let argv := padded 2 given
  let v ← argv.get 0
  let p ← JS_ToInt64 v
  match p with
  | none => pure .exception
  | some p => do
  let v ← argv.get 1
  let s ← JS_ToInt64 v
  match s with
  | none => pure .exception
  | some s => if s.toInt < 0 then pure .exception else engineValue (JS_NewArrayBufferCopy host p s.toNat)

-- %p
def pointerText (p : Word) : String :=
  if p = 0 then "(nil)" else String.ofList ('0' :: 'x' :: hexText p.toNat)

-- The offset is looked at when a second argument is given; the comparison with
-- the size is one of unsigned numbers.
def js_topointer (given : List JSValueConst) : C JSValue := do
  let argv := padded 1 given
  let v ← argv.get 0
  let (ptr,size) ← JS_GetArrayBuffer v
  if given.length > 1 then do
    let v ← argv.get 1
    let off ← JS_ToInt64 v
    match off with
    | none => pure .exception
    | some off => do
      let off := if off.toInt < 0 then off+BitVec.ofNat 64 size else off
      if off.toNat > size ∨ off.toInt < 0 then pure .exception
      else pure (.string (pointerText (ptr+off)))
  else pure (.string (pointerText ptr))

def js_debug : C JSValue := pure .null

def js_errno (host : Host) : C JSValue := pure (.int host.errno)

def js_dlerror (host : Host) : C JSValue :=
  if host.dlerror = 0 then pure .null else engineValue (host.newString host.dlerror)

def js_context (host : Host) : C JSValue := pure (JS_NewInt64 host.context)

inductive Export where
  | debug | dlopen | dlerror | dlclose | dlsym | toString | toArrayBuffer | toPointer | errno | JSContext
  deriving DecidableEq

def Export.run (host : Host) (given : List JSValueConst) : Export → C JSValue
  | .debug => js_debug
  | .dlopen => js_dlopen host given
  | .dlerror => js_dlerror host
  | .dlclose => js_dlclose host given
  | .dlsym => js_dlsym host given
  | .toString => js_tostring host given
  | .toArrayBuffer => js_toarraybuffer host given
  | .toPointer => js_topointer given
  | .errno => js_errno host
  | .JSContext => js_context host

structure ExportTrace (s : Ctx) (handles : Nat) (log : List Event) (lost : List Nat) : Prop where
  texts : ∀ id ∈ strings.taken log, s.fresh ≤ id ∧ id < s.fresh+handles
  distinct : (strings.taken log).Nodup
  settled : (strings.returned log++lost).Perm (strings.taken log)
  blocks : blocks.taken log = [] ∧ blocks.returned log = []
  silent : ∀ request, .ffi_call request ∉ log

theorem export_quiet (s : Ctx) : ExportTrace s 0 [] [] :=
  ⟨by simp [Custody.taken],List.nodup_nil,List.Perm.refl _,⟨rfl,rfl⟩,by simp⟩

theorem export_used {c : CString} (id : c.id = s.fresh) : ExportTrace s 1 [.acquire c.id c.address,.release c.id] [] :=
  ⟨by simp [strings,Custody.taken,id],List.nodup_singleton _,List.Perm.refl _,⟨rfl,rfl⟩,by simp⟩

theorem export_lost {c : CString} (id : c.id = s.fresh) : ExportTrace s 1 [.acquire c.id c.address] [c.id] :=
  ⟨by simp [strings,Custody.taken,id],List.nodup_singleton _,List.Perm.refl _,⟨rfl,rfl⟩,by simp⟩

def dlopenName (given : List JSValueConst) : Option (Option String) :=
  if JS_IsNull (argAt given 0) then some none else (argAt given 0).cstring.map some

def dlopenValue (host : Host) (given : List JSValueConst) : JSValue :=
  match dlopenName given,(argAt given 1).toInt64 with
  | some name,some n => if host.dlopen name (n.setWidth 32) = 0 then .null else JS_NewInt64 (host.dlopen name (n.setWidth 32))
  | _,_ => .exception

def dlcloseValue (host : Host) (given : List JSValueConst) : JSValue :=
  match (argAt given 0).toInt64 with
  | some n => .int (host.dlclose n)
  | none => .exception

def dlsymValue (host : Host) (given : List JSValueConst) : JSValue :=
  match (argAt given 0).toInt64,(argAt given 1).cstring with
  | some n,some name => if host.dlsym n name = 0 then .null else JS_NewInt64 (host.dlsym n name)
  | _,_ => .exception

def tostringValue (host : Host) (given : List JSValueConst) : JSValue :=
  match (argAt given 0).toInt64 with
  | some p => host.newString p
  | none => .exception

def toarraybufferValue (host : Host) (given : List JSValueConst) : JSValue :=
  match (argAt given 0).toInt64,(argAt given 1).toInt64 with
  | some p,some n => if n.toInt < 0 then .exception else JS_NewArrayBufferCopy host p n.toNat
  | _,_ => .exception

-- A negative size is refused without raising.
def toarraybufferRaises (host : Host) (given : List JSValueConst) : Bool :=
  match (argAt given 0).toInt64,(argAt given 1).toInt64 with
  | some p,some n => ¬ n.toInt < 0 ∧ JS_NewArrayBufferCopy host p n.toNat = .exception
  | _,_ => true

def pointerAt (ptr : Word) (size : Nat) (off : Word) : JSValue :=
  let off := if off.toInt < 0 then off+BitVec.ofNat 64 size else off
  if off.toNat > size ∨ off.toInt < 0 then .exception else .string (pointerText (ptr+off))

def topointerValue (given : List JSValueConst) : JSValue :=
  let (ptr,size) := (argAt given 0).buffer.getD (0,0)
  if given.length > 1 then
    match (argAt given 1).toInt64 with
    | some off => pointerAt ptr size off
    | none => .exception
  else .string (pointerText ptr)

-- Anything but a live buffer raises and is carried on with; an offset outside does not raise.
def topointerRaises (given : List JSValueConst) : Bool :=
  (argAt given 0).buffer.isNone || (given.length > 1 && (argAt given 1).toInt64.isNone)

def dlerrorValue (host : Host) : JSValue := if host.dlerror = 0 then .null else host.newString host.dlerror

def Export.value (host : Host) (given : List JSValueConst) : Export → JSValue
  | .debug => .null
  | .dlopen => dlopenValue host given
  | .dlerror => dlerrorValue host
  | .dlclose => dlcloseValue host given
  | .dlsym => dlsymValue host given
  | .toString => tostringValue host given
  | .toArrayBuffer => toarraybufferValue host given
  | .toPointer => topointerValue given
  | .errno => .int host.errno
  | .JSContext => JS_NewInt64 host.context

def Export.raises (host : Host) (given : List JSValueConst) : Export → Bool
  | .debug | .errno | .JSContext => false
  | .dlopen => dlopenValue host given = .exception
  | .dlerror => dlerrorValue host = .exception
  | .dlclose => dlcloseValue host given = .exception
  | .dlsym => dlsymValue host given = .exception
  | .toString => tostringValue host given = .exception
  | .toArrayBuffer => toarraybufferRaises host given
  | .toPointer => topointerRaises given

theorem JS_NewInt64_present (a : Word) : JS_NewInt64 a ≠ .exception := by
  unfold JS_NewInt64
  split <;> simp

theorem found_present (a : Word) : (if a = 0 then JSValue.null else JS_NewInt64 a) ≠ .exception := by
  split
  · simp
  · exact JS_NewInt64_present a

theorem JS_ToUint32_some {v : JSValueConst} (number : v.toInt64 = some n) (s : Ctx) :
    Gives (JS_ToUint32 v) s (some (n.setWidth 32)) s [] := (JS_ToInt64_some number s).silent Gives.pure

theorem JS_ToUint32_none {v : JSValueConst} (failed : v.toInt64 = none) (s : Ctx) :
    Gives (JS_ToUint32 v) s none (s.bump 0 true) [] := (JS_ToInt64_none failed s).silent Gives.pure

theorem js_dlopen_name_some (made : dlopenName given = some name) (s : Ctx) :
    ∃ text : Option CString, text.map CString.text = name ∧ (∀ c, text = some c → c.id = s.fresh) ∧
      Gives (js_dlopen_name (argAt given 0)) s (some text) (s.bump text.toList.length false) (acquired text) := by
  unfold dlopenName at made
  unfold js_dlopen_name js_define_abi
  split at made
  · rename_i null
    cases made
    rw [if_pos null]
    refine ⟨none,rfl,by simp,?_⟩
    simpa using Gives.pure
  · rename_i present
    obtain ⟨text,named,rfl⟩ := Option.map_eq_some_iff.mp made
    obtain ⟨c,converted,spelled⟩ := asCString_some named s.fresh
    rw [if_neg present]
    refine ⟨some c,congrArg some spelled,?_,(JS_ToCString_some converted).bind Gives.pure⟩
    intro d same
    cases same
    exact asCString_id converted

theorem js_dlopen_name_none (failed : dlopenName given = none) (s : Ctx) :
    Gives (js_dlopen_name (argAt given 0)) s none (s.bump 0 true) [] := by
  unfold dlopenName at failed
  unfold js_dlopen_name js_define_abi
  split at failed
  · cases failed
  · rename_i present
    rw [if_neg present]
    exact (JS_ToCString_none (Option.map_eq_none_iff.mp failed) s).silent Gives.pure

theorem js_dlopen_found (host : Host) {text : Option CString}
    (first : Gives (js_dlopen_name (argAt given 0)) s (some text) (s.bump n false) (acquired text))
    (flags : (argAt given 1).toInt64 = some f) :
    Gives (js_dlopen host given) s
      (if host.dlopen (text.map CString.text) (f.setWidth 32) = 0 then .null
        else JS_NewInt64 (host.dlopen (text.map CString.text) (f.setWidth 32)))
      (s.bump n false) (acquired text++released text) := by
  apply (declared_argument Nat.two_pos given s).silent
  apply first.bind
  apply (declared_argument Nat.one_lt_two given _).silent
  apply (JS_ToUint32_some flags _).silent
  rw [← List.append_nil (released text)]
  exact (freeCString_gives text _).bind Gives.choice

theorem js_dlopen_lost (host : Host) {text : Option CString}
    (first : Gives (js_dlopen_name (argAt given 0)) s (some text) (s.bump n false) (acquired text))
    (flags : (argAt given 1).toInt64 = none) : Gives (js_dlopen host given) s .exception (s.bump n true) (acquired text) := by
  have failed := JS_ToUint32_none flags (s.bump n false)
  rw [Ctx.bump_bump] at failed
  apply (declared_argument Nat.two_pos given s).silent
  rw [← List.append_nil (acquired text)]
  apply first.bind
  apply (declared_argument Nat.one_lt_two given _).silent
  exact failed.silent Gives.pure

theorem js_dlopen_gives (host : Host) (given : List JSValueConst) (s : Ctx) :
    ∃ n log lost, Gives (js_dlopen host given) s (dlopenValue host given)
      (s.bump n (decide (dlopenValue host given = .exception))) log ∧ ExportTrace s n log lost := by
  unfold dlopenValue
  cases name : dlopenName given with
  | none =>
    refine ⟨0,[],[],?_,export_quiet s⟩
    apply (declared_argument Nat.two_pos given s).silent
    exact (js_dlopen_name_none name s).silent Gives.pure
  | some spelled =>
    obtain ⟨text,rfl,id,first⟩ := js_dlopen_name_some name s
    cases flags : (argAt given 1).toInt64 with
    | none =>
      refine ⟨_,_,text.toList.map CString.id,js_dlopen_lost host first flags,?_⟩
      cases text with
      | none => exact export_quiet s
      | some c => exact export_lost (id c rfl)
    | some f =>
      have ran := js_dlopen_found host first flags
      simp only [found_present,decide_false]
      refine ⟨_,_,[],ran,?_⟩
      cases text with
      | none => exact export_quiet s
      | some c => exact export_used (id c rfl)

theorem js_dlclose_gives (host : Host) (given : List JSValueConst) (s : Ctx) :
    Gives (js_dlclose host given) s (dlcloseValue host given) (s.bump 0 (decide (dlcloseValue host given = .exception))) [] := by
  apply (declared_argument Nat.one_pos given s).silent
  unfold dlcloseValue
  cases handle : (argAt given 0).toInt64 with
  | none => exact (JS_ToInt64_none handle s).silent Gives.pure
  | some n =>
    rw [decide_eq_false (by simp),Ctx.bump_zero]
    exact (JS_ToInt64_some handle s).silent Gives.pure

theorem js_dlsym_gives (host : Host) (given : List JSValueConst) (s : Ctx) :
    ∃ n log, Gives (js_dlsym host given) s (dlsymValue host given)
      (s.bump n (decide (dlsymValue host given = .exception))) log ∧ ExportTrace s n log [] := by
  have handleArgument := declared_argument Nat.two_pos given s
  have nameArgument := declared_argument Nat.one_lt_two given s
  unfold dlsymValue
  cases handle : (argAt given 0).toInt64 with
  | none =>
    have first := JS_ToInt64_none handle s
    exact ⟨_,_,handleArgument.silent (first.silent Gives.pure),export_quiet s⟩
  | some n =>
    have first := JS_ToInt64_some handle s
    cases text : (argAt given 1).cstring with
    | none =>
      have second := JS_ToCString_none text s
      exact ⟨_,_,handleArgument.silent (first.silent (nameArgument.silent (second.silent Gives.pure))),export_quiet s⟩
    | some name =>
      obtain ⟨c,named,rfl⟩ := asCString_some text s.fresh
      have second := JS_ToCString_some named
      simp only [found_present,decide_false]
      exact ⟨_,_,handleArgument.silent (first.silent (nameArgument.silent
        (second.bind (Gives.emit.bind Gives.choice)))),export_used (asCString_id named)⟩

theorem js_tostring_gives (host : Host) (given : List JSValueConst) (s : Ctx) :
    Gives (js_tostring host given) s (tostringValue host given)
      (s.bump 0 (decide (tostringValue host given = .exception))) [] := by
  apply (declared_argument Nat.one_pos given s).silent
  unfold tostringValue
  cases number : (argAt given 0).toInt64 with
  | none => exact (JS_ToInt64_none number s).silent Gives.pure
  | some p => exact (JS_ToInt64_some number s).silent (engineValue_gives _ s)

theorem js_toarraybuffer_gives (host : Host) (given : List JSValueConst) (s : Ctx) :
    Gives (js_toarraybuffer host given) s (toarraybufferValue host given) (s.bump 0 (toarraybufferRaises host given)) [] := by
  apply (declared_argument Nat.two_pos given s).silent
  unfold toarraybufferValue toarraybufferRaises
  cases pointer : (argAt given 0).toInt64 with
  | none => exact (JS_ToInt64_none pointer s).silent Gives.pure
  | some p =>
    apply (JS_ToInt64_some pointer s).silent
    apply (declared_argument Nat.one_lt_two given s).silent
    cases size : (argAt given 1).toInt64 with
    | none => exact (JS_ToInt64_none size s).silent Gives.pure
    | some n =>
      apply (JS_ToInt64_some size s).silent
      by_cases negative : n.toInt < 0
      · simpa [negative] using Gives.pure
      · simpa [negative] using engineValue_gives _ s

theorem js_topointer_gives (given : List JSValueConst) (s : Ctx) :
    Gives (js_topointer given) s (topointerValue given) (s.bump 0 (topointerRaises given)) [] := by
  apply (declared_argument Nat.one_pos given s).silent
  apply (JS_GetArrayBuffer_gives _ s).silent
  unfold topointerValue topointerRaises
  by_cases more : given.length > 1
  · simp only [more,if_true,decide_true,Bool.true_and]
    apply (passed_argument more 1 _).silent
    cases number : (argAt given 1).toInt64 with
    | none =>
      have failed := JS_ToInt64_none number (s.bump 0 (argAt given 0).buffer.isNone)
      rw [Ctx.bump_bump] at failed
      exact failed.silent Gives.pure
    | some off =>
      apply (JS_ToInt64_some number _).silent
      rw [Option.isNone_some,Bool.or_false]
      exact Gives.choice
  · simp only [more,if_false,decide_false,Bool.false_and,Bool.or_false]
    exact Gives.pure

theorem js_dlerror_gives (host : Host) (s : Ctx) :
    Gives (js_dlerror host) s (dlerrorValue host) (s.bump 0 (decide (dlerrorValue host = .exception))) [] := by
  unfold js_dlerror dlerrorValue
  split
  · rw [decide_eq_false (by simp),Ctx.bump_zero]
    exact Gives.pure
  · exact engineValue_gives _ s

-- Only dlopen can lose a text.
theorem Export.run_gives (e : Export) (host : Host) (given : List JSValueConst) (s : Ctx) :
    ∃ n log lost, Gives (e.run host given) s (e.value host given) (s.bump n (e.raises host given)) log ∧
      ExportTrace s n log lost ∧ (e ≠ .dlopen → lost = []) := by
  have calm : ∀ r : JSValue, Gives (pure r : C JSValue) s r (s.bump 0 false) [] := fun r => (Ctx.bump_zero s).symm ▸ Gives.pure
  cases e with
  | debug => exact ⟨0,[],[],calm _,export_quiet s,fun _ => rfl⟩
  | errno => exact ⟨0,[],[],calm _,export_quiet s,fun _ => rfl⟩
  | JSContext => exact ⟨0,[],[],calm _,export_quiet s,fun _ => rfl⟩
  | dlerror => exact ⟨0,[],[],js_dlerror_gives host s,export_quiet s,fun _ => rfl⟩
  | dlopen =>
    obtain ⟨n,log,lost,ran,trace⟩ := js_dlopen_gives host given s
    exact ⟨n,log,lost,ran,trace,fun other => absurd rfl other⟩
  | dlclose => exact ⟨0,[],[],js_dlclose_gives host given s,export_quiet s,fun _ => rfl⟩
  | dlsym =>
    obtain ⟨n,log,ran,trace⟩ := js_dlsym_gives host given s
    exact ⟨n,log,[],ran,trace,fun _ => rfl⟩
  | toString => exact ⟨0,[],[],js_tostring_gives host given s,export_quiet s,fun _ => rfl⟩
  | toArrayBuffer => exact ⟨0,[],[],js_toarraybuffer_gives host given s,export_quiet s,fun _ => rfl⟩
  | toPointer => exact ⟨0,[],[],js_topointer_gives given s,export_quiet s,fun _ => rfl⟩

end QjsFfi
