import QjsFfi.IntegerTransport

namespace QjsFfi
open BinaryFloat Activation Histories

-- Number(text) of a hexadecimal literal; a number is itself.
def scriptNumber : JSValue → Option JSValue
  | .string text => (hexLiteral text.toList).map (fun n => JS_NewFloat64 (.ofInt binary64 n))
  | .int v => some (.int v)
  | .float64 d => some (.float64 d)
  | _ => none

def offsetIn (size : ℕ) (off : ℤ) : ℤ := if off < 0 then off+size else off

-- The values in which the module hands an address to the script.
inductive Produced (a : Word) : JSValue → Prop where
  | dlsym (ran : Gives (js_dlsym host given) s r t log) (handle : (argAt given 0).toInt64 = some n)
    (named : (argAt given 1).cstring = some name) (found : host.dlsym n name = a) : Produced a r
  | call (reached : Reached history m) (innermost : m.stack = frame :: rest)
    (pointer : frame.inner.request.rtype = .pointer) (result : native.integer = a)
    (step : Step m ⟨.returned native,log,some r⟩ next) : Produced a r
  | toPointer (buffer : (argAt given 0).value = .arrayBuffer ⟨some data,bytes⟩)
    (place : (¬ given.length > 1 ∧ a = data) ∨ ∃ off : ℤ, given.length > 1 ∧ bytes.length < 2^53 ∧
      (argAt given 1).value.numeric = some (off : ℚ) ∧ off.natAbs ≤ 2^53 ∧ 0 ≤ offsetIn bytes.length off ∧
      offsetIn bytes.length off ≤ bytes.length ∧ a = data+BitVec.ofInt 64 (offsetIn bytes.length off))
    (ran : Gives (js_topointer given) s r t log) : Produced a r

theorem toInt_small {a : Word} (small : a.toNat ≤ 2^53) : a.toInt = (a.toNat : ℤ) :=
  BitVec.toInt_eq_toNat_of_lt (by omega)

theorem numeric_toInt64 {n : ℤ} {v : JSValueConst} (number : v.value.numeric = some (n : ℚ)) :
    v.toInt64 = some (BitVec.ofInt 64 n) := by
  unfold JSValueConst.toInt64
  cases value : v.value with
  | int i =>
    rw [value] at number
    have same : i.toInt = n := by
      simp only [JSValue.numeric,Option.some.injEq] at number
      exact_mod_cast number
    rw [← same]
    rfl
  | float64 d =>
    rw [value] at number
    simp only [int64OfDatum,truncate_whole d.fits number]
  | undefined | null | bool | bigInt | string | symbol | arrayBuffer | object | exception =>
    rw [value] at number
    cases number

theorem JS_NewInt64_numeric {a : Word} (small : a.toNat ≤ 2^53) : (JS_NewInt64 a).numeric = some ((a.toNat : ℤ) : ℚ) := by
  have signed := toInt_small small
  unfold JS_NewInt64
  split
  · rename_i narrow
    rw [JSValue.numeric,narrow,signed]
  · have exact : a.toInt.natAbs ≤ 2^53 := by omega
    rw [JSValue.numeric,ofInt_datum exact,toRat_ofInt,signed]

theorem JS_NewFloat64_ofInt {n : ℤ} (exact : n.natAbs ≤ 2^53) : (JS_NewFloat64 (.ofInt binary64 n)).numeric = some (n : ℚ) := by
  rw [JS_NewFloat64_numeric,ofInt_datum exact,toRat_ofInt]

theorem pointer_result_numeric {native : NativeResult} (small : native.integer.toNat ≤ 2^53) :
    (JS_NewFloat64 ((resultOf .pointer native).convert binary64)).numeric = some ((native.integer.toNat : ℤ) : ℚ) := by
  have exact : ((native.integer.toNat : ℤ)).natAbs ≤ 2^53 := by simpa using small
  rw [← JS_NewFloat64_ofInt exact]
  simp only [resultOf]
  rw [Number.convert_through wide_exact,Number.convert_self,toInt_small small]

theorem hexLiteral_pointerText {a : Word} (present : a ≠ 0) : hexLiteral (pointerText a).toList = some a.toNat := by
  rw [pointerText,if_neg present,String.toList_ofList]
  simp only [hexLiteral,true_or,if_true,Numerals.readHex_hexText]

theorem signed_nonnegative {off : Word} (start : 0 ≤ off.toInt) : (off.toNat : ℤ) = off.toInt := by
  rw [BitVec.toInt_eq_toNat_cond] at start ⊢
  split at start <;> rename_i small <;> simp only [small,if_true,if_false] at start ⊢
  omega

theorem moved_signed {off : Word} {size : ℕ} (bound : size < 2^63) (negative : off.toInt < 0) :
    (off+BitVec.ofNat 64 size).toInt = off.toInt+size := by
  have least := off.le_toInt
  have size' : (BitVec.ofNat 64 size).toInt = size := by
    rw [BitVec.toInt_ofNat',Int.bmod_eq_of_le (by omega) (by omega)]
  rw [BitVec.toInt_add,size',Int.bmod_eq_of_le (by omega) (by omega)]

def movedOffset (size : ℕ) (off : Word) : Word := if off.toInt < 0 then off+BitVec.ofNat 64 size else off

theorem movedOffset_toInt {size : ℕ} (bound : size < 2^63) (off : Word) : (movedOffset size off).toInt = offsetIn size off.toInt := by
  unfold movedOffset offsetIn
  split
  · rename_i negative
    exact moved_signed bound negative
  · rfl

theorem pointerAt_moved {base off : Word} {size : ℕ} (bound : size < 2^63) (start : 0 ≤ offsetIn size off.toInt)
    (inside : offsetIn size off.toInt ≤ size) : pointerAt base size off = .string (pointerText (base+movedOffset size off)) := by
  rw [← movedOffset_toInt bound] at start inside
  have plain := signed_nonnegative start
  exact if_neg (show ¬ ((movedOffset size off).toNat > size ∨ (movedOffset size off).toInt < 0) by omega)

theorem pointerAt_inside {data : Word} {size : ℕ} {off : ℤ} (bound : size < 2^53) (exact : off.natAbs ≤ 2^53)
    (start : 0 ≤ offsetIn size off) (inside : offsetIn size off ≤ size) :
    pointerAt data size (BitVec.ofInt 64 off) = .string (pointerText (data+BitVec.ofInt 64 (offsetIn size off))) := by
  have signed : (BitVec.ofInt 64 off).toInt = off := BitVec.toInt_ofInt_eq_self (by decide) (by omega) (by omega)
  have moved : movedOffset size (BitVec.ofInt 64 off) = BitVec.ofInt 64 (offsetIn size off) := by
    unfold movedOffset offsetIn
    rw [signed]
    split
    · rw [BitVec.ofInt_add,BitVec.ofInt_natCast]
    · rfl
  rw [← moved]
  exact pointerAt_moved (by omega) (signed.symm ▸ start) (signed.symm ▸ inside)

theorem Produced.shape {a : Word} (present : a ≠ 0) (small : a.toNat ≤ 2^53) (produced : Produced a r) :
    r.numeric = some ((a.toNat : ℤ) : ℚ) ∨ r = .string (pointerText a) := by
  cases produced with
  | dlsym ran handle named found =>
    rename_i host given s t log n name
    obtain ⟨_,_,gives,_⟩ := js_dlsym_gives host given s
    obtain ⟨rfl,_,_⟩ := ran.unique gives
    simp only [dlsymValue,handle,named,found,if_neg present]
    exact .inl (JS_NewInt64_numeric small)
  | call reached innermost pointer result step =>
    rename_i native log next
    obtain ⟨top,outer,rfl⟩ := return_value (sound_reached reached) step
    rw [innermost] at outer
    obtain ⟨rfl,_⟩ := List.cons.inj outer
    rw [pointer,← result]
    exact .inl (pointer_result_numeric (result ▸ small))
  | toPointer buffer place ran =>
    rename_i given data bytes s t log
    have held : (argAt given 0).buffer = some (data,bytes.length) := by simp [JSValueConst.buffer,buffer]
    rcases place with ⟨one,rfl⟩ | ⟨off,more,bound,number,exact,start,inside,rfl⟩
    · obtain ⟨rfl,_,_⟩ := ran.unique (js_topointer_gives given s)
      right
      simp only [topointerValue,held,Option.getD_some,if_neg one]
    · obtain ⟨rfl,_,_⟩ := ran.unique (js_topointer_gives given s)
      simp only [topointerValue,held,Option.getD_some,if_pos more,numeric_toInt64 number]
      exact .inr (pointerAt_inside bound exact start inside)

theorem ofInt_address (a : Word) : BitVec.ofInt 64 (a.toNat : ℤ) = a := by
  rw [BitVec.ofInt_natCast,BitVec.ofNat_toNat,BitVec.setWidth_eq]

theorem pointerText_toInt64 {a : Word} (present : a ≠ 0) (small : a.toNat ≤ 2^53) {v : JSValueConst}
    (text : v.value = .string (pointerText a)) : v.toInt64 = some a := by
  have exact : ((a.toNat : ℤ)).natAbs ≤ 2^53 := by simpa using small
  simp only [JSValueConst.toInt64,text,stringToNumber,hexLiteral_pointerText present,Option.map_some,int64OfDatum]
  rw [ofInt_datum exact,truncate_ofInt]
  exact congrArg some (ofInt_address a)

theorem Produced.toInt64 {a : Word} (present : a ≠ 0) (small : a.toNat ≤ 2^53) (produced : Produced a r)
    {v : JSValueConst} (passed : v.value = r) : v.toInt64 = some a := by
  rcases produced.shape present small with number | text
  · rw [numeric_toInt64 (n := a.toNat) (by rw [passed]; exact number),ofInt_address]
  · exact pointerText_toInt64 present small (passed.trans text)

theorem Produced.number {a : Word} (present : a ≠ 0) (small : a.toNat ≤ 2^53) (produced : Produced a r) :
    ∃ w, scriptNumber r = some w ∧ w.numeric = some ((a.toNat : ℤ) : ℚ) := by
  rcases produced.shape present small with number | rfl
  · cases r with
    | int i => exact ⟨_,rfl,number⟩
    | float64 d => exact ⟨_,rfl,number⟩
    | _ => cases number
  · have exact : ((a.toNat : ℤ)).natAbs ≤ 2^53 := by simpa using small
    refine ⟨_,by rw [scriptNumber,hexLiteral_pointerText present]; rfl,JS_NewFloat64_ofInt exact⟩

theorem pointer_delivered {params : List ffi_type} {i : ℕ} (reached : Reached history m)
    (named : (argAt given 0).cstring = some name) (registered : m.ctx.function name = some f)
    (types : f.types = ⟨params.map some⟩) (pointer : params[i]? = some .pointer)
    (passed : (callArguments given)[i]? = some v) {a : Word} (number : v.value.numeric = some ((a.toNat : ℤ) : ℚ))
    (small : a.toNat ≤ 2^53) (step : Step m ⟨.call given,opening,none⟩ entered) :
    ∃ request, invocations opening = [request] ∧ request.values[i]? = some (.pointer a) := by
  cases step with
  | entered ran =>
    have outcome := call_parts (sound_reached reached).registered ran
    obtain ⟨_,_,_,_,_,one⟩ := outcome.invokes
    obtain ⟨arg,stands,values⟩ := outcome.delivers named registered types
    obtain ⟨_,q,means,whole,truncated⟩ := numeric_quantity number
    have own : argumentAt given i = q := by simp [argumentAt,passed,means]
    have delivers : delivered .pointer (arg i) = conv .pointer q := by
      refine delivered_conv (own ▸ stands i) ?_
      intro d _ same
      exact ⟨a.toNat,truncated d same,by omega,by omega⟩
    refine ⟨_,one,?_⟩
    rw [values,valuesOf,List.getElem?_mapIdx,pointer,Option.map_some,delivers,conv,whole,ofInt_address]

theorem header_address {a : Word} (header : defineHeader given = some h)
    (passed : (argAt given 1).value.numeric = some ((a.toNat : ℤ) : ℚ)) : h.fp = a := by
  have converts := (defineHeader_parts header).2.1
  rw [numeric_toInt64 passed,ofInt_address] at converts
  exact (Option.some.inj converts).symm

theorem pointer_defined {a : Word} (reached : Reached history m) (passed : (argAt given 1).value.numeric = some ((a.toNat : ℤ) : ℚ))
    (present : a ≠ 0) (header : defineHeader given = some h) (free : m.ctx.function h.name = none)
    (step : Step m ⟨.define ffi given,log,some (.bool true)⟩ next) :
    ∃ f, next.ctx.function h.name = some f ∧ f.fp = .code a := by
  obtain ⟨addr,p,made,found⟩ := define_registers (sound_reached reached) header free step
  obtain ⟨g,same,_,fp,_⟩ := spelled_parts made
  have equal : g = h := Option.some.inj (same.symm.trans header)
  subst equal
  refine ⟨nodeOf addr p,found,?_⟩
  change p.fp = .code a
  rw [fp,header_address header passed,codeOf,if_neg present]

def Resident (host : Host) (data : Word) (content : List UInt8) : Prop :=
  ∀ i (inside : i < content.length), host.memory (data+BitVec.ofNat 64 i) = content[i]

theorem bytesAt_slice (resident : Resident host data content) (inside : off+n ≤ content.length) :
    host.bytesAt (data+BitVec.ofNat 64 off) n = (content.drop off).take n := by
  apply List.ext_getElem
  · simp [Host.bytesAt]; omega
  · intro i below _
    have short : i < n := by simpa [Host.bytesAt] using below
    simp only [Host.bytesAt,List.getElem_map,List.getElem_range,List.getElem_take,List.getElem_drop]
    rw [← resident (off+i) (by omega),BitVec.add_assoc,← BitVec.ofNat_add]

-- What each consumer makes of a value: call and define of the number it stands
-- for, toString and toArrayBuffer of the value itself.
structure Arrives (a : Word) (r : JSValue) : Prop where
  number : ∃ w, scriptNumber r = some w
  parameter : ∀ {history m given name f opening entered v} {params : List ffi_type} {i : ℕ}, Reached history m →
    (argAt given 0).cstring = some name → m.ctx.function name = some f → f.types = ⟨params.map some⟩ →
    params[i]? = some .pointer → (callArguments given)[i]? = some v → scriptNumber r = some v.value →
    Step m ⟨.call given,opening,none⟩ entered →
    ∃ request, invocations opening = [request] ∧ request.values[i]? = some (.pointer a)
  fp : ∀ {history m ffi given h log next}, Reached history m → scriptNumber r = some (argAt given 1).value →
    defineHeader given = some h → m.ctx.function h.name = none →
    Step m ⟨.define ffi given,log,some (.bool true)⟩ next → ∃ f, next.ctx.function h.name = some f ∧ f.fp = .code a
  string : ∀ {host given s}, (argAt given 0).value = r → Gives (js_tostring host given) s (host.newString a)
    (s.bump 0 (decide (host.newString a = .exception))) []
  buffer : ∀ {host given s} {n : ℕ}, (argAt given 0).value = r → (argAt given 1).value.numeric = some ((n : ℤ) : ℚ) →
    n < 2^63 → Gives (js_toarraybuffer host given) s (JS_NewArrayBufferCopy host a n) (s.bump 0 (host.malloc n).isNone) []

theorem natural_word {n : ℕ} (bound : n < 2^63) : (BitVec.ofInt 64 (n : ℤ)).toInt = n ∧ (BitVec.ofInt 64 (n : ℤ)).toNat = n := by
  refine ⟨BitVec.toInt_ofInt_eq_self (by decide) (by omega) (by omega),?_⟩
  rw [BitVec.ofInt_natCast,BitVec.toNat_ofNat,Nat.mod_eq_of_lt (by omega)]

theorem NewArrayBufferCopy_raises {n : ℤ} (sized : ¬ n < 0) :
    decide (¬ n < 0 ∧ JS_NewArrayBufferCopy host p size = .exception) = (host.malloc size).isNone := by
  unfold JS_NewArrayBufferCopy
  cases host.malloc size <;> simp [sized]

theorem Produced.arrives {a : Word} (present : a ≠ 0) (small : a.toNat ≤ 2^53) (produced : Produced a r) : Arrives a r := by
  obtain ⟨w,converts,number⟩ := produced.number present small
  have same : ∀ {u}, scriptNumber r = some u → u.numeric = some ((a.toNat : ℤ) : ℚ) := by
    intro u other
    rw [converts] at other
    cases other
    exact number
  refine ⟨⟨w,converts⟩,?_,?_,?_,?_⟩
  · intro history m given name f opening entered v params i reached named registered types pointer passed turned step
    exact pointer_delivered reached named registered types pointer passed (same turned) small step
  · intro history m ffi given h log next reached turned header free step
    exact pointer_defined reached (same turned) present header free step
  · intro host given s passed
    have ran := js_tostring_gives host given s
    rwa [tostringValue,produced.toInt64 present small passed] at ran
  · intro host given s n passed size bound
    have word := numeric_toInt64 size
    obtain ⟨signed,count⟩ := natural_word bound
    have ran := js_toarraybuffer_gives host given s
    simp only [toarraybufferValue,toarraybufferRaises,produced.toInt64 present small passed,word,signed,count] at ran
    have sized : ¬ (n : ℤ) < 0 := by omega
    rwa [if_neg sized,NewArrayBufferCopy_raises sized] at ran

theorem buffer_round_trip {b offset size : JSValueConst} {off n : ℕ} (s : Ctx)
    (buffer : b.value = .arrayBuffer ⟨some data,content⟩) (resident : Resident host data content)
    (present : data+BitVec.ofNat 64 off ≠ 0) (start : offset.value.numeric = some (off : ℚ)) (length : size.value.numeric = some (n : ℚ))
    (inside : off+n ≤ content.length) (bound : content.length < 2^53) (near : data.toNat+off ≤ 2^53) :
    ∃ text, Gives (js_topointer [b,offset]) s (.string text) s [] ∧
      ∀ p : JSValueConst, p.value = .string text → Gives (js_toarraybuffer host [p,size]) s
        (match host.malloc n with
          | none => .exception
          | some address => .arrayBuffer ⟨some address.word,(content.drop off).take n⟩)
        (s.bump 0 (host.malloc n).isNone) [] := by
  have plain : offsetIn content.length off = off := if_neg (by omega)
  have shift : BitVec.ofInt 64 (off : ℤ) = BitVec.ofNat 64 off := BitVec.ofInt_natCast _ _
  have number : offset.value.numeric = some ((off : ℤ) : ℚ) := by exact_mod_cast start
  have held : b.buffer = some (data,content.length) := by simp [JSValueConst.buffer,buffer]
  have more : [b,offset].length > 1 := by simp
  have word : (argAt [b,offset] 1).toInt64 = some (BitVec.ofInt 64 off) := numeric_toInt64 number
  have address : (argAt [b,offset] 0).buffer = some (data,content.length) := held
  have made := js_topointer_gives [b,offset] s
  simp only [topointerValue,topointerRaises,address,word,more,Option.getD_some,Option.isNone_some,if_true,Bool.and_false,
    Bool.or_false,Ctx.bump_zero] at made
  rw [pointerAt_inside bound (by omega) (by omega) (by omega),plain,shift] at made
  refine ⟨_,made,?_⟩
  intro p text
  have sum : (data+BitVec.ofNat 64 off).toNat = data.toNat+off := by
    rw [BitVec.toNat_add,BitVec.toNat_ofNat,Nat.mod_eq_of_lt (by omega : off < 2^64),Nat.mod_eq_of_lt (by omega)]
  have produced : Produced (data+BitVec.ofNat 64 off) (.string (pointerText (data+BitVec.ofNat 64 off))) := by
    have base : (argAt [b,offset] 0).value = .arrayBuffer ⟨some data,content⟩ := buffer
    refine .toPointer base (.inr ⟨off,more,bound,number,by omega,by omega,by omega,?_⟩) made
    rw [plain,shift]
  have count : (argAt [p,size] 1).value.numeric = some ((n : ℤ) : ℚ) := by exact_mod_cast length
  have first : (argAt [p,size] 0).value = .string (pointerText (data+BitVec.ofNat 64 off)) := text
  have copied : Gives (js_toarraybuffer host [p,size]) s (JS_NewArrayBufferCopy host (data+BitVec.ofNat 64 off) n)
      (s.bump 0 (host.malloc n).isNone) [] :=
    (produced.arrives present (by omega)).buffer first count (by omega)
  rw [JS_NewArrayBufferCopy,bytesAt_slice resident inside] at copied
  exact copied

theorem pointer_transport {a : Word} (present : a ≠ 0) (small : a.toNat ≤ 2^53) (produced : Produced a r) :
    Arrives a r ∧
    ∀ host data content b offset size s (off n : ℕ), b.value = .arrayBuffer ⟨some data,content⟩ →
      Resident host data content → data+BitVec.ofNat 64 off ≠ 0 → offset.value.numeric = some (off : ℚ) →
      size.value.numeric = some (n : ℚ) → off+n ≤ content.length → content.length < 2^53 → data.toNat+off ≤ 2^53 →
      ∃ text, Gives (js_topointer [b,offset]) s (.string text) s [] ∧
        ∀ p : JSValueConst, p.value = .string text → Gives (js_toarraybuffer host [p,size]) s
          (match host.malloc n with
            | none => .exception
            | some address => .arrayBuffer ⟨some address.word,(content.drop off).take n⟩)
          (s.bump 0 (host.malloc n).isNone) [] := by
  refine ⟨produced.arrives present small,?_⟩
  intro host data content b offset size s off n buffer resident given start length inside bound near
  exact buffer_round_trip s buffer resident given start length inside bound near

def absHost : Host :=
  ⟨fun _ _ => 0,fun _ => 0,fun _ name => if name = "abs" then 0x2000 else 0,0,fun _ => 0,fun _ => .string "",fun _ => none,0,0,0⟩
def absAsked : List JSValueConst := [nullArgument,stringArgument "abs" nameCopy]

theorem abs_found : Gives (js_dlsym absHost absAsked) freshMachine.ctx (.int 0x2000) {freshMachine.ctx with fresh := 67}
    [.acquire 66 nameCopy,.release 66] := by decide +kernel

def sbrkPrototype : Prototype := ⟨"sbrk",.code 0x2000,.FFI_DEFAULT_ABI,.pointer,[]⟩
def sbrkDefine : List JSValueConst :=
  [stringArgument "sbrk" nameCopy,intArgument 0x2000,nullArgument,stringArgument "pointer" resultCopy]
def sbrkFrame : JsFrame := ⟨⟨70,nameCopy,"sbrk"⟩,.alloc MAX_PARAMETERS,0,⟨68,none,none,none,⟨68,.code 0x2000,.pointer,[]⟩⟩⟩
def sbrkMachine : Machine := ⟨⟨define_types [],[nodeOf 68 sbrkPrototype],false,70⟩,[]⟩
def sbrkCalled : Machine := ⟨{sbrkMachine.ctx with fresh := 71},[sbrkFrame]⟩

theorem sbrk_reached : ∃ history, Reached history sbrkCalled := by
  have defined : Step freshMachine ⟨.define plainLibffi sbrkDefine,[.acquire 66 nameCopy,.acquire 67 resultCopy,.malloc 68,.malloc 69,
      .ffi_prep_cif sbrkPrototype.cif true,.release 66,.release 67],some (.bool true)⟩ sbrkMachine := .define (by decide +kernel)
  have entered : Step sbrkMachine ⟨.call [stringArgument "sbrk" nameCopy],
      [.acquire 70 nameCopy,.ffi_call sbrkFrame.inner.request],none⟩ sbrkCalled := .entered (by decide +kernel)
  exact ⟨_,.snoc (.snoc fresh_reached defined) entered⟩

def fourHost : Host := {absHost with memory := fun a => .ofNat (a.toNat-0x7fff),malloc := fun _ => some ⟨0xa000,by decide⟩}
def fourBuffer : JSValueConst := (JSValue.arrayBuffer ⟨some 0x8000,[1,2,3,4]⟩).argument

theorem four_resident : Resident fourHost 0x8000 [1,2,3,4] := by
  intro i inside
  have few : i < 4 := inside
  interval_cases i <;> rfl

theorem pointer_transport_abs :
    Arrives 0x2000 (.int 0x2000) ∧ Arrives 0x8001 (.string "0x8001") ∧
      (∃ native log r next, native.integer = 0x5000 ∧ Step sbrkCalled ⟨.returned native,log,some r⟩ next ∧ Arrives 0x5000 r) ∧
      ∃ text, Gives (js_topointer [fourBuffer,intArgument 1]) freshMachine.ctx (.string text) freshMachine.ctx [] ∧
        ∀ p : JSValueConst, p.value = .string text → Gives (js_toarraybuffer fourHost [p,intArgument 2]) freshMachine.ctx
          (.arrayBuffer ⟨some 0xa000,[2,3]⟩) freshMachine.ctx [] := by
  obtain ⟨first,slices⟩ := pointer_transport (by decide) (by decide) (.dlsym abs_found rfl rfl rfl)
  have second : Produced 0x8001 (.string "0x8001") := by
    have made : Gives (js_topointer [fourBuffer,intArgument 1]) freshMachine.ctx (.string "0x8001") freshMachine.ctx [] := by
      decide +kernel
    have one : (argAt [fourBuffer,intArgument 1] 1).value.numeric = some ((1 : ℤ) : ℚ) := by decide +kernel
    have buffer : (argAt [fourBuffer,intArgument 1] 0).value = .arrayBuffer ⟨some 0x8000,[1,2,3,4]⟩ := rfl
    have place : (0x8001 : Word) = 0x8000+BitVec.ofInt 64 (offsetIn 4 1) := by decide +kernel
    refine .toPointer buffer ?_ made
    exact .inr ⟨1,by decide,by decide,one,by decide,by decide,by decide,place⟩
  refine ⟨first,(pointer_transport (by decide) (by decide) second).1,?_,?_⟩
  · obtain ⟨history,reached⟩ := sbrk_reached
    let native : NativeResult := ⟨0x5000,.ofInt binary32 0,.ofInt binary64 0,.ofInt extended80 0⟩
    obtain ⟨log,back⟩ := return_possible (sound_reached reached) rfl native
    have third : Produced 0x5000 _ := .call reached rfl rfl rfl back
    have arrives := (pointer_transport (by decide) (by decide) third).1
    exact ⟨native,log,_,_,rfl,back,arrives⟩
  · have one : (intArgument 1).value.numeric = some ((1 : ℕ) : ℚ) := by decide +kernel
    have two : (intArgument 2).value.numeric = some ((2 : ℕ) : ℚ) := by decide +kernel
    obtain ⟨text,made,copies⟩ := slices fourHost 0x8000 [1,2,3,4] fourBuffer (intArgument 1) (intArgument 2) freshMachine.ctx 1 2 rfl
      four_resident (by decide) one two (by decide) (by decide) (by decide)
    refine ⟨text,made,?_⟩
    intro p same
    have copied := copies p same
    have room : (fourHost.malloc 2).isNone = false := rfl
    rwa [room,Ctx.bump_zero] at copied

end QjsFfi
