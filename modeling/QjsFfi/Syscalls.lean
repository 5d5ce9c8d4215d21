import QjsFfi.TypeAliases
import QjsFfi.BoundClosures

namespace QjsFfi
open BinaryFloat Activation Histories

-- An entry of the syscall table of socket.js: foreign(name, ret, ...args).
structure Syscall where
  name : String
  ret : String
  args : List String
  deriving DecidableEq

def Syscall.select : Syscall := ⟨"select","int",["int","buffer","buffer","buffer","buffer"]⟩
def Syscall.recv : Syscall := ⟨"recv","int",["int","buffer","size_t","int"]⟩
def Syscall.send : Syscall := ⟨"send","int",["int","buffer","size_t","int"]⟩

def syscall : List Syscall :=
  [⟨"socket","int",["int","int","int"]⟩,
   .select,
   ⟨"connect","int",["int","void *","size_t"]⟩,
   ⟨"bind","int",["int","void *","size_t"]⟩,
   ⟨"listen","int",["int","int"]⟩,
   ⟨"accept","int",["int","buffer","buffer"]⟩,
   ⟨"getsockopt","int",["int","int","int","void *","buffer"]⟩,
   ⟨"setsockopt","int",["int","int","int","void *","size_t"]⟩,
   .recv,
   ⟨"recvfrom","int",["int","buffer","size_t","int","buffer","buffer"]⟩,
   .send,
   ⟨"sendto","int",["int","buffer","size_t","int","buffer","size_t"]⟩]

structure Loading where
  host : Host
  ffi : Libffi
  copy : String → Address

def Loading.literal (l : Loading) (text : String) : JSValueConst := stringArgument text (l.copy text)
def Loading.RTLD_DEFAULT (l : Loading) : JSValueConst := (JS_NewInt64 l.host.RTLD_DEFAULT).argument

-- foreign of socket.js; what define answers is not looked at.
def foreign (l : Loading) (row : Syscall) : C (Option Closure) := do
  let name := l.literal row.name
  let fp ← js_dlsym l.host [l.RTLD_DEFAULT,name]
  if fp = .exception then pure none
  else do
    let _ ← js_define l.ffi ([name,fp.argument,JSValue.null.argument,l.literal row.ret]++row.args.map l.literal)
    pure (some ⟨name⟩)

def Loading.fp (l : Loading) (row : Syscall) : JSValue := dlsymValue l.host [l.RTLD_DEFAULT,l.literal row.name]

def Loading.given (l : Loading) (row : Syscall) : List JSValueConst :=
  [l.literal row.name,(l.fp row).argument,JSValue.null.argument,l.literal row.ret]++row.args.map l.literal
def Loading.closure (l : Loading) (row : Syscall) : Closure := ⟨l.literal row.name⟩

def Loaded (history : List Record) (l : Loading) (row : Syscall) : Prop := DefinedBy history row.name l.ffi (l.given row)

theorem literal_cstring (l : Loading) (text : String) : (l.literal text).cstring = some (cText text) := rfl

-- Source texts that C copies whole, and no more parameters than define takes.
def Syscall.Literal (row : Syscall) : Prop :=
  (∀ text ∈ row.name :: row.ret :: row.args, cText text = text) ∧ row.args.length ≤ MAX_PARAMETERS

instance : DecidablePred Syscall.Literal := fun _ => inferInstanceAs (Decidable (_ ∧ _))

theorem syscall_literal : ∀ row ∈ syscall, row.Literal := by decide
theorem syscall_names : (syscall.map Syscall.name).Nodup := by decide

theorem JS_NewInt64_toInt64 (a : Word) : (JS_NewInt64 a).argument.toInt64.isSome = true := by
  unfold JS_NewInt64
  split <;> rfl

def Loading.symbol (l : Loading) (row : Syscall) : Word := l.host.dlsym (l.RTLD_DEFAULT.toInt64.getD 0) row.name

section Literals
variable {row : Syscall} (literal : row.Literal)
include literal

theorem name_literal (l : Loading) : (l.literal row.name).cstring = some row.name := by
  rw [literal_cstring,literal.1 row.name (by simp)]

theorem fp_symbol (l : Loading) : l.fp row = if l.symbol row = 0 then .null else JS_NewInt64 (l.symbol row) := by
  obtain ⟨n,handle⟩ := Option.isSome_iff_exists.mp (JS_NewInt64_toInt64 l.host.RTLD_DEFAULT)
  have same : l.RTLD_DEFAULT.toInt64 = some n := handle
  have first : argAt [l.RTLD_DEFAULT,l.literal row.name] 0 = l.RTLD_DEFAULT := rfl
  have second : argAt [l.RTLD_DEFAULT,l.literal row.name] 1 = l.literal row.name := rfl
  simp only [Loading.fp,dlsymValue,Loading.symbol,first,second,same,name_literal literal,Option.getD_some]

theorem fp_present (l : Loading) : l.fp row ≠ .exception := by
  rw [fp_symbol literal]
  exact found_present _

theorem recorded_given (l : Loading) : recorded (l.given row) = row.args := by
  have types : typeArguments (l.given row) = row.args.map l.literal := by
    refine List.take_of_length_le ?_
    change (row.args.map l.literal).length ≤ MAX_PARAMETERS
    rw [List.length_map]
    exact literal.2
  have texts : (row.args.map l.literal).map JSValueConst.cstring = row.args.map some := by
    rw [List.map_map]
    refine List.map_congr_left ?_
    intro text member
    change (l.literal text).cstring = some text
    rw [literal_cstring,literal.1 text (by simp [member])]
  have full : ∀ cell ∈ row.args.map some, cell.isSome = true := by simp
  rw [recorded,types,texts]
  exact List.map_injective_iff.mpr (Option.some_injective _) (leading_complete full)

theorem given_name (l : Loading) : (argAt (l.given row) 0).cstring = some row.name := name_literal literal l

theorem foreign_runs (ran : Gives (foreign l row) m.ctx (some f) s log) :
    f = l.closure row ∧ ∃ answered closed r middle, Step m ⟨.exported l.host .dlsym [l.RTLD_DEFAULT,l.literal row.name],answered,some (l.fp row)⟩ middle ∧
      Step middle ⟨.define l.ffi (l.given row),closed,some r⟩ ⟨s,m.stack⟩ := by
  unfold foreign at ran
  obtain ⟨fp,t,answered,rest,asks,ran,_⟩ := ran.unbind
  obtain ⟨_,_,gives,_⟩ := js_dlsym_gives l.host [l.RTLD_DEFAULT,l.literal row.name] m.ctx
  obtain ⟨value,_,_⟩ := asks.unique gives
  have found : fp = l.fp row := value
  subst found
  rw [if_neg (fp_present literal l)] at ran
  obtain ⟨r,t',closed,last,defines,ran,_⟩ := ran.unbind
  cases ran
  have asked : Step m ⟨.exported l.host .dlsym [l.RTLD_DEFAULT,l.literal row.name],answered,some (l.fp row)⟩ ⟨t,m.stack⟩ :=
    .exported asks
  exact ⟨rfl,_,_,_,_,asked,.define defines⟩

theorem foreign_history (reached : Reached history m)
    (ran : Gives (foreign l row) m.ctx (some f) s log) :
    f = l.closure row ∧ ∃ loading, Reached (history++loading) ⟨s,m.stack⟩ ∧
      (∀ name, name ≠ row.name → firstDefine (history++loading) name = firstDefine history name) ∧
      (firstDefine history row.name = none → firstDefine (history++loading) row.name = none ∨ Loaded (history++loading) l row) := by
  obtain ⟨closure,answered,closed,r,middle,asked,defined⟩ := foreign_runs literal ran
  let ask : Record := ⟨.exported l.host .dlsym [l.RTLD_DEFAULT,l.literal row.name],answered,some (l.fp row)⟩
  let define : Record := ⟨.define l.ffi (l.given row),closed,some r⟩
  have after : Reached (history++[ask]++[define]) ⟨s,m.stack⟩ := .snoc (.snoc reached asked) defined
  have named := given_name literal l
  have first : ∀ name, firstDefine (history++[ask]++[define]) name =
      (firstDefine history name).or (if define.defines name then some define else none) := by
    intro name
    have calm : ask.defines name = false := rfl
    rw [firstDefine_append,firstDefine_append,calm,if_neg Bool.false_ne_true,Option.or_none]
  rw [List.append_assoc] at after first
  refine ⟨closure,[ask]++[define],after,?_,?_⟩
  · intro name other
    have silent : define.defines name = false := by
      by_cases yes : r = .bool true <;> simp [define,Record.defines,yes,named,Ne.symm other]
    rw [first,silent,if_neg Bool.false_ne_true,Option.or_none]
  · intro free
    rw [first,free,Option.none_or]
    cases own : define.defines row.name with
    | false => exact .inl rfl
    | true =>
      refine .inr ⟨define,?_,rfl⟩
      rw [first,free,Option.none_or,own]
      rfl

end Literals

-- Once foreign has run the name stands for its definition, unless the name was taken or refused.
theorem foreign_loads (reached : Reached history m) (listed : row ∈ syscall) (free : firstDefine history row.name = none)
    (ran : Gives (foreign l row) m.ctx (some f) s log) (registered : (s.function row.name).isSome = true) :
    f = l.closure row ∧ ∃ loading, Reached (history++loading) ⟨s,m.stack⟩ ∧ Loaded (history++loading) l row := by
  obtain ⟨closure,loading,after,_,own⟩ := foreign_history (syscall_literal row listed) reached ran
  rcases own free with undefined | loaded
  · rw [(sound_reached after).unknown row.name undefined] at registered
    cases registered
  · exact ⟨closure,loading,after,loaded⟩

theorem Loaded.later (loaded : Loaded history l row) (more : List Record) : Loaded (history++more) l row := by
  obtain ⟨r,first,action⟩ := loaded
  refine ⟨r,?_,action⟩
  rw [firstDefine,List.find?_append,show history.find? (Record.defines row.name) = some r from first]
  rfl

structure LiveBuffer where
  data : Word
  bytes : List UInt8
  present : data ≠ 0

inductive Passed where
  | null
  | number (d : Datum)
  | buffer (b : LiveBuffer)

def JSValue.datum : JSValue → Option Datum
  | .int i => some (.ofInt i.toInt)
  | .float64 d => some d.datum
  | _ => none

def Passed.Stands (v : JSValueConst) : Passed → Prop
  | .null => v.value = .null
  | .number d => v.value.datum = some d
  | .buffer b => v.value = .arrayBuffer ⟨some b.data,b.bytes⟩

theorem Passed.Stands.convertible {p : Passed} (stands : p.Stands v) : Convertible v := by
  unfold Convertible
  cases p with
  | null =>
    have value : v.value = .null := stands
    rw [value]
    trivial
  | number d =>
    have value : v.value.datum = some d := stands
    cases same : v.value with
    | int | float64 => trivial
    | _ =>
      rw [same] at value
      cases value
  | buffer b =>
    have value : v.value = .arrayBuffer ⟨some b.data,b.bytes⟩ := stands
    rw [value]
    exact b.present

theorem passed_convertible {ps : List Passed} {vs : List JSValueConst} (passed : List.Forall₂ (fun p v => p.Stands v) ps vs) :
    ∀ v ∈ vs, Convertible v := by
  induction passed with
  | nil => intro v member; cases member
  | cons stands rest ih =>
    intro v member
    rcases List.mem_cons.mp member with rfl | later
    · exact stands.convertible
    · exact ih v later

theorem datum_numeric {n : ℤ} {r : JSValue} (number : r.datum = some (.ofInt n)) : r.numeric = some (n : ℚ) := by
  cases r with
  | int i =>
    have same : Datum.ofInt i.toInt = .ofInt n := Option.some.inj number
    have read := toRat_ofInt i.toInt
    rw [same,toRat_ofInt] at read
    exact read.symm
  | float64 d =>
    have same : d.datum = .ofInt n := Option.some.inj number
    rw [JSValue.numeric,same,toRat_ofInt]
  | _ => cases number

theorem datum_quantity {d : Datum} {v : JSValueConst} (open_ended : d.truncate = none) (number : v.value.datum = some d) :
    v.quantity = some (.number d) := by
  unfold JSValueConst.quantity
  cases value : v.value with
  | int i =>
    rw [value] at number
    rw [← Option.some.inj number,truncate_ofInt] at open_ended
    cases open_ended
  | float64 x =>
    rw [value] at number
    exact congrArg (fun d => some (Quantity.number d)) (Option.some.inj number)
  | _ =>
    rw [value] at number
    cases number

theorem buffer_quantity {b : LiveBuffer} {v : JSValueConst} (stands : Passed.Stands v (.buffer b)) :
    v.quantity = some (.integer b.data.toInt) := by
  have value : v.value = .arrayBuffer ⟨some b.data,b.bytes⟩ := stands
  simp only [JSValueConst.quantity,value]

theorem number_delivered {n : ℤ} {v : JSValueConst} (passed : Passed.Stands v (.number (.ofInt n))) (lower : -2^63 ≤ n) (upper : n < 2^63)
    (stands : Stands c (v.quantity.getD (.integer 0))) : ∃ q, delivered t c = conv t q ∧ q.whole = n := by
  obtain ⟨_,q,means,whole,truncated⟩ := numeric_quantity (datum_numeric passed)
  rw [means,Option.getD_some] at stands
  refine ⟨q,delivered_conv stands ?_,whole⟩
  intro d _ same
  exact ⟨n,truncated d same,lower,upper⟩

theorem int_read {n : ℤ} {v : JSValueConst} (passed : Passed.Stands v (.number (.ofInt n))) (lower : -2^31 ≤ n) (upper : n < 2^31)
    (stands : Stands c (v.quantity.getD (.integer 0))) : ffi_type.sint32.reads (delivered .sint32 c) = some n := by
  obtain ⟨q,delivers,whole⟩ := number_delivered (t := .sint32) passed (by omega) (by omega) stands
  rw [delivers,conv,whole]
  exact congrArg some (BitVec.toInt_ofInt_eq_self (by decide) lower upper)

-- A NaN or an infinity becomes the integer indefinite value, and that reads as 0 where 32 bits are taken.
theorem indefinite_delivered {d : Datum} {v : JSValueConst} (passed : Passed.Stands v (.number d)) (open_ended : d.truncate = none)
    (stands : Stands c (v.quantity.getD (.integer 0))) : delivered .sint32 c = .integral 32 0 := by
  rw [datum_quantity open_ended passed,Option.getD_some] at stands
  generalize quantity : Quantity.number d = q at stands
  cases stands with
  | integral w => cases quantity
  | floating x =>
    have same : (x.convert extended80).datum = d := by
      rw [Number.convert_exact (x.fits.widen wide_exact)]
      exact (Quantity.number.inj quantity).symm
    simp only [delivered,wordOf,longLongOf,same,open_ended]
    rfl

theorem indefinite_read {d : Datum} {v : JSValueConst} (passed : Passed.Stands v (.number d)) (open_ended : d.truncate = none)
    (stands : Stands c (v.quantity.getD (.integer 0))) : ffi_type.sint32.reads (delivered .sint32 c) = some 0 := by
  rw [indefinite_delivered passed open_ended stands]
  rfl

theorem buffer_delivered {b : LiveBuffer} {v : JSValueConst} (passed : Passed.Stands v (.buffer b))
    (stands : Stands c (v.quantity.getD (.integer 0))) : delivered .pointer c = .pointer b.data := by
  rw [buffer_quantity passed,Option.getD_some] at stands
  generalize quantity : Quantity.integer b.data.toInt = q at stands
  cases stands with
  | integral w =>
    have same : w = b.data := BitVec.toInt_inj.mp (Quantity.integer.inj quantity).symm
    rw [← same]
    rfl
  | floating x => cases quantity

theorem callArguments_closure (f : Closure) {vs : List JSValueConst} (few : vs.length ≤ MAX_PARAMETERS) :
    callArguments (f.arguments vs) = vs := List.take_of_length_le few

theorem argumentAt_closure (f : Closure) {vs : List JSValueConst} (few : vs.length ≤ MAX_PARAMETERS) (given : vs[i]? = some v) :
    argumentAt (f.arguments vs) i = v.quantity.getD (.integer 0) := by
  simp only [argumentAt,callArguments_closure f few,given]

theorem Loaded.node {params : List ffi_type} (reached : Reached history m) (loaded : Loaded history l row) (literal : row.Literal)
    (types : knownTypes (define_types []) row.args = some params) :
    ∃ addr p, m.ctx.function row.name = some (nodeOf addr p) ∧ p.params = params ∧
      (l.symbol row ≠ 0 → (l.symbol row).toNat ≤ 2^53 → p.fp = .code (l.symbol row)) := by
  obtain ⟨r,first,action⟩ := loaded
  obtain ⟨addr,p,prototype,found⟩ := (sound_reached reached).known row.name r first
  simp only [Record.prototype,action] at prototype
  obtain ⟨h,header,_,fp,_,known,_⟩ := spelled_parts prototype
  rw [recorded_given literal l,types] at known
  refine ⟨addr,p,found,(Option.some.inj known).symm,?_⟩
  intro present small
  have number : (argAt (l.given row) 1).value.numeric = some (((l.symbol row).toNat : ℤ) : ℚ) := by
    change (l.fp row).numeric = _
    rw [fp_symbol literal,if_neg present]
    exact JS_NewInt64_numeric small
  rw [fp,header_address header number,codeOf,if_neg present]

theorem Loaded.delivers {params : List ffi_type} {vs : List JSValueConst} (reached : Reached history m) (loaded : Loaded history l row)
    (literal : row.Literal) (types : knownTypes (define_types []) row.args = some params) (few : vs.length ≤ MAX_PARAMETERS)
    (convertible : ∀ v ∈ vs, Convertible v) (step : Step m ⟨.call ((l.closure row).arguments vs),opening,r⟩ entered) :
    r = none ∧ ∃ request arg, invocations opening = [request] ∧ request.values = valuesOf params arg ∧
      (∀ i v, vs[i]? = some v → Stands (arg i) (v.quantity.getD (.integer 0))) ∧
      (l.symbol row ≠ 0 → (l.symbol row).toNat ≤ 2^53 → request.fp = .code (l.symbol row)) := by
  have sound := sound_reached reached
  obtain ⟨addr,p,found,own,symbol⟩ := loaded.node reached literal types
  have named : (argAt ((l.closure row).arguments vs) 0).cstring = some row.name := name_literal literal l
  have invokes : Invokes m.ctx ((l.closure row).arguments vs) (nodeOf addr p) := by
    refine ⟨⟨row.name,named,found⟩,?_⟩
    rwa [callArguments_closure _ few]
  obtain ⟨returns,frame,_,outcome,fp,_,one⟩ := call_invokes sound invokes step
  obtain ⟨arg,stands,values⟩ := outcome.delivers named found (nodeOf_types addr p)
  refine ⟨returns,_,arg,one,own ▸ values,?_,fun present small => fp.trans (symbol present small)⟩
  intro i v given
  rw [← argumentAt_closure (l.closure row) few given]
  exact stands i

theorem Loaded.calls {params : List ffi_type} {vs : List JSValueConst} (reached : Reached history m) (loaded : Loaded history l row)
    (listed : row ∈ syscall) (types : knownTypes (define_types []) row.args = some params) (few : vs.length ≤ MAX_PARAMETERS)
    (convertible : ∀ v ∈ vs, Convertible v) (step : Step m ⟨.call ((l.closure row).arguments vs),opening,r⟩ entered) :
    r = none ∧ ∃ request arg, invocations opening = [request] ∧ request.values = valuesOf params arg ∧
      (∀ i v, vs[i]? = some v → Stands (arg i) (v.quantity.getD (.integer 0))) ∧
      (l.symbol row ≠ 0 → (l.symbol row).toNat ≤ 2^53 → request.fp = .code (l.symbol row)) :=
  loaded.delivers reached (syscall_literal row listed) types few convertible step

def plainLoading : Loading :=
  ⟨⟨fun _ _ => 0,fun _ => 0,fun _ _ => 0x2000,0,fun _ => 0,fun _ => .string "",fun _ => none,0,0,0⟩,plainLibffi,fun _ => nameCopy⟩

end QjsFfi
