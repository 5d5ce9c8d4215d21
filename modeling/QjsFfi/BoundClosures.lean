import QjsFfi.PointerTransport

namespace QjsFfi
open BinaryFloat Activation Histories

-- function (...a) { return ffi.call(name, ...a); }
structure Closure where
  name : JSValueConst
  deriving DecidableEq

def Closure.arguments (f : Closure) (a : List JSValueConst) : List JSValueConst := f.name :: a

structure UtilDefine where
  host : Host
  ffi : Libffi
  so : JSValueConst
  name : JSValueConst
  rtype : JSValueConst
  args : List JSValueConst

def UtilDefine.handle (u : UtilDefine) : JSValueConst :=
  if u.so.value = .null ∨ u.so.value = .undefined then (JS_NewInt64 u.host.RTLD_DEFAULT).argument else u.so

-- define of util.mjs; none when an exception leaves it or it has ended the process.
def UtilDefine.run (u : UtilDefine) : C (Option Closure) := do
  let p ← js_dlsym u.host [u.handle,u.name]
  if p = .null ∨ p = .exception then pure none
  else do
    let defined ← js_define u.ffi ([u.name,p.argument,JSValue.null.argument,u.rtype]++u.args)
    if defined = .bool true then pure (some ⟨u.name⟩) else pure none

-- dlsym(so, name)
def UtilDefine.symbol (u : UtilDefine) : Word :=
  match u.handle.toInt64,u.name.cstring with
  | some n,some text => u.host.dlsym n text
  | _,_ => 0

def UtilDefine.given (u : UtilDefine) : List JSValueConst :=
  [u.name,(JS_NewInt64 u.symbol).argument,JSValue.null.argument,u.rtype]++u.args

theorem JS_NewInt64_number (a : Word) : ¬ (JS_NewInt64 a = .null ∨ JS_NewInt64 a = .exception) := by
  unfold JS_NewInt64
  split <;> simp

theorem dlsymValue_symbol (u : UtilDefine) :
    (u.symbol = 0 ∧ (dlsymValue u.host [u.handle,u.name] = .null ∨ dlsymValue u.host [u.handle,u.name] = .exception)) ∨
    (u.symbol ≠ 0 ∧ dlsymValue u.host [u.handle,u.name] = JS_NewInt64 u.symbol) := by
  have handle : argAt [u.handle,u.name] 0 = u.handle := rfl
  have name : argAt [u.handle,u.name] 1 = u.name := rfl
  unfold dlsymValue UtilDefine.symbol
  rw [handle,name]
  cases u.handle.toInt64 with
  | none => exact .inl ⟨rfl,.inr rfl⟩
  | some n =>
    cases u.name.cstring with
    | none => exact .inl ⟨rfl,.inr rfl⟩
    | some text =>
      by_cases missing : u.host.dlsym n text = 0
      · exact .inl ⟨missing,.inl (if_pos missing)⟩
      · exact .inr ⟨missing,if_neg missing⟩

theorem UtilDefine.runs {u : UtilDefine} (ran : Gives u.run m.ctx (some f) s log) :
    f.name = u.name ∧ u.symbol ≠ 0 ∧ ∃ asked answered result middle closed,
      Step m ⟨.exported u.host .dlsym asked,answered,some result⟩ middle ∧
      Step middle ⟨.define u.ffi u.given,closed,some (.bool true)⟩ ⟨s,m.stack⟩ := by
  unfold UtilDefine.run at ran
  obtain ⟨p,t,answered,rest,asks,ran,_⟩ := ran.unbind
  obtain ⟨_,_,gives,_⟩ := js_dlsym_gives u.host [u.handle,u.name] m.ctx
  obtain ⟨value,_,_⟩ := asks.unique gives
  subst value
  rcases dlsymValue_symbol u with ⟨_,absent⟩ | ⟨found,value⟩
  · rw [if_pos absent] at ran
    cases ran
  · rw [value] at asks ran
    rw [if_neg (JS_NewInt64_number _)] at ran
    obtain ⟨r,t',closed,last,defines,ran,_⟩ := ran.unbind
    split at ran
    · rename_i answer
      cases ran
      subst answer
      have asked : Step m ⟨.exported u.host .dlsym [u.handle,u.name],answered,some (JS_NewInt64 u.symbol)⟩ ⟨t,m.stack⟩ :=
        .exported asks
      exact ⟨rfl,found,_,_,_,_,_,asked,.define defines⟩
    · cases ran

-- A definition that succeeded: by define of util.mjs, which returned a closure, or
-- by define of the module itself.
inductive Definition where
  | util (u : UtilDefine) (f : Closure)
  | direct (ffi : Libffi) (given : List JSValueConst)

def Definition.ffi : Definition → Libffi
  | .util u _ => u.ffi
  | .direct ffi _ => ffi

def Definition.given : Definition → List JSValueConst
  | .util u _ => u.given
  | .direct _ given => given

def Definition.named (text : String) (d : Definition) : Bool := (argAt d.given 0).cstring = some text

inductive Script : List Definition → Machine → Prop where
  | start : Script [] .start
  | util (script : Script defs m) (ran : Gives (UtilDefine.run u) m.ctx (some f) s log) :
    Script (defs++[.util u f]) ⟨s,m.stack⟩
  | direct (script : Script defs m) (step : Step m ⟨.define ffi given,log,some (.bool true)⟩ next) :
    Script (defs++[.direct ffi given]) next
  | other (script : Script defs m) (step : Step m label next) (calm : ∀ name, label.defines name = false) :
    Script defs next

structure Script.History (defs : List Definition) (history : List Record) (m : Machine) : Prop where
  reached : Reached history m
  first : ∀ text, (firstDefine history text).map Record.action =
    (defs.find? (Definition.named text)).map (fun d => .define d.ffi d.given)
  closures : ∀ u f, .util u f ∈ defs → f.name = u.name ∧ u.symbol ≠ 0

theorem Script.History.calm (known : Script.History defs history m) (step : Step m label next)
    (calm : ∀ name, label.defines name = false) : Script.History defs (history++[label]) next := by
  refine ⟨.snoc known.reached step,?_,known.closures⟩
  intro text
  rw [firstDefine_append,calm]
  simpa using known.first text

theorem Script.History.defines (known : Script.History defs history m)
    (step : Step m ⟨.define d.ffi d.given,log,some (.bool true)⟩ next)
    (closure : ∀ u f, d = .util u f → f.name = u.name ∧ u.symbol ≠ 0) :
    Script.History (defs++[d]) (history++[⟨.define d.ffi d.given,log,some (.bool true)⟩]) next := by
  refine ⟨.snoc known.reached step,?_,?_⟩
  · intro text
    have before := known.first text
    have answers : Record.defines text ⟨.define d.ffi d.given,log,some (.bool true)⟩ = d.named text := rfl
    rw [firstDefine_append,List.find?_append,answers]
    cases earlier : defs.find? (Definition.named text) with
    | some e =>
      rw [earlier] at before
      obtain ⟨r,same,action⟩ := Option.map_eq_some_iff.mp before
      rw [same]
      exact congrArg some action
    | none =>
      rw [earlier] at before
      rw [Option.map_eq_none_iff.mp before]
      cases named : d.named text <;> simp [named]
  · intro u f member
    rcases List.mem_append.mp member with older | own
    · exact known.closures u f older
    · exact closure u f (List.mem_singleton.mp own).symm

theorem Script.traced (script : Script defs m) : ∃ history, Script.History defs history m := by
  induction script with
  | start => exact ⟨[],.nil,fun _ => rfl,by simp⟩
  | util script ran ih =>
    rename_i u f s log
    obtain ⟨history,known⟩ := ih
    obtain ⟨name,found,_,_,_,_,_,asks,defines⟩ := UtilDefine.runs ran
    have asked := known.calm asks (fun _ => rfl)
    refine ⟨_,asked.defines (d := .util u f) defines ?_⟩
    intro v g equal
    cases equal
    exact ⟨name,found⟩
  | direct script step ih =>
    rename_i ffi given log next
    obtain ⟨history,known⟩ := ih
    refine ⟨_,known.defines (d := .direct ffi given) step ?_⟩
    intro u f equal
    cases equal
  | other script step calm ih =>
    obtain ⟨history,known⟩ := ih
    exact ⟨_,known.calm step calm⟩

def declaredType (v : JSValueConst) : Option ffi_type :=
  v.cstring.bind (fun name => find_ffi_type (define_types []) (some name))

structure UtilDefine.Spells (u : UtilDefine) (p : Prototype) : Prop where
  fp : p.fp = .code u.symbol
  rtype : declaredType u.rtype = some p.rtype
  params : u.args.map declaredType = p.params.map some

def UtilDefine.Recordable (u : UtilDefine) : Prop := u.symbol.toNat ≤ 2^53 ∧ Complete u.given

theorem UtilDefine.spells {u : UtilDefine} (made : spelled u.ffi u.given = some p) (present : u.symbol ≠ 0)
    (recordable : u.Recordable) : u.Spells p := by
  obtain ⟨h,header,_,fp,_,known,found,_⟩ := spelled_parts made
  have word : h.fp = u.symbol := header_address header (JS_NewInt64_numeric recordable.1)
  have type : u.rtype.cstring = some h.rtype := (defineHeader_parts header).2.2.2
  refine ⟨?_,?_,?_⟩
  · rw [fp,word,codeOf,if_neg present]
  · rw [declaredType,type,Option.bind_some]
    exact found
  · unfold declaredType
    generalize define_types [] = head at known ⊢
    exact (recorded_complete (s := ⟨head,[],false,0⟩) known).mpr recordable.2

structure Calls (request : Request) (given : List JSValueConst) (p : Prototype) : Prop where
  fp : request.fp = p.fp
  rtype : request.rtype = p.rtype
  values : ∃ arg, (∀ i, Stands (arg i) (argumentAt given i)) ∧ request.values = valuesOf p.params arg

theorem Script.History.dispatches (known : Script.History defs history m) (returned : .util u f ∈ defs) :
    ∃ text first addr p, u.name.cstring = some text ∧ defs.find? (Definition.named text) = some first ∧
      spelled first.ffi first.given = some p ∧ m.ctx.function text = some (nodeOf addr p) := by
  obtain ⟨_,found⟩ := known.closures u f returned
  obtain ⟨text,named⟩ : ∃ text, u.name.cstring = some text := by
    unfold UtilDefine.symbol at found
    cases named : u.name.cstring with
    | some text => exact ⟨text,rfl⟩
    | none => simp [named] at found
  have listed : (defs.find? (Definition.named text)).isSome = true := by
    rw [List.find?_isSome]
    exact ⟨_,returned,decide_eq_true named⟩
  obtain ⟨first,least⟩ := Option.isSome_iff_exists.mp listed
  have action := known.first text
  rw [least] at action
  obtain ⟨r,dispatched,made⟩ := Option.map_eq_some_iff.mp action
  obtain ⟨addr,p,prototype,registered⟩ := (sound_reached known.reached).known text r dispatched
  unfold Record.prototype at prototype
  rw [made] at prototype
  exact ⟨text,first,addr,p,named,least,prototype,registered⟩

theorem closure_calls_first (script : Script defs m) (returned : .util u f ∈ defs) (a : List JSValueConst) :
    (∃ opening r entered, Step m ⟨.call (f.arguments a),opening,r⟩ entered) ∧
    ((∀ v ∈ callArguments (f.arguments a), Convertible v) →
      ∀ opening r entered, Step m ⟨.call (f.arguments a),opening,r⟩ entered → r = none) ∧
    ∀ opening entered, Step m ⟨.call (f.arguments a),opening,none⟩ entered →
      ∃ text first p request, u.name.cstring = some text ∧ defs.find? (Definition.named text) = some first ∧
        spelled first.ffi first.given = some p ∧ invocations opening = [request] ∧ Calls request (f.arguments a) p ∧
        ∀ v g, first = .util v g → v.Recordable → v.Spells p := by
  obtain ⟨history,known⟩ := script.traced
  have sound := sound_reached known.reached
  have own : argAt (f.arguments a) 0 = u.name := (known.closures u f returned).1
  obtain ⟨text,first,addr,p,named,least,declares,registered⟩ := known.dispatches returned
  refine ⟨call_possible sound _,?_,?_⟩
  · intro convertible opening r entered step
    have invokes : Invokes m.ctx (f.arguments a) (nodeOf addr p) := ⟨⟨text,own ▸ named,registered⟩,convertible⟩
    exact (call_invokes sound invokes step).1
  · intro opening entered step
    cases step with
    | entered ran =>
      have outcome := call_parts sound.registered ran
      obtain ⟨addr',q,invokes,fp,rtype,one⟩ := outcome.invokes
      have equal : p = q := nodeOf_injective (Invokes.unique ⟨⟨text,own ▸ named,registered⟩,invokes.2⟩ invokes)
      subst equal
      obtain ⟨arg,stands,values⟩ := outcome.delivers (own ▸ named) registered (nodeOf_types addr p)
      refine ⟨text,first,p,_,named,least,declares,one,⟨fp,rtype,arg,stands,values⟩,?_⟩
      intro v g util recordable
      subst util
      exact UtilDefine.spells declares (known.closures v g (List.mem_of_find?_eq_some least)).2 recordable

def twoHost : Host :=
  ⟨fun _ _ => 0,fun _ => 0,fun so _ => if so = 1 then 0x2000 else 0x3000,0,fun _ => 0,fun _ => .string "",fun _ => none,0,0,0⟩
def absOf (so : BitVec 32) : UtilDefine :=
  ⟨twoHost,plainLibffi,intArgument so,stringArgument "abs" nameCopy,stringArgument "int" resultCopy,[stringArgument "int" paramCopy]⟩
def absClosure : Closure := ⟨stringArgument "abs" nameCopy⟩

def twoMachine (fresh : Nat) : Machine := ⟨⟨define_types [],[nodeOf 70 absPrototype],false,fresh⟩,[]⟩
def twoOpening : List Event :=
  [.acquire 77 nameCopy,.malloc 78,.malloc 79,.malloc 80,.ffi_call {absRequest with f := 70}]

theorem first_abs : Gives (absOf 1).run freshMachine.ctx (some absClosure) (twoMachine 73).ctx
    [.acquire 66 nameCopy,.release 66,.acquire 67 nameCopy,.acquire 68 resultCopy,
     .acquire 69 paramCopy,.malloc 70,.malloc 71,.malloc 72,.ffi_prep_cif absPrototype.cif true,
     .release 67,.release 68,.release 69] := by decide +kernel

theorem second_abs : Gives (absOf 2).run (twoMachine 73).ctx (some absClosure) (twoMachine 77).ctx
    [.acquire 73 nameCopy,.release 73,.acquire 74 nameCopy,.acquire 75 resultCopy,
     .acquire 76 paramCopy,.release 74,.release 75,.release 76] := by decide +kernel

theorem two_script : Script [.util (absOf 1) absClosure,.util (absOf 2) absClosure] (twoMachine 77) := by
  have initialised : Script [] freshMachine := .other .start fresh_initialised (fun _ => rfl)
  exact .util (.util initialised first_abs) second_abs

def twoFrame : JsFrame :=
  ⟨⟨77,nameCopy,"abs"⟩,.alloc MAX_PARAMETERS,0,⟨70,some 78,some 79,some 80,{absRequest with f := 70}⟩⟩
def twoCalled : Machine := ⟨{(twoMachine 77).ctx with fresh := 81},[twoFrame]⟩

theorem two_entered : Step (twoMachine 77) ⟨.call (absClosure.arguments [intArgument (-5)]),twoOpening,none⟩ twoCalled :=
  .entered (by decide +kernel)

theorem absOf_recordable (small : (absOf so).symbol.toNat ≤ 2^53) : (absOf so).Recordable := by
  have few : ((absOf so).given.drop 4).length ≤ MAX_PARAMETERS := Nat.succ_le_succ (Nat.zero_le 29)
  refine ⟨small,few,?_⟩
  intro v member
  have last : v = stringArgument "int" paramCopy := List.mem_singleton.mp member
  rw [last]
  rfl

-- The closure made last calls the function that was defined first.
theorem closure_calls_first_abs : ∃ p request, spelled plainLibffi (absOf 1).given = some p ∧
    invocations twoOpening = [request] ∧ Calls request (absClosure.arguments [intArgument (-5)]) p ∧ (absOf 1).Spells p := by
  obtain ⟨text,first,p,request,named,least,made,one,calls,spells⟩ :=
    (closure_calls_first (u := absOf 2) two_script (by simp) [intArgument (-5)]).2.2 _ _ two_entered
  have own : text = "abs" := Option.some.inj (named.symm.trans rfl)
  subst own
  have earliest : first = .util (absOf 1) absClosure := Option.some.inj (least.symm.trans rfl)
  subst earliest
  exact ⟨p,request,made,one,calls,spells _ _ rfl (absOf_recordable (by decide))⟩

theorem bound_closures_interfere :
    ¬ ∀ defs m u f a opening entered, Script defs m → .util u f ∈ defs → u.Recordable →
      Step m ⟨.call (f.arguments a),opening,none⟩ entered →
      ∃ p request, invocations opening = [request] ∧ Calls request (f.arguments a) p ∧ u.Spells p := by
  intro independent
  obtain ⟨p,request,one,calls,spells⟩ := independent _ _ (absOf 2) _ _ _ _ two_script (by simp)
    (absOf_recordable (by decide)) two_entered
  have own : {absRequest with f := 70} = request := (List.cons.inj one).1
  have fp := calls.fp
  rw [← own,spells.fp] at fp
  have other : (absOf 2).symbol = 0x3000 := by decide
  rw [other] at fp
  exact absurd (CodePointer.code.inj fp) (by decide)

end QjsFfi
