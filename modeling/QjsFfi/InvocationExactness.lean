import QjsFfi.RegistryHistory

namespace QjsFfi
open BinaryFloat Activation Histories

def Convertible (v : JSValueConst) : Prop :=
  match v.value with
  | .null | .bool _ | .int _ | .float64 _ => True
  | .string _ => v.copy.isSome = true
  | .arrayBuffer ⟨some data,_⟩ => data ≠ 0
  | _ => False

theorem convertible_iff (v : JSValueConst) : (carrier v).isSome = true ↔ Convertible v := by
  unfold carrier Convertible
  cases v.value with
  | string text => cases v.copy <;> simp
  | arrayBuffer buffer =>
    obtain ⟨data,bytes⟩ := buffer
    cases data with
    | none => simp
    | some data => by_cases zero : data = 0 <;> simp [zero]
  | _ => simp

def Invokes (s : Ctx) (given : List JSValueConst) (f : function_s) : Prop :=
  (∃ name, (argAt given 0).cstring = some name ∧ s.function name = some f) ∧
    ∀ v ∈ callArguments given, Convertible v

def invocations (log : List Event) : List Request :=
  log.filterMap (fun e => match e with | .ffi_call request => some request | _ => none)

theorem invocations_opened (name : CString) (held : List CString) : invocations (opened name held) = [] := by
  simp [invocations,opened,acquisitions]

theorem invocations_closed (name : CString) (held : List CString) : invocations (closed name held) = [] := by
  simp [invocations,closed,releases]

theorem invocations_append (x y : List Event) : invocations (x++y) = invocations x++invocations y :=
  List.filterMap_append

theorem converted_iff (s : Ctx) (given : List JSValueConst) :
    (callScan s given).converted = true ↔ ∀ v ∈ callArguments given, Convertible v := by
  rw [callScan,scan_converted]
  simp only [convertible_iff]

theorem CallOutcome.invokes (outcome : CallOutcome s given (.inr frame) t log) :
    ∃ addr p, Invokes s given (nodeOf addr p) ∧ frame.inner.request.fp = p.fp ∧
      frame.inner.request.rtype = p.rtype ∧ invocations log = [frame.inner.request] := by
  cases outcome with
  | dispatched name named converted addr p found few =>
    have text : (argAt given 0).cstring = some name.text := by
      rw [← asCString_text _ s.fresh,named]
      rfl
    refine ⟨addr,p,⟨⟨name.text,text,found⟩,(converted_iff s given).mp converted⟩,?_,?_,?_⟩
    · simp [frameOf,requestOf]
    · simp [frameOf,requestOf]
    · rw [invocations_append,invocations_append,invocations_opened]
      simp [invocations,scratchLog,frameOf]

theorem CallOutcome.refuses (outcome : CallOutcome s given (.inl r) t log) :
    (∀ f, ¬ Invokes s given f) ∧ r = .exception ∧ invocations log = [] ∧ t.function_list = s.function_list := by
  cases outcome with
  | unnamed failed =>
    refine ⟨?_,rfl,rfl,rfl⟩
    intro f ⟨⟨name,text,_⟩,_⟩
    rw [failed] at text
    cases text
  | unconverted name named failed =>
    refine ⟨?_,rfl,by rw [invocations_append,invocations_opened,invocations_closed]; rfl,rfl⟩
    intro f ⟨_,all⟩
    rw [(converted_iff s given).mpr all] at failed
    cases failed
  | unknown name named converted missing =>
    refine ⟨?_,rfl,?_,rfl⟩
    · intro f ⟨⟨other,text,found⟩,_⟩
      rw [← asCString_text _ s.fresh,named] at text
      have same : name.text = other := Option.some.inj text
      rw [← same,Ctx.function,missing] at found
      cases found
    · rw [invocations_append,invocations_append,invocations_opened,invocations_closed]
      rfl

theorem JS_NewFloat64_number (d : Double) : JS_NewFloat64 d ≠ .exception := by
  unfold JS_NewFloat64
  split
  · split <;> simp
  · simp

theorem return_invokes (step : Step m ⟨.returned native,log,some r⟩ next) (sound : Sound history m) :
    invocations log = [] := by
  cases step with
  | returned innermost ran =>
    rename_i frame _ _
    obtain ⟨held,addr,p,waiting⟩ := sound.frames frame (innermost ▸ List.mem_cons_self)
    obtain ⟨_,_,rfl⟩ := ran.unique (finish_gives sound.addresses waiting native)
    rw [invocations_append,invocations_closed]
    simp [invocations]

theorem return_possible (sound : Sound history m) (innermost : m.stack = frame :: rest) (native : NativeResult) :
    ∃ log, Step m ⟨.returned native,log,
      some (JS_NewFloat64 ((resultOf frame.inner.request.rtype native).convert binary64))⟩ ⟨m.ctx,rest⟩ := by
  obtain ⟨held,addr,p,waiting⟩ := sound.frames frame (innermost ▸ List.mem_cons_self)
  obtain ⟨first,carried,inner⟩ := waiting.inner
  have ran := finish_gives sound.addresses waiting native
  have rtype : frame.inner.request.rtype = p.rtype := by rw [inner,innerFrame_request]; rfl
  rw [rtype]
  exact ⟨_,.returned innermost ran⟩

theorem call_possible (sound : Sound history m) (given : List JSValueConst) :
    ∃ log r next, Step m ⟨.call given,log,r⟩ next := by
  obtain ⟨out,s,log,ran,_⟩ := js_call_prepare_gives given m.ctx sound.registered
  cases out with
  | inl r => exact ⟨log,some r,_,.refused ran⟩
  | inr frame => exact ⟨log,none,_,.entered ran⟩

theorem Invokes.unique (one : Invokes s given f) (two : Invokes s given g) : f = g := by
  obtain ⟨⟨name,text,found⟩,_⟩ := one
  obtain ⟨⟨other,text',found'⟩,_⟩ := two
  rw [text] at text'
  cases text'
  exact Option.some.inj (found.symm.trans found')

theorem call_list (sound : Sound history m) (step : Step m ⟨.call given,log,r⟩ next) :
    next.ctx.function_list = m.ctx.function_list := by
  cases step with
  | refused ran =>
    obtain ⟨_,_,rfl⟩ := (call_parts sound.registered ran).state
    rfl
  | entered ran =>
    obtain ⟨_,_,state⟩ := (call_parts sound.registered ran).state
    rw [state]
    rfl

theorem call_invokes (sound : Sound history m) (invokes : Invokes m.ctx given f) (step : Step m ⟨.call given,log,r⟩ next) :
    r = none ∧ ∃ frame, next.stack = frame :: m.stack ∧ CallOutcome m.ctx given (.inr frame) next.ctx log ∧
      frame.inner.request.fp = f.fp ∧ frame.inner.request.rtype = f.rtype ∧ invocations log = [frame.inner.request] := by
  cases step with
  | refused ran => exact absurd invokes ((call_parts sound.registered ran).refuses.1 f)
  | entered ran =>
    have outcome := call_parts sound.registered ran
    obtain ⟨addr,p,own,fp,rtype,one⟩ := outcome.invokes
    have same : f = nodeOf addr p := invokes.unique own
    subst same
    exact ⟨rfl,_,rfl,outcome,fp,rtype,one⟩

theorem call_refuses (sound : Sound history m) (never : ∀ f, ¬ Invokes m.ctx given f)
    (step : Step m ⟨.call given,log,r⟩ next) : invocations log = [] ∧ r = some .exception ∧ next.stack = m.stack := by
  cases step with
  | refused ran =>
    obtain ⟨_,rfl,silent,_⟩ := (call_parts sound.registered ran).refuses
    exact ⟨silent,rfl,rfl⟩
  | entered ran =>
    obtain ⟨addr,p,invokes,_⟩ := (call_parts sound.registered ran).invokes
    exact absurd invokes (never _)

theorem invocations_none (silent : ∀ request, .ffi_call request ∉ log) : invocations log = [] := by
  induction log with
  | nil => rfl
  | cons e rest ih =>
    have later := ih (fun request member => silent request (List.mem_cons_of_mem _ member))
    cases e with
    | ffi_call request => exact absurd List.mem_cons_self (silent request)
    | _ => exact later

theorem invoked_by_call (reached : Reached history m) (step : Step m label next)
    (other : ∀ given, label.action ≠ .call given) : invocations label.events = [] := by
  have sound := sound_reached reached
  cases id step with
  | init ran =>
    obtain ⟨n,_,rfl,_⟩ := js_init_parts ran
    exact invocations_none (by simp)
  | define ran =>
    obtain ⟨_,_,_,_,trace⟩ := define_parts ran
    exact invocations_none trace.silent
  | refused | entered => exact absurd rfl (other _)
  | returned => exact return_invokes step sound
  | exported ran =>
    rename_i r s log host e given
    obtain ⟨_,_,_,gives,trace,_⟩ := e.run_gives host given m.ctx
    obtain ⟨_,_,rfl⟩ := ran.unique gives
    exact invocations_none trace.silent
  | caught => rfl

theorem invoked_exactly (reached : Reached history m) (given : List JSValueConst) :
    (∃ log r next, Step m ⟨.call given,log,r⟩ next) ∧
    ∀ log r next, Step m ⟨.call given,log,r⟩ next → next.ctx.function_list = m.ctx.function_list ∧
      ((∀ f, ¬ Invokes m.ctx given f) → invocations log = [] ∧ r = some .exception ∧ next.stack = m.stack) ∧
      ∀ f, Invokes m.ctx given f → ∃ request frame, invocations log = [request] ∧ request.fp = f.fp ∧ r = none ∧
        next.stack = frame :: m.stack ∧
        ∀ inside suspended, Runs Step next inside suspended → suspended.stack = next.stack → ∀ native,
          let number := JS_NewFloat64 ((resultOf f.rtype native).convert binary64)
          number ≠ .exception ∧
          (∃ closing after, Step suspended ⟨.returned native,closing,some number⟩ after) ∧
          ∀ closing value after, Step suspended ⟨.returned native,closing,some value⟩ after →
            invocations closing = [] ∧ value = number ∧ after.stack = m.stack := by
  have sound := sound_reached reached
  refine ⟨call_possible sound given,?_⟩
  intro log r next step
  refine ⟨call_list sound step,fun never => call_refuses sound never step,?_⟩
  intro f invokes
  obtain ⟨rfl,frame,stack,_,fp,rtype,one⟩ := call_invokes sound invokes step
  refine ⟨_,frame,one,fp,rfl,stack,?_⟩
  intro inside suspended nested level native
  have later := sound_reached (Runs.append (.snoc reached step) nested)
  have innermost : suspended.stack = frame :: m.stack := level.trans stack
  refine ⟨JS_NewFloat64_number _,?_,?_⟩
  · obtain ⟨closing,back⟩ := return_possible later innermost native
    rw [rtype] at back
    exact ⟨closing,_,back⟩
  · intro closing value after back
    obtain ⟨top,outer,result⟩ := return_value later back
    rw [innermost] at outer
    obtain ⟨same,rest⟩ := List.cons.inj outer
    rw [← same,rtype] at result
    exact ⟨return_invokes back later,result,rest.symm⟩

theorem invoked_exactly_abs : ∃ request frame, invocations absOpening = [request] ∧
    request.fp = (nodeOf 69 absPrototype).fp ∧ (none : Option JSValue) = none ∧
    absCalled.stack = frame :: absMachine.stack ∧
    ∀ inside suspended, Runs Step absCalled inside suspended → suspended.stack = absCalled.stack → ∀ native,
      let number := JS_NewFloat64 ((resultOf (nodeOf 69 absPrototype).rtype native).convert binary64)
      number ≠ .exception ∧
      (∃ closing after, Step suspended ⟨.returned native,closing,some number⟩ after) ∧
      ∀ closing value after, Step suspended ⟨.returned native,closing,some value⟩ after →
        invocations closing = [] ∧ value = number ∧ after.stack = absMachine.stack := by
  have invokes : Invokes absMachine.ctx absCall (nodeOf 69 absPrototype) := by
    refine ⟨⟨"abs",by decide +kernel,by decide +kernel⟩,?_⟩
    intro v member
    have last : v = intArgument (-5) := by simpa [callArguments,absCall,MAX_PARAMETERS] using member
    rw [last]
    trivial
  exact ((invoked_exactly abs_reached absCall).2 _ _ _ abs_entered).2.2 _ invokes

end QjsFfi
