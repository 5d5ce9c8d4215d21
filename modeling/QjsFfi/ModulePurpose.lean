import Mathlib.Logic.Function.Basic
import QjsFfi.Automata
import QjsFfi.InvocationExactness

namespace QjsFfi
open BinaryFloat Activation Histories Automata

-- What the module is for, without lists, blocks, texts and arrays: a table of
-- prototypes, the return types of the calls that wait, innermost first, and
-- whether an exception is pending.
structure Purpose where
  initialised : Bool
  table : String → Option Prototype
  waiting : List ffi_type
  pending : Bool

structure Invocation where
  fp : CodePointer
  rtype : ffi_type
  values : List FfiValue
  deriving DecidableEq

-- What a script and the native functions see of a step.
structure Observed where
  result : Option JSValue
  native : List Invocation
  deriving DecidableEq

def Purpose.start : Purpose := ⟨false,fun _ => none,[],false⟩

def carriedAt (given : List JSValueConst) (i : ℕ) : Carried := ((callArguments given)[i]?.bind carrier).getD .missing

def refusalRaises (vs : List JSValueConst) : Bool := (vs.find? (fun v => (carrier v).isNone)).any carrierRaises

-- The prototype a define puts in the table: nothing before init and nothing under a name in use.
def Purpose.made (ffi : Libffi) (given : List JSValueConst) (s : Purpose) : Option Prototype :=
  if s.initialised then (spelled ffi given).filter (fun p => (s.table p.name).isNone) else none

def Purpose.known (given : List JSValueConst) (s : Purpose) : Bool :=
  ((defineHeader given).bind (fun h => s.table h.name)).isSome

def Purpose.defined (s : Purpose) (made : Option Prototype) (raised : Bool) : Purpose :=
  {s with
    table := match made with | some p => Function.update s.table p.name (some p) | none => s.table
    pending := s.pending || raised}

def Purpose.define (ffi : Libffi) (given : List JSValueConst) (s : Purpose) : Purpose × Observed :=
  (s.defined (s.made ffi given) (defineRaises given),⟨some (.bool (s.known given || (s.made ffi given).isSome)),[]⟩)

def Purpose.call (given : List JSValueConst) (s : Purpose) : Purpose × Observed :=
  match (argAt given 0).cstring with
  | none => ({s with pending := true},⟨some .exception,[]⟩)
  | some name =>
    if (callArguments given).all (fun v => (carrier v).isSome) then
      match s.table name with
      | none => (s,⟨some .exception,[]⟩)
      | some p => ({s with waiting := p.rtype :: s.waiting},⟨none,[⟨p.fp,p.rtype,valuesOf p.params (carriedAt given)⟩]⟩)
    else ({s with pending := s.pending || refusalRaises (callArguments given)},⟨some .exception,[]⟩)

def Purpose.next (s : Purpose) : Action → Option (Purpose × Observed)
  | .init => some ({s with initialised := true},⟨none,[]⟩)
  | .define ffi given => some (s.define ffi given)
  | .call given => some (s.call given)
  | .returned native =>
    match s.waiting with
    | [] => none
    | rtype :: rest => some ({s with waiting := rest},⟨some (JS_NewFloat64 ((resultOf rtype native).convert binary64)),[]⟩)
  | .exported host e given => some ({s with pending := s.pending || e.raises host given},⟨some (e.value host given),[]⟩)
  | .caught => some ({s with pending := false},⟨none,[]⟩)

def Request.invocation (r : Request) : Invocation := ⟨r.fp,r.rtype,r.values⟩
def Record.observed (r : Record) : Observed := ⟨r.result,(invocations r.events).map Request.invocation⟩

structure Serves (history : List Record) (m : Machine) (s : Purpose) : Prop where
  reached : Reached history m
  initialised : s.initialised = history.any Record.initialises
  known : ∀ name p, s.table name = some p → ∃ addr, m.ctx.function name = some (nodeOf addr p)
  unknown : ∀ name, s.table name = none → m.ctx.function name = none
  waiting : s.waiting = m.stack.map (fun frame => frame.inner.request.rtype)
  pending : s.pending = m.ctx.pending

theorem serves_start : Serves [] .start .start := ⟨.nil,rfl,nofun,fun _ _ => rfl,rfl,rfl⟩

theorem Serves.function (serves : Serves history m s) (name : String) :
    (m.ctx.function name).isSome = (s.table name).isSome := by
  cases found : s.table name with
  | none =>
    rw [serves.unknown name found]
    rfl
  | some p =>
    obtain ⟨addr,node⟩ := serves.known name p found
    rw [node]
    rfl

theorem Serves.prototype (serves : Serves history m s) (found : m.ctx.function name = some (nodeOf addr p)) :
    s.table name = some p := by
  cases known : s.table name with
  | none =>
    rw [serves.unknown name known] at found
    cases found
  | some q =>
    obtain ⟨other,node⟩ := serves.known name q known
    rw [nodeOf_injective (Option.some.inj (found.symm.trans node))]

theorem Serves.kept (serves : Serves history m s) (step : Step m label ⟨t,stack⟩) (list : t.function_list = m.ctx.function_list)
    (initialised : initialised' = (s.initialised || label.initialises))
    (waiting : waiting' = stack.map (fun frame => frame.inner.request.rtype)) (pending : pending' = t.pending) :
    Serves (history++[label]) ⟨t,stack⟩ ⟨initialised',s.table,waiting',pending'⟩ := by
  refine ⟨.snoc serves.reached step,?_,?_,?_,waiting,pending⟩
  · simp [initialised,serves.initialised]
  · intro name p found
    simpa only [Ctx.function,list] using serves.known name p found
  · intro name missing
    simpa only [Ctx.function,list] using serves.unknown name missing

theorem scan_refusal (n : ℕ) (vs : List JSValueConst) : (scan n vs).raised = refusalRaises vs := by
  induction vs generalizing n with
  | nil => rfl
  | cons v rest ih =>
    cases made : carrier v with
    | none => simp [scan,refusalRaises,made]
    | some c =>
      have later := ih (n+(heldBy v n).length)
      simpa [scan,refusalRaises,made] using later

theorem callScan_carried (converted : (callScan s given).converted = true) (i : ℕ) :
    argOf (callScan s given).carried i = carriedAt given i := by
  unfold carriedAt
  cases present : (callArguments given)[i]? with
  | none => exact scan_argOf_missing converted present
  | some v =>
    have made := scan_argOf converted present
    rw [Option.bind_some,made,Option.getD_some]
    rfl

theorem Serves.outcome (serves : Serves history m s) (ffi : Libffi) (given : List JSValueConst) :
    defineOutcome ffi m.ctx given = (s.known given || (s.made ffi given).isSome,s.made ffi given) := by
  have sound := sound_reached serves.reached
  unfold defineOutcome Purpose.known Purpose.made
  cases header : defineHeader given with
  | none => simp [spelled,header]
  | some h =>
    have own : ∀ p, spelled ffi given = some p → p.name = h.name := by
      intro p made
      obtain ⟨other,again,name,_⟩ := spelled_parts made
      rw [header] at again
      cases again
      exact name
    have types := sound.types
    rw [← serves.initialised] at types
    simp only [functionOutcome,Option.bind_some,serves.function]
    cases present : s.initialised with
    | false =>
      have nothing : declared ffi m.ctx.ffi_type_head h.name h.fp h.abi h.rtype (recorded given) = none := by
        by_contra declares
        obtain ⟨p,declares⟩ := Option.ne_none_iff_exists'.mp declares
        have before := sound.initialised declares
        rw [← serves.initialised,present] at before
        cases before
      cases s.table h.name <;> simp [nothing]
    | true =>
      rw [present,if_pos rfl] at types
      have declares : spelled ffi given =
          declared ffi m.ctx.ffi_type_head h.name h.fp h.abi h.rtype (recorded given) := by
        rw [types]
        simp [spelled,header]
      rw [← declares,if_pos rfl]
      cases made : spelled ffi given with
      | none => cases s.table h.name <;> rfl
      | some p =>
        have name := own p made
        cases used : s.table h.name with
        | none => simp [Option.filter,name,used]
        | some q => simp [Option.filter,name,used]

theorem Serves.defined (serves : Serves history m s) (step : Step m label ⟨defined m.ctx n raised base made,m.stack⟩)
    (initialised : label.initialises = false) (pending : raised = raised') :
    Serves (history++[label]) ⟨defined m.ctx n raised base made,m.stack⟩ (s.defined made raised') := by
  subst pending
  cases made with
  | none =>
    exact serves.kept step rfl (by simp [initialised]) serves.waiting (by simp [defined_none,serves.pending])
  | some p =>
    refine ⟨.snoc serves.reached step,?_,?_,?_,serves.waiting,?_⟩
    · simp [Purpose.defined,serves.initialised,initialised]
    · intro name q found
      rw [defined_function]
      by_cases same : p.name = name
      · subst same
        simp only [Purpose.defined,Function.update_self,Option.some.injEq] at found
        exact ⟨base,by rw [if_pos rfl,found]⟩
      · rw [if_neg same]
        simp only [Purpose.defined,Function.update_of_ne (Ne.symm same)] at found
        exact serves.known name q found
    · intro name missing
      rw [defined_function]
      by_cases same : p.name = name
      · subst same
        simp [Purpose.defined] at missing
      · rw [if_neg same]
        simp only [Purpose.defined,Function.update_of_ne (Ne.symm same)] at missing
        exact serves.unknown name missing
    · simp [Purpose.defined,QjsFfi.defined,serves.pending]

theorem conversion (s : Ctx) (given : List JSValueConst) :
    (callScan s given).converted = (callArguments given).all (fun v => (carrier v).isSome) := by
  rw [Bool.eq_iff_iff,callScan,scan_converted,List.all_eq_true]

theorem asCString_cstring {v : JSValueConst} (named : v.asCString n = some c) : v.cstring = some c.text := by
  rw [← asCString_text v n,named]
  rfl

theorem Serves.refused (serves : Serves history m s) (ran : Gives (js_call_prepare given) m.ctx (.inl r) t log) :
    ∃ u, s.call given = (u,Record.observed ⟨.call given,log,some r⟩) ∧
      Serves (history++[⟨.call given,log,some r⟩]) ⟨t,m.stack⟩ u := by
  have sound := sound_reached serves.reached
  have outcome := call_parts sound.registered ran
  obtain ⟨_,rfl,silent,_⟩ := outcome.refuses
  have seen : Record.observed ⟨.call given,log,some .exception⟩ = ⟨some .exception,[]⟩ := by simp [Record.observed,silent]
  rw [seen]
  have step : Step m ⟨.call given,log,some .exception⟩ ⟨t,m.stack⟩ := .refused ran
  cases outcome with
  | unnamed failed =>
    refine ⟨{s with pending := true},by simp [Purpose.call,failed],?_⟩
    exact serves.kept step rfl (by simp [Record.initialises]) serves.waiting (by simp)
  | unconverted name named failed =>
    have stopped := conversion m.ctx given
    rw [failed] at stopped
    refine ⟨{s with pending := s.pending || refusalRaises (callArguments given)},?_,?_⟩
    · simp [Purpose.call,asCString_cstring named,← stopped]
    · exact serves.kept step rfl (by simp [Record.initialises]) serves.waiting
        (by simp [serves.pending,callScan,scan_refusal])
  | unknown name named converted missing =>
    have all := conversion m.ctx given
    rw [converted] at all
    have absent : s.table name.text = none := by
      have same := serves.function name.text
      rw [Ctx.function,missing] at same
      simpa using same.symm
    refine ⟨s,by simp [Purpose.call,asCString_cstring named,← all,absent],?_⟩
    exact serves.kept step rfl (by simp [Record.initialises]) serves.waiting (by simp [serves.pending])

theorem Serves.entered (serves : Serves history m s) (ran : Gives (js_call_prepare given) m.ctx (.inr frame) t log) :
    ∃ u, s.call given = (u,Record.observed ⟨.call given,log,none⟩) ∧
      Serves (history++[⟨.call given,log,none⟩]) ⟨t,frame :: m.stack⟩ u := by
  have sound := sound_reached serves.reached
  have outcome := call_parts sound.registered ran
  have step : Step m ⟨.call given,log,none⟩ ⟨t,frame :: m.stack⟩ := .entered ran
  obtain ⟨_,_,_,_,_,one⟩ := outcome.invokes
  cases outcome with
  | dispatched name named converted addr p found few =>
    have all := conversion m.ctx given
    rw [converted] at all
    have values : valuesOf p.params (argOf (callScan m.ctx given).carried) = valuesOf p.params (carriedAt given) := by
      congr 1
      funext i
      exact callScan_carried converted i
    refine ⟨{s with waiting := p.rtype :: s.waiting},?_,?_⟩
    · unfold Record.observed
      rw [one]
      simp [Purpose.call,asCString_cstring named,← all,serves.prototype found,frameOf,requestOf,Request.invocation,values]
    · exact serves.kept step rfl (by simp [Record.initialises]) (by simp [serves.waiting,frameOf,requestOf])
        (by simp [serves.pending])

theorem observed_other (reached : Reached history m) (step : Step m label next)
    (other : ∀ given, label.action ≠ .call given) : label.observed = ⟨label.result,[]⟩ := by
  simp [Record.observed,invoked_by_call reached step other]

theorem Serves.step (serves : Serves history m s) (step : Step m label next) :
    ∃ t, s.next label.action = some (t,label.observed) ∧ Serves (history++[label]) next t := by
  have sound := sound_reached serves.reached
  cases id step with
  | init ran =>
    obtain ⟨n,rfl,rfl,_⟩ := js_init_parts ran
    rw [observed_other serves.reached step (by simp)]
    exact ⟨_,rfl,serves.kept step rfl (by simp [Record.initialises]) serves.waiting (by simp [serves.pending])⟩
  | define ran =>
    have shown := observed_other serves.reached step (by simp)
    obtain ⟨rfl,n,base,rfl,trace⟩ := define_parts ran
    rw [shown]
    rw [serves.outcome] at step ⊢
    exact ⟨_,rfl,serves.defined step rfl rfl⟩
  | refused ran =>
    obtain ⟨t,answer,after⟩ := serves.refused ran
    exact ⟨t,congrArg some answer,after⟩
  | entered ran =>
    obtain ⟨t,answer,after⟩ := serves.entered ran
    exact ⟨t,congrArg some answer,after⟩
  | returned innermost ran =>
    rename_i frame rest native r u log
    obtain ⟨top,outer,rfl⟩ := return_value sound step
    rw [innermost] at outer
    cases outer
    obtain ⟨held,addr,p,waiting⟩ := sound.frames frame (innermost ▸ List.mem_cons_self)
    obtain ⟨_,rfl,_⟩ := ran.unique (finish_gives sound.addresses waiting native)
    have outstanding := serves.waiting
    rw [innermost,List.map_cons] at outstanding
    rw [observed_other serves.reached step (by simp)]
    refine ⟨{s with waiting := rest.map (fun frame => frame.inner.request.rtype)},?_,?_⟩
    · simp [Purpose.next,outstanding]
    · exact serves.kept step rfl (by simp [Record.initialises]) rfl serves.pending
  | exported ran =>
    rename_i r u log host e given
    obtain ⟨n,events,lost,gives,_⟩ := e.run_gives host given m.ctx
    obtain ⟨rfl,rfl,rfl⟩ := ran.unique gives
    rw [observed_other serves.reached step (by simp)]
    exact ⟨_,rfl,serves.kept step rfl (by simp [Record.initialises]) serves.waiting (by simp [serves.pending])⟩
  | caught => exact ⟨_,rfl,serves.kept step rfl (by simp [Record.initialises]) serves.waiting rfl⟩

theorem Serves.takes (serves : Serves history m s) (answers : s.next i = some (t,o)) :
    ∃ label next, Step m label next ∧ label.action = i := by
  have sound := sound_reached serves.reached
  cases i with
  | init =>
    obtain ⟨n,ran,_⟩ := js_init_gives m.ctx
    exact ⟨_,_,.init ran,rfl⟩
  | define ffi given =>
    obtain ⟨n,base,log,ran,_⟩ := js_define_gives ffi given m.ctx
    exact ⟨_,_,.define ran,rfl⟩
  | call given =>
    obtain ⟨log,r,next,step⟩ := call_possible sound given
    exact ⟨_,_,step,rfl⟩
  | returned native =>
    cases stack : m.stack with
    | nil =>
      have outstanding := serves.waiting
      rw [stack,List.map_nil] at outstanding
      simp [Purpose.next,outstanding] at answers
    | cons frame rest =>
      obtain ⟨log,step⟩ := return_possible sound stack native
      exact ⟨_,_,step,rfl⟩
  | exported host e given =>
    obtain ⟨n,log,lost,gives,_⟩ := e.run_gives host given m.ctx
    exact ⟨_,_,.exported gives,rfl⟩
  | caught => exact ⟨_,_,.caught,rfl⟩

theorem module_realises : Realises Step Record.action Record.observed Purpose.next Serves :=
  ⟨Serves.step,Serves.takes⟩

theorem Serves.entry (serves : Serves history m s) (name : String) (p : Prototype) :
    s.table name = some p ↔ ∃ addr, m.ctx.function name = some (nodeOf addr p) :=
  ⟨serves.known name p,fun ⟨_,found⟩ => serves.prototype found⟩

-- Every run of the module is a run of the table with the same answers and the same
-- native calls, and every run of the table is one of the module.
theorem module_purpose :
    (∀ history m, Reached history m → ∃ s, feed Purpose.next .start (history.map Record.action) = some (s,history.map Record.observed) ∧
      s.pending = m.ctx.pending ∧ s.waiting = m.stack.map (fun frame => frame.inner.request.rtype) ∧
      ∀ name p, s.table name = some p ↔ ∃ addr, m.ctx.function name = some (nodeOf addr p)) ∧
    ∀ actions s seen, feed Purpose.next .start actions = some (s,seen) →
      ∃ history m, Reached history m ∧ history.map Record.action = actions ∧ history.map Record.observed = seen := by
  refine ⟨?_,?_⟩
  · intro history m reached
    obtain ⟨s,answers,serves⟩ := module_realises.run serves_start reached
    rw [List.nil_append] at serves
    exact ⟨s,answers,serves.pending,serves.waiting,serves.entry⟩
  · intro actions s seen ran
    obtain ⟨history,m,reached,asked,answered,_⟩ := module_realises.reaches serves_start ran
    exact ⟨history,m,reached,asked,answered⟩

theorem module_purpose_abs :
    (∃ s, feed Purpose.next .start (absHistory.map Record.action) = some (s,absHistory.map Record.observed) ∧
      s.table "abs" = some absPrototype) ∧
    ∃ native history m, Reached history m ∧
      history.map Record.action = [.init,.define plainLibffi absDefine,.call absCall,.returned native] ∧
      history.map Record.observed = [⟨none,[]⟩,⟨some (.bool true),[]⟩,⟨none,[⟨.code 0x2000,.sint32,[.integral 32 (-5)]⟩]⟩,
        ⟨some (.int 5),[]⟩] := by
  obtain ⟨sound,complete⟩ := module_purpose
  refine ⟨?_,?_⟩
  · obtain ⟨s,answers,_,_,table⟩ := sound absHistory absMachine abs_reached
    have found : absMachine.ctx.function "abs" = some (nodeOf 69 absPrototype) := by decide +kernel
    exact ⟨s,answers,(table "abs" absPrototype).mpr ⟨69,found⟩⟩
  · let native : NativeResult := ⟨5,.ofInt binary32 0,.ofInt binary64 0,.ofInt extended80 0⟩
    have ran : (feed Purpose.next .start [.init,.define plainLibffi absDefine,.call absCall,.returned native]).map Prod.snd =
        some [⟨none,[]⟩,⟨some (.bool true),[]⟩,⟨none,[⟨.code 0x2000,.sint32,[.integral 32 (-5)]⟩]⟩,⟨some (.int 5),[]⟩] := by
      decide +kernel
    obtain ⟨⟨s,seen⟩,answers,same⟩ := Option.map_eq_some_iff.mp ran
    obtain ⟨history,m,reached,asked,answered⟩ := complete _ s seen answers
    exact ⟨native,history,m,reached,asked,answered.trans same⟩

end QjsFfi
