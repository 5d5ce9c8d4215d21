import QjsFfi.CallOutcomes
import QjsFfi.Pointers

namespace QjsFfi
open BinaryFloat Activation Histories

def js_init : C Unit := install_types standardTypes

-- The module between two steps: its state, and the calls whose native function
-- is still running, innermost first. A native function may enter the module again.
structure Machine where
  ctx : Ctx
  stack : List JsFrame

-- What happens next. libffi may answer each define differently; `exported` is any
-- other function of the module and `caught` the script taking a pending exception.
inductive Action where
  | init
  | define (ffi : Libffi) (given : List JSValueConst)
  | call (given : List JSValueConst)
  | returned (native : NativeResult)
  | exported (host : Host) (e : Export) (given : List JSValueConst)
  | caught

structure Record where
  action : Action
  events : List Event
  result : Option JSValue

inductive Step : Machine → Record → Machine → Prop where
  | init (ran : Gives js_init m.ctx () s log) : Step m ⟨.init,log,none⟩ ⟨s,m.stack⟩
  | define (ran : Gives (js_define ffi given) m.ctx r s log) : Step m ⟨.define ffi given,log,some r⟩ ⟨s,m.stack⟩
  | refused (ran : Gives (js_call_prepare given) m.ctx (.inl r) s log) :
    Step m ⟨.call given,log,some r⟩ ⟨s,m.stack⟩
  | entered (ran : Gives (js_call_prepare given) m.ctx (.inr frame) s log) :
    Step m ⟨.call given,log,none⟩ ⟨s,frame :: m.stack⟩
  | returned (innermost : m.stack = frame :: rest) (ran : Gives (js_call_finish frame native) m.ctx r s log) :
    Step m ⟨.returned native,log,some r⟩ ⟨s,rest⟩
  | exported (ran : Gives (e.run host given) m.ctx r s log) :
    Step m ⟨.exported host e given,log,some r⟩ ⟨s,m.stack⟩
  | caught : Step m ⟨.caught,[],none⟩ ⟨{m.ctx with pending := false},m.stack⟩

def Machine.start : Machine := ⟨.start,[]⟩

def Reached (history : List Record) (m : Machine) : Prop := Runs Step .start history m

abbrev Ctx.function (s : Ctx) (name : String) : Option function_s :=
  find (fun f => f.name.contents) s.function_list name

def Record.defines (name : String) (r : Record) : Bool :=
  match r.action,r.result with
  | .define _ given,some (.bool true) => (argAt given 0).cstring = some name
  | _,_ => false

def spelled (ffi : Libffi) (given : List JSValueConst) : Option Prototype := do
  let h ← defineHeader given
  declared ffi (define_types []) h.name h.fp h.abi h.rtype (recorded given)

def Record.prototype (r : Record) : Option Prototype :=
  match r.action with
  | .define ffi given => spelled ffi given
  | _ => none

def Record.initialises (r : Record) : Bool := match r.action with | .init => true | _ => false

-- What the registry is for: a name stands for the first define of it that succeeded.
def firstDefine (history : List Record) (name : String) : Option Record := history.find? (Record.defines name)

structure Suspended (s : Ctx) (frame : JsFrame) (held : List CString) (addr : Nat) (p : Prototype) : Prop where
  strings : frame.strings = ⟨stringCells held⟩
  count : frame.fl = held.length
  inner : ∃ first carried, frame.inner = innerFrame first addr p carried
  kept : nodeOf addr p ∈ s.function_list

structure Origin (history : List Record) (s : Ctx) (f : function_s) (p : Prototype) (r : Record) : Prop where
  initialised : history.any Record.initialises = true
  node : f = nodeOf f.addr p
  below : f.addr+blockCount p.params ≤ s.fresh
  past : r ∈ history
  prototype : r.prototype = some p
  prepared : .ffi_prep_cif p.cif true ∈ r.events

structure Sound (history : List Record) (m : Machine) : Prop where
  types : m.ctx.ffi_type_head = if history.any Record.initialises then define_types [] else []
  known : ∀ name r, firstDefine history name = some r →
    ∃ self p, r.prototype = some p ∧ m.ctx.function name = some (nodeOf self p)
  unknown : ∀ name, firstDefine history name = none → m.ctx.function name = none
  names : (m.ctx.function_list.map (fun f => f.name.contents)).Nodup
  addresses : (m.ctx.function_list.map function_s.addr).Nodup
  entries : ∀ f ∈ m.ctx.function_list, ∃ p r, Origin history m.ctx f p r
  frames : ∀ frame ∈ m.stack, ∃ held addr p, Suspended m.ctx frame held addr p

theorem defineHeader_name (header : defineHeader given = some h) : (argAt given 0).cstring = some h.name :=
  (defineHeader_parts header).1

theorem recorded_le (given : List JSValueConst) : (recorded given).length ≤ MAX_PARAMETERS := by
  have cells := leading_le ((typeArguments given).map JSValueConst.cstring)
  have few := List.length_take_le MAX_PARAMETERS (given.drop 4)
  rw [List.length_map] at cells
  unfold recorded typeArguments at *
  omega

theorem spelled_parts (made : spelled ffi given = some p) :
    ∃ h, defineHeader given = some h ∧ p.name = h.name ∧ p.fp = codeOf h.fp ∧ p.abi = find_abi ffi.compiled h.abi ∧
      knownTypes (define_types []) (recorded given) = some p.params ∧
      find_ffi_type (define_types []) (some h.rtype) = some p.rtype ∧ ffi.ffi_prep_cif p.cif = true := by
  simp only [spelled,Option.bind_eq_bind,Option.bind_eq_some_iff] at made
  obtain ⟨h,header,made⟩ := made
  exact ⟨h,header,declared_some made⟩

theorem prototype_few {r : Record} (made : r.prototype = some p) : p.params.length ≤ MAX_PARAMETERS := by
  unfold Record.prototype at made
  split at made
  · obtain ⟨_,_,_,_,_,known,_⟩ := spelled_parts made
    rw [knownTypes_length known]
    exact recorded_le _
  · cases made

theorem Sound.registered (sound : Sound history m) : Registered m.ctx := by
  intro f member
  obtain ⟨p,r,origin⟩ := sound.entries f member
  exact ⟨f.addr,p,origin.node,prototype_few origin.prototype⟩

theorem defineOutcome_made (made : (defineOutcome ffi s given).2 = some p) :
    ∃ h, defineHeader given = some h ∧ s.function h.name = none ∧ (defineOutcome ffi s given).1 = true ∧
      declared ffi s.ffi_type_head h.name h.fp h.abi h.rtype (recorded given) = some p := by
  unfold defineOutcome at made ⊢
  cases header : defineHeader given with
  | none => simp [header] at made
  | some h =>
    simp only [header,functionOutcome] at made ⊢
    refine ⟨h,rfl,?_⟩
    cases found : s.function h.name with
    | some f => simp [found] at made
    | none =>
      simp only [found,Option.isSome_none,Bool.false_eq_true,if_false] at made ⊢
      exact ⟨trivial,by rw [made]; rfl,made⟩

theorem defineOutcome_known (answer : (defineOutcome ffi s given).1 = true)
    (unmade : (defineOutcome ffi s given).2 = none) :
    ∃ h, defineHeader given = some h ∧ (s.function h.name).isSome := by
  unfold defineOutcome at answer unmade
  cases header : defineHeader given with
  | none => simp [header] at answer
  | some h =>
    simp only [header,functionOutcome] at answer unmade
    refine ⟨h,rfl,?_⟩
    cases found : s.function h.name with
    | some f => rfl
    | none =>
      simp only [found,Option.isSome_none,Bool.false_eq_true,if_false] at answer unmade
      rw [unmade] at answer
      cases answer

theorem define_parts (ran : Gives (js_define ffi given) s r t log) :
    r = .bool (defineOutcome ffi s given).1 ∧
      ∃ n self, t = defined s n (defineRaises given) self (defineOutcome ffi s given).2 ∧
        DefineTrace s n self (defineOutcome ffi s given).2 log := by
  obtain ⟨n,self,_,gives,trace⟩ := js_define_gives ffi given s
  obtain ⟨rfl,rfl,rfl⟩ := ran.unique gives
  exact ⟨rfl,n,self,rfl,trace⟩

theorem call_parts (registered : Registered s) (ran : Gives (js_call_prepare given) s out t log) :
    CallOutcome s given out t log := by
  obtain ⟨_,_,_,gives,outcome⟩ := js_call_prepare_gives given s registered
  obtain ⟨rfl,rfl,rfl⟩ := ran.unique gives
  exact outcome

theorem find_addr {s : Ctx} (addresses : (s.function_list.map function_s.addr).Nodup) (member : f ∈ s.function_list) :
    find function_s.addr s.function_list f.addr = some f := find_unique addresses member

theorem finish_gives {s : Ctx} (addresses : (s.function_list.map function_s.addr).Nodup)
    (waiting : Suspended s frame held addr p) (native : NativeResult) :
    Gives (js_call_finish frame native) s (JS_NewFloat64 ((resultOf p.rtype native).convert binary64)) s
      (frame.inner.scratch.map .free++closed frame.name held) := by
  obtain ⟨first,carried,inner⟩ := waiting.inner
  have f : frame.inner.f = addr := by rw [inner]; simp
  have request : frame.inner.request.rtype = p.rtype := by rw [inner]; simp [requestOf]
  have kept := find_addr addresses waiting.kept
  have ran := js_call_finish_gives frame held native s (nodeOf addr p) waiting.strings waiting.count
    (by rw [f]; exact kept) (by rw [request]; rfl)
  rwa [request] at ran

theorem Suspended.mono (waiting : Suspended s frame held addr p)
    (kept : ∀ f ∈ s.function_list, f ∈ t.function_list) : Suspended t frame held addr p :=
  ⟨waiting.strings,waiting.count,waiting.inner,kept _ waiting.kept⟩

theorem Origin.later (origin : Origin history s f p r) (fresh : s.fresh ≤ t.fresh) (label : Record) :
    Origin (history++[label]) t f p r :=
  ⟨by rw [List.any_append,origin.initialised,Bool.true_or],origin.node,Nat.le_trans origin.below fresh,
    List.mem_append_left _ origin.past,origin.prototype,origin.prepared⟩

theorem firstDefine_append (history : List Record) (label : Record) (name : String) :
    firstDefine (history++[label]) name =
      (firstDefine history name).or (if label.defines name then some label else none) := by
  unfold firstDefine
  rw [List.find?_append]
  cases hit : label.defines name <;> simp [hit]

theorem Sound.unchanged (sound : Sound history m) (label : Record) (calm : ∀ name, label.defines name = false)
    (list : s.function_list = m.ctx.function_list) (fresh : m.ctx.fresh ≤ s.fresh)
    (types : s.ffi_type_head = if (history++[label]).any Record.initialises then define_types [] else [])
    (frames : ∀ frame ∈ stack, ∃ held addr p, Suspended s frame held addr p) :
    Sound (history++[label]) ⟨s,stack⟩ := by
  have same : ∀ name, firstDefine (history++[label]) name = firstDefine history name := by
    intro name
    simp [firstDefine_append,calm]
  refine ⟨types,?_,?_,?_,?_,?_,frames⟩
  · intro name r first
    rw [same] at first
    simpa only [Ctx.function,list] using sound.known name r first
  · intro name first
    rw [same] at first
    simpa only [Ctx.function,list] using sound.unknown name first
  · simpa only [list] using sound.names
  · simpa only [list] using sound.addresses
  · intro f member
    obtain ⟨p,r,origin⟩ := sound.entries f (by simpa only [list] using member)
    exact ⟨p,r,origin.later fresh label⟩

theorem sound_start : Sound [] .start := by
  refine ⟨rfl,by simp [firstDefine],?_,by simp [Machine.start,Ctx.start],by simp [Machine.start,Ctx.start],
    by simp [Machine.start,Ctx.start],by simp [Machine.start]⟩
  intro name _
  rfl

theorem js_init_gives (s : Ctx) : ∃ n, Gives js_init s () {s.bump n false with ffi_type_head := define_types s.ffi_type_head}
    ((List.range' s.fresh n).map .malloc) ∧ 2*(define_types s.ffi_type_head).length = 2*s.ffi_type_head.length+n :=
  install_types_gives standardTypes s

theorem js_init_parts (ran : Gives js_init s () t log) :
    ∃ n, t = {s.bump n false with ffi_type_head := define_types s.ffi_type_head} ∧ log = (List.range' s.fresh n).map .malloc ∧
      2*(define_types s.ffi_type_head).length = 2*s.ffi_type_head.length+n := by
  obtain ⟨n,gives,grown⟩ := js_init_gives s
  obtain ⟨_,rfl,rfl⟩ := ran.unique gives
  exact ⟨n,rfl,rfl,grown⟩

theorem initialises_other (history : List Record) (other : label.initialises = false) :
    (history++[label]).any Record.initialises = history.any Record.initialises := by
  simp [other]

theorem Sound.initialised (sound : Sound history m)
    (declares : declared ffi m.ctx.ffi_type_head name fp abi rtype ts = some p) :
    history.any Record.initialises = true := by
  by_contra never
  have types := sound.types
  rw [if_neg never] at types
  obtain ⟨_,_,_,_,found,_⟩ := declared_some declares
  simp [types,find_ffi_type,find] at found

theorem Sound.spelled (sound : Sound history m)
    (made : (defineOutcome ffi m.ctx given).2 = some p) : spelled ffi given = some p := by
  obtain ⟨h,header,_,_,declares⟩ := defineOutcome_made made
  have types := sound.types
  rw [if_pos (sound.initialised declares)] at types
  rw [types] at declares
  simp only [QjsFfi.spelled,header,Option.bind_eq_bind,Option.bind_some]
  exact declares

theorem firstDefine_new (defines : ∀ name, label.defines name = decide (own = name))
    (free : firstDefine history own = none) (name : String) :
    firstDefine (history++[label]) name = if own = name then some label else firstDefine history name := by
  rw [firstDefine_append,defines]
  by_cases same : own = name
  · subst same
    rw [free]
    simp
  · simp [same]

theorem defined_function (s : Ctx) (n : Nat) (raised : Bool) (base : Nat) (p : Prototype) (name : String) :
    (defined s n raised base (some p)).function name = if p.name = name then some (nodeOf base p) else s.function name := by
  simp only [Ctx.function,defined,Option.map_some,Option.toList_some,List.singleton_append,find_cons]
  rfl

theorem Sound.distinct (sound : Sound history m) (above : m.ctx.fresh ≤ base) (p : Prototype) :
    ((nodeOf base p :: m.ctx.function_list).map function_s.addr).Nodup := by
  rw [List.map_cons,List.nodup_cons]
  refine ⟨?_,sound.addresses⟩
  intro member
  obtain ⟨f,listed,same⟩ := List.mem_map.mp member
  obtain ⟨q,r,origin⟩ := sound.entries f listed
  have below := origin.below
  have positive : 0 < blockCount q.params := by
    unfold blockCount
    split
    · exact Nat.two_pos
    · exact Nat.succ_pos 2
  have addr : f.addr = base := same
  omega

theorem Sound.added (sound : Sound history m) (made : (defineOutcome ffi m.ctx given).2 = some p)
    (trace : DefineTrace m.ctx n base (some p) log) :
    Sound (history++[⟨.define ffi given,log,some (.bool true)⟩])
      ⟨defined m.ctx n (defineRaises given) base (some p),m.stack⟩ := by
  obtain ⟨h,header,free,_,declares⟩ := defineOutcome_made made
  have own : p.name = h.name := (declared_some declares).1
  have prototype := sound.spelled made
  let label : Record := ⟨.define ffi given,log,some (.bool true)⟩
  have defines : ∀ name, label.defines name = decide (p.name = name) := by
    intro name
    simp [label,Record.defines,defineHeader_name header,own]
  have before : firstDefine history p.name = none := by
    cases earlier : firstDefine history p.name with
    | none => rfl
    | some old =>
      obtain ⟨_,_,_,found⟩ := sound.known p.name old earlier
      rw [own,free] at found
      cases found
  refine ⟨?_,?_,?_,?_,sound.distinct trace.first p,?_,?_⟩
  · rw [initialises_other history rfl]
    exact sound.types
  · intro name r first
    rw [firstDefine_new defines before] at first
    rw [defined_function]
    split at first
    · rename_i same
      cases first
      rw [if_pos same]
      exact ⟨base,p,prototype,rfl⟩
    · rename_i other
      rw [if_neg other]
      exact sound.known name r first
  · intro name first
    rw [firstDefine_new defines before] at first
    rw [defined_function]
    split at first
    · cases first
    · rename_i other
      rw [if_neg other]
      exact sound.unknown name first
  · change ((nodeOf base p :: m.ctx.function_list).map (fun f => f.name.contents)).Nodup
    rw [List.map_cons,List.nodup_cons]
    refine ⟨?_,sound.names⟩
    rw [show (nodeOf base p).name.contents = h.name from own]
    exact find_none.mp free
  · intro f member
    have grown : m.ctx.fresh ≤ (defined m.ctx n (defineRaises given) base (some p)).fresh := Nat.le_add_right _ _
    rcases List.mem_cons.mp member with rfl | old
    · have initialised : (history++[label]).any Record.initialises = true := by
        rw [List.any_append,sound.initialised declares,Bool.true_or]
      exact ⟨p,label,initialised,rfl,trace.last p rfl,List.mem_append_right _ List.mem_cons_self,prototype,
        trace.prepared p rfl⟩
    · obtain ⟨q,r,origin⟩ := sound.entries f old
      exact ⟨q,r,origin.later grown label⟩
  · intro frame member
    obtain ⟨held,addr,q,waiting⟩ := sound.frames frame member
    exact ⟨held,addr,q,waiting.mono (fun f listed => List.mem_cons_of_mem _ listed)⟩

theorem Sound.answered (sound : Sound history m) (unmade : (defineOutcome ffi m.ctx given).2 = none) (n : Nat) (raised : Bool) :
    Sound (history++[⟨.define ffi given,log,some (.bool (defineOutcome ffi m.ctx given).1)⟩])
      ⟨m.ctx.bump n raised,m.stack⟩ := by
  let label : Record := ⟨.define ffi given,log,some (.bool (defineOutcome ffi m.ctx given).1)⟩
  have same : ∀ name, firstDefine (history++[label]) name = firstDefine history name := by
    intro name
    rw [firstDefine_append]
    cases first : firstDefine history name with
    | some r => rfl
    | none =>
      have silent : label.defines name = false := by
        by_contra defines
        have answer : (defineOutcome ffi m.ctx given).1 = true := by
          by_contra refused
          simp [label,Record.defines,Bool.eq_false_iff.mpr refused] at defines
        obtain ⟨h,header,present⟩ := defineOutcome_known answer unmade
        have named : h.name = name := by
          simpa [label,Record.defines,answer,defineHeader_name header] using defines
        rw [named,sound.unknown name first] at present
        cases present
      simp [silent]
  refine ⟨?_,?_,?_,sound.names,sound.addresses,?_,?_⟩
  · rw [initialises_other history rfl]
    exact sound.types
  · intro name r first
    rw [same] at first
    exact sound.known name r first
  · intro name first
    rw [same] at first
    exact sound.unknown name first
  · intro f member
    obtain ⟨p,r,origin⟩ := sound.entries f member
    exact ⟨p,r,origin.later (Nat.le_add_right _ _) label⟩
  · intro frame member
    obtain ⟨held,addr,p,waiting⟩ := sound.frames frame member
    exact ⟨held,addr,p,waiting.mono (fun f listed => listed)⟩

theorem CallOutcome.state (outcome : CallOutcome s given out t log) : ∃ n raised, t = s.bump n raised := by
  cases outcome with
  | unnamed => exact ⟨_,_,rfl⟩
  | unconverted => exact ⟨_,_,rfl⟩
  | unknown => exact ⟨_,_,rfl⟩
  | dispatched => exact ⟨_,_,rfl⟩

theorem frameOf_suspended (found : s.function name.text = some (nodeOf addr p)) (r : Scan) (n : Nat) (raised : Bool) :
    Suspended (s.bump n raised) (frameOf s addr p name r) r.held addr p :=
  ⟨rfl,rfl,⟨_,_,rfl⟩,find_mem found⟩

theorem Sound.step (sound : Sound history m) (step : Step m label next) : Sound (history++[label]) next := by
  have types : ∀ label : Record, label.initialises = false → m.ctx.ffi_type_head =
      if (history++[label]).any Record.initialises then define_types [] else [] := by
    intro label other
    rw [initialises_other history other]
    exact sound.types
  have frames : ∀ n raised, ∀ frame ∈ m.stack, ∃ held addr p, Suspended (m.ctx.bump n raised) frame held addr p := by
    intro n raised frame member
    obtain ⟨held,addr,p,waiting⟩ := sound.frames frame member
    exact ⟨held,addr,p,waiting.mono (fun f listed => listed)⟩
  cases step with
  | init ran =>
    obtain ⟨n,rfl,rfl,_⟩ := js_init_parts ran
    refine sound.unchanged _ (fun name => rfl) rfl (Nat.le_add_right _ _) ?_ ?_
    · rw [if_pos (by simp [Record.initialises])]
      have before := sound.types
      split at before
      · simp only [before,define_types_twice]
      · simp only [before]
    · intro frame member
      obtain ⟨held,addr,p,waiting⟩ := sound.frames frame member
      exact ⟨held,addr,p,waiting.mono (fun f listed => listed)⟩
  | define ran =>
    rename_i ffi given r s log
    obtain ⟨rfl,n,base,rfl,trace⟩ := define_parts ran
    cases made : (defineOutcome ffi m.ctx given).2 with
    | some p =>
      obtain ⟨_,_,_,answer,_⟩ := defineOutcome_made made
      rw [made] at trace
      rw [answer]
      exact sound.added made trace
    | none => exact sound.answered made n (defineRaises given)
  | refused ran =>
    obtain ⟨n,raised,rfl⟩ := (call_parts sound.registered ran).state
    exact sound.unchanged _ (fun name => rfl) rfl (Nat.le_add_right _ _) (types _ rfl)
      (frames n raised)
  | entered ran =>
    cases call_parts sound.registered ran with
    | dispatched name _ _ addr p found few =>
      refine sound.unchanged _ (fun name => rfl) rfl (Nat.le_add_right _ _) (types _ rfl) ?_
      intro frame member
      rcases List.mem_cons.mp member with rfl | older
      · exact ⟨_,addr,p,frameOf_suspended found _ _ _⟩
      · exact frames _ _ frame older
  | returned innermost ran =>
    rename_i frame rest native r s log
    obtain ⟨held,addr,p,waiting⟩ := sound.frames frame (innermost ▸ List.mem_cons_self)
    obtain ⟨rfl,rfl,rfl⟩ := ran.unique (finish_gives sound.addresses waiting native)
    refine sound.unchanged _ (fun name => rfl) rfl (Nat.le_refl _) (types _ rfl) ?_
    intro older member
    exact sound.frames older (innermost ▸ List.mem_cons_of_mem _ member)
  | exported ran =>
    rename_i r s log host e given
    obtain ⟨n,_,_,gives,_⟩ := e.run_gives host given m.ctx
    obtain ⟨rfl,rfl,rfl⟩ := ran.unique gives
    exact sound.unchanged _ (fun name => rfl) rfl (Nat.le_add_right _ _) (types _ rfl) (frames n _)
  | caught =>
    refine sound.unchanged _ (fun name => rfl) rfl (Nat.le_refl _) (types _ rfl) ?_
    intro frame member
    obtain ⟨held,addr,p,waiting⟩ := sound.frames frame member
    exact ⟨held,addr,p,waiting.mono (fun f listed => listed)⟩

theorem sound_reached (reached : Reached history m) : Sound history m :=
  Runs.invariant sound_start (fun _ _ _ _ _ held step => held.step step) reached

-- js_call around a native function, in one piece, is the two steps of the machine.
theorem js_call_steps (ran : Gives (js_call native given) m.ctx r t log) :
    Step m ⟨.call given,log,some r⟩ ⟨t,m.stack⟩ ∨
    ∃ frame s opening closing, Step m ⟨.call given,opening,none⟩ ⟨s,frame :: m.stack⟩ ∧
      Step ⟨(native frame.inner.request s).2,frame :: m.stack⟩
        ⟨.returned (native frame.inner.request s).1,closing,some r⟩ ⟨t,m.stack⟩ ∧ log = opening++closing := by
  obtain ⟨out,s,opening,rest,prepared,onward,rfl⟩ := ran.unbind
  cases out with
  | inl value =>
    cases onward
    rw [List.append_nil]
    exact .inl (.refused prepared)
  | inr frame =>
    obtain ⟨result,_,_,_,reads,called,rfl⟩ := onward.unbind
    obtain ⟨_,_,_,closing,updates,finish,rfl⟩ := called.unbind
    cases reads
    cases updates
    exact .inr ⟨frame,s,opening,closing,.entered prepared,.returned rfl finish,rfl⟩

def nameCopy : Address := ⟨0x1000,by decide⟩
def resultCopy : Address := ⟨0x1010,by decide⟩
def paramCopy : Address := ⟨0x1020,by decide⟩
def stringArgument (text : String) (copy : Address) : JSValueConst := ⟨.string text,none,none,some copy⟩
def intArgument (v : BitVec 32) : JSValueConst := (JSValue.int v).argument
def nullArgument : JSValueConst := JSValue.null.argument

def plainLibffi : Libffi := ⟨fun _ => true,fun _ => true⟩
def absPrototype : Prototype := ⟨"abs",.code 0x2000,.FFI_DEFAULT_ABI,.sint32,[.sint32]⟩
def absDefine : List JSValueConst :=
  [stringArgument "abs" nameCopy,intArgument 0x2000,nullArgument,stringArgument "int" resultCopy,stringArgument "int" paramCopy]
def absCall : List JSValueConst := [stringArgument "abs" nameCopy,intArgument (-5)]
def absRequest : Request := ⟨69,.code 0x2000,.sint32,[.integral 32 (-5)]⟩
def absFrame : JsFrame := ⟨⟨72,nameCopy,"abs"⟩,.alloc MAX_PARAMETERS,0,⟨69,some 73,some 74,some 75,absRequest⟩⟩

def absLog : List Event :=
  [.acquire 66 nameCopy,.acquire 67 resultCopy,.acquire 68 paramCopy,
   .malloc 69,.malloc 70,.malloc 71,.ffi_prep_cif absPrototype.cif true,.release 66,.release 67,.release 68]

def absDefined : Record := ⟨.define plainLibffi absDefine,absLog,some (.bool true)⟩
def initialisation : Record := ⟨.init,(List.range' 0 66).map .malloc,none⟩
def absHistory : List Record := [initialisation,absDefined]

def freshMachine : Machine := ⟨⟨define_types [],[],false,66⟩,[]⟩
def absMachine : Machine := ⟨⟨define_types [],[nodeOf 69 absPrototype],false,72⟩,[]⟩

theorem fresh_initialised : Step .start initialisation freshMachine := .init (by decide +kernel)
theorem fresh_reached : Reached [initialisation] freshMachine := .snoc .nil fresh_initialised
theorem abs_defined : Step freshMachine absDefined absMachine := .define (by decide +kernel)
theorem abs_reached : Reached absHistory absMachine := .snoc fresh_reached abs_defined

def absOpening : List Event := [.acquire 72 nameCopy,.malloc 73,.malloc 74,.malloc 75,.ffi_call absRequest]
def absCalled : Machine := ⟨{absMachine.ctx with fresh := 76},[absFrame]⟩

theorem abs_entered : Step absMachine ⟨.call absCall,absOpening,none⟩ absCalled := .entered (by decide +kernel)

end QjsFfi
